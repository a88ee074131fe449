import TemplateShape.Proofs.Scan.Borders
import TemplateShape.Proofs.Template.Lists
import TemplateShape.Proofs.Template.Plain

/-! # Loops in any surroundings

A loop reaches to the first end of a loop behind its header, and the search for loops goes on behind
that end. So a loop that stands inside another is passed over with its header: the body of the outer
one ends where its own body ends. A loop is seen with its own body if every loop in front of it has
ended by then. -/

namespace TemplateShape

open Scan

/-! ## Shapes with structure -/

namespace Shape

def isStructured : Shape → Bool
  | .object _ => true
  | .array items => items.any isContainer
  | _ => false

theorem isStructured_eq (shape : Shape) :
    shape.isStructured = !(shape.isPlain || shape.isPlainList) := by
  cases shape with
  | array items =>
      have hitems : (!items.all isPlain) = items.any isContainer := List.not_all_eq_any_not
      simp [isStructured, isPlain, isPlainList, hitems]
  | object fields => rfl
  | text value => rfl
  | flag value => rfl

theorem isStructured_sampleItems (fields : List String) :
    (Finding.sampleItems fields).isStructured = true := rfl

theorem isContainer_of_isStructured {shape : Shape} (h : shape.isStructured = true) :
    shape.isContainer = true := by
  cases shape <;> first | rfl | cases h

/-- A loop that prints fields of the items gives a list its structure, unless it has one. -/
theorem isStructured_withItems (shape : Shape) {loops : List Tag.Loop} {loop : Tag.Loop}
    (hloop : loop ∈ loops) (hfields : loop.fields ≠ []) :
    (shape.withItems loops).isStructured = true := by
  rw [withItems]
  split
  · have hsome : (loops.find? fun loop => !loop.fields.isEmpty).isSome := by
      rw [List.find?_isSome]
      exact ⟨loop, hloop, by simpa using hfields⟩
    obtain ⟨first, hfirst⟩ := Option.isSome_iff_exists.mp hsome
    rw [hfirst]
    exact isStructured_sampleItems first.fields
  · rename_i hopen
    rw [isStructured_eq]
    simpa using hopen

theorem isContainer_withItems {shape : Shape} (h : shape.isContainer = true)
    (loops : List Tag.Loop) : (shape.withItems loops).isContainer = true := by
  rcases withItems_eq_or shape loops with hsame | ⟨-, loop, -, -, hitems⟩
  · rw [hsame, h]
  · rw [hitems]
    exact isContainer_of_isStructured (isStructured_sampleItems loop.fields)

end Shape

/-! ## Texts that no loop is ended in -/

namespace Tag

/-- Every loop that begins in a text also ends in it. -/
def ClosesLoops (text : List Char) : Prop :=
  ∀ suffix ∈ text.tails, (loopHeader suffix).isSome → (loop suffix).isSome

instance (text : List Char) : Decidable (ClosesLoops text) :=
  inferInstanceAs (Decidable (∀ suffix ∈ text.tails, _ → _))

theorem before_loopClose_eq_none {text : List Char} (h : ¬ ['{', '%'] <:+: text) :
    before loopClose text = none := by
  cases hbefore : before loopClose text with
  | none => rfl
  | some found =>
      have hthere : (before loopClose text).isSome := by simp [hbefore]
      obtain ⟨suffix, hsuffix, hclose⟩ := isSome_before_iff.mp hthere
      obtain ⟨⟨u, rest⟩, hscan⟩ := Option.isSome_iff_exists.mp hclose
      obtain ⟨v, middle, hopen, -⟩ := bind_eq_some_iff.mp hscan
      have hbegins : ['{', '%'] <+: suffix := ⟨middle, (literal_eq_some_iff.mp hopen).symm⟩
      exact absurd (hbegins.isInfix.trans hsuffix.isInfix) h

theorem silent_loopClose {text : List Char} (h : ¬ ['{', '%'] <:+: text) (back : List Char) :
    Silent loopClose text ('{' :: back) :=
  silent_of_before_eq_none closed_loopClose marked_loopClose (before_loopClose_eq_none h) back

end Tag

theorem PlainTag.silent_loopClose (tag : PlainTag) (more : List Char) :
    Silent Tag.loopClose tag.text more := by
  rintro suffix ⟨front, hfront⟩ hne
  obtain ⟨c, after, rfl⟩ := List.exists_cons_of_ne_nil hne
  by_cases hwhole : front = []
  · have htext : c :: after = tag.text := by rw [← hfront, hwhole, List.nil_append]
    rw [htext]
    exact loopClose_eq_none more tag
  · exact (opens_blockOpen _).eq_none_inside more tag front c after hfront.symm hwhole

/-! ## A loop that prints a field of its items -/

/-- A loop that prints a field of its items. What else stands in its body has no block tag. -/
structure FieldLoop where
  item : Identifier
  list : Identifier
  field : Identifier
  prior : List Char
  later : List Char
  plainPrior : ¬ ['{', '%'] <:+: prior
  plainLater : ¬ ['{', '%'] <:+: later

namespace FieldLoop

/-- The loop of `{% for cell in cells %}{{ cell.value }}{% endfor %}`. -/
def cells : FieldLoop where
  item := ⟨"cell", by decide⟩
  list := ⟨"cells", by decide⟩
  field := ⟨"value", by decide⟩
  prior := []
  later := []
  plainPrior := by decide
  plainLater := by decide

variable (loop : FieldLoop)

def tag : PlainTag :=
  .output ⟨loop.item, [loop.field], by simp [Finding.depthLimit]⟩

def body : List Char :=
  loop.prior ++ loop.tag.text ++ loop.later

def unfinished : List Char :=
  (PlainTag.loop loop.item loop.list).text ++ loop.body

def text : List Char :=
  loop.unfinished ++ PlainTag.text.block "endfor"

def within (front back : String) : String :=
  front ++ String.ofList loop.text ++ back

def seen : Tag.Loop :=
  ⟨⟨loop.item, loop.list⟩, loop.body⟩

/-! ### The loop by itself -/

theorem text_tag (rest : List Char) : loop.tag.text ++ rest = '{' :: '{' :: ' ' ::
    (loop.item.val.toList ++ '.' :: (loop.field.val.toList ++ ' ' :: '}' :: '}' :: rest)) := by
  simp [tag, PlainTag.text, DottedPath.path, toList_text]

theorem printedField_tag (rest : List Char) : Tag.printedField (loop.tag.text ++ rest) =
    some (⟨loop.item, loop.field⟩, ' ' :: '}' :: '}' :: rest) := by
  rw [text_tag, Tag.printedField, bind_of_some (PlainTag.outputOpen_braces _),
    bind_of_some (blanks_name loop.item.property _),
    bind_of_some (wordRun_append loop.item.property (by decide) _),
    bind_of_some (PlainTag.literal_singleton _ '.'),
    bind_of_some (name_append loop.field.property (by decide) _)]
  rfl

theorem field_mem_fields : loop.field.val ∈ loop.seen.fields := by
  have hmem : ⟨loop.item, loop.field⟩ ∈ findAll (fun _ => Tag.printedField) loop.body :=
    Tag.apart_printedField.mem_findAll ⟨loop.prior, by simp [body]⟩
      (loop.printedField_tag loop.later)
  exact Tag.Loop.mem_fields_iff.mpr hmem

theorem silent_body (back : List Char) :
    Silent Tag.loopClose loop.body (PlainTag.text.block "endfor" ++ back) :=
  Silent.append
    (Silent.append (Tag.silent_loopClose loop.plainPrior _) (PlainTag.silent_loopClose _ _))
    (Tag.silent_loopClose loop.plainLater _)

/-- No loop ends in front of the end of this one. -/
theorem silent_unfinished (back : List Char) :
    Silent Tag.loopClose loop.unfinished (PlainTag.text.block "endfor" ++ back) :=
  (PlainTag.silent_loopClose _ _).append (loop.silent_body back)

theorem loopClose_endfor (back : List Char) :
    Tag.loopClose (PlainTag.text.block "endfor" ++ back) = some ((), back) := by
  have htext : PlainTag.text.block "endfor" ++ back =
      '{' :: '%' :: ' ' :: 'e' :: 'n' :: 'd' :: 'f' :: 'o' :: 'r' :: ' ' :: '%' :: '}' :: back := by
    simp [PlainTag.text.block]
  rw [htext]
  rfl

/-- Behind a text in which no loop ends, the end of this loop is the first one. -/
theorem before_loopClose_text {front back : List Char}
    (h : Silent Tag.loopClose front (loop.text ++ back)) :
    before Tag.loopClose (front ++ (loop.text ++ back)) =
      some (front ++ loop.unfinished, back) := by
  have hsilent : Silent Tag.loopClose (front ++ loop.unfinished)
      (PlainTag.text.block "endfor" ++ back) := by
    refine Silent.append ?_ (loop.silent_unfinished back)
    simpa [text] using h
  simpa [text] using hsilent.before_append (loopClose_endfor back)

theorem loopHeader_text (back : List Char) : Tag.loopHeader (loop.text ++ back) =
    some (⟨loop.item, loop.list⟩, loop.body ++ (PlainTag.text.block "endfor" ++ back)) := by
  simpa [text, unfinished] using PlainTag.loopHeader_text
    (loop.body ++ (PlainTag.text.block "endfor" ++ back)) loop.item loop.list

theorem loop_text (back : List Char) : Tag.loop (loop.text ++ back) = some (loop.seen, back) := by
  have hbody : before Tag.loopClose (loop.body ++ (PlainTag.text.block "endfor" ++ back)) =
      some (loop.body, back) :=
    (loop.silent_body back).before_append (loopClose_endfor back)
  rw [Tag.loop, bind_of_some (loop.loopHeader_text back), bind_of_some hbody]
  rfl

/-! ### The loop in its surroundings -/

/-- A loop that begins in front of this one, and that reaches into it, has its header in front of it
and ends with it. -/
theorem suffix_body_of_beyond {suffix rest back : List Char} {outer : Tag.Loop} (hne : suffix ≠ [])
    (h : Tag.loop (suffix ++ (loop.text ++ back)) = some (outer, rest))
    (hbeyond : rest.length < (loop.text ++ back).length) :
    (Tag.loopHeader suffix).isSome ∧ loop.unfinished <:+ outer.body := by
  obtain ⟨header, behind, hheader, hbehind⟩ := bind_eq_some_iff.mp h
  obtain ⟨body, rest', hbody, hpure⟩ := bind_eq_some_iff.mp hbehind
  obtain ⟨houter, rfl⟩ := Prod.mk.inj (Option.some.inj hpure)
  -- the header ends in front of the next opening brace, and that of this loop is one
  have hnext : Tag.loopHeader (suffix ++ (loop.text ++ back)) =
      (Tag.loopHeader suffix).map fun (a, rest) => (a, rest ++ (loop.text ++ back)) :=
    Tag.closed_loopHeader.append_next Tag.marked_loopHeader hne _
  rw [hnext] at hheader
  obtain ⟨⟨first, inner⟩, hinner, hpair⟩ := Option.map_eq_some_iff.mp hheader
  obtain ⟨rfl, rfl⟩ := Prod.mk.inj hpair
  have hopen : before Tag.loopClose inner = none :=
    (closed_before Tag.closed_loopClose Tag.apart_loopClose).eq_none_of_beyond hbody hbeyond
  have hsilent : Silent Tag.loopClose inner (loop.text ++ back) :=
    silent_of_before_eq_none Tag.closed_loopClose Tag.marked_loopClose hopen _
  rw [loop.before_loopClose_text hsilent] at hbody
  obtain ⟨rfl, -⟩ := Prod.mk.inj (Option.some.inj hbody)
  rw [hinner, ← houter]
  exact ⟨rfl, List.suffix_append inner loop.unfinished⟩

/-- The loop is seen with its own body, or an unfinished loop in front of it takes it in. -/
theorem seen_or_swallowed (front back : List Char) :
    loop.seen ∈ Template.loops (front ++ (loop.text ++ back)) ∨
      ¬ Tag.ClosesLoops front ∧
        ∃ outer ∈ Template.loops (front ++ (loop.text ++ back)),
          loop.unfinished <:+ outer.body := by
  have hall : Template.loops (front ++ (loop.text ++ back)) =
      matchesFrom (fun _ => Tag.loop) 0 none (front ++ (loop.text ++ back)) := rfl
  rw [hall]
  rcases matchesFrom_reaches (fun _ => Tag.loop) front (loop.text ++ back) (Nat.zero_le _) none with
    ⟨values, last, hthere⟩ | ⟨last, suffix, outer, rest, hsuffix, hne, hscan, hbeyond, hmem⟩
  · have hmem : loop.seen ∈ matchesFrom (fun _ => Tag.loop) 0 last (loop.text ++ back) :=
      mem_matchesFrom_of_some _ last (loop.loop_text back) (List.cons_ne_nil _ _)
    rw [hthere]
    exact .inl (List.mem_append_right values hmem)
  · obtain ⟨hheader, hbody⟩ := loop.suffix_body_of_beyond hne hscan hbeyond
    refine .inr ⟨?_, outer, hmem, hbody⟩
    intro hcloses
    have hclosed := hcloses suffix ((List.mem_tails _ _).mpr hsuffix) hheader
    simp [Tag.closed_loop.eq_none_of_beyond hscan hbeyond] at hclosed

end FieldLoop

/-! ## The list of the loop -/

namespace Template

variable {settings : Settings} {root : String}

/-- The list of a loop that is seen, and that prints a field of its items, has structure. -/
theorem isStructured_of_mem_loops {template : String} {loop : Tag.Loop}
    (hloop : loop ∈ loops template.toList) (hfields : loop.fields ≠ []) {shape : Shape}
    (h : (Outline.ofTemplate settings template).find? loop.header.list = some shape) :
    shape.isStructured = true := by
  rw [Outline.find?_ofTemplate_eq_withItems] at h
  obtain ⟨earlier, -, rfl⟩ := Option.map_eq_some_iff.mp h
  exact Shape.isStructured_withItems earlier (List.mem_filter.mpr ⟨hloop, by simp⟩) hfields

theorem exists_container_of_looped {template : String} (hlooped : root ∈ looped template.toList)
    (hignores : settings.ignores root = false) :
    ∃ shape, (Outline.ofTemplate settings template).find? root = some shape ∧
      shape.isContainer = true := by
  obtain ⟨earlier, hearlier, hcontainer⟩ := exists_container_beforeItems hlooped hignores
  refine ⟨_, ?_, Shape.isContainer_withItems hcontainer (loopsOver template.toList root)⟩
  rw [Outline.find?_ofTemplate_eq_withItems, hearlier]
  rfl

theorem list_mem_looped (loop : FieldLoop) (front back : List Char) :
    loop.list.val ∈ looped (front ++ (loop.text ++ back)) := by
  have hmem : (⟨loop.item, loop.list⟩ : Tag.LoopHeader) ∈
      Pass.matchesOf Tag.loopHeader (front ++ (loop.text ++ back)) :=
    Tag.apart_loopHeader.mem_findAll (List.suffix_append front _) (loop.loopHeader_text back)
  exact List.mem_map.mpr ⟨_, hmem, rfl⟩

/-- The list of a loop that prints a field of its items is an object or an array in all
surroundings. It has structure if all loops in front of the loop have ended by then, and the only
other case is that one of them has not, and that its body ends with the body of this loop. -/
theorem list_carries_printed_field (settings : Settings) (front back : String) (loop : FieldLoop)
    (hignores : settings.ignores loop.list = false) :
    ∃ shape, (Outline.ofTemplate settings (loop.within front back)).find? loop.list = some shape ∧
      shape.isContainer = true ∧
      (Tag.ClosesLoops front.toList → shape.isStructured = true) ∧
      (shape.isStructured = true ∨
        ∃ outer ∈ loops (loop.within front back).toList, loop.unfinished <:+ outer.body) := by
  have htext : (loop.within front back).toList = front.toList ++ (loop.text ++ back.toList) := by
    simp [FieldLoop.within]
  have hlooped : loop.list.val ∈ looped (loop.within front back).toList := by
    rw [htext]
    exact list_mem_looped loop front.toList back.toList
  obtain ⟨shape, hshape, hcontainer⟩ := exists_container_of_looped hlooped hignores
  have hseen : loop.seen ∈ loops (loop.within front back).toList → shape.isStructured = true :=
    fun hloop => isStructured_of_mem_loops hloop (List.ne_nil_of_mem loop.field_mem_fields) hshape
  refine ⟨shape, hshape, hcontainer, ?_⟩
  rw [htext] at hseen ⊢
  rcases loop.seen_or_swallowed front.toList back.toList with hloop | ⟨hopen, hswallowed⟩
  · exact ⟨fun _ => hseen hloop, .inl (hseen hloop)⟩
  · exact ⟨fun hcloses => absurd hcloses hopen, .inr hswallowed⟩

/-- The loop stands behind one that has ended, and in front of one that has not. -/
theorem list_carries_printed_field_between :
    FieldLoop.cells.within "{% for row in rows %}{% endfor %}" "{% for row in rows %}" =
      "{% for row in rows %}{% endfor %}" ++
        "{% for cell in cells %}{{ cell.value }}{% endfor %}" ++ "{% for row in rows %}" ∧
    Settings.ignores {} FieldLoop.cells.list = false ∧
    ∃ shape, (Outline.ofTemplate {} (FieldLoop.cells.within
        "{% for row in rows %}{% endfor %}" "{% for row in rows %}")).find? FieldLoop.cells.list =
      some shape ∧ shape.isStructured = true := by
  have hignores : Settings.ignores {} FieldLoop.cells.list = false := by decide +kernel
  obtain ⟨shape, hshape, -, hcloses, -⟩ := list_carries_printed_field {}
    "{% for row in rows %}{% endfor %}" "{% for row in rows %}" FieldLoop.cells hignores
  exact ⟨by decide +kernel, hignores, shape, hshape, hcloses (by decide +kernel)⟩

/-- A loop inside another one is passed over, and its list stays a list of plain values. -/
theorem not_every_list_carries_printed_field :
    ¬ ∀ (settings : Settings) (front back : String) (loop : FieldLoop),
      settings.ignores loop.list = false →
        ∃ shape,
          (Outline.ofTemplate settings (loop.within front back)).find? loop.list = some shape ∧
          shape.isStructured = true := by
  intro hall
  have hplain : ((Outline.ofTemplate {} (FieldLoop.cells.within "{% for row in rows %}"
      "{% endfor %}")).find? FieldLoop.cells.list).any Shape.isStructured = false := by
    decide +kernel
  obtain ⟨shape, hshape, hstructured⟩ :=
    hall {} "{% for row in rows %}" "{% endfor %}" FieldLoop.cells (by decide +kernel)
  rw [hshape] at hplain
  simp [hstructured] at hplain

end Template

end TemplateShape
