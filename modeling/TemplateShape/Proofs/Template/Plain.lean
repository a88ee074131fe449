import TemplateShape.Proofs.Template.Conditions
import TemplateShape.Proofs.Template.Exchange
import TemplateShape.Proofs.Template.Lookahead

/-! # Templates of plain tags

Tags in their plainest form, one after the other. Each shows one use, and the passes see just these
uses. So the order of the tags does not matter. -/

namespace TemplateShape

open Scan

theorem Pass.matchesOf_loop_eq_nil {template : List Char}
    (hclose : matchesOf Tag.loopClose template = []) : matchesOf Tag.loop template = [] := by
  rw [matchesOf, findAll_eq_matchesFrom]
  apply matchesFrom_eq_nil
  intro suffix hsuffix
  cases hloop : Tag.loop suffix with
  | none => rfl
  | some found =>
      have hsome : (Tag.loop suffix).isSome := by simp [hloop]
      obtain ⟨header, behind, hheader, hbody⟩ := Tag.isSome_loop_iff.mp hsome
      obtain ⟨place, hplace, hthere⟩ := isSome_before_iff.mp hbody
      obtain ⟨⟨u, after⟩, hafter⟩ := Option.isSome_iff_exists.mp hthere
      have htemplate : place <:+ template :=
        (hplace.trans (Tag.apart_loopHeader.shorter hheader).1).trans hsuffix
      have hmem : u ∈ matchesOf Tag.loopClose template :=
        Tag.apart_loopClose.mem_findAll htemplate hafter
      simp [hclose] at hmem

/-! ## Plain tags -/

abbrev Identifier := { name : String // Tag.IsName name }

/-- Names with points between them, few enough to be written. -/
structure DottedPath where
  root : Identifier
  rest : List Identifier
  short : rest.length < Finding.depthLimit

def DottedPath.path (dotted : DottedPath) : NamePath :=
  ⟨dotted.root, dotted.rest.map Subtype.val⟩

theorem DottedPath.isWritten (dotted : DottedPath) : Condition.IsWritten dotted.path := by
  intro name hname
  rcases List.mem_cons.mp hname with rfl | hrest
  · exact dotted.root.property
  · obtain ⟨identifier, -, rfl⟩ := List.mem_map.mp hrest
    exact identifier.property

theorem DottedPath.depth_le (dotted : DottedPath) : dotted.path.depth ≤ Finding.depthLimit := by
  have hshort := dotted.short
  simp only [NamePath.depth, DottedPath.path, List.length_map]
  omega

/-- A tag in its plain form, with single blanks between its words. -/
inductive PlainTag
  | output (path : DottedPath)
  | assignment (target : Identifier) (source : DottedPath)
  | loop (item list : Identifier)
  | entriesLoop (key value mapping : Identifier)
  | condition (path : DottedPath)

namespace PlainTag

def text : PlainTag → List Char
  | .output path => ['{', '{', ' '] ++ path.path.text.toList ++ [' ', '}', '}']
  | .assignment target source =>
      block ("set " ++ target.val ++ " = " ++ source.path.text)
  | .loop item list => block ("for " ++ item.val ++ " in " ++ list.val)
  | .entriesLoop key value mapping =>
      block ("for " ++ key.val ++ ", " ++ value.val ++ " in " ++ mapping.val ++ ".items()")
  | .condition path => block ("if " ++ path.path.text)
where
  /-- A block tag around a text. -/
  block (inner : String) : List Char :=
    ['{', '%', ' '] ++ inner.toList ++ [' ', '%', '}']

def use : PlainTag → Finding
  | .output path => .printed path.path
  | .assignment _ source => .assigned source.path
  | .loop _ list => .looped list
  | .entriesLoop _ _ mapping => .entriesLooped mapping
  | .condition path => .tested path.path

def template (tags : List PlainTag) : String :=
  String.ofList (tags.flatMap text)

theorem isMovable_use (tag : PlainTag) : tag.use.IsMovable := by
  cases tag with
  | output path => exact path.depth_le
  | assignment target source => exact source.depth_le
  | loop item list => trivial
  | entriesLoop key value mapping => trivial
  | condition path => exact path.depth_le

/-! ## Texts of tags -/

variable (rest : List Char)

theorem text_assignment (target : Identifier) (source : DottedPath) :
    (assignment target source).text ++ rest = '{' :: '%' :: ' ' :: 's' :: 'e' :: 't' :: ' ' ::
      (target.val.toList ++ ' ' :: '=' :: ' ' ::
        (source.path.text.toList ++ ' ' :: '%' :: '}' :: rest)) := by
  simp [text, text.block]

theorem text_loop (item list : Identifier) :
    (loop item list).text ++ rest = '{' :: '%' :: ' ' :: 'f' :: 'o' :: 'r' :: ' ' ::
      (item.val.toList ++ ' ' :: 'i' :: 'n' :: ' ' ::
        (list.val.toList ++ ' ' :: '%' :: '}' :: rest)) := by
  simp [text, text.block]

theorem text_entriesLoop (key value mapping : Identifier) :
    (entriesLoop key value mapping).text ++ rest = '{' :: '%' :: ' ' :: 'f' :: 'o' :: 'r' :: ' ' ::
      (key.val.toList ++ ',' :: ' ' :: (value.val.toList ++ ' ' :: 'i' :: 'n' :: ' ' ::
        (mapping.val.toList ++ '.' :: 'i' :: 't' :: 'e' :: 'm' :: 's' :: '(' :: ')' :: ' ' ::
          '%' :: '}' :: rest))) := by
  simp [text, text.block]

theorem text_condition (path : DottedPath) :
    (condition path).text ++ rest = '{' :: '%' :: ' ' :: 'i' :: 'f' :: ' ' ::
      (path.path.text.toList ++ ' ' :: '%' :: '}' :: rest) := by
  simp [text, text.block]

theorem text_output (path : DottedPath) :
    (output path).text ++ rest = '{' :: '{' :: ' ' ::
      (path.path.text.toList ++ ' ' :: '}' :: '}' :: rest) := by
  simp [text]

/-! ## What scanners take of tags -/

theorem blanks_path (path : DottedPath) :
    blanks (' ' :: (path.path.text.toList ++ rest)) = some ((), path.path.text.toList ++ rest) := by
  rw [toList_text, List.append_assoc]
  exact blanks_name path.root.property _

theorem namePath_path (path : DottedPath) :
    namePath (path.path.text.toList ++ ' ' :: rest) = some (path.path, ' ' :: rest) :=
  namePath_append path.isWritten (by decide) (by decide) rest

theorem blockStart_set (target : Identifier) :
    Tag.blockStart "set" ('{' :: '%' :: ' ' :: 's' :: 'e' :: 't' :: ' ' ::
      (target.val.toList ++ rest)) = some ((), target.val.toList ++ rest) :=
  blanks1_name target.property rest

theorem blockStart_for (item : Identifier) :
    Tag.blockStart "for" ('{' :: '%' :: ' ' :: 'f' :: 'o' :: 'r' :: ' ' ::
      (item.val.toList ++ rest)) = some ((), item.val.toList ++ rest) :=
  blanks1_name item.property rest

theorem literal_singleton (c : Char) : literal [c] (c :: rest) = some ((), rest) :=
  literal_append [c] rest

theorem word_in : word "in" ('i' :: 'n' :: rest) = some ((), rest) := rfl

theorem assignment_text (target : Identifier) (source : DottedPath) :
    Tag.assignment ((assignment target source).text ++ rest) = some (source.path, rest) := by
  rw [text_assignment, Tag.assignment, bind_of_some (blockStart_set _ target),
    bind_of_some (name_append target.property (by decide) _),
    bind_of_some (blanks_blank (by decide) _), bind_of_some (literal_singleton _ '='),
    bind_of_some (blanks_path _ source), bind_of_some (namePath_path _ source)]
  rfl

theorem loopHeader_text (item list : Identifier) :
    Tag.loopHeader ((loop item list).text ++ rest) = some (⟨item, list⟩, rest) := by
  rw [text_loop, Tag.loopHeader, bind_of_some (blockStart_for _ item),
    bind_of_some (wordRun_append item.property (by decide) _),
    bind_of_some (blanks1_blank (by decide) _), bind_of_some (word_in _),
    bind_of_some (blanks1_name list.property _),
    bind_of_some (name_append list.property (by decide) _)]
  rfl

theorem entriesHeader_text (key value mapping : Identifier) :
    Tag.entriesHeader ((entriesLoop key value mapping).text ++ rest) =
      some (mapping.val, rest) := by
  rw [text_entriesLoop, Tag.entriesHeader, bind_of_some (blockStart_for _ key),
    bind_of_some (wordRun_append key.property (by decide) _),
    bind_of_some (literal_singleton _ ','), bind_of_some (blanks_name value.property _),
    bind_of_some (wordRun_append value.property (by decide) _),
    bind_of_some (blanks1_blank (by decide) _), bind_of_some (word_in _),
    bind_of_some (blanks1_name mapping.property _),
    bind_of_some (name_append mapping.property (by decide) _)]
  rfl

theorem outputOpen_braces : Tag.outputOpen ('{' :: '{' :: rest) = some ((), rest) := rfl

theorem output_text (path : DottedPath) :
    Tag.output ((output path).text ++ rest) = some (path.path, rest) := by
  rw [text_output, Tag.output, bind_of_some (outputOpen_braces _),
    bind_of_some (blanks_path _ path), bind_of_some (namePath_path _ path)]
  rfl

theorem indexedOutput_text (path : DottedPath) :
    Tag.indexedOutput ((output path).text ++ rest) = none := by
  rw [text_output, Tag.indexedOutput, bind_of_some (outputOpen_braces _),
    bind_of_some (blanks_path _ path), bind_of_some (namePath_path _ path)]
  rfl

theorem conditionValue_text (path : DottedPath) :
    Tag.conditionValue (' ' :: (path.path.text.toList ++ [' '])) rest =
      some (path.path.text.toList ++ [' '], rest) := by
  obtain ⟨c, cs, hpath, hstart⟩ := Condition.exists_head_text path.isWritten
  have hspace : Blank.isBlank ' ' = true := by decide
  have hc : Blank.isBlank c = false := isBlank_of_isWord (Ascii.isWord_of_isNameStart hstart)
  have hdrop : (' ' :: c :: (cs ++ [' '])).dropWhile Blank.isBlank = c :: (cs ++ [' ']) := by
    simp [hspace, hc]
  rw [hpath, List.cons_append, Tag.conditionValue, if_pos hspace, hdrop]
  rfl

theorem condition_text (path : DottedPath) :
    Tag.condition ((condition path).text ++ rest) =
      some (path.path.text.toList ++ [' '], rest) := by
  have hpercent : ∀ c ∈ ' ' :: (path.path.text.toList ++ [' ']), (c != '%') = true := by
    have hpath : '%' ∉ path.path.text.toList := path.isWritten.notMem_text (by decide) (by decide)
    intro c hc
    rw [bne_iff_ne]
    rintro rfl
    simp [hpath] at hc
  have hbody : Tag.condition ((condition path).text ++ rest) =
      Tag.conditionBody ((' ' :: (path.path.text.toList ++ [' '])) ++ '%' :: '}' :: rest) := by
    rw [text_condition, Tag.condition_eq, List.cons_append, List.append_assoc]
    rfl
  have hclose : Tag.blockClose ('%' :: '}' :: rest) = some ((), rest) := rfl
  rw [hbody, Tag.conditionBody, bind_of_some (run_append hpercent (by decide) _),
    bind_of_some hclose, conditionValue_text]

/-! ## Where tags begin -/

/-- What a scanner takes begins with an opening brace, and no blank stands behind that. -/
def Opens {α : Type} (scan : Scan α) : Prop :=
  ∀ text a rest, scan text = some (a, rest) →
    ∃ second behind, text = '{' :: second :: behind ∧ second ≠ ' '

theorem opens_blockOpen {α : Type} (next : Unit → Scan α) : Opens (Tag.blockOpen >>= next) := by
  intro text a rest hscan
  obtain ⟨u, middle, hopen, -⟩ := bind_eq_some_iff.mp hscan
  exact ⟨'%', middle, literal_eq_some_iff.mp hopen, by decide⟩

theorem opens_outputOpen {α : Type} (next : Unit → Scan α) : Opens (Tag.outputOpen >>= next) := by
  intro text a rest hscan
  obtain ⟨u, middle, hopen, -⟩ := bind_eq_some_iff.mp hscan
  exact ⟨'{', middle, literal_eq_some_iff.mp hopen, by decide⟩

theorem opens_blockStart {α : Type} (first : String) (next : Unit → Scan α) :
    Opens (Tag.blockStart first >>= next) := by
  rw [Tag.blockStart, bind_assoc]
  exact opens_blockOpen _

theorem brace_notMem_path (path : DottedPath) : '{' ∉ path.path.text.toList :=
  path.isWritten.notMem_text (by decide) (by decide)

theorem brace_notMem_name (name : Identifier) : '{' ∉ name.val.toList := by
  intro hmem
  have hword := isWord_of_mem_name name.property hmem
  exact absurd hword (by decide)

theorem exists_text_eq (tag : PlainTag) :
    ∃ second body, tag.text = '{' :: second :: ' ' :: body ∧ '{' ∉ body := by
  cases tag with
  | output path => exact ⟨'{', _, rfl, by simp [brace_notMem_path]⟩
  | assignment target source =>
      exact ⟨'%', _, rfl, by simp [brace_notMem_path, brace_notMem_name]⟩
  | loop item list => exact ⟨'%', _, rfl, by simp [brace_notMem_name]⟩
  | entriesLoop key value mapping => exact ⟨'%', _, rfl, by simp [brace_notMem_name]⟩
  | condition path => exact ⟨'%', _, rfl, by simp [brace_notMem_path]⟩

theorem text_ne_nil (tag : PlainTag) : tag.text ≠ [] := by
  obtain ⟨second, body, htext, -⟩ := exists_text_eq tag
  simp [htext]

/-- No tag begins inside a plain tag. -/
theorem Opens.eq_none_inside {α : Type} {scan : Scan α} (h : Opens scan) (tag : PlainTag)
    (before : List Char) (c : Char) (after : List Char) (htext : tag.text = before ++ c :: after)
    (hbefore : before ≠ []) : scan (c :: after ++ rest) = none := by
  cases hscan : scan (c :: after ++ rest) with
  | none => rfl
  | some found =>
      obtain ⟨second, behind, hopen, hsecond⟩ := h _ found.1 found.2 hscan
      obtain ⟨hc, hbehind⟩ := List.cons.inj hopen
      obtain ⟨mark, body, hbody, hbrace⟩ := exists_text_eq tag
      rw [hbody] at htext
      match before, hbefore with
      | [first], _ =>
          -- it would begin with the second character, and behind that stands a blank
          have hafter : ' ' :: body = after := (List.cons.inj (List.cons.inj htext).2).2
          rw [← hafter] at hbehind
          exact absurd (List.cons.inj hbehind).1.symm hsecond
      | first :: other :: before, _ =>
          have htail : ' ' :: body = before ++ c :: after :=
            (List.cons.inj (List.cons.inj htext).2).2
          have hmem : c ∈ ' ' :: body := by simp [htail]
          rw [hc] at hmem
          simp [hbrace] at hmem

/-- In a template of plain tags a scanner finds what it takes from the single tags. -/
theorem findAll_template {α : Type} {scan : Scan α} {value : PlainTag → Option α}
    (hopens : Opens scan)
    (hvalue : ∀ tag rest, scan (text tag ++ rest) = (value tag).map fun a => (a, rest))
    (tags : List PlainTag) :
    Pass.matchesOf scan (tags.flatMap text) = tags.filterMap value :=
  findAll_flatMap text_ne_nil hvalue
    (fun tag rest before c after => hopens.eq_none_inside rest tag before c after) tags

/-! ## What the passes see -/

def source? : PlainTag → Option NamePath
  | .assignment _ source => some source.path
  | _ => none

def printed? : PlainTag → Option NamePath
  | .output path => some path.path
  | _ => none

def header? : PlainTag → Option Tag.LoopHeader
  | .loop item list => some ⟨item, list⟩
  | _ => none

def mapping? : PlainTag → Option String
  | .entriesLoop _ _ mapping => some mapping
  | _ => none

def expression? : PlainTag → Option (List Char)
  | .condition path => some (path.path.text.toList ++ [' '])
  | _ => none

variable (tag : PlainTag)

theorem assignment_eq : Tag.assignment (tag.text ++ rest) =
    tag.source?.map fun source => (source, rest) := by
  cases tag with
  | output path => rfl
  | assignment target source => exact assignment_text rest target source
  | loop item list => rw [text_loop]; rfl
  | entriesLoop key value mapping => rw [text_entriesLoop]; rfl
  | condition path => rw [text_condition]; rfl

theorem output_eq : Tag.output (tag.text ++ rest) =
    tag.printed?.map fun path => (path, rest) := by
  cases tag with
  | output path => exact output_text rest path
  | assignment target source => rfl
  | loop item list => rfl
  | entriesLoop key value mapping => rfl
  | condition path => rfl

theorem loopHeader_eq : Tag.loopHeader (tag.text ++ rest) =
    tag.header?.map fun header => (header, rest) := by
  cases tag with
  | output path => rfl
  | assignment target source => rw [text_assignment]; rfl
  | loop item list => exact loopHeader_text rest item list
  | entriesLoop key value mapping =>
      rw [text_entriesLoop, Tag.loopHeader, bind_of_some (blockStart_for _ key),
        bind_of_some (wordRun_append key.property (by decide) _)]
      rfl
  | condition path => rw [text_condition]; rfl

theorem entriesHeader_eq : Tag.entriesHeader (tag.text ++ rest) =
    tag.mapping?.map fun mapping => (mapping, rest) := by
  cases tag with
  | output path => rfl
  | assignment target source => rw [text_assignment]; rfl
  | loop item list =>
      rw [text_loop, Tag.entriesHeader, bind_of_some (blockStart_for _ item),
        bind_of_some (wordRun_append item.property (by decide) _)]
      rfl
  | entriesLoop key value mapping => exact entriesHeader_text rest key value mapping
  | condition path => rw [text_condition]; rfl

theorem condition_eq : Tag.condition (tag.text ++ rest) =
    tag.expression?.map fun expression => (expression, rest) := by
  cases tag with
  | output path => rfl
  | assignment target source => rw [text_assignment]; rfl
  | loop item list => rw [text_loop]; rfl
  | entriesLoop key value mapping => rw [text_entriesLoop]; rfl
  | condition path => exact condition_text rest path

theorem indexedOutput_eq_none : Tag.indexedOutput (tag.text ++ rest) = none := by
  cases tag with
  | output path => exact indexedOutput_text rest path
  | assignment target source => rfl
  | loop item list => rfl
  | entriesLoop key value mapping => rfl
  | condition path => rfl

theorem loopClose_eq_none : Tag.loopClose (tag.text ++ rest) = none := by
  cases tag with
  | output path => rfl
  | assignment target source => rw [text_assignment]; rfl
  | loop item list => rw [text_loop]; rfl
  | entriesLoop key value mapping => rw [text_entriesLoop]; rfl
  | condition path => rw [text_condition]; rfl

/-- The uses that a pass sees are those of its kind if its scanner takes them from single tags. -/
theorem flatMap_matchesOf {α : Type} {scan : Scan α} {value : PlainTag → Option α}
    {toUses : α → List Finding} {pass : Pass} (hopens : Opens scan)
    (hvalue : ∀ tag rest, scan (text tag ++ rest) = (value tag).map fun a => (a, rest))
    (huses : ∀ tag, (value tag).toList.flatMap toUses =
      if tag.use.pass = pass then [tag.use] else []) (tags : List PlainTag) :
    (Pass.matchesOf scan (tags.flatMap text)).flatMap toUses =
      (tags.map use).filter (·.pass = pass) := by
  rw [findAll_template hopens hvalue]
  induction tags with
  | nil => rfl
  | cons tag tags ih =>
      have hfirst : ((tag :: tags).filterMap value).flatMap toUses =
          (value tag).toList.flatMap toUses ++ (tags.filterMap value).flatMap toUses := by
        cases hvalue : value tag <;> simp [hvalue]
      rw [hfirst, huses, ih, List.map_cons, List.filter_cons]
      by_cases hpass : tag.use.pass = pass <;> simp [hpass]

theorem matchesOf_loopClose (tags : List PlainTag) :
    Pass.matchesOf Tag.loopClose (tags.flatMap text) = [] := by
  have hnone : tags.filterMap (fun _ => (none : Option Unit)) = [] := by simp
  rw [← hnone]
  exact findAll_template (opens_blockOpen _) (fun tag rest => loopClose_eq_none rest tag) tags

/-- A pass sees the uses of its kind, in the order of the tags. -/
theorem uses_eq (tags : List PlainTag) (pass : Pass) :
    Pass.uses (tags.flatMap text) pass = (tags.map use).filter (·.pass = pass) := by
  cases pass with
  | assignment =>
      rw [Pass.uses, List.map_eq_flatMap]
      apply flatMap_matchesOf (opens_blockStart "set" _) fun tag rest => assignment_eq rest tag
      intro tag
      cases tag <;> rfl
  | output =>
      rw [Pass.uses, List.map_eq_flatMap]
      apply flatMap_matchesOf (opens_outputOpen _) fun tag rest => output_eq rest tag
      intro tag
      cases tag <;> rfl
  | loop =>
      rw [Pass.uses, List.map_eq_flatMap]
      apply flatMap_matchesOf (opens_blockStart "for" _) fun tag rest => loopHeader_eq rest tag
      intro tag
      cases tag <;> rfl
  | entriesLoop =>
      rw [Pass.uses, List.map_eq_flatMap]
      apply flatMap_matchesOf (opens_blockStart "for" _) fun tag rest => entriesHeader_eq rest tag
      intro tag
      cases tag <;> rfl
  | condition =>
      apply flatMap_matchesOf (opens_blockOpen _) fun tag rest => condition_eq rest tag
      intro tag
      cases tag with
      | condition path =>
          have hreads : Condition.reads (fun _ => false) (path.path.text.toList ++ [' ']) =
              [path.path] := Condition.reads_text path.isWritten _
          simp [expression?, hreads, use, Finding.pass]
      | _ => rfl
  | itemAccess =>
      have hnone : ∀ tag rest, Tag.indexedOutput (text tag ++ rest) =
          (none : Option Tag.IndexedPath).map fun path => (path, rest) :=
        fun tag rest => indexedOutput_eq_none rest tag
      rw [Pass.uses, List.map_eq_flatMap]
      apply flatMap_matchesOf (opens_outputOpen _) hnone
      intro tag
      cases tag <;> rfl
  | loopItems =>
      rw [Pass.uses, Pass.matchesOf_loop_eq_nil (matchesOf_loopClose tags), List.map_nil]
      apply Eq.symm
      apply List.filter_eq_nil_iff.mpr
      intro finding hfinding
      obtain ⟨tag, -, rfl⟩ := List.mem_map.mp hfinding
      cases tag <;> simp [use, Finding.pass]

/-! ## The order of tags -/

theorem uses_perm {tags others : List PlainTag} (h : tags.Perm others) (pass : Pass) :
    (Pass.uses (template tags).toList pass).Perm (Pass.uses (template others).toList pass) := by
  rw [template, template, String.toList_ofList, String.toList_ofList, uses_eq, uses_eq]
  exact (h.map use).filter _

theorem isMovable_of_mem_uses {tags : List PlainTag} {pass : Pass} {finding : Finding}
    (h : finding ∈ Pass.uses (template tags).toList pass) : finding.IsMovable := by
  rw [template, String.toList_ofList, uses_eq] at h
  obtain ⟨tag, -, rfl⟩ := List.mem_map.mp (List.mem_filter.mp h).1
  exact isMovable_use tag

/-- The order of tags does not matter. However tags in their plain form are permuted, the outline
has the same names with the same shapes; only the order of keys may differ, at any level. -/
theorem order_does_not_matter (settings : Settings) {tags others : List PlainTag}
    (h : tags.Perm others) :
    Json.Alike (Outline.ofTemplate settings (template tags)).toJson
      (Outline.ofTemplate settings (template others)).toJson :=
  Outline.alike_toJson_of_perm settings (uses_perm h) fun _ _ => isMovable_of_mem_uses

/-- Whether `a.b` is printed in front of a test of `a` or behind it, the outline is the same. -/
theorem order_does_not_matter_below :
    ∃ tags others : List PlainTag, template tags = "{{ a.b }}{% if a %}" ∧
      template others = "{% if a %}{{ a.b }}" ∧ tags.Perm others ∧
      Json.Alike (Outline.ofTemplate {} (template tags)).toJson
        (Outline.ofTemplate {} (template others)).toJson := by
  refine ⟨[.output ⟨⟨"a", by decide⟩, [⟨"b", by decide⟩], by decide⟩,
      .condition ⟨⟨"a", by decide⟩, [], by decide⟩],
    [.condition ⟨⟨"a", by decide⟩, [], by decide⟩,
      .output ⟨⟨"a", by decide⟩, [⟨"b", by decide⟩], by decide⟩],
    by decide +kernel, by decide +kernel, .swap _ _ [], ?_⟩
  exact order_does_not_matter {} (.swap _ _ [])

end PlainTag

end TemplateShape
