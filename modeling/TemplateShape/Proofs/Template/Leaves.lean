import TemplateShape.Proofs.Path
import TemplateShape.Proofs.Shape.Kind
import TemplateShape.Proofs.Template.Coverage
import TemplateShape.Proofs.Template.Names
import TemplateShape.Proofs.Template.Origin

/-! # What a leaf says

The plain value at the end of a path tells whether a condition tests the path. A write changes the
plain value at the end of its own path and no other, and nothing that prints comes behind the
tests. -/

namespace TemplateShape

/-! ## Plain values after a write -/

namespace Shape

/-- What is plain in a new place is what was written there. -/
theorem eq_leaf_of_put_freshPlace {leaf part : Shape} {rest : List Step}
    (h : (freshPlace rest).put rest leaf = part) (hpart : part.isPlain = true) :
    rest = [] ∧ part = leaf := by
  cases rest with
  | nil => exact ⟨rfl, h.symm⟩
  | cons step rest =>
      rw [← h, isPlain_put_cons] at hpart
      simp at hpart

/-- A plain value at the end of some keys stood there before a write, or it is what was written,
and the write goes along these keys. -/
theorem get?_put_of_isPlain {leaf part : Shape} (hleaf : leaf.isPlain = true) (shape : Shape)
    (path : List Step) (keys : List String)
    (h : (shape.put path leaf).get? (keys.map .key) = some part) (hpart : part.isPlain = true) :
    shape.get? (keys.map .key) = some part ∨ keys = path.map Step.text ∧ part = leaf := by
  induction path generalizing shape keys with
  | nil =>
      rw [put_nil, replaced] at h
      split at h
      · exact .inl h
      · have hend := get?_of_isPlain hleaf h
        exact .inr ⟨List.map_eq_nil_iff.mp hend.1, hend.2⟩
  | cons step rest ih =>
      cases keys with
      | nil =>
          have hput : shape.put (step :: rest) leaf = part := Option.some.inj h
          simp [← hput, isPlain_put_cons] at hpart
      | cons key keys =>
          rw [List.map_cons, get?_cons] at h
          rw [List.map_cons, get?_cons, List.map_cons]
          rcases put_cases shape step rest leaf with hput | ⟨i, -, hput⟩ | ⟨-, items, rfl, hput⟩
          · rw [hput, child?_key_object, Fields.find?_alter] at h
            rw [child?_key_eq]
            split at h
            · rename_i hkey
              subst hkey
              cases hfind : Fields.find? (shape.fields?.getD []) step.text with
              | some old =>
                  rw [hfind] at h
                  refine (ih old keys h).imp_right fun hwritten => ⟨?_, hwritten.2⟩
                  rw [hwritten.1]
              | none =>
                  rw [hfind] at h
                  right
                  rcases ih (freshPlace rest) keys h with hfresh | hwritten
                  · -- only the new place itself could be there before the write
                    have hkeys : keys = [] :=
                      (keyless_freshPlace rest).eq_nil (by rw [hfresh]; rfl)
                    subst hkeys
                    have hend := eq_leaf_of_put_freshPlace (Option.some.inj h) hpart
                    exact ⟨by rw [hend.1]; rfl, hend.2⟩
                  · exact ⟨by rw [hwritten.1], hwritten.2⟩
            · exact .inl h
          · rw [hput] at h
            simp at h
          · rw [hput] at h
            simp at h

/-- At the end of the path of a write stands what was written, or a container. -/
theorem eq_leaf_of_get?_put {leaf part : Shape} (shape : Shape) (names : List String)
    (h : (shape.put (names.map .key) leaf).get? (names.map .key) = some part)
    (hpart : part.isPlain = true) : part = leaf := by
  induction names generalizing shape with
  | nil =>
      have hput : shape.replaced leaf = part := Option.some.inj h
      rw [replaced] at hput
      split at hput
      · rename_i hcontainer
        simp [isContainer, hput, hpart] at hcontainer
      · exact hput.symm
  | cons name rest ih =>
      rw [List.map_cons] at h
      rcases put_key_cases shape name (rest.map .key) leaf with
        ⟨items, hput⟩ | ⟨fields, old, hput, hold⟩
      · rw [hput] at h
        simp [get?_cons] at h
      · rw [hput, get?_key_object hold] at h
        exact ih old h

end Shape

/-! ## The leaf of a row -/

/-- A row holds a container, and what is plain in it at the end of some keys is one value. -/
def RowMarks (keys : List String) (leaf : Shape) (row : Option Shape) : Prop :=
  ∃ shape, row = some shape ∧ shape.isPlain = false ∧
    ∀ part, shape.get? (keys.map .key) = some part → part.isPlain = true → part = leaf

theorem Outline.learned_some_of_not_isPlain {policy : Policy} (hpolicy : policy ≠ .restructure)
    {existing : Shape} (h : existing.isPlain = false) (shape : Shape) :
    learned policy shape (some existing) = existing := by
  cases policy with
  | keep => rfl
  | upgrade => simp [learned, Policy.replaces, Shape.yieldsTo, h]
  | restructure => exact absurd rfl hpolicy

namespace Finding

open Shape

def leafAt (keys : List String) : Finding → Option Shape
  | .assigned path | .printed path => if path.rest = keys then some Shape.printed else none
  | .tested path => if path.rest = keys then some Shape.tested else none
  | .looped _ | .entriesLooped _ | .indexed _ | .itemsPrinted .. => none

variable {keys : List String} {leaf : Shape}

theorem rowMarks_writeAt {shape other : Shape} (h : RowMarks keys leaf (some shape))
    (hother : other.isPlain = true) (path : NamePath) (further : List Step)
    (hwritten : keys = path.rest ++ further.map Step.text → other = leaf) :
    RowMarks keys leaf ((writeAt path further other).onRow (some shape)) := by
  by_cases hdepth : path.depth ≤ depthLimit
  · rcases h with ⟨existing, hrow, hcontainer, hmarks⟩
    have hshape : shape = existing := Option.some.inj hrow
    subst hshape
    rw [onRow_writeAt hdepth]
    refine ⟨_, rfl, ?_, ?_⟩
    · have hkind := (grows_put hother shape (path.below ++ further)).kind_eq hcontainer
      have hkinds := congrArg Kind.isContainer hkind
      simpa [hcontainer] using hkinds
    · intro part hpart hplain
      rcases get?_put_of_isPlain hother shape _ keys hpart hplain with hbefore | hnow
      · exact hmarks part hbefore hplain
      · have hbelow : path.below.map Step.text = path.rest := by
          simp [NamePath.below, Function.comp_def, Step.text]
        have hkeys : keys = path.rest ++ further.map Step.text := by
          rw [hnow.1, List.map_append, hbelow]
        exact hnow.2.trans (hwritten hkeys)
  · rw [writeAt, if_neg hdepth]
    exact h

theorem rowMarks_editsOfPath {row : Option Shape} (h : RowMarks keys leaf row) {policy : Policy}
    (hpolicy : policy ≠ .restructure) {other : Shape} (hother : other.isPlain = true)
    (path : NamePath) (hwritten : path.rest = keys → other = leaf) :
    RowMarks keys leaf ((editsOfPath policy path other).foldl Edit.onRow row) := by
  have hmarks := h
  rcases h with ⟨shape, hrow, hcontainer, -⟩
  subst hrow
  cases hbare : path.isBare with
  | true =>
      rw [foldl_editsOfPath_bare hbare,
        Outline.learned_some_of_not_isPlain Policy.noConfusion hcontainer]
      exact hmarks
  | false =>
      rw [foldl_editsOfPath_dotted hbare, Outline.learned_some_of_not_isPlain hpolicy hcontainer]
      apply rowMarks_writeAt hmarks hother
      intro hkeys
      apply hwritten
      simpa using hkeys.symm

/-- A use that writes no other plain value at the end of the keys leaves the value there. -/
theorem rowMarks_onRow {row : Option Shape} (h : RowMarks keys leaf row)
    (hkeys : ∀ key ∈ keys, Tag.IsName key) (settings : Settings) {finding : Finding}
    (hitems : finding.isItems = false)
    (hleaf : ∀ other, finding.leafAt keys = some other → other = leaf) :
    RowMarks keys leaf (finding.onRow settings row) := by
  have hlearned : ∀ new, RowMarks keys leaf (some (Outline.learned .upgrade new row)) := by
    intro new
    have hmarks := h
    rcases h with ⟨shape, hrow, hcontainer, -⟩
    subst hrow
    rw [Outline.learned_some_of_not_isPlain Policy.noConfusion hcontainer]
    exact hmarks
  cases finding with
  | assigned path =>
      apply rowMarks_editsOfPath h Policy.noConfusion isPlain_printed
      exact fun hpath => hleaf Shape.printed (if_pos hpath)
  | printed path =>
      apply rowMarks_editsOfPath h Policy.noConfusion isPlain_printed
      exact fun hpath => hleaf Shape.printed (if_pos hpath)
  | looped list => exact hlearned _
  | entriesLooped mapping => exact hlearned _
  | tested path =>
      rw [onRow_tested]
      apply rowMarks_editsOfPath h Policy.noConfusion isPlain_tested
      exact fun hpath => hleaf Shape.tested (if_pos hpath)
  | indexed path =>
      by_cases hindex : path.index ≤ settings.indexLimit
      · rw [onRow, edits, if_pos hindex]
        apply rowMarks_writeAt (hlearned _) isPlain_printed
        intro heq
        -- the last of the keys would be an index, which is no name
        have hname : Tag.IsName (Step.index path.index).text := hkeys _ (by simp [heq])
        simp [Tag.IsName, Step.not_isName_text_index] at hname
      · rw [onRow, edits, if_neg hindex]
        exact hlearned _
  | itemsPrinted list fields => simp [isItems] at hitems

theorem rowMarks_foldl_onRow {row : Option Shape} (h : RowMarks keys leaf row)
    (hkeys : ∀ key ∈ keys, Tag.IsName key) (settings : Settings) {findings : List Finding}
    (hitems : ∀ finding ∈ findings, finding.isItems = false)
    (hleaf : ∀ finding ∈ findings, ∀ other, finding.leafAt keys = some other → other = leaf) :
    RowMarks keys leaf (findings.foldl (onRow settings) row) :=
  List.foldlRecOn findings (onRow settings) h fun _ hafter finding hmem =>
    rowMarks_onRow hafter hkeys settings (hitems finding hmem) (hleaf finding hmem)

/-- The end of a path that is written is marked, whatever the row was. -/
theorem rowMarks_of_editsOfPath {policy : Policy} {path : NamePath} (hbare : path.isBare = false)
    (hdepth : path.depth ≤ depthLimit) (leaf : Shape) (row : Option Shape) :
    RowMarks path.rest leaf ((editsOfPath policy path leaf).foldl Edit.onRow row) := by
  rw [foldl_editsOfPath_dotted hbare, onRow_writeAt hdepth, List.append_nil]
  refine ⟨_, rfl, ?_, ?_⟩
  · rcases path with ⟨root, rest⟩
    cases rest with
    | nil => simp [NamePath.isBare] at hbare
    | cons name names => exact isPlain_put_cons _ _ _ leaf
  · intro part hpart
    exact eq_leaf_of_get?_put _ path.rest hpart

end Finding

/-! ## The leaf of a path -/

namespace Template

open Finding

/-- A use behind which no use writes another value decides about the leaf. -/
theorem rowMarks_of_usesOf {settings : Settings} {template : List Char} {root : String}
    {keys : List String} {leaf : Shape} {front back : List Finding} {finding : Finding}
    (huses : Pass.usesOf (Pass.all.take 6) template root = front ++ finding :: back)
    (hfinding : ∀ row, RowMarks keys leaf (finding.onRow settings row))
    (hkeys : ∀ key ∈ keys, Tag.IsName key)
    (hback : ∀ use ∈ back, ∀ other, use.leafAt keys = some other → other = leaf) :
    RowMarks keys leaf
      ((Pass.usesOf (Pass.all.take 6) template root).foldl (onRow settings) none) := by
  have hitems : ∀ use ∈ back, use.isItems = false := by
    intro use huse
    have hmem : use ∈ Pass.usesOf (Pass.all.take 6) template root := by
      rw [huses]
      exact List.mem_append_right front (List.mem_cons_of_mem finding huse)
    exact isItems_of_mem_usesOf_take_six hmem
  rw [huses, List.foldl_append, List.foldl_cons]
  exact rowMarks_foldl_onRow (hfinding _) hkeys settings hitems hback

variable {settings : Settings} {template : String} {path : NamePath}

theorem exists_beforeItems_of_get? {part : Shape} (hbare : path.isBare = false)
    (h : (Outline.ofTemplate settings template).get? path.steps = some part) :
    ∃ before, beforeItems settings template.toList path.root = some before ∧
      before.get? path.below = some part := by
  obtain ⟨shape, hshape, hpart⟩ := Option.bind_eq_some_iff.mp h
  rw [Outline.find?_ofTemplate_eq_withItems] at hshape
  obtain ⟨before, hbefore, rfl⟩ := Option.map_eq_some_iff.mp hshape
  refine ⟨before, hbefore, ?_⟩
  rcases Shape.withItems_eq_or before (loopsOver template.toList path.root) with
    heq | ⟨-, loop, -, -, heq⟩
  · rwa [heq] at hpart
  · -- no key leads into the sample of a loop
    rw [heq] at hpart
    have hrest : path.rest = [] :=
      (Shape.keyless_array _).eq_nil (congrArg Option.isSome hpart)
    simp [NamePath.isBare, hrest] at hbare

theorem exists_usesOf_eq (template : List Char) (root : String) :
    ∃ early, Pass.usesOf (Pass.all.take 6) template root =
      early ++ (((tested template).filter (·.root == root)).map .tested ++
        ((indexed template).filter (·.base.root == root)).map .indexed) := by
  rw [usesOf_take_six]
  simp only [← List.append_assoc]
  exact ⟨_, rfl⟩

theorem rowMarks_tested (hpath : path ∈ tested template.toList) (hbare : path.isBare = false)
    (hdepth : path.depth ≤ depthLimit) (hkeys : ∀ key ∈ path.rest, Tag.IsName key) :
    RowMarks path.rest Shape.tested
      ((Pass.usesOf (Pass.all.take 6) template.toList path.root).foldl (onRow settings) none) := by
  have hmem : path ∈ (tested template.toList).filter (·.root == path.root) :=
    List.mem_filter.mpr ⟨hpath, beq_self_eq_true _⟩
  obtain ⟨front, back, hsplit⟩ := List.append_of_mem hmem
  obtain ⟨early, huses⟩ := exists_usesOf_eq template.toList path.root
  have hall : Pass.usesOf (Pass.all.take 6) template.toList path.root =
      (early ++ front.map .tested) ++ .tested path :: (back.map .tested ++
        ((indexed template.toList).filter (·.base.root == path.root)).map .indexed) := by
    rw [huses, hsplit]
    simp
  apply rowMarks_of_usesOf hall _ hkeys
  · intro use huse other hother
    rcases List.mem_append.mp huse with hback | hback
    · obtain ⟨later, -, rfl⟩ := List.mem_map.mp hback
      simp only [leafAt, Option.ite_none_right_eq_some, Option.some.injEq] at hother
      exact hother.2.symm
    · obtain ⟨later, -, rfl⟩ := List.mem_map.mp hback
      simp [leafAt] at hother
  · intro row
    rw [onRow_tested]
    exact rowMarks_of_editsOfPath hbare hdepth Shape.tested row

/-- Without a test of the path, every use that writes its leaf prints. -/
theorem eq_printed_of_leafAt {use : Finding} (hshows : Shows template.toList use)
    (hroot : use.root = path.root) (htested : path ∉ tested template.toList) {other : Shape}
    (h : use.leafAt path.rest = some other) : other = Shape.printed := by
  have hpath : ∀ {source : NamePath} {leaf : Shape},
      (if source.rest = path.rest then some leaf else none) = some other →
        source.rest = path.rest ∧ leaf = other := by
    intro source leaf hleaf
    simpa using hleaf
  cases use with
  | assigned source => exact (hpath h).2.symm
  | printed source => exact (hpath h).2.symm
  | tested source =>
      have hsource : source = path := by
        cases source
        cases path
        simp_all [root, leafAt]
      exact absurd (hsource ▸ hshows) htested
  | looped list => simp [leafAt] at h
  | entriesLooped mapping => simp [leafAt] at h
  | indexed item => simp [leafAt] at h
  | itemsPrinted list fields => simp [leafAt] at h

theorem rowMarks_printed {finding : Finding}
    (hfinding : finding = .assigned path ∨ finding = .printed path)
    (hshows : Shows template.toList finding) (hbare : path.isBare = false)
    (hdepth : path.depth ≤ depthLimit) (hkeys : ∀ key ∈ path.rest, Tag.IsName key)
    (htested : path ∉ tested template.toList) :
    RowMarks path.rest Shape.printed
      ((Pass.usesOf (Pass.all.take 6) template.toList path.root).foldl (onRow settings) none) := by
  have hmem : finding ∈ Pass.usesOf (Pass.all.take 6) template.toList path.root := by
    apply mem_usesOf_take_six_iff.mpr
    rcases hfinding with rfl | rfl
    · exact ⟨hshows, rfl, rfl⟩
    · exact ⟨hshows, rfl, rfl⟩
  obtain ⟨front, back, huses⟩ := List.append_of_mem hmem
  apply rowMarks_of_usesOf huses _ hkeys
  · intro use huse other hother
    have hback : use ∈ Pass.usesOf (Pass.all.take 6) template.toList path.root := by
      rw [huses]
      exact List.mem_append_right front (List.mem_cons_of_mem finding huse)
    have hback := mem_usesOf_take_six_iff.mp hback
    exact eq_printed_of_leafAt hback.1 hback.2.1 htested hother
  · intro row
    rcases hfinding with rfl | rfl
    · exact rowMarks_of_editsOfPath hbare hdepth Shape.printed row
    · exact rowMarks_of_editsOfPath hbare hdepth Shape.printed row

theorem isWritten_of_mem_uses
    (h : path ∈ assigned template.toList ++ printed template.toList ++ tested template.toList) :
    Condition.IsWritten path := by
  simp only [List.mem_append] at h
  rcases h with (hassigned | hprinted) | htested
  · have hshows : Shows template.toList (.assigned path) := hassigned
    exact hshows.isWritten
  · have hshows : Shows template.toList (.printed path) := hprinted
    exact hshows.isWritten
  · have hshows : Shows template.toList (.tested path) := htested
    exact hshows.isWritten

/-- The plain value at the end of a path that goes below a variable tells how the path is used: it
is `true` if some condition tests the path, before or behind its other uses, and `""` if none does.
Neither the sample of a mapping nor a printed item ever takes its place. -/
theorem leaf_records_test
    (hpath : path ∈ assigned template.toList ++ printed template.toList ++ tested template.toList)
    (hbare : path.isBare = false) (hdepth : path.depth ≤ depthLimit) {leaf : Shape}
    (h : (Outline.ofTemplate settings template).get? path.steps = some leaf)
    (hleaf : leaf.isPlain = true) :
    leaf = if path ∈ tested template.toList then Shape.tested else Shape.printed := by
  have hwritten := isWritten_of_mem_uses hpath
  have hkeys : ∀ key ∈ path.rest, Tag.IsName key :=
    fun key hkey => hwritten key (List.mem_cons_of_mem path.root hkey)
  obtain ⟨before, hbefore, hpart⟩ := exists_beforeItems_of_get? hbare h
  have hignores : settings.ignores path.root = false := by
    rw [beforeItems, Draft.find?_ofTemplate] at hbefore
    by_contra hignores
    simp [hignores] at hbefore
  rw [beforeItems_eq hignores] at hbefore
  have hmarks : RowMarks path.rest
      (if path ∈ tested template.toList then Shape.tested else Shape.printed)
      ((Pass.usesOf (Pass.all.take 6) template.toList path.root).foldl (onRow settings) none) := by
    split
    · rename_i htested
      exact rowMarks_tested htested hbare hdepth hkeys
    · rename_i htested
      simp only [List.mem_append, htested, or_false] at hpath
      rcases hpath with hassigned | hprinted
      · exact rowMarks_printed (.inl rfl) hassigned hbare hdepth hkeys htested
      · exact rowMarks_printed (.inr rfl) hprinted hbare hdepth hkeys htested
  obtain ⟨shape, hshape, -, hvalue⟩ := hmarks
  have heq : before = shape := Option.some.inj (hbefore.symm.trans hshape)
  exact hvalue leaf (heq ▸ hpart) hleaf

/-- `a.b` is printed behind its test. -/
theorem leaf_records_test_behind :
    (⟨"a", ["b"]⟩ : NamePath) ∈ assigned "{% if a.b %}{{ a.b }}".toList ++
      printed "{% if a.b %}{{ a.b }}".toList ++ tested "{% if a.b %}{{ a.b }}".toList ∧
    (⟨"a", ["b"]⟩ : NamePath).depth ≤ depthLimit ∧
    ∃ leaf, (Outline.ofTemplate {} "{% if a.b %}{{ a.b }}").get? [.key "a", .key "b"] = some leaf ∧
      leaf.isPlain = true ∧ leaf = Shape.tested := by
  have hpath : (⟨"a", ["b"]⟩ : NamePath) ∈ assigned "{% if a.b %}{{ a.b }}".toList ++
      printed "{% if a.b %}{{ a.b }}".toList ++ tested "{% if a.b %}{{ a.b }}".toList := by
    decide +kernel
  have htested : (⟨"a", ["b"]⟩ : NamePath) ∈ tested "{% if a.b %}{{ a.b }}".toList := by
    decide +kernel
  have hplain : ((Outline.ofTemplate {} "{% if a.b %}{{ a.b }}").get?
      (⟨"a", ["b"]⟩ : NamePath).steps).map Shape.isPlain = some true := by
    decide +kernel
  obtain ⟨leaf, hleaf, hleafPlain⟩ := Option.map_eq_some_iff.mp hplain
  have hvalue := leaf_records_test hpath rfl (by decide) hleaf hleafPlain
  rw [if_pos htested] at hvalue
  exact ⟨hpath, by decide, leaf, hleaf, hleafPlain, hvalue⟩

end Template

end TemplateShape
