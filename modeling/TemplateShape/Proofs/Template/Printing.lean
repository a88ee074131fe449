import TemplateShape.Proofs.Shape.Rebuild
import TemplateShape.Proofs.Template.Names
import TemplateShape.Proofs.Template.Spaced

/-! # Templates that print an outline

The leaves of an outline, printed one after the other, give the outline back. The pass over printed
paths sees just these leaves, no other pass sees anything, and taking a printed path into account
is writing `""` at its end. -/

namespace TemplateShape

open Shape

/-! ## Leaves of outlines -/

namespace Outline

def leafPaths (outline : Outline) : List NamePath :=
  outline.entries.flatMap fun entry => entry.2.leaves.map (NamePath.mk entry.1)

/-- Distinct names that are not reserved, with shapes of `""` and of objects with fields, and no
leaf too deep to be written. -/
structure IsPrintable (settings : Settings) (outline : Outline) : Prop where
  distinct : Fields.Distinct outline.entries
  isName : ∀ name ∈ outline.names, Tag.IsName name
  ignores : ∀ name ∈ outline.names, settings.ignores name = false
  shapes : ∀ entry ∈ outline.entries, entry.2.IsPrintable
  depth_le : ∀ path ∈ outline.leafPaths, path.depth ≤ Finding.depthLimit

theorem map_leafPaths (outline : Outline) :
    outline.leafPaths.map (fun path => path.root :: path.rest) =
      leavesOfFields outline.entries := by
  rw [leafPaths, leavesOfFields_eq_flatMap, List.map_flatMap]
  simp [Function.comp_def]

variable {settings : Settings} {outline : Outline} {path : NamePath}

theorem root_mem_names_of_mem_leafPaths (hpath : path ∈ outline.leafPaths) :
    path.root ∈ outline.names := by
  rcases List.mem_flatMap.mp hpath with ⟨entry, hentry, hmem⟩
  rcases List.mem_map.mp hmem with ⟨keys, -, heq⟩
  rw [← heq]
  exact List.mem_map_of_mem hentry

theorem IsPrintable.isWritten (h : outline.IsPrintable settings)
    (hpath : path ∈ outline.leafPaths) : Condition.IsWritten path := by
  have hroot := h.isName path.root (root_mem_names_of_mem_leafPaths hpath)
  rcases List.mem_flatMap.mp hpath with ⟨entry, hentry, hmem⟩
  rcases List.mem_map.mp hmem with ⟨keys, hkeys, heq⟩
  have hrest : ∀ key ∈ path.rest, Ascii.isName key.toList = true := by
    rw [← heq]
    exact (h.shapes entry hentry).isName_of_mem_leaves keys hkeys
  exact List.forall_mem_cons.mpr ⟨hroot, hrest⟩

def OnlyPrinted (outline : Outline) : Prop :=
  ∀ name shape, outline.find? name = some shape → shape.isPlain = true → shape = printed

end Outline

/-! ## Printed paths -/

namespace Draft

variable (settings : Settings) {draft : Draft} {path : NamePath}

/-- Taking a printed path into account writes `""` at its end. -/
theorem entries_add_printed (h : draft.outline.OnlyPrinted)
    (hdepth : path.depth ≤ Finding.depthLimit) :
    object (draft.add settings (.printed path)).outline.entries =
      (object draft.outline.entries).print (path.root :: path.rest) := by
  rcases path with ⟨root, rest⟩
  have hprint : (object draft.outline.entries).print (root :: rest) =
      .object (Fields.alter root (freshPlace (rest.map .key)) (·.put (rest.map .key) printed)
        draft.outline.entries) := rfl
  rw [hprint]
  apply congrArg Shape.object
  cases rest with
  | nil =>
      have hadd : (draft.add settings (.printed ⟨root, []⟩)).outline.entries =
          Fields.alter root printed (fun existing => existing) draft.outline.entries := by
        simp [add, Finding.edits, Finding.editsOfPath, NamePath.isBare, Edit.apply, Outline.learn,
          Policy.replaces]
      rw [hadd]
      apply Fields.alter_congr
      · rfl
      · intro shape hshape
        rw [List.map_nil, put_nil, replaced]
        split
        · rfl
        · rename_i hcontainer
          apply h root shape hshape
          simpa [isContainer] using hcontainer
  | cons name names =>
      have hwrite : Finding.writeAt ⟨root, name :: names⟩ [] printed =
          .write (.key root :: (name :: names).map .key) printed := by
        rw [Finding.writeAt, if_pos hdepth, List.append_nil]
        rfl
      have hadd : (draft.add settings (.printed ⟨root, name :: names⟩)).outline.entries =
          Fields.alter root (freshPlace ((name :: names).map .key))
            (·.put ((name :: names).map .key) printed)
            (draft.outline.learn .upgrade root (.object [])).entries := by
        simp only [add, outline_markRead, Finding.edits, Finding.editsOfPath, NamePath.isBare,
          hwrite]
        rfl
      rw [hadd, Outline.learn, Fields.alter_alter]
      apply Fields.alter_congr
      · rfl
      · intro shape _
        exact Finding.put_learned_object Policy.noConfusion isPlain_printed (some shape) name
          (names.map .key)

theorem onlyPrinted_add (h : draft.outline.OnlyPrinted) (hdepth : path.depth ≤ Finding.depthLimit) :
    (draft.add settings (.printed path)).outline.OnlyPrinted := by
  intro name shape hshape hplain
  rw [find?_add] at hshape
  split at hshape
  · rw [Finding.onRow_printed settings hdepth] at hshape
    rw [← Option.some.inj hshape, Finding.written] at hplain ⊢
    cases hrest : path.rest with
    | nil =>
        have hbare : path.isBare = true := by simp [NamePath.isBare, hrest]
        rw [if_pos hbare] at hplain ⊢
        cases hrow : draft.outline.find? name with
        | none => rfl
        | some existing =>
            rw [hrow] at hplain
            exact h name existing hrow hplain
    | cons key keys =>
        have hbare : path.isBare = false := by simp [NamePath.isBare, hrest]
        simp [hbare, NamePath.below, hrest, isPlain_put_cons] at hplain
  · exact h name shape hshape hplain

theorem foldl_add_printed (h : draft.outline.OnlyPrinted) {paths : List NamePath}
    (hdepth : ∀ path ∈ paths, path.depth ≤ Finding.depthLimit) :
    object ((paths.map .printed).foldl (add settings) draft).outline.entries =
      (paths.map fun path => path.root :: path.rest).foldl print
        (.object draft.outline.entries) := by
  induction paths generalizing draft with
  | nil => rfl
  | cons path rest ih =>
      have hpath := hdepth path (by simp)
      have hrest := ih (onlyPrinted_add settings h hpath)
        fun later hlater => hdepth later (by simp [hlater])
      rw [List.map_cons, List.foldl_cons, hrest, entries_add_printed settings h hpath,
        List.map_cons, List.foldl_cons]

end Draft

/-! ## Templates -/

namespace Template

/-- The template that prints paths, with a text in front of them and one behind each. -/
def printing (front : String) : List (NamePath × String) → String
  | [] => front
  | (path, gap) :: rest => front ++ "\x7b\x7b " ++ path.text ++ " \x7d\x7d" ++ printing gap rest

theorem exists_dottedPath {path : NamePath} (hwritten : Condition.IsWritten path)
    (hdepth : path.depth ≤ Finding.depthLimit) : ∃ dotted : DottedPath, dotted.path = path := by
  rcases path with ⟨root, rest⟩
  have hrest : ∀ name ∈ rest, Tag.IsName name := fun name hname => hwritten name (by simp [hname])
  have hshort : (rest.pmap Subtype.mk hrest).length < Finding.depthLimit := by
    rw [List.length_pmap]
    exact hdepth
  refine ⟨⟨⟨root, hwritten root (by simp)⟩, rest.pmap Subtype.mk hrest, hshort⟩, ?_⟩
  simp [DottedPath.path, List.map_pmap]

variable {front : String} {parts : List (NamePath × String)}

theorem isSpaced_printing
    (hpaths : ∀ part ∈ parts, Condition.IsWritten part.1 ∧ part.1.depth ≤ Finding.depthLimit)
    (hfront : '{' ∉ front.toList) (hgaps : ∀ part ∈ parts, '{' ∉ part.2.toList) :
    ∃ tags, PlainTag.IsSpaced tags (printing front parts).toList ∧
      tags.map PlainTag.use = parts.map fun part => .printed part.1 := by
  induction parts generalizing front with
  | nil =>
      have hspaced := PlainTag.isSpaced_nil.gap hfront
      exact ⟨[], by simpa [printing] using hspaced, rfl⟩
  | cons part rest ih =>
      rcases part with ⟨path, gap⟩
      have hpath := hpaths (path, gap) (by simp)
      rcases exists_dottedPath hpath.1 hpath.2 with ⟨dotted, hdotted⟩
      rcases ih (fun later hlater => hpaths later (by simp [hlater])) (hgaps (path, gap) (by simp))
        (fun later hlater => hgaps later (by simp [hlater])) with ⟨tags, hspaced, huses⟩
      refine ⟨.output dotted :: tags, ?_, ?_⟩
      · have hall := (hspaced.tag (.output dotted)).gap hfront
        simpa [printing, PlainTag.text, hdotted] using hall
      · rw [List.map_cons, huses, PlainTag.use, hdotted, List.map_cons]

theorem uses_printing
    (hpaths : ∀ part ∈ parts, Condition.IsWritten part.1 ∧ part.1.depth ≤ Finding.depthLimit)
    (hfront : '{' ∉ front.toList) (hgaps : ∀ part ∈ parts, '{' ∉ part.2.toList) (pass : Pass) :
    Pass.uses (printing front parts).toList pass =
      if pass = .output then (parts.map Prod.fst).map .printed else [] := by
  rcases isSpaced_printing hpaths hfront hgaps with ⟨tags, hspaced, huses⟩
  rw [hspaced.uses_eq, PlainTag.uses_eq, huses, List.map_map]
  split
  · rename_i hpass
    apply List.filter_eq_self.mpr
    intro use huse
    rcases List.mem_map.mp huse with ⟨part, -, heq⟩
    simp [← heq, Finding.pass, hpass]
  · rename_i hpass
    apply List.filter_eq_nil_iff.mpr
    intro use huse
    rcases List.mem_map.mp huse with ⟨part, -, heq⟩
    simpa [← heq, Finding.pass] using fun heq => hpass heq.symm

/-- A template that prints the leaves of an outline in turn, with any text around them in which no
brace is opened, has this outline: the same variables and keys in the same order, at every level. -/
theorem printing_restores {settings : Settings} {outline : Outline}
    (h : outline.IsPrintable settings) (hparts : parts.map Prod.fst = outline.leafPaths)
    (hfront : '{' ∉ front.toList) (hgaps : ∀ part ∈ parts, '{' ∉ part.2.toList) :
    Outline.ofTemplate settings (printing front parts) = outline := by
  have hleaf : ∀ part ∈ parts, part.1 ∈ outline.leafPaths := by
    intro part hpart
    exact hparts ▸ List.mem_map_of_mem hpart
  have hpaths : ∀ part ∈ parts,
      Condition.IsWritten part.1 ∧ part.1.depth ≤ Finding.depthLimit :=
    fun part hpart => ⟨h.isWritten (hleaf part hpart), h.depth_le _ (hleaf part hpart)⟩
  have huses := uses_printing hpaths hfront hgaps
  have hfindings : Pass.all.flatMap (Pass.findings settings (printing front parts).toList) =
      outline.leafPaths.map .printed := by
    have hkept : (outline.leafPaths.map Finding.printed).filter
        (fun finding => !settings.ignores finding.root) = outline.leafPaths.map .printed := by
      apply List.filter_eq_self.mpr
      intro use huse
      rcases List.mem_map.mp huse with ⟨path, hpath, heq⟩
      simp [← heq, Finding.root, h.ignores _ (Outline.root_mem_names_of_mem_leafPaths hpath)]
    simp [Pass.all, Pass.findings, huses, hparts, hkept]
  have hnone : Outline.OnlyPrinted {} := by
    intro name shape hshape
    simp [Outline.find?, Fields.find?] at hshape
  have hentries : object (Outline.ofTemplate settings (printing front parts)).entries =
      .object outline.entries := by
    rw [Outline.ofTemplate, (Draft.settled_ofTemplate settings _ _).close_eq,
      Draft.ofTemplate_eq_foldl_add, hfindings, Draft.foldl_add_printed settings hnone h.depth_le,
      Outline.map_leafPaths]
    exact foldl_print_fields h.distinct h.shapes
  cases hresult : Outline.ofTemplate settings (printing front parts) with
  | mk entries =>
      rw [hresult] at hentries
      exact congrArg Outline.mk (Shape.object.inj hentries)

/-- The outline has three leaves, two of them below `a`. -/
theorem printing_restores_nested :
    Outline.IsPrintable {}
      ⟨[("a", .object [("b", Shape.printed), ("c", Shape.printed)]), ("d", Shape.printed)]⟩ ∧
    Outline.ofTemplate {} "x{{ a.b }} % {{ a.c }}{{ d }}, y" =
      ⟨[("a", .object [("b", Shape.printed), ("c", Shape.printed)]), ("d", Shape.printed)]⟩ := by
  have hshape : (object [("b", Shape.printed), ("c", Shape.printed)]).IsPrintable := by
    apply IsPrintable.branch
    · simp
    · simp [Fields.Distinct, Fields.names]
    · decide
    · simp [IsPrintable.leaf]
  have h : Outline.IsPrintable {}
      ⟨[("a", .object [("b", Shape.printed), ("c", Shape.printed)]), ("d", Shape.printed)]⟩ := by
    constructor
    · simp [Fields.Distinct, Fields.names]
    · decide
    · decide +kernel
    · simp [hshape, IsPrintable.leaf]
    · decide
  have htemplate : printing "x" [(⟨"a", ["b"]⟩, " % "), (⟨"a", ["c"]⟩, ""), (⟨"d", []⟩, ", y")] =
      "x{{ a.b }} % {{ a.c }}{{ d }}, y" := by
    decide +kernel
  have hparts : [(⟨"a", ["b"]⟩, " % "), (⟨"a", ["c"]⟩, ""), (⟨"d", []⟩, ", y")].map Prod.fst =
      Outline.leafPaths
        ⟨[("a", .object [("b", Shape.printed), ("c", Shape.printed)]), ("d", Shape.printed)]⟩ := by
    decide
  have hrestored := printing_restores h hparts (by decide : '{' ∉ "x".toList) (by decide)
  rw [htemplate] at hrestored
  exact ⟨h, hrestored⟩

end Template

end TemplateShape
