import TemplateShape.Proofs.Template.Names

/-! # Passes in any order

Every pass adds the names of its uses to those that are read, and no pass takes a name away. A loop
whose body prints nothing of its items gives no shape, but its header is a use of its own. So the
order of the passes decides about shapes and about places in the outline, and not about names. -/

namespace TemplateShape

namespace Outline

def Distinct (outline : Outline) : Prop :=
  outline.names.Nodup

theorem Distinct.apply {outline : Outline} (h : outline.Distinct) (edit : Edit) :
    (edit.apply outline).Distinct := by
  have hentries : Fields.Distinct outline.entries := h
  cases edit with
  | learn policy name shape => exact hentries.alter ..
  | assume policy name shape => exact hentries.alter ..
  | write path leaf =>
      match path with
      | .key root :: rest => exact hentries.alter ..
      | .index i :: rest => exact h
      | [] => exact h
  | remark notice => exact h

end Outline

/-- A variable that is used has a use outside of the bodies of loops. -/
theorem Pass.exists_not_isItems_of_mem_uses {passes : List Pass} {template : List Char}
    (hloop : .loop ∈ passes) {pass : Pass} (hpass : pass ∈ passes) {use : Finding}
    (huse : use ∈ pass.uses template) :
    ∃ other ∈ usesOf passes template use.root, other.isItems = false := by
  by_cases hitems : pass = .loopItems
  · subst hitems
    obtain ⟨loop, hmem, rfl⟩ := List.mem_map.mp huse
    have hheader := Template.looped_mem_uses_of_mem_loops hmem
    refine ⟨.looped loop.header.list, List.mem_filter.mpr ⟨?_, by simp [Finding.root]⟩, rfl⟩
    exact List.mem_flatMap.mpr ⟨.loop, hloop, hheader⟩
  · refine ⟨use, List.mem_filter.mpr ⟨?_, by simp⟩, isItems_of_mem_uses hitems huse⟩
    exact List.mem_flatMap.mpr ⟨pass, hpass, huse⟩

/-- One use gives its variable a row, wherever it stands in a run; only the fields of items may be
without. -/
theorem Finding.isSome_foldl_onRow {settings : Settings} {findings : List Finding}
    {finding : Finding} (hmem : finding ∈ findings) (hitems : finding.isItems = false)
    (row : Option Shape) : (findings.foldl (onRow settings) row).isSome := by
  obtain ⟨front, back, rfl⟩ := List.append_of_mem hmem
  have hrow := isSome_onRow settings hitems (front.foldl (onRow settings) row)
  obtain ⟨shape, hshape⟩ := Option.isSome_iff_exists.mp hrow
  obtain ⟨later, hlater, -⟩ := foldl_onRow_lasts settings back (some shape) shape rfl
  rw [List.foldl_append, List.foldl_cons, hshape, hlater]
  rfl

namespace Draft

/-- A draft that has each name once, among its rows as well as among the names that are read. -/
structure Distinct (draft : Draft) : Prop where
  outline : draft.outline.Distinct
  readNames : draft.readNames.Nodup

theorem Distinct.add {draft : Draft} (h : draft.Distinct) (settings : Settings)
    (finding : Finding) : (draft.add settings finding).Distinct := by
  constructor
  · have hedits : ((finding.edits settings).foldl Edit.apply draft.outline).Distinct :=
      List.foldlRecOn (finding.edits settings) Edit.apply h.outline
        fun _ hafter edit _ => hafter.apply edit
    simpa [Draft.add] using hedits
  · rw [readNames_add]
    split
    · exact h.readNames
    · rename_i hnew
      simpa using List.Nodup.concat hnew h.readNames

theorem mem_readNames_foldl_add (settings : Settings) (findings : List Finding) (draft : Draft)
    (name : String) :
    name ∈ (findings.foldl (Draft.add settings) draft).readNames ↔
      name ∈ draft.readNames ∨ name ∈ findings.map Finding.root := by
  induction findings generalizing draft with
  | nil => simp
  | cons finding rest ih =>
      have hfirst : name ∈ (draft.add settings finding).readNames ↔
          name ∈ draft.readNames ∨ name = finding.root :=
        mem_readNames_markRead draft finding.root name
      rw [List.foldl_cons, ih, hfirst, List.map_cons, List.mem_cons, or_assoc]

variable (settings : Settings) (passes : List Pass) (template : List Char)

theorem distinct_ofTemplate : (ofTemplate settings passes template).Distinct := by
  have hempty : Distinct {} := ⟨List.nodup_nil, List.nodup_nil⟩
  rw [ofTemplate_eq_foldl_add]
  exact List.foldlRecOn _ (Draft.add settings) hempty fun _ hafter finding _ =>
    hafter.add settings finding

theorem mem_readNames_ofTemplate (name : String) :
    name ∈ (ofTemplate settings passes template).readNames ↔
      name ∈ Template.roots settings passes template := by
  rw [ofTemplate_eq_foldl_add, mem_readNames_foldl_add, Template.roots_eq]
  simp

variable {passes}

/-- Where the pass over loop headers is among the passes, a name that is read has a row. -/
theorem mem_names_ofTemplate_of_loop (h : .loop ∈ passes) (name : String) :
    name ∈ (ofTemplate settings passes template).outline.names ↔
      name ∈ Template.roots settings passes template := by
  constructor
  · intro hname
    exact (mem_readNames_ofTemplate ..).mp (settled_ofTemplate settings passes template name hname)
  · intro hname
    obtain ⟨hignores, pass, hpass, use, huse, rfl⟩ := Template.mem_roots.mp hname
    obtain ⟨other, hother, hitems⟩ := Pass.exists_not_isItems_of_mem_uses h hpass huse
    rw [← Outline.find?_isSome_iff, find?_ofTemplate, hignores]
    exact Finding.isSome_foldl_onRow hother hitems none

end Draft

namespace Template

theorem mem_roots_congr {settings : Settings} {template : List Char} {passes others : List Pass}
    (h : passes.Perm others) (name : String) :
    name ∈ roots settings passes template ↔ name ∈ roots settings others template := by
  simp only [mem_roots, h.mem_iff]

/-- In whatever order the passes are run over a template, the outline has the same names, each of
them once, and the same names are read. -/
theorem names_do_not_depend_on_order (settings : Settings) (template : String)
    {passes : List Pass} (h : passes.Perm Pass.all) :
    (Draft.ofTemplate settings passes template.toList).close.names.Perm
      (Outline.ofTemplate settings template).names ∧
    (Draft.ofTemplate settings passes template.toList).readNames.Perm
      (Draft.ofTemplate settings Pass.all template.toList).readNames := by
  have hdistinct := Draft.distinct_ofTemplate settings passes template.toList
  have hdistinctAll := Draft.distinct_ofTemplate settings Pass.all template.toList
  constructor
  · have hloop : .loop ∈ passes := h.mem_iff.mpr (by decide)
    rw [(Draft.settled_ofTemplate settings passes template.toList).close_eq,
      Outline.names_ofTemplate]
    apply (List.perm_ext_iff_of_nodup hdistinct.outline hdistinctAll.outline).mpr
    intro name
    rw [Draft.mem_names_ofTemplate_of_loop settings template.toList hloop,
      Draft.mem_names_ofTemplate_of_loop settings template.toList (by decide), mem_roots_congr h]
  · apply (List.perm_ext_iff_of_nodup hdistinct.readNames hdistinctAll.readNames).mpr
    intro name
    rw [Draft.mem_readNames_ofTemplate, Draft.mem_readNames_ofTemplate, mem_roots_congr h]

/-- If the bodies of loops come first, the list gets its sample before anything else, and it comes
first in the outline. -/
theorem names_do_not_depend_on_order_backwards :
    (Draft.ofTemplate {} Pass.all.reverse
      "{% for x in a %}{{ x.c }}{% endfor %}".toList).close.names = ["a", "x"] ∧
    Pass.all.reverse.Perm Pass.all ∧
    ["a", "x"].Perm (Outline.ofTemplate {} "{% for x in a %}{{ x.c }}{% endfor %}").names := by
  have hnames : (Draft.ofTemplate {} Pass.all.reverse
      "{% for x in a %}{{ x.c }}{% endfor %}".toList).close.names = ["a", "x"] := by
    decide +kernel
  have hperm : Pass.all.reverse.Perm Pass.all := List.reverse_perm Pass.all
  refine ⟨hnames, hperm, ?_⟩
  rw [← hnames]
  exact (names_do_not_depend_on_order {} "{% for x in a %}{{ x.c }}{% endfor %}" hperm).1

end Template

end TemplateShape
