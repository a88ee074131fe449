import Mathlib.Data.List.Induction
import TemplateShape.Proofs.Scan.Values
import TemplateShape.Proofs.Template.Conditions
import TemplateShape.Proofs.Template.Counts
import TemplateShape.Proofs.Template.Growth
import TemplateShape.Proofs.Template.Uses

/-! # The names of an outline

Every use puts the name of its variable at the end of the list of names, unless it is there. Only a
loop whose body prints nothing of its items may find no row to work on, but the header of that loop
has been seen two passes before. -/

namespace TemplateShape

/-! ## First occurrences -/

theorem eraseDups_concat {α : Type} [BEq α] [LawfulBEq α] (as : List α) (a : α) :
    (as ++ [a]).eraseDups =
      if a ∈ as.eraseDups then as.eraseDups else as.eraseDups ++ [a] := by
  rw [List.eraseDups_append]
  by_cases h : a ∈ as
  · have hnil : [a].removeAll as = [] := by simp [List.removeAll, h]
    simp [hnil, h]
  · have hsingle : [a].removeAll as = [a] := by simp [List.removeAll, h]
    simp [hsingle, h, List.eraseDups_cons]

theorem nodup_eraseDups {α : Type} [BEq α] [LawfulBEq α] (as : List α) : as.eraseDups.Nodup := by
  induction as using List.reverseRecOn with
  | nil => simp
  | append_singleton as a ih =>
      rw [eraseDups_concat]
      split
      · exact ih
      · rename_i h
        rw [← List.concat_eq_append]
        exact List.Nodup.concat h ih

/-! ## Names of tags -/

namespace Tag

open Scan

def IsName (text : String) : Prop :=
  Ascii.isName text.toList = true

instance (text : String) : Decidable (IsName text) :=
  inferInstanceAs (Decidable (Ascii.isName text.toList = true))

theorem gives_assignment : Gives Condition.IsWritten assignment := by
  unfold assignment
  refine .after fun _ => .after fun _ => .after fun _ => .after fun _ => .after fun _ => ?_
  refine gives_namePath.bind fun source hsource => ?_
  exact .after fun _ => .pure hsource

theorem gives_output : Gives Condition.IsWritten output := by
  unfold output
  refine .after fun _ => .after fun _ => ?_
  refine gives_namePath.bind fun path hpath => ?_
  exact .after fun _ => .pure hpath

theorem gives_loopHeader : Gives (fun header => IsName header.list) loopHeader := by
  unfold loopHeader
  refine .after fun _ => .after fun item => .after fun _ => .after fun _ => .after fun _ => ?_
  refine gives_name.bind fun list hlist => ?_
  exact .after fun _ => .pure hlist

theorem gives_entriesHeader : Gives IsName entriesHeader := by
  unfold entriesHeader
  refine .after fun _ => .after fun _ => .after fun _ => .after fun _ => .after fun _ => ?_
  refine .after fun _ => .after fun _ => .after fun _ => ?_
  refine gives_name.bind fun mapping hmapping => ?_
  refine .after fun _ => .after fun _ => .after fun _ => .after fun _ => .after fun _ => ?_
  exact .after fun _ => .after fun _ => .after fun _ => .after fun _ => .pure hmapping

theorem gives_indexedOutput : Gives (fun path => Condition.IsWritten path.base) indexedOutput := by
  unfold indexedOutput
  refine .after fun _ => .after fun _ => ?_
  refine gives_namePath.bind fun base hbase => ?_
  refine .after fun _ => .after fun _ => .after fun _ => .after fun digits => .after fun _ => ?_
  exact .after fun _ => .after fun _ => .pure hbase

theorem gives_loop : Gives (fun found => IsName found.header.list) loop := by
  unfold loop
  refine gives_loopHeader.bind fun header hheader => ?_
  exact .after fun body => .pure hheader

end Tag

namespace Condition

open Scan

theorem gives_call : Gives (fun found => Tag.IsName found.name) call := by
  unfold call
  refine gives_name.bind fun name hname => ?_
  exact .after fun _ => .after fun _ => .after fun _ => .after fun _ => .after fun _ => .pure hname

theorem isWritten_of_mem_readsWithin {excluded : String → Bool} {depth : Nat} {text : List Char}
    {path : NamePath} (h : path ∈ readsWithin excluded depth text) : IsWritten path := by
  induction depth generalizing text with
  | zero => simp [readsWithin] at h
  | succ depth ih =>
      simp only [readsWithin, List.mem_append, List.mem_flatMap, List.mem_filter] at h
      rcases h with ⟨found, hfound, hname | harguments⟩ | ⟨hpath, -⟩
      · have hcall : Ascii.isName found.name.toList = true :=
          Gives.of_mem_findAll gives_call.wordStart hfound
        split at hname
        · simp at hname
        · have heq : path = .bare found.name := by simpa using hname
          simpa [heq, IsWritten, NamePath.bare] using hcall
      · split at harguments
        · simp at harguments
        · exact ih harguments
      · exact Gives.of_mem_findAll gives_namePath.wordStart hpath

end Condition

def Finding.IsWritten : Finding → Prop
  | .assigned path | .printed path | .tested path => Condition.IsWritten path
  | .indexed path => Condition.IsWritten path.base
  | .looped name | .entriesLooped name | .itemsPrinted name _ => Tag.IsName name

theorem Pass.isWritten_of_mem_uses {pass : Pass} {template : List Char} {finding : Finding}
    (h : finding ∈ pass.uses template) : finding.IsWritten := by
  cases pass with
  | condition =>
      rw [Template.uses_condition] at h
      obtain ⟨path, hpath, rfl⟩ := List.mem_map.mp h
      obtain ⟨expression, -, hreads⟩ := List.mem_flatMap.mp hpath
      exact Condition.isWritten_of_mem_readsWithin hreads
  | assignment =>
      obtain ⟨path, hpath, rfl⟩ := List.mem_map.mp h
      exact Scan.Gives.of_mem_findAll (fun _ => Tag.gives_assignment) hpath
  | output =>
      obtain ⟨path, hpath, rfl⟩ := List.mem_map.mp h
      exact Scan.Gives.of_mem_findAll (fun _ => Tag.gives_output) hpath
  | loop =>
      obtain ⟨header, hheader, rfl⟩ := List.mem_map.mp h
      exact Scan.Gives.of_mem_findAll (fun _ => Tag.gives_loopHeader) hheader
  | entriesLoop =>
      obtain ⟨mapping, hmapping, rfl⟩ := List.mem_map.mp h
      exact Scan.Gives.of_mem_findAll (fun _ => Tag.gives_entriesHeader) hmapping
  | itemAccess =>
      obtain ⟨path, hpath, rfl⟩ := List.mem_map.mp h
      exact Scan.Gives.of_mem_findAll (fun _ => Tag.gives_indexedOutput) hpath
  | loopItems =>
      obtain ⟨loop, hloop, rfl⟩ := List.mem_map.mp h
      exact Scan.Gives.of_mem_findAll (fun _ => Tag.gives_loop) hloop

theorem Template.Shows.isWritten {template : List Char} {finding : Finding}
    (h : Shows template finding) : finding.IsWritten := by
  have hmem := (mem_usesOf_all_iff template finding.root finding).mpr ⟨h, rfl⟩
  rcases List.mem_flatMap.mp (List.mem_filter.mp hmem).1 with ⟨pass, -, huse⟩
  exact Pass.isWritten_of_mem_uses huse

theorem Pass.isName_root_of_mem_uses {pass : Pass} {template : List Char} {finding : Finding}
    (h : finding ∈ pass.uses template) : Tag.IsName finding.root := by
  have hwritten := isWritten_of_mem_uses h
  cases finding with
  | assigned path => exact hwritten path.root List.mem_cons_self
  | printed path => exact hwritten path.root List.mem_cons_self
  | tested path => exact hwritten path.root List.mem_cons_self
  | indexed path => exact hwritten path.base.root List.mem_cons_self
  | looped list => exact hwritten
  | entriesLooped mapping => exact hwritten
  | itemsPrinted list fields => exact hwritten

/-! ## Names of rows -/

namespace Edit

theorem names_apply_of_mem {edit : Edit} {target : String} (h : edit.Concerns target)
    {outline : Outline} (hmem : target ∈ outline.names) :
    (edit.apply outline).names = outline.names := by
  cases edit with
  | learn policy name shape =>
      have hname : name = target := h
      exact (Fields.names_alter ..).trans (if_pos (hname ▸ hmem))
  | assume policy name shape =>
      have hname : name = target := h
      exact (Fields.names_alter ..).trans (if_pos (hname ▸ hmem))
  | write path leaf =>
      obtain ⟨rest, rfl⟩ := h
      exact (Fields.names_alter ..).trans (if_pos hmem)
  | remark notice => rfl

theorem names_foldl_apply_of_mem {edits : List Edit} {target : String}
    (h : ∀ edit ∈ edits, edit.Concerns target) {outline : Outline} (hmem : target ∈ outline.names) :
    (edits.foldl apply outline).names = outline.names := by
  induction edits generalizing outline with
  | nil => rfl
  | cons edit rest ih =>
      have hedit : (edit.apply outline).names = outline.names :=
        names_apply_of_mem (h edit (by simp)) hmem
      rw [List.foldl_cons, ih (fun e he => h e (by simp [he])) (by rwa [hedit]), hedit]

end Edit

namespace Finding

variable (settings : Settings)

/-- A use first gives its variable a row, and then works on that row. -/
theorem foldl_edits_eq {finding : Finding} (h : finding.isItems = false) :
    ∃ (policy : Policy) (shape : Shape) (rest : List Edit),
      (∀ edit ∈ rest, edit.Concerns finding.root) ∧ ∀ outline,
      (finding.edits settings).foldl Edit.apply outline =
        rest.foldl Edit.apply (outline.learn policy finding.root shape) := by
  have hpath : ∀ (policy : Policy) (path : NamePath) (leaf : Shape),
      ∃ (policy' : Policy) (shape : Shape) (rest : List Edit),
        (∀ edit ∈ rest, edit.Concerns path.root) ∧ ∀ outline,
        (editsOfPath policy path leaf).foldl Edit.apply outline =
          rest.foldl Edit.apply (outline.learn policy' path.root shape) := by
    intro policy path leaf
    unfold editsOfPath
    split
    · exact ⟨.keep, leaf, [], by simp, fun outline => rfl⟩
    · refine ⟨policy, .object [], [writeAt path [] leaf], ?_, fun outline => rfl⟩
      simpa using concerns_writeAt path [] leaf
  cases finding with
  | assigned path => exact hpath .keep path Shape.printed
  | printed path => exact hpath .upgrade path Shape.printed
  | looped list => exact ⟨.upgrade, _, [], by simp, fun outline => rfl⟩
  | entriesLooped mapping => exact ⟨.upgrade, _, [], by simp, fun outline => rfl⟩
  | tested path =>
      simp only [edits]
      split
      · exact ⟨.keep, Shape.tested, [], by simp, fun outline => rfl⟩
      · exact hpath .upgrade path Shape.tested
  | indexed path =>
      have hconcerns : ∀ edit ∈ (edits settings (.indexed path)).tail,
          edit.Concerns path.base.root :=
        fun edit hedit => concerns_root (List.mem_of_mem_tail hedit)
      exact ⟨.upgrade, _, (edits settings (.indexed path)).tail, hconcerns, fun outline => rfl⟩
  | itemsPrinted list fields => simp [isItems] at h

end Finding

namespace Draft

variable (settings : Settings)

theorem names_add (draft : Draft) {finding : Finding}
    (h : finding.isItems = true → finding.root ∈ draft.outline.names) :
    (draft.add settings finding).outline.names =
      if finding.root ∈ draft.outline.names then draft.outline.names
      else draft.outline.names ++ [finding.root] := by
  have hconcerns : ∀ edit ∈ finding.edits settings, edit.Concerns finding.root :=
    fun _ => Finding.concerns_root
  by_cases hmem : finding.root ∈ draft.outline.names
  · rw [if_pos hmem]
    simpa [add] using Edit.names_foldl_apply_of_mem hconcerns hmem
  · have hitems : finding.isItems = false := by simpa using fun hitems => hmem (h hitems)
    obtain ⟨policy, shape, rest, hrest, hedits⟩ := Finding.foldl_edits_eq settings hitems
    have hlearn : (draft.outline.learn policy finding.root shape).names =
        draft.outline.names ++ [finding.root] := by
      exact (Fields.names_alter ..).trans (if_neg hmem)
    have hnow : finding.root ∈ (draft.outline.learn policy finding.root shape).names := by
      simp [hlearn]
    rw [if_neg hmem, ← hlearn, ← Edit.names_foldl_apply_of_mem hrest hnow, ← hedits]
    simp [add]

theorem readNames_add (draft : Draft) (finding : Finding) :
    (draft.add settings finding).readNames =
      if finding.root ∈ draft.readNames then draft.readNames
      else draft.readNames ++ [finding.root] := by
  simp only [add, markRead, List.contains_iff_mem]
  split <;> rfl

/-- The names of a draft, those with a shape as well as those that are read, are the first
occurrences in a list. -/
structure Lists (draft : Draft) (names : List String) : Prop where
  names_eq : draft.outline.names = names.eraseDups
  readNames_eq : draft.readNames = names.eraseDups

variable {settings}

theorem Lists.add {draft : Draft} {names : List String} (h : draft.Lists names)
    {finding : Finding} (hitems : finding.isItems = true → finding.root ∈ names) :
    (draft.add settings finding).Lists (names ++ [finding.root]) := by
  constructor
  · rw [names_add settings draft (by simpa [h.names_eq] using hitems), h.names_eq,
      eraseDups_concat]
  · rw [readNames_add, h.readNames_eq, eraseDups_concat]

theorem Lists.foldl_add {draft : Draft} {names : List String} (h : draft.Lists names)
    {findings : List Finding}
    (hitems : ∀ finding ∈ findings, finding.isItems = true → finding.root ∈ names) :
    (findings.foldl (Draft.add settings) draft).Lists (names ++ findings.map Finding.root) := by
  induction findings generalizing draft names with
  | nil => simpa using h
  | cons finding rest ih =>
      have hfirst : (draft.add settings finding).Lists (names ++ [finding.root]) :=
        h.add (hitems finding (by simp))
      have hrest : ∀ use ∈ rest, use.isItems = true → use.root ∈ names ++ [finding.root] := by
        intro use huse huseItems
        have hname := hitems use (by simp [huse]) huseItems
        simp [hname]
      simpa using ih hfirst hrest

end Draft

/-! ## Names of a template -/

/-- The variables that some passes find in a template, once for every use. -/
def Template.roots (settings : Settings) (passes : List Pass) (template : List Char) :
    List String :=
  ((passes.flatMap (Pass.uses template)).map Finding.root).filter (!settings.ignores ·)

theorem Template.roots_eq (settings : Settings) (passes : List Pass) (template : List Char) :
    roots settings passes template =
      (passes.flatMap (Pass.findings settings template)).map Finding.root := by
  unfold roots
  induction passes with
  | nil => rfl
  | cons pass rest ih =>
      simp only [List.flatMap_cons, List.map_append, List.filter_append, ih, Pass.findings,
        List.filter_map]
      rfl

theorem Template.mem_roots {settings : Settings} {passes : List Pass} {template : List Char}
    {name : String} : name ∈ roots settings passes template ↔
      settings.ignores name = false ∧
        ∃ pass ∈ passes, ∃ use ∈ Pass.uses template pass, use.root = name := by
  simp only [roots, List.mem_filter, List.mem_map, List.mem_flatMap, Bool.not_eq_true']
  constructor
  · rintro ⟨⟨use, ⟨pass, hpass, huse⟩, rfl⟩, hignores⟩
    exact ⟨hignores, pass, hpass, use, huse, rfl⟩
  · rintro ⟨hignores, pass, hpass, use, huse, rfl⟩
    exact ⟨⟨use, ⟨pass, hpass, huse⟩, rfl⟩, hignores⟩

/-- The pass over loop bodies finds no name that the pass over loop headers has not found. -/
theorem Template.root_mem_roots_of_mem_loopItems {settings : Settings} {template : List Char}
    {finding : Finding} (h : finding ∈ Pass.findings settings template .loopItems) :
    finding.root ∈ roots settings (Pass.all.take 6) template := by
  obtain ⟨huse, hignores⟩ := List.mem_filter.mp h
  obtain ⟨loop, hloop, rfl⟩ := List.mem_map.mp huse
  apply mem_roots.mpr
  exact ⟨by simpa using hignores, .loop, by decide, _, looped_mem_uses_of_mem_loops hloop, rfl⟩

namespace Draft

theorem lists_ofTemplate_of_notMem (settings : Settings) (template : List Char)
    {passes : List Pass} (h : .loopItems ∉ passes) :
    (ofTemplate settings passes template).Lists (Template.roots settings passes template) := by
  have hempty : Lists {} [] := ⟨rfl, rfl⟩
  rw [ofTemplate_eq_foldl_add, Template.roots_eq]
  apply hempty.foldl_add
  intro finding hfinding hitems
  obtain ⟨pass, hpass, hmem⟩ := List.mem_flatMap.mp hfinding
  have huse : finding ∈ pass.uses template := (List.mem_filter.mp hmem).1
  have hloopItems : pass ≠ .loopItems := fun heq => h (heq ▸ hpass)
  simp [Pass.isItems_of_mem_uses hloopItems huse] at hitems

theorem lists_ofTemplate (settings : Settings) (template : List Char) (k : Nat) :
    (ofTemplate settings (Pass.all.take k) template).Lists
      (Template.roots settings (Pass.all.take k) template) := by
  by_cases hk : k ≤ 6
  · apply lists_ofTemplate_of_notMem
    intro hmem
    have hsix : .loopItems ∈ Pass.all.take 6 := (List.take_prefix_take_left hk).subset hmem
    exact absurd hsix (by decide)
  · have hlength : Pass.all.length ≤ k := by
      simp only [Pass.all, List.length_cons, List.length_nil]
      omega
    have hall : Pass.all.take k = Pass.all.take 6 ++ [.loopItems] :=
      List.take_of_length_le hlength
    have hsix : (ofTemplate settings (Pass.all.take 6) template).Lists
        (Template.roots settings (Pass.all.take 6) template) :=
      lists_ofTemplate_of_notMem settings template (by decide)
    rw [hall, Template.roots_eq, List.flatMap_append, List.map_append, ← Template.roots_eq,
      List.flatMap_singleton, ofTemplate, List.foldl_append]
    apply hsix.foldl_add
    intro finding hfinding _
    exact Template.root_mem_roots_of_mem_loopItems hfinding

theorem mem_names_ofTemplate {settings : Settings} {template : List Char} {k : Nat}
    {name : String} :
    name ∈ (ofTemplate settings (Pass.all.take k) template).outline.names ↔
      settings.ignores name = false ∧
        ∃ pass ∈ Pass.all.take k, ∃ use ∈ Pass.uses template pass, use.root = name := by
  rw [(lists_ofTemplate settings template k).names_eq, List.mem_eraseDups, Template.mem_roots]

theorem names_ofTemplate_all (settings : Settings) (template : List Char) :
    (ofTemplate settings Pass.all template).outline.names =
      (ofTemplate settings (Pass.all.take 6) template).outline.names := by
  have hroots : Template.roots settings Pass.all template =
      Template.roots settings (Pass.all.take 6) template ++
        (Pass.findings settings template .loopItems).map Finding.root := by
    have hall : Pass.all = Pass.all.take 6 ++ [.loopItems] := rfl
    rw [hall, Template.roots_eq, List.flatMap_append, List.map_append, ← Template.roots_eq,
      List.flatMap_singleton, ← hall]
  have hknown : ((Pass.findings settings template .loopItems).map Finding.root).removeAll
      (Template.roots settings (Pass.all.take 6) template) = [] := by
    apply List.filter_eq_nil_iff.mpr
    intro name hname
    obtain ⟨finding, hfinding, rfl⟩ := List.mem_map.mp hname
    simpa using Template.root_mem_roots_of_mem_loopItems hfinding
  have hseven : (ofTemplate settings Pass.all template).outline.names =
      (Template.roots settings Pass.all template).eraseDups :=
    (lists_ofTemplate settings template 7).names_eq
  rw [hseven, (lists_ofTemplate settings template 6).names_eq, hroots, List.eraseDups_append,
    hknown]
  simp

/-- Closing a draft in which every name is read changes nothing. -/
theorem Settled.close_eq {draft : Draft} (h : draft.Settled) : draft.close = draft.outline := by
  have hentries : draft.close.entries = draft.outline.entries := by
    apply List.filter_eq_self.mpr
    intro entry hentry
    have hname : entry.1 ∈ draft.outline.names := List.mem_map_of_mem hentry
    simpa using h entry.1 hname
  cases hclose : draft.close with
  | mk entries =>
      rw [hclose] at hentries
      exact congrArg Outline.mk hentries

theorem eq_of_passDone_mem_templateNotices {settings : Settings} {template name : String}
    {shapes readNames : Nat}
    (h : .passDone name shapes readNames ∈ Outline.templateNotices settings template) :
    shapes = readNames := by
  rcases List.mem_append.mp h with hmem | hmem
  · obtain ⟨front, pass, back, hall, hnotice⟩ := Notice.exists_of_mem_along hmem
    have hfront : front ++ [pass] = Pass.all.take (front.length + 1) := by
      rw [hall, List.take_append, List.take_of_length_le (Nat.le_succ _)]
      simp
    have hrun : (ofTemplate settings front template.toList).run settings template.toList pass =
        ofTemplate settings (Pass.all.take (front.length + 1)) template.toList := by
      rw [← hfront, ofTemplate, ofTemplate, List.foldl_append]
      rfl
    obtain ⟨-, hshapes, hreadNames⟩ := eq_of_passDone_mem_runNotices hnotice
    have hlists := lists_ofTemplate settings template.toList (front.length + 1)
    change shapes = ((ofTemplate settings front template.toList).run settings template.toList
      pass).outline.size at hshapes
    change readNames = ((ofTemplate settings front template.toList).run settings template.toList
      pass).readNames.length at hreadNames
    have hsize : ∀ outline : Outline, outline.size = outline.names.length := by
      simp [Outline.size, Outline.names, Fields.names]
    rw [hshapes, hreadNames, hrun, hsize, hlists.names_eq, hlists.readNames_eq]
  · simp at hmem

end Draft

theorem Outline.names_ofTemplate (settings : Settings) (template : String) :
    (ofTemplate settings template).names =
      (Draft.ofTemplate settings Pass.all template.toList).outline.names :=
  congrArg names (Draft.settled_ofTemplate settings Pass.all template.toList).close_eq

theorem Outline.mem_names_ofTemplate_iff {settings : Settings} {template name : String} :
    name ∈ (ofTemplate settings template).names ↔
      settings.ignores name = false ∧
        ∃ pass ∈ Pass.all, ∃ use ∈ Pass.uses template.toList pass, use.root = name := by
  have hall : Pass.all = Pass.all.take 7 := rfl
  rw [names_ofTemplate, hall]
  exact Draft.mem_names_ofTemplate

namespace Template

/-- After any number of passes the names are the variables found so far, each at its first
occurrence: the passes one after the other, and the uses of a pass in the order of the template.
They are names, and none of them is reserved. They are also the names that are read, so that every
pass reports the same number twice, and closing the draft drops nothing. The last pass adds no
name. -/
theorem names_are_first_uses (settings : Settings) (template : String) :
    (∀ k,
      (Draft.ofTemplate settings (Pass.all.take k) template.toList).outline.names =
        (roots settings (Pass.all.take k) template.toList).eraseDups ∧
      (∀ name ∈ (Draft.ofTemplate settings (Pass.all.take k) template.toList).outline.names,
        Tag.IsName name ∧ settings.ignores name = false) ∧
      (Draft.ofTemplate settings (Pass.all.take k) template.toList).readNames =
        (Draft.ofTemplate settings (Pass.all.take k) template.toList).outline.names ∧
      (Draft.ofTemplate settings (Pass.all.take k) template.toList).close =
        (Draft.ofTemplate settings (Pass.all.take k) template.toList).outline) ∧
    (∀ pass shapes readNames,
      .passDone pass shapes readNames ∈ Outline.templateNotices settings template →
        shapes = readNames) ∧
    (Draft.ofTemplate settings Pass.all template.toList).outline.names =
      (Draft.ofTemplate settings (Pass.all.take 6) template.toList).outline.names := by
  refine ⟨?_, fun _ _ _ => Draft.eq_of_passDone_mem_templateNotices,
    Draft.names_ofTemplate_all settings template.toList⟩
  intro k
  have hlists := Draft.lists_ofTemplate settings template.toList k
  have hsettled := Draft.settled_ofTemplate settings (Pass.all.take k) template.toList
  refine ⟨hlists.names_eq, ?_, hlists.readNames_eq.trans hlists.names_eq.symm, hsettled.close_eq⟩
  intro name hname
  obtain ⟨hignores, pass, -, use, huse, rfl⟩ := Draft.mem_names_ofTemplate.mp hname
  exact ⟨Pass.isName_root_of_mem_uses huse, hignores⟩

/-- What is printed comes before the list of the loop around it. -/
theorem names_are_first_uses_loop :
    (Draft.ofTemplate {} (Pass.all.take 7)
      "{% for x in a %}{{ x.c }}{% endfor %}".toList).outline.names = ["x", "a"] ∧
    "a" ∈ (Draft.ofTemplate {} (Pass.all.take 7)
      "{% for x in a %}{{ x.c }}{% endfor %}".toList).outline.names ∧ Tag.IsName "a" := by
  obtain ⟨hnames, hall, -, -⟩ :=
    (names_are_first_uses {} "{% for x in a %}{{ x.c }}{% endfor %}").1 7
  have hroots : (roots {} (Pass.all.take 7)
      "{% for x in a %}{{ x.c }}{% endfor %}".toList).eraseDups = ["x", "a"] := by decide +kernel
  have hmem : "a" ∈ (Draft.ofTemplate {} (Pass.all.take 7)
      "{% for x in a %}{{ x.c }}{% endfor %}".toList).outline.names := by
    rw [hnames, hroots]
    decide
  exact ⟨hnames.trans hroots, hmem, (hall "a" hmem).1⟩

end Template

end TemplateShape
