import TemplateShape.Proofs.Template.Calls
import TemplateShape.Proofs.Template.Lookahead
import TemplateShape.Proofs.Template.Names

/-! # Names that stand in the template

All tags name their variables as they stand in the template. Only a condition whose literals are
struck out may name one that the template does not hold: its parts stand around a literal. -/

namespace TemplateShape

namespace Tag

open Scan

theorem stands_assignment : Stands (fun source : NamePath => source.root.toList) assignment := by
  unfold assignment
  refine .after (peeks_blockStart _) fun _ => .after peeks_name fun _ => ?_
  refine .after peeks_blanks fun _ => .after (Local.literal _) fun _ => ?_
  refine .after peeks_blanks fun _ => ?_
  exact stands_namePath.keep fun source => .after fun _ => .pure List.infix_rfl

theorem stands_output : Stands (fun path : NamePath => path.root.toList) output := by
  unfold output
  refine .after (Local.literal _) fun _ => .after peeks_blanks fun _ => ?_
  exact stands_namePath.keep fun path => .after fun _ => .pure List.infix_rfl

theorem stands_loopHeader :
    Stands (fun header : LoopHeader => header.list.toList) loopHeader := by
  unfold loopHeader
  refine .after (peeks_blockStart _) fun _ => .after peeks_wordRun fun item => ?_
  refine .after peeks_blanks1 fun _ => .after (Local.literal _) fun _ => ?_
  refine .after peeks_blanks1 fun _ => ?_
  exact stands_name.keep fun list => .after fun _ => .pure List.infix_rfl

theorem stands_entriesHeader : Stands String.toList entriesHeader := by
  unfold entriesHeader
  refine .after (peeks_blockStart _) fun _ => .after peeks_wordRun fun _ => ?_
  refine .after (Local.literal _) fun _ => .after peeks_blanks fun _ => ?_
  refine .after peeks_wordRun fun _ => .after peeks_blanks1 fun _ => ?_
  refine .after (Local.literal _) fun _ => .after peeks_blanks1 fun _ => ?_
  refine stands_name.keep fun mapping => ?_
  refine .after fun _ => .after fun _ => .after fun _ => .after fun _ => .after fun _ => ?_
  exact .after fun _ => .after fun _ => .after fun _ => .after fun _ => .pure List.infix_rfl

theorem stands_indexedOutput :
    Stands (fun path : IndexedPath => path.base.root.toList) indexedOutput := by
  unfold indexedOutput
  refine .after (Local.literal _) fun _ => .after peeks_blanks fun _ => ?_
  refine stands_namePath.keep fun base => ?_
  refine .after fun _ => .after fun _ => .after fun _ => .after fun digits => .after fun _ => ?_
  exact .after fun _ => .after fun _ => .pure List.infix_rfl

theorem stands_loop : Stands (fun found : Loop => found.header.list.toList) loop := by
  unfold loop
  exact stands_loopHeader.keep fun header => .after fun body => .pure List.infix_rfl

theorem stands_condition : Stands id condition := by
  have hvalue : ∀ between, Gives (fun expression => id expression <:+: id between)
      (conditionValue between) := by
    intro between
    unfold conditionValue
    split
    · split
      · exact .pure (List.dropWhile_suffix _).isInfix
      · intro text expression rest hscan
        cases hscan
    · intro text expression rest hscan
      cases hscan
  rw [condition_eq]
  refine .after (Local.literal _) fun _ => .after peeks_blanks fun _ => ?_
  refine .after closed_conditionWord.peeks fun _ => ?_
  exact (stands_run _).keep fun between => .after fun _ => hvalue between

end Tag

namespace Condition

open Scan

theorem stands_call_name : Stands (fun found : Call => found.name.toList) call := by
  unfold call
  refine stands_name.keep fun name => ?_
  refine .after fun _ => .after fun _ => .after fun _ => .after fun _ => ?_
  exact .after fun _ => .pure List.infix_rfl

theorem stands_call_arguments : Stands Call.arguments call := by
  unfold call
  refine .after peeks_name fun name => .after peeks_blanks fun _ => ?_
  refine .after (Local.literal _) fun _ => .after peeks_blanks fun _ => ?_
  exact (stands_run _).keep fun arguments => .after fun _ => .pure List.infix_rfl

/-- A name stands in the text, or a literal stood between its parts. -/
theorem Leaves.infix_or_exists {text kept : List Char} (h : Leaves text kept) :
    kept <:+: text ∨
      ∃ piece, piece <:+: text ∧ ('\x27' ∈ piece ∨ '"' ∈ piece) ∧ unquoted piece = kept := by
  obtain ⟨piece, hpiece, hkept⟩ := h
  by_cases hquote : '\x27' ∈ piece ∨ '"' ∈ piece
  · exact .inr ⟨piece, hpiece, hquote, hkept⟩
  · rw [not_or] at hquote
    have hunquoted : Unquoted piece := ⟨hquote.1, hquote.2⟩
    rw [hunquoted.unquoted_eq] at hkept
    exact .inl (hkept ▸ hpiece)

theorem leaves_name {name : String} (hname : Tag.IsName name) {text : List Char}
    (h : name.toList <:+: text) : Leaves text name.toList := by
  have hunquoted : Unquoted name.toList :=
    ⟨fun hmem => absurd (isWord_of_mem_name hname hmem) (by decide),
      fun hmem => absurd (isWord_of_mem_name hname hmem) (by decide)⟩
  exact ⟨name.toList, h, hunquoted.unquoted_eq⟩

theorem leaves_of_mem_reads {excluded : String → Bool} {text : List Char} {path : NamePath}
    (h : path ∈ reads excluded text) : Leaves text path.root.toList := by
  simp only [reads_eq, Call.reads, List.mem_append, List.mem_flatMap, List.mem_filter] at h
  rcases h with ⟨found, hfound, hname | ⟨harguments, -⟩⟩ | ⟨hpath, -⟩
  · have hcall : Tag.IsName found.name := Gives.of_mem_findAll gives_call.wordStart hfound
    have hstands := Stands.of_mem_findAll stands_call_name.wordStart hfound
    split at hname
    · cases hname
    · obtain rfl : path = .bare found.name := by simpa using hname
      exact leaves_name hcall hstands
  · have hstands := Stands.of_mem_findAll stands_call_arguments.wordStart hfound
    exact (leaves_of_mem_paths harguments).within hstands
  · exact leaves_of_mem_paths hpath

end Condition

/-- The variable of a use stands in the template, if it is not a path that a condition reads. -/
theorem Pass.root_infix_of_mem_uses {pass : Pass} (hpass : pass ≠ .condition)
    {template : List Char} {use : Finding} (h : use ∈ pass.uses template) :
    use.root.toList <:+: template := by
  cases pass with
  | condition => exact absurd rfl hpass
  | assignment =>
      obtain ⟨path, hpath, rfl⟩ := List.mem_map.mp h
      exact Scan.Stands.of_mem_findAll (fun _ => Tag.stands_assignment) hpath
  | output =>
      obtain ⟨path, hpath, rfl⟩ := List.mem_map.mp h
      exact Scan.Stands.of_mem_findAll (fun _ => Tag.stands_output) hpath
  | loop =>
      obtain ⟨header, hheader, rfl⟩ := List.mem_map.mp h
      exact Scan.Stands.of_mem_findAll (fun _ => Tag.stands_loopHeader) hheader
  | entriesLoop =>
      obtain ⟨mapping, hmapping, rfl⟩ := List.mem_map.mp h
      exact Scan.Stands.of_mem_findAll (fun _ => Tag.stands_entriesHeader) hmapping
  | itemAccess =>
      obtain ⟨path, hpath, rfl⟩ := List.mem_map.mp h
      exact Scan.Stands.of_mem_findAll (fun _ => Tag.stands_indexedOutput) hpath
  | loopItems =>
      obtain ⟨loop, hloop, rfl⟩ := List.mem_map.mp h
      exact Scan.Stands.of_mem_findAll (fun _ => Tag.stands_loop) hloop

namespace Template

/-- Every name of an outline stands in the template, or it is what is left of a stretch of a
condition when the literals in that stretch are struck out. -/
theorem names_stand_in_template (settings : Settings) (template : String) {name : String}
    (h : name ∈ (Outline.ofTemplate settings template).names) :
    name.toList <:+: template.toList ∨
      ∃ expression ∈ Pass.matchesOf Tag.condition template.toList,
        ∃ piece, piece <:+: expression ∧ ('\x27' ∈ piece ∨ '"' ∈ piece) ∧
          Condition.unquoted piece = name.toList := by
  obtain ⟨-, pass, -, use, huse, rfl⟩ := Outline.mem_names_ofTemplate_iff.mp h
  by_cases hpass : pass = .condition
  · rw [hpass, uses_condition] at huse
    obtain ⟨path, hpath, rfl⟩ := List.mem_map.mp huse
    obtain ⟨expression, hexpression, hreads⟩ := List.mem_flatMap.mp hpath
    rcases (Condition.leaves_of_mem_reads hreads).infix_or_exists with hstands | hpiece
    · have hwithin : expression <:+: template.toList :=
        Scan.Stands.of_mem_findAll (fun _ => Tag.stands_condition) hexpression
      exact .inl (hstands.trans hwithin)
    · exact .inr ⟨expression, hexpression, hpiece⟩
  · exact .inl (Pass.root_infix_of_mem_uses hpass huse)

/-- The apostrophe of the first literal and the first quote of the second one are taken for a
literal, and the name comes from around it. -/
theorem names_stand_in_template_around_literal :
    ∃ expression ∈ Pass.matchesOf Tag.condition "\x7b% if a == \"it's\" or b == 'c' %\x7d".toList,
      ∃ piece, piece <:+: expression ∧ ('\x27' ∈ piece ∨ '"' ∈ piece) ∧
        Condition.unquoted piece = "itc".toList := by
  have hname : "itc" ∈
      (Outline.ofTemplate {} "\x7b% if a == \"it's\" or b == 'c' %\x7d").names := by decide +kernel
  have hmissing : ¬ "itc".toList <:+: "\x7b% if a == \"it's\" or b == 'c' %\x7d".toList := by
    decide +kernel
  exact (names_stand_in_template {} "\x7b% if a == \"it's\" or b == 'c' %\x7d"
    hname).resolve_left hmissing

/-- Not every name of an outline stands in the template. -/
theorem not_all_names_stand_in_template :
    ¬ ∀ (settings : Settings) (template : String),
      ∀ name ∈ (Outline.ofTemplate settings template).names,
        name.toList <:+: template.toList := by
  intro h
  have hname : "itc" ∈
      (Outline.ofTemplate {} "\x7b% if a == \"it's\" or b == 'c' %\x7d").names := by decide +kernel
  exact absurd (h {} "\x7b% if a == \"it's\" or b == 'c' %\x7d" "itc" hname) (by decide +kernel)

end Template

end TemplateShape
