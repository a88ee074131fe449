import TemplateShape.Proofs.Template.Tags

/-! # No tag looks behind its end

Whether a tag stands at a place is settled by the tag's own text. So the tags in a text are found
again when the text goes on, and they are the first that are found then. -/

namespace TemplateShape.Tag

open Scan

variable {α : Type}

/-! ## Delimiters -/

theorem closed_blockEnd : Closed blockEnd :=
  peeks_blanks.closes fun _ => .literal (by simp)

theorem peeks_blockStart (first : String) : Peeks (blockStart first) := by
  refine (Closed.literal (by simp)).peeks.bind fun _ => ?_
  refine peeks_blanks.bind fun _ => ?_
  refine Peeks.bind (Local.literal first.toList) fun _ => ?_
  exact peeks_blanks1

theorem peeks_filters : Peeks filters := by
  intro text u rest hscan
  by_cases hbar : text.head? = some '|'
  · obtain ⟨tail, rfl⟩ := List.head?_eq_some_iff.mp hbar
    obtain ⟨⟨taken, rest'⟩, hrun, hpair⟩ := Option.map_eq_some_iff.mp hscan
    obtain ⟨-, rfl⟩ := Prod.mk.inj hpair
    obtain ⟨body, htail, hbody⟩ := peeks_run1 _ tail taken rest' hrun
    refine ⟨'|' :: body, by simp [htail], ?_⟩
    intro other hother
    simp [filters, hbody other hother]
  · have hnone : ∀ other : List Char, other.head? ≠ some '|' →
        filters other = some ((), other) := by
      intro other hother
      unfold filters
      split
      · simp at hother
      · rfl
    have hpair : ((), text) = (u, rest) := Option.some.inj ((hnone text hbar).symm.trans hscan)
    obtain ⟨-, rfl⟩ := Prod.mk.inj hpair
    refine ⟨[], rfl, ?_⟩
    intro other hother
    exact hnone other (hother ▸ hbar)

theorem takes_filters : Takes (· ≠ '}') filters := by
  intro text u rest hscan
  unfold filters at hscan
  split at hscan
  · rename_i tail
    obtain ⟨⟨taken, rest'⟩, hrun, hpair⟩ := Option.map_eq_some_iff.mp hscan
    obtain ⟨-, rfl⟩ := Prod.mk.inj hpair
    have htakes : Takes (· ≠ '}') (run1 (· != '}')) := .run1 (by simp)
    obtain ⟨body, htail, hbody⟩ := htakes tail taken rest' hrun
    exact ⟨'|' :: body, by simp [htail], by simpa using hbody⟩
  · obtain ⟨-, rfl⟩ := Prod.mk.inj (Option.some.inj hscan)
    exact ⟨[], rfl, by simp⟩

theorem closed_outputEnd : Closed outputEnd := by
  refine peeks_blanks.closes fun _ => ?_
  refine peeks_filters.closes fun _ => ?_
  exact peeks_blanks.closes fun _ => .literal (by simp)

theorem ends_outputEnd : Ends (· ≠ '}') ['}', '}'] outputEnd := by
  refine Ends.after (Takes.blanks (ne_of_isBlank (by decide))) fun _ => ?_
  refine Ends.after takes_filters fun _ => ?_
  exact Ends.after (Takes.blanks (ne_of_isBlank (by decide))) fun _ => .literal

/-! ## Block tags -/

theorem closed_assignment : Closed assignment := by
  refine (peeks_blockStart "set").closes fun _ => ?_
  refine peeks_name.closes fun _ => ?_
  refine peeks_blanks.closes fun _ => ?_
  refine (Closed.literal (by simp)).peeks.closes fun _ => ?_
  refine peeks_blanks.closes fun _ => ?_
  apply closed_namePath_bind
  · intro source
    exact closed_blockEnd.bind fun _ => .pure source
  · intro source text
    rfl

theorem closed_loopHeader : Closed loopHeader := by
  refine (peeks_blockStart "for").closes fun _ => ?_
  refine peeks_wordRun.closes fun item => ?_
  refine peeks_blanks1.closes fun _ => ?_
  refine (Closed.literal (by simp)).peeks.closes fun _ => ?_
  refine peeks_blanks1.closes fun _ => ?_
  refine peeks_name.closes fun list => ?_
  exact closed_blockEnd.bind fun _ => .pure _

theorem closed_entriesHeader : Closed entriesHeader := by
  refine (peeks_blockStart "for").closes fun _ => ?_
  refine peeks_wordRun.closes fun _ => ?_
  refine (Closed.literal (by simp)).peeks.closes fun _ => ?_
  refine peeks_blanks.closes fun _ => ?_
  refine peeks_wordRun.closes fun _ => ?_
  refine peeks_blanks1.closes fun _ => ?_
  refine (Closed.literal (by simp)).peeks.closes fun _ => ?_
  refine peeks_blanks1.closes fun _ => ?_
  refine peeks_name.closes fun mapping => ?_
  refine peeks_blanks.closes fun _ => ?_
  refine (Closed.literal (by simp)).peeks.closes fun _ => ?_
  refine peeks_blanks.closes fun _ => ?_
  refine (Closed.literal (by simp)).peeks.closes fun _ => ?_
  refine peeks_blanks.closes fun _ => ?_
  refine (Closed.literal (by simp)).peeks.closes fun _ => ?_
  refine peeks_blanks.closes fun _ => ?_
  refine (Closed.literal (by simp)).peeks.closes fun _ => ?_
  exact closed_blockEnd.bind fun _ => .pure mapping

theorem closed_conditionBody : Closed conditionBody := by
  refine (peeks_run _).closes fun between => ?_
  refine (Closed.literal (by simp)).bind fun _ => ?_
  intro text expression rest hscan
  obtain ⟨rfl, hother⟩ := conditionValue_eq_some hscan
  exact ⟨[], rfl, fun other _ => hother other⟩

theorem closed_conditionInner : Closed conditionInner := by
  refine peeks_blanks.closes fun _ => ?_
  exact closed_conditionWord.peeks.closes fun _ => closed_conditionBody

theorem closed_condition : Closed condition := by
  rw [condition_eq]
  exact (Closed.literal (by simp)).peeks.closes fun _ => closed_conditionInner

theorem closed_loopClose : Closed loopClose := by
  refine (Closed.literal (by simp)).peeks.closes fun _ => ?_
  refine peeks_blanks.closes fun _ => ?_
  exact (Closed.literal (by simp)).peeks.closes fun _ => closed_blockEnd

theorem closed_loop : Closed loop := by
  refine closed_loopHeader.peeks.closes fun header => ?_
  exact (closed_before closed_loopClose apart_loopClose).bind fun _ => .pure _

/-! ## Output tags -/

theorem closed_output : Closed output := by
  refine (Closed.literal (by simp)).peeks.closes fun _ => ?_
  refine peeks_blanks.closes fun _ => ?_
  apply closed_namePath_bind
  · intro path
    exact closed_outputEnd.bind fun _ => .pure path
  · intro path text
    rfl

theorem closed_indexedOutput : Closed indexedOutput := by
  refine (Closed.literal (by simp)).peeks.closes fun _ => ?_
  refine peeks_blanks.closes fun _ => ?_
  apply closed_namePath_bind
  · intro base
    refine peeks_blanks.closes fun _ => ?_
    refine (Closed.literal (by simp)).peeks.closes fun _ => ?_
    refine peeks_blanks.closes fun _ => ?_
    refine (peeks_run1 _).closes fun digits => ?_
    refine peeks_blanks.closes fun _ => ?_
    refine (Closed.literal (by simp)).peeks.closes fun _ => ?_
    exact closed_outputEnd.bind fun _ => .pure _
  · intro base text
    rfl

theorem ends_output : Ends (· ≠ '}') ['}', '}'] output := by
  refine Ends.after (Takes.literal (by simp)) fun _ => ?_
  refine Ends.after (Takes.blanks (ne_of_isBlank (by decide))) fun _ => ?_
  refine Ends.after (Takes.namePath (ne_of_isWord (by decide)) (by simp)) fun path => ?_
  exact ends_outputEnd.bind_pure

theorem ends_indexedOutput : Ends (· ≠ '}') ['}', '}'] indexedOutput := by
  refine Ends.after (Takes.literal (by simp)) fun _ => ?_
  refine Ends.after (Takes.blanks (ne_of_isBlank (by decide))) fun _ => ?_
  refine Ends.after (Takes.namePath (ne_of_isWord (by decide)) (by simp)) fun base => ?_
  refine Ends.after (Takes.blanks (ne_of_isBlank (by decide))) fun _ => ?_
  refine Ends.after (Takes.literal (by simp)) fun _ => ?_
  refine Ends.after (Takes.blanks (ne_of_isBlank (by decide))) fun _ => ?_
  refine Ends.after (Takes.run1 ?_) fun digits => ?_
  · rintro c hdigit rfl
    simp at hdigit
  refine Ends.after (Takes.blanks (ne_of_isBlank (by decide))) fun _ => ?_
  refine Ends.after (Takes.literal (by simp)) fun _ => ?_
  exact ends_outputEnd.bind_pure

/-! ## Tags that are there by then -/

theorem isSome_loop_iff {text : List Char} : (loop text).isSome ↔
    ∃ header behind, loopHeader text = some (header, behind) ∧
      (before loopClose behind).isSome := by
  constructor
  · intro h
    obtain ⟨⟨found, rest⟩, hloop⟩ := Option.isSome_iff_exists.mp h
    obtain ⟨header, behind, hheader, hbody⟩ := bind_eq_some_iff.mp hloop
    obtain ⟨body, rest', hbefore, -⟩ := bind_eq_some_iff.mp hbody
    exact ⟨header, behind, hheader, by simp [hbefore]⟩
  · rintro ⟨header, behind, hheader, h⟩
    obtain ⟨⟨body, rest⟩, hbefore⟩ := Option.isSome_iff_exists.mp h
    have hloop : loop text = some (⟨header, body⟩, rest) :=
      bind_eq_some_iff.mpr ⟨header, behind, hheader,
        bind_eq_some_iff.mpr ⟨body, rest, hbefore, rfl⟩⟩
    simp [hloop]

/-- The end of a loop that is complete also ends each loop that begins before it. -/
theorem prompt_loop : Prompt loop := by
  intro text more suffix found rest found' rest' hsuffix hscan hmore
  have hthere : (loop suffix).isSome := by simp [hscan]
  obtain ⟨header, inner, hinner, hclose⟩ := isSome_loop_iff.mp hthere
  obtain ⟨behind', hheader'⟩ := loopHeader_of_loop hmore
  have hprompt : Prompt loopHeader := apart_loopHeader.prompt closed_loopHeader
  obtain ⟨⟨header₀, behind⟩, hheader⟩ := Option.isSome_iff_exists.mp
    (hprompt text more suffix header inner found'.header behind' hsuffix hinner hheader')
  obtain ⟨place, hplace, hsome⟩ := isSome_before_iff.mp hclose
  have hbehind : place <:+ behind := by
    by_cases heq : suffix = text
    · have hpair := hinner.symm.trans (heq ▸ hheader)
      obtain ⟨-, rfl⟩ := Prod.mk.inj (Option.some.inj hpair)
      exact hplace
    · have hlater : suffix <:+ behind := apart_loopHeader.apart hheader hsuffix heq hinner
      exact (hplace.trans (apart_loopHeader.shorter hinner).1).trans hlater
  exact isSome_loop_iff.mpr ⟨header₀, behind, hheader,
    isSome_before_iff.mpr ⟨place, hbehind, hsome⟩⟩

end TemplateShape.Tag
