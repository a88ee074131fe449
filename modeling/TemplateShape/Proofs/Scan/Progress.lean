import TemplateShape.Proofs.Scan.Borders
import TemplateShape.Proofs.Scan.Replaced

/-! # The progress of a search

A search goes through a text from place to place. What each of its steps keeps up, be it over an
unmatched character or over a match, holds at every place that it tries. -/

namespace TemplateShape.Scan

variable {α : Type} {scan : Placed α} {replacement text front back written : List Char}

/-- A search has gone through `front`, for which it has written `written`, and tries next the place
in front of `back`. -/
inductive Progress (scan : Placed α) (replacement text : List Char) :
    (front back written : List Char) → Prop
  | start : Progress scan replacement text [] text []
  | keep {front back written : List Char} {c : Char} :
      Progress scan replacement text front (c :: back) written →
      scan front.getLast? (c :: back) = none →
      Progress scan replacement text (front ++ [c]) back (written ++ [c])
  | replace {front taken rest written : List Char} {a : α} :
      Progress scan replacement text front (taken ++ rest) written →
      scan front.getLast? (taken ++ rest) = some (a, rest) →
      Progress scan replacement text (front ++ taken) rest (written ++ replacement)

theorem Progress.text_eq (h : Progress scan replacement text front back written) :
    text = front ++ back := by
  induction h with
  | start => rfl
  | keep _ _ ih => simp [ih]
  | replace _ _ ih => simp [ih]

def Moves (scan : Placed α) : Prop :=
  ∀ previous text a rest, scan previous text = some (a, rest) →
    ∃ taken, taken ≠ [] ∧ text = taken ++ rest

/-! ## One step after the other -/

/-- A search gets to the end of the text, over unmatched characters and over matches. -/
@[elab_as_elim]
theorem search_induct (hmoves : Moves scan) {motive : (front back : List Char) → Prop}
    (finish : ∀ front, motive front [])
    (keep : ∀ front c back, scan front.getLast? (c :: back) = none →
      motive (front ++ [c]) back → motive front (c :: back))
    (replace : ∀ front taken rest a, taken ≠ [] →
      scan front.getLast? (taken ++ rest) = some (a, rest) →
      motive (front ++ taken) rest → motive front (taken ++ rest)) :
    ∀ front back, motive front back := by
  intro front back
  induction hlength : back.length using Nat.strong_induction_on generalizing front back with
  | _ n ih =>
      subst hlength
      cases back with
      | nil => exact finish front
      | cons c tail =>
          cases hscan : scan front.getLast? (c :: tail) with
          | none => exact keep front c tail hscan (ih tail.length (by simp) _ tail rfl)
          | some found =>
              obtain ⟨a, rest⟩ := found
              obtain ⟨taken, hne, htaken⟩ := hmoves _ _ a rest hscan
              rw [htaken] at hscan ih ⊢
              have hpos : 0 < taken.length := List.length_pos_iff.mpr hne
              exact replace front taken rest a hne hscan
                (ih rest.length (by simp [hpos]) _ rest rfl)

theorem matchesFrom_replace {taken rest : List Char} {a : α} (hne : taken ≠ [])
    (hscan : scan front.getLast? (taken ++ rest) = some (a, rest)) :
    matchesFrom scan 0 front.getLast? (taken ++ rest) =
      a :: matchesFrom scan 0 (front ++ taken).getLast? rest := by
  obtain ⟨c, tail, rfl⟩ := List.exists_cons_of_ne_nil hne
  have hlength : (tail ++ rest).length - rest.length = tail.length := by simp
  rw [List.getLast?_append, getLast?_cons_or]
  rw [List.cons_append] at hscan ⊢
  rw [matchesFrom_of_some hscan, hlength, matchesFrom_append_taken]

theorem replaceFrom_replace {taken rest : List Char} {a : α} (hne : taken ≠ [])
    (hscan : scan front.getLast? (taken ++ rest) = some (a, rest)) :
    replaceFrom scan replacement 0 front.getLast? (taken ++ rest) =
      replacement ++ replaceFrom scan replacement 0 (front ++ taken).getLast? rest := by
  obtain ⟨c, tail, rfl⟩ := List.exists_cons_of_ne_nil hne
  have hlength : (tail ++ rest).length - rest.length = tail.length := by simp
  rw [List.getLast?_append, getLast?_cons_or]
  rw [List.cons_append] at hscan ⊢
  rw [replaceFrom_of_some hscan, hlength, replaceFrom, piecesFrom_append_taken, replaceFrom]

/-! ## Places -/

/-- A search finds its matches at places that it tries. -/
theorem Progress.exists_match (hmoves : Moves scan)
    (h : Progress scan replacement text front back written) {a : α}
    (ha : a ∈ matchesFrom scan 0 front.getLast? back) :
    ∃ front back written rest, Progress scan replacement text front back written ∧
      scan front.getLast? back = some (a, rest) := by
  induction front, back using search_induct hmoves generalizing written with
  | finish front => simp at ha
  | keep front c back hscan ih =>
      rw [matchesFrom_of_none hscan] at ha
      exact ih (h.keep hscan) (by simpa using ha)
  | replace front taken rest b hne hscan ih =>
      rw [matchesFrom_replace hne hscan] at ha
      rcases List.mem_cons.mp ha with rfl | hlater
      · exact ⟨front, taken ++ rest, written, rest, h, hscan⟩
      · exact ih (h.replace hscan) hlater

theorem exists_progress_of_mem_findAll (hmoves : Moves scan) {a : α} (ha : a ∈ findAll scan text) :
    ∃ front back written rest, Progress scan [] text front back written ∧
      scan front.getLast? back = some (a, rest) :=
  Progress.exists_match hmoves .start ha

/-- A character of what a search writes is one that it keeps, unless replacements have it. -/
theorem Progress.exists_kept (hmoves : Moves scan)
    (h : Progress scan replacement text front back written) {before after : List Char} {c : Char}
    (hwritten : replaceFrom scan replacement 0 front.getLast? back = before ++ c :: after)
    (hc : c ∉ replacement) :
    ∃ front back, Progress scan replacement text front (c :: back) (written ++ before) ∧
      replaceFrom scan replacement 0 (some c) back = after := by
  induction front, back using search_induct hmoves generalizing written before with
  | finish front => simp at hwritten
  | keep front d back hscan ih =>
      rw [replaceFrom_of_none hscan] at hwritten
      cases before with
      | nil =>
          obtain ⟨rfl, hafter⟩ := List.cons.inj hwritten
          exact ⟨front, back, by simpa using h, hafter⟩
      | cons e before =>
          obtain ⟨rfl, hrest⟩ := List.cons.inj hwritten
          simpa using ih (h.keep hscan) (by simpa using hrest)
  | replace front taken rest b hne hscan ih =>
      rw [replaceFrom_replace hne hscan] at hwritten
      obtain ⟨inner, hinner⟩ := exists_of_append_eq hwritten.symm hc
      have hbefore : before = replacement ++ inner := by
        rw [hinner, ← List.append_assoc] at hwritten
        exact (List.append_cancel_right hwritten).symm
      rw [hbefore, ← List.append_assoc]
      exact ih (h.replace hscan) hinner

end TemplateShape.Scan
