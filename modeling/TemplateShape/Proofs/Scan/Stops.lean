import TemplateShape.Proofs.Scan.Borders

/-! # Scanners that stop at a character

A path ends in front of a blank just as it ends where the text ends. At a character of this kind the
search for matches falls into two, also for a scanner that looks ahead. -/

namespace TemplateShape.Scan

variable {α β : Type} {stop : Char}

/-- In front of a character the scanner does what it does where the text ends. -/
def Stops (stop : Char) (scan : Scan α) : Prop :=
  ∀ front back, scan (front ++ stop :: back) =
    (scan front).map fun (a, rest) => (a, rest ++ stop :: back)

theorem takeWhile_append_cons {p : Char → Bool} {c : Char} (hc : p c = false)
    (front back : List Char) : (front ++ c :: back).takeWhile p = front.takeWhile p := by
  rw [List.takeWhile_append]
  split
  · rename_i hall
    have hself : front.takeWhile p = front := (List.takeWhile_prefix p).eq_of_length hall
    simp [hc, hself]
  · rfl

theorem dropWhile_append_cons {p : Char → Bool} {c : Char} (hc : p c = false)
    (front back : List Char) :
    (front ++ c :: back).dropWhile p = front.dropWhile p ++ c :: back := by
  rw [List.dropWhile_append]
  split
  · rename_i hnil
    simp [List.isEmpty_iff.mp hnil, hc]
  · rfl

/-! ## Parts -/

namespace Stops

theorem pure (a : α) : Stops stop (Pure.pure a : Scan α) :=
  fun _ _ => rfl

theorem bind {scan : Scan α} {next : α → Scan β} (h : Stops stop scan)
    (hnext : ∀ a, Stops stop (next a)) : Stops stop (scan >>= next) := by
  intro front back
  have hlonger := h front back
  cases hscan : scan front with
  | none =>
      rw [hscan] at hlonger
      rw [bind_of_none hscan, bind_of_none hlonger]
      rfl
  | some found =>
      rw [hscan] at hlonger
      rw [bind_of_some hscan, bind_of_some hlonger, hnext found.1]

theorem literal {c : Char} (h : c ≠ stop) : Stops stop (Scan.literal [c]) := by
  intro front back
  cases front with
  | nil => simp [Scan.literal, List.isPrefixOf?, h]
  | cons d front => cases hsame : c == d <;> simp [Scan.literal, List.isPrefixOf?, hsame]

theorem name (h : Ascii.isWord stop = false) : Stops stop Scan.name := by
  intro front back
  cases front with
  | nil =>
      have hstart : ¬ Ascii.isNameStart stop = true := fun hstart => by
        simp [Ascii.isWord_of_isNameStart hstart] at h
      simp [Scan.name, hstart]
  | cons c front =>
      rw [List.cons_append, Scan.name, Scan.name, takeWhile_append_cons h, dropWhile_append_cons h]
      split <;> rfl

theorem upTo {scan : Scan α} (h : Stops stop scan) (limit : Nat) :
    Stops stop (Scan.upTo scan limit) := by
  intro front back
  induction limit generalizing front with
  | zero => rfl
  | succ limit ih =>
      have hlonger := h front back
      cases hscan : scan front with
      | none =>
          rw [hscan] at hlonger
          simp [Scan.upTo, hscan, hlonger]
      | some found =>
          rw [hscan] at hlonger
          simp [Scan.upTo, hscan, hlonger, ih, Function.comp_def]

end Stops

theorem upTo_of_length_le {scan : Scan α}
    (hmoves : ∀ text a rest, scan text = some (a, rest) → rest.length < text.length)
    {text : List Char} {limit : Nat} (h : text.length ≤ limit) :
    upTo scan limit text = upTo scan text.length text := by
  have hstep : ∀ (limit : Nat) (text : List Char), text.length ≤ limit →
      upTo scan (limit + 1) text = upTo scan limit text := by
    intro limit
    induction limit with
    | zero =>
        intro text hlength
        cases hscan : scan text with
        | none => simp [upTo, hscan]
        | some found =>
            have hless := hmoves text found.1 found.2 hscan
            omega
    | succ limit ih =>
        intro text hlength
        rw [upTo, upTo]
        cases hscan : scan text with
        | none => rfl
        | some found =>
            have hless := hmoves text found.1 found.2 hscan
            have hrest := ih found.2 (by omega)
            simp only [hrest]
  induction h with
  | refl => rfl
  | step hlimit ih => rw [hstep _ text hlimit, ih]

theorem Stops.many {scan : Scan α} (h : Stops stop scan)
    (hmoves : ∀ text a rest, scan text = some (a, rest) → rest.length < text.length) :
    Stops stop (many scan) := by
  intro front back
  have hlength : front.length ≤ (front ++ stop :: back).length := by simp
  rw [Scan.many, h.upTo, upTo_of_length_le hmoves hlength]
  rfl

/-! ## Paths -/

/-- A character that belongs to no path. -/
def IsGap (c : Char) : Prop :=
  Ascii.isWord c = false ∧ c ≠ '.'

theorem isGap_of_isBlank {c : Char} (h : Blank.isBlank c = true) : IsGap c := by
  constructor
  · by_contra hword
    simp [isBlank_of_isWord (eq_true_of_ne_false hword)] at h
  · rintro rfl
    exact absurd h (by decide)

theorem IsGap.stops_namePath (h : IsGap stop) : Stops stop namePath := by
  have hbehind : Stops stop (afterPoint name) :=
    (Stops.literal h.2.symm).bind fun _ => .name h.1
  have hmoves : ∀ text a rest, afterPoint name text = some (a, rest) →
      rest.length < text.length := by
    intro text a rest hscan
    have hsuffix : rest <:+ text := Local.suffix (peeks_afterPoint peeks_name) hscan
    apply Nat.lt_of_le_of_ne hsuffix.length_le
    intro hlength
    rw [hsuffix.eq_of_length hlength] at hscan
    exact afterPoint_ne_some_self peeks_name text a hscan
  exact (Stops.name h.1).bind fun _ => (hbehind.many hmoves).bind fun _ => .pure _

/-! ## Matches -/

/-- The matches in front of the character and those behind it do not depend on each other. -/
theorem Stops.findAll_append {scan : Scan α} (h : Stops stop scan) (hempty : scan [] = none)
    (hword : Ascii.isWord stop = false) (front back : List Char) :
    findAll (wordStart scan) (front ++ stop :: back) =
      findAll (wordStart scan) front ++ findAll (wordStart scan) back := by
  have hcut : matchesFrom (wordStart scan) 0 none (front ++ stop :: back) =
      matchesFrom (wordStart scan) 0 none front ++
        matchesFrom (wordStart scan) 0 (front.getLast?.or none) (stop :: back) := by
    apply matchesFrom_append (Nat.zero_le _)
    intro previous suffix _ _
    unfold wordStart
    split
    · exact h suffix back
    · rfl
  have hnone : ∀ previous, wordStart scan previous (stop :: back) = none := by
    intro previous
    apply wordStart_eq_none
    intro _
    have hstop := h [] back
    rwa [hempty] at hstop
  have hstart : atWordStart (some stop) = atWordStart none := by simp [atWordStart, hword]
  rw [matchesFrom_of_none (hnone _), matchesFrom_wordStart_congr scan hstart] at hcut
  exact hcut

end TemplateShape.Scan
