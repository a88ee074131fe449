import TemplateShape.Proofs.Scan.Written

/-! # Borders of matches

A scanner does not get beyond a character that it never takes, nor beyond one with which everything
that it takes begins or ends. At such a character the search for matches falls into two. -/

namespace TemplateShape.Scan

variable {α : Type}

/-! ## One match -/

/-- If no match gets beyond the end of a text, what comes behind the text does not matter. -/
theorem Closed.append_eq_map {scan : Scan α} (h : Closed scan) {front more : List Char}
    (hwithin : ∀ a rest, scan (front ++ more) = some (a, rest) → ∃ inner, rest = inner ++ more) :
    scan (front ++ more) = (scan front).map fun (a, rest) => (a, rest ++ more) := by
  cases hscan : scan front with
  | some found => exact h.append hscan more
  | none =>
      cases hlonger : scan (front ++ more) with
      | none => rfl
      | some found =>
          obtain ⟨inner, hinner⟩ := hwithin found.1 found.2 hlonger
          have hshort : scan front = some (found.1, inner) :=
            h.of_append (by rw [← hinner, hlonger])
          rw [hscan] at hshort
          simp at hshort

theorem exists_of_append_eq {front taken back rest : List Char} {stop : Char}
    (h : front ++ stop :: back = taken ++ rest) (hstop : stop ∉ taken) :
    ∃ inner, rest = inner ++ stop :: back := by
  obtain ⟨more, htaken, hmore⟩ | ⟨inner, -, hrest⟩ := List.append_eq_append_iff.mp h
  · cases more with
    | nil => exact ⟨[], hmore.symm⟩
    | cons c more =>
        obtain rfl : stop = c := (List.cons.inj hmore).1
        exact absurd (by simp [htaken]) hstop
  · exact ⟨inner, hrest⟩

/-- A character that is never taken ends every match in front of it. -/
theorem Closed.append_stop {scan : Scan α} (h : Closed scan) {p : Char → Prop}
    (htakes : Takes p scan) {stop : Char} (hstop : ¬ p stop) (front back : List Char) :
    scan (front ++ stop :: back) =
      (scan front).map fun (a, rest) => (a, rest ++ stop :: back) := by
  apply h.append_eq_map
  intro a rest hscan
  obtain ⟨taken, htext, hall⟩ := htakes _ a rest hscan
  exact exists_of_append_eq htext fun hmem => hstop (hall stop hmem)

/-- A character with which all that is taken ends ends every match in front of it. -/
theorem Closed.append_mark {scan : Scan α} (h : Closed scan) {mark : Char}
    (hends : Ends (· ≠ mark) [mark] scan) (front back : List Char) :
    scan ((front ++ [mark]) ++ back) =
      (scan (front ++ [mark])).map fun (a, rest) => (a, rest ++ back) := by
  apply h.append_eq_map
  intro a rest hscan
  obtain ⟨body, htext, hbody⟩ := hends _ a rest hscan
  have hsplit : front ++ mark :: back = body ++ (mark :: rest) := by simpa using htext
  obtain ⟨inner, hinner⟩ := exists_of_append_eq hsplit fun hmem => hbody mark hmem rfl
  cases inner with
  | nil => exact ⟨[], (List.cons.inj hinner).2⟩
  | cons c inner => exact ⟨inner ++ [mark], by simpa using (List.cons.inj hinner).2⟩

/-- A character with which all that is taken begins ends every match that begins in front of it. -/
theorem Closed.append_next {scan : Scan α} (h : Closed scan) {mark : Char}
    (hmarked : Marked mark scan) {front : List Char} (hne : front ≠ []) (back : List Char) :
    scan (front ++ mark :: back) =
      (scan front).map fun (a, rest) => (a, rest ++ mark :: back) := by
  apply h.append_eq_map
  intro a rest hscan
  obtain ⟨body, htext, hbody⟩ := hmarked _ a rest hscan
  obtain ⟨c, front, rfl⟩ := List.exists_cons_of_ne_nil hne
  have hsplit : front ++ mark :: back = body ++ rest := (List.cons.inj htext).2
  exact exists_of_append_eq hsplit hbody

/-- Where a longer text has a match that gets beyond its first part, that part has none. -/
theorem Closed.eq_none_of_beyond {scan : Scan α} (h : Closed scan) {text more rest : List Char}
    {a : α} (hscan : scan (text ++ more) = some (a, rest)) (hbeyond : rest.length < more.length) :
    scan text = none := by
  cases hshort : scan text with
  | none => rfl
  | some found =>
      obtain ⟨b, inner⟩ := found
      have hrest : rest = inner ++ more :=
        congrArg Prod.snd (Option.some.inj (hscan.symm.trans (h.append hshort more)))
      rw [hrest, List.length_append] at hbeyond
      omega

/-! ## Stretches in which no match begins -/

/-- No match begins in a text, if another one stands behind it. -/
def Silent (scan : Scan α) (text more : List Char) : Prop :=
  ∀ suffix, suffix <:+ text → suffix ≠ [] → scan (suffix ++ more) = none

theorem Silent.append {scan : Scan α} {text other more : List Char}
    (h : Silent scan text (other ++ more)) (hother : Silent scan other more) :
    Silent scan (text ++ other) more := by
  rintro suffix ⟨front, hfront⟩ hne
  rcases List.append_eq_append_iff.mp hfront with ⟨within, htext, hsuffix⟩ | ⟨within, -, hbehind⟩
  · by_cases hwithin : within = []
    · exact hother suffix ⟨[], by rw [hsuffix, hwithin]; rfl⟩ hne
    · rw [hsuffix, List.append_assoc]
      exact h within ⟨front, htext.symm⟩ hwithin
  · exact hother suffix ⟨within, hbehind.symm⟩ hne

theorem Silent.before_append {stop : Scan Unit} {text more rest : List Char}
    (h : Silent stop text more) (hstop : stop more = some ((), rest)) :
    before stop (text ++ more) = some (text, rest) := by
  induction text with
  | nil => cases more <;> simp [before, hstop]
  | cons c text ih =>
      have hfirst : stop (c :: (text ++ more)) = none := h (c :: text) List.suffix_rfl (by simp)
      have hrest : Silent stop text more :=
        fun suffix hsuffix => h suffix (hsuffix.trans (List.suffix_cons c text))
      simp [before, hfirst, ih hrest]

/-- A text without a match stays without one in front of a character with which all matches
begin. -/
theorem silent_of_before_eq_none {stop : Scan Unit} (hclosed : Closed stop) {mark : Char}
    (hmarked : Marked mark stop) {text : List Char} (h : before stop text = none)
    (back : List Char) : Silent stop text (mark :: back) := by
  intro suffix hsuffix hne
  rw [hclosed.append_next hmarked hne]
  cases hstop : stop suffix with
  | none => rfl
  | some found =>
      have hthere : (stop suffix).isSome := by simp [hstop]
      have hsome := isSome_before_iff.mpr ⟨suffix, hsuffix, hthere⟩
      simp [h] at hsome

/-! ## All matches -/

theorem mem_matchesFrom_of_some (scan : Placed α) (previous : Option Char) {text rest : List Char}
    {a : α} (h : scan previous text = some (a, rest)) (hne : text ≠ []) :
    a ∈ matchesFrom scan 0 previous text := by
  obtain ⟨c, text, rfl⟩ := List.exists_cons_of_ne_nil hne
  rw [matchesFrom_of_some h]
  exact List.mem_cons_self

/-- The search for matches gets to a place, or a match that begins in front of the place takes the
text beyond it. -/
theorem matchesFrom_reaches (scan : Placed α) (front more : List Char) {taken : Nat}
    (htaken : taken ≤ front.length) (previous : Option Char) :
    (∃ values last, matchesFrom scan taken previous (front ++ more) =
      values ++ matchesFrom scan 0 last more) ∨
    ∃ last suffix a rest, suffix <:+ front ∧ suffix ≠ [] ∧
      scan last (suffix ++ more) = some (a, rest) ∧ rest.length < more.length ∧
      a ∈ matchesFrom scan taken previous (front ++ more) := by
  induction front generalizing taken previous with
  | nil =>
      obtain rfl : taken = 0 := by simpa using htaken
      exact .inl ⟨[], previous, rfl⟩
  | cons c front ih =>
      cases taken with
      | succ taken =>
          rcases ih (by simpa using htaken) (some c) with hthere | hbeyond
          · exact .inl hthere
          · obtain ⟨last, suffix, a, rest, hsuffix, hbeyond⟩ := hbeyond
            exact .inr ⟨last, suffix, a, rest, hsuffix.trans (List.suffix_cons c front), hbeyond⟩
      | zero =>
          cases hscan : scan previous (c :: (front ++ more)) with
          | none =>
              rw [List.cons_append, matchesFrom_of_none hscan]
              rcases ih (Nat.zero_le _) (some c) with hthere | hbeyond
              · exact .inl hthere
              · obtain ⟨last, suffix, a, rest, hsuffix, hbeyond⟩ := hbeyond
                exact .inr ⟨last, suffix, a, rest, hsuffix.trans (List.suffix_cons c front),
                  hbeyond⟩
          | some found =>
              obtain ⟨a, rest⟩ := found
              rw [List.cons_append, matchesFrom_of_some hscan]
              by_cases hlength : rest.length < more.length
              · exact .inr ⟨previous, c :: front, a, rest, List.suffix_rfl, by simp, hscan,
                  hlength, List.mem_cons_self⟩
              · have hwithin : (front ++ more).length - rest.length ≤ front.length := by
                  rw [List.length_append]
                  omega
                rcases ih hwithin (some c) with ⟨values, last, hthere⟩ | hbeyond
                · exact .inl ⟨a :: values, last, by rw [hthere]; rfl⟩
                · obtain ⟨last, suffix, b, rest', hsuffix, hne, hother, hless, hmem⟩ := hbeyond
                  exact .inr ⟨last, suffix, b, rest', hsuffix.trans (List.suffix_cons c front),
                    hne, hother, hless, List.mem_cons_of_mem a hmem⟩

/-- If no match gets beyond the end of a text, the matches in a text that goes on are those in the
text and those behind it. -/
theorem matchesFrom_append {scan : Placed α} {front more : List Char} {taken : Nat}
    {previous : Option Char} (htaken : taken ≤ front.length)
    (h : ∀ previous suffix, suffix <:+ front → suffix ≠ [] → scan previous (suffix ++ more) =
      (scan previous suffix).map fun (a, rest) => (a, rest ++ more)) :
    matchesFrom scan taken previous (front ++ more) =
      matchesFrom scan taken previous front ++
        matchesFrom scan 0 (front.getLast?.or previous) more := by
  induction front generalizing taken previous with
  | nil =>
      obtain rfl : taken = 0 := by simpa using htaken
      simp
  | cons c front ih =>
      have hrest : ∀ previous suffix, suffix <:+ front → suffix ≠ [] →
          scan previous (suffix ++ more) =
            (scan previous suffix).map fun (a, rest) => (a, rest ++ more) :=
        fun previous suffix hsuffix => h previous suffix (hsuffix.trans (List.suffix_cons c front))
      cases taken with
      | succ taken =>
          rw [List.cons_append, matchesFrom_succ, matchesFrom_succ, getLast?_cons_or]
          exact ih (by simpa using htaken) hrest
      | zero =>
          have hfirst : scan previous (c :: (front ++ more)) =
              (scan previous (c :: front)).map fun (a, rest) => (a, rest ++ more) :=
            h previous (c :: front) List.suffix_rfl (by simp)
          cases hscan : scan previous (c :: front) with
          | none =>
              rw [hscan] at hfirst
              rw [List.cons_append, matchesFrom_of_none hscan, matchesFrom_of_none hfirst,
                getLast?_cons_or]
              exact ih (Nat.zero_le _) hrest
          | some found =>
              rw [hscan] at hfirst
              have htakenLength : (front ++ more).length - (found.2 ++ more).length =
                  front.length - found.2.length := by
                simp only [List.length_append]
                omega
              rw [List.cons_append, matchesFrom_of_some hscan, matchesFrom_of_some hfirst,
                getLast?_cons_or, htakenLength, ih (Nat.sub_le _ _) hrest]
              rfl

/-! ## Starts of words -/

theorem wordStart_eq_some_iff {scan : Scan α} {previous : Option Char} {text : List Char}
    {found : α × List Char} : wordStart scan previous text = some found ↔
      atWordStart previous = true ∧ scan text = some found := by
  cases hstart : atWordStart previous <;> simp [wordStart, hstart]

theorem matchesFrom_wordStart_congr (scan : Scan α) {previous previous' : Option Char}
    (h : atWordStart previous = atWordStart previous') (text : List Char) :
    matchesFrom (wordStart scan) 0 previous text =
      matchesFrom (wordStart scan) 0 previous' text := by
  cases text with
  | nil => simp
  | cons c text => simp only [matchesFrom, piecesFrom, wordStart, h]

end TemplateShape.Scan
