import TemplateShape.Proofs.Scan.Lookahead
import TemplateShape.Proofs.Scan.Sites

/-! # Matches in a text that goes on

A text may end inside of a match. When it goes on, that match is found as well, and it could swallow
others that were found before. A scanner that has succeeded by then wherever it will succeed keeps
all of them. -/

namespace TemplateShape.Scan

variable {α : Type}

/-! ## Matches behind a match -/

/-- The values of the matches in a text of which the first `taken` characters belong to the last
match. -/
def matchesFrom (scan : Placed α) (taken : Nat) (previous : Option Char) (text : List Char) :
    List α :=
  (piecesFrom scan taken previous text).filterMap Sum.getRight?

theorem findAll_eq_matchesFrom (scan : Placed α) (text : List Char) :
    findAll scan text = matchesFrom scan 0 none text := rfl

@[simp] theorem matchesFrom_nil (scan : Placed α) (taken : Nat) (previous : Option Char) :
    matchesFrom scan taken previous [] = [] := by
  cases taken <;> rfl

@[simp] theorem matchesFrom_succ (scan : Placed α) (taken : Nat) (previous : Option Char) (c : Char)
    (text : List Char) :
    matchesFrom scan (taken + 1) previous (c :: text) = matchesFrom scan taken (some c) text := rfl

theorem matchesFrom_of_some {scan : Placed α} {previous : Option Char} {c : Char}
    {text rest : List Char} {a : α} (h : scan previous (c :: text) = some (a, rest)) :
    matchesFrom scan 0 previous (c :: text) =
      a :: matchesFrom scan (text.length - rest.length) (some c) text := by
  simp [matchesFrom, piecesFrom, h]

theorem matchesFrom_of_none {scan : Placed α} {previous : Option Char} {c : Char}
    {text : List Char} (h : scan previous (c :: text) = none) :
    matchesFrom scan 0 previous (c :: text) = matchesFrom scan 0 (some c) text := by
  simp only [matchesFrom, piecesFrom, h]
  rfl

theorem matchesFrom_eq_nil {scan : Scan α} {text : List Char}
    (h : ∀ suffix, suffix <:+ text → scan suffix = none) (taken : Nat) (previous : Option Char) :
    matchesFrom (fun _ => scan) taken previous text = [] := by
  apply List.filterMap_eq_nil_iff.mpr
  intro piece hpiece
  cases piece with
  | inl c => rfl
  | inr a =>
      obtain ⟨-, suffix, rest, hsuffix, hscan⟩ := exists_suffix_of_mem_piecesFrom hpiece
      rw [h suffix hsuffix] at hscan
      simp at hscan

theorem matchesFrom_of_length_le {scan : Placed α} {taken : Nat} {previous : Option Char}
    {text : List Char} (h : text.length ≤ taken) : matchesFrom scan taken previous text = [] := by
  induction text generalizing taken previous with
  | nil => simp
  | cons c text ih =>
      cases taken with
      | zero => simp at h
      | succ taken =>
          rw [matchesFrom_succ]
          exact ih (by simpa using h)

theorem findAll_of_whole {scan : Scan α} (hclosed : Closed scan) {text : List Char} {a : α}
    (hscan : scan text = some (a, [])) : findAll (fun _ => scan) text = [a] := by
  cases text with
  | nil => exact absurd hscan (hclosed.moves [] a)
  | cons c text =>
      have hnone : matchesFrom (fun _ => scan) (text.length - 0) (some c) text = [] :=
        matchesFrom_of_length_le (Nat.le_refl _)
      rw [findAll_eq_matchesFrom, matchesFrom_of_some hscan, List.length_nil, hnone]

/-- If no match begins inside another, the matches in a text are found in all surroundings. -/
theorem Apart.mem_findAll_surrounded {scan : Scan α} (h : Apart scan) (hclosed : Closed scan)
    {text : List Char} {a : α} (ha : a ∈ findAll (fun _ => scan) text) (front back : List Char) :
    a ∈ findAll (fun _ => scan) (front ++ text ++ back) := by
  obtain ⟨-, suffix, rest, hsuffix, hscan⟩ := exists_suffix_of_mem_findAll ha
  have hlonger : suffix ++ back <:+ front ++ text ++ back :=
    List.suffix_append_self_iff.mpr (hsuffix.trans (List.suffix_append front text))
  exact h.mem_findAll hlonger (hclosed.append hscan back)

/-! ## Prompt scanners -/

/-- A scanner that succeeds somewhere in a text, and at the front of the text once the text goes on,
succeeds at the front of the text as it is. -/
def Prompt (scan : Scan α) : Prop :=
  ∀ text more suffix a rest b rest', suffix <:+ text → scan suffix = some (a, rest) →
    scan (text ++ more) = some (b, rest') → (scan text).isSome

/-- The matches in a text are the first matches in every text that goes on from it. -/
theorem findAll_prefix_append {scan : Scan α} (hclosed : Closed scan) (hprompt : Prompt scan)
    (text more : List Char) :
    findAll (fun _ => scan) text <+: findAll (fun _ => scan) (text ++ more) := by
  have hfrom : ∀ (taken : Nat) (previous : Option Char),
      matchesFrom (fun _ => scan) taken previous text <+:
        matchesFrom (fun _ => scan) taken previous (text ++ more) := by
    induction text with
    | nil => simp
    | cons c text ih =>
        intro taken previous
        cases taken with
        | succ taken => exact ih taken (some c)
        | zero =>
            cases hscan : scan (c :: text) with
            | some found =>
                obtain ⟨a, rest⟩ := found
                have hmore : scan (c :: (text ++ more)) = some (a, rest ++ more) :=
                  hclosed.append hscan more
                have htaken : (text ++ more).length - (rest ++ more).length =
                    text.length - rest.length := by
                  simp only [List.length_append]
                  omega
                rw [List.cons_append, matchesFrom_of_some hscan, matchesFrom_of_some hmore, htaken]
                exact (List.prefix_cons_inj a).mpr (ih _ _)
            | none =>
                cases hmore : scan (c :: (text ++ more)) with
                | none =>
                    rw [List.cons_append, matchesFrom_of_none hscan, matchesFrom_of_none hmore]
                    exact ih 0 (some c)
                | some found =>
                    -- the new match begins before all that the text has, so the text has none
                    have hnone : ∀ suffix, suffix <:+ c :: text → scan suffix = none := by
                      intro suffix hsuffix
                      cases hother : scan suffix with
                      | none => rfl
                      | some other =>
                          have hsome := hprompt (c :: text) more suffix other.1 other.2 found.1
                            found.2 hsuffix hother hmore
                          simp [hscan] at hsome
                    rw [matchesFrom_eq_nil hnone]
                    exact List.nil_prefix
  exact hfrom 0 none

/-- If no match begins inside another, one at the front of a text that goes on ends before every
match in the text. -/
theorem Apart.prompt {scan : Scan α} (h : Apart scan) (hclosed : Closed scan) : Prompt scan := by
  intro text more suffix a rest b rest' hsuffix hscan hmore
  by_cases heq : suffix = text
  · simp [← heq, hscan]
  · have hlong : suffix ++ more <:+ text ++ more := List.suffix_append_self_iff.mpr hsuffix
    have hne : suffix ++ more ≠ text ++ more := fun e => heq (List.append_cancel_right e)
    obtain ⟨front, hfront⟩ := h.apart hmore hlong hne (hclosed.append hscan more)
    have hwithin : scan (text ++ more) = some (b, (front ++ suffix) ++ more) := by
      rw [hmore, ← hfront, List.append_assoc]
    simp [hclosed.of_append hwithin]

/-- A match ends at the first place where a character stands twice, so a text in which there is a
match has that place. -/
theorem prompt_of_doubled {scan : Scan α} (hclosed : Closed scan) {mark : Char}
    (h : Ends (· ≠ mark) [mark, mark] scan) : Prompt scan := by
  intro text more suffix a rest b rest' hsuffix hscan hmore
  obtain ⟨body, htext, hbodyAll⟩ := h _ b rest' hmore
  have hbody : mark ∉ body := fun hmem => hbodyAll mark hmem rfl
  obtain ⟨body', rfl, -⟩ := h suffix a rest hscan
  obtain ⟨front, rfl⟩ := hsuffix
  -- two marks stand in the text, and before the last character of the new match there is one
  have hlength : (body ++ [mark, mark]).length ≤
      (front ++ (body' ++ [mark, mark] ++ rest)).length := by
    by_contra hlt
    have hlong : front ++ (body' ++ [mark, mark] ++ rest) <+: body ++ [mark, mark] ++ rest' :=
      ⟨more, htext⟩
    have hshort : body ++ [mark] <+: body ++ [mark, mark] ++ rest' := ⟨mark :: rest', by simp⟩
    have hprefix : front ++ (body' ++ [mark, mark] ++ rest) <+: body ++ [mark] := by
      apply List.prefix_of_prefix_length_le hlong hshort
      simp only [List.length_append, List.length_cons, List.length_nil] at hlt ⊢
      omega
    have hcount := hprefix.sublist.count_le mark
    simp only [List.count_append, List.count_cons_self, List.count_nil,
      List.count_eq_zero.mpr hbody] at hcount
    omega
  obtain ⟨between, hbetween⟩ := List.prefix_of_prefix_length_le
    (List.prefix_append (body ++ [mark, mark]) rest') ⟨more, htext⟩ hlength
  have hrest : rest' = between ++ more := by
    rw [← hbetween, List.append_assoc] at htext
    exact (List.append_cancel_left htext).symm
  rw [hrest] at hmore
  rw [hclosed.of_append hmore]
  rfl

/-! ## Up to a place -/

theorem isSome_before_iff {stop : Scan Unit} {text : List Char} :
    (before stop text).isSome ↔ ∃ suffix, suffix <:+ text ∧ (stop suffix).isSome := by
  induction text with
  | nil => simp [before]
  | cons c text ih =>
      cases hstop : stop (c :: text) with
      | some found =>
          simp only [before, hstop, Option.isSome_some, true_iff]
          exact ⟨c :: text, List.suffix_rfl, by simp [hstop]⟩
      | none =>
          simp only [before, hstop, Option.isSome_map, ih]
          constructor
          · rintro ⟨suffix, hsuffix, hsome⟩
            exact ⟨suffix, hsuffix.trans (List.suffix_cons c text), hsome⟩
          · rintro ⟨suffix, hsuffix, hsome⟩
            rcases List.suffix_cons_iff.mp hsuffix with rfl | htext
            · simp [hstop] at hsome
            · exact ⟨suffix, htext, hsome⟩

/-- In front of a place where the scanner succeeds it fails no less if the text goes on differently
behind that place: a match would end before the place, and so it would have been there. -/
theorem Apart.none_before {stop : Scan Unit} (hapart : Apart stop) (hclosed : Closed stop)
    {front close rest : List Char} (hne : front ≠ [])
    (hclose : ∀ other, stop (close ++ other) = some ((), other))
    (h : stop (front ++ close ++ rest) = none) (other : List Char) :
    stop (front ++ close ++ other) = none := by
  cases hearly : stop (front ++ close ++ other) with
  | none => rfl
  | some found =>
      obtain ⟨u, behind⟩ := found
      have hsuffix : close ++ other <:+ front ++ close ++ other := ⟨front, by simp⟩
      have hproper : close ++ other ≠ front ++ close ++ other := by
        intro heq
        have hlength := congrArg List.length heq
        have hpos : 0 < front.length := List.length_pos_iff.mpr hne
        simp only [List.length_append] at hlength
        omega
      obtain ⟨between, hbetween⟩ := hapart.apart hearly hsuffix hproper (hclose other)
      rw [← hbetween, ← List.append_assoc] at hearly
      have hthere := hclosed.append (hclosed.of_append hearly) rest
      rw [h] at hthere
      simp at hthere

/-- What stands before the first place, and the place itself, are taken from every text that begins
with them. -/
theorem exists_taken_of_before {stop : Scan Unit} (hclosed : Closed stop) (hapart : Apart stop)
    {text body rest : List Char} (h : before stop text = some (body, rest)) :
    ∃ close, close ≠ [] ∧ text = body ++ close ++ rest ∧
      (∀ other, stop (close ++ other) = some ((), other)) ∧
      ∀ other, before stop (body ++ close ++ other) = some (body, other) := by
  induction text generalizing body with
  | nil =>
      obtain ⟨⟨u, rest'⟩, hstop, -⟩ := Option.map_eq_some_iff.mp h
      have hnil : rest' = [] := List.suffix_nil.mp (hclosed.exact.suffix hstop)
      rw [hnil] at hstop
      exact absurd hstop (hclosed.moves [] u)
  | cons c text ih =>
      cases hstop : stop (c :: text) with
      | some found =>
          simp only [before, hstop, Option.some.injEq, Prod.mk.injEq] at h
          obtain ⟨rfl, rfl⟩ := h
          obtain ⟨close, htext, hclose⟩ := hclosed.exact _ _ _ hstop
          have hne : close ≠ [] := by
            rintro rfl
            rw [htext] at hstop
            exact hclosed.moves _ _ hstop
          refine ⟨close, hne, by simpa using htext, fun other => hclose other trivial, ?_⟩
          intro other
          obtain ⟨d, tail, rfl⟩ := List.exists_cons_of_ne_nil hne
          have hagain : stop (d :: (tail ++ other)) = some ((), other) := hclose other trivial
          simp [before, hagain]
      | none =>
          simp only [before, hstop] at h
          obtain ⟨⟨front, behind⟩, hbefore, hpair⟩ := Option.map_eq_some_iff.mp h
          obtain ⟨rfl, rfl⟩ := Prod.mk.inj hpair
          obtain ⟨close, hne, htext, hclose, hall⟩ := ih hbefore
          refine ⟨close, hne, by simp [htext], hclose, ?_⟩
          intro other
          have hthere : stop ((c :: front) ++ close ++ behind) = none := by
            rw [← hstop, htext]
            rfl
          have hnone := hapart.none_before hclosed (by simp) hclose hthere other
          simp only [List.cons_append] at hnone ⊢
          rw [before, hnone, hall other]
          rfl

theorem closed_before {stop : Scan Unit} (hclosed : Closed stop) (hapart : Apart stop) :
    Closed (before stop) where
  exact := by
    intro text body rest h
    obtain ⟨close, -, htext, -, hall⟩ := exists_taken_of_before hclosed hapart h
    exact ⟨body ++ close, htext, fun other _ => hall other⟩
  moves := by
    intro text body h
    obtain ⟨close, hne, htext, -, -⟩ := exists_taken_of_before hclosed hapart h
    have hlength := congrArg List.length htext
    have hpos : 0 < close.length := List.length_pos_iff.mpr hne
    simp only [List.length_append] at hlength
    omega

end TemplateShape.Scan
