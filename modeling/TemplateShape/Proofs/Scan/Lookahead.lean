import TemplateShape.Path
import TemplateShape.Proofs.Scan.Takes

/-! # How far scanners look ahead

What a scanner takes it takes again in front of another rest. A run of characters ends where the
next character does not belong to it, so the two rests have to begin alike; a scanner that ends
with a literal does not look at the rest at all. -/

namespace TemplateShape.Scan

variable {α β : Type}

/-- A scanner that takes a piece of a text takes the same piece in front of any other rest that is
like the first one. -/
def Local (alike : List Char → List Char → Prop) (scan : Scan α) : Prop :=
  ∀ text a rest, scan text = some (a, rest) → ∃ taken, text = taken ++ rest ∧
    ∀ other, alike rest other → scan (taken ++ other) = some (a, other)

/-- One character of lookahead. -/
def Peeks (scan : Scan α) : Prop :=
  Local (fun rest other => rest.head? = other.head?) scan

/-- No lookahead, and at least one character is taken. -/
structure Closed (scan : Scan α) : Prop where
  exact : Local (fun _ _ => True) scan
  moves : ∀ text a, scan text ≠ some (a, text)

/-! ## Composition -/

namespace Local

variable {alike like : List Char → List Char → Prop}

theorem suffix {scan : Scan α} (h : Local alike scan) {text rest : List Char} {a : α}
    (hscan : scan text = some (a, rest)) : rest <:+ text := by
  obtain ⟨taken, htext, -⟩ := h text a rest hscan
  exact ⟨taken, htext.symm⟩

/-- The lookahead of the first part may not go beyond what the second one takes and looks at. -/
theorem bind {scan : Scan α} {next : α → Scan β} (h : Local alike scan)
    (hnext : ∀ a, Local like (next a))
    (hlike : ∀ a taken rest other b, next a (taken ++ rest) = some (b, rest) → like rest other →
      alike (taken ++ rest) (taken ++ other)) : Local like (scan >>= next) := by
  intro text b rest hscan
  obtain ⟨a, middle, hfirst, hsecond⟩ := bind_eq_some_iff.mp hscan
  obtain ⟨front, htext, hfront⟩ := h text a middle hfirst
  obtain ⟨back, hmiddle, hback⟩ := hnext a middle b rest hsecond
  refine ⟨front ++ back, by simp [htext, hmiddle], ?_⟩
  intro other hother
  have halike : alike middle (back ++ other) := by
    rw [hmiddle] at hsecond ⊢
    exact hlike a back rest other b hsecond hother
  rw [List.append_assoc]
  exact bind_eq_some_iff.mpr ⟨a, back ++ other, hfront _ halike, hback other hother⟩

theorem exists_of_bind_self {scan : Scan α} {next : α → Scan β} (h : Local alike scan)
    (hnext : ∀ a, Local like (next a)) {text : List Char} {b : β}
    (hscan : (scan >>= next) text = some (b, text)) :
    ∃ a, scan text = some (a, text) ∧ next a text = some (b, text) := by
  obtain ⟨a, middle, hfirst, hsecond⟩ := bind_eq_some_iff.mp hscan
  have hmiddle : middle <:+ text := h.suffix hfirst
  have htext : text <:+ middle := (hnext a).suffix hsecond
  have heq : middle = text := hmiddle.eq_of_length_le htext.length_le
  rw [heq] at hfirst hsecond
  exact ⟨a, hfirst, hsecond⟩

theorem pure (a : α) : Local alike (Pure.pure a : Scan α) := by
  intro text b rest hscan
  have hpair : (a, text) = (b, rest) := Option.some.inj hscan
  obtain ⟨rfl, rfl⟩ := Prod.mk.inj hpair
  exact ⟨[], rfl, fun other _ => rfl⟩

theorem literal (expected : List Char) : Local alike (Scan.literal expected) := by
  intro text u rest hscan
  refine ⟨expected, literal_eq_some_iff.mp hscan, ?_⟩
  intro other _
  exact literal_eq_some_iff.mpr rfl

end Local

theorem head?_append_congr {rest other : List Char} (h : rest.head? = other.head?)
    (taken : List Char) : (taken ++ rest).head? = (taken ++ other).head? := by
  cases taken with
  | nil => exact h
  | cons c taken => rfl

namespace Peeks

theorem bind {scan : Scan α} {next : α → Scan β} (h : Peeks scan) (hnext : ∀ a, Peeks (next a)) :
    Peeks (scan >>= next) := by
  apply Local.bind h hnext
  intro a taken rest other b _ hother
  exact head?_append_congr hother taken

theorem closes {scan : Scan α} {next : α → Scan β} (h : Peeks scan)
    (hnext : ∀ a, Closed (next a)) : Closed (scan >>= next) where
  exact := by
    apply Local.bind h fun a => (hnext a).exact
    intro a taken rest other b hscan _
    cases taken with
    | nil => exact absurd hscan ((hnext a).moves rest b)
    | cons c taken => rfl
  moves := by
    intro text b hscan
    obtain ⟨a, -, hself⟩ := Local.exists_of_bind_self h (fun a => (hnext a).exact) hscan
    exact (hnext a).moves text b hself

end Peeks

namespace Closed

theorem peeks {scan : Scan α} (h : Closed scan) : Peeks scan := by
  intro text a rest hscan
  obtain ⟨taken, htext, htaken⟩ := h.exact text a rest hscan
  exact ⟨taken, htext, fun other _ => htaken other trivial⟩

theorem literal {expected : List Char} (h : expected ≠ []) : Closed (Scan.literal expected) where
  exact := .literal expected
  moves := by
    intro text u hscan
    have htext := congrArg List.length (literal_eq_some_iff.mp hscan)
    have hlength : 0 < expected.length := List.length_pos_iff.mpr h
    simp only [List.length_append] at htext
    omega

theorem bind {scan : Scan α} {next : α → Scan β} (h : Closed scan)
    (hnext : ∀ a, Local (fun _ _ => True) (next a)) : Closed (scan >>= next) where
  exact := by
    apply Local.bind h.exact hnext
    intros
    trivial
  moves := by
    intro text b hscan
    obtain ⟨a, hself, -⟩ := h.exact.exists_of_bind_self hnext hscan
    exact h.moves text a hself

/-- What a scanner without lookahead takes from the front of a text, it takes in a longer one. -/
theorem append {scan : Scan α} (h : Closed scan) {text rest : List Char} {a : α}
    (hscan : scan text = some (a, rest)) (more : List Char) :
    scan (text ++ more) = some (a, rest ++ more) := by
  obtain ⟨taken, rfl, htaken⟩ := h.exact text a rest hscan
  rw [List.append_assoc]
  exact htaken (rest ++ more) trivial

/-- A match that ends within a text does not need what comes behind it. -/
theorem of_append {scan : Scan α} (h : Closed scan) {text rest more : List Char} {a : α}
    (hscan : scan (text ++ more) = some (a, rest ++ more)) : scan text = some (a, rest) := by
  obtain ⟨taken, htext, htaken⟩ := h.exact _ a _ hscan
  have hsame : text = taken ++ rest := by
    rw [← List.append_assoc] at htext
    exact List.append_cancel_right htext
  rw [hsame]
  exact htaken rest trivial

end Closed

/-! ## Runs of characters -/

theorem takeWhile_append_of_head? {p : Char → Bool} {text other : List Char}
    (h : (text.dropWhile p).head? = other.head?) :
    (text.takeWhile p ++ other).takeWhile p = text.takeWhile p ∧
      (text.takeWhile p ++ other).dropWhile p = other := by
  have hall : ∀ c ∈ text.takeWhile p, p c = true :=
    List.all_eq_true.mp List.all_takeWhile
  have hstop : ∀ c, other.head? = some c → p c = false := by
    intro c hc
    have hhead : (text.dropWhile p).head? = some c := h.trans hc
    simpa [hhead] using List.head?_dropWhile_not p text
  rw [List.takeWhile_append_of_pos hall, List.dropWhile_append_of_pos hall]
  cases other with
  | nil => simp
  | cons c other => simp [hstop c rfl]

theorem peeks_run (p : Char → Bool) : Peeks (run p) := by
  intro text a rest hscan
  have hpair : (text.takeWhile p, text.dropWhile p) = (a, rest) := Option.some.inj hscan
  obtain ⟨rfl, rfl⟩ := Prod.mk.inj hpair
  refine ⟨text.takeWhile p, List.takeWhile_append_dropWhile.symm, ?_⟩
  intro other hother
  obtain ⟨htake, hdrop⟩ := takeWhile_append_of_head? hother
  simp [run, htake, hdrop]

theorem peeks_run1 (p : Char → Bool) : Peeks (run1 p) := by
  intro text a rest hscan
  unfold run1 at hscan
  split at hscan
  · simp at hscan
  · rename_i hne
    have hpair : (text.takeWhile p, text.dropWhile p) = (a, rest) := Option.some.inj hscan
    obtain ⟨rfl, rfl⟩ := Prod.mk.inj hpair
    refine ⟨text.takeWhile p, List.takeWhile_append_dropWhile.symm, ?_⟩
    intro other hother
    obtain ⟨htake, hdrop⟩ := takeWhile_append_of_head? hother
    rw [run1, htake, hdrop, if_neg hne]

theorem peeks_blanks : Peeks blanks := by
  intro text u rest hscan
  have hpair : ((), text.dropWhile Blank.isBlank) = (u, rest) := Option.some.inj hscan
  obtain ⟨rfl, rfl⟩ := Prod.mk.inj hpair
  refine ⟨text.takeWhile Blank.isBlank, List.takeWhile_append_dropWhile.symm, ?_⟩
  intro other hother
  obtain ⟨-, hdrop⟩ := takeWhile_append_of_head? hother
  simp [blanks, hdrop]

theorem peeks_blanks1 : Peeks blanks1 :=
  (peeks_run1 _).bind fun _ => .pure _

theorem peeks_wordRun : Peeks wordRun :=
  (peeks_run1 _).bind fun _ => .pure _

theorem peeks_name : Peeks name := by
  intro text a rest hscan
  cases text with
  | nil => simp [name] at hscan
  | cons c text =>
      simp only [name] at hscan
      split at hscan
      · rename_i hstart
        obtain ⟨rfl, rfl⟩ := Prod.mk.inj (Option.some.inj hscan)
        refine ⟨c :: text.takeWhile Ascii.isWord, by simp, ?_⟩
        intro other hother
        obtain ⟨htake, hdrop⟩ := takeWhile_append_of_head? hother
        simp [name, hstart, htake, hdrop]
      · simp at hscan

/-! ## Repetition -/

/-- A repeated scanner stops where the next try fails, so that is what the other rest has to do. -/
theorem upTo_append {scan : Scan α} (h : Peeks scan) (hmoves : ∀ text a, scan text ≠ some (a, text))
    {limit : Nat} {text rest : List Char} {as : List α}
    (hscan : upTo scan limit text = some (as, rest)) :
    ∃ taken, text = taken ++ rest ∧ as.length ≤ taken.length ∧
      ∀ other limit', rest.head? = other.head? → scan other = none → as.length ≤ limit' →
        upTo scan limit' (taken ++ other) = some (as, other) := by
  have hstop : ∀ other limit', scan other = none → upTo scan limit' other = some ([], other) := by
    intro other limit' hnone
    cases limit' with
    | zero => rfl
    | succ limit' => simp [upTo, hnone]
  induction limit generalizing text as with
  | zero =>
      have hpair : ([], text) = (as, rest) := Option.some.inj hscan
      obtain ⟨rfl, rfl⟩ := Prod.mk.inj hpair
      exact ⟨[], rfl, Nat.le_refl 0, fun other limit' _ hnone _ => hstop other limit' hnone⟩
  | succ limit ih =>
      simp only [upTo] at hscan
      split at hscan
      · rename_i a middle hfirst
        obtain ⟨⟨as', rest'⟩, hrest, hpair⟩ := Option.map_eq_some_iff.mp hscan
        obtain ⟨rfl, rfl⟩ := Prod.mk.inj hpair
        obtain ⟨front, htext, hfront⟩ := h text a middle hfirst
        obtain ⟨back, hmiddle, hlength, hback⟩ := ih hrest
        have hne : front ≠ [] := by
          rintro rfl
          rw [htext] at hfirst
          exact hmoves middle a hfirst
        have hpos : 0 < front.length := List.length_pos_iff.mpr hne
        refine ⟨front ++ back, by simp [htext, hmiddle], by simp; omega, ?_⟩
        intro other limit' hhead hnone hlimit
        have hagain : scan (front ++ (back ++ other)) = some (a, back ++ other) := by
          apply hfront
          rw [hmiddle]
          exact head?_append_congr hhead back
        cases limit' with
        | zero => simp at hlimit
        | succ limit' =>
            have hmore := hback other limit' hhead hnone (by simpa using hlimit)
            simp [upTo, hagain, hmore]
      · have hpair : ([], text) = (as, rest) := Option.some.inj hscan
        obtain ⟨rfl, rfl⟩ := Prod.mk.inj hpair
        exact ⟨[], rfl, Nat.le_refl 0, fun other limit' _ hnone _ => hstop other limit' hnone⟩

/-! ## Paths -/

theorem peeks_afterPoint {scan : Scan α} (h : Peeks scan) : Peeks (afterPoint scan) :=
  (Closed.literal (by simp)).peeks.bind fun _ => h

theorem afterPoint_ne_some_self {scan : Scan α} (h : Peeks scan) (text : List Char) (a : α) :
    afterPoint scan text ≠ some (a, text) := by
  intro hscan
  obtain ⟨u, middle, hpoint, hmiddle⟩ := bind_eq_some_iff.mp hscan
  have htext := congrArg List.length (literal_eq_some_iff.mp hpoint)
  have hlength := (Local.suffix h hmiddle).length_le
  simp at htext
  omega

theorem afterPoint_eq_none {scan : Scan α} {text : List Char} (h : text.head? ≠ some '.') :
    afterPoint scan text = none := by
  cases hscan : afterPoint scan text with
  | none => rfl
  | some found =>
      obtain ⟨u, middle, hpoint, -⟩ := bind_eq_some_iff.mp hscan
      rw [literal_eq_some_iff.mp hpoint] at h
      simp at h

theorem local_namePath :
    Local (fun rest other => rest.head? = other.head? ∧ other.head? ≠ some '.') namePath := by
  have hmany : Local (fun rest other => rest.head? = other.head? ∧ other.head? ≠ some '.')
      (many (afterPoint name)) := by
    intro text as rest hscan
    obtain ⟨taken, htext, hlength, htaken⟩ := upTo_append (peeks_afterPoint peeks_name)
      (afterPoint_ne_some_self peeks_name) hscan
    refine ⟨taken, htext, ?_⟩
    intro other hother
    exact htaken other _ hother.1 (afterPoint_eq_none hother.2) (by simp; omega)
  apply Local.bind peeks_name
  · intro root
    apply Local.bind hmany fun _ => .pure _
    intro as taken rest other path hpure hother
    obtain ⟨-, hrest⟩ := Prod.mk.inj (Option.some.inj hpure)
    have htaken : taken = [] := by simpa using hrest
    simpa [htaken] using hother
  · intro root taken rest other path _ hother
    exact head?_append_congr hother.1 taken

/-- A scanner that goes on behind a path with something else than a point has no lookahead if what
comes last has none. -/
theorem closed_namePath_bind {next : NamePath → Scan β} (hnext : ∀ path, Closed (next path))
    (hpoint : ∀ path text, next path ('.' :: text) = none) : Closed (namePath >>= next) where
  exact := by
    apply Local.bind local_namePath fun path => (hnext path).exact
    intro path taken rest other b hscan _
    cases taken with
    | nil => exact absurd hscan ((hnext path).moves rest b)
    | cons c taken =>
        refine ⟨rfl, ?_⟩
        intro hhead
        have hc : c = '.' := by simpa using hhead
        rw [hc, List.cons_append, hpoint] at hscan
        simp at hscan
  moves := by
    intro text b hscan
    obtain ⟨path, -, hself⟩ :=
      local_namePath.exists_of_bind_self (fun path => (hnext path).exact) hscan
    exact (hnext path).moves text b hself

end TemplateShape.Scan
