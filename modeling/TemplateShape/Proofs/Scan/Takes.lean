import Mathlib.Data.List.Basic
import TemplateShape.Path

/-! # What scanners take

A scanner splits its text: what it takes stands in front of the rest, and it is made of the
characters that its parts take. -/

namespace TemplateShape.Scan

variable {α β : Type}

theorem bind_eq_some_iff {scan : Scan α} {next : α → Scan β} {text rest : List Char} {b : β} :
    (scan >>= next) text = some (b, rest) ↔
      ∃ a middle, scan text = some (a, middle) ∧ next a middle = some (b, rest) := by
  change (scan text).bind (fun (a, middle) => next a middle) = _ ↔ _
  rw [Option.bind_eq_some_iff]
  exact ⟨fun ⟨⟨a, middle⟩, h⟩ => ⟨a, middle, h⟩, fun ⟨a, middle, h⟩ => ⟨(a, middle), h⟩⟩

theorem literal_eq_some_iff {expected text rest : List Char} {u : Unit} :
    literal expected text = some (u, rest) ↔ text = expected ++ rest := by
  unfold literal
  rw [Option.map_eq_some_iff]
  constructor
  · rintro ⟨tail, htail, h⟩
    obtain ⟨-, rfl⟩ := Prod.mk.inj h
    exact (List.isPrefixOf?_eq_some_iff_append_eq.mp htail).symm
  · rintro rfl
    exact ⟨rest, List.isPrefixOf?_eq_some_iff_append_eq.mpr rfl, rfl⟩

theorem exists_of_blanks1 {text rest : List Char} {u : Unit} (h : blanks1 text = some (u, rest)) :
    ∃ taken, taken ≠ [] ∧ text = taken ++ rest ∧ ∀ c ∈ taken, Blank.isBlank c = true := by
  obtain ⟨blank, middle, hrun, hpure⟩ := bind_eq_some_iff.mp h
  have hrest : middle = rest := congrArg Prod.snd (Option.some.inj hpure)
  unfold run1 at hrun
  split at hrun
  · simp at hrun
  · rename_i hne
    have hmiddle : text.dropWhile Blank.isBlank = middle :=
      congrArg Prod.snd (Option.some.inj hrun)
    refine ⟨text.takeWhile Blank.isBlank, by simpa using hne, ?_, fun c hc =>
      List.all_eq_true.mp List.all_takeWhile c hc⟩
    rw [← hrest, ← hmiddle, List.takeWhile_append_dropWhile]

/-- Everything that a scanner takes is a character of a class. -/
def Takes (p : Char → Prop) (scan : Scan α) : Prop :=
  ∀ text a rest, scan text = some (a, rest) → ∃ taken, text = taken ++ rest ∧ ∀ c ∈ taken, p c

namespace Takes

variable {p : Char → Prop}

theorem bind {scan : Scan α} {next : α → Scan β} (h : Takes p scan)
    (hnext : ∀ a, Takes p (next a)) : Takes p (scan >>= next) := by
  intro text b rest hscan
  obtain ⟨a, middle, hfirst, hsecond⟩ := bind_eq_some_iff.mp hscan
  obtain ⟨front, rfl, hfront⟩ := h text a middle hfirst
  obtain ⟨back, rfl, hback⟩ := hnext a middle b rest hsecond
  refine ⟨front ++ back, by simp, ?_⟩
  intro c hc
  rcases List.mem_append.mp hc with hc | hc
  · exact hfront c hc
  · exact hback c hc

theorem pure (a : α) : Takes p (Pure.pure a : Scan α) := by
  intro text b rest h
  obtain ⟨-, rfl⟩ := Prod.mk.inj (Option.some.inj h)
  exact ⟨[], rfl, by simp⟩

theorem literal {expected : List Char} (h : ∀ c ∈ expected, p c) :
    Takes p (Scan.literal expected) :=
  fun _ _ _ hscan => ⟨expected, literal_eq_some_iff.mp hscan, h⟩

theorem run {q : Char → Bool} (h : ∀ c, q c = true → p c) : Takes p (Scan.run q) := by
  intro text a rest hscan
  obtain ⟨rfl, rfl⟩ := Prod.mk.inj (Option.some.inj hscan)
  exact ⟨_, List.takeWhile_append_dropWhile.symm, fun c hc =>
    h c (List.all_eq_true.mp List.all_takeWhile c hc)⟩

theorem run1 {q : Char → Bool} (h : ∀ c, q c = true → p c) : Takes p (Scan.run1 q) := by
  intro text a rest hscan
  unfold Scan.run1 at hscan
  split at hscan
  · cases hscan
  · exact run h text a rest hscan

theorem blanks (h : ∀ c, Blank.isBlank c = true → p c) : Takes p Scan.blanks := by
  intro text u rest hscan
  obtain ⟨-, rfl⟩ := Prod.mk.inj (Option.some.inj hscan)
  exact ⟨_, List.takeWhile_append_dropWhile.symm, fun c hc =>
    h c (List.all_eq_true.mp List.all_takeWhile c hc)⟩

theorem blanks1 (h : ∀ c, Blank.isBlank c = true → p c) : Takes p Scan.blanks1 :=
  (run1 h).bind fun _ => .pure ()

theorem name (h : ∀ c, Ascii.isWord c = true → p c) : Takes p Scan.name := by
  intro text a rest hscan
  cases text with
  | nil => cases hscan
  | cons c text =>
      rw [Scan.name] at hscan
      split at hscan
      · rename_i hstart
        obtain ⟨-, rfl⟩ := Prod.mk.inj (Option.some.inj hscan)
        refine ⟨c :: text.takeWhile Ascii.isWord, by simp, ?_⟩
        intro d hd
        rcases List.mem_cons.mp hd with rfl | hd
        · exact h d (Ascii.isWord_of_isNameStart hstart)
        · exact h d (List.all_eq_true.mp List.all_takeWhile d hd)
      · cases hscan

theorem wordRun (h : ∀ c, Ascii.isWord c = true → p c) : Takes p Scan.wordRun :=
  (run1 h).bind fun _ => .pure _

theorem upTo {scan : Scan α} (h : Takes p scan) (limit : Nat) : Takes p (Scan.upTo scan limit) := by
  intro text as rest hscan
  induction limit generalizing text as with
  | zero => exact pure ([] : List α) text as rest hscan
  | succ limit ih =>
      simp only [Scan.upTo] at hscan
      split at hscan
      · rename_i a middle hfirst
        obtain ⟨⟨as', rest'⟩, hrest, hpair⟩ := Option.map_eq_some_iff.mp hscan
        obtain ⟨-, rfl⟩ := Prod.mk.inj hpair
        obtain ⟨front, hfront, hfrontAll⟩ := h text a middle hfirst
        obtain ⟨back, hback, hbackAll⟩ := ih middle as' hrest
        refine ⟨front ++ back, by simp [hfront, hback], ?_⟩
        simpa [or_imp, forall_and] using ⟨hfrontAll, hbackAll⟩
      · exact pure ([] : List α) text as rest hscan

theorem namePath (h : ∀ c, Ascii.isWord c = true → p c) (hpoint : p '.') :
    Takes p Scan.namePath := by
  refine (name h).bind fun root => ?_
  have hmany : Takes p (many (afterPoint Scan.name)) := by
    intro text
    exact upTo ((literal (by simpa using hpoint)).bind fun _ => name h) text.length text
  exact hmany.bind fun rest => .pure _

end Takes

/-- What a scanner takes ends with a text, and in front of it stand characters of a class. -/
def Ends (p : Char → Prop) (close : List Char) (scan : Scan α) : Prop :=
  ∀ text a rest, scan text = some (a, rest) →
    ∃ body, text = body ++ close ++ rest ∧ ∀ c ∈ body, p c

namespace Ends

variable {p : Char → Prop} {close : List Char}

theorem literal : Ends p close (Scan.literal close) :=
  fun _ _ _ hscan => ⟨[], literal_eq_some_iff.mp hscan, by simp⟩

theorem after {scan : Scan α} {next : α → Scan β} (h : Takes p scan)
    (hnext : ∀ a, Ends p close (next a)) : Ends p close (scan >>= next) := by
  intro text b rest hscan
  obtain ⟨a, middle, hfirst, hsecond⟩ := bind_eq_some_iff.mp hscan
  obtain ⟨front, hfront, hfrontAll⟩ := h text a middle hfirst
  obtain ⟨back, hback, hbackAll⟩ := hnext a middle b rest hsecond
  refine ⟨front ++ back, by simp [hfront, hback], ?_⟩
  simpa [or_imp, forall_and] using ⟨hfrontAll, hbackAll⟩

theorem bind {scan : Scan α} {next : α → Scan β} (h : Ends p close scan)
    (hnext : ∀ a text b rest, next a text = some (b, rest) → rest = text) :
    Ends p close (scan >>= next) := by
  intro text b rest hscan
  obtain ⟨a, middle, hfirst, hsecond⟩ := bind_eq_some_iff.mp hscan
  rw [hnext a middle b rest hsecond]
  exact h text a middle hfirst

theorem bind_pure {scan : Scan α} {f : α → β} (h : Ends p close scan) :
    Ends p close (scan >>= fun a => Pure.pure (f a)) := by
  apply h.bind
  intro a text b rest hpure
  exact (congrArg Prod.snd (Option.some.inj hpure)).symm

end Ends

end TemplateShape.Scan
