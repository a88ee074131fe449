import TemplateShape.Form.Kind
import TemplateShape.Json.Writer
import TemplateShape.Proofs.Decimal.Whole
import TemplateShape.Proofs.Scan.Written
import TemplateShape.Proofs.Text.Trim

/-! # Integers in number fields

The text of an integer stands for that integer as long as a word with a sign can hold it. A number
field takes every longer integer for a float, also one that a word without sign could hold. -/

namespace TemplateShape.Form

open Decimal

/-! ## Texts of integers -/

theorem isBlank_eq_false_of_isDigit {c : Char} (h : c.isDigit = true) : Blank.isBlank c = false :=
  Scan.isBlank_of_isWord (Scan.isWord_of_isDigit h)

theorem intChars_cases (n : Int) :
    (∃ k : Nat, n = k ∧ Json.intChars n = digitsOf k) ∨
      ∃ k : Nat, n = -(k : Int) ∧ Json.intChars n = '-' :: digitsOf k := by
  cases n with
  | ofNat k => exact .inl ⟨k, rfl, rfl⟩
  | negSucc k => exact .inr ⟨k + 1, rfl, rfl⟩

theorem isBlank_of_mem_intChars {n : Int} {c : Char} (h : c ∈ Json.intChars n) :
    Blank.isBlank c = false := by
  rcases intChars_cases n with ⟨k, -, hchars⟩ | ⟨k, -, hchars⟩
  · rw [hchars] at h
    exact isBlank_eq_false_of_isDigit (isDigit_of_mem_digitsOf h)
  · rw [hchars] at h
    rcases List.mem_cons.mp h with rfl | hdigit
    · decide
    · exact isBlank_eq_false_of_isDigit (isDigit_of_mem_digitsOf hdigit)

/-! ## Reading -/

theorem integer?_of_digits (negative : Bool) {text : List Char} {k : Nat}
    (h : splitSign text = (negative, digitsOf k)) {n : Int}
    (hn : n = if negative then -(k : Int) else k) :
    integer? text = if Word.fitsSigned n then some n else none := by
  have hne : (digitsOf k).isEmpty = false := by
    simpa using digitsOf_ne_nil k
  have hall : (digitsOf k).all Char.isDigit = true :=
    List.all_eq_true.mpr fun c hc => isDigit_of_mem_digitsOf hc
  rw [integer?, h]
  dsimp only
  rw [hne, hall, if_neg (by decide), ofDigits_digitsOf, ← hn]

theorem integer?_intChars (n : Int) :
    integer? (Json.intChars n) = if Word.fitsSigned n then some n else none := by
  rcases intChars_cases n with ⟨k, hn, hchars⟩ | ⟨k, hn, hchars⟩
  · rw [hchars]
    exact integer?_of_digits false (splitSign_digitsOf k) hn
  · rw [hchars]
    exact integer?_of_digits true rfl hn

theorem decimal?_digitsOf (n : Nat) : decimal? (digitsOf n) = some ⟨n, 0⟩ := by
  have hne : (digitsOf n).isEmpty = false := by
    simpa using digitsOf_ne_nil n
  have htake : (digitsOf n).takeWhile Char.isDigit = digitsOf n :=
    List.takeWhile_eq_self_iff.mpr fun c hc => isDigit_of_mem_digitsOf hc
  have hdrop : (digitsOf n).dropWhile Char.isDigit = [] :=
    List.dropWhile_eq_nil_iff.mpr fun c hc => isDigit_of_mem_digitsOf hc
  simp [decimal?, htake, hdrop, splitFraction, exponent?, hne, ofDigits_digitsOf]

theorem float?_digitsOf {n : Nat} (h : Word.signedBound ≤ n) (h' : n < Word.unsignedBound) :
    float? (digitsOf n) = some (toFloat ⟨n, 0⟩) := by
  simp [float?, splitSign_digitsOf, decimal?_digitsOf, isFinite_toFloat h h']

theorem intChars_ne_nil (n : Int) : Json.intChars n ≠ [] := by
  rcases intChars_cases n with ⟨k, -, hchars⟩ | ⟨k, -, hchars⟩
  · rw [hchars]
    exact digitsOf_ne_nil k
  · rw [hchars]
    exact List.cons_ne_nil _ _

/-- The text of an integer is read as that integer, or as a float if no word with a sign holds it. -/
theorem read_int (n : Int) : Kind.number.read (Json.num (.int n)).render =
    if Word.fitsSigned n then .ok (.num (.int n))
    else match float? (Json.intChars n) with
      | some x => .ok (.num (.float x))
      | none => .error (.notNumber (Json.num (.int n)).render) := by
  have htext : (Json.num (.int n)).render.toList = Json.intChars n := String.toList_ofList
  have htrim : Blank.trim (Json.intChars n) = Json.intChars n :=
    Blank.trim_eq_self fun c hc => isBlank_of_mem_intChars hc
  have hne : ¬ (Json.intChars n).isEmpty = true := by
    simpa using intChars_ne_nil n
  rw [Kind.read, readNumber, htext, htrim, if_neg hne, integer?_intChars]
  cases Word.fitsSigned n with
  | true => rfl
  | false => cases float? (Json.intChars n) <;> rfl

theorem read_int_ne {n : Int} (h : Word.fitsSigned n = false) (m : Int) :
    Kind.number.read (Json.num (.int n)).render ≠ .ok (.num (.int m)) := by
  rw [read_int, h]
  cases float? (Json.intChars n) with
  | none => simp
  | some x => simp

/-- An integer that is typed into a number field stays an integer exactly if a word with a sign can
hold it. Those between there and the end of the words without sign become the nearest float. -/
theorem integer_stays_iff (n : Int) :
    (Kind.number.read (Json.num (.int n)).render = .ok (.num (.int n)) ↔
      Word.fitsSigned n = true) ∧
    (Word.signedBound ≤ n → n < Word.unsignedBound →
      Kind.number.read (Json.num (.int n)).render = .ok (.num (.float (toFloat ⟨n.toNat, 0⟩)))) := by
  refine ⟨⟨fun hread => ?_, fun hfits => ?_⟩, fun hleast hbound => ?_⟩
  · by_contra hnot
    exact read_int_ne (Bool.not_eq_true _ ▸ hnot) n hread
  · rw [read_int, if_pos hfits]
  · obtain ⟨k, rfl⟩ := Int.eq_ofNat_of_zero_le (Int.le_trans (Int.natCast_nonneg _) hleast)
    have hfits : Word.fitsSigned k = false := by
      simpa [Word.fitsSigned] using hleast
    have hfloat : float? (Json.intChars k) = some (toFloat ⟨k, 0⟩) :=
      float?_digitsOf (Int.ofNat_le.mp hleast) (Int.ofNat_lt.mp hbound)
    rw [read_int, hfits, hfloat]
    rfl

/-- The first integer that becomes a float, `2 ^ 63`. -/
theorem integer_stays_iff_first : (Word.signedBound : Int) ≤ 0x8000000000000000 ∧
    (0x8000000000000000 : Int) < Word.unsignedBound ∧
      Kind.number.read (Json.num (.int 0x8000000000000000)).render =
        .ok (.num (.float (toFloat ⟨0x8000000000000000, 0⟩))) :=
  ⟨by decide, by decide, (integer_stays_iff 0x8000000000000000).2 (by decide) (by decide)⟩

/-- Not every integer that a JSON value may have can be typed in. -/
theorem not_every_integer_stays :
    ¬ ∀ n : Int, -(Word.signedBound : Int) ≤ n → n < Word.unsignedBound →
      Kind.number.read (Json.num (.int n)).render = .ok (.num (.int n)) := by
  intro h
  exact read_int_ne (by decide) 0x8000000000000000
    (h 0x8000000000000000 (by decide) (by decide))

end TemplateShape.Form
