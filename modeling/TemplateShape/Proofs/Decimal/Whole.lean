import Mathlib.Data.List.Induction
import Mathlib.Tactic.NormNum
import TemplateShape.Decimal.Basic
import TemplateShape.Word

/-! # Whole numbers

A whole number has digits and no sign. It is rounded to a float by shifting bits out on the right,
and rounding up adds one at the most, so a number that a word can hold stays far below the greatest
float. -/

namespace TemplateShape.Decimal

open Float.Model Float.Model.UnpackedFloat

/-! ## Digits -/

theorem isDigit_of_mem_digitsOf {n : Nat} {c : Char} (h : c ∈ digitsOf n) : c.isDigit = true :=
  Nat.isDigit_of_mem_toDigits (by decide) (by decide) h

theorem digitsOf_ne_nil (n : Nat) : digitsOf n ≠ [] :=
  Nat.toDigits_ne_nil

theorem splitSign_digitsOf (n : Nat) : splitSign (digitsOf n) = (false, digitsOf n) := by
  obtain ⟨c, cs, hdigits⟩ := List.exists_cons_of_ne_nil (digitsOf_ne_nil n)
  have hdigit : c.isDigit = true := isDigit_of_mem_digitsOf (hdigits ▸ List.mem_cons_self)
  rw [hdigits]
  unfold splitSign
  split
  · rename_i heq
    rw [(List.cons.inj heq).1] at hdigit
    exact absurd hdigit (by decide)
  · rename_i heq
    rw [(List.cons.inj heq).1] at hdigit
    exact absurd hdigit (by decide)
  · rfl

theorem exists_digitChar_of_isDigit {c : Char} (h : c.isDigit = true) :
    ∃ k < 10, c = Nat.digitChar k := by
  have hrange : 48 ≤ c.toNat ∧ c.toNat ≤ 57 := Char.isDigit_iff_toNat.mp h
  refine ⟨c.toNat - 48, by omega, Char.toNat_inj.mp ?_⟩
  rw [Nat.toNat_digitChar_of_lt_ten (by omega)]
  omega

/-- Digits are those of their number, apart from zeros in front. -/
theorem exists_zeros {digits : List Char} (hne : digits ≠ [])
    (h : ∀ c ∈ digits, c.isDigit = true) :
    ∃ zeros, digits = List.replicate zeros '0' ++ digitsOf (ofDigits digits) := by
  induction digits using List.reverseRecOn with
  | nil => exact absurd rfl hne
  | append_singleton front c ih =>
      obtain ⟨k, hk, rfl⟩ := exists_digitChar_of_isDigit (h c (by simp))
      have hlast : digitsOf k = [k.digitChar] := Nat.toDigits_of_lt_base hk
      have hvalue : ofDigits (front ++ [k.digitChar]) = 10 * ofDigits front + k := by
        rw [ofDigits, Nat.ofDigitChars_append, Nat.ofDigitChars_cons_digitChar_of_lt_ten hk,
          Nat.ofDigitChars_nil]
        rfl
      by_cases hfront : front = []
      · subst hfront
        exact ⟨0, by rw [hvalue]; simp [ofDigits, hlast]⟩
      · obtain ⟨zeros, hzeros⟩ := ih hfront fun d hd => h d (by simp [hd])
        rw [hvalue]
        by_cases hzero : ofDigits front = 0
        · refine ⟨zeros + 1, ?_⟩
          have hzeroDigits : digitsOf 0 = ['0'] := rfl
          rw [hzero, hzeroDigits, ← List.replicate_succ'] at hzeros
          rw [hzero, Nat.mul_zero, Nat.zero_add, hlast, ← hzeros]
        · refine ⟨zeros, ?_⟩
          have hsplit : digitsOf (10 * ofDigits front + k) = digitsOf (ofDigits front) ++ digitsOf k :=
            (Nat.toDigits_append_toDigits (by decide) (Nat.pos_of_ne_zero hzero) hk).symm
          rw [hsplit, hlast, ← List.append_assoc, ← hzeros]

/-! ## Shifts -/

theorem mantissa_shiftRight_le (em : ExtendedMantissa) (places : Nat) :
    (em >>> places).mantissa ≤ em.mantissa := by
  change (Nat.repeat ExtendedMantissa.shiftRightOne places em).mantissa ≤ em.mantissa
  induction places with
  | zero => exact Nat.le_refl _
  | succ places ih => exact (Nat.div_le_self _ 2).trans ih

theorem mantissa_shifted_le (m : Nat) (e : Int) :
    (shiftToTargetExponent Format.binary64 m e .exact).1.mantissa ≤ m :=
  mantissa_shiftRight_le _ _

theorem exponent_shifted_le {m : Nat} {e bound : Int} (hleast : -1074 ≤ bound) (he : e ≤ bound)
    (hm : m.log2 + 1 + e - 53 ≤ bound) :
    (shiftToTargetExponent Format.binary64 m e .exact).2 ≤ bound := by
  have htarget : Format.binary64.targetExponent (totalExponent m e) ≤ bound := by
    change max (↑m.log2 + 1 + e - 53) (-1074) ≤ bound
    omega
  simp only [shiftToTargetExponent, shiftToExponent]
  omega

theorem roundedMantissa_le (em : ExtendedMantissa) : em.roundedMantissa ≤ em.mantissa + 1 := by
  unfold ExtendedMantissa.roundedMantissa Accuracy.roundToNearestEven
  split <;> omega

/-! ## Rounding -/

theorem of_dite {α : Type} {P : α → Prop} {p : Prop} [Decidable p] {x : p → α} {y : ¬ p → α}
    (hx : ∀ h, P (x h)) (hy : ∀ h, P (y h)) : P (if h : p then x h else y h) := by
  by_cases h : p
  · rw [dif_pos h]
    exact hx h
  · rw [dif_neg h]
    exact hy h

/-- Zero, or a float with an exponent that is not too great for 64 bits. -/
def IsModerate : Float.Model.UnpackedFloat → Prop
  | .zero _ => True
  | .finite _ _ exponent _ => exponent < 972
  | .infinity _ | .notANumber => False

theorem log2_le_of_lt {m k : Nat} (h : m < 2 ^ (k + 1)) : m.log2 ≤ k := by
  rcases Nat.eq_zero_or_pos m with rfl | hpos
  · simp
  · exact Nat.le_of_lt_succ ((Nat.log2_lt hpos.ne').mpr h)

theorem isModerate_round (sign : Sign) {m : Nat} {e : Int} (hm : m < 2 ^ 200) (he : e ≤ 0) :
    IsModerate (roundWithAccuracy Format.binary64 sign m e .exact) := by
  have hlog : m.log2 ≤ 199 := log2_le_of_lt hm
  have hmantissa := mantissa_shifted_le m e
  have hfirst : (shiftToTargetExponent Format.binary64 m e .exact).2 ≤ 147 :=
    exponent_shifted_le (by decide) (by omega) (by omega)
  unfold roundWithAccuracy
  generalize shiftToTargetExponent Format.binary64 m e .exact = first at hmantissa hfirst
  -- Rounding up may make the mantissa longer by one digit, so it is shifted again.
  have hrounded := roundedMantissa_le first.1
  have hlogRounded : first.1.roundedMantissa.log2 ≤ 200 :=
    log2_le_of_lt (by norm_num at hm ⊢; omega)
  have hsecond : (shiftToTargetExponent Format.binary64 first.1.roundedMantissa first.2 .exact).2 ≤
      971 := exponent_shifted_le (by decide) (by omega) (by omega)
  exact of_dite (P := IsModerate) (fun _ => trivial) fun _ => Int.lt_add_one_of_le hsecond

theorem isModerate_mul {m m' : Nat} {e e' : Int} (hm : m * m' < 2 ^ 200) (he : e + e' ≤ 0)
    (hpos : 0 < m) (hpos' : 0 < m') :
    IsModerate (mul Format.binary64 (.finite .positive m e hpos) (.finite .positive m' e' hpos')) :=
  isModerate_round _ hm he

theorem isModerate_ofScientific {n : Nat} (hne : n ≠ 0) (h : n < Word.unsignedBound) :
    IsModerate (UnpackedFloat.ofScientific Format.binary64 n 0) := by
  have hshifted : n <<< Format.binary64.mantissaBits * 10 ^ (0 : Int).toNat < 2 ^ 200 := by
    rw [Word.unsignedBound] at h
    rw [Nat.shiftLeft_eq]
    change n * 2 ^ 53 * 1 < 2 ^ 200
    omega
  unfold UnpackedFloat.ofScientific
  rw [dif_neg hne, if_neg (by decide), if_neg (by simp), if_pos (by decide)]
  exact isModerate_mul hshifted (by decide) _ _

/-! ## Bits -/

/-- Only an exponent of all ones stands for no finite float. -/
theorem isFinite_unpack (sign : Sign) {exponent : BitVec 11} (h : exponent.toNat + 1 < 2 ^ 11)
    (mantissa : BitVec 52) :
    (unpack Format.binary64 (packComponents Format.binary64 sign exponent mantissa)).isFinite := by
  have hne : unpackExponent (packComponents Format.binary64 sign exponent mantissa) ≠ -1#11 := by
    rw [unpackExponent_packComponents]
    rintro rfl
    exact absurd h (by decide)
  unfold UnpackedFloat.unpack
  dsimp only
  rw [if_neg hne]
  by_cases hzero :
      unpackExponent (packComponents Format.binary64 sign exponent mantissa) = 0#11
  · rw [if_pos hzero]
    exact of_dite (P := fun x => UnpackedFloat.isFinite x = true) (fun _ => rfl) fun _ => rfl
  · rw [if_neg hzero]
    rfl

theorem isFinite_pack {x : Float.Model.UnpackedFloat} (h : IsModerate x) :
    (Float.Model.pack x).isFinite := by
  cases x with
  | infinity => exact h.elim
  | notANumber => exact h.elim
  | zero sign => cases sign <;> rfl
  | finite sign m e hpos =>
      have hbias : Format.binary64.exponentBias = 1023 := rfl
      have hlt : e < 972 := h
      have hcode : (e + Format.binary64.exponentBias + (52 : Nat)).toNat + 1 < 2 ^ 11 := by omega
      change (unpack Format.binary64 (pack Format.binary64 (.finite sign m e hpos))).isFinite
      unfold UnpackedFloat.pack
      dsimp only
      rw [if_neg (by omega)]
      split
      · apply isFinite_unpack
        rwa [BitVec.toNat_ofNat, Nat.mod_eq_of_lt (by omega)]
      · exact isFinite_unpack sign (by decide) _

/-! ## Whole numbers -/

theorem isFinite_ofScientific {n : Nat} (h : Word.signedBound ≤ n) (h' : n < Word.unsignedBound) :
    (Float.ofScientific n false 0).isFinite = true := by
  rw [Word.signedBound] at h
  have hlong : ¬ (n < 2 ^ 53 ∧ 0 ≤ 22) := by omega
  rw [Float.ofScientific, dif_neg hlong]
  exact isFinite_pack (isModerate_ofScientific (by omega) h')

/-- The nearest float to a whole number is finite if a word without sign can hold the number, but no
word with one. -/
theorem isFinite_toFloat {n : Nat} (h : Word.signedBound ≤ n) (h' : n < Word.unsignedBound) :
    (toFloat ⟨n, 0⟩).isFinite = true := by
  have hlength : (digitsOf n).length ≤ 20 := by
    rw [digitsOf, Nat.length_toDigits_le_iff (by decide) (by decide)]
    rw [Word.unsignedBound] at h'
    omega
  have hpower : -1 ≤ leadingPower ⟨n, 0⟩ ∧ leadingPower ⟨n, 0⟩ ≤ 19 := by
    dsimp only [leadingPower]
    omega
  have hne : n ≠ 0 := by
    rintro rfl
    exact absurd h (by decide)
  have hleast : ¬ (n = 0 ∨ leadingPower ⟨n, 0⟩ < -floatPlaces) := by
    unfold floatPlaces
    omega
  have hgreatest : ¬ floatPlaces < leadingPower ⟨n, 0⟩ := by
    unfold floatPlaces
    omega
  rw [toFloat, if_neg hleast, if_neg hgreatest]
  exact isFinite_ofScientific h h'

end TemplateShape.Decimal
