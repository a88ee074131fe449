import TemplateShape.Json.Reader
import TemplateShape.Json.Writer

/-! # Strings read back as they were written

Each character reads back from its escape, whatever stands behind it, and a string from its text up
to the closing quote. -/

namespace TemplateShape.Json

theorem bind_of_ok {α β : Type} {x : Except Fault α} {a : α} {next : α → Except Fault β}
    (h : x = .ok a) : (x >>= next) = next a := by
  rw [h]
  rfl

/-! ## Escapes -/

theorem hexValue?_hexDigit : ∀ n < 16, hexValue? (hexDigit n) = some n := by
  decide

theorem utf8Size_hexDigit : ∀ n < 16, (hexDigit n).utf8Size = 1 := by
  decide

theorem readUnit_hexDigits {high low : Nat} (hhigh : high < 16) (hlow : low < 16)
    (rest : List Char) :
    readUnit ('0' :: '0' :: hexDigit high :: hexDigit low :: rest) =
      .ok (high * 16 + low, rest) := by
  have hlength : byteLength ['0', '0', hexDigit high, hexDigit low] = 4 := by
    have hzero : '0'.utf8Size = 1 := rfl
    simp [byteLength, hzero, utf8Size_hexDigit high hhigh, utf8Size_hexDigit low hlow]
  have hzero : hexValue? '0' = some 0 := rfl
  simp [readUnit, hlength, hzero, hexValue?_hexDigit high hhigh, hexValue?_hexDigit low hlow]

theorem readUnits_of_control {c : Char} (h : c.toNat < 0x20) (rest : List Char) :
    readUnits ('0' :: '0' :: hexDigit (c.toNat / 16) :: hexDigit (c.toNat % 16) :: rest) =
      .ok (c, rest) := by
  have hunit : c.toNat / 16 * 16 + c.toNat % 16 = c.toNat := by omega
  have hhigh : c.toNat / 16 < 16 := by omega
  have hlow : c.toNat % 16 < 16 := by omega
  have hread := readUnit_hexDigits hhigh hlow rest
  rw [hunit] at hread
  have htrailing : isTrailing c.toNat = false := by
    simp only [isTrailing, Bool.and_eq_false_iff, decide_eq_false_iff_not]
    omega
  have hleading : isLeading c.toNat = false := by
    simp only [isLeading, Bool.and_eq_false_iff, decide_eq_false_iff_not]
    omega
  rw [readUnits, bind_of_ok hread]
  simp only [htrailing, hleading, Char.ofNat_toNat]
  rfl

theorem readStringChar_escapeChar (c : Char) (rest : List Char) :
    readStringChar (escapeChar c ++ rest) = .ok (some c, rest) := by
  unfold escapeChar
  split
  · rfl
  · rfl
  · rfl
  · rfl
  · rfl
  · rfl
  · rfl
  · rename_i hquote hbackslash _ _ _ _ _
    split
    · rename_i hcontrol
      have hread := readUnits_of_control hcontrol rest
      simp only [List.cons_append, List.nil_append, readStringChar, readEscape, hread]
      rfl
    · rename_i hcontrol
      rw [List.singleton_append, readStringChar.eq_4 c rest hquote hbackslash, if_neg hcontrol]

theorem escapeChar_ne_nil (c : Char) : escapeChar c ≠ [] := by
  unfold escapeChar
  split <;> try split
  all_goals simp

/-! ## Strings -/

theorem length_le_length_escaped (cs : List Char) : cs.length ≤ (cs.flatMap escapeChar).length := by
  induction cs with
  | nil => simp
  | cons c cs ih =>
      have hpos := List.length_pos_iff.mpr (escapeChar_ne_nil c)
      rw [List.flatMap_cons, List.length_append, List.length_cons]
      omega

theorem readStringChars_escaped (cs rest : List Char) {limit : Nat} (hlimit : cs.length < limit) :
    readStringChars limit (cs.flatMap escapeChar ++ '"' :: rest) = .ok (cs, rest) := by
  induction cs generalizing limit with
  | nil =>
      cases limit with
      | zero => simp at hlimit
      | succ limit => rfl
  | cons c cs ih =>
      cases limit with
      | zero => simp at hlimit
      | succ limit =>
          have hrest := ih (by simpa using hlimit)
          rw [List.flatMap_cons, List.append_assoc, readStringChars,
            bind_of_ok (readStringChar_escapeChar c _)]
          exact bind_of_ok hrest

theorem readString_escaped (text : String) (rest : List Char) :
    readString (text.toList.flatMap escapeChar ++ '"' :: rest) = .ok (text, rest) := by
  have hlength := length_le_length_escaped text.toList
  rw [readString, readStringChars_escaped]
  · simp [Except.map]
  · rw [List.length_append]
    omega

end TemplateShape.Json
