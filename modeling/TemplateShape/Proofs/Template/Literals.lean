import TemplateShape.Proofs.Scan.Replaced
import TemplateShape.Proofs.Scan.Values
import TemplateShape.Proofs.Template.Conditions

/-! # Literals of conditions

Literals are struck out of a condition before its paths are looked for, and nothing is put in their
place. So what is read is left of the text, but two words with a literal between them become one. -/

namespace TemplateShape.Condition

open Scan

/-- The text without literals, first those between single quotes and then those between double
ones. -/
def unquoted (text : List Char) : List Char :=
  replaceAll (fun _ => literal '"') [] (replaceAll (fun _ => literal '\x27') [] text)

theorem strike_eq (text : List Char) :
    strike text =
      replaceAll (fun _ => operator) [' '] (replaceAll (wordStart number) [] (unquoted text)) := rfl

/-! ## One literal -/

theorem closed_literal (quote : Char) : Closed (literal quote) := by
  refine (Closed.literal (by simp)).peeks.closes fun _ => ?_
  exact (peeks_run _).closes fun _ => .literal (by simp)

theorem literal_eq_some_iff {quote : Char} {text rest : List Char} {u : Unit} :
    literal quote text = some (u, rest) ↔
      ∃ content, quote ∉ content ∧ text = quote :: (content ++ quote :: rest) := by
  constructor
  · intro h
    obtain ⟨v, inner, hopen, hinner⟩ := bind_eq_some_iff.mp h
    obtain ⟨content, behind, hrun, hclose⟩ := bind_eq_some_iff.mp hinner
    have htext : text = [quote] ++ inner := Scan.literal_eq_some_iff.mp hopen
    have hbehind : behind = [quote] ++ rest := Scan.literal_eq_some_iff.mp hclose
    have htakes : Takes (· ≠ quote) (run (· != quote)) := .run (by simp)
    obtain ⟨taken, hsplit, hall⟩ := htakes inner content behind hrun
    refine ⟨taken, fun hmem => hall quote hmem rfl, ?_⟩
    rw [htext, hsplit, hbehind]
    rfl
  · rintro ⟨content, hcontent, rfl⟩
    have hopen : Scan.literal [quote] (quote :: (content ++ quote :: rest)) =
        some ((), content ++ quote :: rest) := literal_append [quote] _
    have hrun : run (· != quote) (content ++ quote :: rest) = some (content, quote :: rest) := by
      refine run_append (fun c hc => ?_) (by simp) rest
      simpa using ne_of_mem_of_not_mem hc hcontent
    rw [literal, bind_of_some hopen, bind_of_some hrun]
    exact literal_append [quote] rest

section Struck

variable {quote : Char} {front content back : List Char}

theorem struck_append (h : quote ∉ front) (back : List Char) :
    replaceAll (fun _ => literal quote) [] (front ++ back) =
      front ++ replaceAll (fun _ => literal quote) [] back := by
  induction front with
  | nil => rfl
  | cons c front ih =>
      have hne : c ≠ quote := fun heq => h (by simp [heq])
      rw [List.cons_append, replaceAll_of_none (literal_eq_none hne _),
        ih fun hmem => h (by simp [hmem]), List.cons_append]

theorem struck_of_notMem (h : quote ∉ front) :
    replaceAll (fun _ => literal quote) [] front = front := by
  have happend := struck_append h []
  rw [List.append_nil] at happend
  exact happend.trans (List.append_nil front)

theorem struck_literal (h : quote ∉ content) (back : List Char) :
    replaceAll (fun _ => literal quote) [] (quote :: (content ++ quote :: back)) =
      replaceAll (fun _ => literal quote) [] back := by
  have hliteral : literal quote (quote :: (content ++ quote :: back)) = some ((), back) :=
    literal_eq_some_iff.mpr ⟨content, h, rfl⟩
  rw [(closed_literal quote).replaceAll_of_some hliteral, List.nil_append]

/-- No literal reaches into a text without the quote. -/
theorem literal_append_eq_none (h : quote ∉ back) (hfront : literal quote front = none) :
    literal quote (front ++ back) = none := by
  cases hscan : literal quote (front ++ back) with
  | none => rfl
  | some found =>
      obtain ⟨u, rest⟩ := found
      obtain ⟨content, hcontent, htext⟩ := literal_eq_some_iff.mp hscan
      have hsplit : front ++ back = (quote :: content ++ [quote]) ++ rest := by simp [htext]
      have hnone : ∀ more, front ≠ quote :: content ++ [quote] ++ more := by
        rintro more rfl
        have hread : literal quote (quote :: content ++ [quote] ++ more) = some ((), more) :=
          literal_eq_some_iff.mpr ⟨content, hcontent, by simp⟩
        rw [hread] at hfront
        simp at hfront
      obtain ⟨more, hlonger, hmore⟩ | ⟨more, hinside, -⟩ := List.append_eq_append_iff.mp hsplit
      · -- the literal would end behind the front, so its last quote would stand in the back
        obtain rfl | ⟨init, last, rfl⟩ := more.eq_nil_or_concat
        · exact absurd (by simpa using hlonger.symm) (hnone [])
        · rw [List.concat_eq_append, ← List.append_assoc] at hlonger
          have hlast : quote = last := by simpa using List.append_inj_right' hlonger rfl
          exact absurd (by simp [hmore, hlast]) h
      · exact absurd hinside (hnone more)

theorem struck_append_of_notMem (h : quote ∉ back) (front : List Char) :
    replaceAll (fun _ => literal quote) [] (front ++ back) =
      replaceAll (fun _ => literal quote) [] front ++ back := by
  induction hlength : front.length using Nat.strong_induction_on generalizing front with
  | _ n ih =>
      subst hlength
      cases hscan : literal quote front with
      | some found =>
          obtain ⟨u, rest⟩ := found
          have hlonger := (closed_literal quote).append hscan back
          have hrest := ih rest.length ((closed_literal quote).length_lt hscan) rest rfl
          rw [(closed_literal quote).replaceAll_of_some hscan,
            (closed_literal quote).replaceAll_of_some hlonger, hrest]
          rfl
      | none =>
          cases front with
          | nil => exact struck_of_notMem h
          | cons c front =>
              have hlonger : literal quote (c :: (front ++ back)) = none :=
                literal_append_eq_none h hscan
              rw [replaceAll_of_none hscan, List.cons_append, replaceAll_of_none hlonger,
                ih front.length (by simp) front rfl, List.cons_append]

end Struck

/-! ## All literals -/

/-- Striking out literals brings in nothing. -/
theorem unquoted_sublist (text : List Char) : (unquoted text).Sublist text :=
  (replaceFrom_nil_sublist _ 0 none _).trans (replaceFrom_nil_sublist _ 0 none _)

def withLiteral (quote : Char) (front content back : List Char) : List Char :=
  front ++ quote :: (content ++ quote :: back)

/-- A text has no quote of either kind. -/
structure Unquoted (text : List Char) : Prop where
  single : '\x27' ∉ text
  double : '"' ∉ text

instance (text : List Char) : Decidable (Unquoted text) :=
  decidable_of_iff ('\x27' ∉ text ∧ '"' ∉ text) ⟨fun h => ⟨h.1, h.2⟩, fun h => ⟨h.1, h.2⟩⟩

theorem Unquoted.append {front back : List Char} (h : Unquoted front) (h' : Unquoted back) :
    Unquoted (front ++ back) where
  single := by simp [h.single, h'.single]
  double := by simp [h.double, h'.double]

theorem Unquoted.of_subset {text inner : List Char} (h : Unquoted text) (hinner : inner ⊆ text) :
    Unquoted inner where
  single := fun hmem => h.single (hinner hmem)
  double := fun hmem => h.double (hinner hmem)

theorem Unquoted.unquoted_eq {text : List Char} (h : Unquoted text) : unquoted text = text := by
  rw [unquoted, struck_of_notMem h.single, struck_of_notMem h.double]

/-- A literal leaves no trace in a text that has no other one, whatever it holds. -/
theorem unquoted_withLiteral {quote : Char} (hquote : quote = '\x27' ∨ quote = '"')
    {front content back : List Char} (hfront : Unquoted front) (hback : Unquoted back)
    (hcontent : quote ∉ content) :
    unquoted (withLiteral quote front content back) = front ++ back := by
  rcases hquote with rfl | rfl
  · rw [unquoted, withLiteral, struck_append hfront.1, struck_literal hcontent,
      struck_of_notMem hback.1, struck_append hfront.2, struck_of_notMem hback.2]
  · -- single quotes inside the literal may pair up, but not with anything outside of it
    have hopen : '\x27' ∉ front ++ ['"'] := by simp [hfront.1]
    have hclose : '\x27' ∉ '"' :: back := by simp [hback.1]
    have hrest : '"' ∉ replaceAll (fun _ => literal '\x27') [] content :=
      fun hmem => hcontent ((replaceFrom_nil_sublist _ 0 none content).subset hmem)
    have hsplit : front ++ '"' :: (content ++ '"' :: back) =
        (front ++ ['"']) ++ (content ++ '"' :: back) := by simp
    have hjoin : ∀ left : List Char, (front ++ ['"']) ++ (left ++ '"' :: back) =
        front ++ '"' :: (left ++ '"' :: back) := by simp
    rw [unquoted, withLiteral, hsplit, struck_append hopen, struck_append_of_notMem hclose, hjoin,
      struck_append hfront.2, struck_literal hrest, struck_of_notMem hback.2]

/-! ## Words of the struck text -/

theorem parts_number : Parts Ascii.isWord (wordStart number) [] where
  replaced := by simp
  struck := by
    intro _ c text hword
    apply wordStart_eq_none
    intro hstart
    simp [atWordStart, hword] at hstart

theorem parts_operator : Parts Ascii.isWord (fun _ => operator) [' '] where
  replaced := by
    have hblank : Ascii.isWord ' ' = false := by decide
    simpa using hblank
  struck := by simp

/-- What is left of some stretch of a text when the literals in that stretch are struck out. -/
def Leaves (text kept : List Char) : Prop :=
  ∃ piece, piece <:+: text ∧ unquoted piece = kept

theorem Leaves.within {inner text kept : List Char} (h : Leaves inner kept)
    (hinner : inner <:+: text) : Leaves text kept := by
  obtain ⟨piece, hpiece, hkept⟩ := h
  exact ⟨piece, hpiece.trans hinner, hkept⟩

/-- Numbers are struck out as whole words and operators make way for a blank, so a word of the
struck text comes from around literals only. -/
theorem leaves_of_infix_strike {word text : List Char} (hword : ∀ c ∈ word, Ascii.isWord c = true)
    (h : word <:+: strike text) : Leaves text word := by
  rw [strike_eq] at h
  have hunquoted : word <:+: unquoted text :=
    parts_number.infix_replaceAll hword (parts_operator.infix_replaceAll hword h)
  obtain ⟨middle, hmiddle, hdouble⟩ := (closed_literal '"').exists_stretch hunquoted
  obtain ⟨piece, hpiece, hsingle⟩ := (closed_literal '\x27').exists_stretch hmiddle
  exact ⟨piece, hpiece, by rw [unquoted, hsingle, hdouble]⟩

theorem isWritten_of_mem_paths {text : List Char} {path : NamePath} (h : path ∈ paths text) :
    IsWritten path :=
  Gives.of_mem_findAll gives_namePath.wordStart h

/-- The root of a path that is found is left of a stretch of the text. -/
theorem leaves_of_mem_paths {text : List Char} {path : NamePath} (h : path ∈ paths (strike text)) :
    Leaves text path.root.toList := by
  have hroot := isWritten_of_mem_paths h path.root List.mem_cons_self
  exact leaves_of_infix_strike (fun c hc => isWord_of_mem_name hroot hc)
    (Stands.of_mem_findAll stands_namePath.wordStart h)

end TemplateShape.Condition
