import Mathlib.Data.List.Chain
import TemplateShape.Proofs.Scan.Written
import TemplateShape.Template.Condition

/-! # Conditions that are a single path

In the text of a path there is no call, no literal and no operator, and its digits stand inside of
words. So nothing is struck out, and a condition that consists of a path reads that path. -/

namespace TemplateShape.Condition

open Scan

variable {path : NamePath}

/-! ## The characters of a path -/

def IsWritten (path : NamePath) : Prop :=
  ∀ name ∈ path.root :: path.rest, Ascii.isName name.toList = true

theorem IsWritten.isWord_or_point (h : IsWritten path) {c : Char} (hc : c ∈ path.text.toList) :
    Ascii.isWord c = true ∨ c = '.' := by
  rw [toList_text] at hc
  rcases List.mem_append.mp hc with hroot | hrest
  · exact .inl (isWord_of_mem_name (h path.root (by simp)) hroot)
  · obtain ⟨name, hname, hmem⟩ := List.mem_flatMap.mp hrest
    rcases List.mem_cons.mp hmem with hpoint | hword
    · exact .inr hpoint
    · exact .inl (isWord_of_mem_name (h name (by simp [hname])) hword)

theorem IsWritten.notMem_text (h : IsWritten path) {mark : Char}
    (hword : Ascii.isWord mark = false) (hpoint : mark ≠ '.') : mark ∉ path.text.toList := by
  intro hmem
  rcases h.isWord_or_point hmem with hisWord | heq
  · simp [hword] at hisWord
  · exact hpoint heq

theorem IsWritten.isBlank_eq_false (h : IsWritten path) {c : Char} (hc : c ∈ path.text.toList) :
    Blank.isBlank c = false := by
  rcases h.isWord_or_point hc with hword | rfl
  · exact isBlank_of_isWord hword
  · decide

/-- In front of a digit stands a character of a word. -/
def DigitsInWords (text : List Char) : Prop :=
  text.IsChain fun before c => c.isDigit = true → Ascii.isWord before = true

theorem digitsInWords_of_isWord {text : List Char} (h : ∀ c ∈ text, Ascii.isWord c = true) :
    DigitsInWords text := by
  induction text with
  | nil => exact List.isChain_nil
  | cons c text ih =>
      cases text with
      | nil => exact List.isChain_singleton c
      | cons d text =>
          have htail := ih fun e he => h e (List.mem_cons_of_mem c he)
          exact List.isChain_cons_cons.mpr ⟨fun _ => h c List.mem_cons_self, htail⟩

theorem DigitsInWords.append {front back : List Char} (h : DigitsInWords front)
    (h' : DigitsInWords back) (hhead : ∀ c, back.head? = some c → c.isDigit = false) :
    DigitsInWords (front ++ back) := by
  apply List.isChain_append.mpr
  refine ⟨h, h', ?_⟩
  intro last _ c hc hdigit
  rw [hhead c hc] at hdigit
  simp at hdigit

theorem not_isDigit_behind_name (names : List String) (c : Char)
    (hc : (names.flatMap (fun name => '.' :: name.toList) ++ [' ']).head? = some c) :
    c.isDigit = false := by
  have hend : AtWordEnd [' '] := atWordEnd_cons.mpr (by decide)
  exact not_isDigit_of_not_isWord (hend.behind String.toList names c hc)

theorem digitsInWords_names {names : List String}
    (h : ∀ name ∈ names, Ascii.isName name.toList = true) :
    DigitsInWords (names.flatMap (fun name => '.' :: name.toList) ++ [' ']) := by
  induction names with
  | nil => exact List.isChain_singleton ' '
  | cons name names ih =>
      have hname := h name (by simp)
      have hword : DigitsInWords name.toList :=
        digitsInWords_of_isWord fun c hc => isWord_of_mem_name hname hc
      have hpoint : DigitsInWords ['.'] := List.isChain_singleton '.'
      have hfront : DigitsInWords ('.' :: name.toList) := by
        apply hpoint.append hword
        intro c hc
        obtain ⟨first, cs, hchars, hstart, -⟩ := exists_of_isName hname
        have hfirst : first = c := by simpa [hchars] using hc
        exact hfirst ▸ not_isDigit_of_isNameStart hstart
      rw [List.flatMap_cons, List.append_assoc]
      apply hfront.append (ih fun other hother => h other (by simp [hother]))
      exact not_isDigit_behind_name names

theorem digitsInWords_text (h : IsWritten path) : DigitsInWords (path.text.toList ++ [' ']) := by
  have hroot := h path.root (by simp)
  have hword : DigitsInWords path.root.toList :=
    digitsInWords_of_isWord fun c hc => isWord_of_mem_name hroot hc
  have hnames : ∀ name ∈ path.rest, Ascii.isName name.toList = true :=
    fun name hname => h name (by simp [hname])
  rw [toList_text, List.append_assoc]
  exact hword.append (digitsInWords_names hnames) (not_isDigit_behind_name path.rest)

/-! ## Nothing is struck out -/

theorem call_eq_none {text : List Char} (h : '(' ∉ text) : call text = none := by
  cases hcall : call text with
  | none => rfl
  | some found =>
      obtain ⟨name, middle, hname, hrest⟩ := bind_eq_some_iff.mp hcall
      obtain ⟨u, behind, hblanks, hopen⟩ := bind_eq_some_iff.mp hrest
      obtain ⟨v, inner, hliteral, -⟩ := bind_eq_some_iff.mp hopen
      have hbehind : behind = ['('] ++ inner := literal_eq_some_iff.mp hliteral
      have hsuffix : behind <:+ text :=
        (Local.suffix peeks_blanks hblanks).trans (Local.suffix peeks_name hname)
      exact absurd (hsuffix.subset (by simp [hbehind])) h

theorem literal_eq_none {quote c : Char} (h : c ≠ quote) (text : List Char) :
    literal quote (c :: text) = none := by
  apply bind_of_none
  cases hscan : Scan.literal [quote] (c :: text) with
  | none => rfl
  | some found =>
      have htext : c :: text = [quote] ++ found.2 := literal_eq_some_iff.mp hscan
      simp at htext
      exact absurd htext.1 h

theorem number_eq_none {c : Char} (h : c.isDigit = false) (text : List Char) :
    number (c :: text) = none := by
  simp [number, h]

theorem operator_eq_none {c : Char} (h : Blank.isBlank c = false) (text : List Char) :
    operator (c :: text) = none := by
  apply bind_of_none
  apply bind_of_none
  simp [run1, h]

theorem operator_singleton {c : Char} (h : Blank.isBlank c = true) : operator [c] = none := by
  have hrun : run1 Blank.isBlank [c] = some ([c], []) := by simp [run1, h]
  have hblanks : blanks1 [c] = some ((), []) := bind_of_some hrun
  rw [operator, bind_of_some hblanks]
  rfl

theorem calls_text (h : IsWritten path) : calls (path.text.toList ++ [' ']) = [] := by
  have hnone : '(' ∉ path.text.toList ++ [' '] := by
    simpa using h.notMem_text (by decide) (by decide)
  apply findAll_eq_nil
  intro before c after htext
  apply wordStart_eq_none
  intro _
  apply call_eq_none
  rw [htext] at hnone
  exact fun hmem => hnone (List.mem_append_right before hmem)

theorem exists_head_text (h : IsWritten path) :
    ∃ c cs, path.text.toList = c :: cs ∧ Ascii.isNameStart c = true := by
  obtain ⟨c, cs, hroot, hstart, -⟩ := exists_of_isName (h path.root (by simp))
  exact ⟨c, _, by rw [toList_text, hroot, List.cons_append], hstart⟩

/-- Where a word starts there is no digit. -/
theorem not_isDigit_at_wordStart (h : IsWritten path) {before after : List Char} {c : Char}
    (htext : path.text.toList ++ [' '] = before ++ c :: after)
    (hstart : atWordStart before.getLast? = true) : c.isDigit = false := by
  cases hlast : before.getLast? with
  | none =>
      obtain ⟨first, cs, hpath, hfirst⟩ := exists_head_text h
      rw [List.getLast?_eq_none_iff.mp hlast, hpath] at htext
      have hc : first = c := (List.cons.inj htext).1
      exact hc ▸ not_isDigit_of_isNameStart hfirst
  | some last =>
      rw [← Bool.not_eq_true]
      intro hdigit
      have hchain := digitsInWords_text h
      rw [htext] at hchain
      have hword : Ascii.isWord last = true :=
        (List.isChain_append.mp hchain).2.2 last hlast c rfl hdigit
      simp [hlast, atWordStart, hword] at hstart

theorem eq_nil_of_isBlank (h : IsWritten path) {before after : List Char} {c : Char}
    (htext : path.text.toList ++ [' '] = before ++ c :: after) (hc : Blank.isBlank c = true) :
    after = [] := by
  rcases List.eq_nil_or_concat after with hnil | ⟨front, last, rfl⟩
  · exact hnil
  · have hpath : path.text.toList = before ++ c :: front := by
      rw [List.concat_eq_append, ← List.cons_append, ← List.append_assoc] at htext
      exact List.append_inj_left' htext rfl
    have hmem : c ∈ path.text.toList := by simp [hpath]
    simp [h.isBlank_eq_false hmem] at hc

theorem strike_text (h : IsWritten path) :
    strike (path.text.toList ++ [' ']) = path.text.toList ++ [' '] := by
  have hliteral : ∀ quote : Char, Ascii.isWord quote = false → quote ≠ '.' → quote ≠ ' ' →
      replaceAll (fun _ => literal quote) [] (path.text.toList ++ [' ']) =
        path.text.toList ++ [' '] := by
    intro quote hword hpoint hspace
    apply replaceAll_eq_self
    intro before c after htext
    apply literal_eq_none
    rintro rfl
    have hmem : c ∈ path.text.toList ++ [' '] := by simp [htext]
    rcases List.mem_append.mp hmem with hpath | hlast
    · exact h.notMem_text hword hpoint hpath
    · exact hspace (by simpa using hlast)
  have hnumber : replaceAll (wordStart number) [] (path.text.toList ++ [' ']) =
      path.text.toList ++ [' '] := by
    apply replaceAll_eq_self
    intro before c after htext
    apply wordStart_eq_none
    intro hstart
    exact number_eq_none (not_isDigit_at_wordStart h htext hstart) after
  have hoperator : replaceAll (fun _ => operator) [' '] (path.text.toList ++ [' ']) =
      path.text.toList ++ [' '] := by
    apply replaceAll_eq_self
    intro before c after htext
    cases hc : Blank.isBlank c with
    | false => exact operator_eq_none hc after
    | true =>
        rw [eq_nil_of_isBlank h htext hc]
        exact operator_singleton hc
  rw [strike, hliteral '\x27' (by decide) (by decide) (by decide),
    hliteral '"' (by decide) (by decide) (by decide), hnumber, hoperator]

theorem paths_text (h : IsWritten path) : paths (path.text.toList ++ [' ']) = [path] := by
  obtain ⟨c, cs, hpath, -⟩ := exists_head_text h
  have hspace : Ascii.isWord ' ' = false := by decide
  have hscan : wordStart namePath none (path.text.toList ++ [' ']) = some (path, [' ']) :=
    namePath_append h hspace (by decide) []
  have hlength : (cs ++ [' ']).length - [' '].length = cs.length := by simp
  have hnone : ∀ previous, wordStart namePath previous [' '] = none := by
    intro previous
    apply wordStart_eq_none
    intro _
    rfl
  rw [hpath, List.cons_append] at hscan ⊢
  rw [paths, findAll_eq_matchesFrom, matchesFrom_of_some hscan, hlength, matchesFrom_append_taken,
    matchesFrom_of_none (hnone _), matchesFrom_nil]

/-- A condition that consists of a path reads that path. -/
theorem reads_text (h : IsWritten path) (excluded : String → Bool) :
    reads excluded (path.text.toList ++ [' ']) = if excluded path.root then [] else [path] := by
  rw [reads, readsWithin, calls_text h, strike_text h, paths_text h]
  cases hexcluded : excluded path.root <;> simp [hexcluded]

end TemplateShape.Condition
