import TemplateShape.Proofs.Template.Edges
import TemplateShape.Proofs.Template.Literals

/-! # What striking out does to names

Numbers and operators are struck out of a condition before its paths are looked for. That joins no
two words, and it parts no point from the name in front of it, so a name that begins a path in what
is left could begin one in the text, too. -/

namespace TemplateShape.Condition

open Scan

/-! ## What stands in front once something is struck out -/

/-- What stands in front of a place in a text, and in front of the same place in what is left of the
text. It is the same, unless a number has been struck out right there: digits, behind which no word
goes on, or digits and their point, in front of which stands the point of a name. -/
inductive Edge.Kept : (read written : Edge) → (back : List Char) → Prop
  | same (edge : Edge) (back : List Char) : Kept edge edge back
  | digits {written : Edge} {back : List Char} :
      written.isOpen = true → startsWord back = false → Kept .word written back
  | point (back : List Char) : Kept .apart .point back

/-- One character that is kept makes up for the difference. -/
theorem Edge.Kept.next_eq {read written : Edge} {c : Char} {back : List Char}
    (h : Kept read written (c :: back)) : read.next c = written.next c := by
  cases h with
  | same => rfl
  | digits hopen hends =>
      have hword : Ascii.isWord c = false := hends
      cases written <;> simp_all [Edge.next, Edge.isOpen]
  | point =>
      by_cases hword : Ascii.isWord c = true <;> simp [Edge.next, Edge.isOpen, hword]

theorem Edge.Kept.isOpen_eq_true {read written : Edge} {back : List Char}
    (h : Kept read written back) (hread : read.isOpen = true) : written.isOpen = true := by
  cases h with
  | same => exact hread
  | digits hopen => exact hopen
  | point => rfl

theorem Edge.Kept.of_isOpen {written : Edge} (h : written.isOpen = true) (back : List Char) :
    Kept .apart written back := by
  cases written with
  | apart => exact .same _ back
  | point => exact .point back
  | name => simp [isOpen] at h
  | word => simp [isOpen] at h

/-- Where a word begins, a text that has been left apart was apart before. -/
theorem Edge.Kept.eq_apart {read : Edge} {c : Char} {back : List Char}
    (h : Kept read .apart (c :: back)) (hc : Ascii.isWord c = true) : read = .apart := by
  cases h with
  | same => rfl
  | digits _ hends => simp [startsWord, hc] at hends

/-- A way to strike out that keeps words whole and parts no name from what stands in front of it. -/
structure Mends (scan : Placed Unit) (replacement : List Char) : Prop where
  moves : Moves scan
  parts : Parts Ascii.isWord scan replacement
  inside : ∀ c d text, Ascii.isWord c = true → Ascii.isWord d = true →
    scan (some c) (d :: text) = none
  kept : ∀ {front taken rest written},
    scan front.getLast? (taken ++ rest) = some ((), rest) →
    Edge.Kept (.behind front) (.behind written) (taken ++ rest) →
    Edge.Kept (.behind (front ++ taken)) (.behind (written ++ replacement)) rest

namespace Mends

variable {scan : Placed Unit} {replacement text front back written : List Char}

theorem kept_of_progress (h : Mends scan replacement)
    (hprogress : Progress scan replacement text front back written) :
    Edge.Kept (.behind front) (.behind written) back := by
  induction hprogress with
  | start => exact .same _ _
  | keep _ _ ih =>
      rw [Edge.behind_append, Edge.behind_append, Edge.along_cons, Edge.along_cons, ih.next_eq]
      exact .same _ _
  | replace _ hscan ih => exact h.kept hscan ih

/-- A word that has begun is written as it stands. -/
theorem replaceFrom_word (h : Mends scan replacement) {before : Char}
    (hbefore : Ascii.isWord before = true) {word : List Char}
    (hword : ∀ c ∈ word, Ascii.isWord c = true) (rest : List Char) :
    replaceFrom scan replacement 0 (some before) (word ++ rest) =
      word ++ replaceFrom scan replacement 0 (word.getLast?.or (some before)) rest := by
  induction word generalizing before with
  | nil => rfl
  | cons c word ih =>
      have hc := hword c List.mem_cons_self
      have hnone : scan (some before) (c :: (word ++ rest)) = none := h.inside before c _ hbefore hc
      rw [List.cons_append, replaceFrom_of_none hnone,
        ih hc fun d hd => hword d (List.mem_cons_of_mem c hd), getLast?_cons_or, List.cons_append]

/-- A word of what is left ends where it ends in the text. -/
theorem exists_of_replaceFrom (h : Mends scan replacement) {before : Char}
    (hbefore : Ascii.isWord before = true) {word after : List Char}
    (hword : ∀ c ∈ word, Ascii.isWord c = true) (hends : startsWord after = false)
    (hwritten : replaceFrom scan replacement 0 (some before) back = word ++ after) :
    ∃ rest, back = word ++ rest ∧ startsWord rest = false := by
  obtain ⟨rest, rfl⟩ := h.parts.prefix_text hword hbefore ⟨after, hwritten.symm⟩
  refine ⟨rest, rfl, ?_⟩
  cases rest with
  | nil => rfl
  | cons d rest =>
      -- if the word went on in the text, it would have been written further
      by_contra hd
      have hlonger : ∀ c ∈ word ++ [d], Ascii.isWord c = true := by
        intro c hc
        rcases List.mem_append.mp hc with hc | hc
        · exact hword c hc
        · exact List.mem_singleton.mp hc ▸ eq_true_of_ne_false hd
      have hmore := h.replaceFrom_word hbefore hlonger rest
      rw [List.append_assoc, List.append_assoc, List.singleton_append, hwritten] at hmore
      have hafter := List.append_cancel_left hmore
      rw [hafter] at hends
      exact hd hends

/-- A head in what is left is a head in the text. -/
theorem isHead_text (h : Mends scan replacement) {name : String}
    (hhead : IsHead (replaceAll scan replacement text) name) : IsHead text name := by
  obtain ⟨before, after, htoken, hedge⟩ := hhead
  obtain ⟨c, cs, hname, hstart, hcs⟩ := exists_of_isName htoken.isName
  have hword : Ascii.isWord c = true := Ascii.isWord_of_isNameStart hstart
  have hwritten : replaceFrom scan replacement 0 none text = before ++ c :: (cs ++ after) := by
    have hsplit := htoken.split
    rw [hname, List.append_assoc] at hsplit
    exact hsplit
  have hc : c ∉ replacement := fun hmem => by simp [h.parts.replaced c hmem] at hword
  obtain ⟨front, back, hprogress, hback⟩ := Progress.exists_kept h.moves .start hwritten hc
  obtain ⟨rest, rfl, hends⟩ := h.exists_of_replaceFrom hword hcs htoken.ends hback
  have hkept := h.kept_of_progress hprogress
  rw [List.nil_append, hedge] at hkept
  have hfront : Edge.behind front = .apart := hkept.eq_apart hword
  refine ⟨front, rest, ⟨?_, htoken.isName, ?_, hends⟩, hfront⟩
  · rw [hprogress.text_eq, hname, List.append_assoc, List.cons_append]
  · rw [← Edge.isOpen_behind, hfront]
    rfl

end Mends

/-! ## What is struck out -/

theorem isDigits_takeWhile {text : List Char}
    (h : ¬(text.takeWhile Char.isDigit).isEmpty = true) :
    IsDigits (text.takeWhile Char.isDigit) :=
  ⟨by simpa using h, List.all_eq_true.mp List.all_takeWhile⟩

theorem cases_of_number {text rest : List Char} {u : Unit} (h : number text = some (u, rest)) :
    ∃ digits, IsDigits digits ∧
      (text = digits ++ rest ∧ startsWord rest = false ∨
        text = digits ++ ['.'] ++ rest ∨
        ∃ fraction, IsDigits fraction ∧ text = digits ++ '.' :: fraction ++ rest ∧
          startsWord rest = false) := by
  have hsplit : ∀ part : List Char,
      part = part.takeWhile Char.isDigit ++ part.dropWhile Char.isDigit :=
    fun _ => List.takeWhile_append_dropWhile.symm
  simp only [number] at h
  split at h
  · simp at h
  · rename_i hdigits
    refine ⟨text.takeWhile Char.isDigit, isDigits_takeWhile hdigits, ?_⟩
    split at h
    · rename_i behind hpoint
      have htext : text = text.takeWhile Char.isDigit ++ ['.'] ++ behind := by
        rw [List.append_assoc, List.singleton_append, ← hpoint, ← hsplit]
      split at h
      · obtain ⟨-, hrest⟩ := Prod.mk.inj (Option.some.inj h)
        split at hrest
        · exact .inr (.inl (hrest ▸ htext))
        · refine .inl ⟨?_, ?_⟩
          · rw [← hrest, ← hsplit]
          · rw [← hrest, hpoint]
            rfl
      · rename_i hfraction
        obtain ⟨-, hrest⟩ := Prod.mk.inj (Option.some.inj h)
        split at hrest
        · exact .inr (.inl (hrest ▸ htext))
        · rename_i hends
          refine .inr (.inr ⟨behind.takeWhile Char.isDigit, isDigits_takeWhile hfraction, ?_, ?_⟩)
          · rw [← hrest, List.append_assoc, List.cons_append, ← hsplit]
            simpa using htext
          · rw [← hrest]
            exact eq_false_of_ne_true hends
    · split at h
      · simp at h
      · rename_i hends
        obtain ⟨-, hrest⟩ := Prod.mk.inj (Option.some.inj h)
        refine .inl ⟨?_, ?_⟩
        · rw [← hrest, ← hsplit]
        · rw [← hrest]
          exact eq_false_of_ne_true hends

/-- Behind a number stands its last digits as a word of its own, or its point. -/
theorem exists_of_number {text rest : List Char} {u : Unit} (h : number text = some (u, rest)) :
    ∃ taken, taken ≠ [] ∧ text = taken ++ rest ∧ ∀ edge : Edge, edge.isOpen = true →
      edge.along taken = .word ∧ startsWord rest = false ∨ edge.along taken = .apart := by
  have hpoint : Edge.word.next '.' = .apart := by decide
  obtain ⟨digits, hdigits, ⟨htext, hends⟩ | htext | ⟨fraction, hfraction, htext, hends⟩⟩ :=
    cases_of_number h
  · refine ⟨digits, hdigits.1, htext, fun edge hopen => .inl ⟨?_, hends⟩⟩
    exact Edge.along_digits hopen hdigits
  · refine ⟨digits ++ ['.'], by simp, htext, fun edge hopen => .inr ?_⟩
    rw [Edge.along_append, Edge.along_digits hopen hdigits, Edge.along_cons, hpoint,
      Edge.along_nil]
  · refine ⟨digits ++ '.' :: fraction, by simp, htext, fun edge hopen => .inl ⟨?_, hends⟩⟩
    rw [Edge.along_append, Edge.along_digits hopen hdigits, Edge.along_cons, hpoint,
      Edge.along_digits rfl hfraction]

theorem mends_number : Mends (wordStart number) [] where
  moves := by
    intro previous text u rest hscan
    obtain ⟨taken, hne, htext, -⟩ := exists_of_number (wordStart_eq_some_iff.mp hscan).2
    exact ⟨taken, hne, htext⟩
  parts := parts_number
  inside := by
    intro c d text hc _
    apply wordStart_eq_none
    intro hstart
    simp [atWordStart, hc] at hstart
  kept := by
    intro front taken rest written hscan hkept
    obtain ⟨hstart, hnumber⟩ := wordStart_eq_some_iff.mp hscan
    obtain ⟨stretch, -, htext, halong⟩ := exists_of_number hnumber
    obtain rfl : taken = stretch := List.append_cancel_right htext
    have hfront : (Edge.behind front).isOpen = true := by rw [Edge.isOpen_behind, hstart]
    have hwritten := hkept.isOpen_eq_true hfront
    rw [Edge.behind_append, List.append_nil]
    rcases halong _ hfront with ⟨hword, hends⟩ | hpoint
    · rw [hword]
      exact .digits hwritten hends
    · rw [hpoint]
      exact .of_isOpen hwritten rest

theorem suffix_of_foldedWord {expected text rest : List Char} {u : Unit}
    (h : foldedWord expected text = some (u, rest)) : rest <:+ text := by
  induction expected generalizing text with
  | nil =>
      have hrest : text = rest := congrArg Prod.snd (Option.some.inj h)
      exact hrest ▸ List.suffix_rfl
  | cons letter letters ih =>
      cases text with
      | nil => simp [foldedWord] at h
      | cons c text =>
          simp only [foldedWord, Option.ite_none_right_eq_some] at h
          exact (ih h.2).trans (List.suffix_cons c text)

theorem exists_of_operator {text rest : List Char} {u : Unit} (h : operator text = some (u, rest)) :
    ∃ body gap, gap ≠ [] ∧ text = body ++ gap ++ rest ∧ ∀ c ∈ gap, Blank.isBlank c = true := by
  obtain ⟨v, inner, hblanks, hinner⟩ := bind_eq_some_iff.mp h
  obtain ⟨expected, -, hoperator⟩ := List.exists_of_findSome?_eq_some hinner
  obtain ⟨w, behind, hfolded, hgap⟩ := bind_eq_some_iff.mp hoperator
  obtain ⟨front, -, htext, -⟩ := exists_of_blanks1 hblanks
  obtain ⟨middle, hmiddle⟩ := suffix_of_foldedWord hfolded
  obtain ⟨gap, hne, hbehind, hall⟩ := exists_of_blanks1 hgap
  exact ⟨front ++ middle, gap, hne, by simp [htext, ← hmiddle, hbehind], hall⟩

theorem mends_operator : Mends (fun _ => operator) [' '] where
  moves := by
    intro previous text u rest hscan
    obtain ⟨body, gap, hne, htext, -⟩ := exists_of_operator hscan
    exact ⟨body ++ gap, by simp [hne], htext⟩
  parts := parts_operator
  inside := fun c d text _ hd => operator_eq_none (isBlank_of_isWord hd) text
  kept := by
    intro front taken rest written hscan _
    obtain ⟨body, gap, hne, htext, hall⟩ := exists_of_operator hscan
    obtain rfl : taken = body ++ gap := List.append_cancel_right htext
    have hspace : IsGap ' ' := isGap_of_isBlank (by decide)
    rw [Edge.behind_append, Edge.along_append, Edge.along_blanks hne hall, Edge.behind_append,
      Edge.along_cons, Edge.along_nil, Edge.next_gap hspace]
    exact .same _ _

/-- Without quotes, only numbers and operators are struck out. -/
theorem isHead_of_mem_paths_strike {text : List Char} (h : Unquoted text) {path : NamePath}
    (hpath : path ∈ paths (strike text)) : IsHead text path.root := by
  have hhead := isHead_of_mem_paths hpath
  rw [strike_eq, h.unquoted_eq] at hhead
  exact mends_number.isHead_text (mends_operator.isHead_text hhead)

end TemplateShape.Condition
