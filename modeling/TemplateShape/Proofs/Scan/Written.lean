import TemplateShape.Proofs.Scan.Extension
import TemplateShape.Proofs.Scan.Values

/-! # Scanning what is written

Names, paths and words that are written one after the other are taken one after the other, if each
is followed by a character that cannot belong to it. -/

namespace TemplateShape.Scan

variable {α β : Type}

/-! ## One part after the other -/

theorem bind_of_some {scan : Scan α} {next : α → Scan β} {text rest : List Char} {a : α}
    (h : scan text = some (a, rest)) : (scan >>= next) text = next a rest := by
  change (scan text).bind (fun (a, middle) => next a middle) = next a rest
  rw [h]
  rfl

theorem bind_of_none {scan : Scan α} {next : α → Scan β} {text : List Char}
    (h : scan text = none) : (scan >>= next) text = none := by
  change (scan text).bind (fun (a, middle) => next a middle) = none
  rw [h]
  rfl

theorem literal_append (expected rest : List Char) :
    literal expected (expected ++ rest) = some ((), rest) :=
  literal_eq_some_iff.mpr rfl

theorem run_append {p : Char → Bool} {taken : List Char} (h : ∀ c ∈ taken, p c = true) {c : Char}
    (hc : p c = false) (rest : List Char) :
    run p (taken ++ c :: rest) = some (taken, c :: rest) := by
  rw [run, List.takeWhile_append_of_pos h, List.dropWhile_append_of_pos h]
  simp [hc]

theorem blanks_blank {c : Char} (hc : Blank.isBlank c = false) (rest : List Char) :
    blanks (' ' :: c :: rest) = some ((), c :: rest) := by
  have hblank : Blank.isBlank ' ' = true := by decide
  simp [blanks, hblank, hc]

theorem blanks1_blank {c : Char} (hc : Blank.isBlank c = false) (rest : List Char) :
    blanks1 (' ' :: c :: rest) = some ((), c :: rest) := by
  have hblank : Blank.isBlank ' ' = true := by decide
  have hrun : run1 Blank.isBlank (' ' :: c :: rest) = some ([' '], c :: rest) := by
    simp [run1, hblank, hc]
  exact bind_of_some hrun

/-! ## Names -/

theorem toNat_of_isNameStart {c : Char} (h : Ascii.isNameStart c = true) :
    (65 ≤ c.toNat ∧ c.toNat ≤ 90) ∨ (97 ≤ c.toNat ∧ c.toNat ≤ 122) ∨ c.toNat = 95 := by
  have hletter : (c.isUpper || c.isLower || c == '_') = true := h
  simp only [Bool.or_eq_true, beq_iff_eq] at hletter
  rcases hletter with (hupper | hlower) | hunderscore
  · exact .inl (of_decide_eq_true hupper)
  · have hrange := Bool.and_eq_true_iff.mp hlower
    exact .inr (.inl ⟨of_decide_eq_true hrange.1, of_decide_eq_true hrange.2⟩)
  · exact .inr (.inr (by rw [hunderscore]; rfl))

theorem toNat_of_isDigit {c : Char} (h : c.isDigit = true) : 48 ≤ c.toNat ∧ c.toNat ≤ 57 :=
  Char.isDigit_iff_toNat.mp h

theorem isNameStart_or_isDigit {c : Char} (h : Ascii.isWord c = true) :
    Ascii.isNameStart c = true ∨ c.isDigit = true := by
  simp only [Ascii.isWord, Ascii.isNameStart, Char.isAlphanum, Bool.or_eq_true] at h ⊢
  rcases h with (hletter | hdigit) | hunderscore
  · exact .inl (.inl hletter)
  · exact .inr hdigit
  · exact .inl (.inr hunderscore)

theorem isWord_of_isDigit {c : Char} (h : c.isDigit = true) : Ascii.isWord c = true := by
  simp [Ascii.isWord, Char.isAlphanum, h]

theorem isBlank_of_isWord {c : Char} (h : Ascii.isWord c = true) : Blank.isBlank c = false := by
  have hrange : 48 ≤ c.toNat ∧ c.toNat ≤ 122 := by
    rcases isNameStart_or_isDigit h with hstart | hdigit
    · have hletter := toNat_of_isNameStart hstart
      omega
    · have hdecimal := toNat_of_isDigit hdigit
      omega
  rw [← Bool.not_eq_true]
  intro hblank
  obtain ⟨⟨first, last⟩, hmem, hin⟩ := List.any_eq_true.mp hblank
  simp only [Bool.and_eq_true, decide_eq_true_eq] at hin
  simp only [Blank.ranges, List.mem_cons, Prod.mk.injEq, List.not_mem_nil, or_false] at hmem
  omega

theorem not_isDigit_of_isNameStart {c : Char} (h : Ascii.isNameStart c = true) :
    c.isDigit = false := by
  rw [← Bool.not_eq_true]
  intro hdigit
  have hletter := toNat_of_isNameStart h
  have hdecimal := toNat_of_isDigit hdigit
  omega

theorem not_isDigit_of_not_isWord {c : Char} (h : Ascii.isWord c = false) : c.isDigit = false := by
  simp only [Ascii.isWord, Char.isAlphanum, Bool.or_eq_false_iff] at h
  exact h.1.2

theorem isWord_of_mem_name {name : String} (h : Ascii.isName name.toList = true) {c : Char}
    (hc : c ∈ name.toList) : Ascii.isWord c = true := by
  obtain ⟨first, cs, hname, hfirst, hcs⟩ := exists_of_isName h
  rw [hname] at hc
  rcases List.mem_cons.mp hc with rfl | hc
  · exact Ascii.isWord_of_isNameStart hfirst
  · exact hcs c hc

theorem name_append {written : String} (h : Ascii.isName written.toList = true) {c : Char}
    (hc : Ascii.isWord c = false) (rest : List Char) :
    name (written.toList ++ c :: rest) = some (written, c :: rest) :=
  name_eq_some_iff.mpr ⟨rfl, h, atWordEnd_cons.mpr hc⟩

theorem wordRun_append {written : String} (h : Ascii.isName written.toList = true) {c : Char}
    (hc : Ascii.isWord c = false) (rest : List Char) :
    wordRun (written.toList ++ c :: rest) = some (written, c :: rest) := by
  have hall : ∀ d ∈ written.toList, Ascii.isWord d = true := fun d hd => isWord_of_mem_name h hd
  have htake : (written.toList ++ c :: rest).takeWhile Ascii.isWord = written.toList := by
    rw [List.takeWhile_append_of_pos hall]
    simp [hc]
  have hdrop : (written.toList ++ c :: rest).dropWhile Ascii.isWord = c :: rest := by
    rw [List.dropWhile_append_of_pos hall]
    simp [hc]
  have hne : written.toList.isEmpty = false := by
    obtain ⟨first, cs, hwritten, -, -⟩ := exists_of_isName h
    simp [hwritten]
  have hrun : run1 Ascii.isWord (written.toList ++ c :: rest) =
      some (written.toList, c :: rest) := by
    simp [run1, htake, hdrop, hne]
  rw [wordRun, bind_of_some hrun, String.ofList_toList]
  rfl

theorem blanks_name {written : String} (h : Ascii.isName written.toList = true)
    (rest : List Char) :
    blanks (' ' :: (written.toList ++ rest)) = some ((), written.toList ++ rest) := by
  obtain ⟨first, cs, hwritten, hfirst, -⟩ := exists_of_isName h
  rw [hwritten]
  exact blanks_blank (isBlank_of_isWord (Ascii.isWord_of_isNameStart hfirst)) (cs ++ rest)

theorem blanks1_name {written : String} (h : Ascii.isName written.toList = true)
    (rest : List Char) :
    blanks1 (' ' :: (written.toList ++ rest)) = some ((), written.toList ++ rest) := by
  obtain ⟨first, cs, hwritten, hfirst, -⟩ := exists_of_isName h
  rw [hwritten]
  exact blanks1_blank (isBlank_of_isWord (Ascii.isWord_of_isNameStart hfirst)) (cs ++ rest)

/-! ## Paths -/

theorem intercalate_point (piece : List Char) (pieces : List (List Char)) :
    ['.'].intercalate (piece :: pieces) = piece ++ pieces.flatMap ('.' :: ·) := by
  induction pieces generalizing piece with
  | nil => simp
  | cons next pieces ih =>
      rw [List.intercalate_cons_cons, ih next]
      simp

theorem toList_text (path : NamePath) :
    path.text.toList = path.root.toList ++ path.rest.flatMap fun name => '.' :: name.toList := by
  have htext : path.text.toList =
      ['.'].intercalate (path.root.toList :: path.rest.map String.toList) :=
    String.toList_intercalate
  rw [htext, intercalate_point, List.flatMap_map]

theorem AtWordEnd.behind {rest : List Char} (h : AtWordEnd rest) (spelling : β → List Char)
    (items : List β) : AtWordEnd (items.flatMap (fun item => '.' :: spelling item) ++ rest) := by
  cases items with
  | nil => exact h
  | cons item items => exact atWordEnd_cons.mpr (by decide)

/-- Pieces behind points are taken one after the other, if each is taken where its word ends. -/
theorem many_afterPoint_append {scan : Scan α} {spelling : β → List Char} {value : β → α}
    {items : List β} (h : ∀ item ∈ items, ∀ rest, AtWordEnd rest →
      scan (spelling item ++ rest) = some (value item, rest)) {rest : List Char}
    (hrest : AtWordEnd rest) (hpoint : rest.head? ≠ some '.') :
    many (afterPoint scan) (items.flatMap (fun item => '.' :: spelling item) ++ rest) =
      some (items.map value, rest) := by
  have hnone : afterPoint scan rest = none := afterPoint_eq_none hpoint
  -- The limit is the length of the text, and every piece takes a character.
  have hupTo : ∀ limit,
      (items.flatMap (fun item => '.' :: spelling item) ++ rest).length ≤ limit →
      upTo (afterPoint scan) limit (items.flatMap (fun item => '.' :: spelling item) ++ rest) =
        some (items.map value, rest) := by
    induction items with
    | nil =>
        intro limit _
        cases limit with
        | zero => rfl
        | succ limit => simp [upTo, hnone]
    | cons item items ih =>
        intro limit hlimit
        rcases List.forall_mem_cons.mp h with ⟨hitem, hitems⟩
        rw [List.flatMap_cons, List.append_assoc, List.cons_append] at hlimit ⊢
        generalize hmore : items.flatMap (fun item => '.' :: spelling item) ++ rest = more
          at hlimit ⊢
        have hend : AtWordEnd more := hmore ▸ hrest.behind spelling items
        have hfirst : afterPoint scan ('.' :: (spelling item ++ more)) =
            some (value item, more) := by
          have hliteral : literal ['.'] ('.' :: (spelling item ++ more)) =
              some ((), spelling item ++ more) := literal_append ['.'] _
          rw [afterPoint, bind_of_some hliteral, hitem more hend]
        cases limit with
        | zero => simp at hlimit
        | succ limit =>
            have hshorter : more.length ≤ limit := by
              simp only [List.length_cons, List.length_append] at hlimit
              omega
            have hrun := ih hitems limit (hmore ▸ hshorter)
            rw [hmore] at hrun
            rw [upTo, hfirst]
            simp [hrun]
  exact hupTo _ (Nat.le_refl _)

theorem namePath_append {path : NamePath}
    (h : ∀ name ∈ path.root :: path.rest, Ascii.isName name.toList = true) {c : Char}
    (hc : Ascii.isWord c = false) (hpoint : c ≠ '.') (rest : List Char) :
    namePath (path.text.toList ++ c :: rest) = some (path, c :: rest) := by
  rcases List.forall_mem_cons.mp h with ⟨hrootName, hnames⟩
  have hend : AtWordEnd (c :: rest) := atWordEnd_cons.mpr hc
  have hroot := name_eq_some_iff.mpr ⟨rfl, hrootName, hend.behind String.toList path.rest⟩
  have hmany : many (afterPoint name)
      (path.rest.flatMap (fun name => '.' :: name.toList) ++ c :: rest) =
        some (path.rest.map id, c :: rest) := by
    refine many_afterPoint_append (fun written hwritten more hmore => ?_) hend
      (by simpa using hpoint)
    exact name_eq_some_iff.mpr ⟨rfl, hnames written hwritten, hmore⟩
  rw [List.map_id] at hmany
  rw [toList_text, List.append_assoc, namePath, bind_of_some hroot, bind_of_some hmany]
  rfl

/-! ## Cutting -/

theorem wordStart_eq_none {scan : Scan α} {previous : Option Char} {text : List Char}
    (h : atWordStart previous = true → scan text = none) :
    wordStart scan previous text = none := by
  unfold wordStart
  split
  · rename_i hstart
    exact h hstart
  · rfl

theorem getLast?_cons_or (c : Char) (front : List Char) (previous : Option Char) :
    (c :: front).getLast?.or previous = front.getLast?.or (some c) := by
  rw [List.getLast?_cons]
  cases front.getLast? <;> rfl

/-- A stretch of text in which no match begins is left as it is. -/
theorem piecesFrom_append_of_none {scan : Placed α} {front rest : List Char}
    {previous : Option Char}
    (h : ∀ before c after, front = before ++ c :: after →
      scan (before.getLast?.or previous) (c :: after ++ rest) = none) :
    piecesFrom scan 0 previous (front ++ rest) =
      front.map .inl ++ piecesFrom scan 0 (front.getLast?.or previous) rest := by
  induction front generalizing previous with
  | nil => rfl
  | cons c front ih =>
      have hfirst : scan previous (c :: (front ++ rest)) = none := h [] c front rfl
      have hrest : ∀ before d after, front = before ++ d :: after →
          scan (before.getLast?.or (some c)) (d :: after ++ rest) = none := by
        intro before d after hfront
        rw [← getLast?_cons_or c before previous]
        exact h (c :: before) d after (by rw [hfront]; rfl)
      rw [List.cons_append, piecesFrom, hfirst, ih hrest, getLast?_cons_or]
      rfl

theorem pieces_eq_map_inl {scan : Placed α} {text : List Char}
    (h : ∀ before c after, text = before ++ c :: after →
      scan before.getLast? (c :: after) = none) : pieces scan text = text.map .inl := by
  have hcut : piecesFrom scan 0 none (text ++ []) =
      text.map .inl ++ piecesFrom scan 0 (text.getLast?.or none) [] := by
    apply piecesFrom_append_of_none
    intro before c after htext
    rw [Option.or_none, List.append_nil]
    exact h before c after htext
  simpa [pieces, piecesFrom] using hcut

theorem replaceAll_eq_self {scan : Placed α} {text : List Char} (replacement : List Char)
    (h : ∀ before c after, text = before ++ c :: after →
      scan before.getLast? (c :: after) = none) : replaceAll scan replacement text = text := by
  rw [replaceAll, pieces_eq_map_inl h, List.flatMap_map]
  simp

theorem findAll_eq_nil {scan : Placed α} {text : List Char}
    (h : ∀ before c after, text = before ++ c :: after →
      scan before.getLast? (c :: after) = none) : findAll scan text = [] := by
  rw [findAll, pieces_eq_map_inl h, List.filterMap_map]
  simp

theorem matchesFrom_append_of_none {scan : Placed α} {front rest : List Char}
    {previous : Option Char}
    (h : ∀ before c after, front = before ++ c :: after →
      scan (before.getLast?.or previous) (c :: after ++ rest) = none) :
    matchesFrom scan 0 previous (front ++ rest) =
      matchesFrom scan 0 (front.getLast?.or previous) rest := by
  rw [matchesFrom, piecesFrom_append_of_none h, List.filterMap_append, List.filterMap_map]
  simp [matchesFrom]

theorem piecesFrom_append_taken (scan : Placed α) (taken rest : List Char)
    (previous : Option Char) :
    piecesFrom scan taken.length previous (taken ++ rest) =
      piecesFrom scan 0 (taken.getLast?.or previous) rest := by
  induction taken generalizing previous with
  | nil => rfl
  | cons c taken ih =>
      rw [List.length_cons, List.cons_append, piecesFrom, ih, getLast?_cons_or]

theorem matchesFrom_append_taken (scan : Placed α) (taken rest : List Char)
    (previous : Option Char) :
    matchesFrom scan taken.length previous (taken ++ rest) =
      matchesFrom scan 0 (taken.getLast?.or previous) rest :=
  congrArg (List.filterMap Sum.getRight?) (piecesFrom_append_taken scan taken rest previous)

/-- If each part of a text has one match that takes it as a whole, or none that begins in it, the
matches in the text are those of its parts. -/
theorem findAll_flatMap {scan : Scan α} {text : β → List Char} {value : β → Option α}
    (hne : ∀ part, text part ≠ [])
    (hfront : ∀ part rest, scan (text part ++ rest) = (value part).map fun a => (a, rest))
    (hinside : ∀ part rest before c after, text part = before ++ c :: after → before ≠ [] →
      scan (c :: after ++ rest) = none) (parts : List β) :
    findAll (fun _ => scan) (parts.flatMap text) = parts.filterMap value := by
  have hfrom : ∀ previous, matchesFrom (fun _ => scan) 0 previous (parts.flatMap text) =
      parts.filterMap value := by
    induction parts with
    | nil => exact matchesFrom_nil _ 0
    | cons part parts ih =>
        intro previous
        rw [List.flatMap_cons]
        cases hvalue : value part with
        | some a =>
            obtain ⟨c, tail, htext⟩ := List.exists_cons_of_ne_nil (hne part)
            have hscan := hfront part (parts.flatMap text)
            rw [hvalue, htext] at hscan
            have hlength : (tail ++ parts.flatMap text).length - (parts.flatMap text).length =
                tail.length := by
              rw [List.length_append]
              omega
            rw [htext, List.cons_append, matchesFrom_of_some hscan, hlength,
              matchesFrom_append_taken, ih, List.filterMap_cons_some hvalue]
        | none =>
            rw [matchesFrom_append_of_none, ih, List.filterMap_cons_none hvalue]
            intro before c after htext
            by_cases hbefore : before = []
            · have hscan := hfront part (parts.flatMap text)
              rw [hvalue, htext, hbefore] at hscan
              exact hscan
            · exact hinside part _ before c after htext hbefore
  exact hfrom none

end TemplateShape.Scan
