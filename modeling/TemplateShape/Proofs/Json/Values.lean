import TemplateShape.Proofs.Fields
import TemplateShape.Proofs.Json.Strings

/-! # Values read back as they were written

A value without numbers reads back from its compact text, whatever stands behind it, if it is not
nested too deep. Between the tokens of such a text there are no blanks to skip. -/

namespace TemplateShape

namespace Json

/-- A value without numbers, in which no object has a key twice and containers are nested at most so
deep. -/
inductive NumberFree : (depth : Nat) → Json → Prop
  | null {depth : Nat} : NumberFree depth .null
  | bool {depth : Nat} (value : Bool) : NumberFree depth (.bool value)
  | str {depth : Nat} (text : String) : NumberFree depth (.str text)
  | arr {depth : Nat} {items : List Json} (hitems : ∀ item ∈ items, NumberFree depth item) :
      NumberFree (depth + 1) (.arr items)
  | obj {depth : Nat} {fields : Fields Json} (hdistinct : Fields.Distinct fields)
      (hfields : ∀ field ∈ fields, NumberFree depth field.2) : NumberFree (depth + 1) (.obj fields)

/-! ## Starts of texts -/

/-- A text that begins neither with a blank nor with the end of a container. -/
def Starts (text : List Char) : Prop :=
  ∃ c more, text = c :: more ∧ isSpace c = false ∧ c ≠ ']' ∧ c ≠ '}'

theorem Starts.append {text : List Char} (h : Starts text) (rest : List Char) :
    Starts (text ++ rest) := by
  rcases h with ⟨c, more, htext, hc⟩
  exact ⟨c, more ++ rest, by rw [htext, List.cons_append], hc⟩

theorem skipSpace_cons {c : Char} (h : isSpace c = false) (rest : List Char) :
    skipSpace (c :: rest) = c :: rest := by
  simp [skipSpace, h]

theorem starts_stringChars (text : String) : Starts (stringChars text) :=
  ⟨'"', _, rfl, rfl, by decide, by decide⟩

theorem NumberFree.starts {depth : Nat} {value : Json} (h : NumberFree depth value) :
    Starts value.chars := by
  cases h with
  | null => exact ⟨'n', _, rfl, rfl, by decide, by decide⟩
  | bool value =>
      cases value with
      | true => exact ⟨'t', _, rfl, rfl, by decide, by decide⟩
      | false => exact ⟨'f', _, rfl, rfl, by decide, by decide⟩
  | str text => exact starts_stringChars text
  | arr hitems => exact ⟨'[', _, rfl, rfl, by decide, by decide⟩
  | obj hdistinct hfields => exact ⟨'{', _, rfl, rfl, by decide, by decide⟩

/-! ## Pieces with commas between them -/

theorem commas_cons_cons (piece next : List Char) (pieces : List (List Char)) :
    commas (piece :: next :: pieces) = piece ++ ',' :: commas (next :: pieces) := by
  rw [commas, commas, List.intercalate_cons_cons]
  simp

theorem commas_singleton (piece : List Char) : commas [piece] = piece := by
  simp [commas]

theorem starts_commas {piece : List Char} (h : Starts piece) (pieces : List (List Char)) :
    Starts (commas (piece :: pieces)) := by
  cases pieces with
  | nil => rwa [commas_singleton]
  | cons next rest =>
      rw [commas_cons_cons]
      exact h.append _

theorem length_le_length_commas {pieces : List (List Char)} (h : ∀ piece ∈ pieces, piece ≠ []) :
    pieces.length ≤ (commas pieces).length := by
  induction pieces with
  | nil => simp
  | cons piece pieces ih =>
      have hpiece := List.length_pos_iff.mpr (h piece (by simp))
      cases pieces with
      | nil =>
          rw [commas_singleton, List.length_singleton]
          exact hpiece
      | cons next rest =>
          have hrest := ih fun other hother => h other (by simp [hother])
          simp only [commas_cons_cons, List.length_append, List.length_cons] at hrest ⊢
          omega

section Pieces

variable {α : Type}

/-- A reader takes a value from its text. -/
def ReadsBack (read : Reader α) (chars : α → List Char) (value : α) : Prop :=
  Starts (chars value) ∧ ∀ rest, read (chars value ++ rest) = .ok (value, rest)

/-- A reader takes values up to a closing character: behind the last one stands that character, and
behind any other a comma and more values. -/
structure ReadsList (readAll : (limit : Nat) → Reader (List α)) (read : Reader α) (close : Char) :
    Prop where
  last : ∀ {limit text value rest}, read text = .ok (value, close :: rest) →
    readAll (limit + 1) text = .ok ([value], rest)
  more : ∀ {limit text value behind values rest}, read text = .ok (value, ',' :: behind) →
    Starts behind → readAll limit behind = .ok (values, rest) →
    readAll (limit + 1) text = .ok (value :: values, rest)

variable {readAll : (limit : Nat) → Reader (List α)} {read : Reader α} {close : Char}

/-- Pieces with commas between them read back one after the other. -/
theorem ReadsList.commas (h : ReadsList readAll read close) {chars : α → List Char} {value : α} {values : List α}
    (hvalues : ∀ other ∈ value :: values, ReadsBack read chars other) (rest : List Char)
    {limit : Nat} (hlimit : values.length < limit) :
    readAll limit (Json.commas ((value :: values).map chars) ++ close :: rest) =
      .ok (value :: values, rest) := by
  induction values generalizing value limit with
  | nil =>
      cases limit with
      | zero => simp at hlimit
      | succ limit =>
          rw [List.map_cons, List.map_nil, commas_singleton]
          exact h.last ((hvalues value (by simp)).2 (close :: rest))
  | cons next values ih =>
      cases limit with
      | zero => simp at hlimit
      | succ limit =>
          have hrest : ∀ other ∈ next :: values, ReadsBack read chars other :=
            fun other hother => hvalues other (List.mem_cons_of_mem value hother)
          have hnext := ih hrest (by simpa using hlimit)
          have hstarts : Starts (Json.commas ((next :: values).map chars) ++ close :: rest) :=
            (starts_commas (hvalues next (by simp)).1 _).append _
          rw [List.map_cons, List.map_cons, commas_cons_cons, List.append_assoc]
          exact h.more ((hvalues value (by simp)).2 _) hstarts hnext

/-- The length of the text is limit enough. -/
theorem ReadsList.text (h : ReadsList readAll read close) {chars : α → List Char} {value : α} {values : List α}
    (hvalues : ∀ other ∈ value :: values, ReadsBack read chars other) (rest : List Char) :
    ∃ c more, Json.commas ((value :: values).map chars) ++ close :: rest = c :: more ∧
      isSpace c = false ∧ c ≠ ']' ∧ c ≠ '}' ∧
      readAll (c :: more).length (c :: more) = .ok (value :: values, rest) := by
  have hstarts : Starts (Json.commas ((value :: values).map chars) ++ close :: rest) :=
    (starts_commas (hvalues value (by simp)).1 _).append _
  have hpieces : ∀ piece ∈ (value :: values).map chars, piece ≠ [] := by
    intro piece hpiece
    rcases List.mem_map.mp hpiece with ⟨other, hother, heq⟩
    rcases (hvalues other hother).1 with ⟨c, more, htext, -⟩
    simp [← heq, htext]
  have hlength := length_le_length_commas hpieces
  rw [List.length_map, List.length_cons] at hlength
  rcases hstarts with ⟨c, more, htext, hspace, hbracket, hbrace⟩
  refine ⟨c, more, htext, hspace, hbracket, hbrace, ?_⟩
  rw [← htext]
  apply h.commas hvalues
  rw [List.length_append]
  omega

end Pieces

/-! ## Arrays and objects -/

variable {read : Reader Json}

theorem readsList_readItems : ReadsList (readItems read) read ']' where
  last := by
    intro limit text value rest hread
    rw [readItems, bind_of_ok hread]
    rfl
  more := by
    intro limit text value behind values rest hread hstarts hmore
    rcases hstarts with ⟨c, more, hbehind, hspace, hbracket, -⟩
    subst hbehind
    rw [readItems, bind_of_ok hread]
    simp only [skipSpace_cons (by decide : isSpace ',' = false), skipSpace_cons hspace]
    split
    · rename_i heq
      simp at heq
    · rename_i heq
      exact absurd (List.cons.inj heq).1 hbracket
    · exact bind_of_ok hmore

theorem readsList_readFields : ReadsList (readFields read) (readField read) '}' where
  last := by
    intro limit text field rest hread
    rw [readFields, bind_of_ok hread]
    rfl
  more := by
    intro limit text field behind fields rest hread hstarts hmore
    rcases hstarts with ⟨c, more, hbehind, hspace, -, hbrace⟩
    subst hbehind
    rw [readFields, bind_of_ok hread]
    simp only [skipSpace_cons (by decide : isSpace ',' = false), skipSpace_cons hspace]
    split
    · rename_i heq
      simp at heq
    · rename_i heq
      exact absurd (List.cons.inj heq).1 hbrace
    · exact bind_of_ok hmore

theorem readArray_chars {items : List Json} (h : ∀ item ∈ items, ReadsBack read chars item)
    (rest : List Char) :
    readArray read (commas (itemChars items) ++ ']' :: rest) = .ok (.arr items, rest) := by
  rw [itemChars_eq_map]
  cases items with
  | nil => rfl
  | cons item items =>
      rcases readsList_readItems.text h rest with ⟨c, more, htext, hspace, hbracket, -, hitems⟩
      rw [htext, readArray, skipSpace_cons hspace]
      split
      · rename_i heq
        simp at heq
      · rename_i heq
        exact absurd (List.cons.inj heq).1 hbracket
      · rw [hitems]
        rfl

theorem readsBack_readField {field : String × Json} (h : ReadsBack read chars field.2) :
    ReadsBack (readField read) (fun (key, value) => stringChars key ++ ':' :: value.chars)
      field := by
  rcases field with ⟨key, value⟩
  constructor
  · exact (starts_stringChars key).append _
  · intro rest
    have hkey := readString_escaped key (':' :: (value.chars ++ rest))
    have hvalue := h.2 rest
    have htext : stringChars key ++ ':' :: value.chars ++ rest =
        '"' :: (key.toList.flatMap escapeChar ++ '"' :: ':' :: (value.chars ++ rest)) := by
      simp [stringChars]
    change readField read (stringChars key ++ ':' :: value.chars ++ rest) = .ok ((key, value), rest)
    rw [htext, readField, bind_of_ok hkey]
    simp only [skipSpace_cons (by decide : isSpace ':' = false)]
    exact bind_of_ok hvalue

theorem readObject_chars {fields : Fields Json} (hdistinct : Fields.Distinct fields)
    (h : ∀ field ∈ fields, ReadsBack read chars field.2) (rest : List Char) :
    readObject read (commas (fieldChars fields) ++ '}' :: rest) = .ok (.obj fields, rest) := by
  rw [fieldChars_eq_map]
  cases fields with
  | nil => rfl
  | cons field fields =>
      have hfields : ∀ other ∈ field :: fields, ReadsBack (readField read)
          (fun (key, value) => stringChars key ++ ':' :: value.chars) other :=
        fun other hother => readsBack_readField (h other hother)
      rcases readsList_readFields.text hfields rest with
        ⟨c, more, htext, hspace, -, hbrace, hread⟩
      rw [htext, readObject, skipSpace_cons hspace]
      split
      · rename_i heq
        simp at heq
      · rename_i heq
        exact absurd (List.cons.inj heq).1 hbrace
      · rw [hread]
        exact congrArg (fun fields => Except.ok (Json.obj fields, rest))
          hdistinct.ofList_eq

/-! ## Values -/

/-- Every depth has some reader for what is inside. -/
theorem exists_readValue_eq (depth : Nat) : ∃ item?, readValue depth = readValueWith item? := by
  cases depth with
  | zero => exact ⟨none, rfl⟩
  | succ depth => exact ⟨some (readValue depth), rfl⟩

theorem NumberFree.readValue_chars {depth : Nat} {value : Json} (h : NumberFree depth value)
    (rest : List Char) : readValue depth (value.chars ++ rest) = .ok (value, rest) := by
  induction h generalizing rest with
  | @null depth =>
      rcases exists_readValue_eq depth with ⟨item?, hread⟩
      rw [hread]
      rfl
  | @bool depth value =>
      rcases exists_readValue_eq depth with ⟨item?, hread⟩
      rw [hread]
      cases value with
      | true => rfl
      | false => rfl
  | @str depth text =>
      rcases exists_readValue_eq depth with ⟨item?, hread⟩
      have htext : (Json.str text).chars ++ rest =
          '"' :: (text.toList.flatMap escapeChar ++ '"' :: rest) := by
        simp [chars, stringChars]
      rw [hread, htext]
      change (readString (text.toList.flatMap escapeChar ++ '"' :: rest)).map _ = _
      rw [readString_escaped]
      rfl
  | @arr depth items hitems ih =>
      have htext : (Json.arr items).chars ++ rest =
          '[' :: (commas (itemChars items) ++ ']' :: rest) := by
        simp [chars]
      rw [htext]
      exact readArray_chars (fun item hitem => ⟨(hitems item hitem).starts, ih item hitem⟩) rest
  | @obj depth fields hdistinct hfields ih =>
      have htext : (Json.obj fields).chars ++ rest =
          '{' :: (commas (fieldChars fields) ++ '}' :: rest) := by
        simp [chars]
      rw [htext]
      exact readObject_chars hdistinct
        (fun field hfield => ⟨(hfields field hfield).starts, ih field hfield⟩) rest

/-- A value that is nested no deeper than a reader goes is what its compact text stands for. -/
theorem NumberFree.parse_render {value : Json} (h : NumberFree maxDepth value) :
    parse value.render = .ok value := by
  have hread := h.readValue_chars []
  rw [List.append_nil] at hread
  have hdocument : readDocument value.chars = .ok value := by
    rw [readDocument, bind_of_ok hread]
    rfl
  rw [parse, render, String.toList_ofList, hdocument]
  rfl

end Json

end TemplateShape
