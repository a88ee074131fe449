import TemplateShape.Proofs.Form.Lens

/-! # What a write under a dotted name leaves alone

The parts of a dotted name lead through objects and arrays for as long as they find something. At
every place on this way a write touches nothing but what the next part leads to: an object keeps its
other keys, and an array its other items. An array that meets a part which spells no index is lost. -/

namespace TemplateShape

namespace Json

def child? (step : Step) (value : Json) : Option Json :=
  match step, value with
  | .key name, .obj fields => Fields.find? fields name
  | .index i, .arr items => items[i]?
  | _, _ => none

def walk? (value : Json) : (address : List Step) → Option Json
  | [] => some value
  | step :: rest => (value.child? step).bind (walk? · rest)

theorem walk?_cons (value : Json) (step : Step) (rest : List Step) :
    value.walk? (step :: rest) = (value.child? step).bind (walk? · rest) := rfl

theorem walk?_append (value : Json) (front rest : List Step) :
    value.walk? (front ++ rest) = (value.walk? front).bind (walk? · rest) := by
  induction front generalizing value with
  | nil => rfl
  | cons step front ih =>
      rw [List.cons_append, walk?_cons, walk?_cons, Option.bind_assoc]
      simp only [ih]

end Json

namespace Form

/-! ## The way of a write -/

/-- The step by which a part goes on from a value: by a key from an object, and by the index that it
spells from an array. It does not go on from any other value. -/
def stepFrom? (value : Json) (part : String) : Option Step :=
  match value with
  | .obj _ => some (.key part)
  | .arr _ => (index? part).map .index
  | _ => none

/-- Parts lead from a value along an address to a place that is there. -/
inductive Route : Json → List String → List Step → Json → Prop
  | here (value : Json) : Route value [] [] value
  | step {value inner place : Json} {part : String} {parts : List String} {step : Step}
      {address : List Step} (hstep : stepFrom? value part = some step)
      (hinner : value.child? step = some inner) (hrest : Route inner parts address place) :
      Route value (part :: parts) (step :: address) place

theorem stepFrom?_cases {value : Json} {part : String} {step : Step}
    (h : stepFrom? value part = some step) :
    (∃ fields, value = .obj fields ∧ step = .key part) ∨
      ∃ items i, value = .arr items ∧ index? part = some i ∧ step = .index i := by
  cases value with
  | obj fields => exact .inl ⟨fields, rfl, (Option.some.inj h).symm⟩
  | arr items =>
      obtain ⟨i, hindex, hstep⟩ := Option.map_eq_some_iff.mp h
      exact .inr ⟨items, i, rfl, hindex, hstep.symm⟩
  | null | bool value | num value | str text => cases h

/-- Where a part goes on, the write goes on with the other parts. -/
theorem child?_placeAt_self {value inner : Json} {part : String} {step : Step}
    (hstep : stepFrom? value part = some step) (hinner : value.child? step = some inner)
    (leaf : Json) (rest : List String) :
    (placeAt leaf (part :: rest) value).child? step = some (placeAt leaf rest inner) := by
  rcases stepFrom?_cases hstep with ⟨fields, rfl, rfl⟩ | ⟨items, i, rfl, hindex, rfl⟩
  · have hfind : Fields.find? fields part = some inner := hinner
    rw [placeAt_obj, Json.child?, Fields.find?_alter, if_pos rfl, hfind]
    rfl
  · have hitem : items[i]? = some inner := hinner
    rw [placeAt_arr hindex, Json.child?, getElem?_rightpad_modify, if_pos rfl, hitem]
    rfl

theorem child?_placeAt_of_ne {value inner : Json} {part : String} {step other : Step}
    (hstep : stepFrom? value part = some step) (hne : other ≠ step)
    (hinner : value.child? other = some inner) (leaf : Json) (rest : List String) :
    (placeAt leaf (part :: rest) value).child? other = some inner := by
  rcases stepFrom?_cases hstep with ⟨fields, rfl, rfl⟩ | ⟨items, i, rfl, hindex, rfl⟩
  · cases other with
    | index j => cases hinner
    | key name =>
        have hname : name ≠ part := fun heq => hne (congrArg Step.key heq)
        rw [placeAt_obj, Json.child?, Fields.find?_alter, if_neg hname]
        exact hinner
  · cases other with
    | key name => cases hinner
    | index j =>
        have hj : j ≠ i := fun heq => hne (congrArg Step.index heq)
        have hitem : items[j]? = some inner := hinner
        have hlt : j < items.length := (List.getElem?_eq_some_iff.mp hitem).1
        rw [placeAt_arr hindex, Json.child?, getElem?_rightpad_modify, if_neg hj, if_pos hlt]
        exact hitem

namespace Route

variable {value place : Json} {front : List String} {address : List Step}

theorem walk?_eq (h : Route value front address place) : value.walk? address = some place := by
  induction h with
  | here value => rfl
  | step hstep hinner hrest ih =>
      rw [Json.walk?_cons, hinner]
      exact ih

/-- At a place on its way, a write is the write along the rest of its parts. -/
theorem walk?_placeAt (h : Route value front address place) (leaf : Json) (rest : List String) :
    (placeAt leaf (front ++ rest) value).walk? address = some (placeAt leaf rest place) := by
  induction h with
  | here value => rfl
  | step hstep hinner hrest ih =>
      rw [List.cons_append, Json.walk?_cons, child?_placeAt_self hstep hinner]
      exact ih

end Route

theorem walk?_setValue {values : Fields Json} {name : String} {front rest : List String}
    {address : List Step} {place : Json} (hparts : parts name = front ++ rest)
    (hroute : Route (.obj values) front address place) (leaf : Json) :
    (Json.obj (setValue values name leaf)).walk? address = some (placeAt leaf rest place) := by
  rw [obj_setValue, hparts]
  exact hroute.walk?_placeAt leaf rest

/-- A write under a dotted name leaves alone what is not on its way. Take any place on the way from
which a part is still to go on. A value whose address leaves the way there, by another key of an
object or by another index of an array, stays at its address. An object keeps its keys in their
order and gets at most one more, at the end. An array grows up to the index that is written, and
what is new in it besides is null. -/
theorem other_values_stay (values : Fields Json) (name : String) (leaf : Json)
    {front rest : List String} {part : String} (hparts : parts name = front ++ part :: rest)
    {address : List Step} {place : Json} (hroute : Route (.obj values) front address place) :
    (∀ step, stepFrom? place part = some step → ∀ other, other ≠ step → ∀ more value,
      (Json.obj values).walk? (address ++ other :: more) = some value →
        (Json.obj (setValue values name leaf)).walk? (address ++ other :: more) = some value) ∧
    (∀ fields, place = .obj fields → ∃ after,
      (Json.obj (setValue values name leaf)).walk? address = some (.obj after) ∧
        Fields.names after = if part ∈ Fields.names fields then Fields.names fields
          else Fields.names fields ++ [part]) ∧
    ∀ items i, place = .arr items → index? part = some i → ∃ after,
      (Json.obj (setValue values name leaf)).walk? address = some (.arr after) ∧
        after.length = max items.length (i + 1) ∧
        ∀ j, items.length ≤ j → j < after.length → j ≠ i → after[j]? = some .null := by
  have hplace := walk?_setValue hparts hroute leaf
  refine ⟨?_, ?_, ?_⟩
  · intro step hstep other hne more value hvalue
    rw [Json.walk?_append, hroute.walk?_eq, Option.bind_some, Json.walk?_cons] at hvalue
    obtain ⟨inner, hinner, hmore⟩ := Option.bind_eq_some_iff.mp hvalue
    rw [Json.walk?_append, hplace, Option.bind_some, Json.walk?_cons,
      child?_placeAt_of_ne hstep hne hinner]
    exact hmore
  · rintro fields rfl
    exact ⟨_, hplace.trans (by rw [placeAt_obj]), Fields.names_alter part .null _ fields⟩
  · rintro items i rfl hindex
    exact ⟨_, hplace.trans (by rw [placeAt_arr hindex]), length_rightpad_modify items i .null _,
      fun j hlow hhigh hne => getElem?_rightpad_modify_of_le hlow hhigh hne⟩

/-- The list `rows` is filled up to its item 3, and what its first item holds stays there. -/
theorem other_values_stay_in_list :
    parts "rows.3.id" = ["rows"] ++ "3" :: ["id"] ∧
    Route (.obj [("rows", .arr [.obj [("id", .bool true)]]), ("note", .null)]) ["rows"]
      [.key "rows"] (.arr [.obj [("id", .bool true)]]) ∧
    (Json.obj (setValue [("rows", .arr [.obj [("id", .bool true)]]), ("note", .null)] "rows.3.id"
      (.str "x"))).walk? [.key "rows", .index 0, .key "id"] = some (.bool true) ∧
    ∃ after, (Json.obj (setValue [("rows", .arr [.obj [("id", .bool true)]]), ("note", .null)]
        "rows.3.id" (.str "x"))).walk? [.key "rows"] = some (.arr after) ∧
      after.length = 4 ∧ after[2]? = some .null := by
  have hparts : parts "rows.3.id" = ["rows"] ++ "3" :: ["id"] := by decide
  have hroute : Route (.obj [("rows", .arr [.obj [("id", .bool true)]]), ("note", .null)]) ["rows"]
      [.key "rows"] (.arr [.obj [("id", .bool true)]]) := .step rfl rfl (.here _)
  have hstay := other_values_stay _ "rows.3.id" (.str "x") hparts hroute
  refine ⟨hparts, hroute, hstay.1 (.index 3) rfl (.index 0) (by decide) [.key "id"] _ rfl, ?_⟩
  obtain ⟨after, hafter, hlength, hfilled⟩ := hstay.2.2 _ 3 rfl (by decide)
  exact ⟨after, hafter, hlength, hfilled 2 (by decide) (by rw [hlength]; decide) (by decide)⟩

/-! ## Indices -/

/-- A part spells an index: behind a plus sign, which may be missing, it has ASCII digits, at least
one, and their number fits a word. -/
def Spells (part : String) (i : Nat) : Prop :=
  ∃ digits, (part.toList = digits ∨ part.toList = '+' :: digits) ∧ digits ≠ [] ∧
    (∀ c ∈ digits, c.isDigit = true) ∧ Decimal.ofDigits digits = i ∧ i < Word.unsignedBound

theorem afterPlus_eq_or (text : List Char) :
    text = afterPlus text ∨ text = '+' :: afterPlus text := by
  unfold afterPlus
  split
  · exact .inr rfl
  · exact .inl rfl

theorem afterPlus_of_digits {digits : List Char} (h : ∀ c ∈ digits, c.isDigit = true) :
    afterPlus digits = digits := by
  rcases afterPlus_eq_or digits with heq | heq
  · exact heq.symm
  · have hplus := h '+' (heq ▸ List.mem_cons_self)
    exact absurd hplus (by decide)

theorem index?_eq_some_iff {part : String} {i : Nat} : index? part = some i ↔ Spells part i := by
  constructor
  · intro h
    simp only [index?] at h
    split at h
    · cases h
    · rename_i hdigits
      simp only [Bool.or_eq_true, not_or, List.isEmpty_iff, Bool.not_eq_true, Bool.not_eq_false',
        List.all_eq_true] at hdigits
      split at h
      · rename_i hbound
        obtain rfl := Option.some.inj h
        exact ⟨_, afterPlus_eq_or part.toList, hdigits.1, hdigits.2, rfl, hbound⟩
      · cases h
  · rintro ⟨digits, hpart, hne, hdigits, rfl, hbound⟩
    have hafter : afterPlus part.toList = digits := by
      rcases hpart with hpart | hpart
      · rw [hpart, afterPlus_of_digits hdigits]
      · rw [hpart]
        rfl
    have hall : digits.all Char.isDigit = true := List.all_eq_true.mpr hdigits
    simp [index?, hafter, hne, hall, hbound]

/-! ## Lists -/

/-- A value is a list that has all items of another in their places, apart from the one at an
index. -/
def KeepsOthers (items : List Json) (i : Nat) (value : Json) : Prop :=
  ∃ after, value = .arr after ∧ ∀ j, j ≠ i → j < items.length → after[j]? = items[j]?

theorem keepsOthers_placeAt {part : String} {i : Nat} (h : index? part = some i) (leaf : Json)
    (rest : List String) (items : List Json) :
    KeepsOthers items i (placeAt leaf (part :: rest) (.arr items)) := by
  refine ⟨_, placeAt_arr h leaf rest items, ?_⟩
  intro j hne hlt
  rw [getElem?_rightpad_modify, if_neg hne, if_pos hlt]

theorem placeAt_arr_of_none {part : String} (h : index? part = none) (leaf : Json)
    (rest : List String) (items : List Json) :
    placeAt leaf (part :: rest) (.arr items) = .obj [(part, placeAt leaf rest .null)] := by
  simp only [placeAt, h]

/-- A list that a write under a name meets on its way, and that has to reach up to an index, gets a
length that fits a word. -/
def LengthsFit (values : Fields Json) (name : String) : Prop :=
  ∀ front part rest address items i, parts name = front ++ part :: rest →
    Route (.obj values) front address (.arr items) → Spells part i → i + 1 < Word.unsignedBound

theorem lengthsFit_of_parts {values : Fields Json} {name : String}
    (h : ∀ part ∈ parts name, ∀ i ∈ index? part, i + 1 < Word.unsignedBound) :
    LengthsFit values name := by
  intro front part rest address items i hparts _ hspells
  exact h part (by simp [hparts]) i (index?_eq_some_iff.mpr hspells)

/-- A list that a write meets on its way, with a part still to go on, stays a list exactly if the
part spells an index. Then all other items stay in place. The index whose successor no word holds is
left out, for no list reaches up to it. For a part that spells no index the list makes way for an
object that has this key alone. -/
theorem list_stays_iff (values : Fields Json) (name : String) (leaf : Json)
    {front rest : List String} {part : String} (hparts : parts name = front ++ part :: rest)
    {address : List Step} {items : List Json}
    (hroute : Route (.obj values) front address (.arr items)) :
    (LengthsFit values name →
      ((∃ after, (Json.obj (setValue values name leaf)).walk? address = some (.arr after)) ↔
        ∃ i, Spells part i ∧ i + 1 < Word.unsignedBound) ∧
      ∀ i, Spells part i → ∃ value,
        (Json.obj (setValue values name leaf)).walk? address = some value ∧
          KeepsOthers items i value) ∧
    ((¬ ∃ i, Spells part i) → ∃ inner,
      (Json.obj (setValue values name leaf)).walk? address = some (.obj [(part, inner)])) := by
  have hplace := walk?_setValue hparts hroute leaf
  have hlost : (¬ ∃ i, Spells part i) → (Json.obj (setValue values name leaf)).walk? address =
      some (.obj [(part, placeAt leaf rest .null)]) := by
    intro hnot
    have hnone : index? part = none :=
      Option.eq_none_iff_forall_ne_some.mpr fun i hi => hnot ⟨i, index?_eq_some_iff.mp hi⟩
    rw [hplace, placeAt_arr_of_none hnone]
  refine ⟨fun hlengths => ⟨⟨?_, ?_⟩, ?_⟩, fun hnot => ⟨_, hlost hnot⟩⟩
  · rintro ⟨after, hafter⟩
    by_cases hspelled : ∃ i, Spells part i
    · obtain ⟨i, hspells⟩ := hspelled
      exact ⟨i, hspells, hlengths _ _ _ _ _ _ hparts hroute hspells⟩
    · rw [hlost hspelled] at hafter
      cases hafter
  · rintro ⟨i, hspells, -⟩
    exact ⟨_, hplace.trans (by rw [placeAt_arr (index?_eq_some_iff.mpr hspells)])⟩
  · intro i hspells
    exact ⟨_, hplace, keepsOthers_placeAt (index?_eq_some_iff.mpr hspells) leaf rest items⟩

/-- The part `01` spells an index, and the part `first` makes way for itself. -/
theorem list_stays_iff_number :
    parts "rows.01" = ["rows"] ++ "01" :: [] ∧ parts "rows.first" = ["rows"] ++ "first" :: [] ∧
    Route (.obj [("rows", .arr [.str "a", .str "b"])]) ["rows"] [.key "rows"]
      (.arr [.str "a", .str "b"]) ∧
    LengthsFit [("rows", .arr [.str "a", .str "b"])] "rows.01" ∧
    (∃ value, (Json.obj (setValue [("rows", .arr [.str "a", .str "b"])] "rows.01"
        (.str "c"))).walk? [.key "rows"] = some value ∧
      KeepsOthers [.str "a", .str "b"] 1 value) ∧
    ∃ inner, (Json.obj (setValue [("rows", .arr [.str "a", .str "b"])] "rows.first"
      (.str "c"))).walk? [.key "rows"] = some (.obj [("first", inner)]) := by
  have hnumber : parts "rows.01" = ["rows"] ++ "01" :: [] := by decide
  have hword : parts "rows.first" = ["rows"] ++ "first" :: [] := by decide
  have hroute : Route (.obj [("rows", .arr [.str "a", .str "b"])]) ["rows"] [.key "rows"]
      (.arr [.str "a", .str "b"]) := .step rfl rfl (.here _)
  have hlengths : LengthsFit [("rows", .arr [.str "a", .str "b"])] "rows.01" :=
    lengthsFit_of_parts (by decide)
  have hspells : Spells "01" 1 := index?_eq_some_iff.mp (by decide)
  have hnone : index? "first" = none := by decide
  have hnot : ¬ ∃ i, Spells "first" i := by
    rintro ⟨i, hspells⟩
    rw [← index?_eq_some_iff, hnone] at hspells
    cases hspells
  exact ⟨hnumber, hword, hroute, hlengths,
    ((list_stays_iff _ _ (.str "c") hnumber hroute).1 hlengths).2 1 hspells,
    (list_stays_iff _ _ (.str "c") hword hroute).2 hnot⟩

/-- A part is a number in decimal digits, of any size. -/
def IsDecimal (part : String) : Prop :=
  part.toList ≠ [] ∧ ∀ c ∈ part.toList, c.isDigit = true

/-- It is not just the decimal numbers that spare a list. The part `+1` leads to an item, and the
first number that no word can hold makes way for an object. -/
theorem not_just_decimals_spare_lists :
    (¬ ∀ (values : Fields Json) (name : String) (leaf : Json) (front rest : List String)
        (part : String) (address : List Step) (items : List Json),
      parts name = front ++ part :: rest → Route (.obj values) front address (.arr items) →
      (∃ i value, (Json.obj (setValue values name leaf)).walk? address = some value ∧
        KeepsOthers items i value) → IsDecimal part) ∧
    ¬ ∀ (values : Fields Json) (name : String) (leaf : Json) (front rest : List String)
        (part : String) (address : List Step) (items : List Json),
      parts name = front ++ part :: rest → Route (.obj values) front address (.arr items) →
      IsDecimal part →
        ∃ i value, (Json.obj (setValue values name leaf)).walk? address = some value ∧
          KeepsOthers items i value := by
  have hroute : Route (.obj [("rows", .arr [.str "a", .str "b"])]) ["rows"] [.key "rows"]
      (.arr [.str "a", .str "b"]) := .step rfl rfl (.here _)
  constructor
  · intro hall
    have hparts : parts "rows.+1" = ["rows"] ++ "+1" :: [] := by decide
    have hkept : KeepsOthers [.str "a", .str "b"] 1
        (placeAt (.str "c") ["+1"] (.arr [.str "a", .str "b"])) :=
      keepsOthers_placeAt (by decide) _ _ _
    have hdecimal := hall _ _ (.str "c") _ _ _ _ _ hparts hroute
      ⟨1, _, walk?_setValue hparts hroute _, hkept⟩
    exact absurd (hdecimal.2 '+' (by decide)) (by decide)
  · intro hall
    have hparts : parts "rows.18446744073709551616" =
        ["rows"] ++ "18446744073709551616" :: [] := by decide
    have hdecimal : IsDecimal "18446744073709551616" :=
      ⟨by decide, List.all_eq_true.mp (by decide)⟩
    have hnone : index? "18446744073709551616" = none := by decide
    obtain ⟨i, value, hvalue, after, rfl, -⟩ :=
      hall _ _ (.str "c") _ _ _ _ _ hparts hroute hdecimal
    rw [walk?_setValue hparts hroute, placeAt_arr_of_none hnone] at hvalue
    cases hvalue

end Form

end TemplateShape
