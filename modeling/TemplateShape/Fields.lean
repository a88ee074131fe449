/-! # Named fields in the order they were first written

A list of pairs with distinct names. A field keeps its place when it is written again, and a new
one goes to the end. -/

namespace TemplateShape

/-- Values by name, oldest name first. -/
abbrev Fields (α : Type) := List (String × α)

namespace Fields

variable {α : Type}

def names (fields : Fields α) : List String :=
  fields.map Prod.fst

def find? (fields : Fields α) (name : String) : Option α :=
  fields.lookup name

def contains (fields : Fields α) (name : String) : Bool :=
  fields.any (·.1 == name)

/-- Applies `f` to the value under `name`; a missing name is added at the end with `f fresh`. -/
def alter (name : String) (fresh : α) (f : α → α) : Fields α → Fields α
  | [] => [(name, f fresh)]
  | (key, value) :: rest =>
      if key == name then (key, f value) :: rest else (key, value) :: alter name fresh f rest

def insert (fields : Fields α) (name : String) (value : α) : Fields α :=
  alter name value (fun _ => value) fields

/-- The fields that writing the pairs in turn gives: a repeated name keeps its first place and
takes its last value. -/
def ofList (pairs : List (String × α)) : Fields α :=
  pairs.foldl (fun fields (name, value) => insert fields name value) []

def Distinct (fields : Fields α) : Prop :=
  (names fields).Nodup

instance (fields : Fields α) : Decidable (Distinct fields) :=
  inferInstanceAs (Decidable (names fields).Nodup)

@[simp] theorem alter_nil (name : String) (fresh : α) (f : α → α) :
    alter name fresh f [] = [(name, f fresh)] := rfl

theorem alter_cons (name : String) (fresh : α) (f : α → α) (key : String) (value : α)
    (rest : Fields α) :
    alter name fresh f ((key, value) :: rest) =
      if key == name then (key, f value) :: rest
      else (key, value) :: alter name fresh f rest := rfl

/-- Names stay in place, and a new one is appended. -/
theorem names_alter (name : String) (fresh : α) (f : α → α) (fields : Fields α) :
    names (alter name fresh f fields) =
      if name ∈ names fields then names fields else names fields ++ [name] := by
  induction fields with
  | nil => simp [names]
  | cons field rest ih =>
      obtain ⟨key, value⟩ := field
      rw [alter_cons]
      by_cases h : key = name
      · subst h
        simp [names]
      · have h' : ¬ name = key := fun e => h e.symm
        simp only [names] at ih
        by_cases hm : name ∈ List.map Prod.fst rest
        · simp [names, h, h', hm] at ih ⊢
          exact ih
        · simp [names, h, h', hm] at ih ⊢
          exact ih

theorem Distinct.alter {fields : Fields α} (h : Distinct fields) (name : String) (fresh : α)
    (f : α → α) : Distinct (Fields.alter name fresh f fields) := by
  unfold Distinct at h ⊢
  rw [names_alter]
  split
  · exact h
  · rename_i hm
    refine List.nodup_append.mpr ⟨h, by simp, ?_⟩
    intro a ha b hb
    simp only [List.mem_singleton] at hb
    subst hb
    exact fun e => hm (e ▸ ha)

theorem distinct_ofList (pairs : List (String × α)) : Distinct (ofList pairs) := by
  have step : ∀ (pairs : List (String × α)) (fields : Fields α), Distinct fields →
      Distinct (pairs.foldl (fun fields (name, value) => insert fields name value) fields) := by
    intro pairs
    induction pairs with
    | nil => exact fun _ h => h
    | cons pair rest ih => exact fun fields h => ih _ (h.alter _ _ _)
  exact step pairs [] (by simp [Distinct, names])

theorem find?_cons (key : String) (value : α) (rest : Fields α) (name : String) :
    find? ((key, value) :: rest) name = if name = key then some value else find? rest name := by
  by_cases h : name = key
  · simp [find?, h]
  · have hbeq : (name == key) = false := by simp [h]
    simp [find?, List.lookup_cons, h, hbeq]

/-- Reading after writing: the written name has the new value, every other name its old one. -/
theorem find?_alter (name key : String) (fresh : α) (f : α → α) (fields : Fields α) :
    find? (alter name fresh f fields) key =
      if key = name then some (f ((find? fields name).getD fresh)) else find? fields key := by
  induction fields with
  | nil =>
      rw [alter_nil, find?_cons]
      rfl
  | cons field rest ih =>
      obtain ⟨k, value⟩ := field
      rw [alter_cons]
      by_cases hk : k = name
      · subst hk
        by_cases h : key = k
        · simp [find?_cons, h]
        · simp [find?_cons, h]
      · have hname : ¬ name = k := fun e => hk e.symm
        by_cases h : key = k
        · subst h
          simp [find?_cons, hk]
        · simp [find?_cons, hk, hname, h, ih]

end Fields

end TemplateShape
