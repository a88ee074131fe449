import Mathlib.Data.List.Nodup
import TemplateShape.Fields

/-! # Laws of named fields -/

namespace TemplateShape

namespace Fields

variable {α : Type}

theorem names_prefix_alter (name : String) (fresh : α) (f : α → α) (fields : Fields α) :
    names fields <+: names (alter name fresh f fields) := by
  rw [names_alter]
  split
  · exact List.prefix_rfl
  · exact List.prefix_append _ _

theorem alter_eq_self {fields : Fields α} {name : String} {value : α} {f : α → α}
    (h : find? fields name = some value) (hf : f value = value) (fresh : α) :
    alter name fresh f fields = fields := by
  induction fields with
  | nil => simp [find?] at h
  | cons field rest ih =>
      rcases field with ⟨key, other⟩
      rw [find?_cons] at h
      rw [alter_cons]
      by_cases hkey : name = key
      · have hvalue : other = value := by simpa [hkey] using h
        simp [hkey, hvalue, hf]
      · have hname : ¬ key = name := fun heq => hkey heq.symm
        have hrest : find? rest name = some value := by simpa [hkey] using h
        simp [hname, ih hrest]

theorem find?_of_alter_eq_self {fields : Fields α} {name : String} {fresh : α} {f : α → α}
    (h : alter name fresh f fields = fields) :
    find? fields name = some (f ((find? fields name).getD fresh)) := by
  have hafter := find?_alter name name fresh f fields
  rwa [h, if_pos rfl] at hafter

/-- A field behind a write was there before, or it is the one that was written. -/
theorem mem_alter {fields : Fields α} {name : String} {fresh : α} {f : α → α}
    {field : String × α} (h : field ∈ alter name fresh f fields) :
    field ∈ fields ∨ field.1 = name ∧
      (field.2 = f fresh ∨ ∃ old, (name, old) ∈ fields ∧ field.2 = f old) := by
  induction fields with
  | nil =>
      obtain rfl := List.mem_singleton.mp h
      exact .inr ⟨rfl, .inl rfl⟩
  | cons other rest ih =>
      obtain ⟨key, value⟩ := other
      rw [alter_cons] at h
      split at h
      · rename_i hkey
        obtain rfl : key = name := by simpa using hkey
        rcases List.mem_cons.mp h with rfl | hrest
        · exact .inr ⟨rfl, .inr ⟨value, List.mem_cons_self, rfl⟩⟩
        · exact .inl (List.mem_cons_of_mem _ hrest)
      · rcases List.mem_cons.mp h with rfl | hrest
        · exact .inl List.mem_cons_self
        · rcases ih hrest with hold | ⟨hname, hnew | ⟨old, hold, hvalue⟩⟩
          · exact .inl (List.mem_cons_of_mem _ hold)
          · exact .inr ⟨hname, .inl hnew⟩
          · exact .inr ⟨hname, .inr ⟨old, List.mem_cons_of_mem _ hold, hvalue⟩⟩

/-- Only what becomes of the value under the name matters, or of the new one. -/
theorem alter_congr {fields : Fields α} {name : String} {fresh other : α} {f g : α → α}
    (hfresh : f fresh = g other) (h : ∀ value, find? fields name = some value → f value = g value) :
    alter name fresh f fields = alter name other g fields := by
  induction fields with
  | nil => rw [alter_nil, alter_nil, hfresh]
  | cons field rest ih =>
      rcases field with ⟨key, value⟩
      simp only [find?_cons] at h
      rw [alter_cons, alter_cons]
      by_cases hkey : name = key
      · have hvalue : f value = g value := h value (by simp [hkey])
        simp [hkey, hvalue]
      · have hname : ¬ key = name := fun heq => hkey heq.symm
        have hrest : alter name fresh f rest = alter name other g rest :=
          ih fun old hold => h old (by simpa [hkey] using hold)
        simp [hname, hrest]

theorem alter_alter (name : String) (fresh other : α) (f g : α → α) (fields : Fields α) :
    alter name other g (alter name fresh f fields) =
      alter name fresh (fun value => g (f value)) fields := by
  induction fields with
  | nil => simp [alter_cons]
  | cons field rest ih =>
      rcases field with ⟨key, value⟩
      rw [alter_cons, alter_cons]
      by_cases hkey : (key == name) = true
      · simp [alter_cons, hkey]
      · simp [alter_cons, hkey, ih]

theorem alter_concat_of_notMem {fields : Fields α} {name : String} (h : name ∉ names fields)
    (fresh : α) (f : α → α) : alter name fresh f fields = fields ++ [(name, f fresh)] := by
  induction fields with
  | nil => rfl
  | cons field rest ih =>
      rcases field with ⟨key, value⟩
      have hkey : key ≠ name := fun heq => h (by simp [names, heq])
      have hrest : name ∉ names rest := fun hmem => h (List.mem_cons_of_mem key hmem)
      rw [alter_cons, if_neg (by simpa using hkey), ih hrest]
      rfl

theorem alter_append {front : Fields α} {name : String} (h : name ∉ names front) (value fresh : α)
    (f : α → α) (back : Fields α) :
    alter name fresh f (front ++ (name, value) :: back) = front ++ (name, f value) :: back := by
  induction front with
  | nil => simp [alter_cons]
  | cons field rest ih =>
      rcases field with ⟨key, other⟩
      have hkey : key ≠ name := fun heq => h (by simp [names, heq])
      have hrest : name ∉ names rest := fun hmem => h (List.mem_cons_of_mem key hmem)
      rw [List.cons_append, alter_cons, if_neg (by simpa using hkey), ih hrest]
      rfl

theorem alter_concat {fields : Fields α} {name : String} (h : name ∉ names fields) (value fresh : α)
    (f : α → α) : alter name fresh f (fields ++ [(name, value)]) = fields ++ [(name, f value)] :=
  alter_append h value fresh f []

/-- The value under a name has been exchanged, and everything else has stayed in its place. -/
def Exchanged (name : String) (old new : α) (before after : Fields α) : Prop :=
  ∃ front back, before = front ++ (name, old) :: back ∧ after = front ++ (name, new) :: back

theorem exchanged_alter {fields : Fields α} {name : String} {value : α}
    (h : find? fields name = some value) (fresh : α) (f : α → α) :
    Exchanged name value (f value) fields (alter name fresh f fields) := by
  obtain ⟨front, back, rfl, hfront⟩ := List.lookup_eq_some_iff.mp h
  have hname : name ∉ names front := by
    intro hmem
    obtain ⟨field, hfield, heq⟩ := List.mem_map.mp hmem
    simpa [heq] using hfront field hfield
  exact ⟨front, back, rfl, alter_append hname value fresh f back⟩

theorem Exchanged.names_eq {name : String} {old new : α} {before after : Fields α}
    (h : Exchanged name old new before after) : names after = names before := by
  obtain ⟨front, back, rfl, rfl⟩ := h
  simp [names]

theorem find?_isSome_iff (fields : Fields α) (name : String) :
    (find? fields name).isSome ↔ name ∈ names fields := by
  induction fields with
  | nil => simp [find?, names]
  | cons field rest ih =>
      obtain ⟨key, value⟩ := field
      simp only [find?_cons, names, List.map_cons, List.mem_cons] at ih ⊢
      by_cases h : name = key
      · simp [h]
      · simp [h, ih]

theorem find?_filter (p : String → Bool) (fields : Fields α) (name : String) :
    find? (fields.filter fun (key, _) => p key) name =
      if p name then find? fields name else none := by
  induction fields with
  | nil => simp [find?]
  | cons field rest ih =>
      obtain ⟨key, value⟩ := field
      by_cases hkey : name = key
      · subst hkey
        cases hp : p name with
        | true => simp [hp, find?_cons]
        | false => simpa [List.filter_cons, hp] using ih
      · cases hp : p key with
        | true => simpa [List.filter_cons, hp, find?_cons, hkey] using ih
        | false => simpa [List.filter_cons, hp, find?_cons, hkey] using ih

/-- A field that is kept can be written when the others are gone, and one that is not is lost with
what is written. -/
theorem filter_alter (p : String → Bool) (name : String) (fresh : α) (f : α → α)
    (fields : Fields α) :
    (alter name fresh f fields).filter (fun (key, _) => p key) =
      if p name then alter name fresh f (fields.filter fun (key, _) => p key)
      else fields.filter fun (key, _) => p key := by
  induction fields with
  | nil => cases hp : p name <;> simp [hp]
  | cons field rest ih =>
      obtain ⟨key, value⟩ := field
      rw [alter_cons]
      by_cases hkey : key = name
      · subst hkey
        cases hp : p key <;> simp [hp, alter_cons]
      · have hne : (key == name) = false := by simpa using hkey
        rw [hne, if_neg Bool.false_ne_true, List.filter_cons, List.filter_cons, ih]
        cases hp : p key <;> cases p name <;> simp [hp, alter_cons, hne]

theorem find?_map {β : Type} (f : α → β) (fields : Fields α) (name : String) :
    find? (fields.map fun (key, value) => (key, f value)) name = (find? fields name).map f := by
  induction fields with
  | nil => rfl
  | cons field rest ih =>
      rcases field with ⟨key, value⟩
      rw [List.map_cons, find?_cons, find?_cons, ih]
      by_cases hkey : name = key
      · simp [hkey]
      · simp [hkey]

theorem mem_of_find? {fields : Fields α} {name : String} {value : α}
    (h : find? fields name = some value) : (name, value) ∈ fields := by
  obtain ⟨front, back, rfl, -⟩ := List.lookup_eq_some_iff.mp h
  exact List.mem_append_right front List.mem_cons_self

theorem Distinct.find?_eq_some_iff {fields : Fields α} (h : Distinct fields) {name : String}
    {value : α} : find? fields name = some value ↔ (name, value) ∈ fields := by
  refine ⟨mem_of_find?, ?_⟩
  intro hmem
  obtain ⟨front, back, rfl⟩ := List.append_of_mem hmem
  apply List.lookup_eq_some_iff.mpr
  refine ⟨front, back, rfl, ?_⟩
  intro field hfield
  have hnames : (names front ++ name :: names back).Nodup := by simpa [Distinct, names] using h
  have hne := (List.nodup_append.mp hnames).2.2 field.1 (List.mem_map_of_mem hfield) name (by simp)
  simpa using hne.symm

theorem Distinct.notMem_of_append {front back : Fields α} {name : String} {value : α}
    (h : Distinct (front ++ (name, value) :: back)) : name ∉ names front := by
  rw [Distinct, names, List.map_append, List.map_cons] at h
  intro hmem
  exact (List.nodup_append.mp h).2.2 name hmem name (by simp) rfl

theorem Distinct.ofList_eq {fields : Fields α} (h : Distinct fields) : ofList fields = fields := by
  have hfold : ∀ fields done : Fields α, Distinct (done ++ fields) →
      fields.foldl (fun fields (name, value) => insert fields name value) done =
        done ++ fields := by
    intro fields
    induction fields with
    | nil => simp
    | cons field rest ih =>
        intro done hdistinct
        rcases field with ⟨name, value⟩
        have hinsert : insert done name value = done ++ [(name, value)] :=
          alter_concat_of_notMem hdistinct.notMem_of_append _ _
        have hnext : done ++ (name, value) :: rest = done ++ [(name, value)] ++ rest := by simp
        rw [hnext] at hdistinct
        have hrest := ih (done ++ [(name, value)]) hdistinct
        rw [List.foldl_cons]
        simp only [hinsert]
        rw [hrest, hnext]
  exact hfold fields [] h

def orderedLike (fields pattern : Fields α) : Fields α :=
  pattern.map fun field => (field.1, (find? fields field.1).getD field.2)

@[simp] theorem names_orderedLike (fields pattern : Fields α) :
    names (orderedLike fields pattern) = names pattern := by
  simp [names, orderedLike, Function.comp_def]

theorem orderedLike_perm {fields pattern : Fields α} (h : Distinct fields)
    (hpattern : Distinct pattern)
    (hnames : ∀ name, (find? fields name).isSome ↔ (find? pattern name).isSome) :
    (orderedLike fields pattern).Perm fields := by
  have hnodup : (orderedLike fields pattern).Nodup := by
    apply List.Nodup.of_map Prod.fst
    rw [← names, names_orderedLike]
    exact hpattern
  apply (List.perm_ext_iff_of_nodup hnodup (List.Nodup.of_map Prod.fst h)).mpr
  rintro ⟨name, value⟩
  rw [← h.find?_eq_some_iff]
  constructor
  · intro hmem
    obtain ⟨field, hfield, heq⟩ := List.mem_map.mp hmem
    obtain ⟨rfl, hvalue⟩ := Prod.mk.inj heq
    have hsome : (find? fields field.1).isSome :=
      (hnames field.1).mpr ((find?_isSome_iff pattern field.1).mpr (List.mem_map_of_mem hfield))
    obtain ⟨found, hfound⟩ := Option.isSome_iff_exists.mp hsome
    rw [hfound] at hvalue ⊢
    exact congrArg some hvalue
  · intro hfind
    have hsome : (find? pattern name).isSome := (hnames name).mp (by simp [hfind])
    obtain ⟨old, hold⟩ := Option.isSome_iff_exists.mp hsome
    exact List.mem_map.mpr ⟨(name, old), mem_of_find? hold, by simp [hfind]⟩

theorem mem_of_find?_ofList {pairs : List (String × α)} {name : String} {value : α}
    (h : find? (ofList pairs) name = some value) : (name, value) ∈ pairs := by
  have step : ∀ (pairs : List (String × α)) (fields : Fields α),
      find? (pairs.foldl (fun fields (key, value) => insert fields key value) fields) name =
        some value → (name, value) ∈ pairs ∨ find? fields name = some value := by
    intro pairs
    induction pairs with
    | nil => exact fun _ => .inr
    | cons pair rest ih =>
        intro fields hfind
        rcases ih _ hfind with hmem | hfields
        · exact .inl (List.mem_cons_of_mem _ hmem)
        · simp only [insert, find?_alter] at hfields
          split at hfields
          · rename_i hname
            obtain rfl := Option.some.inj hfields
            exact .inl (hname ▸ List.mem_cons_self)
          · exact .inr hfields
  exact (step pairs [] h).resolve_right (by simp [find?])

end Fields

end TemplateShape
