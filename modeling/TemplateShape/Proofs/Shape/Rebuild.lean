import TemplateShape.Proofs.Shape.Growth

/-! # Shapes from their leaves

A shape that holds nothing but `""` and objects with fields is what writing its leaves in turn makes
of a single `""`. While the leaves below one field are written, the fields in front of it are left
alone. -/

namespace TemplateShape

namespace Shape

/-! ## Leaves -/

mutual

/-- The keys on the way to each leaf, depth first. -/
def leaves : Shape → List (List String)
  | .object fields => leavesOfFields fields
  | .array _ | .text _ | .flag _ => [[]]

def leavesOfFields : List (String × Shape) → List (List String)
  | [] => []
  | (key, shape) :: rest => shape.leaves.map (key :: ·) ++ leavesOfFields rest

end

/-- A shape that consists of `""` and of objects with fields, the keys of each distinct names. -/
inductive IsPrintable : Shape → Prop
  | leaf : IsPrintable printed
  | branch {fields : Fields Shape} (hne : fields ≠ []) (hdistinct : Fields.Distinct fields)
      (hnames : ∀ field ∈ fields, Ascii.isName field.1.toList = true)
      (hparts : ∀ field ∈ fields, IsPrintable field.2) : IsPrintable (.object fields)

theorem leavesOfFields_eq_flatMap (fields : List (String × Shape)) :
    leavesOfFields fields = fields.flatMap fun field => field.2.leaves.map (field.1 :: ·) := by
  induction fields with
  | nil => rfl
  | cons field rest ih => rw [leavesOfFields, ih, List.flatMap_cons]

theorem IsPrintable.leaves_ne_nil {shape : Shape} (h : shape.IsPrintable) : shape.leaves ≠ [] := by
  induction h with
  | leaf => simp [Shape.printed, leaves]
  | @branch fields hne _ _ _ ih =>
      rcases List.exists_cons_of_ne_nil hne with ⟨field, rest, hfields⟩
      have hfield := ih field (by simp [hfields])
      simp [leaves, hfields, leavesOfFields, hfield]

theorem IsPrintable.isName_of_mem_leaves {shape : Shape} (h : shape.IsPrintable) :
    ∀ keys ∈ shape.leaves, ∀ key ∈ keys, Ascii.isName key.toList = true := by
  induction h with
  | leaf => simp [Shape.printed, leaves]
  | @branch fields _ _ hnames _ ih =>
      intro keys hkeys key hkey
      rw [leaves, leavesOfFields_eq_flatMap] at hkeys
      rcases List.mem_flatMap.mp hkeys with ⟨field, hfield, hmem⟩
      rcases List.mem_map.mp hmem with ⟨more, hmore, heq⟩
      rw [← heq] at hkey
      rcases List.mem_cons.mp hkey with hfirst | hrest
      · exact hfirst ▸ hnames field hfield
      · exact ih field hfield more hmore key hrest

/-! ## Writing leaves in turn -/

def print (shape : Shape) (keys : List String) : Shape :=
  shape.put (keys.map .key) printed

theorem print_cons_of_notMem {done : Fields Shape} {key : String} (h : key ∉ Fields.names done)
    (keys : List String) :
    (object done).print (key :: keys) = .object (done ++ [(key, printed.print keys)]) := by
  have hput : (object done).print (key :: keys) =
      .object (Fields.alter key (freshPlace (keys.map .key)) (print · keys) done) := rfl
  have hfresh : (freshPlace (keys.map .key)).print keys = printed.print keys :=
    put_freshPlace (keys.map .key) printed
  rw [hput, Fields.alter_concat_of_notMem h, hfresh]

theorem foldl_print_concat {done : Fields Shape} {key : String} (h : key ∉ Fields.names done)
    (part : Shape) (paths : List (List String)) :
    (paths.map (key :: ·)).foldl print (.object (done ++ [(key, part)])) =
      .object (done ++ [(key, paths.foldl print part)]) := by
  induction paths generalizing part with
  | nil => rfl
  | cons keys rest ih =>
      have hput : (object (done ++ [(key, part)])).print (key :: keys) =
          .object (done ++ [(key, part.print keys)]) :=
        congrArg Shape.object (Fields.alter_concat h part _ _)
      rw [List.map_cons, List.foldl_cons, hput, ih, List.foldl_cons]

/-- Writing leaves below a new key makes of it what the leaves make of `""`. -/
theorem foldl_print_of_notMem {done : Fields Shape} {key : String} (h : key ∉ Fields.names done)
    {paths : List (List String)} (hne : paths ≠ []) :
    (paths.map (key :: ·)).foldl print (.object done) =
      .object (done ++ [(key, paths.foldl print printed)]) := by
  rcases List.exists_cons_of_ne_nil hne with ⟨keys, rest, hpaths⟩
  rw [hpaths, List.map_cons, List.foldl_cons, print_cons_of_notMem h, foldl_print_concat h,
    List.foldl_cons]

theorem foldl_print_leavesOfFields {fields done : Fields Shape}
    (hdistinct : Fields.Distinct (done ++ fields))
    (hparts : ∀ field ∈ fields,
      field.2.leaves ≠ [] ∧ field.2.leaves.foldl print printed = field.2) :
    (leavesOfFields fields).foldl print (.object done) = .object (done ++ fields) := by
  induction fields generalizing done with
  | nil => simp [leavesOfFields]
  | cons field rest ih =>
      rcases field with ⟨key, shape⟩
      have hshape := hparts (key, shape) (by simp)
      have hkey : key ∉ Fields.names done := hdistinct.notMem_of_append
      have hnext : done ++ (key, shape) :: rest = done ++ [(key, shape)] ++ rest := by simp
      rw [leavesOfFields, List.foldl_append, foldl_print_of_notMem hkey hshape.1, hshape.2, hnext]
      rw [hnext] at hdistinct
      exact ih hdistinct fun later hlater => hparts later (by simp [hlater])

/-- It makes no difference whether the first of the leaves finds `""` or an empty object. -/
theorem foldl_print_printed {fields : Fields Shape} (h : leavesOfFields fields ≠ []) :
    (leavesOfFields fields).foldl print printed =
      (leavesOfFields fields).foldl print (.object []) := by
  rcases List.exists_cons_of_ne_nil h with ⟨path, rest, hpaths⟩
  have hmem : path ∈ leavesOfFields fields := by simp [hpaths]
  rw [leavesOfFields_eq_flatMap] at hmem
  rcases List.mem_flatMap.mp hmem with ⟨field, -, hfield⟩
  rcases List.mem_map.mp hfield with ⟨keys, -, hpath⟩
  have hfirst : printed.print path = (object []).print path := by
    rw [← hpath]
    exact put_of_isPlain isPlain_printed (.key field.1) (keys.map .key) printed
  rw [hpaths, List.foldl_cons, List.foldl_cons, hfirst]

/-- Writing the leaves of a shape in turn makes the shape of `""`. -/
theorem IsPrintable.foldl_print_leaves {shape : Shape} (h : shape.IsPrintable) :
    shape.leaves.foldl print printed = shape := by
  induction h with
  | leaf => rfl
  | @branch fields hne hdistinct hnames hparts ih =>
      have hleaves : leavesOfFields fields ≠ [] :=
        (IsPrintable.branch hne hdistinct hnames hparts).leaves_ne_nil
      rw [leaves, foldl_print_printed hleaves]
      exact foldl_print_leavesOfFields hdistinct fun field hfield =>
        ⟨(hparts field hfield).leaves_ne_nil, ih field hfield⟩

theorem foldl_print_fields {fields : Fields Shape} (hdistinct : Fields.Distinct fields)
    (h : ∀ field ∈ fields, field.2.IsPrintable) :
    (leavesOfFields fields).foldl print (.object []) = .object fields :=
  foldl_print_leavesOfFields hdistinct fun field hfield =>
    ⟨(h field hfield).leaves_ne_nil, (h field hfield).foldl_print_leaves⟩

end Shape

end TemplateShape
