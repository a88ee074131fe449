import TemplateShape.Proofs.Shape.Fits
import TemplateShape.Proofs.Template.Growth

/-! # Refilled values

A refill comes to rest at once: what it gives it leaves as it is. What was entered for a plain place
of an outline stays through every refill that follows, whatever becomes of the places around it. -/

namespace TemplateShape.Outline

theorem refill_eq_refillFields (outline : Outline) (existing : Fields Json) :
    outline.refill existing = Shape.refillFields outline.entries existing :=
  (Shape.refillFields_eq_map outline.entries existing).symm

/-- The refilled values fit the outline. -/
theorem fieldsFit_refill (outline : Outline) (existing : Fields Json) :
    Shape.FieldsFit outline.entries (outline.refill existing) := by
  rw [refill_eq_refillFields]
  exact Shape.fieldsFit_refillFields outline.entries existing

theorem refill_eq_self {outline : Outline} {values : Fields Json}
    (htidy : (Shape.object outline.entries).Tidy)
    (h : Shape.FieldsFit outline.entries values) : outline.refill values = values := by
  have hobject := (Shape.Fits.object h).refill_eq htidy
  rw [refill_eq_refillFields]
  exact Json.obj.inj hobject

/-! ## The outline as an object -/

/-- An outline is refilled like the object of its shapes, with the same keys in the same order. For a
key that was not there before the object takes the sample of the shape, and the outline refills the
shape from nothing, which comes to the same for every shape. -/
theorem refills_as_one_object :
    (∀ shape : Shape, shape.refill none = shape.toJson) ∧
    ∀ (outline : Outline) (existing : Fields Json),
      Json.obj (outline.refill existing) =
        (Shape.object outline.entries).refill (some (.obj existing)) := by
  refine ⟨Shape.refill_none, fun outline existing => ?_⟩
  rw [refill_eq_refillFields]
  rfl

/-! ## The same refill again -/

/-- A refill comes to rest at once. Refilling a shape with values that it has filled changes
nothing, not even the order of keys, whether they were entered or are samples, and neither does
refilling it with its own samples; so it is with the variables of an outline. The values that are
left as they are are just those that fit. -/
theorem refilling_again_changes_nothing :
    (∀ shape : Shape, shape.Tidy →
      (∀ existing, shape.refill (some (shape.refill existing)) = shape.refill existing) ∧
      shape.refill (some shape.toJson) = shape.toJson ∧
      ∀ value, shape.refill (some value) = value ↔ shape.Fits value) ∧
    (∀ outline : Outline, (Shape.object outline.entries).Tidy → ∀ existing,
      outline.refill (outline.refill existing) = outline.refill existing) := by
  refine ⟨fun shape htidy => ⟨?_, ?_, ?_⟩, ?_⟩
  · intro existing
    exact (Shape.fits_refill shape existing).refill_eq htidy
  · exact (Shape.fits_toJson shape).refill_eq htidy
  · exact fun value => Shape.refill_eq_self_iff htidy
  · intro outline htidy existing
    exact refill_eq_self htidy (fieldsFit_refill outline existing)

/-- The name was entered, and the list is a sample, for a text stood in its place. -/
theorem refilling_again_changes_nothing_partly : ∃ (outline : Outline) (existing : Fields Json),
    (Shape.object outline.entries).Tidy ∧
    outline.refill existing = [("user", .obj [("name", .str "Ada"), ("tags", .arr [.str ""])])] ∧
    outline.refill (outline.refill existing) = outline.refill existing := by
  have hlist : (Shape.array [.printed]).Tidy :=
    Shape.tidy_array (List.forall_mem_singleton.mpr (.of_isPlain rfl))
  have huser : (Shape.object [("name", .printed), ("tags", .array [.printed])]).Tidy :=
    Shape.tidy_object (by decide)
      (List.forall_mem_cons.mpr ⟨.of_isPlain rfl, List.forall_mem_singleton.mpr hlist⟩)
  refine ⟨⟨[("user", .object [("name", .printed), ("tags", .array [.printed])])]⟩,
    [("user", .obj [("tags", .str "a, b"), ("name", .str "Ada")])], ?_, rfl, ?_⟩
  · exact Shape.tidy_object (by decide) (List.forall_mem_singleton.mpr huser)
  · exact refilling_again_changes_nothing.2 _
      (Shape.tidy_object (by decide) (List.forall_mem_singleton.mpr huser)) _

/-! ## One refill after the other -/

/-- The values that are left when each outline in turn refills what the outlines before it left. -/
def refillAll (outlines : List Outline) (existing : Fields Json) : Fields Json :=
  outlines.foldl (fun values outline => outline.refill values) existing

theorem get?_refill_of_isPlain {outline : Outline} {root : String} {keys : List String}
    {leaf : Shape} (h : outline.get? (⟨root, keys⟩ : NamePath).steps = some leaf)
    (hleaf : leaf.isPlain = true) {existing : Fields Json} {value : Json}
    (hvalue : (Json.obj existing).get? (root :: keys) = some value) :
    (Json.obj (outline.refill existing)).get? (root :: keys) = some value := by
  have hplace : (Shape.object outline.entries).get? ((root :: keys).map .key) = some leaf := h
  have hrefill := Shape.get?_refill_of_isPlain hplace hleaf (some (.obj existing))
  rw [Option.bind_some, hvalue, Option.getD_some] at hrefill
  rw [refill_eq_refillFields]
  exact hrefill

/-- Changes of a template do not lose what was entered: a value lasts through any number of refills
whose outlines all have a plain shape at its place, reached through objects, while everything around
the place may take another shape each time. -/
theorem entered_value_lasts (outlines : List Outline) (existing : Fields Json) (root : String)
    (keys : List String) (value : Json)
    (hplain : ∀ outline ∈ outlines, ∃ leaf,
      outline.get? (⟨root, keys⟩ : NamePath).steps = some leaf ∧ leaf.isPlain = true)
    (hvalue : (Json.obj existing).get? (root :: keys) = some value) :
    (Json.obj (refillAll outlines existing)).get? (root :: keys) = some value := by
  induction outlines generalizing existing with
  | nil => exact hvalue
  | cons outline rest ih =>
      rcases List.forall_mem_cons.mp hplain with ⟨⟨leaf, hplace, hleaf⟩, hrest⟩
      exact ih (outline.refill existing) hrest (get?_refill_of_isPlain hplace hleaf hvalue)

/-- The names of a user outlast two templates, of which the second has lost the title and tests what
the first prints. -/
theorem entered_value_lasts_below_user :
    (∀ outline ∈ [(⟨[("title", .printed), ("user", .object [("name", .printed)])]⟩ : Outline),
        ⟨[("user", .object [("tags", .array []), ("name", .tested)])]⟩], ∃ leaf,
      outline.get? (⟨"user", ["name"]⟩ : NamePath).steps = some leaf ∧ leaf.isPlain = true) ∧
    (Json.obj [("user", .obj [("name", .arr [.str "Ada"]), ("age", .null)])]).get?
      ["user", "name"] = some (.arr [.str "Ada"]) ∧
    (Json.obj (refillAll [⟨[("title", .printed), ("user", .object [("name", .printed)])]⟩,
        ⟨[("user", .object [("tags", .array []), ("name", .tested)])]⟩]
      [("user", .obj [("name", .arr [.str "Ada"]), ("age", .null)])])).get?
        ["user", "name"] = some (.arr [.str "Ada"]) := by
  have hplain : ∀ outline ∈ [(⟨[("title", .printed), ("user", .object [("name", .printed)])]⟩ :
      Outline), ⟨[("user", .object [("tags", .array []), ("name", .tested)])]⟩], ∃ leaf,
      outline.get? (⟨"user", ["name"]⟩ : NamePath).steps = some leaf ∧ leaf.isPlain = true :=
    List.forall_mem_cons.mpr ⟨⟨.printed, rfl, rfl⟩,
      List.forall_mem_singleton.mpr ⟨.tested, rfl, rfl⟩⟩
  exact ⟨hplain, rfl, entered_value_lasts _ _ "user" ["name"] _ hplain rfl⟩

end TemplateShape.Outline
