import TemplateShape.Proofs.Shape.Walk

/-! # What a write leaves alone

Addresses are compared by the texts of their steps, for an index and the key with its decimal text
lead to the same place of an object. A write changes nothing at an address that leaves its path. On
its way it adds at most one key to an object, and to an array no more than it needs. A second write
along the same path finds everything that the first one made. -/

namespace TemplateShape.Shape

/-! ## Other addresses -/

/-- A step with another text leads to the same part as before. -/
theorem slot?_put_of_text_ne {shape part : Shape} {step other : Step}
    (htext : other.text ≠ step.text) (hpart : shape.slot? other = some part) (rest : List Step)
    (leaf : Shape) : (shape.put (step :: rest) leaf).slot? other = some part := by
  rcases opened_cases shape step with
    ⟨fields, hopened⟩ | ⟨i, items, rfl, hopened⟩ | ⟨name, items, rfl, rfl⟩
  · rw [← slot?_opened shape step, hopened] at hpart
    rw [put_of_opened_object hopened, slot?_object, Fields.find?_alter, if_neg htext]
    exact hpart
  · rw [← slot?_opened shape (.index i), hopened] at hpart
    cases other with
    | key name => cases hpart
    | index j =>
        have hij : j ≠ i := fun heq => htext (Step.text_index_inj.mpr heq)
        have hlt : j < items.length := (List.getElem?_eq_some_iff.mp hpart).1
        rw [put_of_opened_array hopened, slot?_index_array, getElem?_rightpad_modify, if_neg hij,
          if_pos hlt]
        exact hpart
  · exact hpart

/-- A step with the same text leads to where the write goes on, unless the write is dropped. -/
theorem slot?_put_of_text_eq {shape part : Shape} {step other : Step}
    (htext : other.text = step.text) (hpart : shape.slot? other = some part) (rest : List Step)
    (leaf : Shape) :
    shape.put (step :: rest) leaf = shape ∨
      (shape.put (step :: rest) leaf).slot? other = some (part.put rest leaf) := by
  rcases opened_cases shape step with
    ⟨fields, hopened⟩ | ⟨i, items, rfl, hopened⟩ | ⟨name, items, rfl, rfl⟩
  · rw [← slot?_opened shape step, hopened, slot?_object, htext] at hpart
    right
    rw [put_of_opened_object hopened, slot?_object, Fields.find?_alter, if_pos htext, hpart]
    rfl
  · rw [← slot?_opened shape (.index i), hopened] at hpart
    cases other with
    | key name => cases hpart
    | index j =>
        obtain rfl := Step.text_index_inj.mp htext
        rw [slot?_index_array] at hpart
        right
        rw [put_of_opened_array hopened, slot?_index_array, getElem?_rightpad_modify, if_pos rfl,
          hpart]
        rfl
  · exact .inl rfl

/-- An address that leaves the path of a write keeps its part. -/
theorem walk?_put_of_not_prefix {shape part : Shape} {path other : List Step}
    (hpart : shape.walk? other = some part)
    (hbefore : ¬ other.map Step.text <+: path.map Step.text)
    (hbehind : ¬ path.map Step.text <+: other.map Step.text) (leaf : Shape) :
    (shape.put path leaf).walk? other = some part := by
  induction path generalizing shape other with
  | nil => exact absurd List.nil_prefix hbehind
  | cons step rest ih =>
      cases other with
      | nil => exact absurd List.nil_prefix hbefore
      | cons first more =>
          obtain ⟨child, hchild, hmore⟩ := Option.bind_eq_some_iff.mp hpart
          -- The two ways part here, or the write goes on in the part that the address leads to.
          by_cases htext : first.text = step.text
          · rcases slot?_put_of_text_eq htext hchild rest leaf with hput | hput
            · rw [hput]
              exact hpart
            · rw [walk?_cons, hput]
              rw [List.map_cons, List.map_cons, htext, List.cons_prefix_cons] at hbefore hbehind
              exact ih hmore (fun h => hbefore ⟨rfl, h⟩) fun h => hbehind ⟨rfl, h⟩
          · rw [walk?_cons, slot?_put_of_text_ne htext hchild]
            exact hmore

/-! ## The way of a write -/

/-- At a place on its way, a write is the write along the rest of its path. -/
theorem walk?_put_append {shape part : Shape} {front : List Step}
    (h : shape.walk? front = some part) (rest : List Step) (leaf : Shape) :
    (shape.put (front ++ rest) leaf).walk? front = some (part.put rest leaf) := by
  induction front generalizing shape with
  | nil =>
      obtain rfl : shape = part := Option.some.inj h
      rfl
  | cons step front ih =>
      obtain ⟨child, hchild, hfront⟩ := Option.bind_eq_some_iff.mp h
      have hkey : ¬ ∃ name items, step = .key name ∧ shape = .array items := by
        rintro ⟨name, items, rfl, rfl⟩
        cases hchild
      rw [List.cons_append, walk?_cons, slot?_put_self hkey, hchild]
      exact ih hfront

/-- A write leaves alone what is not on its path. What an address led to is still there if the
address leaves the path, neither of them being the beginning of the other. An object on the way
keeps its keys in their order and gets at most one more, at the end. An array on the way grows up to
the index that is written, by `""` only. -/
theorem rest_stays_in_place (shape : Shape) (path : List Step) (leaf : Shape) :
    (∀ other part, shape.walk? other = some part →
      ¬ other.map Step.text <+: path.map Step.text →
      ¬ path.map Step.text <+: other.map Step.text →
        (shape.put path leaf).walk? other = some part) ∧
    (∀ front step rest fields, path = front ++ step :: rest →
      shape.walk? front = some (.object fields) →
        ∃ more, (shape.put path leaf).walk? front = some (.object more) ∧
          Fields.names more = if step.text ∈ Fields.names fields then Fields.names fields
            else Fields.names fields ++ [step.text]) ∧
    ∀ front i rest items, path = front ++ .index i :: rest →
      shape.walk? front = some (.array items) →
        ∃ more, (shape.put path leaf).walk? front = some (.array more) ∧
          more.length = max items.length (i + 1) ∧
          ∀ j, items.length ≤ j → j < more.length → j ≠ i → more[j]? = some (.text "") := by
  refine ⟨fun _ _ hpart hbefore hbehind => walk?_put_of_not_prefix hpart hbefore hbehind leaf,
    ?_, ?_⟩
  · rintro front step rest fields rfl hfields
    exact ⟨_, (walk?_put_append hfields _ leaf).trans (by rw [put_object]),
      Fields.names_alter step.text _ _ fields⟩
  · rintro front i rest items rfl hitems
    refine ⟨_, (walk?_put_append hitems _ leaf).trans (by rw [put_index_array]),
      length_rightpad_modify items i printed _, ?_⟩
    intro j hlow hhigh hne
    rw [length_rightpad_modify] at hhigh
    have hlt : j < i := by omega
    rw [getElem?_rightpad_modify, if_neg hne, if_neg (Nat.not_lt.mpr hlow), if_pos hlt]
    rfl

/-- The list `a` is filled up to its item 2, which becomes an object. An index still leads to the
key `0` of its first item, and no key of the whole is new. -/
theorem rest_stays_in_place_in_list :
    ((object [("a", .array [.object [("0", tested)]])]).put
      [.key "a", .index 2, .key "b"] tested).walk? [.key "a", .index 0, .index 0] = some tested ∧
    (∃ more, ((object [("a", .array [.object [("0", tested)]])]).put
        [.key "a", .index 2, .key "b"] tested).walk? [] = some (.object more) ∧
      Fields.names more = ["a"]) ∧
    ∃ more, ((object [("a", .array [.object [("0", tested)]])]).put
        [.key "a", .index 2, .key "b"] tested).walk? [.key "a"] = some (.array more) ∧
      more.length = 3 ∧ more[1]? = some (.text "") := by
  have hrest := rest_stays_in_place (object [("a", .array [.object [("0", tested)]])])
    [.key "a", .index 2, .key "b"] tested
  refine ⟨hrest.1 _ _ rfl (by decide) (by decide), ?_, ?_⟩
  · obtain ⟨more, hmore, hnames⟩ := hrest.2.1 [] (.key "a") _ _ rfl rfl
    exact ⟨more, hmore, hnames.trans (if_pos (by decide))⟩
  · obtain ⟨more, hmore, hlength, hfilled⟩ := hrest.2.2 [.key "a"] 2 [.key "b"] _ rfl rfl
    exact ⟨more, hmore, hlength, hfilled 1 (by decide) (by rw [hlength]; decide) (by decide)⟩

/-! ## The same path again -/

theorem put_nil_self (leaf : Shape) : leaf.put [] leaf = leaf :=
  ite_self leaf

theorem put_nil_eq_or (shape leaf : Shape) :
    shape.put [] leaf = shape ∨ shape.put [] leaf = leaf := by
  rw [put_nil, replaced]
  split
  · exact .inl rfl
  · exact .inr rfl

theorem put_nil_put_nil (shape leaf : Shape) :
    (shape.put [] leaf).put [] leaf = shape.put [] leaf := by
  rcases put_nil_eq_or shape leaf with hshape | hleaf
  · rw [hshape, hshape]
  · rw [hleaf, put_nil_self]

theorem put_nil_put_nil_of_isPlain {first : Shape} (h : first.isPlain = true)
    (shape second : Shape) : (shape.put [] first).put [] second = shape.put [] second := by
  cases hshape : shape.isPlain with
  | true => rw [put_nil_of_isPlain hshape, put_nil_of_isPlain hshape, put_nil_of_isPlain h]
  | false => rw [put_nil_of_not_isPlain hshape h]

/-- If the second of two leaves is the only one that counts at a place itself, it is so at the end
of every path: the second write finds the places that the first one made. -/
theorem put_put {first second : Shape}
    (h : ∀ part : Shape, (part.put [] first).put [] second = part.put [] second)
    (shape : Shape) (path : List Step) :
    (shape.put path first).put path second = shape.put path second := by
  induction path generalizing shape with
  | nil => exact h shape
  | cons step rest ih =>
      rcases opened_cases shape step with
        ⟨fields, hopened⟩ | ⟨i, items, rfl, hopened⟩ | ⟨name, items, rfl, rfl⟩
      · rw [put_of_opened_object hopened, put_of_opened_object hopened, put_object,
          Fields.alter_alter]
        simp only [ih]
      · rw [put_of_opened_array hopened, put_of_opened_array hopened, put_index_array,
          rightpad_modify_rightpad_modify]
        simp only [ih]
      · rfl

/-- Writing a leaf again where it was written changes nothing, whatever became of the first write.
And a plain leaf leaves no trace when another leaf is written along the same path. -/
theorem writing_again_changes_nothing (shape : Shape) (path : List Step) :
    (∀ leaf : Shape, (shape.put path leaf).put path leaf = shape.put path leaf) ∧
    ∀ first second : Shape, first.isPlain = true →
      (shape.put path first).put path second = shape.put path second :=
  ⟨fun leaf => put_put (fun part => put_nil_put_nil part leaf) shape path,
    fun _ second hfirst =>
      put_put (fun part => put_nil_put_nil_of_isPlain hfirst part second) shape path⟩

/-- The second of two leaves stands where the text `x` has made way for a list. -/
theorem writing_again_changes_nothing_upgraded :
    printed.isPlain = true ∧
    ((object [("a", .text "x")]).put [.key "a", .index 1] printed).put [.key "a", .index 1] tested =
      .object [("a", .array [printed, tested])] := by
  have hplain : printed.isPlain = true := rfl
  refine ⟨hplain, ?_⟩
  rw [(writing_again_changes_nothing _ [.key "a", .index 1]).2 printed tested hplain]
  rfl

end TemplateShape.Shape
