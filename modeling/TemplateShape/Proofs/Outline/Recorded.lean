import TemplateShape.Proofs.Outline.Rows
import TemplateShape.Proofs.Template.Names

/-! # Outlines that are recorded shape by shape

Shapes are recorded one after the other, and each may be one that overrides. Of all that is recorded
for a name the first container wins: once there is a container, it stays. What is recorded for other
names makes no difference. -/

namespace TemplateShape

/-- A shape that is recorded for a name. If it overrides, it may take the place of an earlier one. -/
structure Recording where
  name : String
  shape : Shape
  overrides : Bool

namespace Recording

def policy (recording : Recording) : Policy :=
  if recording.overrides then .upgrade else .keep

def upgrades (recording : Recording) : Bool :=
  recording.overrides && recording.shape.isContainer

def onRow (row : Option Shape) (recording : Recording) : Option Shape :=
  some (Outline.learned recording.policy recording.shape row)

/-- The shape that is left of a first one and what is recorded later. -/
def settled (first : Shape) (later : List Recording) : Shape :=
  if first.isContainer then first
  else ((later.find? upgrades).map shape).getD first

theorem onRow_some (existing : Shape) (recording : Recording) :
    onRow (some existing) recording =
      some (if !existing.isContainer && recording.upgrades then recording.shape else existing) := by
  rcases recording with ⟨name, shape, overrides⟩
  cases overrides with
  | false => simp [onRow, Outline.learned, policy, Policy.replaces, upgrades]
  | true =>
      simp [onRow, Outline.learned, policy, Policy.replaces, upgrades, Shape.yieldsTo,
        Shape.isContainer]

/-- A container stays, and a plain value gives way to the first container that overrides. -/
theorem foldl_onRow_some (first : Shape) (later : List Recording) :
    later.foldl onRow (some first) = some (settled first later) := by
  induction later generalizing first with
  | nil => simp [settled]
  | cons recording later ih =>
      rw [List.foldl_cons, onRow_some, ih]
      cases hfirst : first.isContainer with
      | true => simp [settled, hfirst]
      | false =>
          cases hupgrades : recording.upgrades with
          | false => simp [settled, hfirst, hupgrades]
          | true =>
              have hcontainer : recording.shape.isContainer = true :=
                (Bool.and_eq_true_iff.mp hupgrades).2
              simp [settled, hfirst, hupgrades, hcontainer]

end Recording

namespace Outline

def record (outline : Outline) (recording : Recording) : Outline :=
  outline.learn recording.policy recording.name recording.shape

def ofRecordings (recordings : List Recording) : Outline :=
  recordings.foldl record {}

/-! ## Names -/

theorem names_record (outline : Outline) (recording : Recording) :
    (outline.record recording).names =
      if recording.name ∈ outline.names then outline.names
      else outline.names ++ [recording.name] :=
  Fields.names_alter ..

theorem names_ofRecordings (recordings : List Recording) :
    (ofRecordings recordings).names = (recordings.map Recording.name).eraseDups := by
  induction recordings using List.reverseRecOn with
  | nil => rfl
  | append_singleton front recording ih =>
      rw [ofRecordings, List.foldl_concat, names_record, ← ofRecordings, ih, List.map_append,
        List.map_singleton, eraseDups_concat]

/-! ## Shapes -/

theorem find?_foldl_record (recordings : List Recording) (outline : Outline) (name : String) :
    (recordings.foldl record outline).find? name =
      (recordings.filter (·.name == name)).foldl Recording.onRow (outline.find? name) := by
  induction recordings generalizing outline with
  | nil => rfl
  | cons recording rest ih =>
      rw [List.foldl_cons, ih, record, find?_learn, List.filter_cons]
      by_cases hname : recording.name = name
      · simp [hname, Recording.onRow]
      · simp [hname, Ne.symm hname]

theorem find?_ofRecordings {recordings : List Recording} {name : String} {first : Recording}
    {later : List Recording} (h : recordings.filter (·.name == name) = first :: later) :
    (ofRecordings recordings).find? name = some (Recording.settled first.shape later) := by
  rw [ofRecordings, find?_foldl_record, h, List.foldl_cons]
  exact Recording.foldl_onRow_some first.shape later

/-- The first container wins. Take the shapes that are recorded for a name, in their order. If the
first of them is a container, or no later one is a container that overrides, the name has the first
one; otherwise it has the first of these containers. The names stand in the order in which they are
first recorded, and what is recorded for other names makes no difference to a name. -/
theorem first_container_wins (recordings : List Recording) :
    (ofRecordings recordings).names = (recordings.map Recording.name).eraseDups ∧
    (∀ name first later, recordings.filter (·.name == name) = first :: later →
      (first.shape.isContainer = true ∨ later.find? Recording.upgrades = none →
        (ofRecordings recordings).find? name = some first.shape) ∧
      (first.shape.isContainer = false → ∀ winner, later.find? Recording.upgrades = some winner →
        (ofRecordings recordings).find? name = some winner.shape)) ∧
    ∀ name, (ofRecordings recordings).find? name =
      (ofRecordings (recordings.filter (·.name == name))).find? name := by
  refine ⟨names_ofRecordings recordings, fun name first later hname => ⟨?_, ?_⟩, ?_⟩
  · rw [find?_ofRecordings hname]
    rintro (hcontainer | hnone)
    · rw [Recording.settled, if_pos hcontainer]
    · simp [Recording.settled, hnone]
  · intro hplain winner hwinner
    rw [find?_ofRecordings hname]
    simp [Recording.settled, hplain, hwinner]
  · intro name
    rw [ofRecordings, ofRecordings, find?_foldl_record, find?_foldl_record, List.filter_filter]
    simp only [Bool.and_self]

/-- The first list does not override the text, and the object comes behind the second one. -/
theorem first_container_wins_upgraded :
    ∃ (recordings : List Recording) (first : Recording) (later : List Recording),
      recordings.filter (·.name == "x") = first :: later ∧ first.shape.isContainer = false ∧
      later.find? Recording.upgrades = some ⟨"x", .array [.tested], true⟩ ∧
      (ofRecordings recordings).find? "x" = some (.array [.tested]) := by
  refine ⟨[⟨"x", .printed, false⟩, ⟨"y", .object [], true⟩, ⟨"x", .array [], false⟩,
    ⟨"x", .array [.tested], true⟩, ⟨"x", .object [], true⟩], ⟨"x", .printed, false⟩, _, rfl, rfl,
    rfl, ?_⟩
  exact ((first_container_wins _).2.1 "x" ⟨"x", .printed, false⟩ _ rfl).2 rfl
    ⟨"x", .array [.tested], true⟩ rfl

end Outline

end TemplateShape
