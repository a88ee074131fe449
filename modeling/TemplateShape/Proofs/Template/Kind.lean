import TemplateShape.Proofs.Shape.Kind
import TemplateShape.Proofs.Template.Growth
import TemplateShape.Proofs.Template.Uses

/-! # The kind of a variable

Every use suggests a kind, and a row follows the suggestions alone: the first container wins, and
without one the first plain value. Since the passes are run in a fixed order, what a variable is
depends on which uses there are, hardly on where they stand. -/

namespace TemplateShape

/-! ## Kinds that are adopted -/

namespace Shape

/-- What is known of a kind after one more suggestion. -/
def Kind.adopt (known : Option Kind) (new : Kind) : Option Kind :=
  match known with
  | none => some new
  | some kind => some (if !kind.isContainer && new.isContainer then new else kind)

theorem Kind.foldl_adopt_container {known : Kind} (h : known.isContainer = true)
    (kinds : List Kind) : kinds.foldl adopt (some known) = some known := by
  induction kinds with
  | nil => rfl
  | cons kind rest ih =>
      have hstep : adopt (some known) kind = some known := by simp [adopt, h]
      rw [List.foldl_cons, hstep, ih]

theorem Kind.foldl_adopt_plain {known : Kind} (h : known.isContainer = false)
    (kinds : List Kind) :
    kinds.foldl adopt (some known) = some ((kinds.find? isContainer).getD known) := by
  induction kinds with
  | nil => rfl
  | cons kind rest ih =>
      cases hkind : kind.isContainer with
      | true =>
          have hstep : adopt (some known) kind = some kind := by simp [adopt, h, hkind]
          rw [List.foldl_cons, hstep, foldl_adopt_container hkind, List.find?_cons, hkind]
          rfl
      | false =>
          have hstep : adopt (some known) kind = some known := by simp [adopt, hkind]
          rw [List.foldl_cons, hstep, ih, List.find?_cons, hkind]

/-- Out of many suggestions the first container counts, else the first of all. -/
theorem Kind.foldl_adopt (kinds : List Kind) :
    kinds.foldl adopt none = (kinds.find? isContainer).or kinds.head? := by
  cases kinds with
  | nil => rfl
  | cons kind rest =>
      rw [List.foldl_cons]
      cases hkind : kind.isContainer with
      | true =>
          rw [List.find?_cons, hkind]
          exact foldl_adopt_container hkind rest
      | false =>
          rw [List.find?_cons, hkind]
          refine (foldl_adopt_plain hkind rest).trans ?_
          cases rest.find? isContainer <;> rfl

end Shape

/-! ## The kind that a use suggests -/

namespace Outline

open Shape

theorem kind_learned_upgrade (shape : Shape) (row : Option Shape) :
    some (learned .upgrade shape row).kind = Kind.adopt (row.map kind) shape.kind := by
  cases row with
  | none => rfl
  | some existing =>
      simp only [learned]
      rw [apply_ite kind]
      simp [Policy.replaces, yieldsTo, Shape.isContainer, Kind.adopt]

theorem kind_learned_restructure (items : List Shape) (row : Option Shape) :
    some (learned .restructure (.array items) row).kind = Kind.adopt (row.map kind) .array := by
  cases row with
  | none => rfl
  | some existing =>
      cases existing with
      | object fields => rfl
      | array others =>
          simp only [learned]
          rw [apply_ite kind]
          exact congrArg some (ite_self _)
      | text value => rfl
      | flag value => rfl

theorem isPlain_learned_upgrade {shape : Shape} (h : shape.isPlain = false) (row : Option Shape) :
    (learned .upgrade shape row).isPlain = false := by
  cases row with
  | none => exact h
  | some existing =>
      cases hplain : existing.isPlain <;>
        simp [learned, Policy.replaces, yieldsTo, Shape.isContainer, hplain, h]

theorem kind_learned_keep {shape : Shape} (h : shape.isPlain = true) (row : Option Shape) :
    some (learned .keep shape row).kind = Kind.adopt (row.map kind) shape.kind := by
  cases row with
  | none => rfl
  | some existing => simp [learned, Policy.replaces, Kind.adopt, h]

end Outline

namespace Finding

open Shape

def suggests : Finding → Option Kind
  | .assigned path | .printed path => some (if path.isBare then .text "" else .object)
  | .looped _ => some .array
  | .entriesLooped _ => some .object
  | .tested path => some (if path.isBare then .flag true else .object)
  | .indexed path => some (if path.base.isBare then .array else .object)
  | .itemsPrinted _ fields => if fields.isEmpty then none else some .array

theorem kind_onRow_write {shape : Shape} {leaf : Shape} (h : shape.isPlain = false)
    (hleaf : leaf.isPlain = true) (path : NamePath) (further : List Step) :
    ((writeAt path further leaf).onRow (some shape)).map kind = some shape.kind := by
  unfold writeAt
  split
  · exact congrArg some ((grows_put hleaf shape _).kind_eq h)
  · rfl

/-- A dotted source does not replace a plain value at once, but writing along it does. -/
theorem kind_foldl_editsOfPath {policy : Policy} {path : NamePath} {leaf : Shape}
    (hpolicy : policy = .upgrade ∨ policy = .keep ∧ path.depth ≤ depthLimit)
    (hleaf : leaf.isPlain = true) (row : Option Shape) :
    ((editsOfPath policy path leaf).foldl Edit.onRow row).map kind =
      Kind.adopt (row.map kind) (if path.isBare then leaf.kind else .object) := by
  cases hbare : path.isBare with
  | true =>
      rw [foldl_editsOfPath_bare hbare]
      exact Outline.kind_learned_keep hleaf row
  | false =>
      rw [foldl_editsOfPath_dotted hbare]
      rcases hpolicy with rfl | ⟨rfl, hdepth⟩
      · refine (kind_onRow_write (Outline.isPlain_learned_upgrade rfl row) hleaf path []).trans ?_
        exact Outline.kind_learned_upgrade (.object []) row
      · cases row with
        | none => exact kind_onRow_write rfl hleaf path []
        | some existing =>
            cases hplain : existing.isPlain with
            | false =>
                refine (kind_onRow_write hplain hleaf path []).trans ?_
                simp [Kind.adopt, hplain]
            | true =>
                obtain ⟨root, rest⟩ := path
                cases rest with
                | nil => cases hbare
                | cons name names =>
                    rw [writeAt, if_pos hdepth]
                    refine (congrArg some (kind_put_key hplain name _ leaf)).trans ?_
                    have hnew : Kind.object.isContainer = true := rfl
                    simp [Kind.adopt, hplain, hnew]

theorem kind_onRow_indexed (settings : Settings) (path : Tag.IndexedPath) (row : Option Shape) :
    (onRow settings row (.indexed path)).map kind =
      Kind.adopt (row.map kind) (if path.base.isBare then .array else .object) := by
  have hwrite : ∀ shape : Shape, shape.isPlain = false →
      ((if path.index ≤ settings.indexLimit then
          writeAt path.base [.index path.index] Shape.printed
        else .remark (.indexTooLarge path.base.text (String.ofList path.digits)
          settings.indexLimit)).onRow (some shape)).map kind = some shape.kind := by
    intro shape hshape
    split
    · exact kind_onRow_write hshape isPlain_printed path.base _
    · rfl
  have hseed : (if path.base.isBare then Shape.array [] else .object []).isPlain = false := by
    split <;> rfl
  refine (hwrite _ (Outline.isPlain_learned_upgrade hseed row)).trans ?_
  rw [Outline.kind_learned_upgrade, apply_ite kind]
  rfl

/-- The kind of a row after a use, from the kind before and the suggestion. -/
theorem kind_onRow (settings : Settings) {finding : Finding}
    (hdepth : ∀ path, finding = .assigned path → path.depth ≤ depthLimit) (row : Option Shape) :
    (finding.onRow settings row).map kind =
      finding.suggests.toList.foldl Kind.adopt (row.map kind) := by
  cases finding with
  | assigned path =>
      exact kind_foldl_editsOfPath (.inr ⟨rfl, hdepth path rfl⟩) isPlain_printed row
  | printed path => exact kind_foldl_editsOfPath (.inl rfl) isPlain_printed row
  | looped list => exact Outline.kind_learned_upgrade (.array [Shape.printed]) row
  | entriesLooped mapping => exact Outline.kind_learned_upgrade (sampleObject _) row
  | tested path =>
      rw [onRow_tested]
      exact kind_foldl_editsOfPath (.inl rfl) isPlain_tested row
  | indexed path => exact kind_onRow_indexed settings path row
  | itemsPrinted list fields =>
      rw [onRow_itemsPrinted, suggests]
      split
      · rfl
      · exact Outline.kind_learned_restructure _ row

theorem kind_foldl_onRow (settings : Settings) {findings : List Finding}
    (hdepth : ∀ path, .assigned path ∈ findings → path.depth ≤ depthLimit) (row : Option Shape) :
    (findings.foldl (onRow settings) row).map kind =
      (findings.filterMap suggests).foldl Kind.adopt (row.map kind) := by
  induction findings generalizing row with
  | nil => rfl
  | cons finding rest ih =>
      have hfinding : ∀ path, finding = .assigned path → path.depth ≤ depthLimit :=
        fun path hpath => hdepth path (by simp [hpath])
      have hrest : ∀ path, .assigned path ∈ rest → path.depth ≤ depthLimit :=
        fun path hpath => hdepth path (by simp [hpath])
      rw [List.foldl_cons, ih hrest, kind_onRow settings hfinding, List.filterMap_cons]
      cases finding.suggests <;> rfl

end Finding

end TemplateShape
