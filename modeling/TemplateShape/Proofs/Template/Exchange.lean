import TemplateShape.Proofs.Shape.Alike
import TemplateShape.Proofs.Template.Tidy

/-! # Uses that may be exchanged

Within a pass the order of the uses does not matter: writes of one plain value come out alike in
either order, and a container that is learned twice is learned once. Templates whose passes see the
same uses in any order have the same outline up to the order of keys. -/

namespace TemplateShape

open Shape

/-! ## Rows -/

theorem Outline.learned_upgrade_some (shape existing : Shape) :
    learned .upgrade shape (some existing) =
      if existing.yieldsTo shape then shape else existing := rfl

theorem Outline.learned_upgrade_alike (shape : Shape) {row other : Option Shape}
    (h : Alike row other) :
    Alike (some (learned .upgrade shape row)) (some (learned .upgrade shape other)) := by
  rcases h.cases with ⟨rfl, rfl⟩ | ⟨existing, existing', rfl, rfl, hsome⟩
  · exact .refl _
  · have hyields : existing.yieldsTo shape = existing'.yieldsTo shape := by
      rw [yieldsTo, yieldsTo, hsome.isPlain]
    rw [learned_upgrade_some, learned_upgrade_some, hyields]
    split
    · exact .refl _
    · exact hsome

namespace Finding

def written (leaf : Shape) (row : Option Shape) (path : NamePath) : Shape :=
  if path.isBare then row.getD leaf else (row.getD leaf).put path.below leaf

/-- It makes no difference whether an object takes the place of a plain value before a write below
it or by that write. -/
theorem put_learned_object {policy : Policy} (hpolicy : policy ≠ .restructure) {leaf : Shape}
    (hleaf : leaf.isPlain = true) (row : Option Shape) (name : String) (rest : List Step) :
    (Outline.learned policy (.object []) row).put (.key name :: rest) leaf =
      (row.getD leaf).put (.key name :: rest) leaf := by
  cases row with
  | none => exact (put_of_isPlain hleaf (.key name) rest leaf).symm
  | some existing =>
      cases policy with
      | keep => rfl
      | upgrade =>
          cases hplain : existing.isPlain with
          | true =>
              have hyields : existing.yieldsTo (.object []) = true := by
                rw [yieldsTo, hplain]
                rfl
              rw [Outline.learned_upgrade_some, if_pos hyields]
              exact (put_of_isPlain hplain (.key name) rest leaf).symm
          | false => simp [Outline.learned_upgrade_some, yieldsTo, hplain]
      | restructure => exact absurd rfl hpolicy

theorem foldl_editsOfPath {policy : Policy} (hpolicy : policy ≠ .restructure) {path : NamePath}
    (hdepth : path.depth ≤ depthLimit) {leaf : Shape} (hleaf : leaf.isPlain = true)
    (row : Option Shape) :
    (editsOfPath policy path leaf).foldl Edit.onRow row = some (written leaf row path) := by
  obtain ⟨root, rest⟩ := path
  cases rest with
  | nil => cases row <;> rfl
  | cons name names =>
      rw [foldl_editsOfPath_dotted rfl, onRow_writeAt hdepth, List.append_nil]
      exact congrArg some (put_learned_object hpolicy hleaf row name (names.map .key))

theorem onRow_assigned (settings : Settings) {path : NamePath} (h : path.depth ≤ depthLimit)
    (row : Option Shape) :
    onRow settings row (.assigned path) = some (written Shape.printed row path) :=
  foldl_editsOfPath Policy.noConfusion h isPlain_printed row

theorem onRow_printed (settings : Settings) {path : NamePath} (h : path.depth ≤ depthLimit)
    (row : Option Shape) :
    onRow settings row (.printed path) = some (written Shape.printed row path) :=
  foldl_editsOfPath Policy.noConfusion h isPlain_printed row

theorem onRow_tested_of_depth (settings : Settings) {path : NamePath} (h : path.depth ≤ depthLimit)
    (row : Option Shape) :
    onRow settings row (.tested path) = some (written Shape.tested row path) :=
  (onRow_tested settings row path).trans (foldl_editsOfPath Policy.noConfusion h isPlain_tested row)

theorem written_alike (leaf : Shape) (path : NamePath) {row other : Option Shape}
    (h : Alike row other) :
    Alike (some (written leaf row path)) (some (written leaf other path)) := by
  unfold written
  split
  · exact h.getD leaf
  · exact (h.getD leaf).put path.rest leaf

theorem written_swap {leaf : Shape} (hleaf : leaf.isPlain = true) (row : Option Shape)
    (path other : NamePath) :
    Alike (some (written leaf (some (written leaf row path)) other))
      (some (written leaf (some (written leaf row other)) path)) := by
  cases hpath : path.isBare <;> cases hother : other.isBare
  · have hswap := alike_put_put hleaf (row.getD leaf) path.rest other.rest
    simpa [written, hpath, hother, NamePath.below] using hswap
  · simp [written, hpath, hother, Alike.refl]
  · simp [written, hpath, hother, Alike.refl]
  · simp [written, hpath, hother, Alike.refl]

/-! ## Uses -/

def pass : Finding → Pass
  | .assigned _ => .assignment
  | .printed _ => .output
  | .looped _ => .loop
  | .entriesLooped _ => .entriesLoop
  | .tested _ => .condition
  | .indexed _ => .itemAccess
  | .itemsPrinted .. => .loopItems

/-- A use that may change places with others of its pass: its path is written, and it says nothing
of items. -/
def IsMovable : Finding → Prop
  | .assigned path | .printed path | .tested path => path.depth ≤ depthLimit
  | .looped _ | .entriesLooped _ => True
  | .indexed _ | .itemsPrinted .. => False

variable (settings : Settings)

theorem IsMovable.onRow_alike {use : Finding} (h : use.IsMovable) {row other : Option Shape}
    (hrow : Alike row other) : Alike (use.onRow settings row) (use.onRow settings other) := by
  cases use with
  | assigned path =>
      rw [onRow_assigned settings h, onRow_assigned settings h]
      exact written_alike Shape.printed path hrow
  | printed path =>
      rw [onRow_printed settings h, onRow_printed settings h]
      exact written_alike Shape.printed path hrow
  | tested path =>
      rw [onRow_tested_of_depth settings h, onRow_tested_of_depth settings h]
      exact written_alike Shape.tested path hrow
  | looped list => exact Outline.learned_upgrade_alike _ hrow
  | entriesLooped mapping => exact Outline.learned_upgrade_alike _ hrow
  | indexed path => exact h.elim
  | itemsPrinted list fields => exact h.elim

theorem IsMovable.onRow_swap {use other : Finding} (h : use.IsMovable) (h' : other.IsMovable)
    (hpass : use.pass = other.pass) (hroot : use.root = other.root) (row : Option Shape) :
    Alike (other.onRow settings (use.onRow settings row))
      (use.onRow settings (other.onRow settings row)) := by
  cases use with
  | assigned path =>
      cases other with
      | assigned path' =>
          rw [onRow_assigned settings h, onRow_assigned settings h', onRow_assigned settings h',
            onRow_assigned settings h]
          exact written_swap isPlain_printed row path path'
      | _ => simp [pass] at hpass
  | printed path =>
      cases other with
      | printed path' =>
          rw [onRow_printed settings h, onRow_printed settings h', onRow_printed settings h',
            onRow_printed settings h]
          exact written_swap isPlain_printed row path path'
      | _ => simp [pass] at hpass
  | tested path =>
      cases other with
      | tested path' =>
          rw [onRow_tested_of_depth settings h, onRow_tested_of_depth settings h',
            onRow_tested_of_depth settings h', onRow_tested_of_depth settings h]
          exact written_swap isPlain_tested row path path'
      | _ => simp [pass] at hpass
  | looped list =>
      cases other with
      | looped list' =>
          have hlist : list = list' := hroot
          exact hlist ▸ .refl _
      | _ => simp [pass] at hpass
  | entriesLooped mapping =>
      cases other with
      | entriesLooped mapping' =>
          have hmapping : mapping = mapping' := hroot
          exact hmapping ▸ .refl _
      | _ => simp [pass] at hpass
  | indexed path => exact h.elim
  | itemsPrinted list fields => exact h.elim

theorem foldl_onRow_alike {uses : List Finding} (h : ∀ use ∈ uses, use.IsMovable)
    {row other : Option Shape} (hrow : Alike row other) :
    Alike (uses.foldl (onRow settings) row) (uses.foldl (onRow settings) other) := by
  induction uses generalizing row other with
  | nil => exact hrow
  | cons use rest ih =>
      have huse := (h use (by simp)).onRow_alike settings hrow
      exact ih (fun later hlater => h later (by simp [hlater])) huse

/-- The uses of a variable that one pass sees may be permuted. -/
theorem foldl_onRow_alike_of_perm {uses others : List Finding} (hperm : uses.Perm others)
    {pass : Pass} {name : String}
    (h : ∀ use ∈ uses, use.IsMovable ∧ use.pass = pass ∧ use.root = name)
    {row other : Option Shape} (hrow : Alike row other) :
    Alike (uses.foldl (onRow settings) row) (others.foldl (onRow settings) other) := by
  induction hperm generalizing row other with
  | nil => exact hrow
  | cons use hrest ih =>
      have huse := (h use (by simp)).1.onRow_alike settings hrow
      exact ih (fun later hlater => h later (by simp [hlater])) huse
  | swap first second rest =>
      obtain ⟨hfirst, hpass, hroot⟩ := h first (by simp)
      obtain ⟨hsecond, hpass', hroot'⟩ := h second (by simp)
      have hswap := hsecond.onRow_swap settings hfirst (hpass'.trans hpass.symm)
        (hroot'.trans hroot.symm) row
      have hboth := hswap.trans
        (hsecond.onRow_alike settings (hfirst.onRow_alike settings hrow))
      exact foldl_onRow_alike settings (fun later hlater => (h later (by simp [hlater])).1) hboth
  | trans hfront hback ih ih' =>
      have hmiddle := ih h (.refl row)
      exact hmiddle.trans (ih' (fun use huse => h use (hfront.mem_iff.mpr huse)) hrow)

end Finding

/-! ## Outlines -/

theorem Pass.pass_of_mem_uses {pass : Pass} {template : List Char} {use : Finding}
    (h : use ∈ pass.uses template) : use.pass = pass := by
  cases pass with
  | condition =>
      rw [Template.uses_condition] at h
      obtain ⟨path, -, rfl⟩ := List.mem_map.mp h
      rfl
  | _ =>
      obtain ⟨_, -, rfl⟩ := List.mem_map.mp h
      rfl

namespace Template

variable {front back : List Char}

theorem foldl_onRow_usesOf_alike (settings : Settings) {passes : List Pass}
    (hperm : ∀ pass ∈ passes, (pass.uses front).Perm (pass.uses back))
    (hmovable : ∀ pass ∈ passes, ∀ use ∈ pass.uses front, use.IsMovable) (name : String)
    {row other : Option Shape} (hrow : Alike row other) :
    Alike ((Pass.usesOf passes front name).foldl (Finding.onRow settings) row)
      ((Pass.usesOf passes back name).foldl (Finding.onRow settings) other) := by
  induction passes generalizing row other with
  | nil => exact hrow
  | cons pass rest ih =>
      have husesOf : ∀ template, Pass.usesOf (pass :: rest) template name =
          (pass.uses template).filter (·.root == name) ++ Pass.usesOf rest template name := by
        intro template
        rw [Pass.usesOf, List.flatMap_cons, List.filter_append]
        rfl
      rw [husesOf, husesOf, List.foldl_append, List.foldl_append]
      apply ih (fun p hp => hperm p (by simp [hp])) (fun p hp => hmovable p (by simp [hp]))
      have hmoved : ∀ use ∈ (pass.uses front).filter (·.root == name),
          use.IsMovable ∧ use.pass = pass ∧ use.root = name := by
        intro use huse
        obtain ⟨hmem, hroot⟩ := List.mem_filter.mp huse
        exact ⟨hmovable pass (by simp) use hmem, Pass.pass_of_mem_uses hmem, by simpa using hroot⟩
      exact Finding.foldl_onRow_alike_of_perm settings ((hperm pass (by simp)).filter _) hmoved hrow

end Template

/-- Templates whose passes see the same uses in any order have the same outline up to the order of
keys, if these uses can be moved. -/
theorem Outline.alike_toJson_of_perm (settings : Settings) {template other : String}
    (hperm : ∀ pass, (Pass.uses template.toList pass).Perm (Pass.uses other.toList pass))
    (hmovable : ∀ pass, ∀ use ∈ Pass.uses template.toList pass, use.IsMovable) :
    Json.Alike (ofTemplate settings template).toJson (ofTemplate settings other).toJson := by
  have hrows : ∀ name, Alike ((ofTemplate settings template).find? name)
      ((ofTemplate settings other).find? name) := by
    intro name
    rw [find?_ofTemplate, find?_ofTemplate]
    split
    · exact .refl none
    · exact Template.foldl_onRow_usesOf_alike settings (fun pass _ => hperm pass)
        (fun pass _ => hmovable pass) name (.refl none)
  have hjson : ∀ outline : Outline, outline.toJson = (Shape.object outline.entries).toJson := by
    intro outline
    rw [Shape.toJson, fieldsToJson_eq_map]
    rfl
  rw [hjson, hjson]
  exact Alike.toJson (tidy_ofTemplate settings template) (tidy_ofTemplate settings other)
    (Alike.object hrows)

end TemplateShape
