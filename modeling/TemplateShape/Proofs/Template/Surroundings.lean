import TemplateShape.Proofs.Template.Append

/-! # Block tags in any surroundings

The text around a block tag may hold anything, unfinished tags of its kind as well: no tag that
begins earlier reaches into it. So what a block tag shows by itself it shows everywhere. Output tags
are not like that, for a filter may take in the beginning of the next tag. -/

namespace TemplateShape

open Scan

/-- The passes over block tags that are found by themselves. -/
def Pass.overBlocks : List Pass :=
  [.assignment, .loop, .entriesLoop, .condition]

namespace Pass

theorem matchesOf_subset_surrounded {α : Type} {tag : Scan α} (hapart : Apart tag)
    (hclosed : Closed tag) (front text back : List Char) :
    matchesOf tag text ⊆ matchesOf tag (front ++ text ++ back) :=
  fun _ h => hapart.mem_findAll_surrounded hclosed h front back

theorem uses_subset_surrounded {pass : Pass} (hpass : pass ∈ overBlocks)
    (front text back : List Char) : pass.uses text ⊆ pass.uses (front ++ text ++ back) := by
  cases pass with
  | assignment =>
      exact List.map_subset _
        (matchesOf_subset_surrounded Tag.apart_assignment Tag.closed_assignment front text back)
  | loop =>
      exact List.map_subset _
        (matchesOf_subset_surrounded Tag.apart_loopHeader Tag.closed_loopHeader front text back)
  | entriesLoop =>
      exact List.map_subset _
        (matchesOf_subset_surrounded Tag.apart_entriesHeader Tag.closed_entriesHeader front text
          back)
  | condition =>
      intro use huse
      obtain ⟨expression, hexpression, hreads⟩ := List.mem_flatMap.mp huse
      have hmem := matchesOf_subset_surrounded Tag.apart_condition Tag.closed_condition front text
        back hexpression
      exact List.mem_flatMap.mpr ⟨expression, hmem, hreads⟩
  | output => exact absurd hpass (by decide)
  | itemAccess => exact absurd hpass (by decide)
  | loopItems => exact absurd hpass (by decide)

end Pass

namespace Template

/-- A block tag is never missed. What the passes over assignments, loops and conditions find in a
text by itself they find in it in all surroundings, and its variables have names in the outline. A
text that is one tag as a whole shows what that tag shows. -/
theorem block_tags_are_never_missed (settings : Settings) (front text back : String) :
    (∀ pass ∈ Pass.overBlocks, ∀ use ∈ pass.findings settings text.toList,
      use ∈ pass.findings settings (front ++ text ++ back).toList ∧
      use.root ∈ (Outline.ofTemplate settings (front ++ text ++ back)).names) ∧
    (∀ source, Tag.assignment text.toList = some (source, []) →
      Pass.uses text.toList .assignment = [.assigned source]) ∧
    (∀ header, Tag.loopHeader text.toList = some (header, []) →
      Pass.uses text.toList .loop = [.looped header.list]) ∧
    (∀ mapping, Tag.entriesHeader text.toList = some (mapping, []) →
      Pass.uses text.toList .entriesLoop = [.entriesLooped mapping]) ∧
    (∀ expression, Tag.condition text.toList = some (expression, []) →
      Pass.uses text.toList .condition =
        (Condition.reads (fun _ => false) expression).map .tested) := by
  refine ⟨?_, ?_, ?_, ?_, ?_⟩
  · intro pass hpass use huse
    obtain ⟨hmem, hignores⟩ := List.mem_filter.mp huse
    have hthere : use ∈ pass.uses (front ++ text ++ back).toList := by
      rw [String.toList_append, String.toList_append]
      exact Pass.uses_subset_surrounded hpass front.toList text.toList back.toList hmem
    have hall : pass ∈ Pass.all := by
      have hsub : ∀ pass ∈ Pass.overBlocks, pass ∈ Pass.all := by decide
      exact hsub pass hpass
    exact ⟨List.mem_filter.mpr ⟨hthere, hignores⟩, Outline.mem_names_ofTemplate_iff.mpr
      ⟨by simpa using hignores, pass, hall, use, hthere, rfl⟩⟩
  · intro source hsource
    have hwhole := findAll_of_whole Tag.closed_assignment hsource
    simp [Pass.uses, Pass.matchesOf, hwhole]
  · intro header hheader
    have hwhole := findAll_of_whole Tag.closed_loopHeader hheader
    simp [Pass.uses, Pass.matchesOf, hwhole]
  · intro mapping hmapping
    have hwhole := findAll_of_whole Tag.closed_entriesHeader hmapping
    simp [Pass.uses, Pass.matchesOf, hwhole]
  · intro expression hexpression
    have hwhole := findAll_of_whole Tag.closed_condition hexpression
    simp [Pass.uses, Pass.matchesOf, hwhole]

/-- An assignment behind the beginning of another one is found. -/
theorem block_tags_are_never_missed_behind_unfinished :
    Tag.assignment "{% set x = a.b %}".toList = some (⟨"a", ["b"]⟩, []) ∧
    .assigned ⟨"a", ["b"]⟩ ∈ Pass.findings {} "{% set x = a.b %}".toList .assignment ∧
    "a" ∈ (Outline.ofTemplate {} ("\x7b% set y = " ++ "{% set x = a.b %}" ++ " %\x7d")).names := by
  have hscan : Tag.assignment "{% set x = a.b %}".toList = some (⟨"a", ["b"]⟩, []) := by
    decide +kernel
  obtain ⟨hall, hassignment, -⟩ :=
    block_tags_are_never_missed {} "\x7b% set y = " "{% set x = a.b %}" " %\x7d"
  have hmem : .assigned ⟨"a", ["b"]⟩ ∈ Pass.findings {} "{% set x = a.b %}".toList .assignment := by
    rw [Pass.findings, hassignment _ hscan]
    exact List.mem_filter.mpr ⟨List.mem_cons_self, by decide +kernel⟩
  exact ⟨hscan, hmem, (hall .assignment (by decide) _ hmem).2⟩

end Template

end TemplateShape
