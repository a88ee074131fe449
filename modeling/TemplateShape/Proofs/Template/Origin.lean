import TemplateShape.Proofs.Template.Arrays

/-! # Nothing is invented

Every key of an outline comes from a use: a write makes the keys of its path and no others. -/

namespace TemplateShape

/-! ## What a write makes -/

namespace Shape

def Keyless (shape : Shape) : Prop :=
  ∀ key, child? (.key key) shape = none

theorem Keyless.of_isPlain {shape : Shape} (h : shape.isPlain = true) : shape.Keyless :=
  fun _ => child?_of_isPlain h _

theorem keyless_array (items : List Shape) : (array items).Keyless :=
  fun _ => rfl

theorem keyless_object_nil : (object []).Keyless :=
  fun _ => rfl

theorem keyless_freshPlace (rest : List Step) : (freshPlace rest).Keyless := by
  cases rest with
  | nil => exact .of_isPlain isPlain_printed
  | cons step rest =>
      cases step with
      | key name => exact keyless_object_nil
      | index i => exact keyless_array []

theorem Keyless.eq_nil {shape : Shape} (h : shape.Keyless) {keys : List String}
    (hkeys : (shape.get? (keys.map .key)).isSome) : keys = [] := by
  cases keys with
  | nil => rfl
  | cons key keys =>
      rw [List.map_cons, get?_cons, h key] at hkeys
      cases hkeys

/-- Keys that lead somewhere after a write led there before, or the write goes along them. -/
theorem get?_keys_put {leaf : Shape} (hleaf : leaf.isPlain = true) (shape : Shape)
    (path : List Step) (keys : List String)
    (h : ((shape.put path leaf).get? (keys.map .key)).isSome) :
    (shape.get? (keys.map .key)).isSome ∨ keys <+: path.map Step.text := by
  induction path generalizing shape keys with
  | nil =>
      rw [put_nil, replaced] at h
      split at h
      · exact .inl h
      · exact .inr ((Keyless.of_isPlain hleaf).eq_nil h ▸ List.nil_prefix)
  | cons step rest ih =>
      cases keys with
      | nil => exact .inl rfl
      | cons key keys =>
          rw [List.map_cons, get?_cons] at h
          rw [List.map_cons, get?_cons, List.map_cons, List.cons_prefix_cons]
          rcases put_cases shape step rest leaf with hput | ⟨i, -, hput⟩ | ⟨-, items, rfl, hput⟩
          · rw [hput, child?_key_object, Fields.find?_alter] at h
            rw [child?_key_eq]
            split at h
            · rename_i hkey
              subst hkey
              rcases ih _ keys h with hpart | hrest
              · cases hfind : Fields.find? (shape.fields?.getD []) step.text with
                | some part =>
                    rw [hfind] at hpart
                    exact .inl hpart
                | none =>
                    rw [hfind] at hpart
                    exact .inr ⟨rfl, (keyless_freshPlace rest).eq_nil hpart ▸ List.nil_prefix⟩
              · exact .inr ⟨rfl, hrest⟩
            · exact .inl h
          · rw [hput] at h
            cases h
          · rw [hput] at h
            cases h

end Shape

/-! ## Where the keys of a row come from -/

def RowLeads (row : Option Shape) (keys : List String) : Prop :=
  (row.bind (·.get? (keys.map .key))).isSome

theorem RowLeads.learned {policy : Policy} {shape : Shape} {row : Option Shape}
    {keys : List String} (h : RowLeads (some (Outline.learned policy shape row)) keys) :
    RowLeads row keys ∨ (shape.get? (keys.map .key)).isSome := by
  cases row with
  | none => exact .inr h
  | some existing =>
      rw [Outline.learned] at h
      split at h
      · exact .inr h
      · exact .inl h

theorem RowLeads.of_learned {policy : Policy} {shape : Shape} {row : Option Shape}
    {keys : List String} (h : RowLeads (some (Outline.learned policy shape row)) keys)
    (hshape : shape.Keyless) (hkeys : keys ≠ []) : RowLeads row keys :=
  h.learned.resolve_right fun hpart => hkeys (hshape.eq_nil hpart)

namespace Finding

open Shape

theorem rowLeads_writeAt {path : NamePath} {further : List Step} {shape leaf : Shape}
    {keys : List String} (hleaf : leaf.isPlain = true)
    (h : RowLeads ((writeAt path further leaf).onRow (some shape)) keys) :
    RowLeads (some shape) keys ∨
      path.depth ≤ depthLimit ∧ keys <+: path.rest ++ further.map Step.text := by
  by_cases hdepth : path.depth ≤ depthLimit
  · rw [onRow_writeAt hdepth] at h
    refine (get?_keys_put hleaf shape _ keys h).imp_right fun hkeys => ⟨hdepth, ?_⟩
    have hbelow : path.below.map Step.text = path.rest := by
      rw [NamePath.below, List.map_map]
      exact List.map_id _
    rwa [List.map_append, hbelow] at hkeys
  · rw [writeAt, if_neg hdepth] at h
    exact .inl h

theorem rowLeads_editsOfPath {policy : Policy} {path : NamePath} {leaf : Shape}
    {row : Option Shape} {keys : List String} (hleaf : leaf.isPlain = true) (hkeys : keys ≠ [])
    (h : RowLeads ((editsOfPath policy path leaf).foldl Edit.onRow row) keys) :
    RowLeads row keys ∨ path.depth ≤ depthLimit ∧ keys <+: path.rest := by
  cases hbare : path.isBare with
  | true =>
      rw [foldl_editsOfPath_bare hbare] at h
      exact .inl (h.of_learned (.of_isPlain hleaf) hkeys)
  | false =>
      rw [foldl_editsOfPath_dotted hbare] at h
      rcases rowLeads_writeAt hleaf h with hseed | hpath
      · exact .inl (hseed.of_learned keyless_object_nil hkeys)
      · rw [List.map_nil, List.append_nil] at hpath
        exact .inr hpath

theorem keys_sampleObject {entries : List (String × String)} {keys : List String}
    (hkeys : keys ≠ []) (h : ((sampleObject entries).get? (keys.map .key)).isSome) :
    ∃ key ∈ entries.map Prod.fst, keys = [key] := by
  cases keys with
  | nil => exact absurd rfl hkeys
  | cons key rest =>
      rw [List.map_cons, get?_cons] at h
      cases hpart : child? (.key key) (sampleObject entries) with
      | none =>
          rw [hpart] at h
          cases h
      | some part =>
          obtain ⟨⟨_, hmem, heq⟩, hplain⟩ := child?_sampleObject hpart
          obtain rfl := Step.key.inj heq
          rw [hpart] at h
          have hrest : rest = [] := (Keyless.of_isPlain hplain).eq_nil h
          exact ⟨key, hmem, by rw [hrest]⟩

/-- A use accounts for keys below its variable: they are a beginning of what it writes. -/
def Explains (settings : Settings) (keys : List String) : Finding → Prop
  | .assigned path | .printed path | .tested path =>
      path.depth ≤ depthLimit ∧ keys <+: path.rest
  | .indexed path =>
      path.index ≤ settings.indexLimit ∧ path.base.depth ≤ depthLimit ∧
        keys <+: path.base.rest ++ [(Step.index path.index).text]
  | .entriesLooped _ => ∃ key ∈ settings.entrySample.map Prod.fst, keys = [key]
  | .looped _ | .itemsPrinted .. => False

theorem rowLeads_onRow {settings : Settings} {finding : Finding} {row : Option Shape}
    {keys : List String} (hkeys : keys ≠ []) (h : RowLeads (finding.onRow settings row) keys) :
    RowLeads row keys ∨ finding.Explains settings keys := by
  cases finding with
  | assigned path => exact rowLeads_editsOfPath isPlain_printed hkeys h
  | printed path => exact rowLeads_editsOfPath isPlain_printed hkeys h
  | looped list => exact .inl (RowLeads.of_learned h (keyless_array _) hkeys)
  | entriesLooped mapping =>
      exact (RowLeads.learned h).imp_right (keys_sampleObject hkeys)
  | tested path =>
      rw [onRow_tested] at h
      exact rowLeads_editsOfPath isPlain_tested hkeys h
  | indexed path =>
      have hseed : (if path.base.isBare then Shape.array [] else .object []).Keyless := by
        split
        · exact keyless_array []
        · exact keyless_object_nil
      by_cases hindex : path.index ≤ settings.indexLimit
      · rw [onRow, edits, if_pos hindex] at h
        rcases rowLeads_writeAt isPlain_printed h with hrow | ⟨hdepth, hpath⟩
        · exact .inl (hrow.of_learned hseed hkeys)
        · exact .inr ⟨hindex, hdepth, hpath⟩
      · rw [onRow, edits, if_neg hindex] at h
        exact .inl (RowLeads.of_learned h hseed hkeys)
  | itemsPrinted list fields =>
      rw [onRow_itemsPrinted] at h
      split at h
      · exact .inl h
      · exact .inl (h.of_learned (keyless_array _) hkeys)

theorem rowLeads_foldl_onRow {settings : Settings} {findings : List Finding} {row : Option Shape}
    {keys : List String} (hkeys : keys ≠ [])
    (h : RowLeads (findings.foldl (onRow settings) row) keys) :
    RowLeads row keys ∨ ∃ finding ∈ findings, finding.Explains settings keys := by
  induction findings generalizing row with
  | nil => exact .inl h
  | cons finding rest ih =>
      rcases ih h with hrow | ⟨use, huse, hexplains⟩
      · rcases rowLeads_onRow hkeys hrow with hbefore | hexplains
        · exact .inl hbefore
        · exact .inr ⟨finding, List.mem_cons_self, hexplains⟩
      · exact .inr ⟨use, List.mem_cons_of_mem _ huse, hexplains⟩

end Finding

/-! ## Outlines -/

namespace Template

open Finding

/-- The keys of a variable are accounted for by a use that the template shows. -/
theorem exists_explains_of_get? {settings : Settings} {template : String} {path : NamePath}
    (hbare : path.isBare = false)
    (h : ((Outline.ofTemplate settings template).get? path.steps).isSome) :
    ∃ finding, Shows template.toList finding ∧ finding.root = path.root ∧
      finding.Explains settings path.rest := by
  have hrow : RowLeads ((Outline.ofTemplate settings template).find? path.root) path.rest := h
  rw [Outline.find?_ofTemplate] at hrow
  split at hrow
  · cases hrow
  · have hrest : path.rest ≠ [] := fun hnil => by simp [NamePath.isBare, hnil] at hbare
    rcases rowLeads_foldl_onRow hrest hrow with hnone | ⟨finding, hfinding, hexplains⟩
    · cases hnone
    · obtain ⟨hshows, hroot⟩ := (mem_usesOf_all_iff _ _ _).mp hfinding
      exact ⟨finding, hshows, hroot, hexplains⟩

/-- Nothing is invented. Keys below a variable are a beginning of a path that is written there, of
at most 64 names, or of a printed item's path and its index; or they are one key of the sample, and
the template loops over the entries of the variable. An array below a variable holds nothing but
`""`. -/
theorem nothing_is_invented (settings : Settings) (template : String) :
    (∀ path : NamePath, path.isBare = false →
      ((Outline.ofTemplate settings template).get? path.steps).isSome →
        (∃ use ∈ assigned template.toList ++ printed template.toList ++ tested template.toList,
          use.root = path.root ∧ use.depth ≤ depthLimit ∧ path.rest <+: use.rest) ∨
        (∃ use ∈ indexed template.toList, use.base.root = path.root ∧
          use.index ≤ settings.indexLimit ∧ use.base.depth ≤ depthLimit ∧
            path.rest <+: use.base.rest ++ [(Step.index use.index).text]) ∨
        (path.root ∈ entriesLooped template.toList ∧
          ∃ key ∈ settings.entrySample.map Prod.fst, path.rest = [key])) ∧
    ∀ root path items, path ≠ [] →
      (Outline.ofTemplate settings template).get? (.key root :: path) = some (.array items) →
        ∀ item ∈ items, item = Shape.printed := by
  refine ⟨?_, fun root path items => eq_printed_of_get?_below⟩
  intro path hbare h
  obtain ⟨finding, hshows, hroot, hexplains⟩ := exists_explains_of_get? hbare h
  cases finding with
  | assigned use =>
      have hmem : use ∈ assigned template.toList := hshows
      exact .inl ⟨use, by simp [hmem], hroot, hexplains⟩
  | printed use =>
      have hmem : use ∈ printed template.toList := hshows
      exact .inl ⟨use, by simp [hmem], hroot, hexplains⟩
  | looped list => cases hexplains
  | entriesLooped mapping =>
      obtain rfl : mapping = path.root := hroot
      exact .inr (.inr ⟨hshows, hexplains⟩)
  | tested use =>
      have hmem : use ∈ tested template.toList := hshows
      exact .inl ⟨use, by simp [hmem], hroot, hexplains⟩
  | indexed use => exact .inr (.inl ⟨use, hshows, hroot, hexplains⟩)
  | itemsPrinted list fields => cases hexplains

/-- The key `d` comes from the path of a printed item. -/
theorem nothing_is_invented_item :
    ∃ use ∈ indexed "{{ a.d[2] }}".toList, use.base.root = "a" ∧ use.index ≤ 1024 ∧
      use.base.depth ≤ depthLimit ∧ ["d"] <+: use.base.rest ++ [(Step.index use.index).text] := by
  have hget : ((Outline.ofTemplate {} "{{ a.d[2] }}").get?
      (⟨"a", ["d"]⟩ : NamePath).steps).isSome := by decide +kernel
  have hwritten : assigned "{{ a.d[2] }}".toList ++ printed "{{ a.d[2] }}".toList ++
      tested "{{ a.d[2] }}".toList = [] := by decide +kernel
  have hlooped : entriesLooped "{{ a.d[2] }}".toList = [] := by decide +kernel
  rcases (nothing_is_invented {} "{{ a.d[2] }}").1 ⟨"a", ["d"]⟩ rfl hget with
    ⟨use, huse, -⟩ | hindexed | ⟨hmapping, -⟩
  · rw [hwritten] at huse
    cases huse
  · exact hindexed
  · rw [hlooped] at hmapping
    cases hmapping

end Template

end TemplateShape
