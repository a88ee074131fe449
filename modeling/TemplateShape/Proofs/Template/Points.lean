import TemplateShape.Proofs.Path
import TemplateShape.Proofs.Template.Names
import TemplateShape.Proofs.Template.Origin

/-! # Keys without points

Names have no points, so in the outline of a template only a key of the sample can have one. -/

namespace TemplateShape

theorem point_notMem_of_isName {name : String} (h : Tag.IsName name) : '.' ∉ name.toList := by
  intro hmem
  have hword := Scan.isWord_of_mem_name h hmem
  exact absurd hword (by decide)

theorem ne_empty_of_isName {name : String} (h : Tag.IsName name) : name ≠ "" := by
  rcases Scan.exists_of_isName h with ⟨c, cs, hname, -, -⟩
  intro hempty
  simp [hempty] at hname

theorem Finding.Explains.point_notMem {settings : Settings} {finding : Finding} {keys : List String}
    (h : finding.Explains settings keys) (hwritten : finding.IsWritten)
    (hsample : ∀ entry ∈ settings.entrySample, '.' ∉ entry.1.toList) :
    ∀ key ∈ keys, '.' ∉ key.toList := by
  have hpath : ∀ path : NamePath, Condition.IsWritten path → ∀ name ∈ path.rest,
      '.' ∉ name.toList :=
    fun path hnames name hname => point_notMem_of_isName (hnames name (by simp [hname]))
  intro key hkey
  cases finding with
  | assigned path => exact hpath path hwritten key (h.2.subset hkey)
  | printed path => exact hpath path hwritten key (h.2.subset hkey)
  | tested path => exact hpath path hwritten key (h.2.subset hkey)
  | indexed path =>
      rcases List.mem_append.mp (h.2.2.subset hkey) with hname | hindex
      · exact hpath path.base hwritten key hname
      · rw [List.mem_singleton.mp hindex]
        exact Step.point_notMem_text_index path.index
  | entriesLooped mapping =>
      rcases h with ⟨sampleKey, hmem, hkeys⟩
      rcases List.mem_map.mp hmem with ⟨entry, hentry, heq⟩
      rw [hkeys] at hkey
      rw [List.mem_singleton.mp hkey, ← heq]
      exact hsample entry hentry
  | looped list => exact h.elim
  | itemsPrinted list fields => exact h.elim

namespace Outline

variable {settings : Settings} {template root : String} {shape : Shape}

theorem isName_of_find? (h : (ofTemplate settings template).find? root = some shape) :
    Tag.IsName root := by
  have hmem : root ∈ (ofTemplate settings template).names := by
    rw [← find?_isSome_iff, h]
    rfl
  rcases mem_names_ofTemplate_iff.mp hmem with ⟨-, pass, -, use, huse, hroot⟩
  exact hroot ▸ Pass.isName_root_of_mem_uses huse

/-- The keys of a variable have no points, if those of the sample have none. -/
theorem point_notMem_key (hsample : ∀ entry ∈ settings.entrySample, '.' ∉ entry.1.toList)
    {fields : Fields Shape} (h : (ofTemplate settings template).find? root = some (.object fields))
    {key : String} {part : Shape} (hpart : Fields.find? fields key = some part) :
    '.' ∉ key.toList := by
  have hget : (ofTemplate settings template).get? (⟨root, [key]⟩ : NamePath).steps = some part := by
    apply Option.bind_eq_some_iff.mpr
    exact ⟨.object fields, h, Option.bind_eq_some_iff.mpr ⟨part, hpart, rfl⟩⟩
  have hsome : ((ofTemplate settings template).get?
      (⟨root, [key]⟩ : NamePath).steps).isSome := by
    rw [hget]
    rfl
  rcases Template.exists_explains_of_get? rfl hsome with ⟨finding, hshows, -, hexplains⟩
  exact hexplains.point_notMem hshows.isWritten hsample key (by simp)

end Outline

end TemplateShape
