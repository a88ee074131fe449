import TemplateShape.Template.Outline

/-! # What is reported

A finding reports what became of the row of its variable, and what it remarks. Each pass reports at
its end how many variables have a shape and how many are read, and no finding reports such a
count. -/

namespace TemplateShape

namespace Notice

theorem exists_of_mem_along {σ α : Type} {step : σ → α → σ} {notices : σ → α → List Notice}
    {state : σ} {items : List α} {notice : Notice} (h : notice ∈ along step notices state items) :
    ∃ front item back, items = front ++ item :: back ∧
      notice ∈ notices (front.foldl step state) item := by
  induction items generalizing state with
  | nil => simp [along] at h
  | cons item rest ih =>
      rcases List.mem_append.mp h with hitem | hrest
      · exact ⟨[], item, rest, rfl, hitem⟩
      · obtain ⟨front, later, back, rfl, hlater⟩ := ih hrest
        exact ⟨item :: front, later, back, rfl, hlater⟩

/-- What items report in whatever state, a run reports exactly if one of them does. -/
theorem mem_along_iff {σ α : Type} {step : σ → α → σ} {notices : σ → α → List Notice}
    {notice : Notice} {p : α → Prop} (h : ∀ state item, notice ∈ notices state item ↔ p item)
    (state : σ) (items : List α) :
    notice ∈ along step notices state items ↔ ∃ item ∈ items, p item := by
  induction items generalizing state with
  | nil => simp [along]
  | cons item rest ih => simp [along, h, ih]

def isCount : Notice → Bool
  | .passDone .. => true
  | _ => false

def isOfRow : Notice → Bool
  | .learned .. | .replaced .. | .kept .. | .writeDropped .. => true
  | _ => false

end Notice

theorem Finding.isCount_of_remark_mem_edits {settings : Settings} {finding : Finding}
    {notice : Notice} (h : .remark notice ∈ finding.edits settings) : notice.isCount = false := by
  have hwrite : ∀ path further leaf, writeAt path further leaf = .remark notice →
      notice.isCount = false := by
    intro path further leaf heq
    unfold writeAt at heq
    split at heq
    · simp at heq
    · rw [← Edit.remark.inj heq]
      rfl
  have hpath : ∀ policy path leaf, .remark notice ∈ editsOfPath policy path leaf →
      notice.isCount = false := by
    intro policy path leaf hmem
    unfold editsOfPath at hmem
    split at hmem
    · simp at hmem
    · have heq : .remark notice = writeAt path [] leaf := by simpa using hmem
      exact hwrite path [] leaf heq.symm
  cases finding with
  | assigned path => exact hpath _ _ _ h
  | printed path => exact hpath _ _ _ h
  | looped list => simp [edits] at h
  | entriesLooped mapping => simp [edits] at h
  | tested path =>
      simp only [edits] at h
      split at h
      · simp at h
      · exact hpath _ _ _ h
  | indexed path =>
      simp only [edits, List.mem_cons, reduceCtorEq, false_or, List.not_mem_nil, or_false] at h
      split at h
      · exact hwrite _ _ _ h.symm
      · rw [Edit.remark.inj h]
        rfl
  | itemsPrinted list fields =>
      simp only [edits] at h
      split at h
      · simp at h
      · have hnotice : notice = .itemFields list fields := by simpa using h
        rw [hnotice]
        rfl

/-- A change to an outline reports what became of a row, and a remark reports all else. -/
theorem Edit.mem_notices_iff {notice : Notice} (h : notice.isOfRow = false) (outline : Outline)
    (edit : Edit) : notice ∈ edit.notices outline ↔ edit = .remark notice := by
  have hnone : ∀ {reported : List Notice}, (∀ other ∈ reported, other.isOfRow = true) →
      notice ∉ reported := by
    intro reported hall hmem
    simp [hall notice hmem] at h
  cases edit with
  | learn policy name shape =>
      have hlearn : ∀ other ∈ outline.learnNotices policy name shape, other.isOfRow = true := by
        unfold Outline.learnNotices
        split
        · simp [Notice.isOfRow]
        · split <;> simp [Notice.isOfRow]
      simpa [notices] using hnone hlearn
  | assume policy name shape => simp [notices]
  | write path leaf =>
      have hdropped : ∀ (shape : Shape) (steps : List Step),
          ∀ other ∈ shape.putNotices steps, other.isOfRow = true := by
        intro shape steps other hmem
        obtain ⟨key, -, rfl⟩ := List.mem_map.mp hmem
        rfl
      have hwrite : ∀ other ∈ outline.putNotices path, other.isOfRow = true := by
        unfold Outline.putNotices
        split
        · rename_i root steps
          cases outline.find? root with
          | none => simp
          | some shape => exact hdropped shape steps
        · simp
      simpa [notices] using hnone hwrite
  | remark remark => simp [notices, eq_comm]

namespace Draft

variable {settings : Settings} {template : List Char}

theorem mem_addNotices_iff {notice : Notice} (h : notice.isOfRow = false) (draft : Draft)
    (finding : Finding) :
    notice ∈ draft.addNotices settings finding ↔ .remark notice ∈ finding.edits settings := by
  rw [addNotices, Notice.mem_along_iff (Edit.mem_notices_iff h), exists_eq_right]

theorem isCount_of_mem_addNotices {draft : Draft} {finding : Finding} {notice : Notice}
    (h : notice ∈ draft.addNotices settings finding) : notice.isCount = false := by
  cases hrow : notice.isOfRow with
  | true =>
      cases notice with
      | passDone pass shapes readNames => simp [Notice.isOfRow] at hrow
      | _ => rfl
  | false => exact Finding.isCount_of_remark_mem_edits ((mem_addNotices_iff hrow _ _).mp h)

/-- The only count that a pass reports is the one at its end. -/
theorem eq_of_passDone_mem_runNotices {draft : Draft} {pass : Pass} {name : String}
    {shapes readNames : Nat}
    (h : .passDone name shapes readNames ∈ draft.runNotices settings template pass) :
    name = pass.name ∧ shapes = (draft.run settings template pass).outline.size ∧
      readNames = (draft.run settings template pass).readNames.length := by
  rcases List.mem_append.mp h with hmem | hmem
  · obtain ⟨front, finding, back, -, hnotice⟩ := Notice.exists_of_mem_along hmem
    simpa [Notice.isCount] using isCount_of_mem_addNotices hnotice
  · simpa using hmem

end Draft

end TemplateShape
