import TemplateShape.Form.Address
import TemplateShape.Proofs.Path.Grammar
import TemplateShape.Proofs.Template.Names

/-! # Paths that are split again

A scanner knows the names of a path that it takes. If only the text of the path is handed on, the
reader of paths has to find them again. It does: whatever text a path is scanned in, it is read as
its names. So no path is handed on in vain, and only those with too many names are not written. -/

namespace TemplateShape

/-! ## Splitting -/

namespace Path

def rootOf (text : String) : String :=
  (Form.parts text).headD text

/-- The steps that a text is split into, or what is reported instead. -/
def split (text : String) : Except Notice (List Step) :=
  match parse? text with
  | some steps =>
      if steps.length ≤ Finding.depthLimit then .ok steps
      else .error (.pathTooDeep (rootOf text) steps.length)
  | none => .error (.pathUnreadable text)

/-- A text that is read as its parts, which are all keys and begin with `root`. -/
structure ReadsAsKeys (text root : String) : Prop where
  parse?_eq : parse? text = some ((Form.parts text).map .key)
  head?_eq : (Form.parts text).head? = some root
  rootOf_eq : rootOf text = root

theorem ReadsAsKeys.split_eq {text root : String} (h : ReadsAsKeys text root) :
    split text =
      if (Form.parts text).length ≤ Finding.depthLimit then .ok ((Form.parts text).map .key)
      else .error (.pathTooDeep root (Form.parts text).length) := by
  simp only [split, h.parse?_eq, h.rootOf_eq, List.length_map]

theorem ReadsAsKeys.split_eq_error_iff {text root : String} (h : ReadsAsKeys text root)
    {notice : Notice} : split text = .error notice ↔
      Finding.depthLimit < (Form.parts text).length ∧
        notice = .pathTooDeep root (Form.parts text).length := by
  rw [h.split_eq]
  split
  · rename_i hlength
    simp [Nat.not_lt.mpr hlength]
  · rename_i hlength
    simp [Nat.lt_of_not_le hlength, eq_comm]

end Path

/-! ## Texts of scanned paths -/

/-- What a path scanner takes is the text of the path. -/
theorem Scan.eq_text_append_of_namePath {text rest : List Char} {path : NamePath}
    (h : namePath text = some (path, rest)) : text = path.text.toList ++ rest := by
  obtain ⟨root, behind, hroot, hbehind⟩ := bind_eq_some_iff.mp h
  obtain ⟨names, last, hnames, hpure⟩ := bind_eq_some_iff.mp hbehind
  obtain ⟨rfl, rfl⟩ := Prod.mk.inj (Option.some.inj hpure)
  have hname : ∀ {text rest name}, Scan.name text = some (name, rest) →
      ∃ piece, text = piece ++ rest ∧ Ascii.isName piece = true ∧ name = String.ofList piece := by
    intro text rest name hscan
    obtain ⟨htext, hwritten, -⟩ := name_eq_some_iff.mp hscan
    exact ⟨name.toList, htext, hwritten, String.ofList_toList.symm⟩
  obtain ⟨pieces, hpieces, -, rfl⟩ := exists_of_upTo hname hnames
  rw [toList_text, (name_eq_some_iff.mp hroot).1, hpieces, List.flatMap_map, List.append_assoc]
  simp only [String.toList_ofList]

namespace Condition.IsWritten

variable {path : NamePath}

/-- Between the points of a path stand its names. -/
theorem parts_text (h : IsWritten path) : Form.parts path.text = path.root :: path.rest := by
  have htext : path.text.toList =
      ['.'].intercalate ((path.root :: path.rest).map String.toList) := String.toList_intercalate
  have hpoint : ∀ piece ∈ (path.root :: path.rest).map String.toList, '.' ∉ piece := by
    intro piece hpiece hmem
    obtain ⟨name, hname, rfl⟩ := List.mem_map.mp hpiece
    exact absurd (Scan.isWord_of_mem_name (h name hname) hmem) (by decide)
  rw [Form.parts, htext, List.splitOn_intercalate '.' hpoint (by simp), List.map_map]
  exact (List.map_congr_left fun name _ => String.ofList_toList).trans (List.map_id _)

theorem parse?_text (h : IsWritten path) : Path.parse? path.text = some path.steps := by
  have hproper : Path.IsProper path.steps := by
    refine ⟨⟨path.root, rfl⟩, fun step hstep => ?_⟩
    obtain ⟨name, hname, rfl⟩ : ∃ name ∈ path.root :: path.rest, Step.key name = step :=
      List.mem_map.mp hstep
    exact h name hname
  have hrender : Path.render path.steps = path.text := by
    have hnames : path.steps.map Step.text = path.root :: path.rest := by
      simp [NamePath.steps, NamePath.below, Step.text, Function.comp_def]
    rw [Path.render, hnames]
    rfl
  rw [← hrender, Path.parse?_render hproper]

theorem readsAsKeys (h : IsWritten path) : Path.ReadsAsKeys path.text path.root where
  parse?_eq := by rw [h.parse?_text, h.parts_text]; rfl
  head?_eq := by rw [h.parts_text]; rfl
  rootOf_eq := by rw [Path.rootOf, h.parts_text]; rfl

theorem contains_point (h : IsWritten path) : path.text.toList.contains '.' = !path.isBare := by
  have hroot : '.' ∉ path.root.toList := by
    intro hmem
    exact absurd (Scan.isWord_of_mem_name (h path.root List.mem_cons_self) hmem) (by decide)
  rw [Scan.toList_text, NamePath.isBare]
  cases path.rest with
  | nil => simpa using hroot
  | cons name names => simp

end Condition.IsWritten

/-! ## Requests -/

/-- What a finding asks for if its path is known as a text alone: an edit, or a write behind the
steps that the text is split into. -/
inductive Request
  | direct (edit : Edit)
  | write (text : String) (further : List Step) (leaf : Shape)

def Request.toEdit : Request → Edit
  | .direct edit => edit
  | .write text further leaf =>
      match Path.split text with
      | .ok steps => .write (steps ++ further) leaf
      | .error notice => .remark notice

@[simp] theorem Request.toEdit_direct (edit : Edit) : (Request.direct edit).toEdit = edit := rfl

theorem Path.ReadsAsKeys.toEdit_write {text root : String} (h : ReadsAsKeys text root)
    (further : List Step) (leaf : Shape) :
    (Request.write text further leaf).toEdit =
      if (Form.parts text).length ≤ Finding.depthLimit then
        .write ((Form.parts text).map .key ++ further) leaf
      else .remark (.pathTooDeep root (Form.parts text).length) := by
  by_cases hlength : (Form.parts text).length ≤ Finding.depthLimit
  · rw [Request.toEdit, h.split_eq, if_pos hlength, if_pos hlength]
  · rw [Request.toEdit, h.split_eq, if_neg hlength, if_neg hlength]

namespace Finding

def requestsOfPath (policy : Policy) (text : String) (leaf : Shape) : List Request :=
  if text.toList.contains '.' then
    [.direct (.learn policy (Path.rootOf text) (.object [])), .write text [] leaf]
  else [.direct (.learn .keep (Path.rootOf text) leaf)]

def requests (settings : Settings) : Finding → List Request
  | .assigned source => requestsOfPath .keep source.text Shape.printed
  | .printed path => requestsOfPath .upgrade path.text Shape.printed
  | .tested path =>
      if path.text.toList.contains '.' then requestsOfPath .upgrade path.text Shape.tested
      else [.direct (.assume .keep (Path.rootOf path.text) Shape.tested)]
  | .indexed path =>
      [.direct (.learn .upgrade (Path.rootOf path.base.text)
          (if path.base.text.toList.contains '.' then .object [] else .array [])),
        if path.index ≤ settings.indexLimit then
          .write path.base.text [.index path.index] Shape.printed
        else
          .direct (.remark
            (.indexTooLarge path.base.text (String.ofList path.digits) settings.indexLimit))]
  | finding => (finding.edits settings).map .direct

variable {settings : Settings}

theorem toEdit_write {path : NamePath} (h : Condition.IsWritten path) (further : List Step)
    (leaf : Shape) : (Request.write path.text further leaf).toEdit = writeAt path further leaf := by
  rw [h.readsAsKeys.toEdit_write, h.parts_text]
  rfl

theorem map_toEdit_requestsOfPath {path : NamePath} (h : Condition.IsWritten path) (policy : Policy)
    (leaf : Shape) :
    (requestsOfPath policy path.text leaf).map Request.toEdit = editsOfPath policy path leaf := by
  rw [requestsOfPath, editsOfPath, h.contains_point, h.readsAsKeys.rootOf_eq]
  cases path.isBare with
  | true => rfl
  | false => simp [toEdit_write h]

/-- The texts of the paths do as well as their names. -/
theorem IsWritten.map_toEdit_requests {finding : Finding} (h : finding.IsWritten) :
    (finding.requests settings).map Request.toEdit = finding.edits settings := by
  have hedits : ∀ edits : List Edit, (edits.map Request.direct).map Request.toEdit = edits := by
    intro edits
    rw [List.map_map]
    exact List.map_id edits
  cases finding with
  | assigned path => exact map_toEdit_requestsOfPath h .keep Shape.printed
  | printed path => exact map_toEdit_requestsOfPath h .upgrade Shape.printed
  | tested path =>
      have hpath : Condition.IsWritten path := h
      rw [requests, edits, hpath.contains_point, hpath.readsAsKeys.rootOf_eq]
      cases path.isBare with
      | true => rfl
      | false => exact map_toEdit_requestsOfPath h .upgrade Shape.tested
  | indexed path =>
      have hbase : Condition.IsWritten path.base := h
      rw [requests, edits, hbase.contains_point, hbase.readsAsKeys.rootOf_eq]
      by_cases hindex : path.index ≤ settings.indexLimit
      · cases hbare : path.base.isBare <;> simp [hindex, toEdit_write hbase]
      · cases hbare : path.base.isBare <;> simp [hindex]
  | looped list => exact hedits _
  | entriesLooped mapping => exact hedits _
  | itemsPrinted list fields => exact hedits _

/-- A path is handed on behind the seed of its row, and nothing else is asked for. -/
theorem IsWritten.requests_eq_of_write {use : Finding} (h : use.IsWritten) {text : String}
    {further : List Step} {leaf : Shape}
    (hwrite : .write text further leaf ∈ use.requests settings) :
    Path.ReadsAsKeys text use.root ∧ ∃ policy seed, seed.isContainer = true ∧
      use.requests settings =
        [.direct (.learn policy use.root seed), .write text further leaf] := by
  have hpath : ∀ {path : NamePath} {policy : Policy} {sample : Shape}, Condition.IsWritten path →
      .write text further leaf ∈ requestsOfPath policy path.text sample →
      Path.ReadsAsKeys text path.root ∧ requestsOfPath policy path.text sample =
        [.direct (.learn policy path.root (.object [])), .write text further leaf] := by
    intro path policy sample hwritten hmem
    unfold requestsOfPath at hmem ⊢
    split at hmem
    · rename_i hpoint
      obtain ⟨rfl, rfl, rfl⟩ : text = path.text ∧ further = [] ∧ leaf = sample := by
        simpa using hmem
      rw [if_pos hpoint, hwritten.readsAsKeys.rootOf_eq]
      exact ⟨hwritten.readsAsKeys, rfl⟩
    · simp at hmem
  have hdirect : ∀ edits : List Edit, .write text further leaf ∉ edits.map Request.direct := by
    simp
  cases use with
  | assigned path =>
      obtain ⟨hreads, hrequests⟩ := hpath h hwrite
      exact ⟨hreads, .keep, .object [], rfl, hrequests⟩
  | printed path =>
      obtain ⟨hreads, hrequests⟩ := hpath h hwrite
      exact ⟨hreads, .upgrade, .object [], rfl, hrequests⟩
  | tested path =>
      simp only [requests] at hwrite ⊢
      split at hwrite
      · rename_i hpoint
        obtain ⟨hreads, hrequests⟩ := hpath h hwrite
        rw [if_pos hpoint]
        exact ⟨hreads, .upgrade, .object [], rfl, hrequests⟩
      · simp at hwrite
  | indexed path =>
      have hbase : Condition.IsWritten path.base := h
      by_cases hindex : path.index ≤ settings.indexLimit
      · simp only [requests, if_pos hindex, hbase.readsAsKeys.rootOf_eq] at hwrite ⊢
        obtain ⟨rfl, rfl, rfl⟩ : text = path.base.text ∧ further = [.index path.index] ∧
            leaf = Shape.printed := by simpa using hwrite
        refine ⟨hbase.readsAsKeys, .upgrade, _, ?_, rfl⟩
        split <;> rfl
      · simp [requests, if_neg hindex] at hwrite
  | looped list => exact absurd hwrite (hdirect _)
  | entriesLooped mapping => exact absurd hwrite (hdirect _)
  | itemsPrinted list fields => exact absurd hwrite (hdirect _)

/-- What becomes of a path that a use hands on as a text, in whatever draft. The row of its variable
is marked as read and gets a container as its seed. If the text has not too many parts, the write
then goes into the shape that this row has. No other row is changed or added. -/
def WritesSeededRow (settings : Settings) (use : Finding) (text : String) (further : List Step)
    (leaf : Shape) : Prop :=
  ∃ policy seed, seed.isContainer = true ∧
    use.requests settings = [.direct (.learn policy use.root seed), .write text further leaf] ∧
    ∀ draft : Draft, ∃ shape,
      (draft.outline.learn policy use.root seed).find? use.root = some shape ∧
      use.root ∈ (draft.add settings use).readNames ∧
      (draft.add settings use).outline.names =
        (draft.outline.learn policy use.root seed).names ∧
      ∀ name, (draft.add settings use).outline.find? name =
        if name = use.root ∧ (Form.parts text).length ≤ depthLimit then
          some (shape.put ((Form.parts text).tail.map .key ++ further) leaf)
        else (draft.outline.learn policy use.root seed).find? name

theorem IsWritten.writesSeededRow {use : Finding} (h : use.IsWritten) {text : String}
    {further : List Step} {leaf : Shape}
    (hwrite : .write text further leaf ∈ use.requests settings) :
    use.WritesSeededRow settings text further leaf := by
  obtain ⟨hreads, policy, seed, hcontainer, hrequests⟩ := h.requests_eq_of_write hwrite
  refine ⟨policy, seed, hcontainer, hrequests, fun draft => ?_⟩
  have hedits : use.edits settings =
      [.learn policy use.root seed, (Request.write text further leaf).toEdit] := by
    rw [← h.map_toEdit_requests, hrequests]
    rfl
  have hedit : (Request.write text further leaf).toEdit ∈ use.edits settings := by simp [hedits]
  have hconcerns : (Request.write text further leaf).toEdit.Concerns use.root :=
    concerns_root hedit
  generalize hseeded : draft.outline.learn policy use.root seed = seeded
  have hadd : (draft.add settings use).outline =
      (Request.write text further leaf).toEdit.apply seeded := by
    simp [Draft.add, hedits, ← hseeded, Edit.apply]
  have hshape : seeded.find? use.root =
      some (Outline.learned policy seed (draft.outline.find? use.root)) := by
    rw [← hseeded, Outline.find?_learn, if_pos rfl]
  have hmem : use.root ∈ seeded.names := by
    rw [← Outline.find?_isSome_iff, hshape]
    rfl
  refine ⟨_, hshape, (Draft.mem_readNames_markRead draft use.root use.root).mpr (.inr rfl), ?_, ?_⟩
  · rw [hadd, Edit.names_apply_of_mem hconcerns hmem]
  · intro name
    obtain ⟨rest, hparts⟩ := List.head?_eq_some_iff.mp hreads.head?_eq
    rw [hadd, Edit.find?_apply hconcerns, hreads.toEdit_write, hshape]
    by_cases hname : name = use.root
    · by_cases hlength : (Form.parts text).length ≤ depthLimit
      · rw [if_pos hname, if_pos hlength, if_pos ⟨hname, hlength⟩, hparts]
        rfl
      · rw [if_pos hname, if_neg hlength, if_neg fun hwritten => hlength hwritten.2, hname, hshape]
        rfl
    · rw [if_neg hname, if_neg fun hwritten => hname hwritten.1]

end Finding

/-! ## Paths that are not written -/

def Notice.isSkip : Notice → Bool
  | .pathTooDeep .. | .pathUnreadable .. => true
  | _ => false

section Skipped

variable {settings : Settings} {notice : Notice}

theorem Notice.isOfRow_of_isSkip (h : notice.isSkip = true) : notice.isOfRow = false := by
  cases notice with
  | pathTooDeep root depth => rfl
  | pathUnreadable text => rfl
  | _ => simp [isSkip] at h

theorem Finding.isSkip_of_remark_mem_requests {use : Finding}
    (h : .direct (.remark notice) ∈ use.requests settings) : notice.isSkip = false := by
  have hpath : ∀ policy text leaf, .direct (.remark notice) ∉ requestsOfPath policy text leaf := by
    intro policy text leaf
    unfold requestsOfPath
    split <;> simp
  cases use with
  | assigned path => exact absurd h (hpath _ _ _)
  | printed path => exact absurd h (hpath _ _ _)
  | tested path =>
      simp only [requests] at h
      split at h
      · exact absurd h (hpath _ _ _)
      · simp at h
  | indexed path =>
      by_cases hindex : path.index ≤ settings.indexLimit
      · simp [requests, hindex] at h
      · have hnotice : notice = .indexTooLarge path.base.text (String.ofList path.digits)
            settings.indexLimit := by simpa [requests, hindex] using h
        rw [hnotice]
        rfl
  | looped list => simp [requests, edits] at h
  | entriesLooped mapping => simp [requests, edits] at h
  | itemsPrinted list fields =>
      simp only [requests, edits] at h
      split at h
      · simp at h
      · have hnotice : notice = .itemFields list fields := by simpa using h
        rw [hnotice]
        rfl

theorem Finding.IsWritten.remark_mem_edits_iff {use : Finding} (h : use.IsWritten)
    (hskip : notice.isSkip = true) : .remark notice ∈ use.edits settings ↔
      ∃ text further leaf, .write text further leaf ∈ use.requests settings ∧
        Path.split text = .error notice := by
  rw [← h.map_toEdit_requests, List.mem_map]
  constructor
  · rintro ⟨request, hrequest, hremark⟩
    cases request with
    | direct edit =>
        have hedit : edit = .remark notice := hremark
        rw [hedit] at hrequest
        simp [isSkip_of_remark_mem_requests hrequest] at hskip
    | write text further leaf =>
        refine ⟨text, further, leaf, hrequest, ?_⟩
        cases hsplit : Path.split text with
        | ok steps => simp [Request.toEdit, hsplit] at hremark
        | error other =>
            have hother : other = notice := by simpa [Request.toEdit, hsplit] using hremark
            rw [hother]
  · rintro ⟨text, further, leaf, hrequest, hsplit⟩
    exact ⟨_, hrequest, by rw [Request.toEdit, hsplit]⟩

theorem Outline.mem_templateNotices_iff_of_isSkip (hskip : notice.isSkip = true)
    (template : String) : notice ∈ templateNotices settings template ↔
      ∃ pass ∈ Pass.all, ∃ use ∈ pass.findings settings template.toList,
        .remark notice ∈ use.edits settings := by
  have hrun : ∀ draft pass, notice ∈ Draft.runNotices settings template.toList draft pass ↔
      ∃ use ∈ pass.findings settings template.toList, .remark notice ∈ use.edits settings := by
    intro draft pass
    have hrow := Notice.isOfRow_of_isSkip hskip
    rw [Draft.runNotices, List.mem_append, Notice.mem_along_iff (Draft.mem_addNotices_iff hrow)]
    refine or_iff_left fun hmem => ?_
    simp [List.mem_singleton.mp hmem, Notice.isSkip] at hskip
  rw [templateNotices, List.mem_append, Notice.mem_along_iff hrun]
  refine or_iff_left fun hmem => ?_
  simp [List.mem_singleton.mp hmem, Notice.isSkip] at hskip

end Skipped

/-! ## All paths of a template -/

namespace Template

/-- Scanning a path and reading its text never differ. What a path scanner takes off any text is
the text of the path, and it is read as its parts, all of them keys, the first being the root; so is
every path that an expression reads. If the passes hand on the texts of their paths alone, what
follows for the outline is the same. Each such text belongs to the variable whose row has just been
marked as read and seeded, and it is split into its parts unless there are more than 64 of them.
So it is never reported that a text could not be split, and a path is reported as too deep exactly
if it has more than 64 parts. -/
theorem paths_are_split_as_scanned (settings : Settings) (template : String) :
    (∀ text path rest, Scan.namePath text = some (path, rest) →
      text = path.text.toList ++ rest ∧ Path.ReadsAsKeys path.text path.root) ∧
    (∀ excluded expression, ∀ path ∈ Condition.reads excluded expression,
      Path.ReadsAsKeys path.text path.root) ∧
    (∀ pass, ∀ use ∈ Pass.uses template.toList pass,
      (use.requests settings).map Request.toEdit = use.edits settings ∧
      ∀ text further leaf, .write text further leaf ∈ use.requests settings →
        Path.ReadsAsKeys text use.root ∧
        Path.split text =
          (if (Form.parts text).length ≤ 64 then .ok ((Form.parts text).map .key)
          else .error (.pathTooDeep use.root (Form.parts text).length)) ∧
        use.WritesSeededRow settings text further leaf) ∧
    (∀ text, .pathUnreadable text ∉ Outline.templateNotices settings template) ∧
    ∀ root depth, .pathTooDeep root depth ∈ Outline.templateNotices settings template ↔
      ∃ pass ∈ Pass.all, ∃ use ∈ pass.findings settings template.toList,
        ∃ text further leaf, .write text further leaf ∈ use.requests settings ∧
          Path.rootOf text = root ∧ (Form.parts text).length = depth ∧ 64 < depth := by
  have hwritten : ∀ {pass : Pass}, ∀ use ∈ pass.findings settings template.toList,
      use.IsWritten :=
    fun use huse => Pass.isWritten_of_mem_uses (List.mem_filter.mp huse).1
  refine ⟨fun text path rest hscan => ?_, fun excluded expression path hpath => ?_,
    fun pass use huse => ?_, fun text hmem => ?_, fun root depth => ?_⟩
  · exact ⟨Scan.eq_text_append_of_namePath hscan,
      Condition.IsWritten.readsAsKeys (Scan.gives_namePath text path rest hscan)⟩
  · exact (Condition.isWritten_of_mem_readsWithin hpath).readsAsKeys
  · have huseWritten := Pass.isWritten_of_mem_uses huse
    refine ⟨huseWritten.map_toEdit_requests, fun text further leaf hwrite => ?_⟩
    have hreads := (huseWritten.requests_eq_of_write hwrite).1
    exact ⟨hreads, hreads.split_eq, huseWritten.writesSeededRow hwrite⟩
  · obtain ⟨pass, -, use, huse, hremark⟩ :=
      (Outline.mem_templateNotices_iff_of_isSkip rfl template).mp hmem
    obtain ⟨other, further, leaf, hwrite, hsplit⟩ :=
      ((hwritten use huse).remark_mem_edits_iff rfl).mp hremark
    have hreads := ((hwritten use huse).requests_eq_of_write hwrite).1
    simpa using (hreads.split_eq_error_iff.mp hsplit).2
  · rw [Outline.mem_templateNotices_iff_of_isSkip rfl]
    refine exists_congr fun pass => and_congr_right fun _ => exists_congr fun use => ?_
    refine and_congr_right fun huse => ?_
    rw [(hwritten use huse).remark_mem_edits_iff rfl]
    refine exists_congr fun text => exists_congr fun further => exists_congr fun leaf => ?_
    refine and_congr_right fun hwrite => ?_
    have hreads := ((hwritten use huse).requests_eq_of_write hwrite).1
    rw [hreads.split_eq_error_iff, Notice.pathTooDeep.injEq, hreads.rootOf_eq]
    constructor
    · rintro ⟨hlength, rfl, rfl⟩
      exact ⟨rfl, rfl, hlength⟩
    · rintro ⟨rfl, rfl, hlength⟩
      exact ⟨hlength, rfl, rfl⟩

/-- A path whose names stand around a literal, and one with a name too many. -/
theorem paths_are_split_as_scanned_around_literal :
    (Scan.namePath "it.s ".toList = some (⟨"it", ["s"]⟩, [' ']) ∧
      "it.s ".toList = (NamePath.mk "it" ["s"]).text.toList ++ [' ']) ∧
    (⟨"it", ["s"]⟩ ∈ Condition.reads (fun _ => false) "it'x'.s ".toList ∧
      Path.ReadsAsKeys "it.s" "it") ∧
    (∃ use ∈ Pass.uses "\x7b% if it'x'.s %\x7d".toList .condition,
      .write "it.s" [] Shape.tested ∈ use.requests {} ∧
      Path.parse? "it.s" = some ((Form.parts "it.s").map .key) ∧
      use.WritesSeededRow {} "it.s" [] Shape.tested) ∧
    .pathTooDeep "a" 65 ∈ Outline.templateNotices {}
      ("\x7b\x7b " ++ (NamePath.mk "a" (List.replicate 64 "a")).text ++ " \x7d\x7d") := by
  obtain ⟨hscans, hreads, huses, -, -⟩ :=
    paths_are_split_as_scanned {} "\x7b% if it'x'.s %\x7d"
  refine ⟨?_, ?_, ?_, ?_⟩
  · have hscan : Scan.namePath "it.s ".toList = some (⟨"it", ["s"]⟩, [' ']) := by decide +kernel
    exact ⟨hscan, (hscans _ _ _ hscan).1⟩
  · have hread : ⟨"it", ["s"]⟩ ∈ Condition.reads (fun _ => false) "it'x'.s ".toList := by
      decide +kernel
    exact ⟨hread, hreads _ _ _ hread⟩
  · have huse : Finding.tested ⟨"it", ["s"]⟩ ∈
        Pass.uses "\x7b% if it'x'.s %\x7d".toList .condition := by
      have hpath : ⟨"it", ["s"]⟩ ∈ tested "\x7b% if it'x'.s %\x7d".toList := by decide +kernel
      rw [uses_condition]
      exact List.mem_map_of_mem hpath
    have hwrite : .write "it.s" [] Shape.tested ∈ (Finding.tested ⟨"it", ["s"]⟩).requests {} :=
      List.mem_cons_of_mem _ List.mem_cons_self
    obtain ⟨hkeys, -, hrow⟩ := (huses .condition _ huse).2 _ _ _ hwrite
    exact ⟨_, huse, hwrite, hkeys.parse?_eq, hrow⟩
  · obtain ⟨-, -, -, -, hdeep⟩ := paths_are_split_as_scanned {}
      ("\x7b\x7b " ++ (NamePath.mk "a" (List.replicate 64 "a")).text ++ " \x7d\x7d")
    have hname : ∀ name ∈ List.replicate 64 "a", Tag.IsName name := by
      intro name hname
      rw [List.eq_of_mem_replicate hname]
      decide
    have hpath : Condition.IsWritten ⟨"a", List.replicate 64 "a"⟩ :=
      List.forall_mem_cons.mpr ⟨by decide, hname⟩
    have huse : .printed ⟨"a", List.replicate 64 "a"⟩ ∈ Pass.findings {}
        ("\x7b\x7b " ++ (NamePath.mk "a" (List.replicate 64 "a")).text ++ " \x7d\x7d").toList
        .output := by
      refine List.mem_filter.mpr ⟨List.mem_map_of_mem ?_, by decide +kernel⟩
      rw [String.toList_append, String.toList_append, Scan.toList_text]
      decide +kernel
    have hwrite : .write (NamePath.mk "a" (List.replicate 64 "a")).text [] Shape.printed ∈
        (Finding.printed ⟨"a", List.replicate 64 "a"⟩).requests {} := by
      rw [Finding.requests, Finding.requestsOfPath, hpath.contains_point]
      exact List.mem_cons_of_mem _ List.mem_cons_self
    refine (hdeep "a" 65).mpr ⟨.output, by decide, _, huse, _, [], _, hwrite, ?_, ?_, by decide⟩
    · exact hpath.readsAsKeys.rootOf_eq
    · rw [hpath.parts_text]
      rfl

end Template

end TemplateShape
