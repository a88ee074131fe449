import TemplateShape.Proofs.Scan.Progress
import TemplateShape.Proofs.Template.Calls
import TemplateShape.Proofs.Template.Reserved
import TemplateShape.Proofs.Text.Trim

/-! # Scrubbed conditions

Before paths are looked for, brackets and runs of blanks can be made single blanks too. That changes
no path, since all of this stands between paths. So what a text reads is put together from the
scrubbed text and the scrubbed arguments of its calls, and nothing is read from deeper inside. -/

namespace TemplateShape.Condition

open Scan

/-! ## Scrubbing -/

def oneOf (marks : List Char) : Scan Unit
  | [] => none
  | c :: text => if c ∈ marks then some ((), text) else none

def bracket : Scan Unit := do
  blanks
  oneOf ['(', ')', '[', ']']
  blanks

/-- The text without literals and numbers, with one blank for each operator, each bracket and each
run of blanks, and with none at its ends. -/
def scrub (text : List Char) : List Char :=
  let text := replaceAll (fun _ => bracket) [' '] (strike text)
  Blank.trim (replaceAll (fun _ => blanks1) [' '] text)

/-! ## Gaps -/

section Gaps

variable {gap : List Char}

/-- Everything about gaps follows from this: at each of their characters the paths fall into two. -/
theorem paths_append_gap {c : Char} (h : IsGap c) (front back : List Char) :
    paths (front ++ c :: back) = paths front ++ paths back :=
  h.stops_namePath.findAll_append rfl h.1 front back

theorem paths_gap_append (h : ∀ c ∈ gap, IsGap c) (back : List Char) :
    paths (gap ++ back) = paths back := by
  induction gap with
  | nil => rfl
  | cons c gap ih =>
      have hfirst := paths_append_gap (h c List.mem_cons_self) [] (gap ++ back)
      exact hfirst.trans (ih fun d hd => h d (List.mem_cons_of_mem c hd))

/-- It does not matter which gap stands between two texts, as long as there is one. -/
theorem paths_append_gap_append (hne : gap ≠ []) (h : ∀ c ∈ gap, IsGap c)
    (front back : List Char) : paths (front ++ (gap ++ back)) = paths front ++ paths back := by
  obtain ⟨c, gap, rfl⟩ := List.exists_cons_of_ne_nil hne
  rw [List.cons_append, paths_append_gap (h c List.mem_cons_self),
    paths_gap_append fun d hd => h d (List.mem_cons_of_mem c hd)]

theorem paths_append_of_gap (h : ∀ c ∈ gap, IsGap c) (front : List Char) :
    paths (front ++ gap) = paths front := by
  by_cases hne : gap = []
  · rw [hne, List.append_nil]
  · have hsplit := paths_append_gap_append hne h front []
    simpa [paths, findAll, pieces, piecesFrom] using hsplit

theorem paths_trim (text : List Char) : paths (Blank.trim text) = paths text := by
  obtain ⟨front, back, htext, hfront, hback⟩ := Blank.exists_trim text
  conv_rhs => rw [htext]
  rw [paths_append_of_gap fun c hc => isGap_of_isBlank (hback c hc),
    paths_gap_append fun c hc => isGap_of_isBlank (hfront c hc)]

end Gaps

def TakesGap (scan : Scan Unit) : Prop :=
  ∀ text rest, scan text = some ((), rest) →
    ∃ gap, gap ≠ [] ∧ text = gap ++ rest ∧ ∀ c ∈ gap, IsGap c

theorem takesGap_blanks1 : TakesGap blanks1 := by
  intro text rest hscan
  obtain ⟨gap, hne, htext, hblank⟩ := exists_of_blanks1 hscan
  exact ⟨gap, hne, htext, fun c hc => isGap_of_isBlank (hblank c hc)⟩

theorem takesGap_bracket : TakesGap bracket := by
  intro text rest hscan
  obtain ⟨⟨⟩, inner, hbefore, hinner⟩ := bind_eq_some_iff.mp hscan
  obtain ⟨⟨⟩, behind, hmark, hbehind⟩ := bind_eq_some_iff.mp hinner
  have htakes : Takes IsGap blanks := .blanks fun c hc => isGap_of_isBlank hc
  obtain ⟨before, rfl, hbeforeAll⟩ := htakes text () inner hbefore
  obtain ⟨after, rfl, hafterAll⟩ := htakes behind () rest hbehind
  cases inner with
  | nil => simp [oneOf] at hmark
  | cons mark inner =>
      simp only [oneOf, Option.ite_none_right_eq_some, Option.some.injEq, Prod.mk.injEq,
        true_and] at hmark
      obtain ⟨hmem, rfl⟩ := hmark
      have hgap : IsGap mark := by
        simp only [List.mem_cons, List.not_mem_nil, or_false] at hmem
        rcases hmem with rfl | rfl | rfl | rfl <;> exact ⟨by decide, by decide⟩
      refine ⟨before ++ mark :: after, by simp, by simp, ?_⟩
      intro c hc
      simp only [List.mem_append, List.mem_cons] at hc
      rcases hc with hc | rfl | hc
      · exact hbeforeAll c hc
      · exact hgap
      · exact hafterAll c hc

/-- A gap may be written as a blank. -/
theorem TakesGap.paths_replaceAll {scan : Scan Unit} (h : TakesGap scan) (text : List Char) :
    paths (replaceAll (fun _ => scan) [' '] text) = paths text := by
  have hmoves : Moves fun _ => scan := by
    intro _ text u rest hscan
    obtain ⟨gap, hne, htext, -⟩ := h text rest hscan
    exact ⟨gap, hne, htext⟩
  have hspace : IsGap ' ' := isGap_of_isBlank (by decide)
  have hbehind : ∀ front back kept : List Char,
      paths (kept ++ replaceFrom (fun _ => scan) [' '] 0 front.getLast? back) =
        paths (kept ++ back) := by
    intro front back
    induction front, back using search_induct hmoves with
    | finish front => simp
    | keep front c back hscan ih =>
        intro kept
        rw [replaceFrom_of_none hscan]
        simpa using ih (kept ++ [c])
    | replace front taken rest u hne hscan ih =>
        intro kept
        obtain ⟨gap, -, htext, hgap⟩ := h (taken ++ rest) rest hscan
        obtain rfl : taken = gap := List.append_cancel_right htext
        have hrest := ih []
        rw [List.nil_append, List.nil_append] at hrest
        rw [replaceFrom_replace hne hscan, List.singleton_append, paths_append_gap hspace, hrest,
          paths_append_gap_append hne hgap]
  exact hbehind [] text []

/-- Scrubbed further, a text keeps its paths. -/
theorem paths_scrub (text : List Char) : paths (scrub text) = paths (strike text) := by
  rw [scrub, paths_trim, takesGap_blanks1.paths_replaceAll, takesGap_bracket.paths_replaceAll]

/-! ## One level of calls -/

section Reading

variable (excluded : String → Bool)

/-- The paths that stand in a text itself, without those whose roots are left out. -/
def ownReads (text : List Char) : List NamePath :=
  (paths (scrub text)).filter fun path => !excluded path.root

def Call.nameReads (found : Call) : List NamePath :=
  if excluded found.name then [] else [.bare found.name]

/-- What a text reads, where `recurse` says what the arguments of its calls read; blank arguments
may be skipped. -/
def readsBy (skipBlank : Bool) (recurse : List Char → List NamePath) (text : List Char) :
    List NamePath :=
  (calls text).flatMap (fun found => found.nameReads excluded ++
    if skipBlank && found.arguments.all Blank.isBlank then [] else recurse found.arguments) ++
  ownReads excluded text

variable {excluded}

theorem Call.reads_eq_nameReads (found : Call) :
    found.reads excluded = found.nameReads excluded ++ ownReads excluded found.arguments := by
  rw [Call.reads, Call.nameReads, ownReads, paths_scrub]

theorem reads_eq_flatMap (text : List Char) :
    reads excluded text = (calls text).flatMap (fun found =>
      found.nameReads excluded ++ ownReads excluded found.arguments) ++ ownReads excluded text := by
  rw [reads_eq, List.flatMap_congr fun found _ => found.reads_eq_nameReads, ownReads, paths_scrub]

theorem calls_arguments {text : List Char} {found : Call} (h : found ∈ calls text) :
    calls found.arguments = [] :=
  calls_of_notMem (notMem_arguments h)

theorem ownReads_blank {text : List Char} (h : text.all Blank.isBlank = true) :
    ownReads excluded text = [] := by
  rw [ownReads, paths_scrub, paths_strike_blanks h, List.filter_nil]

/-- It only matters what is said about the arguments of calls. -/
theorem readsBy_eq_reads (skipBlank : Bool) {recurse : List Char → List NamePath}
    {text : List Char}
    (h : ∀ found ∈ calls text, recurse found.arguments = ownReads excluded found.arguments) :
    readsBy excluded skipBlank recurse text = reads excluded text := by
  have hcall : ∀ found ∈ calls text,
      (if skipBlank && found.arguments.all Blank.isBlank then [] else recurse found.arguments) =
        ownReads excluded found.arguments := by
    intro found hfound
    split
    · rename_i hskip
      exact (ownReads_blank (Bool.and_eq_true_iff.mp hskip).2).symm
    · exact h found hfound
  rw [readsBy, reads_eq_flatMap, List.flatMap_congr fun found hfound => by
    rw [hcall found hfound]]

theorem readsBy_of_no_calls (skipBlank : Bool) (recurse : List Char → List NamePath)
    {text : List Char} (h : calls text = []) :
    readsBy excluded skipBlank recurse text = ownReads excluded text := by
  rw [readsBy, h, List.flatMap_nil, List.nil_append]

theorem reads_of_no_calls {text : List Char} (h : calls text = []) :
    reads excluded text = ownReads excluded text := by
  rw [reads_eq_flatMap, h, List.flatMap_nil, List.nil_append]

end Reading

/-- What a text reads has a flat form: for each of its calls the function and the paths of the
arguments, and then the paths of the text. So the recursion into arguments ends after one level, for
there are no calls inside of arguments, and what a further level would give is never asked for. That
blank arguments are skipped cannot be told from the result, and roots can be left out afterwards as
well. -/
theorem reads_one_level (excluded : String → Bool) (text : List Char) :
    reads excluded text = (calls text).flatMap (fun found =>
        found.nameReads excluded ++ ownReads excluded found.arguments) ++ ownReads excluded text ∧
    (∀ found ∈ calls text, calls found.arguments = []) ∧
    (∀ skipBlank, readsBy excluded skipBlank (reads excluded) text = reads excluded text ∧
      ∀ recurse, readsBy excluded skipBlank (readsBy excluded skipBlank recurse) text =
        reads excluded text) ∧
    reads excluded text = (reads (fun _ => false) text).filter fun path => !excluded path.root := by
  have hdeeper : ∀ found ∈ calls text, calls found.arguments = [] :=
    fun found hfound => calls_arguments hfound
  refine ⟨reads_eq_flatMap text, hdeeper, fun skipBlank => ⟨?_, fun recurse => ?_⟩,
    reads_eq_filter excluded text⟩
  · exact readsBy_eq_reads skipBlank fun found hfound => reads_of_no_calls (hdeeper found hfound)
  · exact readsBy_eq_reads skipBlank fun found hfound =>
      readsBy_of_no_calls skipBlank recurse (hdeeper found hfound)

/-- The arguments of `f` end in front of `, y`, so `g` is no call inside of them. -/
example : reads (fun _ => false) "f(g(x), y)".toList =
    [.bare "f", .bare "g", .bare "x", .bare "f", .bare "g", .bare "x", .bare "y"] := by
  decide +kernel

end TemplateShape.Condition
