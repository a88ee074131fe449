import Mathlib.Data.List.Forall2
import TemplateShape.Proofs.Decimal.Whole
import TemplateShape.Proofs.Path
import TemplateShape.Proofs.Text.Trim

/-! # The grammar of paths

The points of a text cut it into pieces, and the text is a path exactly if every piece spells a step
on its own. So a path that is written is read again, and a text that is read differs from the one
that its path is written as by zeros in front of indices alone. -/

namespace TemplateShape

namespace Step

/-! ## Pieces -/

def IsIndex (piece : List Char) : Prop :=
  piece ≠ [] ∧ (∀ c ∈ piece, c.isDigit = true) ∧ Decimal.ofDigits piece < Word.unsignedBound

instance (piece : List Char) : Decidable (IsIndex piece) :=
  inferInstanceAs (Decidable (_ ∧ _))

def ofPiece (piece : List Char) : Step :=
  if Ascii.isName piece then .key (String.ofList piece) else .index (Decimal.ofDigits piece)

theorem ofPiece_of_isName {piece : List Char} (h : Ascii.isName piece = true) :
    ofPiece piece = .key (String.ofList piece) :=
  if_pos h

theorem IsIndex.isName_eq_false {piece : List Char} (h : IsIndex piece) :
    Ascii.isName piece = false := by
  obtain ⟨hne, hdigits, -⟩ := h
  obtain ⟨c, cs, rfl⟩ := List.exists_cons_of_ne_nil hne
  have hdigit : c.isDigit = true := hdigits c List.mem_cons_self
  have hstart : Ascii.isNameStart c = false := by
    rw [← Bool.not_eq_true]
    intro hstart
    simp [Scan.not_isDigit_of_isNameStart hstart] at hdigit
  simp [Ascii.isName, hstart]

theorem IsIndex.ofPiece_eq {piece : List Char} (h : IsIndex piece) :
    ofPiece piece = .index (Decimal.ofDigits piece) := by
  rw [ofPiece, h.isName_eq_false]
  rfl

def IsSpelling (piece : List Char) : Prop :=
  Ascii.isName piece = true ∨ IsIndex piece

theorem isWord_of_mem_isName {piece : List Char} (h : Ascii.isName piece = true) {c : Char}
    (hc : c ∈ piece) : Ascii.isWord c = true := by
  rw [← String.toList_ofList (l := piece)] at h hc
  exact Scan.isWord_of_mem_name h hc

theorem IsSpelling.isWord {piece : List Char} (h : IsSpelling piece) {c : Char} (hc : c ∈ piece) :
    Ascii.isWord c = true := by
  rcases h with hname | hindex
  · exact isWord_of_mem_isName hname hc
  · exact Scan.isWord_of_isDigit (hindex.2.1 c hc)

theorem IsSpelling.ne_nil {piece : List Char} (h : IsSpelling piece) : piece ≠ [] := by
  rcases h with hname | hindex
  · rintro rfl
    simp [Ascii.isName] at hname
  · exact hindex.1

/-- A key that is a name, or an index that a word can hold. -/
def IsProper : Step → Prop
  | .key name => Ascii.isName name.toList = true
  | .index i => i < Word.unsignedBound

/-- A piece that a step is written as, apart from zeros in front of an index. -/
inductive IsPadded : Step → List Char → Prop
  | key (name : String) : IsPadded (.key name) name.toList
  | index (i zeros : Nat) :
      IsPadded (.index i) (List.replicate zeros '0' ++ (Step.index i).text.toList)

theorem isIndex_text {i : Nat} (h : i < Word.unsignedBound) : IsIndex (index i).text.toList := by
  rw [text, String.toList_ofList]
  refine ⟨Decimal.digitsOf_ne_nil i, fun c hc => Decimal.isDigit_of_mem_digitsOf hc, ?_⟩
  rwa [Decimal.ofDigits_digitsOf]

theorem IsProper.isSpelling {step : Step} (h : step.IsProper) : IsSpelling step.text.toList := by
  cases step with
  | key name => exact .inl h
  | index i => exact .inr (isIndex_text h)

theorem IsProper.ofPiece_text {step : Step} (h : step.IsProper) :
    ofPiece step.text.toList = step := by
  cases step with
  | key name => rw [text, ofPiece_of_isName h, String.ofList_toList]
  | index i =>
      rw [(isIndex_text h).ofPiece_eq, text, String.toList_ofList, Decimal.ofDigits_digitsOf]

theorem IsSpelling.isProper {piece : List Char} (h : IsSpelling piece) :
    (ofPiece piece).IsProper := by
  rcases h with hname | hindex
  · rw [ofPiece_of_isName hname]
    simpa [IsProper] using hname
  · rw [hindex.ofPiece_eq]
    exact hindex.2.2

theorem IsSpelling.isPadded {piece : List Char} (h : IsSpelling piece) :
    IsPadded (ofPiece piece) piece := by
  rcases h with hname | hindex
  · rw [ofPiece_of_isName hname]
    simpa using IsPadded.key (String.ofList piece)
  · obtain ⟨zeros, hzeros⟩ := Decimal.exists_zeros hindex.1 hindex.2.1
    have hpadded := IsPadded.index (Decimal.ofDigits piece) zeros
    rw [text, String.toList_ofList, ← hzeros] at hpadded
    rwa [hindex.ofPiece_eq]

/-! ## One step -/

theorem scan_append {piece : List Char} (h : IsSpelling piece) {rest : List Char}
    (hrest : Scan.AtWordEnd rest) : scan (piece ++ rest) = some (ofPiece piece, rest) := by
  rcases h with hname | hindex
  · obtain ⟨c, cs, hpiece⟩ := List.exists_cons_of_ne_nil (IsSpelling.ne_nil (.inl hname))
    have hstart : Ascii.isNameStart c = true := by
      rw [hpiece] at hname
      exact (Bool.and_eq_true_iff.mp hname).1
    have hdigits : (piece ++ rest).takeWhile Char.isDigit = [] := by
      simp [hpiece, Scan.not_isDigit_of_isNameStart hstart]
    have hscan : Scan.name (piece ++ rest) = some (String.ofList piece, rest) :=
      Scan.name_eq_some_iff.mpr ⟨by simp, by simpa using hname, hrest⟩
    simp [scan, hdigits, hscan, ofPiece_of_isName hname]
  · have hstop : rest.takeWhile Char.isDigit = [] ∧ rest.dropWhile Char.isDigit = rest := by
      cases rest with
      | nil => exact ⟨rfl, rfl⟩
      | cons c rest => simp [Scan.not_isDigit_of_not_isWord (Scan.atWordEnd_cons.mp hrest)]
    have htake : (piece ++ rest).takeWhile Char.isDigit = piece := by
      rw [List.takeWhile_append_of_pos hindex.2.1, hstop.1, List.append_nil]
    have hdrop : (piece ++ rest).dropWhile Char.isDigit = rest := by
      rw [List.dropWhile_append_of_pos hindex.2.1, hstop.2]
    simp [scan, htake, hdrop, hindex.1, hindex.2.2, hindex.ofPiece_eq]

/-- What is taken as a step is a piece that spells it. -/
theorem exists_of_scan {text rest : List Char} {step : Step}
    (h : scan text = some (step, rest)) :
    ∃ piece, text = piece ++ rest ∧ IsSpelling piece ∧ step = ofPiece piece := by
  simp only [scan] at h
  split at h
  · obtain ⟨⟨name, behind⟩, hname, hpair⟩ := Option.map_eq_some_iff.mp h
    obtain ⟨rfl, rfl⟩ := Prod.mk.inj hpair
    obtain ⟨htext, hwritten, -⟩ := Scan.name_eq_some_iff.mp hname
    refine ⟨name.toList, htext, .inl hwritten, ?_⟩
    rw [ofPiece_of_isName hwritten, String.ofList_toList]
  · rename_i hne
    obtain ⟨hword, hpair⟩ := Option.ite_none_right_eq_some.mp h
    obtain ⟨rfl, rfl⟩ := Prod.mk.inj (Option.some.inj hpair)
    have hindex : IsIndex (text.takeWhile Char.isDigit) :=
      ⟨by simpa using hne, fun c hc => List.mem_takeWhile_imp hc, hword⟩
    exact ⟨_, List.takeWhile_append_dropWhile.symm, .inr hindex, hindex.ofPiece_eq.symm⟩

end Step

/-! ## All steps -/

namespace Scan

open Step

/-- What follows a name, value by value, is spelled by pieces behind points. -/
theorem exists_of_upTo {α : Type} {scan : Scan α} {p : List Char → Prop}
    {value : List Char → α}
    (hscan : ∀ {text rest a}, scan text = some (a, rest) →
      ∃ piece, text = piece ++ rest ∧ p piece ∧ a = value piece)
    {limit : Nat} {text rest : List Char} {values : List α}
    (h : upTo (afterPoint scan) limit text = some (values, rest)) :
    ∃ pieces : List (List Char), text = pieces.flatMap ('.' :: ·) ++ rest ∧
      (∀ piece ∈ pieces, p piece) ∧ values = pieces.map value := by
  induction limit generalizing text values with
  | zero =>
      obtain ⟨rfl, rfl⟩ := Prod.mk.inj (Option.some.inj h)
      exact ⟨[], rfl, by simp, rfl⟩
  | succ limit ih =>
      cases hfirst : afterPoint scan text with
      | none =>
          simp only [upTo, hfirst] at h
          obtain ⟨rfl, rfl⟩ := Prod.mk.inj (Option.some.inj h)
          exact ⟨[], rfl, by simp, rfl⟩
      | some found =>
          simp only [upTo, hfirst] at h
          obtain ⟨⟨further, behind⟩, hfurther, hpair⟩ := Option.map_eq_some_iff.mp h
          obtain ⟨rfl, rfl⟩ := Prod.mk.inj hpair
          obtain ⟨u, inner, hpoint, hvalue⟩ := bind_eq_some_iff.mp hfirst
          obtain ⟨piece, hinner, hpiece, hread⟩ := hscan hvalue
          obtain ⟨pieces, hbehind, hpieces, rfl⟩ := ih hfurther
          refine ⟨piece :: pieces, ?_, List.forall_mem_cons.mpr ⟨hpiece, hpieces⟩, ?_⟩
          · rw [literal_eq_some_iff.mp hpoint, hinner, hbehind]
            simp
          · rw [hread, List.map_cons]

/-- A whole text is taken exactly if it is a name and pieces that spell steps, with points between
them. -/
theorem steps_eq_some_iff {text : List Char} {path : List Step} :
    steps text = some (path, []) ↔ ∃ root pieces, text = ['.'].intercalate (root :: pieces) ∧
      Ascii.isName root = true ∧ (∀ piece ∈ pieces, IsSpelling piece) ∧
        path = .key (String.ofList root) :: pieces.map ofPiece := by
  constructor
  · intro h
    obtain ⟨root, behind, hroot, hbehind⟩ := bind_eq_some_iff.mp h
    obtain ⟨further, rest, hfurther, hpure⟩ := bind_eq_some_iff.mp hbehind
    obtain ⟨rfl, rfl⟩ := Prod.mk.inj (Option.some.inj hpure)
    obtain ⟨htext, hname, -⟩ := name_eq_some_iff.mp hroot
    obtain ⟨pieces, hpieces, hspelling, rfl⟩ := exists_of_upTo exists_of_scan hfurther
    refine ⟨root.toList, pieces, ?_, hname, hspelling, by rw [String.ofList_toList]⟩
    rw [intercalate_point, htext, hpieces, List.append_nil]
  · rintro ⟨root, pieces, rfl, hname, hspelling, rfl⟩
    have hend : AtWordEnd (pieces.flatMap ('.' :: ·) ++ []) := atWordEnd_nil.behind id pieces
    have hroot : name (root ++ (pieces.flatMap ('.' :: ·) ++ [])) =
        some (String.ofList root, pieces.flatMap ('.' :: ·) ++ []) :=
      name_eq_some_iff.mpr ⟨by simp, by simpa using hname, hend⟩
    have hmany : many (afterPoint Step.scan) (pieces.flatMap ('.' :: ·) ++ []) =
        some (pieces.map ofPiece, []) :=
      many_afterPoint_append
        (fun piece hpiece _ hmore => scan_append (hspelling piece hpiece) hmore)
        atWordEnd_nil (by simp)
    rw [intercalate_point, ← List.append_nil (pieces.flatMap _), steps, bind_of_some hroot,
      bind_of_some hmany]
    rfl

end Scan

namespace Path

/-! ## Reading -/

theorem parse?_eq_some_iff {text : String} {steps : List Step} :
    parse? text = some steps ↔ ∃ root pieces,
      Blank.trim text.toList = ['.'].intercalate (root :: pieces) ∧
        Ascii.isName root = true ∧ (∀ piece ∈ pieces, Step.IsSpelling piece) ∧
          steps = .key (String.ofList root) :: pieces.map Step.ofPiece := by
  rw [← Scan.steps_eq_some_iff, parse?]
  split
  · rename_i path hscan
    simp [hscan]
  · rename_i hscan
    constructor
    · intro h
      simp at h
    · intro h
      exact absurd h (hscan steps)

/-- A text is read piece by piece. The points cut what stands between the blanks at its ends into
pieces, and it is a path exactly if the first of them is a name and each of the others is a name or
digits whose number a word can hold. The steps are these pieces in their order, names as keys and
digits as indices. -/
theorem reads_piece_by_piece (text : String) :
    ∃ root pieces, (Blank.trim text.toList).splitOn '.' = root :: pieces ∧
      parse? text =
        if Ascii.isName root = true ∧
            ∀ piece ∈ pieces, Ascii.isName piece = true ∨ Step.IsIndex piece then
          some (.key (String.ofList root) :: pieces.map Step.ofPiece)
        else none := by
  obtain ⟨root, pieces, hsplit⟩ :=
    List.exists_cons_of_ne_nil (List.splitOn_ne_nil '.' (Blank.trim text.toList))
  refine ⟨root, pieces, hsplit, ?_⟩
  split
  · rename_i hspelled
    refine parse?_eq_some_iff.mpr ⟨root, pieces, ?_, hspelled.1, hspelled.2, rfl⟩
    rw [← hsplit, List.intercalate_splitOn]
  · rename_i hspelled
    refine Option.eq_none_iff_forall_ne_some.mpr fun steps hparse => hspelled ?_
    obtain ⟨name, others, htext, hname, hothers, -⟩ := parse?_eq_some_iff.mp hparse
    have hspelling : ∀ piece ∈ name :: others, Step.IsSpelling piece :=
      List.forall_mem_cons.mpr ⟨.inl hname, hothers⟩
    have hpoint : ∀ piece ∈ name :: others, '.' ∉ piece :=
      fun piece hpiece hmem => absurd ((hspelling piece hpiece).isWord hmem) (by decide)
    rw [htext, List.splitOn_intercalate '.' hpoint (List.cons_ne_nil name others)] at hsplit
    obtain ⟨rfl, rfl⟩ := List.cons.inj hsplit
    exact ⟨hname, hothers⟩

/-! ## Writing -/

/-- Steps that a text can spell: a key at the root, names as keys, and indices that a word can
hold. -/
structure IsProper (steps : List Step) : Prop where
  rooted : ∃ root, steps.head? = some (.key root)
  proper : ∀ step ∈ steps, step.IsProper

theorem toList_render (steps : List Step) :
    (render steps).toList = ['.'].intercalate (steps.map fun step => step.text.toList) := by
  rw [render, String.toList_intercalate, List.map_map]
  rfl

theorem trim_intercalate {root : List Char} {pieces : List (List Char)}
    (h : ∀ piece ∈ root :: pieces, Step.IsSpelling piece) :
    Blank.trim (['.'].intercalate (root :: pieces)) = ['.'].intercalate (root :: pieces) := by
  have hword : ∀ piece ∈ root :: pieces, ∀ c ∈ piece, Blank.isBlank c = false :=
    fun piece hpiece c hc => Scan.isBlank_of_isWord ((h piece hpiece).isWord hc)
  apply Blank.trim_eq_self
  intro c hc
  rw [Scan.intercalate_point] at hc
  rcases List.mem_append.mp hc with hroot | hbehind
  · exact hword root List.mem_cons_self c hroot
  · obtain ⟨piece, hpiece, hmem⟩ := List.mem_flatMap.mp hbehind
    rcases List.mem_cons.mp hmem with rfl | hinside
    · decide
    · exact hword piece (List.mem_cons_of_mem root hpiece) c hinside

theorem parse?_render {steps : List Step} (h : IsProper steps) :
    parse? (render steps) = some steps := by
  obtain ⟨root, hroot⟩ := h.rooted
  obtain ⟨rest, rfl⟩ := List.head?_eq_some_iff.mp hroot
  rcases List.forall_mem_cons.mp h.proper with ⟨hname, hrest⟩
  have hpieces : ∀ piece ∈ rest.map fun step => step.text.toList, Step.IsSpelling piece :=
    List.forall_mem_map.mpr fun step hstep => (hrest step hstep).isSpelling
  have hsteps : (rest.map fun step => step.text.toList).map Step.ofPiece = rest := by
    rw [List.map_map]
    exact (List.map_congr_left fun step hstep => (hrest step hstep).ofPiece_text).trans
      (List.map_id rest)
  refine parse?_eq_some_iff.mpr
    ⟨root.toList, rest.map fun step => step.text.toList, ?_, hname, hpieces, ?_⟩
  · rw [toList_render, List.map_cons]
    exact trim_intercalate (List.forall_mem_cons.mpr ⟨.inl hname, hpieces⟩)
  · rw [hsteps, String.ofList_toList]

/-- What is read can be written. -/
theorem isProper_of_parse? {text : String} {steps : List Step} (h : parse? text = some steps) :
    IsProper steps := by
  obtain ⟨root, pieces, -, hname, hpieces, rfl⟩ := parse?_eq_some_iff.mp h
  refine ⟨⟨_, rfl⟩, List.forall_mem_cons.mpr ⟨?_, ?_⟩⟩
  · simpa [Step.IsProper] using hname
  · exact List.forall_mem_map.mpr fun piece hpiece => (hpieces piece hpiece).isProper

/-- Reading undoes writing. Steps that begin with a key, whose keys are names and whose indices a
word can hold, are read from the text they are written as. A text that is read has the pieces that
its steps are written as, apart from zeros in front of indices, and its steps are read again from
what they are written as. -/
theorem reading_undoes_writing :
    (∀ steps, IsProper steps → parse? (render steps) = some steps) ∧
    ∀ text steps, parse? text = some steps →
      parse? (render steps) = some steps ∧
      (render steps).toList = ['.'].intercalate (steps.map fun step => step.text.toList) ∧
      ∃ pieces, Blank.trim text.toList = ['.'].intercalate pieces ∧
        List.Forall₂ Step.IsPadded steps pieces := by
  refine ⟨fun steps hproper => parse?_render hproper, fun text steps hparse => ?_⟩
  refine ⟨parse?_render (isProper_of_parse? hparse), toList_render steps, ?_⟩
  obtain ⟨root, pieces, htext, hname, hpieces, rfl⟩ := parse?_eq_some_iff.mp hparse
  refine ⟨root :: pieces, htext, .cons ?_ ?_⟩
  · simpa using Step.IsPadded.key (String.ofList root)
  · rw [List.forall₂_map_left_iff, List.forall₂_same]
    exact fun piece hpiece => (hpieces piece hpiece).isPadded

/-- The greatest index that a word can hold, and an index with zeros in front. -/
theorem reading_undoes_writing_padded :
    IsProper [.key "rows", .index 18446744073709551615] ∧
    parse? (render [.key "rows", .index 18446744073709551615]) =
      some [.key "rows", .index 18446744073709551615] ∧
    parse? " rows.007.id " = some [.key "rows", .index 7, .key "id"] ∧
    parse? (render [.key "rows", .index 7, .key "id"]) =
      some [.key "rows", .index 7, .key "id"] := by
  have hproper : IsProper [.key "rows", .index 18446744073709551615] :=
    ⟨⟨"rows", rfl⟩, List.forall_mem_cons.mpr ⟨(by decide : Ascii.isName "rows".toList = true),
      List.forall_mem_singleton.mpr (by decide : 18446744073709551615 < Word.unsignedBound)⟩⟩
  have hparse : parse? " rows.007.id " = some [.key "rows", .index 7, .key "id"] := by decide
  exact ⟨hproper, reading_undoes_writing.1 _ hproper, hparse,
    (reading_undoes_writing.2 _ _ hparse).1⟩

end Path

end TemplateShape
