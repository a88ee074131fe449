import Mathlib.Data.List.DropRight
import TemplateShape.Proofs.Scan.Stops
import TemplateShape.Proofs.Template.Literals
import TemplateShape.Reserved

/-! # Calls in conditions

Calls are looked for in a condition as it stands, its literals included. So a literal can begin a
call, and it can end one that begins in front of it; apart from that its content does not matter. -/

namespace TemplateShape.Condition

open Scan

/-! ## The parts of a call -/

def opening : Scan String := do
  let name ← name
  blanks
  Scan.literal ['(']
  return name

def closing (name : String) : Scan Call := do
  blanks
  let arguments ← run (· != ')')
  Scan.literal [')']
  return ⟨name, arguments⟩

/-- The names in a text behind which arguments are opened, closed or not. -/
def openings (text : List Char) : List String :=
  findAll (wordStart opening) text

theorem call_eq : call = opening >>= closing := by
  simp only [call, opening, closing, bind_assoc, pure_bind]

theorem closed_opening : Closed opening := by
  refine peeks_name.closes fun name => ?_
  refine peeks_blanks.closes fun _ => ?_
  exact (Closed.literal (by simp)).bind fun _ => .pure name

theorem closed_closing (name : String) : Closed (closing name) := by
  refine peeks_blanks.closes fun _ => ?_
  refine (peeks_run _).closes fun arguments => ?_
  exact (Closed.literal (by simp)).bind fun _ => .pure _

theorem closed_call : Closed call := by
  rw [call_eq]
  exact closed_opening.peeks.closes closed_closing

theorem takes_opening :
    Takes (fun c => Ascii.isWord c = true ∨ Blank.isBlank c = true ∨ c = '(') opening := by
  refine (Takes.name fun c hc => .inl hc).bind fun name => ?_
  refine (Takes.blanks fun c hc => .inr (.inl hc)).bind fun _ => ?_
  exact (Takes.literal (by simp)).bind fun _ => .pure name

theorem ends_call : Ends (· ≠ ')') [')'] call := by
  rw [call_eq]
  have hopening : Takes (· ≠ ')') opening := by
    intro text name rest hscan
    obtain ⟨taken, htext, hall⟩ := takes_opening text name rest hscan
    refine ⟨taken, htext, ?_⟩
    rintro c hc rfl
    exact absurd (hall ')' hc) (by decide)
  refine Ends.after hopening fun name => ?_
  have hblank : ∀ c, Blank.isBlank c = true → c ≠ ')' := by
    rintro c hc rfl
    exact absurd hc (by decide)
  refine Ends.after (Takes.blanks hblank) fun _ => ?_
  exact Ends.after (Takes.run (by simp)) fun arguments => Ends.literal.bind_pure

theorem closing_append (name : String) {front : List Char} (h : ')' ∉ front)
    (rest : List Char) : closing name (front ++ ')' :: rest) =
      some (⟨name, front.dropWhile Blank.isBlank⟩, rest) := by
  have hblanks : blanks (front ++ ')' :: rest) =
      some ((), front.dropWhile Blank.isBlank ++ ')' :: rest) := by
    rw [blanks, dropWhile_append_cons (by decide)]
  have hmem : ')' ∉ front.dropWhile Blank.isBlank :=
    fun hmem => h ((List.dropWhile_suffix _).subset hmem)
  have hrun : run (· != ')') (front.dropWhile Blank.isBlank ++ ')' :: rest) =
      some (front.dropWhile Blank.isBlank, ')' :: rest) := by
    refine run_append (fun c hc => ?_) (by simp) rest
    simpa using ne_of_mem_of_not_mem hc hmem
  have hliteral : Scan.literal [')'] (')' :: rest) = some ((), rest) := literal_append [')'] rest
  rw [closing, bind_of_some hblanks, bind_of_some hrun, bind_of_some hliteral]
  rfl

/-! ## Where there is no call -/

theorem call_of_opening {text inner : List Char} {name : String}
    (h : opening text = some (name, inner)) : call text = closing name inner := by
  rw [call_eq, bind_of_some h]

theorem call_of_opening_none {text : List Char} (h : opening text = none) : call text = none := by
  rw [call_eq, bind_of_none h]

theorem calls_of_notMem {text : List Char} (h : ')' ∉ text) : calls text = [] := by
  apply findAll_eq_nil
  intro before c after htext
  apply wordStart_eq_none
  intro _
  cases hcall : call (c :: after) with
  | none => rfl
  | some found =>
      obtain ⟨body, hbody, -⟩ := ends_call _ found.1 found.2 hcall
      exact absurd (by simp [htext, hbody]) h

/-- A literal ends every opening in front of it. -/
theorem opening_append_quote {quote : Char} (hquote : quote = '\x27' ∨ quote = '"')
    (front back : List Char) : opening (front ++ quote :: back) =
      (opening front).map fun (name, inner) => (name, inner ++ quote :: back) := by
  apply closed_opening.append_stop takes_opening
  rcases hquote with rfl | rfl <;> decide

theorem wordStart_call_append_quote {quote : Char} (hquote : quote = '\x27' ∨ quote = '"')
    {front : List Char} {previous : Option Char} (h : wordStart opening previous front = none)
    (back : List Char) : wordStart call previous (front ++ quote :: back) = none := by
  apply wordStart_eq_none
  intro hstart
  rw [wordStart, if_pos hstart] at h
  have hopening := opening_append_quote hquote front back
  rw [h] at hopening
  exact call_of_opening_none hopening

/-- A text in which no arguments are opened has no call in it, and a quote behind it begins none. -/
theorem matchesFrom_call_append_quote {quote : Char} (hquote : quote = '\x27' ∨ quote = '"')
    {front : List Char} {previous : Option Char}
    (h : matchesFrom (wordStart opening) 0 previous front = []) (back : List Char) :
    matchesFrom (wordStart call) 0 previous (front ++ quote :: back) = calls back := by
  induction front generalizing previous with
  | nil =>
      have hempty : wordStart opening previous [] = none := wordStart_eq_none fun _ => rfl
      have hnone : wordStart call previous (quote :: back) = none :=
        wordStart_call_append_quote hquote hempty back
      have hstart : atWordStart (some quote) = true := by
        rcases hquote with rfl | rfl <;> decide
      rw [List.nil_append, matchesFrom_of_none hnone]
      exact matchesFrom_wordStart_congr call hstart back
  | cons c front ih =>
      cases hfirst : wordStart opening previous (c :: front) with
      | some found =>
          rw [matchesFrom_of_some hfirst] at h
          simp at h
      | none =>
          have hnone : wordStart call previous (c :: (front ++ quote :: back)) = none :=
            wordStart_call_append_quote hquote hfirst back
          rw [matchesFrom_of_none hfirst] at h
          rw [List.cons_append, matchesFrom_of_none hnone, ih h]

theorem calls_append_quote {quote : Char} (hquote : quote = '\x27' ∨ quote = '"')
    {front : List Char} (h : openings front = []) (back : List Char) :
    calls (front ++ quote :: back) = calls back :=
  matchesFrom_call_append_quote hquote h back

/-- The calls in front of a closing parenthesis end there at the latest. -/
theorem calls_append_close (front back : List Char) :
    calls (front ++ [')'] ++ back) = calls (front ++ [')']) ++ calls back := by
  have hcut : matchesFrom (wordStart call) 0 none (front ++ [')'] ++ back) =
      matchesFrom (wordStart call) 0 none (front ++ [')']) ++
        matchesFrom (wordStart call) 0 ((front ++ [')']).getLast?.or none) back := by
    apply matchesFrom_append (Nat.zero_le _)
    intro previous suffix hsuffix hne
    obtain ⟨inner, rfl⟩ : ∃ inner, suffix = inner ++ [')'] := by
      rcases List.suffix_concat_iff.mp hsuffix with hnil | ⟨inner, hinner, -⟩
      · exact absurd hnil hne
      · exact ⟨inner, hinner⟩
    unfold wordStart
    split
    · exact closed_call.append_mark ends_call inner back
    · rfl
  have hstart : atWordStart ((front ++ [')']).getLast?.or none) = atWordStart none := by
    simp [atWordStart]
    decide
  rw [matchesFrom_wordStart_congr call hstart] at hcut
  exact hcut

theorem matchesFrom_call_of_some {text rest : List Char} {found : Call} {previous : Option Char}
    (h : wordStart call previous text = some (found, rest)) :
    matchesFrom (wordStart call) 0 previous text = found :: calls rest := by
  obtain ⟨body, htext, -⟩ := ends_call text found rest (wordStart_eq_some_iff.mp h).2
  obtain ⟨c, taken, hcons⟩ := List.exists_cons_of_ne_nil (l := body ++ [')']) (by simp)
  have hlast : taken.getLast?.or (some c) = some ')' := by
    rw [← getLast?_cons_or c taken none, ← hcons]
    simp
  have hstart : atWordStart (some ')') = atWordStart none := by decide
  rw [hcons] at htext
  subst htext
  have hlength : (taken ++ rest).length - rest.length = taken.length := by simp
  rw [List.cons_append] at h ⊢
  rw [matchesFrom_of_some h, hlength, matchesFrom_append_taken, hlast,
    matchesFrom_wordStart_congr call hstart]
  rfl

/-- The calls in front of the last closing parenthesis do not depend on what stands behind it. -/
theorem calls_rdropWhile_append (front back : List Char) :
    calls (front.rdropWhile (· != ')') ++ back) =
      calls (front.rdropWhile (· != ')')) ++ calls back := by
  by_cases hnil : front.rdropWhile (· != ')') = []
  · rw [hnil]
    rfl
  · have hlast : (front.rdropWhile (· != ')')).getLast hnil = ')' := by
      simpa using List.rdropWhile_last_not _ _ hnil
    rw [← List.dropLast_append_getLast hnil, hlast]
    exact calls_append_close _ back

/-! ## What a text reads -/

/-- What a call reads: the function, unless it is left out, and the paths of the arguments. -/
def Call.reads (excluded : String → Bool) (found : Call) : List NamePath :=
  (if excluded found.name then [] else [.bare found.name]) ++
    (paths (strike found.arguments)).filter fun path => !excluded path.root

theorem notMem_arguments {text : List Char} {found : Call} (h : found ∈ calls text) :
    ')' ∉ found.arguments := by
  have hgives : Gives (fun found : Call => ')' ∉ found.arguments) call := by
    have hrun : Gives (fun arguments => ')' ∉ arguments) (run (· != ')')) := by
      intro text arguments rest hscan
      have hvalue : text.takeWhile (· != ')') = arguments :=
        congrArg Prod.fst (Option.some.inj hscan)
      rw [← hvalue]
      intro hmem
      simpa using List.mem_takeWhile_imp hmem
    unfold call
    refine .after fun name => .after fun _ => .after fun _ => .after fun _ => ?_
    exact hrun.bind fun arguments harguments => .after fun _ => .pure harguments
  exact Gives.of_mem_findAll hgives.wordStart h

theorem ne_nil_of_mem_calls {text : List Char} {found : Call} (h : found ∈ calls text) :
    text ≠ [] := by
  rintro rfl
  simp [calls, findAll, pieces, piecesFrom] at h

theorem paths_strike_blanks {text : List Char} (h : text.all Blank.isBlank = true) :
    paths (strike text) = [] := by
  apply List.eq_nil_iff_forall_not_mem.mpr
  intro path hpath
  obtain ⟨c, cs, hname, hstart, -⟩ :=
    exists_of_isName (isWritten_of_mem_paths hpath path.root List.mem_cons_self)
  obtain ⟨piece, hpiece, hkept⟩ := leaves_of_mem_paths hpath
  have hmem : c ∈ piece := (unquoted_sublist piece).subset (by simp [hkept, hname])
  have hblank := List.all_eq_true.mp h c (hpiece.subset hmem)
  rw [isBlank_of_isWord (Ascii.isWord_of_isNameStart hstart)] at hblank
  cases hblank

/-- There are no calls inside the arguments of a call, since these reach to the first closing
parenthesis only. So a text reads what its calls read, and then its own paths. -/
theorem reads_eq (excluded : String → Bool) (text : List Char) :
    reads excluded text = (calls text).flatMap (Call.reads excluded) ++
      (paths (strike text)).filter fun path => !excluded path.root := by
  rw [reads, readsWithin]
  congr 1
  apply List.flatMap_congr
  intro found hfound
  obtain ⟨c, tail, rfl⟩ := List.exists_cons_of_ne_nil (ne_nil_of_mem_calls hfound)
  rw [Call.reads]
  congr 1
  split
  · rename_i hblank
    rw [paths_strike_blanks hblank, List.filter_nil]
  · rw [List.length_cons, readsWithin, calls_of_notMem (notMem_arguments hfound)]
    rfl

/-! ## A literal in a text -/

section Literal

variable {quote : Char} {front content back : List Char}

theorem strike_withLiteral (hquote : quote = '\x27' ∨ quote = '"') (hfront : Unquoted front)
    (hback : Unquoted back) (hcontent : quote ∉ content) :
    strike (withLiteral quote front content back) = strike (front ++ back) := by
  rw [strike_eq, unquoted_withLiteral hquote hfront hback hcontent, strike_eq,
    (hfront.append hback).unquoted_eq]

theorem notMem_withLiteral (hquote : quote = '\x27' ∨ quote = '"') (hfront : ')' ∉ front)
    (hcontent : ')' ∉ content) (hback : ')' ∉ back) :
    ')' ∉ withLiteral quote front content back := by
  have hne : ')' ≠ quote := by rcases hquote with rfl | rfl <;> decide
  simp [withLiteral, hfront, hcontent, hback, hne]

/-- The arguments that are opened in front of a literal and not closed there hold the literal. -/
theorem call_withLiteral (hquote : quote = '\x27' ∨ quote = '"') {name : String}
    {inner after : List Char} (h : opening front = some (name, inner)) (hfront : ')' ∉ front)
    (hcontent : ')' ∉ content) (hafter : ')' ∉ after) (rest : List Char) :
    call (withLiteral quote front content (after ++ ')' :: rest)) =
      some (⟨name, withLiteral quote (inner.dropWhile Blank.isBlank) content after⟩, rest) := by
  have hinner : ')' ∉ inner := fun hmem => hfront ((closed_opening.exact.suffix h).subset hmem)
  have hclose : ')' ∉ withLiteral quote inner content after :=
    notMem_withLiteral hquote hinner hcontent hafter
  have hblank : Blank.isBlank quote = false := by rcases hquote with rfl | rfl <;> decide
  have hopening : opening (withLiteral quote front content (after ++ ')' :: rest)) =
      some (name, withLiteral quote inner content after ++ ')' :: rest) := by
    rw [withLiteral, opening_append_quote hquote, h]
    simp [withLiteral]
  rw [call_of_opening hopening, closing_append name hclose, withLiteral,
    dropWhile_append_cons hblank, withLiteral]

/-- In a text without closing parentheses in front of the literal, the first call begins behind the
literal, or else its arguments hold the literal. -/
theorem matchesFrom_call_withLiteral (hquote : quote = '\x27' ∨ quote = '"')
    (hfront : ')' ∉ front) {after : List Char} (hafter : ')' ∉ after) (rest : List Char)
    (previous : Option Char) :
    (∀ content, openings content = [] →
      matchesFrom (wordStart call) 0 previous
        (withLiteral quote front content (after ++ ')' :: rest)) = calls (after ++ ')' :: rest)) ∨
    ∃ name before, before <:+ front ∧ ∀ content, ')' ∉ content →
      matchesFrom (wordStart call) 0 previous
        (withLiteral quote front content (after ++ ')' :: rest)) =
          ⟨name, withLiteral quote before content after⟩ :: calls rest := by
  induction front generalizing previous with
  | nil =>
      refine .inl fun content hcontent => ?_
      have hnil : matchesFrom (wordStart opening) 0 previous [] = [] := by simp
      rw [← calls_append_quote hquote hcontent]
      exact matchesFrom_call_append_quote hquote hnil _
  | cons c front ih =>
      have htail : ')' ∉ front := fun hmem => hfront (List.mem_cons_of_mem c hmem)
      cases hfirst : wordStart opening previous (c :: front) with
      | none =>
          have hstep : ∀ content, matchesFrom (wordStart call) 0 previous
              (withLiteral quote (c :: front) content (after ++ ')' :: rest)) =
              matchesFrom (wordStart call) 0 (some c)
                (withLiteral quote front content (after ++ ')' :: rest)) :=
            fun content => matchesFrom_of_none (wordStart_call_append_quote hquote hfirst _)
          rcases ih htail (some c) with hbehind | ⟨name, before, hbefore, hcall⟩
          · exact .inl fun content hcontent => (hstep content).trans (hbehind content hcontent)
          · exact .inr ⟨name, before, hbefore.trans (List.suffix_cons c front),
              fun content hcontent => (hstep content).trans (hcall content hcontent)⟩
      | some found =>
          -- arguments are opened here, and nothing in front of the literal closes them
          obtain ⟨name, inner⟩ := found
          obtain ⟨hstart, hopening⟩ := wordStart_eq_some_iff.mp hfirst
          have hinner : inner <:+ c :: front := closed_opening.exact.suffix hopening
          refine .inr ⟨name, inner.dropWhile Blank.isBlank,
            (List.dropWhile_suffix _).trans hinner, fun content hcontent => ?_⟩
          apply matchesFrom_call_of_some
          exact wordStart_eq_some_iff.mpr
            ⟨hstart, call_withLiteral hquote hopening hfront hcontent hafter rest⟩

/-- A call whose arguments hold a literal reads what stands around the literal. -/
theorem Call.reads_withLiteral (excluded : String → Bool) (hquote : quote = '\x27' ∨ quote = '"')
    (hfront : Unquoted front) (hback : Unquoted back) (hcontent : quote ∉ content)
    (name : String) : Call.reads excluded ⟨name, withLiteral quote front content back⟩ =
      Call.reads excluded ⟨name, front ++ back⟩ := by
  rw [Call.reads, Call.reads, strike_withLiteral hquote hfront hback hcontent]

theorem calls_withLiteral (quote : Char) (front content back : List Char) :
    calls (withLiteral quote front content back) =
      calls (front.rdropWhile (· != ')')) ++
        calls (withLiteral quote (front.rtakeWhile (· != ')')) content back) := by
  have hsplit : withLiteral quote front content back = front.rdropWhile (· != ')') ++
      withLiteral quote (front.rtakeWhile (· != ')')) content back := by
    rw [withLiteral, withLiteral, ← List.append_assoc, List.rdropWhile_append_rtakeWhile]
  rw [hsplit]
  exact calls_rdropWhile_append front _

/-- A literal that neither begins a call nor ends one that begins in front of it. Only behind the
last closing parenthesis of the text in front of it can arguments still be open. -/
structure Inert (front content : List Char) : Prop where
  begins : openings content = []
  ends : openings (front.rtakeWhile (· != ')')) = [] ∨ ')' ∉ content

instance (front content : List Char) : Decidable (Inert front content) :=
  decidable_of_iff
    (openings content = [] ∧ (openings (front.rtakeWhile (· != ')')) = [] ∨ ')' ∉ content))
    ⟨fun h => ⟨h.1, h.2⟩, fun h => ⟨h.1, h.2⟩⟩

/-- An inert literal does not change what the calls read if nothing is closed in front of it. It can
be taken for the empty one. -/
theorem flatMap_calls_of_notMem (excluded : String → Bool) (hquote : quote = '\x27' ∨ quote = '"')
    (hclose : ')' ∉ front) (hfront : Unquoted front) (hback : Unquoted back)
    (hcontent : quote ∉ content) (hbegins : openings content = [])
    (hends : openings front = [] ∨ ')' ∉ content) :
    (calls (withLiteral quote front content back)).flatMap (Call.reads excluded) =
      (calls (withLiteral quote front [] back)).flatMap (Call.reads excluded) := by
  have hempty : openings [] = [] := rfl
  by_cases hnone : openings front = []
  · -- no arguments are open, so the calls are those behind the literal
    rw [withLiteral, withLiteral, calls_append_quote hquote hnone, calls_append_quote hquote hnone,
      calls_append_quote hquote hbegins, calls_append_quote hquote hempty]
  · have hinside : ')' ∉ content := hends.resolve_left hnone
    by_cases hmem : ')' ∈ back
    · obtain ⟨after, rest, rfl, hafter⟩ := List.eq_append_cons_of_mem hmem
      rcases matchesFrom_call_withLiteral hquote hclose hafter rest none with
        hbehind | ⟨name, before, hbefore, hcall⟩
      · exact congrArg _ ((hbehind content hbegins).trans (hbehind [] hempty).symm)
      · -- open arguments reach over the literal, and it is struck out of them
        have hbefore' : Unquoted before := hfront.of_subset hbefore.subset
        have hafter' : Unquoted after := hback.of_subset (List.subset_append_left after _)
        have hcalls : ∀ content, ')' ∉ content →
            calls (withLiteral quote front content (after ++ ')' :: rest)) =
              ⟨name, withLiteral quote before content after⟩ :: calls rest := hcall
        rw [hcalls content hinside, hcalls [] (by simp), List.flatMap_cons, List.flatMap_cons,
          Call.reads_withLiteral excluded hquote hbefore' hafter' hcontent,
          Call.reads_withLiteral excluded hquote hbefore' hafter' (by simp)]
    · rw [calls_of_notMem (notMem_withLiteral hquote hclose hinside hmem),
        calls_of_notMem (notMem_withLiteral hquote hclose (by simp) hmem)]

theorem Inert.flatMap_calls (h : Inert front content) (excluded : String → Bool)
    (hquote : quote = '\x27' ∨ quote = '"') (hfront : Unquoted front) (hback : Unquoted back)
    (hcontent : quote ∉ content) :
    (calls (withLiteral quote front content back)).flatMap (Call.reads excluded) =
      (calls (withLiteral quote front [] back)).flatMap (Call.reads excluded) := by
  have hclose : ')' ∉ front.rtakeWhile (· != ')') := fun hmem => by
    simpa using List.mem_rtakeWhile_imp hmem
  have hunquoted : Unquoted (front.rtakeWhile (· != ')')) :=
    hfront.of_subset (List.rtakeWhile_suffix _ _).subset
  rw [calls_withLiteral, calls_withLiteral quote front [], List.flatMap_append,
    List.flatMap_append,
    flatMap_calls_of_notMem excluded hquote hclose hunquoted hback hcontent h.begins h.ends]

end Literal

/-- When paths are looked for, a literal is passed over whatever it holds, so its content can only
tell in the calls of a text. A literal that neither begins a call nor ends one that begins in front
of it does not tell at all. -/
theorem literals_tell_only_in_calls (excluded : String → Bool) {quote : Char}
    (hquote : quote = '\x27' ∨ quote = '"') {front back : List Char} (hfront : Unquoted front)
    (hback : Unquoted back) :
    (∀ content, quote ∉ content →
      reads excluded (withLiteral quote front content back) =
        (calls (withLiteral quote front content back)).flatMap (Call.reads excluded) ++
          (paths (strike (front ++ back))).filter fun path => !excluded path.root) ∧
    ∀ content content', quote ∉ content → quote ∉ content' →
      Inert front content → Inert front content' →
        reads excluded (withLiteral quote front content back) =
          reads excluded (withLiteral quote front content' back) := by
  have hreads : ∀ content, quote ∉ content →
      reads excluded (withLiteral quote front content back) =
        (calls (withLiteral quote front content back)).flatMap (Call.reads excluded) ++
          (paths (strike (front ++ back))).filter fun path => !excluded path.root := by
    intro content hcontent
    rw [reads_eq, strike_withLiteral hquote hfront hback hcontent]
  refine ⟨hreads, fun content content' hcontent hcontent' h h' => ?_⟩
  rw [hreads content hcontent, hreads content' hcontent',
    h.flatMap_calls excluded hquote hfront hback hcontent,
    h'.flatMap_calls excluded hquote hfront hback hcontent']

/-- The parenthesis in the first literal closes nothing, since the call in front of it is closed. -/
theorem literals_tell_only_in_calls_behind_call :
    reads Reserved.contains
        (withLiteral '\x27' "len(tags) == ".toList "a) or \"b".toList " and note".toList) =
      reads Reserved.contains
        (withLiteral '\x27' "len(tags) == ".toList "c".toList " and note".toList) := by
  have hquote : '\x27' = '\x27' ∨ '\x27' = '"' := .inl rfl
  have hfront : Unquoted "len(tags) == ".toList := by decide
  have hback : Unquoted " and note".toList := by decide
  have hfirst : Inert "len(tags) == ".toList "a) or \"b".toList := by decide +kernel
  have hsecond : Inert "len(tags) == ".toList "c".toList := by decide +kernel
  exact (literals_tell_only_in_calls Reserved.contains hquote hfront hback).2 _ _ (by decide)
    (by decide) hfirst hsecond

/-- A literal can begin a call. -/
theorem not_all_literals_are_ignored :
    ¬ ∀ (quote : Char), quote = '\x27' ∨ quote = '"' → ∀ front back : List Char,
      Unquoted front → Unquoted back → ∀ content content', quote ∉ content → quote ∉ content' →
        reads Reserved.contains (withLiteral quote front content back) =
          reads Reserved.contains (withLiteral quote front content' back) := by
  intro h
  have hsame := h '\x27' (.inl rfl) "note == ".toList [] (by decide) (by decide)
    "see help(me)".toList [] (by decide) (by decide)
  exact absurd hsame (by decide +kernel)

end TemplateShape.Condition
