import TemplateShape.Template.Tag
import TemplateShape.Proofs.Scan.Extension

/-! # What tags take

A tag ends with its own delimiter and does not look at what follows. A block tag does not begin
inside another. An output tag may: a filter can hold the opening braces of the next one, but it
cannot hold a closing brace. -/

namespace TemplateShape.Tag

open Scan

variable {α : Type}

/-! ## Characters that tags take -/

theorem ne_of_isBlank {mark : Char} (h : Blank.isBlank mark = false) (c : Char)
    (hc : Blank.isBlank c = true) : c ≠ mark := by
  rintro rfl
  simp [h] at hc

theorem ne_of_isWord {mark : Char} (h : Ascii.isWord mark = false) (c : Char)
    (hc : Ascii.isWord c = true) : c ≠ mark := by
  rintro rfl
  simp [h] at hc

theorem brace_blank (c : Char) (h : Blank.isBlank c = true) : c ≠ '{' :=
  ne_of_isBlank (by decide) c h

theorem brace_word (c : Char) (h : Ascii.isWord c = true) : c ≠ '{' :=
  ne_of_isWord (by decide) c h

theorem takes_blockEnd : Takes (· ≠ '{') blockEnd :=
  (Takes.blanks brace_blank).bind fun _ => .literal (by simp)

theorem marked_blockOpen_bind {next : Unit → Scan α} (hnext : Takes (· ≠ '{') (next ())) :
    Marked '{' (blockOpen >>= next) := by
  intro text a rest hscan
  obtain ⟨u, middle, hopen, hrest⟩ := bind_eq_some_iff.mp hscan
  obtain ⟨body, hbody, hall⟩ := hnext middle a rest hrest
  have htext : text = ['{', '%'] ++ middle := literal_eq_some_iff.mp hopen
  refine ⟨'%' :: body, by simp [htext, hbody], ?_⟩
  simpa using fun hmem => hall '{' hmem rfl

theorem marked_blockStart_bind {first : String} {next : Unit → Scan α}
    (hfirst : ∀ c ∈ first.toList, c ≠ '{') (hnext : Takes (· ≠ '{') (next ())) :
    Marked '{' (blockStart first >>= next) := by
  rw [blockStart, bind_assoc]
  apply marked_blockOpen_bind
  rw [bind_assoc, bind_assoc]
  refine (Takes.blanks brace_blank).bind fun _ => ?_
  refine (Takes.literal hfirst).bind fun _ => ?_
  exact (Takes.blanks1 brace_blank).bind fun _ => hnext

/-! ## No block tag begins inside another -/

theorem apart_assignment : Apart assignment := by
  apply Apart.of_marked
  apply marked_blockStart_bind (by simp)
  refine (Takes.name brace_word).bind fun _ => ?_
  refine (Takes.blanks brace_blank).bind fun _ => ?_
  refine (Takes.literal (by simp)).bind fun _ => ?_
  refine (Takes.blanks brace_blank).bind fun _ => ?_
  refine (Takes.namePath brace_word (by simp)).bind fun source => ?_
  exact takes_blockEnd.bind fun _ => .pure source

theorem marked_loopHeader : Marked '{' loopHeader := by
  apply marked_blockStart_bind (by simp)
  refine (Takes.wordRun brace_word).bind fun item => ?_
  refine (Takes.blanks1 brace_blank).bind fun _ => ?_
  refine (Takes.literal (by simp)).bind fun _ => ?_
  refine (Takes.blanks1 brace_blank).bind fun _ => ?_
  refine (Takes.name brace_word).bind fun list => ?_
  exact takes_blockEnd.bind fun _ => .pure _

theorem apart_loopHeader : Apart loopHeader :=
  .of_marked marked_loopHeader

theorem apart_entriesHeader : Apart entriesHeader := by
  apply Apart.of_marked
  apply marked_blockStart_bind (by simp)
  refine (Takes.wordRun brace_word).bind fun _ => ?_
  refine (Takes.literal (by simp)).bind fun _ => ?_
  refine (Takes.blanks brace_blank).bind fun _ => ?_
  refine (Takes.wordRun brace_word).bind fun _ => ?_
  refine (Takes.blanks1 brace_blank).bind fun _ => ?_
  refine (Takes.literal (by simp)).bind fun _ => ?_
  refine (Takes.blanks1 brace_blank).bind fun _ => ?_
  refine (Takes.name brace_word).bind fun mapping => ?_
  refine (Takes.blanks brace_blank).bind fun _ => ?_
  refine (Takes.literal (by simp)).bind fun _ => ?_
  refine (Takes.blanks brace_blank).bind fun _ => ?_
  refine (Takes.literal (by simp)).bind fun _ => ?_
  refine (Takes.blanks brace_blank).bind fun _ => ?_
  refine (Takes.literal (by simp)).bind fun _ => ?_
  refine (Takes.blanks brace_blank).bind fun _ => ?_
  refine (Takes.literal (by simp)).bind fun _ => ?_
  exact takes_blockEnd.bind fun _ => .pure mapping

theorem marked_loopClose : Marked '{' loopClose := by
  apply marked_blockOpen_bind
  refine (Takes.blanks brace_blank).bind fun _ => ?_
  exact (Takes.literal (by simp)).bind fun _ => takes_blockEnd

theorem apart_loopClose : Apart loopClose :=
  .of_marked marked_loopClose

/-- A tag whose percent signs are those of its delimiters does not begin inside another. Its body
may hold opening braces. -/
theorem apart_of_delimited {scan : Scan α}
    (h : ∀ text a rest, scan text = some (a, rest) → ∃ c body,
      text = '{' :: '%' :: c :: (body ++ '%' :: '}' :: rest) ∧ c ≠ '}' ∧ '%' ∉ c :: body) :
    Apart scan where
  shorter := by
    intro text a rest hscan
    obtain ⟨c, body, rfl, -, -⟩ := h text a rest hscan
    refine ⟨⟨'{' :: '%' :: c :: (body ++ ['%', '}']), by simp⟩, ?_⟩
    intro heq
    have hlength := congrArg List.length heq
    simp only [List.length_cons, List.length_append] at hlength
    omega
  apart := by
    intro text a rest suffix b rest' hscan hsuffix hne hscan'
    obtain ⟨c, body, rfl, -, hbody⟩ := h text a rest hscan
    obtain ⟨d, body', hsuffixEq, hd, -⟩ := h suffix b rest' hscan'
    have hskip : ∀ {e : Char} {tail : List Char}, e ≠ '{' → suffix <:+ e :: tail →
        suffix <:+ tail := by
      intro e tail he htail
      apply (List.suffix_cons_iff.mp htail).resolve_left
      rintro rfl
      simp [he] at hsuffixEq
    have hinner : suffix <:+ (c :: body) ++ '%' :: '}' :: rest :=
      hskip (by decide) ((List.suffix_cons_iff.mp hsuffix).resolve_left hne)
    rcases List.suffix_or_suffix_of_suffix hinner (List.suffix_append (c :: body) _) with hle | hle
    · exact hskip (by decide) (hskip (by decide) hle)
    · -- the other tag would begin in the body of this one, which has no second percent sign
      obtain ⟨front, hfront⟩ := hle
      have hsub : front <:+ c :: body := by
        rw [← hfront] at hinner
        exact List.suffix_append_self_iff.mp hinner
      rw [hsuffixEq] at hfront
      cases front with
      | nil => simp at hfront
      | cons e front =>
          cases front with
          | nil =>
              simp only [List.cons_append, List.nil_append, List.cons.injEq] at hfront
              exact absurd hfront.2.2.1.symm hd
          | cons f front =>
              simp only [List.cons_append, List.cons.injEq] at hfront
              have hmem : '%' ∈ c :: body := hsub.subset (by simp [hfront.2.1])
              exact absurd hmem hbody

/-! ## The tag of a condition -/

def conditionWord : Scan Unit := do
  optional ['e', 'l']
  word "if"

def conditionValue (between : List Char) : Scan (List Char) :=
  match between with
  | blank :: _ :: _ =>
      if Blank.isBlank blank then return between.dropWhile Blank.isBlank else failure
  | _ => failure

def conditionBody : Scan (List Char) := do
  let between ← run (· != '%')
  blockClose
  conditionValue between

def conditionInner : Scan (List Char) := do
  blanks
  conditionWord
  conditionBody

theorem condition_eq : condition = (do blockOpen; conditionInner) := by
  simp only [condition, conditionInner, conditionWord, conditionBody, bind_assoc]
  rfl

theorem conditionWord_eq_some_iff {text rest : List Char} {u : Unit} :
    conditionWord text = some (u, rest) ↔
      text = ['e', 'l', 'i', 'f'] ++ rest ∨ text = ['i', 'f'] ++ rest := by
  constructor
  · intro h
    obtain ⟨v, middle, hoptional, hword⟩ := bind_eq_some_iff.mp h
    have hmiddle : middle = ['i', 'f'] ++ rest := literal_eq_some_iff.mp hword
    have hchoice : (['e', 'l'].isPrefixOf? text).getD text = middle :=
      congrArg Prod.snd (Option.some.inj hoptional)
    cases hel : ['e', 'l'].isPrefixOf? text with
    | none =>
        rw [hel] at hchoice
        exact .inr (hchoice.trans hmiddle)
    | some tail =>
        rw [hel] at hchoice
        have htext := List.isPrefixOf?_eq_some_iff_append_eq.mp hel
        have htail : tail = middle := hchoice
        exact .inl (by rw [← htext, htail, hmiddle]; rfl)
  · rintro (rfl | rfl) <;> rfl

theorem closed_conditionWord : Closed conditionWord where
  exact := by
    intro text u rest h
    rcases conditionWord_eq_some_iff.mp h with htext | htext
    · exact ⟨_, htext, fun other _ => conditionWord_eq_some_iff.mpr (.inl rfl)⟩
    · exact ⟨_, htext, fun other _ => conditionWord_eq_some_iff.mpr (.inr rfl)⟩
  moves := by
    intro text u h
    rcases conditionWord_eq_some_iff.mp h with htext | htext
    · have hlength := congrArg List.length htext
      simp at hlength
      omega
    · have hlength := congrArg List.length htext
      simp at hlength
      omega

theorem conditionValue_eq_some {between text expression rest : List Char}
    (h : conditionValue between text = some (expression, rest)) :
    rest = text ∧ ∀ other, conditionValue between other = some (expression, other) := by
  unfold conditionValue at h ⊢
  split at h
  · split at h
    · rename_i hblank
      obtain ⟨rfl, rfl⟩ := Prod.mk.inj (Option.some.inj h)
      exact ⟨rfl, fun other => by simp only [if_pos hblank]; rfl⟩
    · cases h
  · cases h

theorem ends_conditionBody : Ends (· ≠ '%') ['%', '}'] conditionBody := by
  apply Ends.after (Takes.run (by simp))
  intro between
  apply Ends.literal.bind
  intro u text expression rest h
  exact (conditionValue_eq_some h).1

theorem takes_conditionWord : Takes (· ≠ '%') conditionWord := by
  intro text u rest h
  rcases conditionWord_eq_some_iff.mp h with htext | htext
  · exact ⟨_, htext, by simp⟩
  · exact ⟨_, htext, by simp⟩

theorem ends_conditionInner : Ends (· ≠ '%') ['%', '}'] conditionInner := by
  refine Ends.after (Takes.blanks (ne_of_isBlank (by decide))) fun _ => ?_
  exact Ends.after takes_conditionWord fun _ => ends_conditionBody

theorem exists_head_of_conditionInner {text expression rest : List Char}
    (h : conditionInner text = some (expression, rest)) :
    ∃ c tail, text = c :: tail ∧ c ≠ '}' ∧ c ≠ '%' := by
  obtain ⟨u, behind, hblanks, hbehind⟩ := bind_eq_some_iff.mp h
  obtain ⟨v, inner, hword, -⟩ := bind_eq_some_iff.mp hbehind
  obtain ⟨blank, htext, hblank⟩ := Takes.blanks (p := (Blank.isBlank · = true))
    (fun _ h => h) text u behind hblanks
  cases blank with
  | nil =>
      rcases conditionWord_eq_some_iff.mp hword with hinner | hinner
      · exact ⟨'e', _, htext.trans hinner, by decide, by decide⟩
      · exact ⟨'i', _, htext.trans hinner, by decide, by decide⟩
  | cons c blank =>
      have hc := hblank c List.mem_cons_self
      exact ⟨c, _, htext, ne_of_isBlank (by decide) c hc, ne_of_isBlank (by decide) c hc⟩

/-- A condition ends with its first percent sign, and no closing brace stands behind the opening of
its tag. -/
theorem condition_delimited {text expression rest : List Char}
    (h : condition text = some (expression, rest)) : ∃ c body,
      text = '{' :: '%' :: c :: (body ++ '%' :: '}' :: rest) ∧ c ≠ '}' ∧ '%' ∉ c :: body := by
  rw [condition_eq] at h
  obtain ⟨u, middle, hopen, hinner⟩ := bind_eq_some_iff.mp h
  have htext : text = ['{', '%'] ++ middle := literal_eq_some_iff.mp hopen
  obtain ⟨body, hbody, hpercent⟩ := ends_conditionInner middle expression rest hinner
  obtain ⟨c, tail, hmiddle, hc, hcPercent⟩ := exists_head_of_conditionInner hinner
  cases body with
  | nil =>
      have hhead : c = '%' := (List.cons.inj (hmiddle.symm.trans hbody)).1
      exact absurd hhead hcPercent
  | cons first body =>
      have hfirst : first = c := (List.cons.inj (hbody.symm.trans hmiddle)).1
      subst hfirst
      exact ⟨first, body, by simp [htext, hbody], hc, fun hmem => hpercent '%' hmem rfl⟩

theorem apart_condition : Apart condition :=
  apart_of_delimited fun _ _ _ h => condition_delimited h

/-! ## Printed fields -/

/-- A scanner that takes two opening braces and no more of them does not begin inside another, if it
wants something else behind the two. -/
theorem apart_outputOpen_bind {next : Unit → Scan α} (htakes : Takes (· ≠ '{') (next ()))
    (hbrace : ∀ text, next () ('{' :: text) = none) : Apart (outputOpen >>= next) where
  shorter := by
    intro text a rest hscan
    obtain ⟨u, middle, hopen, hrest⟩ := bind_eq_some_iff.mp hscan
    obtain ⟨body, rfl, -⟩ := htakes middle a rest hrest
    obtain rfl : text = ['{', '{'] ++ (body ++ rest) := literal_eq_some_iff.mp hopen
    refine ⟨⟨['{', '{'] ++ body, by simp⟩, ?_⟩
    intro heq
    have hlength := congrArg List.length heq
    simp only [List.length_append, List.length_cons] at hlength
    omega
  apart := by
    intro text a rest suffix b rest' hscan hsuffix hne hscan'
    obtain ⟨u, middle, hopen, hrest⟩ := bind_eq_some_iff.mp hscan
    obtain ⟨v, middle', hopen', hrest'⟩ := bind_eq_some_iff.mp hscan'
    obtain rfl : text = '{' :: '{' :: middle := literal_eq_some_iff.mp hopen
    obtain rfl : suffix = '{' :: '{' :: middle' := literal_eq_some_iff.mp hopen'
    obtain ⟨body, rfl, hbody⟩ := htakes middle a rest hrest
    have hinner : '{' :: '{' :: middle' <:+ '{' :: (body ++ rest) :=
      (List.suffix_cons_iff.mp hsuffix).resolve_left hne
    rcases List.suffix_cons_iff.mp hinner with heq | hbehind
    · have hmiddle : '{' :: middle' = body ++ rest := (List.cons.inj heq).2
      rw [← hmiddle, hbrace] at hrest
      cases hrest
    · exact suffix_of_mark_notMem hbehind fun hmem => hbody '{' hmem rfl

theorem apart_printedField : Apart printedField := by
  apply apart_outputOpen_bind
  · refine (Takes.blanks brace_blank).bind fun _ => ?_
    refine (Takes.wordRun brace_word).bind fun owner => ?_
    refine (Takes.literal (by simp)).bind fun _ => ?_
    exact (Takes.name brace_word).bind fun field => .pure _
  · intro text
    rfl

/-! ## The header of a loop with its body -/

theorem loopHeader_of_loop {text rest : List Char} {found : Loop}
    (h : loop text = some (found, rest)) :
    ∃ behind, loopHeader text = some (found.header, behind) := by
  obtain ⟨header, behind, hheader, hrest⟩ := bind_eq_some_iff.mp h
  obtain ⟨body, middle, -, hpure⟩ := bind_eq_some_iff.mp hrest
  have hfound : (⟨header, body⟩ : Loop) = found := congrArg Prod.fst (Option.some.inj hpure)
  exact ⟨behind, by rw [hheader, ← hfound]⟩

end TemplateShape.Tag
