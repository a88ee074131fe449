import TemplateShape.Path
import TemplateShape.Proofs.Scan.Lookahead
import TemplateShape.Proofs.Scan.Sites

/-! # Values of scanners

What is known of every value that a scanner gives, wherever it succeeds, and which part of a value
stands in the text it was read from. -/

namespace TemplateShape.Scan

variable {α β : Type}

def Gives (p : α → Prop) (scan : Scan α) : Prop :=
  ∀ text a rest, scan text = some (a, rest) → p a

namespace Gives

variable {p : α → Prop} {q : β → Prop}

theorem bind {scan : Scan α} {next : α → Scan β} (h : Gives p scan)
    (hnext : ∀ a, p a → Gives q (next a)) : Gives q (scan >>= next) := by
  intro text b rest hscan
  obtain ⟨a, middle, hfirst, hsecond⟩ := bind_eq_some_iff.mp hscan
  exact hnext a (h text a middle hfirst) middle b rest hsecond

/-- The last part of a scanner decides about its value. -/
theorem after {scan : Scan α} {next : α → Scan β} (hnext : ∀ a, Gives q (next a)) :
    Gives q (scan >>= next) :=
  bind (fun _ _ _ _ => trivial) fun a (_ : True) => hnext a

theorem pure {a : α} (h : p a) : Gives p (Pure.pure a : Scan α) := by
  intro text b rest hscan
  have hvalue : a = b := congrArg Prod.fst (Option.some.inj hscan)
  exact hvalue ▸ h

/-- What holds of every value of a scanner holds of all matches in a text. -/
theorem of_mem_findAll {scan : Placed α} (h : ∀ previous, Gives p (scan previous))
    {text : List Char} {a : α} (ha : a ∈ findAll scan text) : p a := by
  obtain ⟨previous, suffix, rest, -, hscan⟩ := exists_suffix_of_mem_findAll ha
  exact h previous suffix a rest hscan

theorem wordStart {scan : Scan α} (h : Gives p scan) (previous : Option Char) :
    Gives p (Scan.wordStart scan previous) := by
  unfold Scan.wordStart
  split
  · exact h
  · intro text a rest hscan
    simp at hscan

theorem upTo {scan : Scan α} (h : Gives p scan) (limit : Nat) :
    Gives (fun as => ∀ a ∈ as, p a) (Scan.upTo scan limit) := by
  induction limit with
  | zero =>
      intro text as rest hscan
      have hvalue : [] = as := congrArg Prod.fst (Option.some.inj hscan)
      simp [← hvalue]
  | succ limit ih =>
      intro text as rest hscan
      simp only [Scan.upTo] at hscan
      split at hscan
      · rename_i a middle hfirst
        obtain ⟨⟨as', rest'⟩, hrest, hpair⟩ := Option.map_eq_some_iff.mp hscan
        have hvalue : a :: as' = as := congrArg Prod.fst hpair
        rw [← hvalue]
        exact List.forall_mem_cons.mpr ⟨h text a middle hfirst, ih middle as' rest' hrest⟩
      · have hvalue : [] = as := congrArg Prod.fst (Option.some.inj hscan)
        simp [← hvalue]

theorem many {scan : Scan α} (h : Gives p scan) : Gives (fun as => ∀ a ∈ as, p a) (many scan) :=
  fun text => h.upTo text.length text

end Gives

/-! ## Names -/

theorem exists_of_isName {name : String} (h : Ascii.isName name.toList = true) :
    ∃ c cs, name.toList = c :: cs ∧ Ascii.isNameStart c = true ∧
      ∀ d ∈ cs, Ascii.isWord d = true := by
  cases hname : name.toList with
  | nil => simp [hname, Ascii.isName] at h
  | cons c cs =>
      rw [hname, Ascii.isName, Bool.and_eq_true] at h
      exact ⟨c, cs, rfl, h.1, List.all_eq_true.mp h.2⟩

def AtWordEnd (text : List Char) : Prop :=
  ∀ c ∈ text.head?, Ascii.isWord c = false

theorem atWordEnd_nil : AtWordEnd [] := by
  simp [AtWordEnd]

theorem atWordEnd_cons {c : Char} {text : List Char} :
    AtWordEnd (c :: text) ↔ Ascii.isWord c = false := by
  simp [AtWordEnd]

theorem name_eq_some_iff {text rest : List Char} {written : String} :
    name text = some (written, rest) ↔
      text = written.toList ++ rest ∧ Ascii.isName written.toList = true ∧ AtWordEnd rest := by
  constructor
  · intro h
    cases text with
    | nil => simp [name] at h
    | cons c text =>
        simp only [name, Option.ite_none_right_eq_some, Option.some.injEq, Prod.mk.injEq] at h
        obtain ⟨hstart, rfl, rfl⟩ := h
        refine ⟨by simp, by simp [Ascii.isName, hstart, List.all_takeWhile], ?_⟩
        intro d hd
        have hstop := List.head?_dropWhile_not Ascii.isWord text
        rw [Option.mem_def.mp hd] at hstop
        simpa using hstop
  · rintro ⟨rfl, hwritten, hrest⟩
    obtain ⟨first, cs, htext, hfirst, hcs⟩ := exists_of_isName hwritten
    have hname : String.ofList (first :: cs) = written := by rw [← htext, String.ofList_toList]
    rw [htext, List.cons_append, name, if_pos hfirst, List.takeWhile_append_of_pos hcs,
      List.dropWhile_append_of_pos hcs]
    cases rest with
    | nil => simp [hname]
    | cons c rest => simp [atWordEnd_cons.mp hrest, hname]

theorem gives_name : Gives (fun name => Ascii.isName name.toList = true) name :=
  fun _ _ _ hscan => (name_eq_some_iff.mp hscan).2.1

theorem gives_namePath :
    Gives (fun path : NamePath => ∀ name ∈ path.root :: path.rest,
      Ascii.isName name.toList = true) namePath := by
  have hbehind : Gives (fun name => Ascii.isName name.toList = true) (afterPoint name) :=
    Gives.after fun _ => gives_name
  unfold namePath
  refine gives_name.bind fun root hroot => ?_
  refine hbehind.many.bind fun rest hrest => ?_
  exact Gives.pure (List.forall_mem_cons.mpr ⟨hroot, hrest⟩)

/-! ## Parts of values -/

/-- A part of every value stands in the text that the scanner is run on. -/
def Stands (part : α → List Char) (scan : Scan α) : Prop :=
  ∀ text a rest, scan text = some (a, rest) → part a <:+: text

namespace Stands

variable {part : α → List Char} {part' : β → List Char}

/-- What the last part of a scanner reads stands behind what the parts before it take. -/
theorem after {scan : Scan α} {next : α → Scan β} (h : Peeks scan)
    (hnext : ∀ a, Stands part' (next a)) : Stands part' (scan >>= next) := by
  intro text b rest hscan
  obtain ⟨a, middle, hfirst, hsecond⟩ := bind_eq_some_iff.mp hscan
  exact (hnext a middle b rest hsecond).trans (Local.suffix h hfirst).isInfix

theorem keep {scan : Scan α} {next : α → Scan β} (h : Stands part scan)
    (hnext : ∀ a, Gives (fun b => part' b <:+: part a) (next a)) :
    Stands part' (scan >>= next) := by
  intro text b rest hscan
  obtain ⟨a, middle, hfirst, hsecond⟩ := bind_eq_some_iff.mp hscan
  exact (hnext a middle b rest hsecond).trans (h text a middle hfirst)

theorem wordStart {scan : Scan α} (h : Stands part scan) (previous : Option Char) :
    Stands part (Scan.wordStart scan previous) := by
  unfold Scan.wordStart
  split
  · exact h
  · intro text a rest hscan
    simp at hscan

theorem of_mem_findAll {scan : Placed α} (h : ∀ previous, Stands part (scan previous))
    {text : List Char} {a : α} (ha : a ∈ findAll scan text) : part a <:+: text := by
  obtain ⟨previous, suffix, rest, hsuffix, hscan⟩ := exists_suffix_of_mem_findAll ha
  exact (h previous suffix a rest hscan).trans hsuffix.isInfix

end Stands

theorem stands_run (p : Char → Bool) : Stands id (run p) := by
  intro text a rest hscan
  have hvalue : text.takeWhile p = a := congrArg Prod.fst (Option.some.inj hscan)
  exact hvalue ▸ (List.takeWhile_prefix p).isInfix

theorem stands_name : Stands String.toList name := by
  intro text a rest hscan
  rw [(name_eq_some_iff.mp hscan).1]
  exact (List.prefix_append a.toList rest).isInfix

theorem stands_namePath : Stands (fun path : NamePath => path.root.toList) namePath := by
  unfold namePath
  exact stands_name.keep fun root => .after fun rest => .pure List.infix_rfl

end TemplateShape.Scan
