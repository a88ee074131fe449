import TemplateShape.Proofs.Scan.Progress
import TemplateShape.Proofs.Scan.Stops
import TemplateShape.Proofs.Scan.Values
import TemplateShape.Template.Condition

/-! # What stands in front of a place

Whether a word can begin a path depends on what stands in front of it: it does not belong to a path
that stands there already. Four cases are told apart, and they can be read off from left to right. -/

namespace TemplateShape.Condition

open Scan

def IsDigits (text : List Char) : Prop :=
  text ≠ [] ∧ ∀ c ∈ text, c.isDigit = true

/-- What stands in front of a place: no word, a name, another word, or a name and a point. -/
inductive Edge
  | apart
  | name
  | word
  | point
  deriving DecidableEq

namespace Edge

variable {edge : Edge} {c : Char}

def isOpen : Edge → Bool
  | apart | point => true
  | name | word => false

def next (edge : Edge) (c : Char) : Edge :=
  if Ascii.isWord c then
    if edge.isOpen then if Ascii.isNameStart c then .name else .word else edge
  else if c = '.' ∧ edge = .name then .point
  else .apart

def along (edge : Edge) (stretch : List Char) : Edge :=
  stretch.foldl next edge

def behind (front : List Char) : Edge :=
  apart.along front

/-! ## One character -/

theorem next_nameStart (h : edge.isOpen = true) (hc : Ascii.isNameStart c = true) :
    edge.next c = .name := by
  simp [next, Ascii.isWord_of_isNameStart hc, h, hc]

theorem next_digit (h : edge.isOpen = true) (hc : c.isDigit = true) : edge.next c = .word := by
  have hword := isWord_of_isDigit hc
  have hstart : Ascii.isNameStart c = false := by
    rw [← Bool.not_eq_true]
    intro hstart
    simp [not_isDigit_of_isNameStart hstart] at hc
  simp [next, hword, h, hstart]

theorem next_inside (h : edge.isOpen = false) (hc : Ascii.isWord c = true) :
    edge.next c = edge := by
  simp [next, hc, h]

theorem next_gap (hc : IsGap c) : edge.next c = .apart := by
  simp [next, hc.1, hc.2]

theorem isOpen_next (edge : Edge) (c : Char) : (edge.next c).isOpen = !Ascii.isWord c := by
  cases hword : Ascii.isWord c with
  | true =>
      cases hopen : edge.isOpen with
      | true =>
          rcases isNameStart_or_isDigit hword with hstart | hdigit
          · rw [next_nameStart hopen hstart]
            rfl
          · rw [next_digit hopen hdigit]
            rfl
      | false => rw [next_inside hopen hword, hopen]; rfl
  | false =>
      rw [next, hword, if_neg Bool.false_ne_true]
      split <;> rfl

theorem cases_of_next_eq_name (h : edge.next c = .name) :
    Ascii.isWord c = true ∧ (edge = .name ∨ edge.isOpen = true ∧ Ascii.isNameStart c = true) := by
  have hopen := isOpen_next edge c
  rw [h] at hopen
  have hword : Ascii.isWord c = true := by simpa [isOpen] using hopen
  refine ⟨hword, ?_⟩
  cases hedge : edge.isOpen with
  | false => exact .inl (by rw [← h, next_inside hedge hword])
  | true =>
      rcases isNameStart_or_isDigit hword with hstart | hdigit
      · exact .inr ⟨rfl, hstart⟩
      · rw [next_digit hedge hdigit] at h
        exact Edge.noConfusion h

theorem eq_of_next_eq_point (h : edge.next c = .point) : c = '.' ∧ edge = .name := by
  have hopen := isOpen_next edge c
  rw [h] at hopen
  have hword : Ascii.isWord c = false := by simpa [isOpen] using hopen
  rw [next, hword, if_neg Bool.false_ne_true] at h
  split at h
  · assumption
  · exact Edge.noConfusion h

/-! ## A stretch of text -/

@[simp] theorem along_nil (edge : Edge) : edge.along [] = edge := rfl

@[simp] theorem along_cons (edge : Edge) (c : Char) (stretch : List Char) :
    edge.along (c :: stretch) = (edge.next c).along stretch := rfl

theorem along_append (edge : Edge) (front back : List Char) :
    edge.along (front ++ back) = (edge.along front).along back :=
  List.foldl_append

theorem behind_append (front back : List Char) :
    behind (front ++ back) = (behind front).along back :=
  along_append apart front back

theorem isOpen_behind (front : List Char) :
    (behind front).isOpen = atWordStart front.getLast? := by
  rcases List.eq_nil_or_concat front with rfl | ⟨init, last, rfl⟩
  · rfl
  · rw [List.concat_eq_append, behind_append, along_cons, along_nil, isOpen_next]
    simp [atWordStart]

theorem along_inside {word : List Char} (h : edge.isOpen = false)
    (hword : ∀ c ∈ word, Ascii.isWord c = true) : edge.along word = edge := by
  induction word with
  | nil => rfl
  | cons c word ih =>
      rw [along_cons, next_inside h (hword c (by simp)), ih fun d hd => hword d (by simp [hd])]

theorem along_name {name : String} (h : edge.isOpen = true)
    (hname : Ascii.isName name.toList = true) : edge.along name.toList = .name := by
  obtain ⟨c, cs, hchars, hstart, hall⟩ := exists_of_isName hname
  rw [hchars, along_cons, next_nameStart h hstart, along_inside rfl hall]

theorem along_digits {digits : List Char} (h : edge.isOpen = true) (hdigits : IsDigits digits) :
    edge.along digits = .word := by
  obtain ⟨hne, hall⟩ := hdigits
  obtain ⟨c, cs, rfl⟩ := List.exists_cons_of_ne_nil hne
  have hword : ∀ d ∈ cs, Ascii.isWord d = true :=
    fun d hd => isWord_of_isDigit (hall d (List.mem_cons_of_mem c hd))
  rw [along_cons, next_digit h (hall c (by simp)), along_inside rfl hword]

theorem along_blanks {gap : List Char} (hne : gap ≠ [])
    (hall : ∀ c ∈ gap, Blank.isBlank c = true) : edge.along gap = .apart := by
  rcases List.eq_nil_or_concat gap with hnil | ⟨init, last, rfl⟩
  · exact absurd hnil hne
  · have hlast : IsGap last := isGap_of_isBlank (hall last (by simp))
    rw [List.concat_eq_append, along_append, along_cons, along_nil, next_gap hlast]

end Edge

/-! ## Names in a text -/

/-- A whole name in a text, between `front` and `back`. -/
structure IsToken (text front : List Char) (name : String) (back : List Char) : Prop where
  split : text = front ++ name.toList ++ back
  isName : Ascii.isName name.toList = true
  starts : atWordStart front.getLast? = true
  ends : startsWord back = false

theorem startsWord_eq_false_iff {text : List Char} : startsWord text = false ↔ AtWordEnd text := by
  cases text with
  | nil => simp [startsWord, atWordEnd_nil]
  | cons c text => rw [atWordEnd_cons, startsWord]

theorem exists_of_name {text rest : List Char} {root : String}
    (h : name text = some (root, rest)) :
    text = root.toList ++ rest ∧ Ascii.isName root.toList = true ∧ startsWord rest = false := by
  rw [startsWord_eq_false_iff]
  exact name_eq_some_iff.mp h

/-- The names that follow a name, up to where no further one follows. -/
theorem exists_of_names {limit : Nat} {text rest : List Char} {names : List String}
    (h : upTo (afterPoint name) limit text = some (names, rest)) (hlimit : text.length ≤ limit)
    (hends : startsWord text = false) :
    ∃ taken, text = taken ++ rest ∧ Edge.name.along taken = .name ∧ startsWord rest = false ∧
      afterPoint name rest = none := by
  induction limit generalizing text names with
  | zero =>
      have hnil : text = [] := List.length_eq_zero_iff.mp (Nat.le_zero.mp hlimit)
      have hrest : text = rest := congrArg Prod.snd (Option.some.inj h)
      subst hrest hnil
      exact ⟨[], rfl, rfl, rfl, rfl⟩
  | succ limit ih =>
      cases hscan : afterPoint name text with
      | none =>
          have hrest : text = rest := by
            simp only [upTo, hscan] at h
            exact congrArg Prod.snd (Option.some.inj h)
          subst hrest
          exact ⟨[], rfl, rfl, hends, hscan⟩
      | some found =>
          obtain ⟨further, behind⟩ := found
          simp only [upTo, hscan] at h
          obtain ⟨⟨others, rest'⟩, hothers, hpair⟩ := Option.map_eq_some_iff.mp h
          obtain ⟨-, rfl⟩ := Prod.mk.inj hpair
          obtain ⟨u, inner, hpoint, hname⟩ := bind_eq_some_iff.mp hscan
          have htext : text = ['.'] ++ inner := Scan.literal_eq_some_iff.mp hpoint
          obtain ⟨hinner, hfurther, hbehind⟩ := exists_of_name hname
          have hshorter : behind.length ≤ limit := by
            simp only [htext, hinner, List.length_append, List.length_singleton] at hlimit
            omega
          obtain ⟨taken, htaken, halong, hend⟩ := ih hothers hshorter hbehind
          refine ⟨'.' :: (further.toList ++ taken), by simp [htext, hinner, htaken], ?_, hend⟩
          have hnext : Edge.name.next '.' = .point := by decide
          rw [Edge.along_cons, hnext, Edge.along_append, Edge.along_name rfl hfurther, halong]

theorem exists_of_namePath {text rest : List Char} {path : NamePath}
    (h : namePath text = some (path, rest)) :
    ∃ inner taken, name text = some (path.root, inner) ∧ text = taken ++ rest ∧
      (∀ edge : Edge, edge.isOpen = true → edge.along taken = .name) ∧
      startsWord rest = false ∧ afterPoint name rest = none := by
  obtain ⟨root, inner, hroot, hinner⟩ := bind_eq_some_iff.mp h
  obtain ⟨names, behind, hnames, hpure⟩ := bind_eq_some_iff.mp hinner
  obtain ⟨rfl, rfl⟩ := Prod.mk.inj (Option.some.inj hpure)
  obtain ⟨htext, hname, hends⟩ := exists_of_name hroot
  obtain ⟨taken, htaken, halong, hend⟩ := exists_of_names hnames (Nat.le_refl _) hends
  refine ⟨inner, root.toList ++ taken, hroot, by simp [htext, htaken], ?_, hend⟩
  intro edge hopen
  rw [Edge.along_append, Edge.along_name hopen hname, halong]

theorem name_eq_none_of_namePath {text : List Char} (h : namePath text = none) :
    name text = none := by
  have hnames : ∀ (limit : Nat) (inner : List Char),
      (upTo (afterPoint name) limit inner).isSome := by
    intro limit
    induction limit with
    | zero => exact fun _ => rfl
    | succ limit ih =>
        intro inner
        rw [upTo]
        split
        · rw [Option.isSome_map]
          exact ih _
        · rfl
  cases hname : name text with
  | none => rfl
  | some found =>
      obtain ⟨⟨names, rest⟩, hsome⟩ := Option.isSome_iff_exists.mp (hnames found.2.length found.2)
      have hmany : many (afterPoint name) found.2 = some (names, rest) := hsome
      have hsome : namePath text = some (⟨found.1, names⟩, rest) := by
        rw [namePath, bind_of_some hname, bind_of_some hmany]
        rfl
      simp [h] at hsome

/-! ## Where paths begin -/

/-- At this place no name and no path goes on that begins in front of it. -/
structure Settled (edge : Edge) (back : List Char) : Prop where
  name : edge = .name → startsWord back = false ∧ afterPoint Scan.name back = none
  point : edge = .point → Scan.name back = none

theorem Settled.keep {edge : Edge} {c : Char} {back : List Char} (h : Settled edge (c :: back))
    (hnone : edge.isOpen = true → Scan.name (c :: back) = none) : Settled (edge.next c) back where
  name := by
    intro hnext
    obtain ⟨hword, rfl | ⟨hopen, hstart⟩⟩ := Edge.cases_of_next_eq_name hnext
    · have hends : Ascii.isWord c = false := (h.name rfl).1
      simp [hends] at hword
    · have hname := hnone hopen
      simp [Scan.name, hstart] at hname
  point := by
    intro hnext
    obtain ⟨rfl, rfl⟩ := Edge.eq_of_next_eq_point hnext
    have hpoint : Scan.literal ['.'] ('.' :: back) = some ((), back) := literal_append ['.'] back
    have hbehind := (h.name rfl).2
    rwa [afterPoint, bind_of_some hpoint] at hbehind

/-- The search for paths tries only places at which no path goes on. -/
theorem settled_of_progress {replacement text front back written : List Char}
    (h : Progress (wordStart namePath) replacement text front back written) :
    Settled (Edge.behind front) back := by
  induction h with
  | start => exact ⟨fun h => Edge.noConfusion h, fun h => Edge.noConfusion h⟩
  | keep _ hscan ih =>
      rw [Edge.behind_append]
      apply ih.keep
      intro hopen
      rw [Edge.isOpen_behind] at hopen
      rw [wordStart, if_pos hopen] at hscan
      exact name_eq_none_of_namePath hscan
  | @replace front taken rest written path _ hscan ih =>
      obtain ⟨hstart, hpath⟩ := wordStart_eq_some_iff.mp hscan
      obtain ⟨-, stretch, -, htext, halong, hend⟩ := exists_of_namePath hpath
      obtain rfl : taken = stretch := List.append_cancel_right htext
      have hopen : (Edge.behind front).isOpen = true := by rw [Edge.isOpen_behind, hstart]
      rw [Edge.behind_append, halong _ hopen]
      exact ⟨fun _ => hend, fun h => Edge.noConfusion h⟩

/-- A name that stands in a text where no name and no point stands in front of it. -/
def IsHead (text : List Char) (name : String) : Prop :=
  ∃ front back, IsToken text front name back ∧ Edge.behind front = .apart

theorem moves_namePath : Moves (wordStart namePath) := by
  intro previous text path rest hscan
  obtain ⟨-, hpath⟩ := wordStart_eq_some_iff.mp hscan
  obtain ⟨inner, taken, hname, htext, halong, -⟩ := exists_of_namePath hpath
  refine ⟨taken, ?_, htext⟩
  rintro rfl
  exact Edge.noConfusion (halong .apart rfl)

/-- A path begins with a head. -/
theorem isHead_of_mem_paths {text : List Char} {path : NamePath} (h : path ∈ paths text) :
    IsHead text path.root := by
  obtain ⟨front, back, written, rest, hprogress, hscan⟩ :=
    exists_progress_of_mem_findAll moves_namePath h
  obtain ⟨hstart, hpath⟩ := wordStart_eq_some_iff.mp hscan
  obtain ⟨inner, -, hname, -⟩ := exists_of_namePath hpath
  obtain ⟨hback, hroot, hends⟩ := exists_of_name hname
  have htoken : IsToken text front path.root inner :=
    ⟨by rw [hprogress.text_eq, hback, List.append_assoc], hroot, hstart, hends⟩
  refine ⟨front, inner, htoken, ?_⟩
  have hopen := Edge.isOpen_behind front
  rw [hstart] at hopen
  cases hedge : Edge.behind front with
  | apart => rfl
  | point =>
      rw [(settled_of_progress hprogress).point hedge] at hname
      simp at hname
  | name => simp [hedge, Edge.isOpen] at hopen
  | word => simp [hedge, Edge.isOpen] at hopen

end TemplateShape.Condition
