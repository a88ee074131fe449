import TemplateShape.Proofs.Template.Calls
import TemplateShape.Proofs.Template.Struck

/-! # Heads of paths

The variables of a condition without quotes are names that stand in its text. A path is reported
under the name that begins it, which is no attribute of another name. But the name of a call is
reported wherever it stands. -/

namespace TemplateShape.Condition

open Scan

/-- A head of a part is a head of the text, if no word stands in front of the part and none goes on
behind it. -/
theorem IsHead.within {text outer inner back : List Char} {c : Char} {name : String}
    (h : IsHead inner name) (htext : text = outer ++ inner ++ c :: back)
    (houter : Edge.behind outer = .apart) (hc : Ascii.isWord c = false) : IsHead text name := by
  obtain ⟨front, rest, htoken, hfront⟩ := h
  have hbehind : Edge.behind (outer ++ front) = .apart := by
    rw [Edge.behind_append, houter]
    exact hfront
  refine ⟨outer ++ front, rest ++ c :: back, ⟨?_, htoken.isName, ?_, ?_⟩, hbehind⟩
  · rw [htext, htoken.split]
    simp
  · rw [← Edge.isOpen_behind, hbehind]
    rfl
  · cases rest with
    | nil => exact hc
    | cons d rest => exact htoken.ends

/-! ## Calls -/

def IsCalled (back : List Char) : Prop :=
  ∃ gap inner, back = gap ++ '(' :: inner ∧ ∀ c ∈ gap, Blank.isBlank c = true

theorem exists_of_opening {text inner : List Char} {root : String}
    (h : opening text = some (root, inner)) :
    ∃ back gap, name text = some (root, back) ∧ back = gap ++ '(' :: inner ∧
      ∀ c ∈ gap, Blank.isBlank c = true := by
  have hblanks : Takes (fun c => Blank.isBlank c = true) blanks := .blanks fun _ hc => hc
  obtain ⟨root', back, hname, hback⟩ := bind_eq_some_iff.mp h
  obtain ⟨u, behind, hgap, hbehind⟩ := bind_eq_some_iff.mp hback
  obtain ⟨v, inner', hopen, hpure⟩ := bind_eq_some_iff.mp hbehind
  obtain ⟨rfl, rfl⟩ := Prod.mk.inj (Option.some.inj hpure)
  obtain ⟨gap, rfl, hall⟩ := hblanks _ _ _ hgap
  have hparenthesis : behind = ['('] ++ inner' := Scan.literal_eq_some_iff.mp hopen
  exact ⟨gap ++ behind, gap, hname, by rw [hparenthesis, List.singleton_append], hall⟩

theorem exists_of_closing {inner rest : List Char} {root : String} {found : Call}
    (h : closing root inner = some (found, rest)) :
    found.name = root ∧ ∃ gap, inner = gap ++ found.arguments ++ ')' :: rest ∧
      ∀ c ∈ gap, Blank.isBlank c = true := by
  have hblanks : Takes (fun c => Blank.isBlank c = true) blanks := .blanks fun _ hc => hc
  obtain ⟨u, behind, hgap, hbehind⟩ := bind_eq_some_iff.mp h
  obtain ⟨arguments, last, hrun, hlast⟩ := bind_eq_some_iff.mp hbehind
  obtain ⟨v, rest', hclose, hpure⟩ := bind_eq_some_iff.mp hlast
  obtain ⟨rfl, rfl⟩ := Prod.mk.inj (Option.some.inj hpure)
  obtain ⟨gap, rfl, hall⟩ := hblanks _ _ _ hgap
  have hparenthesis : last = [')'] ++ rest' := Scan.literal_eq_some_iff.mp hclose
  have hsplit : behind = arguments ++ last := by
    obtain ⟨rfl, rfl⟩ := Prod.mk.inj (Option.some.inj hrun)
    exact List.takeWhile_append_dropWhile.symm
  exact ⟨rfl, gap, by simp [hsplit, hparenthesis], hall⟩

theorem exists_of_call {text rest : List Char} {found : Call} (h : call text = some (found, rest)) :
    ∃ back before, name text = some (found.name, back) ∧ IsCalled back ∧
      text = before ++ found.arguments ++ ')' :: rest ∧
      ∀ edge : Edge, edge.along before = .apart := by
  rw [call_eq] at h
  obtain ⟨root, inner, hopening, hclosing⟩ := bind_eq_some_iff.mp h
  obtain ⟨back, gap, hname, hback, hgap⟩ := exists_of_opening hopening
  obtain ⟨rfl, gap', hinner, hgap'⟩ := exists_of_closing hclosing
  refine ⟨back, found.name.toList ++ gap ++ '(' :: gap', hname, ⟨gap, inner, hback, hgap⟩, ?_, ?_⟩
  · rw [(exists_of_name hname).1, hback, hinner]
    simp
  · intro edge
    have hparenthesis : IsGap '(' := ⟨by decide, by decide⟩
    rw [Edge.along_append, Edge.along_cons, Edge.next_gap hparenthesis]
    by_cases hne : gap' = []
    · rw [hne, Edge.along_nil]
    · exact Edge.along_blanks hne hgap'

theorem moves_call : Moves (wordStart call) := by
  intro previous text found rest hscan
  obtain ⟨-, before, -, -, htext, -⟩ := exists_of_call (wordStart_eq_some_iff.mp hscan).2
  exact ⟨before ++ found.arguments ++ [')'], by simp, by simp [htext]⟩

/-- The name of a call is a whole name in the text, and in front of its arguments no word stands. -/
theorem exists_of_mem_calls {text : List Char} {found : Call} (h : found ∈ calls text) :
    (∃ front back, IsToken text front found.name back ∧ IsCalled back) ∧
      ∃ outer rest, text = outer ++ found.arguments ++ ')' :: rest ∧
        Edge.behind outer = .apart := by
  obtain ⟨front, back, written, rest, hprogress, hscan⟩ :=
    exists_progress_of_mem_findAll moves_call h
  obtain ⟨hstart, hcall⟩ := wordStart_eq_some_iff.mp hscan
  obtain ⟨inner, before, hname, hcalled, hback, halong⟩ := exists_of_call hcall
  obtain ⟨hsplit, hisName, hends⟩ := exists_of_name hname
  refine ⟨⟨front, inner, ⟨?_, hisName, hstart, hends⟩, hcalled⟩, front ++ before, rest, ?_, ?_⟩
  · rw [hprogress.text_eq, hsplit, List.append_assoc]
  · rw [hprogress.text_eq, hback]
    simp
  · rw [Edge.behind_append, halong]

/-! ## What is reported -/

def IsAttribute (front : List Char) : Prop :=
  ∃ (before : List Char) (owner : String), front = before ++ owner.toList ++ ['.'] ∧
    Ascii.isName owner.toList = true ∧ atWordStart before.getLast? = true

theorem behind_eq_point {front : List Char} (h : IsAttribute front) :
    Edge.behind front = .point := by
  obtain ⟨before, owner, rfl, howner, hstart⟩ := h
  have hopen : (Edge.behind before).isOpen = true := by rw [Edge.isOpen_behind, hstart]
  rw [Edge.behind_append, Edge.behind_append, Edge.along_name hopen howner]
  decide

theorem IsHead.exists_token {text : List Char} {name : String} (h : IsHead text name) :
    ∃ front back, IsToken text front name back ∧ ¬ IsAttribute front := by
  obtain ⟨front, back, htoken, hfront⟩ := h
  refine ⟨front, back, htoken, fun hattribute => ?_⟩
  rw [behind_eq_point hattribute] at hfront
  exact Edge.noConfusion hfront

/-- Every variable that a condition without quotes is said to read stands in it as a whole name, and
it is no attribute there, unless it is called. -/
theorem attributes_are_read_only_if_called (excluded : String → Bool) {text : List Char}
    (h : Unquoted text) :
    ∀ path ∈ reads excluded text, ∃ front back, IsToken text front path.root back ∧
      (IsAttribute front → IsCalled back) := by
  intro path hpath
  have hofHead : IsHead text path.root → ∃ front back,
      IsToken text front path.root back ∧ (IsAttribute front → IsCalled back) := by
    intro hhead
    obtain ⟨front, back, htoken, hattribute⟩ := hhead.exists_token
    exact ⟨front, back, htoken, fun hfront => absurd hfront hattribute⟩
  rw [reads_eq, List.mem_append, List.mem_flatMap] at hpath
  rcases hpath with ⟨found, hfound, hread⟩ | hown
  · obtain ⟨⟨front, back, htoken, hcalled⟩, outer, rest, htext, houter⟩ :=
      exists_of_mem_calls hfound
    rcases List.mem_append.mp hread with hname | harguments
    · split at hname
      · simp at hname
      · obtain rfl : path = .bare found.name := List.mem_singleton.mp hname
        exact ⟨front, back, htoken, fun _ => hcalled⟩
    · have hinner : Unquoted found.arguments := h.of_subset fun c hc => by simp [htext, hc]
      have hpaths := (List.mem_filter.mp harguments).1
      exact hofHead ((isHead_of_mem_paths_strike hinner hpaths).within htext houter (by decide))
  · exact hofHead (isHead_of_mem_paths_strike h (List.mem_filter.mp hown).1)

/-- A method is reported as a variable. -/
theorem attributes_are_read_only_if_called_method :
    Unquoted "user.label (x)".toList ∧
      .bare "label" ∈ reads Reserved.contains "user.label (x)".toList ∧
        ∃ front back, IsToken "user.label (x)".toList front "label" back ∧
          (IsAttribute front → IsCalled back) := by
  have hunquoted : Unquoted "user.label (x)".toList := by decide
  have hread : .bare "label" ∈ reads Reserved.contains "user.label (x)".toList := by
    decide +kernel
  exact ⟨hunquoted, hread,
    attributes_are_read_only_if_called Reserved.contains hunquoted _ hread⟩

/-- What stands in front of a name can be told by a look at every place of the text. -/
theorem IsToken.getLast?_eq {text front back : List Char} {name : String} {last : Option Char}
    (h : IsToken text front name back)
    (hall : ∀ n ≤ text.length, name.toList <+: text.drop n → (text.take n).getLast? = last) :
    front.getLast? = last := by
  have hsplit : text = front ++ (name.toList ++ back) := by rw [h.split, List.append_assoc]
  have hlength : front.length ≤ text.length := by simp [hsplit]
  have hfront := hall front.length hlength
  rw [hsplit, List.drop_left, List.take_left] at hfront
  exact hfront (List.prefix_append _ _)

/-- The method `label` stands behind a point only. -/
theorem not_only_heads_are_read :
    ¬ ∀ (excluded : String → Bool) (text : List Char), Unquoted text →
      ∀ path ∈ reads excluded text, ∃ front back, IsToken text front path.root back ∧
        front.getLast? ≠ some '.' := by
  intro h
  have hunquoted : Unquoted "users[0].name == user.label(x)".toList := by decide
  have hread : .bare "label" ∈ reads Reserved.contains "users[0].name == user.label(x)".toList := by
    decide +kernel
  obtain ⟨front, back, htoken, hlast⟩ := h Reserved.contains _ hunquoted _ hread
  refine hlast (htoken.getLast?_eq ?_)
  decide +kernel

/-- So does `name`, which is reported since no name stands in front of its point. -/
example : .bare "name" ∈ reads Reserved.contains "users[0].name == user.label(x)".toList ∧
    ∀ front back, IsToken "users[0].name == user.label(x)".toList front "name" back →
      front.getLast? = some '.' := by
  refine ⟨by decide +kernel, fun front back htoken => htoken.getLast?_eq ?_⟩
  decide +kernel

end TemplateShape.Condition
