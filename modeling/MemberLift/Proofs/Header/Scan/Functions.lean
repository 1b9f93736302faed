import Mathlib.Data.List.Forall2
import MemberLift.Proofs.Declaration.Sources
import MemberLift.Proofs.Header.Scan.Blocks

/-!
Which functions a scan finds, said by the places of lines.  A line marks a function if it is neither
a sentinel nor inside a block, begins no class, and begins with the marker; the function belongs to
the nearest class above (`ofLines_functions`).
-/
namespace MemberLift.Scan

variable {c : Conventions} {lines above below : List Text} {line : Text} {index : Nat}

section

variable (above below : List Text) (line : Text)

theorem getElem?_line : (above.reverse ++ line :: below)[above.length]? = some line := by simp

theorem take_line : (above.reverse ++ line :: below).take above.length = above.reverse := by simp

theorem drop_line : (above.reverse ++ line :: below).drop (above.length + 1) = below := by
  simp [List.drop_append]

theorem reverse_line : (line :: above).reverse ++ below = above.reverse ++ line :: below := by simp

end

/-- Whether the line of an index is between the sentinels of a block. -/
def Inside (c : Conventions) (lines : List Text) (index : Nat) : Prop :=
  (∃ line ∈ lines.take index, sentinel? c line = some .opening) ∧
    ∃ line ∈ lines.drop (index + 1), sentinel? c line = some .closing

/-- Whether an index is that of a given line, which is neither a sentinel nor inside a block. -/
def Outer (c : Conventions) (lines : List Text) (index : Nat) (line : Text) : Prop :=
  lines[index]? = some line ∧ sentinel? c line = none ∧ ¬ Inside c lines index

/-- Whether a line begins, behind blank space, with a marker as a word of its own. -/
def BeginsWith (marker line : Text) : Prop :=
  marker <+: line.trimStart ∧
    ∀ a ∈ (line.trimStart.drop marker.length).head?, Alphabet.continuesIdentifier a = false

/-- Whether the line of an index marks a function. -/
def Marks (c : Conventions) (lines : List Text) (index : Nat) : Prop :=
  ∃ line ∈ lines[index]?, Outer c lines index line ∧ className? c line = none ∧
    BeginsWith c.marker line

instance (c : Conventions) (lines : List Text) (index : Nat) : Decidable (Inside c lines index) :=
  inferInstanceAs (Decidable (_ ∧ _))

instance (c : Conventions) (lines : List Text) (index : Nat) (line : Text) :
    Decidable (Outer c lines index line) :=
  inferInstanceAs (Decidable (_ ∧ _))

-- The instance for options is named, as there may be one that tries every character.
instance (marker line : Text) : Decidable (BeginsWith marker line) :=
  @instDecidableAnd _ _ inferInstance (Option.decidableForallMem _)

instance (c : Conventions) (lines : List Text) (index : Nat) : Decidable (Marks c lines index) :=
  inferInstanceAs (Decidable (∃ _ ∈ _, _))

/-- The indices of the lines that mark functions, of those from an index on. -/
def marking (c : Conventions) (lines : List Text) (start length : Nat) : List Nat :=
  (List.range' start length).filter fun index => Marks c lines index

theorem afterMarker?_eq (marker line : Text) :
    afterMarker? marker line =
      if BeginsWith marker line then some (line.trimStart.drop marker.length) else none := by
  have ends (o : Option Char) : ¬ (o.map Alphabet.continuesIdentifier).getD false = true ↔
      ∀ a ∈ o, Alphabet.continuesIdentifier a = false := by
    cases o with
    | none => exact iff_of_true (by decide) nofun
    | some a => simp
  by_cases whole : BeginsWith marker line
  · rw [if_pos whole, afterMarker?, if_pos (List.isPrefixOf_iff_prefix.mpr whole.1)]
    exact if_neg ((ends _).mpr whole.2)
  · rw [if_neg whole, afterMarker?]
    split
    · rename_i begins
      refine if_pos (Decidable.not_not.mp fun ended => whole ⟨?_, (ends _).mp ended⟩)
      exact List.isPrefixOf_iff_prefix.mp begins
    · rfl

theorem marks_iff (here : lines[index]? = some line) :
    Marks c lines index ↔
      Outer c lines index line ∧ className? c line = none ∧ BeginsWith c.marker line := by
  simp only [Marks, here, Option.mem_some_iff, exists_eq_left']

theorem marking_succ (c : Conventions) (lines : List Text) (start length : Nat) :
    marking c lines start (length + 1) =
      if Marks c lines start then start :: marking c lines (start + 1) length
      else marking c lines (start + 1) length := by
  simp only [marking, List.range'_succ, List.filter_cons, decide_eq_true_eq]

/-- The name of the nearest class that begins above an index, if there is one. -/
def Enclosing (c : Conventions) (lines : List Text) (index : Nat) : Option Text → Prop
  | none => ∀ place < index, ∀ line, Outer c lines place line → className? c line = none
  | some name => ∃ place < index, ∃ head, Outer c lines place head ∧
      className? c head = some name ∧
      ∀ between, place < between → between < index →
        ∀ line, Outer c lines between line → className? c line = none

theorem Enclosing.pass {enclosing : Option Text} (h : Enclosing c lines index enclosing)
    (noClass : ∀ line, Outer c lines index line → className? c line = none) :
    Enclosing c lines (index + 1) enclosing := by
  cases enclosing with
  | none =>
    intro place before line outer
    rcases Nat.lt_succ_iff_lt_or_eq.mp before with earlier | rfl
    · exact h place earlier line outer
    · exact noClass line outer
  | some name =>
    obtain ⟨place, before, head, outer, named, nearest⟩ := h
    refine ⟨place, Nat.lt_succ_of_lt before, head, outer, named,
      fun between behind before line outer => ?_⟩
    rcases Nat.lt_succ_iff_lt_or_eq.mp before with earlier | rfl
    · exact nearest between behind earlier line outer
    · exact noClass line outer

theorem Enclosing.enter {name : Text} (outer : Outer c lines index line)
    (named : className? c line = some name) : Enclosing c lines (index + 1) (some name) :=
  ⟨index, Nat.lt_succ_self index, line, outer, named, fun between behind before => by omega⟩

/-- What the lines above say about the block. -/
def Progress.Reached (c : Conventions) (above : List Text) : Progress → Prop
  | .absent => Free c above
  | .opened _ => ∃ line ∈ above, sentinel? c line = some .opening
  | .closed _ => True

theorem Progress.Reached.pass {progress : Progress} (h : progress.Reached c above)
    (plain : sentinel? c line = none) : progress.Reached c (line :: above) := by
  cases progress with
  | absent => exact Free.cons plain h
  | opened opening =>
    obtain ⟨first, inside, opens⟩ := h
    exact ⟨first, List.mem_cons_of_mem line inside, opens⟩
  | closed block => trivial

theorem Progress.reached_advance {progress next : Progress} {sentinel : Sentinel}
    (here : sentinel? c line = some sentinel)
    (advanced : progress.advance index sentinel = .ok next) : next.Reached c (line :: above) := by
  cases sentinel with
  | opening =>
    cases progress <;> cases advanced
    exact ⟨line, List.mem_cons_self, here⟩
  | closing =>
    cases progress <;> cases advanced
    trivial

theorem inside_iff : Inside c (above.reverse ++ line :: below) above.length ↔
    (∃ first ∈ above, sentinel? c first = some .opening) ∧
      ∃ last ∈ below, sentinel? c last = some .closing := by
  rw [Inside, take_line, drop_line]
  simp only [List.mem_reverse]

section

variable {enclosing : Option Text} {progress : Progress} {scan : Scan}

theorem inside_of_isOpen (reached : progress.Reached c above) (open_ : progress.isOpen = true)
    (rest : Scans c (line :: above) enclosing progress below scan) :
    Inside c (above.reverse ++ line :: below) above.length := by
  cases progress with
  | absent => cases open_
  | closed block => cases open_
  | opened opening =>
    obtain ⟨middle, closing, after, rfl, _, closes, _⟩ := rest.opened
    exact inside_iff.mpr ⟨reached, closing, by simp, closes⟩

theorem not_inside (reached : progress.Reached c above) (outside : progress.isOpen = false)
    (rest : Scans c (line :: above) enclosing progress below scan) :
    ¬ Inside c (above.reverse ++ line :: below) above.length := by
  rw [inside_iff]
  rintro ⟨⟨first, before, opens⟩, last, behind, closes⟩
  cases progress with
  | absent =>
    rw [reached first before] at opens
    cases opens
  | opened opening => cases outside
  | closed block =>
    rw [rest.closed.2 last behind] at closes
    cases closes

/-- What a scan finds at the line of an index. -/
structure Found (c : Conventions) (lines : List Text) (index : Nat) (m : Marked) : Prop where
  line : m.line = index + 1
  enclosing : Enclosing c lines index (some m.className)
  declared : ∃ line ∈ lines[index]?, declaration (index + 1) c.maxLookahead
    (line.trimStart.drop c.marker.length) (lines.drop (index + 1)) = .ok m.tokens
  nested : ∀ before t after, m.tokens = before ++ t :: after → endsDeclaration t = true →
    before.foldl nest 0 ≠ 0
  documented : ∃ line ∈ lines[index]?,
    m.docs = Docs.ofAbove line.indentation.length c.maxLookahead (lines.take index).reverse

theorem outer_below (plain : sentinel? c line = none) (reached : progress.Reached c above)
    (outside : progress.isOpen = false)
    (rest : Scans c (line :: above) enclosing progress below scan) :
    Outer c (above.reverse ++ line :: below) above.length line :=
  ⟨getElem?_line above below line, plain, not_inside reached outside rest⟩

theorem Outer.eq {other : Text} (here : lines[index]? = some line)
    (outer : Outer c lines index other) : other = line :=
  Option.some.inj (outer.1.symm.trans here)

theorem found_pass {functions : List Marked}
    (noMark : ¬ Marks c (above.reverse ++ line :: below) above.length)
    (found : List.Forall₂ (Found c ((line :: above).reverse ++ below))
      (marking c ((line :: above).reverse ++ below) (line :: above).length below.length)
      functions) :
    List.Forall₂ (Found c (above.reverse ++ line :: below))
      (marking c (above.reverse ++ line :: below) above.length (line :: below).length)
      functions := by
  rw [reverse_line] at found
  rw [List.length_cons, marking_succ, if_neg noMark]
  exact found

/-- The functions that a scan finds stand at the lines below that mark one, in order. -/
theorem Scans.found (h : Scans c above enclosing progress below scan)
    (reached : progress.Reached c above)
    (known : Enclosing c (above.reverse ++ below) above.length enclosing) :
    List.Forall₂ (Found c (above.reverse ++ below))
      (marking c (above.reverse ++ below) above.length below.length) scan.functions := by
  induction h with
  | done => exact .nil
  | @sentinel above below _ _ _ line _ _ here advanced _ ih =>
    have at_ := getElem?_line above below line
    have hidden (other : Text) : ¬ Outer c (above.reverse ++ line :: below) above.length other := by
      intro outer
      have plain := outer.2.1
      rw [outer.eq at_, here] at plain
      cases plain
    refine found_pass (fun marks => hidden line ((marks_iff at_).mp marks).1)
      (ih (Progress.reached_advance here advanced) ?_)
    rw [reverse_line]
    exact known.pass fun other outer => absurd outer (hidden other)
  | @inside above below _ _ line _ plain open_ rest ih =>
    have at_ := getElem?_line above below line
    have inside := inside_of_isOpen reached open_ rest
    refine found_pass (fun marks => ((marks_iff at_).mp marks).1.2.2 inside)
      (ih (reached.pass plain) ?_)
    rw [reverse_line]
    exact known.pass fun other outer => absurd inside outer.2.2
  | @classHead above below _ _ line name _ plain outside named rest ih =>
    have at_ := getElem?_line above below line
    refine found_pass (fun marks => ?_) (ih (reached.pass plain) ?_)
    · have noClass := ((marks_iff at_).mp marks).2.1
      rw [named] at noClass
      cases noClass
    · rw [reverse_line]
      exact .enter (outer_below plain reached outside rest) named
  | @plain above below _ _ line _ plain outside noClass noMarker rest ih =>
    have at_ := getElem?_line above below line
    refine found_pass (fun marks => ?_) (ih (reached.pass plain) ?_)
    · rw [afterMarker?_eq, if_pos ((marks_iff at_).mp marks).2.2] at noMarker
      cases noMarker
    · rw [reverse_line]
      exact known.pass fun other outer => outer.eq at_ ▸ noClass
  | @marker above below _ line rest name tokens _ plain outside noClass marked declared behind ih =>
    have at_ := getElem?_line above below line
    rw [afterMarker?_eq] at marked
    split at marked
    · rename_i begins
      obtain rfl := Option.some.inj marked
      have outer := outer_below plain reached outside behind
      have marks := (marks_iff at_).mpr ⟨outer, noClass, begins⟩
      rw [List.length_cons, marking_succ, if_pos marks]
      refine .cons ⟨rfl, known, ?_, ?_, ?_⟩ ?_
      · exact ⟨line, at_, by rw [drop_line, declared]⟩
      · intro before t after split ends
        subst split
        exact declarationTokens?_nested (declaration_ok declared) ends
      · exact ⟨line, at_, by rw [take_line, List.reverse_reverse]⟩
      · rw [reverse_line] at ih
        exact ih (reached.pass plain) (known.pass fun other outer => outer.eq at_ ▸ noClass)
    · cases marked

end

theorem Scans.exists_found {scan : Scan} (h : Scans c [] none .absent lines scan) {m : Marked}
    (member : m ∈ scan.functions) : ∃ index, Found c lines index m := by
  have found := h.found Free.nil nofun
  obtain ⟨place, here, rfl⟩ := List.getElem_of_mem member
  exact ⟨_, found.get (found.length_eq ▸ here) here⟩

/-- The functions of a header are those of the lines that mark one, in order.  Each has the number
of its line, the name of the nearest class above, the tokens in front of the first semicolon or body
outside of brackets, and the documentation in front of its line. -/
theorem ofLines_functions {scan : Scan} (h : ofLines c lines = .ok scan) :
    List.Forall₂ (Found c lines) (marking c lines 0 lines.length) scan.functions :=
  (scans_of_ok h).found Free.nil nofun

def spannedLines : List Text :=
  ["class first\n", "AFIO_MAKE_FREE_FUNCTION void f(\n", "AFIO_MAKE_FREE_FUNCTION\n", "int x);\n",
    "// BEGIN make_free_functions.py\n", "class second\n", "AFIO_MAKE_FREE_FUNCTION\n",
    "// END make_free_functions.py\n", "AFIO_MAKE_FREE_FUNCTION void g();\n"].map String.toList

theorem ofLines_functions_spanned : ∃ scan, ofLines .standard spannedLines = .ok scan ∧
    scan.functions.map (fun m => (m.line, m.className)) =
      [(2, "first".toList), (3, "first".toList), (9, "first".toList)] ∧
    List.Forall₂ (Found .standard spannedLines) [1, 2, 8] scan.functions := by
  obtain ⟨scan, found, functions⟩ : ∃ scan ∈ (ofLines .standard spannedLines).toOption,
      scan.functions.map (fun m => (m.line, m.className)) =
        [(2, "first".toList), (3, "first".toList), (9, "first".toList)] := by
    decide +kernel
  have found : ofLines .standard spannedLines = .ok scan := ok_of_mem_toOption found
  have places : marking .standard spannedLines 0 spannedLines.length = [1, 2, 8] := by
    decide +kernel
  exact ⟨scan, found, functions, places ▸ ofLines_functions found⟩

end MemberLift.Scan
