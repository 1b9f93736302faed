import MemberLift.Checked.Scan
import MemberLift.Proofs.Checked.Group
import MemberLift.Proofs.Header.Scan.Functions

/-!
Header scans trap at nothing but the end of the window below a marker, and there exactly if its
index is no machine word (`scan_traps`).
-/
namespace MemberLift.Checked

open MemberLift.Group (closeBrackets headMark)

variable {tokens : List Token}

theorem groupEnd_opener {i : Nat} {t : Token} (here : tokens[i]? = some t)
    (opens : Group.isOpener t = true) :
    (closeBrackets [] (tokens.drop i) = none ∧ groupEnd tokens i = .ok none) ∨
      ∃ k j, closeBrackets [] (tokens.drop i) = some k ∧ groupEnd tokens i = .ok (some j) ∧
        j.1 = i + k := by
  obtain ⟨found, search, value⟩ : Finds (groupEnd tokens i) _ := groupEnd_finds
  simp only [Group.groupEnd, here, opens, Group.matchingBracket, if_true, Bool.not_true,
    Bool.and_false, Bool.false_eq_true, if_false] at value
  cases closed : closeBrackets [] (tokens.drop i) with
  | none =>
    rw [closed] at value
    cases found with
    | none => exact .inl ⟨rfl, search⟩
    | some j => cases value
  | some k =>
    rw [closed] at value
    cases found with
    | none => cases value
    | some j => exact .inr ⟨k, j, rfl, search, Option.some.inj value⟩

theorem headMark_drop (mark : String) (tokens : List Token) (i : Nat) :
    headMark mark (tokens.drop i) = (tokens[i]?.map (·.isMark mark)).getD false := by
  rw [headMark, List.head?_drop]

/-- What a search for a name finds: the index of the first token that is left behind the
decorations. -/
def FindsName (macros : List Text) (tokens : List Token) (i : Nat)
    (search : Except Trap (Option Nat)) : Prop :=
  ∃ found, search = .ok found ∧
    Scan.classNameTokens? macros (tokens.drop i) = found.map (tokens.drop ·) ∧
    ∀ n ∈ found, n < tokens.length

theorem nameIndex_finds (macros : List Text) (tokens : List Token) (i : Nat) :
    FindsName macros tokens i (nameIndex macros tokens i) := by
  have nowhere : ∀ n ∈ (none : Option Nat), n < tokens.length := nofun
  -- on the number of tokens left, as a decoration may be a group of any length
  induction left : tokens.length - i using Nat.strongRecOn generalizing i with
  | ind n ih =>
    rw [nameIndex]
    split
    · rename_i outside
      refine ⟨none, rfl, ?_, nowhere⟩
      rw [List.drop_eq_nil_of_le (List.getElem?_eq_none_iff.mp outside), Scan.classNameTokens?]
      rfl
    · rename_i t here
      have inside : i < tokens.length := (List.getElem?_eq_some_iff.mp here).1
      have behind (j : Nat) (further : i ≤ j) := ih (tokens.length - (j + 1)) (by omega) (j + 1) rfl
      rw [FindsName, Group.drop_of_getElem? here, Scan.classNameTokens?.eq_2, headMark_drop]
      split
      · exact behind i (Nat.le_refl i)
      · split
        · rename_i opens
          have opener : Group.isOpener t = true := Group.isOpener_of_isMark opens (by decide)
          rcases groupEnd_opener here opener with ⟨open_, search⟩ | ⟨k, j, closed, search, place⟩
          · rw [Group.drop_of_getElem? here] at open_
            rw [open_, search, ok_bind]
            exact ⟨none, rfl, rfl, nowhere⟩
          · rw [Group.drop_of_getElem? here] at closed
            have next := behind j.1 (by omega)
            have rest : j.1 + 1 = i + 1 + k := by omega
            rw [closed, search, ok_bind]
            simp only [List.drop_drop, ← rest]
            exact next
        · split
          · rename_i specifier
            obtain ⟨_, open_⟩ := Bool.and_eq_true_iff.mp specifier
            cases here' : tokens[i + 1]? with
            | none =>
              rw [here'] at open_
              cases open_
            | some u =>
              rw [here'] at open_
              have opens : u.isMark "(" = true := open_
              have opener : Group.isOpener u = true := Group.isOpener_of_isMark opens (by decide)
              rcases groupEnd_opener here' opener with
                ⟨open_, search⟩ | ⟨k, j, closed, search, place⟩
              · rw [open_, search, ok_bind]
                exact ⟨none, rfl, rfl, nowhere⟩
              · have next := behind j.1 (by omega)
                have rest : j.1 + 1 = i + 1 + (k + 1) := by omega
                rw [closed, search, ok_bind]
                simp only [List.drop_drop, ← rest]
                exact next
          · exact ⟨some i, rfl, by rw [Option.map_some, Group.drop_of_getElem? here],
              fun n same => Option.some.inj same ▸ inside⟩

theorem keyedName_ok (macros : List Text) (tokens : List Token) (i : Nat) :
    keyedName macros tokens i = .ok (Scan.keyedName? macros (tokens.drop i)) := by
  unfold keyedName
  split
  · rename_i outside
    rw [List.drop_eq_nil_of_le (List.getElem?_eq_none_iff.mp outside)]
    rfl
  · rename_i key here
    obtain ⟨found, search, rest, inside⟩ := nameIndex_finds macros tokens (i + 1)
    rw [Group.drop_of_getElem? here, Scan.keyedName?, search, ok_bind, rest]
    split
    · cases found with
      | none => rfl
      | some n =>
        obtain ⟨name, there⟩ : ∃ name, tokens[n]? = some name :=
          ⟨_, List.getElem?_eq_getElem (inside n rfl)⟩
        simp only [get_of_getElem? there, ok_bind, Option.map_some]
        rw [Group.drop_of_getElem? there]
        simp only [headMark_drop]
        rfl
    · rfl

theorem classNameOf_ok (macros : List Text) (tokens : List Token) :
    classNameOf macros tokens = .ok (Scan.classNameOf? macros tokens) := by
  cases tokens with
  | nil => rfl
  | cons first rest =>
    rw [classNameOf, Scan.classNameOf?, List.head?_cons, Option.map_some, Option.getD_some]
    split
    · rename_i template
      obtain ⟨found, search, value⟩ : Finds (matchingAngle (first :: rest) 1) _ :=
        matchingAngle_finds
      rw [matchingAngle_template template] at value
      rw [search, ok_bind, ← value]
      cases found with
      | none => rfl
      | some closing => exact keyedName_ok macros (first :: rest) (closing.1 + 1)
    · exact keyedName_ok macros (first :: rest) 0

theorem className_ok (c : Conventions) (line : Text) :
    className c line = .ok (Scan.className? c line) := by
  unfold className Scan.className?
  split
  · cases Lexer.tokenize 1 line with
    | error fault => rfl
    | ok tokens => exact classNameOf_ok c.classMacros tokens
  · rfl

theorem byteLength_append (a b : Text) : byteLength (a ++ b) = byteLength a + byteLength b := by
  induction a with
  | nil => rw [List.nil_append, byteLength, Nat.zero_add]
  | cons c a ih => rw [List.cons_append, byteLength, byteLength, ih, Nat.add_assoc]

theorem takeBytes_append (a b : Text) : takeBytes (byteLength a) (a ++ b) = .ok a := by
  induction a with
  | nil => rw [List.nil_append, byteLength, takeBytes]
  | cons c a ih =>
    obtain ⟨n, size⟩ : ∃ n, c.utf8Size = n + 1 := Nat.exists_eq_add_one.mpr c.utf8Size_pos
    have long : byteLength (c :: a) = n + byteLength a + 1 := by
      rw [byteLength, size, Nat.add_right_comm]
    have fits : c.utf8Size ≤ n + byteLength a + 1 := by omega
    have left : n + byteLength a + 1 - c.utf8Size = byteLength a := by omega
    rw [long, List.cons_append, takeBytes, if_pos fits, left, ih]
    rfl

/-- The cut behind the indentation of a line stands between two characters. -/
theorem indentation_ok (line : Text) : indentation line = .ok line.indentation := by
  have whole := Text.indentation_append_trimStart line
  have size : byteLength line = byteLength line.indentation + byteLength line.trimStart := by
    rw [← byteLength_append, whole]
  have cut : byteLength line - byteLength line.trimStart = byteLength line.indentation := by omega
  have taken := takeBytes_append line.indentation line.trimStart
  rw [whole] at taken
  rw [indentation, minus_of_le (by omega), ok_bind, cut, taken]

theorem dedent_ok (n : Nat) (line : Text) : dedent n line = .ok (Docs.dedent n line) := by
  induction n generalizing line with
  | zero => cases line <;> rfl
  | succ n ih =>
    cases line with
    | nil => rfl
    | cons c rest =>
      rw [dedent, Docs.dedent]
      split
      · rename_i blank
        have size : c.utf8Size = 1 := by
          rcases Bool.or_eq_true_iff.mp blank with space | tab
          · rw [of_decide_eq_true space]
            rfl
          · rw [of_decide_eq_true tab]
            rfl
        have cut : dropBytes 1 (c :: rest) = .ok rest := by simp [dropBytes, size]
        rw [cut, ok_bind, ih]
      · rfl

theorem dedentAll_ok (indent : Nat) (lines : List Text) :
    dedentAll indent lines = .ok (lines.flatMap (Docs.dedent indent)) := by
  induction lines with
  | nil => rfl
  | cons line lines ih =>
    rw [dedentAll, dedent_ok, ok_bind, ih]
    rfl

section

variable {lines : List Text} {k : Nat}

theorem above_succ {line : Text} (here : lines[k]? = some line) :
    (lines.take (k + 1)).reverse = line :: (lines.take k).reverse := by
  rw [List.take_add_one, here, List.reverse_append]
  rfl

theorem getElem?_of_lt (inside : k + 1 ≤ lines.length) : ∃ line, lines[k]? = some line :=
  ⟨_, List.getElem?_eq_getElem inside⟩

def belowOpener (near : List Text) : Nat :=
  (near.takeWhile fun line => !Docs.opensComment line).length

theorem belowOpener_cons (line : Text) (near : List Text) : belowOpener (line :: near) =
    if Docs.opensComment line then 0 else belowOpener near + 1 := by
  rw [belowOpener, List.takeWhile_cons]
  cases Docs.opensComment line with
  | true => rfl
  | false => rfl

theorem openerAbove_ok (floor : Nat) (inside : k ≤ lines.length) :
    openerAbove lines floor k =
      .ok (if belowOpener ((lines.take k).reverse.take (k - floor)) <
          ((lines.take k).reverse.take (k - floor)).length then
        some (k - (belowOpener ((lines.take k).reverse.take (k - floor)) + 1)) else none) := by
  induction k with
  | zero => simp [openerAbove]
  | succ k ih =>
    rw [openerAbove]
    split
    · rename_i le
      obtain ⟨line, here⟩ := getElem?_of_lt inside
      have size : k + 1 - floor = k - floor + 1 := by omega
      rw [get_of_getElem? here, ok_bind, ih (Nat.le_of_succ_le inside), above_succ here, size,
        List.take_succ_cons, belowOpener_cons, List.length_cons]
      cases Docs.opensComment line with
      | true => rfl
      | false =>
        simp only [Bool.false_eq_true, if_false, Nat.add_lt_add_iff_right, Nat.add_sub_add_right]
    · rename_i outside
      have none_ : k + 1 - floor = 0 := by omega
      rw [none_]
      rfl

theorem lineDocStart_ok (inside : k ≤ lines.length) :
    lineDocStart lines k = .ok (k - ((lines.take k).reverse.takeWhile Docs.isLineDoc).length) := by
  induction k with
  | zero => rfl
  | succ k ih =>
    obtain ⟨line, here⟩ := getElem?_of_lt inside
    rw [lineDocStart, get_of_getElem? here, ok_bind, ih (Nat.le_of_succ_le inside),
      above_succ here, List.takeWhile_cons]
    cases Docs.isLineDoc line with
    | true => simp only [if_true, List.length_cons, Nat.add_sub_add_right]
    | false => rfl

theorem getElem?_above {lookahead n : Nat} {near : List Text} {line : Text}
    (inside : k + 1 ≤ lines.length) (above : (lines.take (k + 1)).reverse.take lookahead = near)
    (here : near[n]? = some line) : lines[k + 1 - (n + 1)]? = some line := by
  subst above
  have length : (lines.take (k + 1)).length = k + 1 := by
    rw [List.length_take, Nat.min_eq_left inside]
  rw [List.getElem?_take] at here
  split at here
  · have short : n < (lines.take (k + 1)).length := by
      have bound := (List.getElem?_eq_some_iff.mp here).1
      rwa [List.length_reverse] at bound
    have place : k + 1 - 1 - n = k + 1 - (n + 1) := by omega
    rw [List.getElem?_reverse short, length, place, List.getElem?_take_of_lt (by omega)] at here
    exact here
  · cases here

theorem docStart_ok (lookahead : Nat) (inside : k ≤ lines.length) :
    docStart lines lookahead k =
      .ok ((Docs.height lookahead (lines.take k).reverse).map (k - ·)) := by
  cases k with
  | zero => rfl
  | succ k =>
    obtain ⟨previous, here⟩ := getElem?_of_lt inside
    have length : (lines.take (k + 1)).reverse.length = k + 1 := by
      rw [List.length_reverse, List.length_take, Nat.min_eq_left inside]
    have last : minus (k + 1) 1 = .ok k := minus_of_le (Nat.succ_pos k)
    rw [docStart, if_neg (Nat.succ_ne_zero k), last, ok_bind, here, above_succ here, Docs.height]
    simp only
    split
    · rename_i ends
      rw [← above_succ here]
      have same : (lines.take (k + 1)).reverse.take (k + 1 - (k + 1 - lookahead)) =
          (lines.take (k + 1)).reverse.take lookahead := by
        rw [List.take_eq_take_iff, length]
        omega
      rw [openerAbove_ok _ inside, ok_bind, same, ← belowOpener]
      generalize near_ : (lines.take (k + 1)).reverse.take lookahead = near
      rcases Nat.lt_or_ge (belowOpener near) near.length with found | outside
      · have opener : near[belowOpener near]? = some near[belowOpener near] :=
          List.getElem?_eq_getElem found
        generalize near[belowOpener near] = opening at opener
        have there : lines[k + 1 - (belowOpener near + 1)]? = some opening :=
          getElem?_above inside near_ opener
        simp only [if_pos found, get_of_getElem? there, ok_bind, opener]
        split
        · rfl
        · rfl
      · rw [if_neg (Nat.not_lt_of_ge outside), List.getElem?_eq_none outside]
        rfl
    · split
      · rename_i doc
        rw [lineDocStart_ok (Nat.le_of_succ_le inside), ok_bind, List.takeWhile_cons, if_pos doc,
          List.length_cons, Option.map_some, Nat.add_sub_add_right]
        rfl
      · rfl

theorem documentation_ok (lookahead indent : Nat) (inside : k ≤ lines.length) :
    documentation lines lookahead k indent =
      .ok (Docs.ofAbove indent lookahead (lines.take k).reverse) := by
  rw [documentation, docStart_ok lookahead inside, ok_bind, Docs.ofAbove]
  cases Docs.height lookahead (lines.take k).reverse with
  | none => rfl
  | some n =>
    have above : ((lines.take k).reverse.take n).reverse = (lines.take k).drop (k - n) := by
      rw [List.take_reverse, List.reverse_reverse, List.length_take, Nat.min_eq_left inside]
    simp only [Option.map_some, slice_of_le (Nat.sub_le k n) inside, ok_bind, dedentAll_ok, above]
    rfl

end

/-- What traps where a sum is no machine word: the sum itself, or the slice that ends at it. -/
def Carry.trap : Carry → Trap
  | .traps => .overflow
  | .wraps => .slice

section

variable {carry : Carry} {lines : List Text} {index lookahead : Nat}

theorem window_near (inside : index < lines.length) (near : index + 1 + lookahead < words) :
    window carry lines index lookahead = .ok ((lines.drop (index + 1)).take lookahead) := by
  have ordered : index + 1 ≤ min (index + 1 + lookahead) lines.length := by omega
  have cut : (lines.take (min (index + 1 + lookahead) lines.length)).drop (index + 1) =
      (lines.drop (index + 1)).take lookahead := by
    rw [List.drop_take, List.take_eq_take_iff, List.length_drop]
    omega
  rw [window, plus_of_lt (by omega), ok_bind, plus_of_lt near, ok_bind,
    slice_of_le ordered (Nat.min_le_right _ _), cut]

/-- Without its carry the sum is less than the index below, where the slice begins. -/
theorem window_far (word : lookahead < words) (short : lines.length < words)
    (inside : index < lines.length) (far : words ≤ index + 1 + lookahead) :
    window carry lines index lookahead = .error carry.trap := by
  have first : index + 1 < words := by omega
  rw [window, plus_of_lt first, ok_bind]
  cases carry with
  | traps =>
    rw [plus_traps far]
    rfl
  | wraps =>
    rw [plus_wraps first word far, ok_bind]
    exact slice_of_lt (by omega)

end

section

variable {carry : Carry} {c : Conventions} {lines above below : List Text} {line : Text}
variable {index : Nat} {enclosing : Option Text} {progress : Scan.Progress}

theorem index_lt (whole : lines = above.reverse ++ line :: below) :
    above.length < lines.length := by
  rw [whole, List.length_append, List.length_reverse, List.length_cons]
  omega

theorem scanFrom_sentinel {sentinel : Scan.Sentinel}
    (found : Scan.sentinel? c line = some sentinel) :
    scanFrom carry c lines index enclosing progress (line :: below) =
      match progress.advance index sentinel with
      | .error fault => .ok (.error fault)
      | .ok next => scanFrom carry c lines (index + 1) enclosing next below := by
  cases advanced : progress.advance index sentinel with
  | error fault => simp only [scanFrom, found, advanced]
  | ok next => simp only [scanFrom, found, advanced]

theorem scanFrom_inside (plain : Scan.sentinel? c line = none) (inside : progress.isOpen = true) :
    scanFrom carry c lines index enclosing progress (line :: below) =
      scanFrom carry c lines (index + 1) enclosing progress below := by
  rw [scanFrom, plain]
  exact if_pos inside

section

variable (plain : Scan.sentinel? c line = none) (outside : progress.isOpen = false)

include plain outside

theorem scanFrom_class {name : Text} (found : Scan.className? c line = some name) :
    scanFrom carry c lines index enclosing progress (line :: below) =
      scanFrom carry c lines (index + 1) (some name) progress below := by
  simp only [scanFrom, plain, outside, Bool.false_eq_true, if_false, className_ok, ok_bind, found]

variable (noClass : Scan.className? c line = none)

include noClass

theorem scanFrom_plain (noMarker : Scan.afterMarker? c.marker line = none) :
    scanFrom carry c lines index enclosing progress (line :: below) =
      scanFrom carry c lines (index + 1) enclosing progress below := by
  simp only [scanFrom, plain, outside, Bool.false_eq_true, if_false, className_ok, ok_bind, noClass,
    noMarker]

variable {rest name : Text} (marker : Scan.afterMarker? c.marker line = some rest)

include marker

theorem scanFrom_noClass :
    scanFrom carry c lines index none progress (line :: below) =
      .ok (.error (.noClass (index + 1))) := by
  simp only [scanFrom, plain, outside, Bool.false_eq_true, if_false, className_ok, ok_bind, noClass,
    marker]
  rfl

theorem scanFrom_near (whole : lines = above.reverse ++ line :: below)
    (near : above.length + 1 + c.maxLookahead < words) :
    scanFrom carry c lines above.length (some name) progress (line :: below) =
      match Scan.declaration (above.length + 1) c.maxLookahead rest below with
      | .error fault => .ok (.error fault)
      | .ok tokens =>
        (scanFrom carry c lines (above.length + 1) (some name) progress below).map fun scan =>
          scan.map (Scan.push ⟨name, tokens,
            Docs.ofAbove line.indentation.length c.maxLookahead above, above.length + 1⟩) := by
  have inside := index_lt whole
  have behind : lines.drop (above.length + 1) = below := whole ▸ Scan.drop_line above below line
  have before : (lines.take above.length).reverse = above := by
    rw [whole, Scan.take_line, List.reverse_reverse]
  have cut : Scan.declaration (above.length + 1) c.maxLookahead rest (below.take c.maxLookahead) =
      Scan.declaration (above.length + 1) c.maxLookahead rest below := by
    rw [Scan.declaration, Scan.declaration, List.take_take, Nat.min_self]
  have docs := documentation_ok c.maxLookahead line.indentation.length (Nat.le_of_lt inside)
  rw [before] at docs
  cases declared : Scan.declaration (above.length + 1) c.maxLookahead rest below with
  | error fault =>
    simp only [scanFrom, plain, outside, Bool.false_eq_true, if_false, className_ok, ok_bind,
      noClass, marker, window_near inside near, behind, cut, declared]
    rfl
  | ok tokens =>
    simp only [scanFrom, plain, outside, Bool.false_eq_true, if_false, className_ok, ok_bind,
      noClass, marker, window_near inside near, behind, cut, declared, indentation_ok, docs]
    cases scanFrom carry c lines (above.length + 1) (some name) progress below with
    | error trap => rfl
    | ok scan => rfl

theorem scanFrom_far (word : c.maxLookahead < words) (short : lines.length < words)
    (inside : index < lines.length) (far : words ≤ index + 1 + c.maxLookahead) :
    scanFrom carry c lines index (some name) progress (line :: below) = .error carry.trap := by
  simp only [scanFrom, plain, outside, Bool.false_eq_true, if_false, className_ok, ok_bind,
    noClass, marker, window_far word short inside far]
  rfl

end

/-- Whether the line of an index begins with the marker and its window ends behind the machine
words. -/
def Far (c : Conventions) (lines : List Text) (index : Nat) : Prop :=
  words ≤ index + 1 + c.maxLookahead ∧ ∃ line ∈ lines[index]?, Scan.BeginsWith c.marker line

/-- Whether a run gives a result, or stops at a marker whose window is too far. -/
def Stops (carry : Carry) (c : Conventions) (lines : List Text)
    (run : Except Trap (Except ScanFault Scan)) (result : Except ScanFault Scan) : Prop :=
  run = .ok result ∨ (run = .error carry.trap ∧ ∃ index, Far c lines index)

theorem scanFrom_stops (word : c.maxLookahead < words) (short : lines.length < words)
    (whole : lines = above.reverse ++ below) :
    Stops carry c lines (scanFrom carry c lines above.length enclosing progress below)
      (Scan.scanBelow c above enclosing progress below) := by
  induction below generalizing above enclosing progress with
  | nil => exact .inl rfl
  | cons line below ih =>
    have next (enclosing : Option Text) (progress : Scan.Progress) :
        Stops carry c lines (scanFrom carry c lines (above.length + 1) enclosing progress below)
          (Scan.scanBelow c (line :: above) enclosing progress below) :=
      ih (whole.trans (Scan.reverse_line above below line).symm)
    cases Scan.role c enclosing progress line with
    | @sentinel sentinel found =>
      rw [scanFrom_sentinel found, Scan.scanBelow_sentinel found]
      cases progress.advance above.length sentinel with
      | error fault => exact .inl rfl
      | ok progress => exact next enclosing progress
    | inside plain open_ =>
      rw [scanFrom_inside plain open_, Scan.scanBelow_inside plain open_]
      exact next enclosing progress
    | @classHead name plain outside named =>
      rw [scanFrom_class plain outside named, Scan.scanBelow_class plain outside named]
      exact next (some name) progress
    | plain plain outside noClass noMarker =>
      rw [scanFrom_plain plain outside noClass noMarker,
        Scan.scanBelow_plain plain outside noClass noMarker]
      exact next enclosing progress
    | orphan plain outside noClass marker nowhere =>
      rw [nowhere, scanFrom_noClass plain outside noClass marker,
        Scan.scanBelow_noClass plain outside noClass marker]
      exact .inl rfl
    | @marker rest name plain outside noClass marker member =>
      -- the one step that can trap
      rw [member]
      rcases Nat.lt_or_ge (above.length + 1 + c.maxLookahead) words with near | far
      · rw [scanFrom_near plain outside noClass marker whole near,
          Scan.scanBelow_marker plain outside noClass marker]
        cases Scan.declaration (above.length + 1) c.maxLookahead rest below with
        | error fault => exact .inl rfl
        | ok tokens =>
          rcases next (some name) progress with run | ⟨run, index, tooFar⟩
          · rw [run]
            exact .inl rfl
          · rw [run]
            exact .inr ⟨rfl, index, tooFar⟩
      · have here : lines[above.length]? = some line := whole ▸ Scan.getElem?_line above below line
        rw [scanFrom_far plain outside noClass marker word short (index_lt whole) far]
        rw [Scan.afterMarker?_eq] at marker
        split at marker
        · rename_i begins
          exact .inr ⟨rfl, above.length, far, line, here, begins⟩
        · cases marker

/-- Where the scan on whole lists comes to its end, the run does so if the window of every function
that is found ends at a machine word. -/
theorem scanFrom_scans {scan : Scan} (h : Scan.Scans c above enclosing progress below scan)
    (word : c.maxLookahead < words) (short : lines.length < words)
    (whole : lines = above.reverse ++ below) :
    scanFrom carry c lines above.length enclosing progress below =
      if ∀ m ∈ scan.functions, m.line + c.maxLookahead < words then .ok (.ok scan)
      else .error carry.trap := by
  induction h with
  | done finished =>
    rw [scanFrom, finished, if_pos nofun]
    rfl
  | sentinel found advanced _ ih =>
    rw [scanFrom_sentinel found, advanced]
    exact ih (whole.trans (Scan.reverse_line _ _ _).symm)
  | inside plain open_ _ ih =>
    rw [scanFrom_inside plain open_]
    exact ih (whole.trans (Scan.reverse_line _ _ _).symm)
  | classHead plain outside named _ ih =>
    rw [scanFrom_class plain outside named]
    exact ih (whole.trans (Scan.reverse_line _ _ _).symm)
  | plain plain outside noClass noMarker _ ih =>
    rw [scanFrom_plain plain outside noClass noMarker]
    exact ih (whole.trans (Scan.reverse_line _ _ _).symm)
  | @marker above below progress line rest name tokens scan plain outside noClass marker declared _
      ih =>
    rcases Nat.lt_or_ge (above.length + 1 + c.maxLookahead) words with near | far
    · have all : (∀ m ∈ (scan.push ⟨name, tokens,
          Docs.ofAbove line.indentation.length c.maxLookahead above,
          above.length + 1⟩).functions, m.line + c.maxLookahead < words) ↔
          ∀ m ∈ scan.functions, m.line + c.maxLookahead < words := by
        rw [Scan.push, List.forall_mem_cons]
        exact and_iff_right near
      have run := ih (whole.trans (Scan.reverse_line _ _ _).symm)
      rw [List.length_cons] at run
      rw [scanFrom_near plain outside noClass marker whole near, declared, run]
      simp only [all]
      split
      · rfl
      · rfl
    · rw [scanFrom_far plain outside noClass marker word short (index_lt whole) far, if_neg]
      intro all
      exact Nat.not_lt_of_ge far (all _ List.mem_cons_self)

theorem Far.index_lt (far : Far c lines index) : index < lines.length := by
  obtain ⟨_, line, here, _⟩ := far
  exact (List.getElem?_eq_some_iff.mp here).1

end

/-- A scan of a header by index stops nowhere but at the end of the window below a marker.  Class
heads, indentation and documentation are read without a trap, whatever the lines and the settings
are; the window below a line traps if and only if its end is no machine word.  So the scan gives
what the scan on whole lists gives, or there is a marker whose window ends behind the machine words,
and there is none if the lines and the lookahead together fit in one.  A scan that finds functions
stops exactly if the window below one of them does not fit. -/
theorem scan_traps (carry : Carry) {c : Conventions} {lines : List Text}
    (word : c.maxLookahead < words) (short : lines.length < words) :
    (∀ line, className c line = .ok (Scan.className? c line) ∧
      indentation line = .ok line.indentation ∧
      ∀ n, dedent n line = .ok (Docs.dedent n line)) ∧
    (∀ index ≤ lines.length, ∀ indent, documentation lines c.maxLookahead index indent =
      .ok (Docs.ofAbove indent c.maxLookahead (lines.take index).reverse)) ∧
    (∀ index < lines.length, window carry lines index c.maxLookahead =
      if index + 1 + c.maxLookahead < words then .ok ((lines.drop (index + 1)).take c.maxLookahead)
      else .error carry.trap) ∧
    Stops carry c lines (scan carry c lines) (Scan.ofLines c lines) ∧
    (lines.length + c.maxLookahead < words → scan carry c lines = .ok (Scan.ofLines c lines)) ∧
    ∀ found, Scan.ofLines c lines = .ok found →
      scan carry c lines = if ∀ m ∈ found.functions, m.line + c.maxLookahead < words then
        .ok (.ok found) else .error carry.trap := by
  have stops : Stops carry c lines (scan carry c lines) (Scan.ofLines c lines) :=
    @scanFrom_stops carry c lines [] lines none .absent word short rfl
  refine ⟨fun line => ⟨className_ok c line, indentation_ok line, fun n => dedent_ok n line⟩,
    fun index inside indent => documentation_ok _ _ inside, fun index inside => ?_, stops,
    fun fits => ?_, fun found ofLines => ?_⟩
  · split
    · rename_i near
      exact window_near inside near
    · rename_i far
      exact window_far word short inside (Nat.le_of_not_lt far)
  · rcases stops with run | ⟨_, index, far⟩
    · exact run
    · have inside := far.index_lt
      have tooFar := far.1
      omega
  · exact scanFrom_scans (Scan.scans_of_ok ofLines) word short rfl

def farsighted : Conventions := { Conventions.standard with maxLookahead := words - 1 }

def markedLines : List Text :=
  ["class a\n", "\x7b\n", "  AFIO_MAKE_FREE_FUNCTION\n", "  void f();\n", "\x7d;\n"].map
    String.toList

/-- The conventions have no fault, and the scan finds a function with them, but by index it stops,
whether sums trap or wrap. -/
theorem scan_traps_farsighted :
    farsighted.Valid ∧
    (∃ found m, Scan.ofLines farsighted markedLines = .ok found ∧ m ∈ found.functions ∧
      m.line = 3) ∧
    scan .traps farsighted markedLines = .error .overflow ∧
    scan .wraps farsighted markedLines = .error .slice ∧
    ∀ carry, scan carry .standard markedLines = .ok (Scan.ofLines .standard markedLines) := by
  have word : farsighted.maxLookahead < words := by decide
  have short : markedLines.length < words := by decide
  obtain ⟨found, ofLines, m, member, line⟩ :
      ∃ found ∈ (Scan.ofLines farsighted markedLines).toOption,
        ∃ m ∈ found.functions, m.line = 3 := by
    decide +kernel
  have ofLines : Scan.ofLines farsighted markedLines = .ok found := ok_of_mem_toOption ofLines
  have far : ¬ ∀ m ∈ found.functions, m.line + farsighted.maxLookahead < words := by
    intro all
    have near := all m member
    rw [line] at near
    exact absurd near (by decide)
  have stopped (carry : Carry) : scan carry farsighted markedLines = .error carry.trap := by
    obtain ⟨_, _, _, _, _, exact_⟩ := scan_traps carry word short
    rw [exact_ found ofLines, if_neg far]
  refine ⟨by decide +kernel, ⟨found, m, ofLines, member, line⟩, stopped .traps, stopped .wraps,
    fun carry => ?_⟩
  obtain ⟨_, _, _, _, fits, _⟩ :=
    @scan_traps carry .standard markedLines (by decide) short
  exact fits (by decide)

end MemberLift.Checked
