import MemberLift.Checked
import MemberLift.Token.Group

/-!
Groups, found by walking over the indices of a token list.  A search returns an index together with
its bounds, and those are why the walks that continue behind a group come to an end.
-/
namespace MemberLift.Checked

/-- An index of a list from a given one on. -/
abbrev From (tokens : List Token) (low : Nat) : Type := { j : Nat // low ≤ j ∧ j < tokens.length }

namespace From

variable {tokens : List Token} {low high : Nat}

def lower (le : low ≤ high) (j : From tokens high) : From tokens low :=
  ⟨j.1, Nat.le_trans le j.2.1, j.2.2⟩

def last (i : Nat) (found : Option (From tokens (i + 1))) : Nat := (found.map Subtype.val).getD i

theorem le_last {i : Nat} (found : Option (From tokens (i + 1))) : i ≤ last i found := by
  cases found with
  | none => exact Nat.le_refl i
  | some j => exact Nat.le_of_succ_le j.2.1

end From

theorem closeBrackets_bounds {pending : List String} {tokens : List Token} {k : Nat}
    (h : Group.closeBrackets pending tokens = some k) :
    k < tokens.length ∧ (pending = [] → 0 < k) := by
  induction tokens generalizing pending k with
  | nil => cases h
  | cons t rest ih =>
    have goes {next : List String}
        (h : (Group.closeBrackets next rest).map (· + 1) = some k) :
        k < (t :: rest).length ∧ (pending = [] → 0 < k) := by
      obtain ⟨k', found, rfl⟩ := Option.map_eq_some_iff.mp h
      exact ⟨Nat.succ_lt_succ (ih found).1, fun _ => Nat.succ_pos k'⟩
    unfold Group.closeBrackets at h
    split at h
    · exact goes h
    · exact goes h
    · cases h
    · split at h
      · split at h
        · cases h
          exact ⟨Nat.succ_pos _, nofun⟩
        · exact goes h
      · cases h

theorem matchingBracket_bounds {tokens : List Token} {opening j : Nat}
    (h : Group.matchingBracket tokens opening = some j) :
    opening + 1 ≤ j ∧ j < tokens.length := by
  unfold Group.matchingBracket at h
  split at h
  · cases h
  · split at h
    · cases h
    · obtain ⟨k, found, rfl⟩ := Option.map_eq_some_iff.mp h
      obtain ⟨inside, behind⟩ := closeBrackets_bounds found
      rw [List.length_drop] at inside
      have := behind rfl
      omega

/-- The search for a closing bracket reads no token but those it comes past. -/
def matchingBracket (tokens : List Token) (opening : Nat) : Option (From tokens (opening + 1)) :=
  match found : Group.matchingBracket tokens opening with
  | none => none
  | some j => some ⟨j, matchingBracket_bounds found⟩

def followsName (tokens : List Token) (i : Nat) : Except Trap Bool := do
  let previous ← get tokens (← minus i 1)
  return previous.isIdentifier

def opensList (tokens : List Token) (i : Nat) (t : Token) : Except Trap Bool :=
  if t.isMark "<" then followsName tokens i else .ok false

mutual

def matchingAngle (tokens : List Token) (opening : Nat) :
    Except Trap (Option (From tokens (opening + 1))) :=
  match _here : tokens[opening]? with
  | none => .ok none
  | some t =>
    if !t.isMark "<" || opening = 0 then .ok none
    else do
      if ← followsName tokens opening then closingAngle tokens (opening + 1) else return none
termination_by 2 * (tokens.length - opening)
decreasing_by
  have inside : opening < tokens.length := (List.getElem?_eq_some_iff.mp _here).1
  omega

def closingAngle (tokens : List Token) (i : Nat) : Except Trap (Option (From tokens i)) :=
  if inside : i < tokens.length then do
    let t ← get tokens i
    if t.isMark ">" then return some ⟨i, Nat.le_refl i, inside⟩
    else if Group.isOpener t then
      match matchingBracket tokens i with
      | none => return none
      | some j =>
        let found ← closingAngle tokens (j.1 + 1)
        return found.map (From.lower (Nat.le_succ_of_le (Nat.le_of_succ_le j.2.1)))
    else if Group.isCloser t || t.isMark ";" then return none
    else if ← opensList tokens i t then
      match ← matchingAngle tokens i with
      | none => return none
      | some j =>
        let found ← closingAngle tokens (j.1 + 1)
        return found.map (From.lower (Nat.le_succ_of_le (Nat.le_of_succ_le j.2.1)))
    else
      let found ← closingAngle tokens (i + 1)
      return found.map (From.lower (Nat.le_succ i))
  else return none
termination_by 2 * (tokens.length - i) + 1
decreasing_by
  · have := j.2
    omega
  · omega
  · have := j.2
    omega
  · omega

end

def groupEnd (tokens : List Token) (opening : Nat) :
    Except Trap (Option (From tokens (opening + 1))) :=
  match tokens[opening]? with
  | none => .ok none
  | some t =>
    if Group.isOpener t then .ok (matchingBracket tokens opening)
    else if t.isMark "<" then matchingAngle tokens opening
    else .ok none

def topLevelFrom (tokens : List Token) (i : Nat) : Except Trap (List Nat) :=
  if _inside : i < tokens.length then do
    let found ← groupEnd tokens i
    return i :: (← topLevelFrom tokens (From.last i found + 1))
  else return []
termination_by tokens.length - i
decreasing_by
  have := From.le_last found
  omega

def topLevel (tokens : List Token) : Except Trap (List Nat) := topLevelFrom tokens 0

/-- The pieces of a list between the separators at given indices, the first of which begins at
another one. -/
def pieces (separator : String) (tokens : List Token) (start : Nat) :
    List Nat → Except Trap (List (List Token))
  | [] => do return [← slice tokens start tokens.length]
  | i :: rest => do
    let t ← get tokens i
    if t.isMark separator then
      let piece ← slice tokens start i
      return piece :: (← pieces separator tokens (i + 1) rest)
    else pieces separator tokens start rest

def splitTopLevel (separator : String) (tokens : List Token) : Except Trap (List (List Token)) :=
  if tokens.isEmpty then .ok []
  else do pieces separator tokens 0 (← topLevel tokens)

end MemberLift.Checked
