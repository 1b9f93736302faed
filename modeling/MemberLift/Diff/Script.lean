import MemberLift.Text.Basic

/-!
Edit scripts between two arrays of lines.  `script` finds a shortest one by meeting in the middle:
the furthest points of paths with few edits, from both ends, until two of them overlap.
-/
namespace MemberLift.Diff

inductive Kind where
  | equal
  | delete
  | insert
  deriving DecidableEq, Repr

/-- A run of lines that are kept, deleted or inserted, with the indices it begins at. -/
structure Run where
  kind : Kind
  oldIndex : Nat
  newIndex : Nat
  size : Nat
  deriving DecidableEq, Repr

def Run.oldSize (r : Run) : Nat := if r.kind = .insert then 0 else r.size

def Run.newSize (r : Run) : Nat := if r.kind = .delete then 0 else r.size

def commonPrefix (old new : Array Text) (i j : Nat) : Nat → Nat
  | 0 => 0
  | n + 1 =>
    match old[i]?, new[j]? with
    | some a, some b => if a = b then commonPrefix old new (i + 1) (j + 1) n + 1 else 0
    | _, _ => 0

def commonSuffix (old new : Array Text) (i j : Nat) : Nat → Nat
  | 0 => 0
  | n + 1 =>
    match old[i - 1]?, new[j - 1]? with
    | some a, some b => if a = b then commonSuffix old new (i - 1) (j - 1) n + 1 else 0
    | _, _ => 0

structure Box where
  oldStart : Nat
  oldEnd : Nat
  newStart : Nat
  newEnd : Nat
  deriving DecidableEq, Repr

namespace Box

def oldSize (b : Box) : Nat := b.oldEnd - b.oldStart

def newSize (b : Box) : Nat := b.newEnd - b.newStart

def delta (b : Box) : Int := (b.oldSize : Int) - b.newSize

/-- One more than half the edits that can be needed at most. -/
def reach (b : Box) : Nat := (b.oldSize + b.newSize + 1) / 2 + 1

end Box

/-- For each diagonal the furthest old index reached. -/
structure Frontier where
  offset : Nat
  cells : Array Nat

namespace Frontier

def empty (b : Box) : Frontier := ⟨b.reach + 1, Array.replicate (2 * b.reach + 3) 0⟩

def get (f : Frontier) (k : Int) : Nat := f.cells.getD (k + f.offset).toNat 0

def set (f : Frontier) (k : Int) (x : Nat) : Frontier :=
  { f with cells := f.cells.setIfInBounds (k + f.offset).toNat x }

/-- Where a path with one more edit begins on a diagonal. -/
def step (f : Frontier) (d k : Int) : Nat :=
  if k = -d || (k ≠ d && f.get (k - 1) < f.get (k + 1)) then f.get (k + 1) else f.get (k - 1) + 1

end Frontier

def diagonals (d : Nat) : List Int :=
  (List.range (d + 1)).map fun (i : Nat) => (d : Int) - 2 * (i : Int)

/-- Extends the paths from the front by one edit, unless one meets a path from the back. -/
def sweepForward (old new : Array Text) (b : Box) (d : Nat) (back : Frontier) (front : Frontier) :
    List Int → Except (Nat × Nat) Frontier
  | [] => .ok front
  | k :: more =>
    let x := front.step d k
    let y := ((x : Int) - k).toNat
    let far := x + (if x < b.oldSize && y < b.newSize then
      commonPrefix old new (b.oldStart + x) (b.newStart + y) (min (b.oldSize - x) (b.newSize - y))
      else 0)
    let front := front.set k far
    if b.delta % 2 ≠ 0 && (k - b.delta).natAbs + 1 ≤ d &&
        b.oldSize ≤ front.get k + back.get (b.delta - k) then
      .error (b.oldStart + x, b.newStart + y)
    else sweepForward old new b d back front more

def sweepBackward (old new : Array Text) (b : Box) (d : Nat) (front : Frontier) (back : Frontier) :
    List Int → Except (Nat × Nat) Frontier
  | [] => .ok back
  | k :: more =>
    let x := back.step d k
    let y := ((x : Int) - k).toNat
    let advance := if x < b.oldSize && y < b.newSize then
      commonSuffix old new (b.oldEnd - x) (b.newEnd - y) (min (b.oldSize - x) (b.newSize - y))
      else 0
    let back := back.set k (x + advance)
    if b.delta % 2 = 0 && (k - b.delta).natAbs ≤ d &&
        b.oldSize ≤ back.get k + front.get (b.delta - k) then
      .error (b.oldEnd - (x + advance), b.newEnd - (y + advance))
    else sweepBackward old new b d front back more

/-- A point on a shortest path, searched with more and more edits. -/
def middle (old new : Array Text) (b : Box) (d : Nat) (front back : Frontier) :
    Nat → Option (Nat × Nat)
  | 0 => none
  | rounds + 1 =>
    match sweepForward old new b d back front (diagonals d) with
    | .error point => some point
    | .ok front =>
      match sweepBackward old new b d front back (diagonals d) with
      | .error point => some point
      | .ok back => middle old new b (d + 1) front back rounds

def middle? (old new : Array Text) (b : Box) : Option (Nat × Nat) :=
  middle old new b 0 ((Frontier.empty b).set 1 0) ((Frontier.empty b).set 1 0) b.reach

def equalRun (oldIndex newIndex size : Nat) : List Run :=
  if size = 0 then [] else [⟨.equal, oldIndex, newIndex, size⟩]

def Box.trim (b : Box) (before after : Nat) : Box :=
  ⟨b.oldStart + before, b.oldEnd - after, b.newStart + before, b.newEnd - after⟩

def Box.divides (b : Box) (x y : Nat) : Prop :=
  b.oldStart ≤ x ∧ x ≤ b.oldEnd ∧ b.newStart ≤ y ∧ y ≤ b.newEnd ∧
    b.oldStart + b.newStart < x + y ∧ x + y < b.oldEnd + b.newEnd

instance (b : Box) (x y : Nat) : Decidable (b.divides x y) :=
  inferInstanceAs (Decidable (_ ∧ _))

def margins (old new : Array Text) (b : Box) : Nat × Nat :=
  let before := commonPrefix old new b.oldStart b.newStart (min b.oldSize b.newSize)
  (before, commonSuffix old new b.oldEnd b.newEnd (min b.oldSize b.newSize - before))

def scriptIn (old new : Array Text) (b : Box) : List Run :=
  let before := (margins old new b).1
  let after := (margins old new b).2
  let inner := b.trim before after
  equalRun b.oldStart b.newStart before ++
    (if inner.oldSize = 0 && inner.newSize = 0 then []
    else if inner.newSize = 0 then [⟨.delete, inner.oldStart, inner.newStart, inner.oldSize⟩]
    else if inner.oldSize = 0 then [⟨.insert, inner.oldStart, inner.newStart, inner.newSize⟩]
    else match middle? old new inner with
      | none =>
        [⟨.delete, inner.oldStart, inner.newStart, inner.oldSize⟩,
          ⟨.insert, inner.oldStart, inner.newStart, inner.newSize⟩]
      | some (x, y) =>
        if _proper : (b.trim (margins old new b).1 (margins old new b).2).divides x y then
          scriptIn old new ⟨inner.oldStart, x, inner.newStart, y⟩ ++
            scriptIn old new ⟨x, inner.oldEnd, y, inner.newEnd⟩
        else
          [⟨.delete, inner.oldStart, inner.newStart, inner.oldSize⟩,
            ⟨.insert, inner.oldStart, inner.newStart, inner.newSize⟩]) ++
    equalRun inner.oldEnd inner.newEnd after
termination_by b.oldSize + b.newSize
decreasing_by
  all_goals
    simp only [Box.divides, Box.trim, Box.oldSize, Box.newSize] at *
    omega

def script (old new : Array Text) : List Run := scriptIn old new ⟨0, old.size, 0, new.size⟩

end MemberLift.Diff
