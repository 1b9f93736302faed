import MemberLift.Diff.Script

/-!
Sliding of changes.  An insertion that could stand in several places goes to the last of them, and
changes that meet become one.  The runs are walked with the current one between those in front of
it, nearest first, and those behind it.
-/
namespace MemberLift.Diff

namespace Run

def growLeft (r : Run) (n : Nat) : Run :=
  { r with oldIndex := r.oldIndex - n, newIndex := r.newIndex - n, size := r.size + n }

def growRight (r : Run) (n : Nat) : Run := { r with size := r.size + n }

def shrinkLeft (r : Run) (n : Nat) : Run := { r with size := r.size - n }

def shrinkRight (r : Run) (n : Nat) : Run :=
  { r with oldIndex := r.oldIndex + n, newIndex := r.newIndex + n, size := r.size - n }

def shiftLeft (r : Run) (n : Nat) : Run :=
  { r with oldIndex := r.oldIndex - n, newIndex := r.newIndex - n }

def shiftRight (r : Run) (n : Nat) : Run :=
  { r with oldIndex := r.oldIndex + n, newIndex := r.newIndex + n }

def oldEnd (r : Run) : Nat := r.oldIndex + r.oldSize

def newEnd (r : Run) : Nat := r.newIndex + r.newSize

end Run

structure Focus where
  before : List Run
  current : Run
  after : List Run
  deriving DecidableEq, Repr

/-- A bound on the steps that can be made over some runs. -/
def weight : List Run → Nat
  | [] => 0
  | r :: rest => r.size + 1 + weight rest

def overlapBefore (old new : Array Text) (kept change : Run) : Nat :=
  commonSuffix old new kept.oldEnd change.newEnd (min kept.oldSize change.newSize)

def overlapAfter (old new : Array Text) (change kept : Run) : Nat :=
  commonPrefix old new kept.oldIndex change.newIndex (min kept.oldSize change.newSize)

def keepBefore (kept : Run) (runs : List Run) : List Run :=
  match runs with
  | next :: rest =>
    if next.kind = .equal then next.growLeft kept.size :: rest else kept :: runs
  | [] => [kept]

def keepAfter (kept : Run) (runs : List Run) : List Run :=
  match runs with
  | previous :: rest =>
    if previous.kind = .equal then previous.growRight kept.size :: rest else kept :: runs
  | [] => [kept]

def slideUp (old new : Array Text) (before : List Run) (current : Run) (after : List Run) : Focus :=
  match before with
  | [] => ⟨[], current, after⟩
  | previous :: outer =>
    if previous.kind = .equal then
      let n := overlapBefore old new previous current
      if 0 < n then
        let after :=
          keepBefore ⟨.equal, previous.oldEnd - n, current.newEnd - n, n⟩ after
        let before := if previous.size ≤ n then outer else previous.shrinkLeft n :: outer
        slideUp old new before (current.shiftLeft n) after
      else if previous.size = 0 then slideUp old new outer current after
      else ⟨before, current, after⟩
    else if previous.kind = current.kind then
      slideUp old new outer (previous.growRight current.size) after
    else slideUp old new outer current (previous :: after)
termination_by weight before
decreasing_by
  all_goals simp only [weight, Run.shrinkLeft]
  · split
    · omega
    · simp only [weight]
      omega
  all_goals omega

def slideDown (old new : Array Text) (before : List Run) (current : Run) (after : List Run) :
    Focus :=
  match after with
  | [] => ⟨before, current, []⟩
  | next :: more =>
    if next.kind = .equal then
      let n := overlapAfter old new current next
      if 0 < n then
        let before := keepAfter ⟨.equal, next.oldIndex, current.newIndex, n⟩ before
        let after := if next.size ≤ n then more else next.shrinkRight n :: more
        slideDown old new before (current.shiftRight n) after
      else if next.size = 0 then slideDown old new before current more
      else ⟨before, current, after⟩
    else if next.kind = current.kind then
      slideDown old new before (current.growRight next.size) more
    else slideDown old new (next :: before) current more
termination_by weight after
decreasing_by
  all_goals simp only [weight, Run.shrinkRight]
  · split
    · omega
    · simp only [weight]
      omega
  all_goals omega

/-- Slides the changes of one kind, from the first run on; the result is given last first. -/
def slideKind (old new : Array Text) (kind : Kind) (before : List Run) (rest : List Run) :
    Nat → List Run
  | 0 => rest.reverse ++ before
  | steps + 1 =>
    match rest with
    | [] => before
    | r :: after =>
      if r.kind = kind then
        let up := slideUp old new before r after
        let down := slideDown old new up.before up.current up.after
        slideKind old new kind (down.current :: down.before) down.after steps
      else slideKind old new kind (r :: before) after steps

def slide (old new : Array Text) (runs : List Run) : List Run :=
  let deletions := (slideKind old new .delete [] runs (weight runs)).reverse
  (slideKind old new .insert [] deletions (weight deletions)).reverse

end MemberLift.Diff
