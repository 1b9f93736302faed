import MemberLift.Diff.Slide

/-!
Line diffs of two texts in the unified format.  Here a line ends behind a line feed, a carriage
return, or both together.
-/
namespace MemberLift

namespace Diff

def lines : Text → List Text
  | [] => []
  | '\r' :: '\n' :: rest => ['\r', '\n'] :: lines rest
  | c :: rest =>
    if c = '\n' || c = '\r' then [c] :: lines rest
    else match lines rest with
      | [] => [[c]]
      | line :: more => (c :: line) :: more

/-- Kept lines, or old lines with the new lines that stand in their place. -/
inductive Edit where
  | keep (oldIndex newIndex size : Nat)
  | change (oldIndex oldSize newIndex newSize : Nat)
  deriving DecidableEq, Repr

namespace Edit

def oldStart : Edit → Nat
  | .keep i _ _ => i
  | .change i _ _ _ => i

def newStart : Edit → Nat
  | .keep _ j _ => j
  | .change _ _ j _ => j

def oldEnd : Edit → Nat
  | .keep i _ n => i + n
  | .change i n _ _ => i + n

def newEnd : Edit → Nat
  | .keep _ j n => j + n
  | .change _ _ j n => j + n

def deleted : Edit → Nat
  | .keep _ _ _ => 0
  | .change _ n _ _ => n

def inserted : Edit → Nat
  | .keep _ _ _ => 0
  | .change _ _ _ n => n

end Edit

def firstOf (kind : Kind) (runs : List Run) : Option Run := runs.find? fun r => r.kind = kind

def total {α : Type} (size : α → Nat) (parts : List α) : Nat :=
  parts.foldl (fun n part => n + size part) 0

def changeOf (runs : List Run) : Edit :=
  let deleted := total Run.oldSize runs
  let inserted := total Run.newSize runs
  match firstOf .delete runs, firstOf .insert runs with
  | some d, some i => .change d.oldIndex deleted i.newIndex inserted
  | some d, none => .change d.oldIndex deleted d.newIndex 0
  | none, some i => .change i.oldIndex 0 i.newIndex inserted
  | none, none => .change 0 0 0 0

def keepOf (runs : List Run) : Edit :=
  match runs with
  | [] => .keep 0 0 0
  | r :: _ => .keep r.oldIndex r.newIndex (total Run.size runs)

def editOf (runs : List Run) : Edit :=
  if runs.any fun r => r.kind = .equal then keepOf runs else changeOf runs

def edits (runs : List Run) : List Edit :=
  (runs.splitBy fun a b => (a.kind = .equal) == (b.kind = .equal)).map editOf

structure Comparison where
  old : Array Text
  new : Array Text
  edits : List Edit

def compare (old new : Text) : Comparison :=
  let oldLines := (lines old).toArray
  let newLines := (lines new).toArray
  ⟨oldLines, newLines, edits (slide oldLines newLines (script oldLines newLines))⟩

namespace Comparison

def deleted (c : Comparison) : Nat := total Edit.deleted c.edits

def inserted (c : Comparison) : Nat := total Edit.inserted c.edits

end Comparison

def shortenFirst (context : Nat) : List Edit → List Edit
  | .keep i j n :: rest => .keep (i + (n - context)) (j + (n - context)) (min n context) :: rest
  | es => es

/-- Keeps the first lines of a closing run of kept lines. -/
def shortenLast (context : Nat) : List Edit → List Edit
  | [] => []
  | [.keep i j n] => [.keep i j (min n context)]
  | e :: rest => e :: shortenLast context rest

def showsChange (hunk : List Edit) : Bool :=
  match hunk with
  | [] => false
  | [.keep _ _ _] => false
  | _ => true

/-- Divides edits where more lines are kept than two contexts hold; the hunk that is being filled is
given last edit first. -/
def divide (context : Nat) (pending : List Edit) : List Edit → List (List Edit)
  | [] => if showsChange pending then [pending.reverse] else []
  | .keep i j n :: rest =>
    if 2 * context < n then
      (.keep i j context :: pending).reverse ::
        divide context [.keep (i + (n - context)) (j + (n - context)) context] rest
    else divide context (.keep i j n :: pending) rest
  | e :: rest => divide context (e :: pending) rest

def hunks (context : Nat) (es : List Edit) : List (List Edit) :=
  divide context [] (shortenLast context (shortenFirst context es))

/-- A range of lines, counted from one; an empty range is given by the line in front of it, and the
count of a single line is left out. -/
def rangeText (first last : Nat) : Text :=
  if last - first = 1 then Text.ofNat (first + 1)
  else if last ≤ first then Text.ofNat first ++ ",0".toList
  else Text.ofNat (first + 1) ++ ',' :: Text.ofNat (last - first)

def hunkHeader (hunk : List Edit) : Text :=
  match hunk.head?, hunk.getLast? with
  | some first, some last =>
    "@@ -".toList ++ rangeText first.oldStart last.oldEnd ++ " +".toList ++
      rangeText first.newStart last.newEnd ++ " @@\n".toList
  | _, _ => []

def endsLine (line : Text) : Bool :=
  match line.getLast? with
  | some c => c = '\n' || c = '\r'
  | none => false

/-- A line behind its mark; one without an end is followed by a remark. -/
def markedLine (mark : Char) (line : Text) : Text :=
  mark :: line ++ (if endsLine line then [] else "\n\\ No newline at end of file\n".toList)

def markedLines (mark : Char) (lines : Array Text) (first count : Nat) : Text :=
  (lines.extract first (first + count)).toList.flatMap (markedLine mark)

def editText (c : Comparison) : Edit → Text
  | .keep i _ n => markedLines ' ' c.old i n
  | .change i m j n => markedLines '-' c.old i m ++ markedLines '+' c.new j n

def hunkText (c : Comparison) (hunk : List Edit) : Text :=
  let body := hunk.flatMap (editText c)
  if body.isEmpty then [] else hunkHeader hunk ++ body

def unified (context : Nat) (name : Text) (c : Comparison) : Text :=
  match hunks context c.edits with
  | [] => []
  | found =>
    "--- ".toList ++ name ++ "\n+++ ".toList ++ name ++ '\n' :: found.flatMap (hunkText c)

end Diff

end MemberLift
