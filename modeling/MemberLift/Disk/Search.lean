import MemberLift.Disk.Action

/-!
The files below a directory whose paths from there match one of some patterns.  Directories with
certain names are not searched, wherever they are below the first.
-/
namespace MemberLift

namespace Node

mutual

/-- The places of all files in a tree, without those in directories that are skipped. -/
def files (skip : Text → Bool) (node : Node) : List Location :=
  match node with
  | .file _ => [[]]
  | .dir entries => filesIn skip entries

def filesIn (skip : Text → Bool) (entries : List (Text × Node)) : List Location :=
  match entries with
  | [] => []
  | (name, node) :: rest =>
    (if node.isDir && skip name then [] else (files skip node).map (name :: ·)) ++ filesIn skip rest

end

end Node

namespace Search

def textLe : Text → Text → Bool
  | [], _ => true
  | _ :: _, [] => false
  | a :: s, b :: t => a < b || (a = b && textLe s t)

def locationLe : Location → Location → Bool
  | [], _ => true
  | _ :: _, [] => false
  | a :: s, b :: t => if a = b then locationLe s t else textLe a b

def relativeText (place : Location) : Text := Text.join ['/'] place

def pathBelow (root : Path) (place : Location) : Path := place.foldl Path.joinText root

/-- The places below a directory that have a property, in order. -/
def placesBelow (skip : Text → Bool) (wanted : Text → Bool) (node : Node) : List Location :=
  ((node.files skip).filter fun place => wanted (relativeText place)).mergeSort locationLe

def filesWhere (root : Path) (excluded : List Text) (wanted : Text → Bool) :
    Action StorageFault (List Path) := do
  match ← Action.query (·.find root) with
  | .ok (.dir entries) =>
    return (placesBelow (fun name => (Path.mk name).hasComponentIn excluded) wanted
      (.dir entries)).map (pathBelow root)
  | _ => Action.fail (.path (.rootNotDirectory root))

def matching (root : Path) (patterns excluded : List Text) : Action Fault (List Path) := do
  let set ← Action.ofExcept ((PatternSet.ofPatterns patterns).mapError Fault.glob)
  Action.mapFault .storage (filesWhere root excluded set.matchesPath)

end Search

end MemberLift
