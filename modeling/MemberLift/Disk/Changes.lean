import MemberLift.Disk

/-!
What has to be done to one tree of files to make it another.
-/
namespace MemberLift

inductive Change where
  | makeDir (place : Location)
  | write (place : Location) (contents : Bytes)
  | remove (place : Location)
  deriving DecidableEq, Repr

namespace Node

mutual

/-- The steps that make a tree at a place, where another tree may be already. -/
def additions (place : Location) (old : Option Node) (new : Node) : List Change :=
  match new with
  | .file contents =>
    match old with
    | some (.file former) => if former = contents then [] else [.write place contents]
    | _ => [.write place contents]
  | .dir entries =>
    match old with
    | some (.dir former) => additionsIn place former entries
    | _ => .makeDir place :: additionsIn place [] entries

def additionsIn (place : Location) (old entries : List (Text × Node)) : List Change :=
  match entries with
  | [] => []
  | (name, node) :: rest =>
    additions (place ++ [name]) (old.lookup name) node ++ additionsIn place old rest

end

mutual

def removals (place : Location) (old : Node) (new : Option Node) : List Change :=
  match old with
  | .file _ => if new.isNone then [.remove place] else []
  | .dir entries => removalsIn place entries (match new with
      | some (.dir remaining) => remaining
      | _ => [])

def removalsIn (place : Location) (entries new : List (Text × Node)) : List Change :=
  match entries with
  | [] => []
  | (name, node) :: rest =>
    removals (place ++ [name]) node (new.lookup name) ++ removalsIn place rest new

end

end Node

def Disk.changes (old new : Disk) : List Change :=
  Node.additions [] (some old.root) new.root ++ Node.removals [] old.root (some new.root)

end MemberLift
