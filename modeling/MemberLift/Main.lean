import MemberLift.Program
import MemberLift.Disk.Changes
import MemberLift.Moment
import Std.Time.DateTime.Timestamp

/-!
The program on a computer: it looks at the files that a command line has to do with, does what the
command line asks for on the disk so found, and makes the changes.
-/
namespace MemberLift.Console

def maxDepth : Nat := 64

def stringOf (place : Location) : String := String.ofList ('/' :: Text.join ['/'] place)

def bytesOf (b : ByteArray) : Bytes := b.toList

/-- A file or directory; nothing that is neither is looked at.  Directories are looked into as deep
as asked for, unless nothing is ever searched for in them. -/
def look : Nat → IO.FS.DirEntry → IO (Option (Text × Node))
  | depth, entry => do
    let name := entry.fileName.toList
    match (← entry.path.symlinkMetadata).type with
    | .file => return some (name, .file (bytesOf (← IO.FS.readBinFile entry.path)))
    | .dir =>
      match depth with
      | 0 => return some (name, .dir [])
      | depth + 1 =>
        if excludedNames.contains name then return some (name, .dir [])
        let found ← (← entry.path.readDir).toList.filterMapM fun inner =>
          try look depth inner catch _ => return none
        return some (name, .dir found)
    | _ => return none

def lookInto (depth : Nat) (place : Location) : IO (Option Node) :=
  try
    let directory : IO.FS.DirEntry := ⟨stringOf place, ""⟩
    let found ← (← directory.path.readDir).toList.filterMapM fun inner =>
      try look depth inner catch _ => return none
    return some (.dir found)
  catch _ => return none

/-- Puts a tree at a place, with the directories that lead to it. -/
def graft (root : Node) (place : Location) (node : Node) : Node :=
  let ways := (List.range place.length).map fun n => place.take n
  let made := ways.foldl (fun root way =>
    match root.get? way with
    | some (.dir _) => root
    | _ => root.insert way (.dir [])) root
  match made.get? place with
  | some (.dir (_ :: _)) => made
  | _ => made.insert place node

def placeOf (current : Path) (p : Path) : Location :=
  Disk.segments (current.join p).clean

def scopeOf (current : Path) : Program.Interest → Location × Nat
  | .below p => (placeOf current p, maxDepth)
  | .beside p => ((placeOf current p).dropLast, 0)

def diskFor (current : Path) (interests : List Program.Interest) : IO Disk := do
  let scopes := (interests.map (scopeOf current)).mergeSort fun a b => b.2 ≤ a.2
  let place := Disk.segments current
  let mut root := graft (.dir []) place (.dir [])
  for (scope, depth) in scopes do
    match ← lookInto depth scope with
    | some node => root := graft root scope node
    | none => pure ()
  return ⟨root, place⟩

def make : Change → IO Unit
  | .makeDir place => IO.FS.createDirAll (stringOf place)
  | .write place contents => IO.FS.writeBinFile (stringOf place) ⟨contents.toArray⟩
  | .remove place => IO.FS.removeFile (stringOf place)

def environment : IO CommandLine.Environment :=
  let names := CommandLine.OptionName.all.filterMap CommandLine.OptionName.variableName
  names.filterMapM fun name => do
    return (← IO.getEnv (String.ofList name)).map fun value => (name, value.toList)

def now : IO Moment := do
  return .ofNanoseconds (← Std.Time.Timestamp.now).toNanosecondsSinceUnixEpoch.val.toNat

def run (args : List String) : IO UInt32 := do
  let words := args.map String.toList
  let given ← environment
  let current := Path.ofString (← IO.currentDir).toString
  let interests := match CommandLine.read given words with
    | .ok request => Program.interests request
    | .error _ => []
  let disk ← diskFor current interests
  let moment ← now
  let (outcome, after) :=
    Program.answer ⟨moment.stamp, moment.text, moment.text⟩ given words disk
  for change in disk.changes after do make change
  (← IO.getStdout).putStr (String.ofList outcome.output)
  (← IO.getStderr).putStr (String.ofList outcome.errors)
  return outcome.status.toUInt32

end MemberLift.Console

def main (args : List String) : IO UInt32 := MemberLift.Console.run args
