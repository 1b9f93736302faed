import MemberLift.Disk.Path
import MemberLift.Entries
import MemberLift.Text.Utf8

/-!
A disk is a tree of directories and files with a current directory.  `Node.get?` is the view of a
tree; each change is described by what it does to that view.  Paths are looked up name by name, and
a name in front of a slash has to be a directory.

The tree leaves out symbolic links, permissions, limits on the length of names and on the size of
files, and whatever else uses the files at the same time.  Names are texts: a name whose bytes are
not UTF-8 does not occur.
-/
namespace MemberLift

/-- The names that lead from the root of a disk to a place. -/
abbrev Location := List Text

inductive Node where
  | file (contents : Bytes)
  | dir (entries : List (Text × Node))

namespace Node

def get? : Node → Location → Option Node
  | node, [] => some node
  | .file _, _ :: _ => none
  | .dir entries, name :: rest =>
    match entries.lookup name with
    | none => none
    | some child => child.get? rest

/-- Puts a node at a place whose directory exists, and changes nothing if it does not. -/
def insert : Node → Location → Node → Node
  | _, [], new => new
  | .file contents, _ :: _, _ => .file contents
  | .dir entries, [name], new => .dir (Entries.put name new entries)
  | .dir entries, name :: rest, new =>
    match entries.lookup name with
    | none => .dir entries
    | some child => .dir (Entries.put name (child.insert rest new) entries)

def erase : Node → Location → Node
  | node, [] => node
  | .file contents, _ :: _ => .file contents
  | .dir entries, [name] => .dir (Entries.erase name entries)
  | .dir entries, name :: rest =>
    match entries.lookup name with
    | none => .dir entries
    | some child => .dir (Entries.put name (child.erase rest) entries)

def isDir : Node → Bool
  | .dir _ => true
  | .file _ => false

end Node

/-- What an operating system answers instead of doing what it is asked for. -/
inductive OsFault where
  | notFound
  | isADirectory
  | notADirectory
  | alreadyExists
  | invalidInput
  deriving DecidableEq, Repr

def OsFault.message : OsFault → Text
  | .notFound => "No such file or directory (os error 2)".toList
  | .isADirectory => "Is a directory (os error 21)".toList
  | .notADirectory => "Not a directory (os error 20)".toList
  | .alreadyExists => "File exists (os error 17)".toList
  | .invalidInput => "Invalid argument (os error 22)".toList

structure Disk where
  root : Node
  current : Location

namespace Disk

def dot : Text := ['.']

def dotDot : Text := ['.', '.']

def segments (p : Path) : List Text := (p.text.splitAt '/').filter fun segment => !segment.isEmpty

def base (d : Disk) (p : Path) : Location := if p.isAbsolute then [] else d.current

def enter (d : Disk) (place : Location) (segment : Text) : Except OsFault Location :=
  if segment = dot then .ok place
  else if segment = dotDot then .ok place.dropLast
  else match d.root.get? (place ++ [segment]) with
    | none => .error .notFound
    | some (.file _) => .error .notADirectory
    | some (.dir _) => .ok (place ++ [segment])

def enterAll (d : Disk) (place : Location) : List Text → Except OsFault Location
  | [] => .ok place
  | segment :: rest =>
    match d.enter place segment with
    | .error fault => .error fault
    | .ok next => d.enterAll next rest

def lastName? (p : Path) : Option Text :=
  match (p.text.splitAt '/').getLast? with
  | none => none
  | some last => if last.isEmpty || last = dot || last = dotDot then none else some last

/-- The place that a path leads to, where something may be or not. -/
def locate (d : Disk) (p : Path) : Except OsFault Location :=
  if p.text.isEmpty then .error .notFound
  else match lastName? p with
    | none => d.enterAll (d.base p) (segments p)
    | some name => (d.enterAll (d.base p) (segments p).dropLast).map (· ++ [name])

def find (d : Disk) (p : Path) : Except OsFault Node :=
  match d.locate p with
  | .error fault => .error fault
  | .ok place =>
    match d.root.get? place with
    | none => .error .notFound
    | some node => .ok node

def exists? (d : Disk) (p : Path) : Bool := (d.find p).toBool

def isFile (d : Disk) (p : Path) : Bool :=
  match d.find p with
  | .ok (.file _) => true
  | _ => false

def isDir (d : Disk) (p : Path) : Bool :=
  match d.find p with
  | .ok (.dir _) => true
  | _ => false

def read (d : Disk) (p : Path) : Except OsFault Bytes :=
  match d.find p with
  | .error fault => .error fault
  | .ok (.dir _) => .error .isADirectory
  | .ok (.file contents) => .ok contents

/-- Writes a file whose directory exists.  A path that ends in a slash or in dots can only be that
of a directory. -/
def write (d : Disk) (p : Path) (contents : Bytes) : Except OsFault Disk :=
  if p.text.isEmpty then .error .notFound
  else match d.enterAll (d.base p) (segments p).dropLast, lastName? p with
    | .error fault, _ => .error fault
    | .ok _, none => .error .isADirectory
    | .ok place, some name =>
      match d.root.get? (place ++ [name]) with
      | some (.dir _) => .error .isADirectory
      | _ => .ok { d with root := d.root.insert (place ++ [name]) (.file contents) }

def remove (d : Disk) (p : Path) : Except OsFault Disk :=
  match d.locate p with
  | .error fault => .error fault
  | .ok place =>
    match d.root.get? place with
    | none => .error .notFound
    | some (.dir _) => .error .isADirectory
    | some (.file _) => .ok { d with root := d.root.erase place }

/-- Moves a file or a directory to a place where no directory is. -/
def rename (d : Disk) (source target : Path) : Except OsFault Disk := do
  let origin ← d.locate source
  let destination ← d.locate target
  match d.root.get? origin, d.root.get? destination with
  | none, _ => .error .notFound
  | some _, some (.dir _) => .error .isADirectory
  | some node, _ =>
    if origin = destination then .ok d
    else if origin.isPrefixOf destination then .error .invalidInput
    else .ok { d with root := (d.root.erase origin).insert destination node }

/-- Makes the directories that a path names, as far as they are missing. -/
def makeDirsFrom (d : Disk) (place : Location) : List Text → Except OsFault Disk
  | [] => .ok d
  | segment :: rest =>
    if segment = dot then d.makeDirsFrom place rest
    else if segment = dotDot then d.makeDirsFrom place.dropLast rest
    else match d.root.get? (place ++ [segment]) with
      | some (.dir _) => d.makeDirsFrom (place ++ [segment]) rest
      | some (.file _) => .error (if rest.isEmpty then .alreadyExists else .notADirectory)
      | none =>
        { d with root := d.root.insert (place ++ [segment]) (.dir []) }.makeDirsFrom
          (place ++ [segment]) rest

def makeDirs (d : Disk) (p : Path) : Except OsFault Disk := d.makeDirsFrom (d.base p) (segments p)

end Disk

end MemberLift
