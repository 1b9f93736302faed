import MemberLift.Transformer
import MemberLift.Diff

/-!
Runs of a transformer over files.  Each file is read, transformed, kept as the transformer's policy
says, and overwritten if it changed; a dry run shows the changes instead.  The first fault ends a
run.
-/
namespace MemberLift

inductive Status where
  | completed
  | dryRun
  deriving DecidableEq, Repr

def Status.key : Status → Text
  | .completed => "completed".toList
  | .dryRun => "dry_run".toList

def Status.ofKey? (key : Text) : Option Status :=
  [Status.completed, .dryRun].find? fun s => s.key = key

structure FileChange where
  path : Path
  freed : List Freed
  linesAdded : Nat
  linesRemoved : Nat
  backup : Option Path
  diff : Option Text
  deriving DecidableEq, Repr

structure Statistics where
  filesScanned : Nat
  filesModified : Nat
  functionsFreed : Nat
  linesAdded : Nat
  linesRemoved : Nat
  deriving DecidableEq, Repr

structure Report where
  transformation : Transformation
  status : Status
  changes : List FileChange
  scanned : Nat
  deriving DecidableEq, Repr

namespace Report

def filesModified (r : Report) : List Path := r.changes.map FileChange.path

def hasChanges (r : Report) : Bool := !r.changes.isEmpty

def statistics (r : Report) : Statistics where
  filesScanned := r.scanned
  filesModified := r.changes.length
  functionsFreed := Diff.total (fun c => c.freed.length) r.changes
  linesAdded := Diff.total FileChange.linesAdded r.changes
  linesRemoved := Diff.total FileChange.linesRemoved r.changes

end Report

structure Stamps where
  ofFile : Nat → Text

/-- Copies that are made at one time have one stamp. -/
instance : Coe Text Stamps where
  coe stamp := ⟨fun _ => stamp⟩

/-- How a run is made: whether it writes, the lines shown around changes, and the time stamps of
copies. -/
structure RunOptions where
  dryRun : Bool
  context : Nat
  stamps : Stamps

/-- The lines shown around a change unless something else is asked for. -/
def defaultContext : Nat := 3

namespace Run

def compare (source output : Bytes) : Diff.Comparison :=
  Diff.compare (Utf8.decodeLossy source) (Utf8.decodeLossy output)

def plan (options : RunOptions) (p : Path) (source : Bytes) (r : Rewritten) : FileChange :=
  let c := compare source r.output
  { path := p
    freed := r.freed
    linesAdded := c.inserted
    linesRemoved := c.deleted
    backup := none
    diff := if options.dryRun then some (Diff.unified options.context p.text c) else none }

def replaceFile (policy : BackupPolicy) (stamp : Text) (p : Path) (contents : Bytes) :
    Action StorageFault (Option Path) := do
  let backup ← Backup.keep policy stamp p
  Disk.writeFile p contents
  return backup

/-- Transforms the file of a number; the answer says how it changed, if it did. -/
def file (options : RunOptions) (t : Transformer) (n : Nat) (p : Path) :
    Action Fault (Option FileChange) := do
  let source ← Action.fetch (fun fault => Fault.io (.os fault)) (·.read p)
  let r ← Action.ofExcept (t.apply p source)
  if !r.changed then return none
  let change := plan options p source r
  if options.dryRun then return some change
  let backup ← Action.mapFault .storage (replaceFile t.policy (options.stamps.ofFile n) p r.output)
  return some { change with backup }

/-- Transforms files one after the other, the first of them having a given number; the answer lists
those that changed. -/
def files (options : RunOptions) (t : Transformer) (n : Nat) :
    List Path → Action Fault (List FileChange)
  | [] => return []
  | p :: rest => do
    let change ← Action.mapFault (.file p) (file options t n p)
    let changes ← files options t (n + 1) rest
    return change.toList ++ changes

end Run

def run (options : RunOptions) (t : Transformer) (paths : List Path) : Action Fault Report := do
  let changes ← Run.files options t 0 paths
  return {
    transformation := t.transformation
    status := if options.dryRun then .dryRun else .completed
    changes
    scanned := paths.length }

end MemberLift
