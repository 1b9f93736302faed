import MemberLift.Disk.Action

/-!
Backups: a file is either moved to a path of its own, or copied under a name with a time stamp into
a directory beside it.
-/
namespace MemberLift

inductive BackupPolicy where
  | none
  | origSuffix
  | timestamped
  deriving DecidableEq, Repr

namespace Backup

def directory : Text := ".freefn_backups".toList

/-- Where a copy goes.  A file name is read with replacement characters for bytes that are not
UTF-8.  Names are texts here, so nothing is replaced, and the copies of different files go to
different places; two names that differ in such bytes alone would share one. -/
def stampedPath (stamp : Text) (p : Path) : Except PathFault Path :=
  match p.fileName?, p.parent? with
  | .none, _ => .error .noFileName
  | some _, .none => .error .noParent
  | some name, some parent =>
    .ok ((parent.joinText directory).joinText (name ++ ".backup.".toList ++ stamp))

def copyStamped (stamp : Text) (p : Path) : Action StorageFault Path := do
  if ← Action.query (·.isFile p) then
    let target ← Action.ofExcept ((stampedPath stamp p).mapError .path)
    match target.parent? with
    | some parent => Disk.ensureDir parent
    | .none => pure ()
    let contents ← Action.fetch .ofOs (·.read p)
    Action.change .ofOs (·.write target contents)
    return target
  else Action.fail (.io (.missingFile p))

/-- Moves a file away, over an older backup. -/
def moveToOrig (p : Path) : Action StorageFault Path := do
  if ← Action.query (·.exists? p.orig) then Action.change .ofOs (·.remove p.orig)
  Action.change .ofOs (·.rename p p.orig)
  return p.orig

def keep (policy : BackupPolicy) (stamp : Text) (p : Path) : Action StorageFault (Option Path) :=
  match policy with
  | .none => pure .none
  | .origSuffix => some <$> moveToOrig p
  | .timestamped => some <$> copyStamped stamp p

end Backup

end MemberLift
