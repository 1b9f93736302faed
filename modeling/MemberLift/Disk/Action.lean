import MemberLift.Fault

/-!
Actions on a disk.  An action that fails keeps what it has done to the disk until then.
-/
namespace MemberLift

abbrev Action (ε α : Type) := ExceptT ε (StateM Disk) α

namespace Action

def perform {ε α : Type} (action : Action ε α) (disk : Disk) : Except ε α × Disk :=
  action disk

def query {ε α : Type} (f : Disk → α) : Action ε α := fun disk => (.ok (f disk), disk)

def fail {ε α : Type} (fault : ε) : Action ε α := fun disk => (.error fault, disk)

def ofExcept {ε α : Type} (e : Except ε α) : Action ε α := fun disk => (e, disk)

/-- Changes the disk, or leaves it as it is if that fails. -/
def change {ε : Type} (wrap : OsFault → ε) (f : Disk → Except OsFault Disk) : Action ε Unit :=
  fun disk => match f disk with
    | .ok after => (.ok (), after)
    | .error fault => (.error (wrap fault), disk)

def fetch {ε α : Type} (wrap : OsFault → ε) (f : Disk → Except OsFault α) : Action ε α :=
  fun disk => ((f disk).mapError wrap, disk)

def mapFault {ε δ α : Type} (f : ε → δ) (action : Action ε α) : Action δ α :=
  fun disk => match action disk with
    | (.ok a, after) => (.ok a, after)
    | (.error fault, after) => (.error (f fault), after)

end Action

def StorageFault.ofOs (fault : OsFault) : StorageFault := .io (.os fault)

namespace Disk

def ensureDir (p : Path) : Action StorageFault Unit := do
  if ← Action.query (·.exists? p) then
    if ← Action.query (·.isDir p) then return ()
    else Action.fail (.path (.occupied p))
  else Action.change .ofOs (·.makeDirs p)

def writeFile (p : Path) (contents : Bytes) : Action StorageFault Unit := do
  match p.parent? with
  | some parent => if parent.text.isEmpty then pure () else ensureDir parent
  | none => pure ()
  Action.change .ofOs (·.write p contents)

end Disk

end MemberLift
