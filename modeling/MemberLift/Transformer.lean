import MemberLift.Fault
import MemberLift.Tabs
import MemberLift.Disk.Backup

/-!
The two transformations of a file's contents, and how each keeps the file it changes.
-/
namespace MemberLift

inductive Transformation where
  | freeFunctions
  | expandTabs
  deriving DecidableEq, Repr

namespace Transformation

def key : Transformation → Text
  | .freeFunctions => "free_functions".toList
  | .expandTabs => "expand_tabs".toList

def title : Transformation → Text
  | .freeFunctions => "Free Function Generation".toList
  | .expandTabs => "Tab Expansion".toList

def ofKey? (key : Text) : Option Transformation :=
  [freeFunctions, expandTabs].find? fun t => t.key = key

def unknownMessage (key : Text) : Text := "Unknown transformation type: ".toList ++ key

end Transformation

namespace BackupPolicy

def key : BackupPolicy → Text
  | .none => "none".toList
  | .origSuffix => "orig_suffix".toList
  | .timestamped => "timestamped".toList

def ofKey? (key : Text) : Option BackupPolicy :=
  [BackupPolicy.none, .origSuffix, .timestamped].find? fun p => p.key = key

end BackupPolicy

structure Rewritten where
  output : Bytes
  changed : Bool
  freed : List Freed
  deriving DecidableEq, Repr

inductive Transformer where
  | freeFunctions (conventions : Conventions) (policy : BackupPolicy)
  | expandTabs (width : Nat)
  deriving DecidableEq, Repr

namespace Transformer

def ofConventions (c : Conventions) (policy : BackupPolicy) : Except Fault Transformer :=
  match c.fault? with
  | some fault => .error (.conventions fault)
  | none => .ok (.freeFunctions c policy)

def transformation : Transformer → Transformation
  | .freeFunctions _ _ => .freeFunctions
  | .expandTabs _ => .expandTabs

/-- Expanded tabs always replace the file, and the file is kept. -/
def policy : Transformer → BackupPolicy
  | .freeFunctions _ policy => policy
  | .expandTabs _ => .origSuffix

/-- Bytes without a tab stay as they are.  `Checked.expandBytes` gives the same on machine words as
long as these have room for it. -/
def expandBytes (width : Nat) (bytes : Bytes) : Rewritten :=
  if bytes.contains Tabs.tab then ⟨Tabs.expand width bytes, true, []⟩
  else ⟨bytes, false, []⟩

def liftBytes (c : Conventions) (p : Path) (bytes : Bytes) : Except Fault Rewritten :=
  match Utf8.decode bytes with
  | .error fault => .error (.storage (.io (.notUtf8 p fault)))
  | .ok text =>
    match liftHeader c text with
    | .error fault => .error (.header fault)
    | .ok lifted => .ok ⟨Utf8.encode lifted.output, lifted.changed, lifted.freed⟩

def apply (t : Transformer) (p : Path) (bytes : Bytes) : Except Fault Rewritten :=
  match t with
  | .freeFunctions c _ => liftBytes c p bytes
  | .expandTabs width => .ok (expandBytes width bytes)

end Transformer

end MemberLift
