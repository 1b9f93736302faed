import MemberLift.CommandLine
import MemberLift.CommandLine.Help
import MemberLift.Disk.Search
import MemberLift.Run.Written

/-!
The program: what it does for a command line on a disk, what it prints, and how it ends.
-/
namespace MemberLift

/-- The times that a run shows: in the names of copies, and where it began and ended. -/
structure Clock where
  stamps : Stamps
  started : Text
  finished : Text

/-- Why the program gives up: what it was doing, and the causes, nearest first. -/
structure Failure where
  heading : Text
  causes : List Text
  deriving DecidableEq, Repr

namespace Failure

def indented (number : Option Nat) (message : Text) : Text :=
  let first : Text := match number with
    | some n => List.replicate (5 - (Text.ofNat n).length) ' ' ++ Text.ofNat n ++ ": ".toList
    | none => List.replicate 4 ' '
  first ++ Text.join ('\n' :: List.replicate first.length ' ') (Text.splitAt '\n' message)

def text (f : Failure) : Text :=
  let several := 1 < f.causes.length
  let causes := f.causes.zipIdx.flatMap fun cause =>
    '\n' :: indented (if several then some cause.2 else none) cause.1
  "Error: ".toList ++ f.heading ++
    (if f.causes.isEmpty then [] else "\n\nCaused by:".toList ++ causes) ++ ['\n']

end Failure

structure Outcome where
  status : Nat
  output : Text
  errors : Text
  deriving DecidableEq, Repr

namespace Program

open CommandLine

def settingsStem : Text := "freefn".toList

def within {ε α : Type} (heading : Text) (chain : ε → List Text) (action : Action ε α) :
    Action Failure α :=
  Action.mapFault (fun fault => ⟨heading, chain fault⟩) action

def loadSettings (r : Request) : Action Failure Settings :=
  within "Failed to load configuration".toList StorageFault.chain
    (Settings.loadOrStandard r.settings r.root settingsStem)

def override (c : Conventions) (marker namespaceEnd : Option Text) : Conventions :=
  { c with
    marker := marker.getD c.marker
    namespaceEnd := namespaceEnd.getD c.namespaceEnd }

def resolve (root p : Path) : Path := if p.isAbsolute then p else (root.join p).clean

def findFiles (what : String) (root : Path) (patterns : List Text) : Action Failure (List Path) :=
  within ("Failed to find ".toList ++ what.toList ++ " under ".toList ++ root.text) Fault.chain
    (Search.matching root patterns excludedNames)

def runOver (clock : Clock) (t : Transformer) (paths : List Path) (dryRun : Bool) :
    Action Failure Report :=
  within (t.transformation.title ++ " failed".toList) Fault.chain
    (run ⟨dryRun, defaultContext, clock.stamps⟩ t paths)

def reportText (clock : Clock) (json : Bool) (r : Report) : Text :=
  if json then r.json clock.started clock.finished ++ ['\n'] else r.lines

def success (output : Text) : Outcome := ⟨0, output, []⟩

def perform (clock : Clock) (r : Request) : Action Failure Outcome := do
  match r.task with
  | .completions shell => return success (CommandLine.completions shell)
  | .config =>
    let settings ← loadSettings r
    match settings.toToml with
    | .ok t => return success t
    | .error fault => Action.fail ⟨fault.message, []⟩
  | .expandTabs width extensions dryRun json =>
    let settings ← loadSettings r
    let extensions := if extensions.isEmpty then settings.tabs.extensions else extensions
    let paths ← findFiles "sources" r.root (extensions.map PatternSet.ofExtension)
    let t := Transformer.expandTabs (width.getD settings.tabs.width)
    let report ← runOver clock t paths dryRun
    return success (reportText clock json report)
  | .free headers marker namespaceEnd policy dryRun check json =>
    let settings ← loadSettings r
    let c := override settings.conventions marker namespaceEnd
    let paths ← if headers.isEmpty then findFiles "headers" r.root c.headers
      else pure (headers.map (resolve r.root))
    let t ← within "Invalid free function configuration".toList Fault.chain
      (Action.ofExcept (Transformer.ofConventions c policy))
    let report ← runOver clock t paths (dryRun || check)
    return { success (reportText clock json report) with
      status := if check && report.hasChanges then 1 else 0 }

/-- The part of a disk that a command line has to do with: a file's neighbours, or all that is below
a directory. -/
inductive Interest where
  | beside (p : Path)
  | below (p : Path)
  deriving DecidableEq, Repr

def interests (r : Request) : List Interest :=
  let settings := .beside (r.settings.getD (r.root.joinText settingsStem))
  match r.task with
  | .completions _ => []
  | .config => [settings]
  | .expandTabs _ _ _ _ => [settings, .below r.root]
  | .free headers _ _ _ _ _ _ =>
    if headers.isEmpty then [settings, .below r.root]
    else settings :: headers.map fun p => .beside (resolve r.root p)

/-- Does what a command line asks for; the answer is the outcome and the disk behind it. -/
def answer (clock : Clock) (e : Environment) (words : List Text) (disk : Disk) : Outcome × Disk :=
  match CommandLine.read e words with
  | .error .help => (success help, disk)
  | .error .version => (success version, disk)
  | .error .misuse => (⟨2, [], usage⟩, disk)
  | .ok request =>
    match (perform clock request).perform disk with
    | (.ok outcome, disk) => (outcome, disk)
    | (.error failure, disk) => (⟨1, [], failure.text⟩, disk)

end Program

end MemberLift
