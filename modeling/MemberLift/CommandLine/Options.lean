import MemberLift.LogLevel
import MemberLift.Settings
import MemberLift.Disk.Backup

/-!
The vocabulary of the command line: its commands, their options, and the values these take.
-/
namespace MemberLift.CommandLine

inductive Verb where
  | free
  | expandTabs
  | config
  | completions
  deriving DecidableEq, Repr

def Verb.all : List Verb := [.free, .expandTabs, .config, .completions]

def Verb.word : Verb → Text
  | .free => "free".toList
  | .expandTabs => "expand-tabs".toList
  | .config => "config".toList
  | .completions => "completions".toList

def Verb.ofWord? (word : Text) : Option Verb := Verb.all.find? fun v => v.word = word

def Verb.purpose : Verb → Text
  | .free => "Generate free functions for every marked member function".toList
  | .expandTabs => "Replace tabs with spaces, keeping originals as <file>.orig".toList
  | .config => "Print the effective configuration as TOML".toList
  | .completions => "Generate shell completions".toList

inductive Shell where
  | bash
  | elvish
  | fish
  | powershell
  | zsh
  deriving DecidableEq, Repr

def Shell.word : Shell → Text
  | .bash => "bash".toList
  | .elvish => "elvish".toList
  | .fish => "fish".toList
  | .powershell => "powershell".toList
  | .zsh => "zsh".toList

def Shell.ofWord? (word : Text) : Option Shell :=
  [Shell.bash, .elvish, .fish, .powershell, .zsh].find? fun s => s.word = word

def policyOfWord? (word : Text) : Option BackupPolicy :=
  [("none".toList, BackupPolicy.none), ("orig".toList, .origSuffix),
    ("timestamped".toList, .timestamped)].lookup word

/-- A number of sixty-four bits, with a plus sign or without. -/
def numberOfWord? (word : Text) : Option Nat :=
  let digits := if word.head? = some '+' then word.drop 1 else word
  (Text.toNat? digits).filter fun n => n < Nat.pow 2 64

def pathOfWord? (word : Text) : Option Path := if word.isEmpty then none else some ⟨word⟩

inductive OptionName where
  | verbose
  | logLevel
  | config
  | root
  | marker
  | namespaceEnd
  | backup
  | dryRun
  | check
  | json
  | tabWidth
  | extension
  deriving DecidableEq, Repr

namespace OptionName

def all : List OptionName :=
  [verbose, logLevel, config, root, marker, namespaceEnd, backup, dryRun, check, json, tabWidth,
    extension]

def shared : List OptionName := [verbose, logLevel, config, root]

def ofVerb : Verb → List OptionName
  | .free => [marker, namespaceEnd, backup, dryRun, check, json]
  | .expandTabs => [tabWidth, extension, dryRun, json]
  | .config | .completions => []

def long : OptionName → Text
  | .verbose => "verbose".toList
  | .logLevel => "log-level".toList
  | .config => "config".toList
  | .root => "root".toList
  | .marker => "marker".toList
  | .namespaceEnd => "namespace-end".toList
  | .backup => "backup".toList
  | .dryRun => "dry-run".toList
  | .check => "check".toList
  | .json => "json".toList
  | .tabWidth => "tab-width".toList
  | .extension => "ext".toList

def letter? : OptionName → Option Char
  | .verbose => some 'v'
  | .config => some 'c'
  | .root => some 'C'
  | _ => none

/-- The variable of the environment that stands in for an option. -/
def variableName : OptionName → Option Text
  | .logLevel => some "FREEFN_LOG".toList
  | .config => some "FREEFN_CONFIG".toList
  | .root => some "FREEFN_ROOT".toList
  | .marker => some "FREEFN_MARKER".toList
  | .namespaceEnd => some "FREEFN_NAMESPACE_END".toList
  | .tabWidth => some "FREEFN_TAB_WIDTH".toList
  | _ => none

def takesValue : OptionName → Bool
  | .verbose | .dryRun | .check | .json => false
  | _ => true

def mayRepeat : OptionName → Bool
  | .verbose | .extension => true
  | _ => false

def accepts (o : OptionName) (word : Text) : Bool :=
  match o with
  | .logLevel => (LogLevel.ofText word).toBool
  | .config | .root => (pathOfWord? word).isSome
  | .backup => (policyOfWord? word).isSome
  | .tabWidth => (numberOfWord? word).isSome
  | _ => true

end OptionName

end MemberLift.CommandLine
