import MemberLift.CommandLine.Options

/-!
Reading the command line.  Options of all commands may stand in front of a command or behind it; the
one behind it wins, then the one in front, then the environment.
-/
namespace MemberLift.CommandLine

/-- Why there is nothing to be done. -/
inductive Stop where
  | help
  | version
  | misuse
  deriving DecidableEq, Repr

inductive Task where
  | free (headers : List Path) (marker namespaceEnd : Option Text) (policy : BackupPolicy)
      (dryRun check json : Bool)
  | expandTabs (width : Option Nat) (extensions : List Text) (dryRun json : Bool)
  | config
  | completions (shell : Shell)
  deriving DecidableEq, Repr

structure Request where
  level : LogLevel
  settings : Option Path
  root : Path
  task : Task
  deriving DecidableEq, Repr

/-- The arguments in front of a command, or behind it: the options so far with their values, an
option whose value is not checked yet, and the other arguments. -/
structure Level where
  verb : Option Verb
  options : List (OptionName × Text)
  held : Option (OptionName × Text)
  places : List Text
  deriving DecidableEq, Repr

namespace Level

def start (verb : Option Verb) : Level := ⟨verb, [], none, []⟩

def known (l : Level) : List OptionName :=
  OptionName.shared ++ match l.verb with
    | some v => OptionName.ofVerb v
    | none => []

def value? (l : Level) (o : OptionName) : Option Text := l.options.lookup o

def has (l : Level) (o : OptionName) : Bool := (l.value? o).isSome

def give (l : Level) (o : OptionName) (word : Text) : Except Stop Level :=
  if !o.accepts word || (l.has o && !o.mayRepeat) then .error .misuse
  else .ok { l with options := l.options ++ [(o, word)] }

def settle (l : Level) : Except Stop Level :=
  match l.held with
  | none => .ok l
  | some (o, word) => { l with held := none }.give o word

def maxPlaces (l : Level) : Option Nat :=
  match l.verb with
  | some .free => none
  | some .completions => some 1
  | _ => some 0

def place (l : Level) (word : Text) : Except Stop Level := do
  let l ← l.settle
  let fitting := match l.verb with
    | some .free => (pathOfWord? word).isSome
    | some .completions => (Shell.ofWord? word).isSome
    | _ => false
  if !fitting || l.maxPlaces.any (· ≤ l.places.length) then .error .misuse
  else .ok { l with places := l.places ++ [word] }

/-- Why an option that is not known here ends the reading. -/
def stopOf (l : Level) (long : Text) (letter : Option Char) : Stop :=
  if long = "help".toList || letter = some 'h' then .help
  else if l.verb.isNone && (long = "version".toList || letter = some 'V') then .version
  else .misuse

/-- Takes an option that may have a value attached; the answer names the option if its value is
still to come. -/
def take (l : Level) (o : OptionName) (attached : Option Text) :
    Except Stop (Level × Option OptionName) :=
  match attached with
  | none => if o.takesValue then .ok (l, some o) else (l.give o []).map fun l => (l, none)
  | some word => if o.takesValue then (l.give o word).map fun l => (l, none) else .error .misuse

def long (l : Level) (body : Text) : Except Stop (Level × Option OptionName) := do
  let l ← l.settle
  let name := body.takeWhile (· ≠ '=')
  let attached := if name.length < body.length then some (body.drop (name.length + 1)) else none
  match l.known.find? fun o => o.long = name with
  | some o => l.take o attached
  | none => .error (if attached.isNone then l.stopOf name none else .misuse)

def letters (l : Level) : Text → Except Stop (Level × Option OptionName)
  | [] => .ok (l, none)
  | c :: rest =>
    match l.settle with
    | .error stop => .error stop
    | .ok l =>
      match l.known.find? fun o => o.letter? = some c with
      | none => .error (l.stopOf [] (some c))
      | some o =>
        if o.takesValue then
          match rest with
          | [] => l.take o none
          | '=' :: word => l.take o (some word)
          | word => l.take o (some word)
        else match l.give o [] with
          | .error stop => .error stop
          | .ok l => letters l rest

def option (l : Level) (word : Text) : Except Stop (Level × Option OptionName) :=
  match word with
  | '-' :: '-' :: body => l.long body
  | _ => l.letters (word.drop 1)

end Level

def isOption (word : Text) : Bool := word.head? = some '-' && word.length ≠ 1

def dashes : Text := ['-', '-']

def placeAll (l : Level) : List Text → Except Stop Level
  | [] => .ok l
  | word :: rest => do placeAll (← l.place word) rest

def explains : List Text → Bool
  | [] => true
  | [word] => (Verb.ofWord? word).isSome || word = "help".toList
  | _ => false

/-- Reads arguments up to the end or, in front of a command, up to that command, with the arguments
behind it. -/
def readLevel (l : Level) : List Text → Except Stop (Level × Option (Verb × List Text))
  | [] => .ok (l, none)
  | word :: rest =>
    if word = dashes then (placeAll l rest).map fun l => (l, none)
    else if isOption word then
      match l.option word with
      | .error stop => .error stop
      | .ok (l, none) => readLevel l rest
      | .ok (l, some o) =>
        match rest with
        | [] => .error .misuse
        | value :: rest =>
          if isOption value then .error .misuse
          else readLevel { l with held := some (o, value) } rest
    else if l.verb.isSome then
      match l.place word with
      | .error stop => .error stop
      | .ok l => readLevel l rest
    else if word = "help".toList then .error (if explains rest then .help else .misuse)
    else match Verb.ofWord? word with
      | some v => .ok (l, some (v, rest))
      | none => .error .misuse

abbrev Environment := List (Text × Text)

def Environment.value? (e : Environment) (o : OptionName) : Option Text :=
  o.variableName.bind fun name => List.lookup name e

def checkEnvironment (e : Environment) (l : Level) : Except Stop Unit :=
  let wrong (o : OptionName) : Bool := !l.has o && (e.value? o).any fun word => !o.accepts word
  if l.known.any wrong then .error .misuse else .ok ()

structure Arguments where
  outer : Level
  inner : Level
  verb : Verb
  deriving DecidableEq, Repr

def Arguments.value? (a : Arguments) (e : Environment) (o : OptionName) : Option Text :=
  ((a.inner.value? o).or (a.outer.value? o)).or (e.value? o)

def Arguments.has (a : Arguments) (o : OptionName) : Bool := a.inner.has o || a.outer.has o

def readArguments (e : Environment) (words : List Text) : Except Stop Arguments := do
  let (outer, command) ← readLevel (.start none) words
  match command with
  | none => .error .misuse
  | some (verb, rest) =>
    let (inner, _) ← readLevel (.start (some verb)) rest
    let inner ← inner.settle
    checkEnvironment e inner
    let outer ← outer.settle
    checkEnvironment e outer
    return ⟨outer, inner, verb⟩

def Level.values (l : Level) (o : OptionName) : List Text :=
  (l.options.filter fun given => given.1 = o).map Prod.snd

def taskOf (e : Environment) (a : Arguments) : Except Stop Task :=
  match a.verb with
  | .free => .ok (.free (a.inner.places.map Path.mk) (a.value? e .marker) (a.value? e .namespaceEnd)
      (((a.value? e .backup).bind policyOfWord?).getD .none) (a.has .dryRun) (a.has .check)
      (a.has .json))
  | .expandTabs => .ok (.expandTabs ((a.value? e .tabWidth).bind numberOfWord?)
      (a.inner.values .extension) (a.has .dryRun) (a.has .json))
  | .config => .ok .config
  | .completions =>
    match a.inner.places.head?.bind Shell.ofWord? with
    | some shell => .ok (.completions shell)
    | none => .error .misuse

/-- The level of messages: each request for more lowers it by one step.  Requests behind the command
count instead of those in front. -/
def levelOf (e : Environment) (a : Arguments) : LogLevel :=
  let given := ((a.value? e .logLevel).bind fun word => (LogLevel.ofText word).toOption).getD .info
  let requests := if a.inner.has .verbose then a.inner.values .verbose else a.outer.values .verbose
  given.lowerBy requests.length

def read (e : Environment) (words : List Text) : Except Stop Request := do
  let a ← readArguments e words
  let task ← taskOf e a
  return {
    level := levelOf e a
    settings := (a.value? e .config).map Path.mk
    root := ⟨(a.value? e .root).getD ['.']⟩
    task }

end MemberLift.CommandLine
