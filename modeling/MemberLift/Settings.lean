import MemberLift.Disk.Action
import MemberLift.Format.Json
import MemberLift.Format.Toml
import MemberLift.Format.Toml.Print
import MemberLift.Format.Yaml
import MemberLift.Text.Lowercase

/-!
Settings: the conventions of headers, and how tabs are expanded.  A settings file may leave out
anything, which then has its standard value, and may say more than is known here.
-/
namespace MemberLift

structure TabSettings where
  width : Nat
  extensions : List Text
  deriving DecidableEq, Repr

structure Settings where
  conventions : Conventions
  tabs : TabSettings
  deriving DecidableEq, Repr

namespace TabSettings

def standard : TabSettings where
  width := 4
  extensions := ["hpp", "cpp"].map String.toList

def names : List Text := ["tab_width", "extensions"].map String.toList

end TabSettings

def Conventions.names : List Text :=
  ["marker", "class_decl_macros", "strip_macros", "namespace_end", "block_begin", "block_end",
    "nested_types", "max_lookahead", "headers"].map String.toList

namespace Settings

def standard : Settings := ⟨.standard, .standard⟩

def names : List Text := ["free_functions", "tabs"].map String.toList

/-- Whether a list may stand for a table, with the values in the order of the names: never, or only
if it is not too long, or always. -/
inductive Rows where
  | refused
  | fitting
  | free
  deriving DecidableEq, Repr

/-- The named values that a value holds.  A name that is known may occur once. -/
def fields? (rows : Rows) (names : List Text) : Value → Option (List (Text × Value))
  | .table entries =>
    let known := entries.filter fun entry => names.contains entry.1
    if (known.map Prod.fst).Nodup then some known else none
  | .list items =>
    match rows with
    | .refused => none
    | .fitting => if items.length ≤ names.length then some (names.zip items) else none
    | .free => some (names.zip items)
  | .plain [] => some []
  | _ => none

def field? {α : Type} (fields : List (Text × Value)) (name : String) (read : Value → Option α)
    (absent : α) : Option α :=
  match fields.lookup name.toList with
  | none => some absent
  | some v => read v

/-- The number of sixty-four bits that a plain text spells: with a plus sign or without, in base
sixteen, eight or two behind a prefix, else in base ten without zeros in front. -/
def plainNumber? (t : Text) : Option Nat :=
  let body := if t.head? = some '+' then t.drop 1 else t
  let based (base : Nat) (digits : Text) : Option Nat :=
    let n := Digits.toNat base digits
    if !digits.isEmpty && digits.all (Digits.isIn base) && n < Nat.pow 2 64 then some n else none
  match body with
  | '0' :: 'x' :: digits => based 16 digits
  | '0' :: 'o' :: digits => based 8 digits
  | '0' :: 'b' :: digits => based 2 digits
  | '0' :: _ :: _ => none
  | _ => based 10 body

def number? : Value → Option Nat
  | .number n => some n
  | .plain t => plainNumber? t
  | _ => none

def text? : Value → Option Text
  | .text t | .plain t => some t
  | _ => none

def texts? : Value → Option (List Text)
  | .list items => items.mapM text?
  | .plain [] => some []
  | _ => none

def conventions? (rows : Rows) (v : Value) : Option Conventions := do
  let fields ← fields? rows Conventions.names v
  let c := Conventions.standard
  return {
    marker := ← field? fields "marker" text? c.marker
    classMacros := ← field? fields "class_decl_macros" texts? c.classMacros
    stripMacros := ← field? fields "strip_macros" texts? c.stripMacros
    namespaceEnd := ← field? fields "namespace_end" text? c.namespaceEnd
    blockBegin := ← field? fields "block_begin" text? c.blockBegin
    blockEnd := ← field? fields "block_end" text? c.blockEnd
    nestedTypes := ← field? fields "nested_types" texts? c.nestedTypes
    maxLookahead := ← field? fields "max_lookahead" number? c.maxLookahead
    headers := ← field? fields "headers" texts? c.headers }

def tabs? (rows : Rows) (v : Value) : Option TabSettings := do
  let fields ← fields? rows TabSettings.names v
  let t := TabSettings.standard
  return {
    width := ← field? fields "tab_width" number? t.width
    extensions := ← field? fields "extensions" texts? t.extensions }

def ofValue? (rows : Rows) (v : Value) : Option Settings := do
  let fields ← fields? rows names v
  return {
    conventions := ← field? fields "free_functions" (conventions? rows) .standard
    tabs := ← field? fields "tabs" (tabs? rows) .standard }

/-- How many lists and tables settings have in each other: all of them, a section, and the texts of
a setting. -/
def depth : Nat := 3

/-- The settings that a text holds in a format. -/
def ofText? (format : SettingsFormat) (t : Text) : Option Settings :=
  match format with
  | .toml => (Toml.read t).bind (ofValue? .free)
  | .json => (Json.read t).bind (ofValue? .fitting)
  | .yaml => (Yaml.read depth t).bind (ofValue? .refused)

def textsValue (ts : List Text) : Value := .list (ts.map .text)

def conventionsValues (c : Conventions) : List Value :=
  [.text c.marker, textsValue c.classMacros, textsValue c.stripMacros, .text c.namespaceEnd,
    .text c.blockBegin, .text c.blockEnd, textsValue c.nestedTypes, .number c.maxLookahead,
    textsValue c.headers]

def tabsValues (t : TabSettings) : List Value := [.number t.width, textsValue t.extensions]

def sections (s : Settings) : List (Text × List (Text × Value)) :=
  names.zip [Conventions.names.zip (conventionsValues s.conventions),
    TabSettings.names.zip (tabsValues s.tabs)]

def toToml (s : Settings) : Except StorageFault Text :=
  match Toml.print s.sections with
  | some t => .ok t
  | none => .error .unwritable

def extensions : List Text := ["toml", "json", "yaml", "yml"].map String.toList

def formatOf? (extension : Text) : Option SettingsFormat :=
  [("toml".toList, .toml), ("json".toList, .json), ("yaml".toList, .yaml),
    ("yml".toList, .yaml)].lookup extension

def load (p : Path) : Action StorageFault Settings := do
  let extension := Lowercase.lower (p.extension?.getD [])
  let bytes ← Action.fetch .ofOs (·.read p)
  match Utf8.decode bytes with
  | .error _ => Action.fail (.io .textNotUtf8)
  | .ok t =>
    match formatOf? extension with
    | none => Action.fail (.settings (.unsupportedFormat extension))
    | some format =>
      match ofText? format t with
      | some s => return s
      | none => Action.fail (.settings (.unreadable format p))

def discover (directory : Path) (stem : Text) (d : Disk) : Option Path :=
  (extensions.map fun extension => directory.joinText (stem ++ '.' :: extension)).find? d.isFile

/-- The settings in a given file, else those in a file of a name in a directory, else the standard
ones. -/
def loadOrStandard (explicit : Option Path) (directory : Path) (stem : Text) :
    Action StorageFault Settings := do
  match explicit with
  | some p => load p
  | none =>
    match ← Action.query (discover directory stem) with
    | some p => load p
    | none => return standard

end Settings

end MemberLift
