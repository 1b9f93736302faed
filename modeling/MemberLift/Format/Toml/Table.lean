import MemberLift.Entries
import MemberLift.Format.Value

/-!
How the lines of a TOML document build its tables.  A header opens a table once; a table that
headers or dotted keys only pass through is made on the way and may be opened, or filled by dotted
keys, later, but not both.
-/
namespace MemberLift.Toml

/-- How a table was made: opened by a header, passed through by one, or passed through by dotted
keys. -/
inductive Origin where
  | opened
  | passed
  | dotted
  deriving DecidableEq, Repr

inductive Node where
  | value (v : Value)
  | table (origin : Origin) (entries : List (Text × Node))
  | tables (items : List (List (Text × Node)))

abbrev Entries := List (Text × Node)

namespace Node

def add (name : Text) (node : Node) (entries : Entries) : Option Entries :=
  match entries.lookup name with
  | none => some (Entries.put name node entries)
  | some _ => none

def assign (entries : Entries) (path : List Text) (key : Text) (v : Value) : Option Entries :=
  match path with
  | [] => add key (.value v) entries
  | name :: rest =>
    match entries.lookup name with
    | none =>
      (assign [] rest key v).map fun inner => Entries.put name (.table .dotted inner) entries
    | some (.table .dotted inner) =>
      (assign inner rest key v).map fun inner => Entries.put name (.table .dotted inner) entries
    | some (.table .passed inner) =>
      if rest.isEmpty then none
      else
        (assign inner rest key v).map fun inner => Entries.put name (.table .passed inner) entries
    | some (.tables items) =>
      if rest.isEmpty then none
      else match items.getLast? with
        | none => none
        | some last =>
          (assign last rest key v).map fun last =>
            Entries.put name (.tables (items.dropLast ++ [last])) entries
    | some (.table .opened _) | some (.value _) => none

/-- Changes the table that a header's path leads to.  A path goes through the last table of a list,
and makes the tables that are missing. -/
def within (change : Entries → Option Entries) (entries : Entries) : List Text → Option Entries
  | [] => change entries
  | name :: rest =>
    match entries.lookup name with
    | none =>
      (within change [] rest).map fun inner => Entries.put name (.table .passed inner) entries
    | some (.table origin inner) =>
      (within change inner rest).map fun inner => Entries.put name (.table origin inner) entries
    | some (.tables items) =>
      match items.getLast? with
      | none => none
      | some last =>
        (within change last rest).map fun last =>
          Entries.put name (.tables (items.dropLast ++ [last])) entries
    | some (.value _) => none

def openTable (name : Text) (entries : Entries) : Option Entries :=
  match entries.lookup name with
  | none => some (Entries.put name (.table .opened []) entries)
  | some (.table .passed inner) => some (Entries.put name (.table .opened inner) entries)
  | some _ => none

def openItem (name : Text) (entries : Entries) : Option Entries :=
  match entries.lookup name with
  | none => some (Entries.put name (.tables [[]]) entries)
  | some (.tables items) => some (Entries.put name (.tables (items ++ [[]])) entries)
  | some _ => none

mutual

def toValue (node : Node) : Value :=
  match node with
  | .value v => v
  | .table _ entries => .table (toValues entries)
  | .tables items => .list (toTables items)

def toValues (entries : Entries) : List (Text × Value) :=
  match entries with
  | [] => []
  | (name, node) :: rest => (name, toValue node) :: toValues rest

def toTables (items : List Entries) : List Value :=
  match items with
  | [] => []
  | entries :: rest => .table (toValues entries) :: toTables rest

end

end Node

/-- A line of a document that says something: a header, or a key with its value.  The last name of
a path stands apart. -/
inductive Statement where
  | header (path : List Text) (name : Text)
  | itemHeader (path : List Text) (name : Text)
  | entry (path : List Text) (name : Text) (v : Value)

structure Draft where
  entries : Entries
  path : List Text

def Draft.add (d : Draft) : Statement → Option Draft
  | .header path name =>
    (Node.within (Node.openTable name) d.entries path).map fun e => ⟨e, path ++ [name]⟩
  | .itemHeader path name =>
    (Node.within (Node.openItem name) d.entries path).map fun e => ⟨e, path ++ [name]⟩
  | .entry path name v =>
    (Node.within (fun table => Node.assign table path name v) d.entries d.path).map fun e =>
      { d with entries := e }

def ofStatements (statements : List Statement) : Option Value :=
  (statements.foldlM Draft.add ⟨[], []⟩).map fun d => .table (Node.toValues d.entries)

def ofAssignments (assignments : List (List Text × Text × Value)) : Option Value :=
  (assignments.foldlM (fun table a => Node.assign table a.1 a.2.1 a.2.2) []).map fun table =>
    .table (Node.toValues table)

end MemberLift.Toml
