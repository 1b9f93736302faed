import MemberLift.Format.Value

/-!
What a YAML document holds, with its references: an anchored value may be referred to inside itself.
-/
namespace MemberLift.Yaml

/-- A text is plain if its reader decides whether it is a text or a number.  A reference names a
slot. -/
inductive Node where
  | plain (t : Text)
  | text (t : Text)
  | list (items : List Node)
  | table (entries : List (Node × Node))
  | reference (slot : Nat)

def Node.absent : Node := .plain []

/-- Anchored values.  The name of an anchor takes the slot whose number is that of the names so far,
also if it is one of them, so that names may share a slot; a slot belongs to the anchor that came to
it last.  Anchors are numbered as they come. -/
structure Anchors where
  slots : List (Text × Nat)
  owners : List (Nat × Nat)
  nodes : List (Nat × Node)

namespace Anchors

def empty : Anchors := ⟨[], [], []⟩

def slot? (a : Anchors) (name : Text) : Option Nat := a.slots.lookup name

def next (a : Anchors) : Nat := a.owners.length

def enter (a : Anchors) (name : Text) : Anchors :=
  let slot := a.slots.length
  { a with
    slots := (name, slot) :: a.slots.filter fun entry => entry.1 ≠ name
    owners := (slot, a.next) :: a.owners }

def hold (a : Anchors) (number : Nat) (node : Node) : Anchors :=
  { a with nodes := (number, node) :: a.nodes }

def node? (a : Anchors) (slot : Nat) : Option Node :=
  (a.owners.lookup slot).bind fun number => a.nodes.lookup number

def resolve (a : Anchors) : Node → Node
  | .reference slot => (a.node? slot).getD (.reference slot)
  | node => node

def keyText (a : Anchors) (key : Node) : Option Text :=
  match a.resolve key with
  | .plain t | .text t => some t
  | _ => none

/-- The value of a node.  Lists and tables are looked into to a depth, and nothing reads a table
with a key that is no text. -/
def value (a : Anchors) : Nat → Node → Value
  | 0, node =>
    match a.resolve node with
    | .plain t => .plain t
    | .text t => .text t
    | _ => .other
  | depth + 1, node =>
    match a.resolve node with
    | .plain t => .plain t
    | .text t => .text t
    | .list items => .list (items.map (a.value depth))
    | .table entries =>
      match entries.mapM fun e => (a.keyText e.1).map fun name => (name, a.value depth e.2) with
      | some entries => .table entries
      | none => .other
    | .reference _ => .other

end Anchors

end MemberLift.Yaml
