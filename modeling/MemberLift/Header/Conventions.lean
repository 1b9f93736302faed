import MemberLift.Text.Basic

/-!
The conventions of a family of headers: which macro marks a member function, where the generated
block stands, and which names belong to a class.
-/
namespace MemberLift

structure Conventions where
  marker : Text
  classMacros : List Text
  stripMacros : List Text
  namespaceEnd : Text
  blockBegin : Text
  blockEnd : Text
  nestedTypes : List Text
  maxLookahead : Nat
  headers : List Text
  deriving DecidableEq, Repr

namespace Conventions

def standard : Conventions where
  marker := "AFIO_MAKE_FREE_FUNCTION".toList
  classMacros := ["AFIO_DECL".toList]
  stripMacros :=
    ["AFIO_HEADERS_ONLY_MEMFUNC_SPEC", "AFIO_HEADERS_ONLY_VIRTUAL_SPEC"].map String.toList
  namespaceEnd := "AFIO_V2_NAMESPACE_END".toList
  blockBegin := "// BEGIN make_free_functions.py".toList
  blockEnd := "// END make_free_functions.py".toList
  nestedTypes :=
    ["path_view_type", "extent_type", "size_type", "buffers_type", "const_buffers_type",
      "io_result", "io_request", "io_state_ptr", "mode", "creation", "caching", "flag"].map
        String.toList
  maxLookahead := 100
  headers := ["include/afio/*/*.hpp".toList]

inductive Fault where
  | empty (key : String)
  | sameSentinels
  | noLookahead
  | markerNoIdentifier (marker : Text)
  deriving DecidableEq, Repr

def Fault.message : Fault → Text
  | .empty key => '\x60' :: key.toList ++ "\x60 must not be empty".toList
  | .sameSentinels => "\x60block_begin\x60 and \x60block_end\x60 must differ".toList
  | .noLookahead => "\x60max_lookahead\x60 must be at least 1".toList
  | .markerNoIdentifier marker =>
    "marker \x60".toList ++ marker ++ "\x60 is not an identifier".toList

def required (c : Conventions) : List (String × Text) :=
  [("marker", c.marker), ("namespace_end", c.namespaceEnd), ("block_begin", c.blockBegin),
    ("block_end", c.blockEnd)]

def fault? (c : Conventions) : Option Fault :=
  match c.required.find? fun setting => setting.2.trim.isEmpty with
  | some (key, _) => some (.empty key)
  | none =>
    if c.blockBegin.trim = c.blockEnd.trim then some .sameSentinels
    else if c.maxLookahead = 0 then some .noLookahead
    else if !c.marker.all Alphabet.continuesIdentifier then some (.markerNoIdentifier c.marker)
    else none

def Valid (c : Conventions) : Prop := c.fault? = none

instance (c : Conventions) : Decidable c.Valid := inferInstanceAs (Decidable (_ = _))

end Conventions

end MemberLift
