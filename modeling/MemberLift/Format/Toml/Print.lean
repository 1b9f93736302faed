import MemberLift.Format.Value
import MemberLift.Format.Digits

/-!
TOML as it is written: a table per section, a line per key.  A text is written in the first of four
plain forms that fits, and with escapes only if none does.
-/
namespace MemberLift.Toml

def isControl (c : Char) : Bool := (c < ' ' && c ≠ '\t' && c ≠ '\n') || c = '\x7f'

def longestRun (mark : Char) (current : Nat) : Text → Nat
  | [] => current
  | c :: rest =>
    if c = mark then longestRun mark (current + 1) rest else max current (longestRun mark 0 rest)

inductive Quoting where
  | basic
  | literal
  | basicLines
  | literalLines
  deriving DecidableEq, Repr

def Quoting.fits (q : Quoting) (t : Text) : Bool :=
  !t.any isControl && match q with
    | .basic => !t.contains '\\' && !t.contains '"' && !t.contains '\n'
    | .literal => !t.contains '\'' && !t.contains '\n'
    | .basicLines => !t.contains '\\' && longestRun '"' 0 t ≤ 2
    | .literalLines => longestRun '\'' 0 t ≤ 2

def Quoting.delimiter : Quoting → Text
  | .basic => ['"']
  | .literal => ['\'']
  | .basicLines => ['"', '"', '"']
  | .literalLines => ['\'', '\'', '\'']

def Quoting.hasEscapes : Quoting → Bool
  | .basic | .basicLines => true
  | .literal | .literalLines => false

def Quoting.hasLines : Quoting → Bool
  | .basic | .literal => false
  | .basicLines | .literalLines => true

def quoting (t : Text) : Quoting :=
  match [Quoting.basic, .literal, .basicLines, .literalLines].find? fun q => q.fits t with
  | some q => q
  | none => if t.contains '\n' then .basicLines else .basic

def escaped (lines : Bool) (c : Char) : Text :=
  if c = '\x08' then ['\\', 'b']
  else if c = '\t' then ['\\', 't']
  else if c = '\n' then (if lines then ['\n'] else ['\\', 'n'])
  else if c = '\x0c' then ['\\', 'f']
  else if c = '\r' then ['\\', 'r']
  else if c = '\\' then ['\\', '\\']
  else if isControl c then '\\' :: 'u' :: (Digits.hex4 c.toNat).map Char.toUpper
  else [c]

/-- A text behind a number of quotes with its escapes; between lines, two quotes in a row need
none. -/
def escapedFrom (lines : Bool) (quotes : Nat) : Text → Text
  | [] => []
  | c :: rest =>
    if c = '"' then
      if lines && quotes < 2 then c :: escapedFrom lines (quotes + 1) rest
      else '\\' :: c :: escapedFrom lines 0 rest
    else escaped lines c ++ escapedFrom lines 0 rest

def quote (t : Text) : Text :=
  let q := quoting t
  let opening := if q.hasLines && t.contains '\n' then ['\n'] else []
  q.delimiter ++ opening ++ (if q.hasEscapes then escapedFrom q.hasLines 0 t else t) ++ q.delimiter

/-- A list of up to one item stays on its line; the items of a longer one stand on lines of their
own. -/
def bracket (written : List Text) : Text :=
  if written.length ≤ 1 then '[' :: written.flatten ++ [']']
  else '[' :: written.flatMap (fun item => "\n    ".toList ++ item ++ [',']) ++ "\n]".toList

def printValue : Value → Option Text
  | .text t => some (quote t)
  | .number n => if n < Nat.pow 2 63 then some (Text.ofNat n) else none
  | .list items => bracket <$> items.mapM fun v => match v with
    | .text t => some (quote t)
    | _ => none
  | _ => none

def printEntry (entry : Text × Value) : Option Text :=
  (printValue entry.2).map fun written => entry.1 ++ " = ".toList ++ written ++ ['\n']

def printSection (name : Text) (entries : List (Text × Value)) : Option Text :=
  (entries.mapM printEntry).map fun lines => '[' :: name ++ "]\n".toList ++ lines.flatten

def print (sections : List (Text × List (Text × Value))) : Option Text :=
  (sections.mapM fun s => printSection s.1 s.2).map (Text.join ['\n'])

end MemberLift.Toml
