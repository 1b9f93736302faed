import MemberLift.Text.Utf8

/-!
Patterns for paths.  A star and a question mark match no slash, two stars between slashes match any
number of directories.  Matching is by UTF-8 bytes, so a question mark and a class match one byte.
-/
namespace MemberLift

namespace Glob

inductive Cause where
  | unclosedClass
  | invalidRange (first last : Char)
  | unopenedGroup
  | unclosedGroup
  | danglingEscape
  deriving DecidableEq, Repr

def Cause.message : Cause → Text
  | .unclosedClass => "unclosed character class; missing ']'".toList
  | .invalidRange first last =>
    "invalid range; '".toList ++ first :: "' > '".toList ++ last :: "'".toList
  | .unopenedGroup =>
    "unopened alternate group; missing '\x7b' (maybe escape '\x7d' with '[\x7d]'?)".toList
  | .unclosedGroup =>
    "unclosed alternate group; missing '\x7d' (maybe escape '\x7b' with '[\x7b]'?)".toList
  | .danglingEscape => "dangling '\\'".toList

structure Fault where
  pattern : Text
  cause : Cause
  deriving DecidableEq, Repr

def Fault.message (f : Fault) : Text :=
  "error parsing glob '".toList ++ f.pattern ++ "': ".toList ++ f.cause.message

/-- A part of a pattern: a literal character, one byte other than a slash, any number of such bytes,
directories in front of the rest, all below a directory, directories between two slashes, one byte
of a class, or one of several patterns. -/
inductive Piece where
  | literal (c : Char)
  | single
  | star
  | leadingDirs
  | beneath
  | innerDirs
  | oneOf (negated : Bool) (ranges : List (Char × Char))
  | group (branches : List (List Piece))

/-- A group that is being read: what stands in front of it, last first, and its branches so far,
last first. -/
structure Frame where
  outer : List Piece
  branches : List (List Piece)

/-- The branch that is being read, last piece first, and the groups it stands in, innermost
first. -/
structure Reading where
  current : List Piece
  frames : List Frame

def Reading.push (r : Reading) (p : Piece) : Reading := { r with current := p :: r.current }

/-- Whether a branch can match nothing but the empty text, since it holds empty groups only. -/
def isVoid (branch : List Piece) : Bool :=
  branch.all fun p => match p with
    | .group [] => true
    | _ => false

def closeGroup (branches : List (List Piece)) : Piece :=
  .group (branches.filter fun branch => !isVoid branch)

def readClass (first inRange : Bool) (ranges : List (Char × Char)) :
    Text → Except Cause (List (Char × Char) × Text)
  | [] => .error .unclosedClass
  | c :: rest =>
    if c = ']' && !first then
      .ok ((if inRange then ('-', '-') :: ranges else ranges).reverse, rest)
    else if c = '-' && !first && !inRange then readClass false true ranges rest
    else match inRange, ranges with
      | true, (low, _) :: before =>
        if c < low then .error (.invalidRange low c)
        else readClass false false ((low, c) :: before) rest
      | _, _ => readClass false false ((c, c) :: ranges) rest

theorem readClass_shorter {first inRange : Bool} {ranges found : List (Char × Char)} {s rest : Text}
    (h : readClass first inRange ranges s = .ok (found, rest)) : rest.length < s.length := by
  fun_induction readClass first inRange ranges s with
  | case1 => cases h
  | case2 => cases h; simp
  | case3 first inRange ranges c r _ _ ih => exact Nat.lt_succ_of_lt (ih h)
  | case4 => cases h
  | case5 first c r _ _ low high before _ ih => exact Nat.lt_succ_of_lt (ih h)
  | case6 first inRange ranges c r _ _ _ ih => exact Nat.lt_succ_of_lt (ih h)

def readClassFrom (s : Text) : Except Cause (Bool × List (Char × Char) × Text) :=
  match s with
  | '!' :: rest => (readClass true false [] rest).map fun p => (true, p)
  | '^' :: rest => (readClass true false [] rest).map fun p => (true, p)
  | _ => (readClass true false [] s).map fun p => (false, p)

theorem readClassFrom_shorter {s rest : Text} {negated : Bool} {ranges : List (Char × Char)}
    (h : readClassFrom s = .ok (negated, ranges, rest)) : rest.length < s.length := by
  have unmap : ∀ {t : Text} {b : Bool},
      (readClass true false [] t).map (fun p => (b, p)) = .ok (negated, ranges, rest) →
        rest.length < t.length := by
    intro t b same
    cases found : readClass true false [] t with
    | error cause => rw [found] at same; cases same
    | ok p =>
      rw [found] at same
      cases same
      exact readClass_shorter found
  unfold readClassFrom at h
  split at h
  · exact Nat.lt_succ_of_lt (unmap h)
  · exact Nat.lt_succ_of_lt (unmap h)
  · exact unmap h

/-- What two stars stand for, given the character in front of them and the rest behind them, and
how many characters of the rest belong to them. -/
def doubleStar (r : Reading) (previous : Option Char) (rest : Text) : Reading × Nat :=
  let plain := ((r.push .star).push .star, 0)
  match r.current with
  | [] =>
    match rest with
    | [] => (r.push .leadingDirs, 0)
    | '/' :: _ => (r.push .leadingDirs, 1)
    | _ => plain
  | last :: before =>
    if previous = some '/' ||
        (!r.frames.isEmpty && (previous = some ',' || previous = some '\x7b')) then
      let replaced (p : Piece) : Reading :=
        { r with current := (match last with
            | .leadingDirs => .leadingDirs
            | .beneath => .beneath
            | _ => p) :: before }
      match rest with
      | [] => (replaced .beneath, 0)
      | c :: _ =>
        if (c = ',' || c = '\x7d') && !r.frames.isEmpty then (replaced .beneath, 0)
        else if c = '/' then (replaced .innerDirs, 1)
        else plain
    else plain

def readFrom (r : Reading) (previous : Option Char) (s : Text) : Except Cause Reading :=
  match s with
  | [] => .ok r
  | '?' :: rest => readFrom (r.push .single) (some '?') rest
  | '*' :: '*' :: rest =>
    let (r, used) := doubleStar r previous rest
    readFrom r (some (if used = 0 then '*' else '/')) (rest.drop used)
  | '*' :: rest => readFrom (r.push .star) (some '*') rest
  | '[' :: rest =>
    match _found : readClassFrom rest with
    | .error cause => .error cause
    | .ok (negated, ranges, rest) => readFrom (r.push (.oneOf negated ranges)) (some ']') rest
  | '\\' :: [] => .error .danglingEscape
  | '\\' :: c :: rest => readFrom (r.push (.literal c)) (some c) rest
  | c :: rest =>
    if c = '\x7b' then readFrom ⟨[], ⟨r.current, []⟩ :: r.frames⟩ (some c) rest
    else if c = '\x7d' then
      match r.frames with
      | [] => .error .unopenedGroup
      | f :: outer =>
        let group := closeGroup (r.current.reverse :: f.branches).reverse
        readFrom ⟨group :: f.outer, outer⟩ (some c) rest
    else if c = ',' then
      match r.frames with
      | [] => readFrom (r.push (.literal c)) (some c) rest
      | f :: outer =>
        readFrom ⟨[], { f with branches := r.current.reverse :: f.branches } :: outer⟩ (some c) rest
    else readFrom (r.push (.literal c)) (some c) rest
termination_by s.length
decreasing_by
  all_goals simp_wf
  all_goals first
    | omega
    | (have shorter := readClassFrom_shorter _found; omega)

def read (pattern : Text) : Except Fault (List Piece) :=
  match readFrom ⟨[], []⟩ none pattern with
  | .error cause => .error ⟨pattern, cause⟩
  | .ok ⟨current, []⟩ => .ok current.reverse
  | .ok _ => .error ⟨pattern, .unclosedGroup⟩

def slash : UInt8 := 0x2F

def matchStar (rest : Bytes → Bool) : Bytes → Bool
  | [] => rest []
  | b :: s => rest (b :: s) || (b != slash && matchStar rest s)

def matchBehindSlash (rest : Bytes → Bool) : Bytes → Bool
  | [] => false
  | b :: s => (b = slash && rest s) || matchBehindSlash rest s

def matchAnywhere (rest : Bytes → Bool) : Bytes → Bool
  | [] => rest []
  | b :: s => rest (b :: s) || matchAnywhere rest s

def matchSlash (rest : Bytes → Bool) : Bytes → Bool
  | [] => false
  | b :: s => b = slash && rest s

def matchLiteral (literal : Bytes) (rest : Bytes → Bool) (s : Bytes) : Bool :=
  literal.isPrefixOf s && rest (s.drop literal.length)

/-- The bytes of a range: from the last byte of its first character to the first byte of its last
one, and the other bytes of both. -/
def inByteRange (first last : Char) (b : UInt8) : Bool :=
  if first = last then (Utf8.encode [first]).contains b
  else
    let low := Utf8.encode [first]
    let high := Utf8.encode [last]
    low.contains b || high.contains b ||
      (low.getLastD 0 ≤ b && b ≤ high.headD 0)

def matchClass (negated : Bool) (ranges : List (Char × Char)) (rest : Bytes → Bool) :
    Bytes → Bool
  | [] => false
  | b :: s => (ranges.any (fun r => inByteRange r.1 r.2 b) != negated) && rest s

mutual

/-- Whether pieces match some beginning of a text so that a rest matches behind it. -/
def matchPieces (pieces : List Piece) (rest : Bytes → Bool) : Bytes → Bool :=
  match pieces with
  | [] => rest
  | p :: more => matchPiece p (matchPieces more rest)

def matchPiece (p : Piece) (rest : Bytes → Bool) : Bytes → Bool :=
  match p with
  | .literal c => matchLiteral (Utf8.encode [c]) rest
  | .single => matchClass true [('/', '/')] rest
  | .star => matchStar rest
  | .leadingDirs => fun s => rest s || matchBehindSlash rest s
  | .beneath => matchSlash (matchAnywhere rest)
  | .innerDirs => matchSlash fun s => rest s || matchBehindSlash rest s
  | .oneOf negated ranges => matchClass negated ranges rest
  | .group [] => rest
  | .group branches => matchBranches branches rest

def matchBranches (branches : List (List Piece)) (rest : Bytes → Bool) : Bytes → Bool :=
  match branches with
  | [] => fun _ => false
  | branch :: more => fun s => matchPieces branch rest s || matchBranches more rest s

end

def isLiteral : Piece → Bool
  | .literal _ => true
  | _ => false

/-- Whether a pattern spells out the end of a path beyond its last component: all of the path, or at
least the slash in front of that component. -/
def spellsEnd (pieces : List Piece) : Bool :=
  match pieces with
  | .leadingDirs :: rest => rest.all isLiteral && rest.any fun p => match p with
      | .literal c => c = '/'
      | _ => false
  | _ => pieces.all isLiteral

def endsInPoint (pieces : List Piece) : Bool :=
  match pieces.getLast? with
  | some (.literal c) => c = '.'
  | _ => false

def isNameless (path : Text) : Bool := (Text.splitAt '/' path).getLast? = some ['.', '.']

/-- Whether a whole path matches.  Two stars alone match every path.  A pattern that ends in a point
asks for a name, unless it spells out more than that. -/
def matchesPath (pieces : List Piece) (path : Text) : Bool :=
  match pieces with
  | [.leadingDirs] => true
  | _ =>
    !(isNameless path && endsInPoint pieces && !spellsEnd pieces) &&
      matchPieces pieces List.isEmpty (Utf8.encode path)

end Glob

structure PatternSet where
  patterns : List (List Glob.Piece)

namespace PatternSet

def ofPatterns : List Text → Except Glob.Fault PatternSet
  | [] => .ok ⟨[]⟩
  | pattern :: rest =>
    match Glob.read pattern with
    | .error fault => .error fault
    | .ok pieces => (ofPatterns rest).map fun set => ⟨pieces :: set.patterns⟩

def matchesPath (set : PatternSet) (path : Text) : Bool :=
  set.patterns.any fun pieces => Glob.matchesPath pieces path

def ofExtension (extension : Text) : Text :=
  "**/*.".toList ++ extension.dropWhile (· = '.')

end PatternSet

end MemberLift
