import MemberLift.Text.Basic

/-!
Paths with slashes, kept as they are written.  A path is read as its components: single dots count
only where a relative path begins, and repeated slashes count once.
-/
namespace MemberLift

structure Path where
  text : Text
  deriving DecidableEq, Repr

namespace Path

inductive Component where
  | root
  | here
  | up
  | name (text : Text)
  deriving DecidableEq, Repr

def Component.text : Component → Text
  | .root => ['/']
  | .here => ['.']
  | .up => ['.', '.']
  | .name text => text

def ofString (s : String) : Path := ⟨s.toList⟩

def isAbsolute (p : Path) : Bool := p.text.head? = some '/'

/-- The component that a nonempty segment stands for behind the beginning of a path. -/
def component? (segment : Text) : Option Component :=
  if segment.isEmpty || segment = ['.'] then none
  else if segment = ['.', '.'] then some .up
  else some (.name segment)

def components (p : Path) : List Component :=
  let inner := (p.text.splitAt '/').filterMap component?
  if p.isAbsolute then .root :: inner
  else if (p.text.splitAt '/').head? = some ['.'] then .here :: inner
  else inner

def ofComponents (cs : List Component) : Path :=
  match cs with
  | .root :: rest => ⟨'/' :: Text.join ['/'] (rest.map Component.text)⟩
  | _ => ⟨Text.join ['/'] (cs.map Component.text)⟩

/-- A second path, taken relative to the first unless it is absolute. -/
def join (p q : Path) : Path :=
  if q.isAbsolute then q
  else if p.text.isEmpty || p.text.getLast? = some '/' then ⟨p.text ++ q.text⟩
  else ⟨p.text ++ '/' :: q.text⟩

def joinText (p : Path) (name : Text) : Path := p.join ⟨name⟩

/-- The components, last first, with each name that is left again by a step up taken out. -/
def cleanReversed (done : List Component) : List Component → List Component
  | [] => done
  | .here :: rest => cleanReversed done rest
  | .up :: rest =>
    match done with
    | .root :: _ => cleanReversed done rest
    | .name _ :: outer => cleanReversed outer rest
    | _ => cleanReversed (.up :: done) rest
  | c :: rest => cleanReversed (c :: done) rest

def clean (p : Path) : Path :=
  match cleanReversed [] p.components with
  | [] => ⟨['.']⟩
  | done => ofComponents done.reverse

/-- A reversed path without the slashes and single dots at its end, the beginning apart. -/
def trimReversed : Text → Text
  | ['/'] => ['/']
  | '/' :: rest => trimReversed rest
  | '.' :: '/' :: rest => trimReversed ('/' :: rest)
  | t => t

/-- The path in front of the last component; none for the empty path and for the root. -/
def parent? (p : Path) : Option Path :=
  match trimReversed p.text.reverse with
  | [] => none
  | ['/'] => none
  | t => some ⟨(trimReversed (t.dropWhile (· ≠ '/'))).reverse⟩

def fileName? (p : Path) : Option Text :=
  match p.components.getLast? with
  | some (.name text) => some text
  | _ => none

/-- What follows the last point of the file name, if something precedes that point. -/
def extension? (p : Path) : Option Text :=
  match p.fileName? with
  | none => none
  | some name =>
    let after := (name.reverse.takeWhile (· ≠ '.')).reverse
    if after.length + 1 < name.length then some after else none

def orig (p : Path) : Path := ⟨p.text ++ ".orig".toList⟩

def hasComponentIn (names : List Text) (p : Path) : Bool :=
  p.components.any fun c => names.contains c.text

end Path

/-- Names of directories that are never searched: version control, build output and backups. -/
def excludedNames : List Text :=
  [".git", ".svn", ".hg", "target", "build", "node_modules", ".freefn_backups"].map String.toList

end MemberLift
