import MemberLift.Run
import MemberLift.Format.Json

/-!
Reports as they are shown: as values for other programs, or as lines for people.
-/
namespace MemberLift

def Value.ofFields (fields : List (String × Value)) : Value :=
  .table (fields.map fun field => (field.1.toList, field.2))

def Value.ofOption {α : Type} (f : α → Value) : Option α → Value
  | none => .null
  | some a => f a

def Path.value (p : Path) : Value := .text p.text

def Freed.value (f : Freed) : Value :=
  .ofFields [("class_name", .text f.className), ("name", .text f.name),
    ("is_static", .bool f.isStatic), ("line", .number f.line)]

def FileChange.value (c : FileChange) : Value :=
  .ofFields [("path", c.path.value), ("functions_freed", .list (c.freed.map Freed.value)),
    ("lines_added", .number c.linesAdded), ("lines_removed", .number c.linesRemoved),
    ("backup", .ofOption Path.value c.backup), ("diff", .ofOption .text c.diff)]

def Statistics.value (s : Statistics) : Value :=
  .ofFields [("files_scanned", .number s.filesScanned), ("files_modified", .number s.filesModified),
    ("functions_freed", .number s.functionsFreed), ("lines_added", .number s.linesAdded),
    ("lines_removed", .number s.linesRemoved)]

namespace Report

def fields (r : Report) : List (String × Value) :=
  [("transformation_type", .text r.transformation.key), ("status", .text r.status.key),
    ("files_modified", .list (r.filesModified.map Path.value)),
    ("changes", .list (r.changes.map FileChange.value)), ("statistics", r.statistics.value)]

def json (r : Report) (started finished : Text) : Text :=
  Json.write (.ofFields
    (r.fields ++ [("started_at", .text started), ("finished_at", .text finished)]))

def verb (r : Report) : Text :=
  match r.status with
  | .dryRun => "would change".toList
  | .completed => "changed".toList

def changeLines (r : Report) (c : FileChange) : Text :=
  c.diff.getD [] ++ r.verb ++ ": ".toList ++ c.path.text ++ " (+".toList ++
    Text.ofNat c.linesAdded ++ " -".toList ++ Text.ofNat c.linesRemoved ++ ", ".toList ++
    Text.ofNat c.freed.length ++ " function(s) freed)\n".toList

def lines (r : Report) : Text :=
  r.changes.flatMap r.changeLines ++ Text.ofNat r.statistics.filesModified ++ " of ".toList ++
    Text.ofNat r.statistics.filesScanned ++ " file(s) ".toList ++ r.verb ++ ", ".toList ++
    Text.ofNat r.statistics.functionsFreed ++ " function(s) freed\n".toList

end Report

end MemberLift
