import MemberLift.Header
import MemberLift.Glob
import MemberLift.Disk

/-!
Everything that can go wrong with files, settings and headers, and what is said about it.
-/
namespace MemberLift

inductive IoFault where
  | os (fault : OsFault)
  | missingFile (path : Path)
  | notUtf8 (path : Path) (fault : Utf8.Fault)
  | textNotUtf8
  deriving DecidableEq, Repr

def IoFault.message : IoFault → Text
  | .os fault => fault.message
  | .missingFile path => "File does not exist: ".toList ++ path.text
  | .notUtf8 path fault => path.text ++ " is not valid UTF-8: ".toList ++ fault.message
  | .textNotUtf8 => "stream did not contain valid UTF-8".toList

inductive PathFault where
  | rootNotDirectory (root : Path)
  | occupied (path : Path)
  | noFileName
  | noParent
  deriving DecidableEq, Repr

def PathFault.message : PathFault → Text
  | .rootNotDirectory root => "Not a directory: ".toList ++ root.text
  | .occupied path => "Path exists but is not a directory: ".toList ++ path.text
  | .noFileName => "Invalid file name".toList
  | .noParent => "Cannot determine parent directory".toList

inductive SettingsFormat where
  | toml
  | json
  | yaml
  deriving DecidableEq, Repr

def SettingsFormat.name : SettingsFormat → Text
  | .toml => "TOML".toList
  | .json => "JSON".toList
  | .yaml => "YAML".toList

inductive SettingsFault where
  | unsupportedFormat (extension : Text)
  | unreadable (format : SettingsFormat) (path : Path)
  | unknownLevel (text : Text)
  deriving DecidableEq, Repr

def SettingsFault.message : SettingsFault → Text
  | .unsupportedFormat extension => "Unsupported config format: ".toList ++ extension
  | .unreadable format path =>
    format.name ++ " parse error in ".toList ++ path.text ++ ": not valid settings".toList
  | .unknownLevel text => "Unknown log level: ".toList ++ text

inductive StorageFault where
  | io (fault : IoFault)
  | settings (fault : SettingsFault)
  | path (fault : PathFault)
  | unwritable
  deriving DecidableEq, Repr

def ioMessage (fault : IoFault) : Text := "I/O error: ".toList ++ fault.message

def StorageFault.message : StorageFault → Text
  | .io fault => ioMessage fault
  | .settings fault => "Configuration error: ".toList ++ fault.message
  | .path fault => "Path operation error: ".toList ++ fault.message
  | .unwritable =>
    "Serialization error: TOML serialization error: out-of-range value for u64 type".toList

inductive Fault where
  | header (fault : HeaderFault)
  | conventions (fault : Conventions.Fault)
  | glob (fault : Glob.Fault)
  | io (fault : IoFault)
  | storage (fault : StorageFault)
  | file (path : Path) (fault : Fault)
  deriving DecidableEq, Repr

def Fault.message : Fault → Text
  | .header fault => fault.message
  | .conventions fault => "Configuration error: ".toList ++ fault.message
  | .glob fault => "Glob error: ".toList ++ fault.message
  | .io fault => ioMessage fault
  | .storage fault => "Utility error: ".toList ++ fault.message
  | .file path fault => path.text ++ ": ".toList ++ fault.message

def IoFault.chain (fault : IoFault) : List Text := [ioMessage fault, fault.message]

def StorageFault.chain : StorageFault → List Text
  | .io fault => fault.chain
  | fault => [fault.message]

def Fault.chain : Fault → List Text
  | .io fault => fault.chain
  | .storage fault => (Fault.storage fault).message :: fault.chain
  | .glob fault => [(Fault.glob fault).message, fault.message]
  | .file path fault => (Fault.file path fault).message :: fault.chain
  | fault => [fault.message]

end MemberLift
