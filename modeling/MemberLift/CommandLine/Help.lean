import MemberLift.CommandLine.Options

/-!
What the program says about itself: its version, its help, and words for shells to complete.
-/
namespace MemberLift.CommandLine

def version : Text := "freefn 0.1.0\n".toList

def helpLine (word purpose : Text) : Text :=
  "  ".toList ++ word ++ List.replicate (14 - word.length) ' ' ++ purpose ++ ['\n']

def OptionName.typed (o : OptionName) : Text :=
  (match o.letter? with
    | some c => '-' :: c :: ", ".toList
    | none => []) ++ "--".toList ++ o.long ++ (if o.takesValue then " <VALUE>".toList else [])

def optionLines (os : List OptionName) : Text :=
  os.flatMap fun o => "  ".toList ++ o.typed ++ ['\n']

def usage : Text := "Usage: freefn [OPTIONS] <COMMAND>\n".toList

def help : Text :=
  "Generate free-function wrappers for marked C++ member functions\n\n".toList ++ usage ++
    "\nCommands:\n".toList ++ Verb.all.flatMap (fun v => helpLine v.word v.purpose) ++
    helpLine "help".toList "Print this message".toList ++
    "\nOptions of every command:\n".toList ++ optionLines OptionName.shared ++
    Verb.all.flatMap fun v =>
      if (OptionName.ofVerb v).isEmpty then []
      else "\nOptions of ".toList ++ v.word ++ ":\n".toList ++ optionLines (OptionName.ofVerb v)

def completions (shell : Shell) : Text :=
  let words := Text.join [' '] (Verb.all.map Verb.word)
  let quoted (mark : Char) : Text :=
    Text.join (mark :: [' ', mark]) (Verb.all.map Verb.word)
  match shell with
  | .bash => "complete -W '".toList ++ words ++ "' freefn\n".toList
  | .zsh => "compdef '_arguments \"1:command:(".toList ++ words ++ ")\"' freefn\n".toList
  | .fish => "complete -c freefn -f -n __fish_use_subcommand -a '".toList ++ words ++ "'\n".toList
  | .elvish =>
    "set edit:completion:arg-completer[freefn] = \x7b|@words| put '".toList ++ quoted '\'' ++
      "' \x7d\n".toList
  | .powershell =>
    "Register-ArgumentCompleter -Native -CommandName freefn -ScriptBlock \x7b '".toList ++
      Text.join "', '".toList (Verb.all.map Verb.word) ++ "' \x7d\n".toList

end MemberLift.CommandLine
