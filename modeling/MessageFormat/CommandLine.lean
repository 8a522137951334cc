import MessageFormat.Command.Basic

/-!
# The command line

The first argument names a command, the others are its flags, in any order.  `--config` and a
path may stand among the flags of every command; they are taken out before the flags are read,
so that nothing else can have `--config` for its value.  Of a flag that is given twice the
last one counts.
-/

namespace MessageFormat.CommandLine

/-- Why arguments are refused. -/
inductive Fault where
  | usage
  | missingValue (flag : String)
  | unknownCodeKind (value : String)
deriving DecidableEq, Repr

/-- How the program is used. -/
def usageText : String :=
  String.intercalate "\n"
    ["usage: icu-mf-cli parse --message <text> [--ignore-tag] [--no-location] [--config <path>]",
     "       icu-mf-cli validate --source <file-or-dir> [--config <path>]",
     "       icu-mf-cli kind --value <int>",
     "       icu-mf-cli display-name --type <region|script|currency|language> --code <code> [--locale <tag>]",
     "           [--no-fallback] [--config <path>]"]

/-- The wording of a refusal. -/
def Fault.message : Fault → String
  | .usage => usageText
  | .missingValue flag => flag ++ " requires a value\n\n" ++ usageText
  | .unknownCodeKind value => s!"unknown display name type `{value}`\n\n" ++ usageText

/-- The path of the configuration, and the arguments without it. -/
def takeConfig (path : String) : List String → Except Fault (String × List String)
  | [] => .ok (path, [])
  | ["--config"] => .error (.missingValue "--config")
  | arg :: value :: rest =>
    if arg = "--config" then takeConfig value rest
    else do
      let (path, rest) ← takeConfig path (value :: rest)
      return (path, arg :: rest)
  | [arg] => .ok (path, [arg])

/-! ## Flags -/

/-- The flags of the parse command. -/
def parseFlags (message : Option String) (ignoreTag omitSpans : Bool) :
    List String → Except Fault Command.ParseRequest
  | [] =>
    match message with
    | some message => .ok ⟨message, ignoreTag, omitSpans⟩
    | none => .error .usage
  | "--message" :: rest =>
    match rest with
    | [] => .error (.missingValue "--message")
    | value :: rest => parseFlags (some value) ignoreTag omitSpans rest
  | "--ignore-tag" :: rest => parseFlags message true omitSpans rest
  | "--no-location" :: rest => parseFlags message ignoreTag true rest
  | _ => .error .usage

/-- The value of the one flag that a command has. -/
def onlyFlag (flag : String) (value : Option String) : List String → Except Fault String
  | [] =>
    match value with
    | some value => .ok value
    | none => .error .usage
  | arg :: rest =>
    if arg = flag then
      match rest with
      | [] => .error (.missingValue flag)
      | value :: rest => onlyFlag flag (some value) rest
    else .error .usage

/-- The flags of the validate command. -/
def validateFlags (args : List String) : Except Fault Command.ValidateRequest :=
  .mk <$> onlyFlag "--source" none args

/-- The flags of the kind command. -/
def kindFlags (args : List String) : Except Fault Command.KindRequest :=
  .mk <$> onlyFlag "--value" none args

/-- The flags of the display name command. -/
def displayNameFlags (code : Option String) (kind : Option CodeKind) (locale : Option String)
    (noFallback : Bool) : List String → Except Fault Command.DisplayNameRequest
  | [] =>
    match code, kind with
    | some code, some kind => .ok ⟨code, kind, locale, noFallback⟩
    | _, _ => .error .usage
  | "--code" :: rest =>
    match rest with
    | [] => .error (.missingValue "--code")
    | value :: rest => displayNameFlags (some value) kind locale noFallback rest
  | "--type" :: rest =>
    match rest with
    | [] => .error (.missingValue "--type")
    | value :: rest =>
      match Named.ofName? value with
      | some kind => displayNameFlags code (some kind) locale noFallback rest
      | none => .error (.unknownCodeKind value)
  | "--locale" :: rest =>
    match rest with
    | [] => .error (.missingValue "--locale")
    | value :: rest => displayNameFlags code kind (some value) noFallback rest
  | "--no-fallback" :: rest => displayNameFlags code kind locale true rest
  | _ => .error .usage

/-! ## Commands -/

/-- The command with a name and its flags. -/
def command (name : String) (flags : List String) : Except Fault Command :=
  match name with
  | "parse" => .parse <$> parseFlags none false false flags
  | "validate" => .validate <$> validateFlags flags
  | "kind" => .kind <$> kindFlags flags
  | "display-name" => .displayName <$> displayNameFlags none none none false flags
  | _ => .error .usage

/-- The command that arguments stand for, and the path of its configuration. -/
def parse : List String → Except Fault (Command × String)
  | [] => .error .usage
  | name :: arguments => do
    let (path, flags) ← takeConfig Configuration.defaultPath arguments
    return (← command name flags, path)

end MessageFormat.CommandLine
