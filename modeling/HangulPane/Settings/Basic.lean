import HangulPane.Console.Warnings
import HangulPane.Files
import HangulPane.Settings.CommandLine
import HangulPane.Settings.Defaults
import HangulPane.Settings.Detect

namespace HangulPane

/-!
The settings of a session, put together from the command line, the configuration
document and the environment.  What the command line says wins over the document,
the document over the environment, and all of them over what is built in.
-/

inductive ProgramInput where
  | file (name : String)
  | standardInput
  | inline (text : String)
  deriving DecidableEq, Repr

/-- The name by which the form of the program is detected and derived files are
named; a dash if it does not come from a file. -/
def ProgramInput.name : ProgramInput -> String
  | .file name => name
  | .standardInput => "-"
  | .inline _ => "-"

/-- Why a configuration document cannot be used. -/
inductive ConfigFault where
  | file (fault : FileFault)
  | notText
  | malformed
  deriving DecidableEq, Repr

def ConfigFault.message : ConfigFault -> String
  | .file fault => fault.message
  | .notText => "stream did not contain valid UTF-8"
  | .malformed => "TOML parse error"

/-- Why there are no settings. -/
inductive SettingsFault where
  | missingInput
  /-- Both a program and a file that holds one. -/
  | conflictingInput
  | invalidFlagInteger (flag value : String)
  | invalidVariableInteger (variableName value : String)
  | invalidChoice (name value : String)
  | config (path : String) (fault : ConfigFault)
  | unreadable (path : String) (fault : FileFault)
  deriving DecidableEq, Repr

def SettingsFault.message : SettingsFault -> String
  | .missingInput => "no input files"
  | .conflictingInput => "--cmd,-c but input file found"
  | .invalidFlagInteger flag value =>
      "The value of --" ++ flag ++ "=\"" ++ value ++ "\" is not a valid integer"
  | .invalidVariableInteger variableName value =>
      "The value " ++ variableName ++ "=\"" ++ value ++ "\" is not a valid integer"
  | .invalidChoice name value => "invalid value \"" ++ value ++ "\" for " ++ name
  | .config path fault => "cannot load config file " ++ path ++ ": " ++ fault.message
  | .unreadable path fault => "cannot read " ++ path ++ ": " ++ fault.message

/-- The value of each variable of the environment. -/
abbrev Environment := String -> Option String

/-- The variable that limits warnings. -/
def warningLimitVariable : String := "RPAHEUI_WARNING_LIMIT"

/-- The variable that chooses the representation of numbers. -/
def representationVariable : String := "RPAHEUI_INT"

structure Settings where
  input : ProgramInput
  level : OptimizationLevel
  source : SourceChoice
  target : Target
  /-- Where the stored program goes; a dash is the standard output. -/
  output : String
  /-- The file that gets the byte records of the program before it runs. -/
  companion : Option String
  warningLimit : Int
  representation : Representation
  deriving DecidableEq, Repr

namespace Settings

def withComments (settings : Settings) : Bool :=
  settings.target != .run

def inputOf (request : Request) : Except SettingsFault ProgramInput :=
  match request.inline, request.file with
  | some _, some _ => .error .conflictingInput
  | some text, none => .ok (.inline text)
  | none, some "-" => .ok .standardInput
  | none, some name => .ok (.file name)
  | none, none => .error .missingInput

def levelOf (request : Request) (defaults : Defaults) :
    Except SettingsFault OptimizationLevel :=
  let number := (request.level.or defaults.level).getD 1
  match OptimizationLevel.ofNat? number with
  | some level => .ok level
  | none => .error (.invalidChoice "opt" (Decimal.ofNat number))

/-- The integer that a text denotes, blanks around it aside. -/
def integerOf? (text : String) : Option Int :=
  (Decimal.word? (Text.trim text.toList)).map Int64.toInt

def warningLimitOf (request : Request) (defaults : Defaults) (environment : Environment) :
    Except SettingsFault Int :=
  match request.warningLimit, defaults.warningLimit, environment warningLimitVariable with
  | some value, _, _ =>
      match integerOf? value with
      | some limit => .ok limit
      | none => .error (.invalidFlagInteger "warning-limit" value)
  | none, some limit, _ => .ok limit
  | none, none, some value =>
      match integerOf? value with
      | some limit => .ok limit
      | none => .error (.invalidVariableInteger warningLimitVariable value)
  | none, none, none => .ok Warnings.defaultLimit

def representationOf (request : Request) (defaults : Defaults) (environment : Environment) :
    Except SettingsFault Representation :=
  match request.representation.or defaults.representation,
      environment representationVariable with
  | some representation, _ => .ok representation
  | none, some value =>
      match Representation.ofName? value with
      | some representation => .ok representation
      | none => .error (.invalidChoice representationVariable value)
  | none, none => .ok .bigint

/-- The file that gets the byte records before a run: none unless a program from a
file is run, and none if that file holds byte records itself. -/
def companionOf (request : Request) (target : Target) (name : String) : Option String :=
  if target = .run ∧ !request.noCompanion ∧ name ≠ "-" ∧
      !FileName.endsWith name FileName.bytecodeEnding then
    some (FileName.bytecode name)
  else
    none

/-- Where the stored program goes: where the request says, unless it says nothing,
and otherwise beside the file it comes from. -/
def outputOf (request : Request) (target : Target) (name : String) : String :=
  let derived :=
    match target with
    | .run => "-"
    | .bytecode => if name = "-" then "-" else FileName.bytecode name
    | .asm | .asmComment => if name = "-" then "-" else FileName.asm name
  match request.output with
  | some output => if output = "" then derived else output
  | none => derived

/-- The settings that a request, the defaults and the environment make together. -/
def merge (request : Request) (defaults : Defaults) (environment : Environment) :
    Except SettingsFault Settings := do
  let input ← inputOf request
  let level ← levelOf request defaults
  let target := (request.target.or defaults.target).getD .run
  let warningLimit ← warningLimitOf request defaults environment
  let representation ← representationOf request defaults environment
  return {
    input := input
    level := level
    source := (request.source.or defaults.source).getD .auto
    target := target
    output := outputOf request target input.name
    companion := companionOf request target input.name
    warningLimit := warningLimit
    representation := representation }

/-- The defaults in a configuration document, given what reading its file gave. -/
def defaultsOf (path : String) (contents : Except FileFault (List UInt8)) :
    Except SettingsFault Defaults :=
  match contents with
  | .error fault => .error (.config path (.file fault))
  | .ok bytes =>
      match Utf8.decode bytes with
      | .error _ => .error (.config path .notText)
      | .ok text =>
          match Defaults.ofDocument? text with
          | some defaults => .ok defaults
          | none => .error (.config path .malformed)

/-- The settings, with the configuration document taken from a folder. -/
def resolve (request : Request) (folder : Folder) (environment : Environment) :
    Except SettingsFault Settings := do
  let defaults ←
    match request.config with
    | some path => defaultsOf path (folder.read path)
    | none => .ok {}
  merge request defaults environment

end Settings
end HangulPane
