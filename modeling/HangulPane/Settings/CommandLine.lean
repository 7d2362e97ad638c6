import HangulPane.Settings.Choices
import HangulPane.Text.Blank

namespace HangulPane

/-!
The arguments of the command line.

An option is written long (`--opt 1`, `--opt=1`) or, if it has a letter, short
(`-O 1`, `-O1`, `-O=1`).  Its value is checked when the next option or file name
is met, or at the end, unless it is attached to the option, when it is checked at
once.  Two complaints come before any about an earlier value: one about an
argument that is not known, and one about a value for a switch that takes none.
After `--` every argument is a file name.
-/

/-- Why the arguments are not acceptable, or that only a text was asked for. -/
inductive UsageFault where
  /-- No such option, or a second file name. -/
  | unknownArgument
  /-- A value that is not among the choices, is empty, or is missing. -/
  | invalidValue
  /-- A level that is no number or out of range. -/
  | valueValidation
  /-- The same option twice. -/
  | argumentConflict
  /-- A value for a switch. -/
  | tooManyValues
  | displayHelp
  | displayVersion
  deriving DecidableEq, Repr

/-- An option that takes a value. -/
inductive ValueOption where
  | inline
  | level
  | source
  | target
  | output
  | warningLimit
  | representation
  | config
  deriving DecidableEq, Repr

/-- What the command line asks for. -/
structure Request where
  /-- The file that holds the program. -/
  file : Option String := none
  /-- The program itself. -/
  inline : Option String := none
  level : Option Nat := none
  source : Option SourceChoice := none
  target : Option Target := none
  output : Option String := none
  /-- Do not leave byte records beside the source when running. -/
  noCompanion : Bool := false
  warningLimit : Option String := none
  representation : Option Representation := none
  /-- The file that holds defaults. -/
  config : Option String := none
  deriving DecidableEq, Repr

namespace Request

/-- Set an option that is not set yet to a checked value. -/
def fill {Value : Type} (current : Option Value) (checked : Except UsageFault Value)
    (set : Value -> Request) : Except UsageFault Request :=
  match current with
  | some _ => .error .argumentConflict
  | none => checked.map set

/-- A choice by name, or the complaint that there is none. -/
def choose {Value : Type} (choice : Option Value) : Except UsageFault Value :=
  match choice with
  | some value => .ok value
  | none => .error .invalidValue

/-- The level that a text denotes. -/
def levelOf (text : String) : Except UsageFault Nat :=
  match Decimal.word? text.toList with
  | some value =>
      if 0 ≤ value.toInt ∧ value.toInt ≤ 2 then .ok value.toInt.toNat
      else .error .valueValidation
  | none => .error .valueValidation

def set (request : Request) (option : ValueOption) (value : String) :
    Except UsageFault Request :=
  match option with
  | .inline =>
      fill request.inline (.ok value) fun value => { request with inline := some value }
  | .level =>
      fill request.level (levelOf value) fun value => { request with level := some value }
  | .source =>
      fill request.source (choose (SourceChoice.ofName? value)) fun value =>
        { request with source := some value }
  | .target =>
      fill request.target (choose (Target.ofName? value)) fun value =>
        { request with target := some value }
  | .output =>
      fill request.output (.ok value) fun value => { request with output := some value }
  | .warningLimit =>
      fill request.warningLimit (.ok value) fun value =>
        { request with warningLimit := some value }
  | .representation =>
      fill request.representation (choose (Representation.ofName? value)) fun value =>
        { request with representation := some value }
  | .config =>
      fill request.config (if value = "" then .error .invalidValue else .ok value) fun value =>
        { request with config := some value }

end Request

namespace CommandLine

/-- What a long or short option name stands for. -/
inductive Meaning where
  | value (option : ValueOption)
  | noCompanion
  | help
  | version

def longMeaning? (name : List Char) : Option Meaning :=
  match String.ofList name with
  | "cmd" => some (.value .inline)
  | "opt" => some (.value .level)
  | "source" => some (.value .source)
  | "target" => some (.value .target)
  | "output" => some (.value .output)
  | "no-c" => some .noCompanion
  | "warning-limit" => some (.value .warningLimit)
  | "int" => some (.value .representation)
  | "config" => some (.value .config)
  | "help" => some .help
  | "version" => some .version
  | _ => none

/-- The meaning of the letter of a short option. -/
def shortMeaning? : Char -> Option Meaning
  | 'c' => some (.value .inline)
  | 'O' => some (.value .level)
  | 'S' => some (.value .source)
  | 'T' => some (.value .target)
  | 'o' => some (.value .output)
  | 'h' => some .help
  | 'V' => some .version
  | _ => none

/-- How far the arguments have been read. -/
structure Reading where
  request : Request
  /-- An option whose value is awaited, or is there but not checked yet. -/
  pending : Option (ValueOption × Option String)
  /-- Whether only file names follow. -/
  namesOnly : Bool

/-- The reading with its pending value checked and set. -/
def Reading.settle (reading : Reading) : Except UsageFault Reading :=
  match reading.pending with
  | none => .ok reading
  | some (_, none) => .error .invalidValue
  | some (option, some value) =>
      match reading.request.set option value with
      | .error fault => .error fault
      | .ok request => .ok { reading with request, pending := none }

/-- The reading after an option and the value attached to it, if there is one. -/
def Reading.take (reading : Reading) (meaning : Meaning) (attached : Option String) :
    Except UsageFault Reading :=
  match meaning, attached with
  | .value option, some value =>
      match reading.settle with
      | .error fault => .error fault
      | .ok reading =>
          match reading.request.set option value with
          | .error fault => .error fault
          | .ok request => .ok { reading with request }
  | .value option, none =>
      match reading.settle with
      | .error fault => .error fault
      | .ok reading => .ok { reading with pending := some (option, none) }
  | _, some _ => .error .tooManyValues
  | .noCompanion, none =>
      match reading.settle with
      | .error fault => .error fault
      | .ok reading =>
          if reading.request.noCompanion then .error .argumentConflict
          else .ok { reading with request := { reading.request with noCompanion := true } }
  | .help, none =>
      match reading.settle with
      | .error fault => .error fault
      | .ok _ => .error .displayHelp
  | .version, none =>
      match reading.settle with
      | .error fault => .error fault
      | .ok _ => .error .displayVersion

/-- The reading after a long option, given without its two dashes. -/
def Reading.takeLong (reading : Reading) (text : List Char) : Except UsageFault Reading :=
  let (name, attached) :=
    match Text.cutAt '=' text with
    | some (name, value) => (name, some (String.ofList value))
    | none => (text, none)
  match longMeaning? name with
  | none => .error .unknownArgument
  | some meaning => reading.take meaning attached

/-- The reading after a short option.  What follows its letter is its value, an
equals sign in front of it aside. -/
def Reading.takeShort (reading : Reading) (letter : Char) (rest : List Char) :
    Except UsageFault Reading :=
  match shortMeaning? letter with
  | none => .error .unknownArgument
  | some (.value option) =>
      let attached :=
        match rest with
        | [] => none
        | '=' :: value => some (String.ofList value)
        | value => some (String.ofList value)
      reading.take (.value option) attached
  | some switch => reading.take switch none

def Reading.takeName (reading : Reading) (name : String) : Except UsageFault Reading :=
  if reading.request.file.isSome then .error .unknownArgument
  else
    match reading.settle with
    | .error fault => .error fault
    | .ok reading => .ok { reading with request := { reading.request with file := some name } }

/-- The reading after an argument that is no option: the value that is awaited, or
a file name. -/
def Reading.takePlain (reading : Reading) (argument : String) : Except UsageFault Reading :=
  match reading.pending with
  | some (option, none) => .ok { reading with pending := some (option, some argument) }
  | _ => reading.takeName argument

/-- The reading after one more argument.  The limit of warnings takes whatever
comes next as its value, also if that looks like an option. -/
def Reading.next (reading : Reading) (argument : String) : Except UsageFault Reading :=
  if reading.namesOnly then reading.takeName argument
  else if reading.pending = some (.warningLimit, none) then reading.takePlain argument
  else
    match argument.toList with
    | ['-', '-'] => .ok { reading with namesOnly := true }
    | '-' :: '-' :: text => reading.takeLong text
    | '-' :: letter :: rest => reading.takeShort letter rest
    | _ => reading.takePlain argument

/-- Read the remaining arguments. -/
def readFrom (reading : Reading) : List String -> Except UsageFault Request
  | [] => reading.settle.map Reading.request
  | argument :: later =>
      match reading.next argument with
      | .error fault => .error fault
      | .ok reading => readFrom reading later

/-- What the arguments ask for. -/
def read (arguments : List String) : Except UsageFault Request :=
  readFrom { request := {}, pending := none, namesOnly := false } arguments

end CommandLine
end HangulPane
