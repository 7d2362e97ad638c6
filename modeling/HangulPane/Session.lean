import HangulPane.Listing.Writer
import HangulPane.Machine.Run
import HangulPane.Number.Unbounded
import HangulPane.Settings.Basic

namespace HangulPane

/-!
Sessions with the two tools: the one that runs or stores a program, and the one
that only lists it.

A session loads the program, optimises it and then either has something to store
or a program to run.  What is decided here depends on nothing but the settings and
the contents of the files, so it can be read as a function; a whole session on a
given folder is one too.
-/

inductive Tool where
  /-- Runs programs, and stores them in other forms. -/
  | runner
  /-- Lists programs. -/
  | lister
  deriving DecidableEq, Repr

namespace Tool

def name : Tool -> String
  | .runner => "aheui"
  | .lister => "ahsembler"

/-- What a tool makes of a request: the lister always lists on the standard
output. -/
def adjust (tool : Tool) (request : Request) : Request :=
  match tool with
  | .runner => request
  | .lister =>
      { request with target := some .asm, output := some "-", noCompanion := true }

/-- Whether a tool loads programs with the origins of their instructions. -/
def withComments (tool : Tool) (settings : Settings) : Bool :=
  match tool with
  | .runner => settings.withComments
  | .lister => false

/-- The line in which a tool reports an error. -/
def complaint (tool : Tool) (message : String) : String :=
  tool.name ++ ": error: " ++ message ++ "\n"

end Tool

/-- The exit status after an error in the options, the files or the program. -/
def errorStatus : Int32 := 1

/-- The exit status after a fault in a running program. -/
def faultStatus : Int32 := 2

/-- What is left to do once a program is loaded. -/
inductive Task where
  /-- Store the bytes in a file, or write them to the standard output. -/
  | store (output : String) (bytes : List UInt8)
  /-- Run the program, after leaving its byte records in a file. -/
  | run (program : Program) (companion : Option (String × List UInt8))

namespace Task

/-- The contents of the file beside a program that is run: byte records, a blank
line, and a listing for the reader. -/
def companionBytes? (program : Program) : Option (List UInt8) :=
  match Records.encode program with
  | .error _ => none
  | .ok bytes =>
      some (bytes ++ [0x0A, 0x0A] ++ Utf8.encode (Listing.write program true).toList)

def ofProgram (settings : Settings) (program : Program) : Except ProgramError Task :=
  match settings.target with
  | .run =>
      let companion := settings.companion.bind fun name =>
        (companionBytes? program).map fun bytes => (name, bytes)
      .ok (.run program companion)
  | .asm =>
      .ok (.store settings.output (Utf8.encode (Listing.write program false).toList))
  | .asmComment =>
      .ok (.store settings.output (Utf8.encode (Listing.write program true).toList))
  | .bytecode => (Records.encode program).map (.store settings.output)

/-- The task that the settings set for the contents of the program's source. -/
def plan (tool : Tool) (settings : Settings) (contents : List UInt8) :
    Except ProgramError Task := do
  let format := settings.source.detect settings.input.name contents
  let program ← Program.load format (tool.withComments settings) contents
  ofProgram settings (program.optimize settings.level)

end Task

/-- What a session leaves behind. -/
structure Report where
  status : Int32
  output : List UInt8
  /-- What was written to the standard error. -/
  complaints : List UInt8
  folder : Folder
  /-- What the log has as warnings. -/
  log : List String := []

namespace Session

/-- The report of a session that ended with an error. -/
def refuse (tool : Tool) (folder : Folder) (message : String) : Report where
  status := errorStatus
  output := []
  complaints := Utf8.encode (tool.complaint message).toList
  folder := folder

/-- The report of a run; nothing if it did not end. -/
def reportRun {N : Type} [Number N] (tool : Tool) (folder : Folder) (run : Run N) :
    Option Report :=
  let output := run.console.output.written.toList
  let warnings := run.console.warnings.sink.written.toList
  match run.ending with
  | .unfinished => none
  | .finished value =>
      some
        { status := (Number.exitStatus value).code
          output
          complaints := warnings
          folder
          log := (Number.reductionNotice value).toList }
  | .faulted fault =>
      some
        { status := faultStatus
          output
          complaints := warnings ++ Utf8.encode (tool.complaint fault.message).toList
          folder }

/-- Run a program on the given input for at most the given number of steps. -/
def execute (tool : Tool) (settings : Settings) (folder : Folder) (program : Program)
    (input : List UInt8) (bound : Nat) : Option Report :=
  let console :=
    Console.start (Input.ofBytes input) none (Warnings.fresh settings.warningLimit none)
  match settings.representation with
  | .bigint => reportRun tool folder (Machine.run program bound console : Run Int)
  | .smallint => reportRun tool folder (Machine.run program bound console : Run Int64)

def perform (tool : Tool) (settings : Settings) (folder : Folder) (task : Task)
    (input : List UInt8) (bound : Nat) : Option Report :=
  match task with
  | .store "-" bytes => some { status := 0, output := bytes, complaints := [], folder }
  | .store output bytes =>
      match folder.write output bytes with
      | .ok folder => some { status := 0, output := [], complaints := [], folder }
      | .error fault =>
          some (refuse tool folder ("cannot write " ++ output ++ ": " ++ fault.message))
  | .run program companion =>
      let folder :=
        match companion with
        | none => folder
        | some (name, bytes) => (folder.write name bytes).toOption.getD folder
      execute tool settings folder program input bound

/-- The contents of the program's source, and the input that is left for the
program. -/
def readSource (input : ProgramInput) (folder : Folder) (standardInput : List UInt8) :
    Except SettingsFault (List UInt8 × List UInt8) :=
  match input with
  | .inline text => .ok (Utf8.encode text.toList, standardInput)
  | .standardInput => .ok (standardInput, [])
  | .file name =>
      match folder.read name with
      | .ok bytes => .ok (bytes, standardInput)
      | .error fault => .error (.unreadable name fault)

/-- A whole session on a folder, its program running for at most the given number
of steps; nothing if the program did not end. -/
def run (tool : Tool) (request : Request) (environment : Environment) (folder : Folder)
    (standardInput : List UInt8) (bound : Nat) : Option Report :=
  match Settings.resolve (tool.adjust request) folder environment with
  | .error fault => some (refuse tool folder fault.message)
  | .ok settings =>
      match readSource settings.input folder standardInput with
      | .error fault => some (refuse tool folder fault.message)
      | .ok (contents, input) =>
          match Task.plan tool settings contents with
          | .error error => some (refuse tool folder error.message)
          | .ok task => perform tool settings folder task input bound

end Session
end HangulPane
