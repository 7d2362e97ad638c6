import HangulPane.Session

namespace HangulPane
namespace CommandLine

/-!
The program itself: the two tools with the real files, streams and environment.
Which tool it is depends on the name under which the program is called.

All decisions are made by the functions of a session; what stands here carries
them out.  The input of a running program is read when a step asks for more than
has arrived, and the step is then made again on the state before it.
-/

/-- The exit status after arguments that are not acceptable. -/
def usageStatus : UInt32 := 2

def usageLine (tool : Tool) : String :=
  "Usage: " ++ tool.name ++ " [OPTIONS] [FILE]\n"

/-- Why the system could not read or write a file.  A file in place of a folder has
the number 20, which opening a file reports with its sign changed. -/
def fileFault : IO.Error -> FileFault
  | .noFileOrDirectory .. => .missing
  | .inappropriateType _ code _ =>
      if code = 20 || code = 0 - 20 then .notFolder else .isFolder
  | .permissionDenied .. => .other "Permission denied (os error 13)"
  | error => .other (toString error)

def readFile (path : String) : IO (Except FileFault (List UInt8)) := do
  try
    return .ok (← IO.FS.readBinFile path).toList
  catch error =>
    return .error (fileFault error)

def writeFile (path : String) (bytes : List UInt8) : IO (Except FileFault Unit) := do
  try
    IO.FS.writeBinFile path ⟨bytes.toArray⟩
    return .ok ()
  catch error =>
    return .error (fileFault error)

/-- Write bytes to the standard output at once. -/
def writeOutput (bytes : Array UInt8) : IO Unit := do
  let stream ← IO.getStdout
  stream.write ⟨bytes⟩
  stream.flush

/-- Write bytes to the standard error at once. -/
def writeComplaint (bytes : Array UInt8) : IO Unit := do
  let stream ← IO.getStderr
  stream.write ⟨bytes⟩
  stream.flush

def complain (tool : Tool) (message : String) : IO Unit :=
  writeComplaint (Utf8.encode (tool.complaint message).toList).toArray

def refuse (tool : Tool) (message : String) : IO UInt32 := do
  complain tool message
  return errorStatus.toUInt32

/-- The rest of the standard input. -/
partial def readAll (stream : IO.FS.Stream) (read : ByteArray) : IO ByteArray := do
  let bytes ← stream.read 65536
  if bytes.isEmpty then return read else readAll stream (read ++ bytes)

/-- Pass on what a console has collected. -/
def passOn (console : Console) : IO Console := do
  if console.output.written.size != 0 then writeOutput console.output.written
  if console.warnings.sink.written.size != 0 then writeComplaint console.warnings.sink.written
  return { console.withoutOutput with
    warnings := { console.warnings with sink := console.warnings.sink.emptied } }

/-- How many bytes of output are collected before they are passed on unasked. -/
def outputBlock : Nat := 8192

/-- Run linked code to its end. -/
partial def runLive {N : Type} [Number N] (code : Array Instruction) (machine : Machine N)
    (console : Console) : IO (Except Fault N) := do
  let stepped := machine.step code console
  match stepped.result with
  | .ok .halted =>
      let _ ← passOn stepped.console
      return .ok stepped.machine.takeResult.1
  | .error (.channel .inputFailed) =>
      let console ← passOn console
      let bytes ← (← IO.getStdin).read 4096
      let input :=
        if bytes.isEmpty then console.input.close else console.input.receive bytes.toList
      runLive code machine { console with input }
  | .error fault =>
      let _ ← passOn stepped.console
      return .error fault
  | .ok _ =>
      if stepped.console.flushes != console.flushes ||
          stepped.console.output.written.size > outputBlock then
        runLive code stepped.machine (← passOn stepped.console)
      else
        runLive code stepped.machine stepped.console

def execute (N : Type) [Number N] (tool : Tool) (program : Program) (warningLimit : Int)
    (input : Input) : IO UInt32 := do
  let console := Console.start input none (Warnings.fresh warningLimit none)
  let ending : Except String N ←
    try
      let ending ← runLive program.linked Machine.start console
      pure (ending.mapError Fault.message)
    catch error =>
      pure (.error ("I/O error: " ++ toString error))
  match ending with
  | .ok value => return (Number.exitStatus value).code.toUInt32
  | .error message =>
      complain tool message
      return faultStatus.toUInt32

def carryOut (tool : Tool) (settings : Settings) (task : Task) : IO UInt32 :=
  match task with
  | .store "-" bytes => do
      writeOutput bytes.toArray
      return 0
  | .store output bytes => do
      match ← writeFile output bytes with
      | .ok () => return 0
      | .error fault => refuse tool ("cannot write " ++ output ++ ": " ++ fault.message)
  | .run program companion => do
      if let some (name, bytes) := companion then
        discard (writeFile name bytes)
      let input :=
        match settings.input with
        | .standardInput => Input.ofBytes []
        | _ => Input.awaiting
      match settings.representation with
      | .bigint => execute Int tool program settings.warningLimit input
      | .smallint => execute Int64 tool program settings.warningLimit input

def readSource : ProgramInput -> IO (Except SettingsFault (List UInt8))
  | .inline text => return .ok (Utf8.encode text.toList)
  | .standardInput => do
      return .ok (← readAll (← IO.getStdin) ByteArray.empty).toList
  | .file name => do
      return (← readFile name).mapError (SettingsFault.unreadable name)

/-- The settings of the session that a request asks for. -/
def settingsOf (request : Request) : IO (Except SettingsFault Settings) := do
  let warningLimit ← IO.getEnv warningLimitVariable
  let representation ← IO.getEnv representationVariable
  let environment : Environment := fun name =>
    if name = warningLimitVariable then warningLimit
    else if name = representationVariable then representation
    else none
  let defaults ←
    match request.config with
    | some path => pure (Settings.defaultsOf path (← readFile path))
    | none => pure (.ok {})
  return defaults.bind fun defaults => Settings.merge request defaults environment

def session (tool : Tool) (request : Request) : IO UInt32 := do
  match ← settingsOf (tool.adjust request) with
  | .error fault => refuse tool fault.message
  | .ok settings =>
      match ← readSource settings.input with
      | .error fault => refuse tool fault.message
      | .ok contents =>
          match Task.plan tool settings contents with
          | .error error => refuse tool error.message
          | .ok task => carryOut tool settings task

def toolOf (name : Option String) : Tool :=
  if name = some Tool.lister.name then .lister else .runner

end CommandLine
end HangulPane

open HangulPane CommandLine in
/-- Read the arguments and hold the session that they ask for. -/
def main (arguments : List String) : IO UInt32 := do
  let tool := toolOf (← IO.appPath).fileName
  match CommandLine.read arguments with
  | .ok request => session tool request
  | .error .displayHelp | .error .displayVersion =>
      IO.print (usageLine tool)
      return 0
  | .error _ =>
      IO.eprint (usageLine tool)
      return usageStatus
