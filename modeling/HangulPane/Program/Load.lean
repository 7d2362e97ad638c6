import HangulPane.Listing.Reader
import HangulPane.Pane.Trace
import HangulPane.Records

namespace HangulPane

/-!
The forms in which programs are stored, and reading each of them.
-/

inductive SourceFormat where
  /-- A pane, as text. -/
  | text
  /-- Byte records. -/
  | bytecode
  /-- A listing, as text. -/
  | asm
  deriving DecidableEq, Repr

namespace SourceFormat

def name : SourceFormat -> String
  | .text => "text"
  | .bytecode => "bytecode"
  | .asm => "asm"

end SourceFormat

namespace Program

/-- The program stored in the given form.  A pane leaves the origin of each
instruction as its comment on request. -/
def load (format : SourceFormat) (withComments : Bool) (bytes : List UInt8) :
    Except ProgramError Program :=
  match format with
  | .bytecode => Records.decode bytes
  | .asm =>
      match Utf8.decode bytes with
      | .error flaw => .error (.invalidText flaw)
      | .ok text => Listing.read text
  | .text =>
      match Utf8.decode bytes with
      | .error flaw => .error (.invalidText flaw)
      | .ok text => .ok ((Pane.ofText text).toProgram withComments)

end Program
end HangulPane
