import HangulPane.Settings.Choices

namespace HangulPane

/-!
File names: what they tell about the stored form of a program, and how the names
of derived files are made.
-/

namespace FileName

def endsWith (name ending : String) : Bool :=
  ending.toList.isSuffixOf name.toList

def textEnding : String := ".aheui"

def bytecodeEnding : String := ".aheuic"

def asmEnding : String := ".aheuis"

/-- The name of the byte records made from a file. -/
def bytecode (name : String) : String :=
  if endsWith name textEnding then name ++ "c" else name ++ bytecodeEnding

/-- The name of the listing made from a file. -/
def asm (name : String) : String :=
  if endsWith name textEnding then name ++ "s" else name ++ asmEnding

end FileName

/-- The stored form of a program.  Where none was chosen the ending of the name
decides, and otherwise the terminator of byte records. -/
def SourceChoice.detect (choice : SourceChoice) (name : String) (bytes : List UInt8) :
    SourceFormat :=
  match choice with
  | .text => .text
  | .bytecode => .bytecode
  | .asm => .asm
  | .auto =>
      if FileName.endsWith name FileName.textEnding then .text
      else if FileName.endsWith name FileName.bytecodeEnding then .bytecode
      else if FileName.endsWith name FileName.asmEnding then .asm
      else if Records.hasTerminator bytes then .bytecode
      else .text

end HangulPane
