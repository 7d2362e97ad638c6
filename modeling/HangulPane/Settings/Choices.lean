import HangulPane.Program.Load
import HangulPane.Program.Optimize

namespace HangulPane

/-!
The choices that a user of the tools makes, each with the names by which it is
made.
-/

/-- The stored form of the program to load, or the wish to have it detected. -/
inductive SourceChoice where
  | auto
  | bytecode
  | asm
  | text
  deriving DecidableEq, Repr

namespace SourceChoice

def name : SourceChoice -> String
  | .auto => "auto"
  | .bytecode => "bytecode"
  | .asm => "asm"
  | .text => "text"

def ofName? (name : String) : Option SourceChoice :=
  [SourceChoice.auto, .bytecode, .asm, .text].find? fun choice => choice.name == name

end SourceChoice

/-- What to do with the loaded program. -/
inductive Target where
  | run
  /-- Store it as byte records. -/
  | bytecode
  /-- Store it as a listing. -/
  | asm
  /-- Store it as a listing with comments. -/
  | asmComment
  deriving DecidableEq, Repr

namespace Target

def name : Target -> String
  | .run => "run"
  | .bytecode => "bytecode"
  | .asm => "asm"
  | .asmComment => "asm+comment"

def ofName? (name : String) : Option Target :=
  [Target.run, .bytecode, .asm, .asmComment].find? fun choice => choice.name == name

end Target

/-- The representation of the numbers that the program computes with. -/
inductive Representation where
  /-- Integers of any size. -/
  | bigint
  /-- Signed words. -/
  | smallint
  deriving DecidableEq, Repr

namespace Representation

def name : Representation -> String
  | .bigint => "bigint"
  | .smallint => "smallint"

def ofName? (name : String) : Option Representation :=
  [Representation.bigint, .smallint].find? fun choice => choice.name == name

end Representation
end HangulPane
