import HangulPane.Text.Decimal
import HangulPane.Text.Utf8

namespace HangulPane

/-!
Why a program cannot be read from its stored form, or written to it.
-/

/-- A reason why a stored program is refused, or a program cannot be stored. -/
inductive ProgramError where
  | truncatedRecord (offset : Nat)
  | missingTerminator
  /-- The last byte of a record is the number of no operation. -/
  | unknownOpcode (code : UInt8) (record : Nat)
  /-- A jump leads past the end. -/
  | invalidJumpTarget (record target : Nat)
  | storageOutOfRange (record : Nat) (slot : Int)
  /-- The operand of an instruction does not fit a record. -/
  | operandOutOfRange (index : Nat) (value : Int)
  /-- A word is the name of no operation. -/
  | unknownMnemonic (line : Nat) (mnemonic : String)
  | missingOperand (line : Nat)
  | invalidOperand (line : Nat) (operand : String)
  /-- A jump names neither a label nor an index. -/
  | undefinedLabel (line : Nat) (label : String)
  /-- A line names a storage that does not exist. -/
  | invalidStorage (line : Nat) (slot : Int)
  | invalidText (flaw : Utf8.Flaw)
  deriving DecidableEq, Repr

namespace ProgramError

/-- A byte in hexadecimal notation with two digits. -/
def byteText (byte : UInt8) : String :=
  "0x" ++ String.ofList [Nat.digitChar (byte.toNat / 16), Nat.digitChar (byte.toNat % 16)]

def message : ProgramError -> String
  | .truncatedRecord offset =>
      "Truncated bytecode record at byte offset " ++ Decimal.ofNat offset
  | .missingTerminator => "Bytecode stream ends without the FF FF FF FF terminator"
  | .unknownOpcode code record =>
      "Unknown opcode byte " ++ byteText code ++ " in record " ++ Decimal.ofNat record
  | .invalidJumpTarget record target =>
      "Jump in record " ++ Decimal.ofNat record ++ " targets instruction " ++
        Decimal.ofNat target ++ " outside the program"
  | .storageOutOfRange record slot =>
      "Storage index " ++ Decimal.ofInt slot ++ " out of range in record " ++
        Decimal.ofNat record
  | .operandOutOfRange index value =>
      "Operand " ++ Decimal.ofInt value ++ " of instruction " ++ Decimal.ofNat index ++
        " does not fit in 24 bits"
  | .unknownMnemonic line mnemonic =>
      "Unknown mnemonic '" ++ mnemonic ++ "' on line " ++ Decimal.ofNat line
  | .missingOperand line => "Missing operand on line " ++ Decimal.ofNat line
  | .invalidOperand line operand =>
      "Invalid operand '" ++ operand ++ "' on line " ++ Decimal.ofNat line
  | .undefinedLabel line label =>
      "Undefined label '" ++ label ++ "' on line " ++ Decimal.ofNat line
  | .invalidStorage line slot =>
      "Storage index " ++ Decimal.ofInt slot ++ " out of range on line " ++
        Decimal.ofNat line
  | .invalidText flaw => "Source is not valid UTF-8: " ++ flaw.message

end ProgramError
end HangulPane
