import HangulPane.Program.Basic
import HangulPane.Program.Error

namespace HangulPane
namespace Records

/-!
Programs as byte records.

Each instruction takes four bytes: its operand in three of them, the lowest
first, then the number of its operation modulo 256.  A control instruction has
the index it leads to as its operand.  Four bytes of ones terminate the program,
and whatever follows them is ignored.
-/

def terminator : List UInt8 := [0xFF, 0xFF, 0xFF, 0xFF]

def maxOperand : Int := 0xFFFFFF

/-- The operand of an instruction as a record holds it: the index that a control
instruction leads to, taken as a signed word, the literal or slot of another one,
or zero. -/
def operand (program : Program) (instruction : Instruction) : Int :=
  match instruction.label? with
  | some label => (Int64.ofNat (program.target label)).toInt
  | none => instruction.value?.getD 0

/-- The number of an operation modulo 256. -/
def opcodeByte (operation : Opcode) : UInt8 :=
  UInt8.ofInt operation.code

def record (operation : Opcode) (value : Nat) : List UInt8 :=
  [UInt8.ofNat value, UInt8.ofNat (value / 0x100), UInt8.ofNat (value / 0x10000),
    opcodeByte operation]

/-- The record of the instruction at an index, if its operand fits. -/
def encodeInstruction (program : Program) (index : Nat) (instruction : Instruction) :
    Except ProgramError (List UInt8) :=
  let value := operand program instruction
  if 0 ≤ value ∧ value ≤ maxOperand then
    .ok (record instruction.opcode value.toNat)
  else
    .error (.operandOutOfRange index value)

/-- The records of the instructions from an index on. -/
def encodeFrom (program : Program) (index : Nat) :
    List Instruction -> Except ProgramError (List UInt8)
  | [] => .ok terminator
  | instruction :: later =>
      match encodeInstruction program index instruction with
      | .error error => .error error
      | .ok bytes =>
          match encodeFrom program (index + 1) later with
          | .error error => .error error
          | .ok rest => .ok (bytes ++ rest)

def encode (program : Program) : Except ProgramError (List UInt8) :=
  encodeFrom program 0 program.code.toList

/-- Whether the terminator occurs anywhere in the data. -/
def hasTerminator : List UInt8 -> Bool
  | [] => false
  | byte :: rest => terminator.isPrefixOf (byte :: rest) || hasTerminator rest

/-- The operation whose number modulo 256 is the given byte. -/
def opcodeOfByte? (byte : UInt8) : Option Opcode :=
  Opcode.ofCode? (if 128 ≤ byte then (byte.toNat : Int) - 256 else byte.toNat)

/-- The number that three bytes denote, the lowest first. -/
def operandOfBytes (low middle high : UInt8) : Nat :=
  low.toNat + middle.toNat * 0x100 + high.toNat * 0x10000

/-- The instruction of a record, labels being the indices they stand for. -/
def decodeRecord (index : Nat) (low middle high code : UInt8) :
    Except ProgramError Instruction :=
  let operand := operandOfBytes low middle high
  match opcodeOfByte? code with
  | none => .error (.unknownOpcode code index)
  | some operation =>
      match Instruction.ofParts? operation (Int64.ofNat operand) with
      | none => .error (.storageOutOfRange index operand)
      | some instruction => .ok instruction

/-- The instructions of the records up to the terminator, the first of them being
the record with the given index. -/
def decodeFrom (index : Nat) : List UInt8 -> Except ProgramError (List Instruction)
  | [] => .error .missingTerminator
  | low :: middle :: high :: code :: rest =>
      if [low, middle, high, code] = terminator then .ok []
      else
        match decodeRecord index low middle high code with
        | .error error => .error error
        | .ok instruction =>
            match decodeFrom (index + 1) rest with
            | .error error => .error error
            | .ok later => .ok (instruction :: later)
  | _ => .error (.truncatedRecord (4 * index))

/-- The first jump among the instructions, numbered from `index`, that leads past
the given size. -/
def firstEscape? (size index : Nat) : List Instruction -> Option ProgramError
  | [] => none
  | instruction :: later =>
      match instruction.label? with
      | some target =>
          if size < target then some (.invalidJumpTarget index target)
          else firstEscape? size (index + 1) later
      | none => firstEscape? size (index + 1) later

/-- The program of the given instructions, whose labels are the indices they
stand for. -/
def programOf (instructions : List Instruction) : Program where
  code := instructions.toArray
  labels := (instructions.filterMap Instruction.label?).foldl
    (fun labels label => labels.insert label label) Table.empty
  comments := none

def decode (bytes : List UInt8) : Except ProgramError Program :=
  match decodeFrom 0 bytes with
  | .error error => .error error
  | .ok instructions =>
      match firstEscape? instructions.length 0 instructions with
      | some error => .error error
      | none => .ok (programOf instructions)

end Records
end HangulPane
