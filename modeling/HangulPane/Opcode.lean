namespace HangulPane

/-!
The operations of the machine, their numbers, names and effect on the depth of
the selected storage.

Operations that a syllable can spell carry the index of its initial consonant as
their number; the derived input and output operations follow, and the operations
that only linear code has are numbered downward from minus one.
-/

/-- An operation, without its operand. -/
inductive Opcode where
  | div
  | add
  | mul
  | mod
  | pop
  | push
  | dup
  | sel
  | mov
  | noop
  | cmp
  | brz
  | sub
  | swap
  | halt
  | popNum
  | popChar
  | pushNum
  | pushChar
  | brPop2
  | brPop1
  | jmp
  deriving DecidableEq, Repr

namespace Opcode

/-- Every operation, in the order of their numbers with the control operations last. -/
def all : List Opcode :=
  [.div, .add, .mul, .mod, .pop, .push, .dup, .sel, .mov, .noop, .cmp, .brz, .sub,
    .swap, .halt, .popNum, .popChar, .pushNum, .pushChar, .brPop2, .brPop1, .jmp]

def code : Opcode -> Int
  | .div => 2
  | .add => 3
  | .mul => 4
  | .mod => 5
  | .pop => 6
  | .push => 7
  | .dup => 8
  | .sel => 9
  | .mov => 10
  | .noop => 11
  | .cmp => 12
  | .brz => 14
  | .sub => 16
  | .swap => 17
  | .halt => 18
  | .popNum => 19
  | .popChar => 20
  | .pushNum => 21
  | .pushChar => 22
  | .brPop2 => -3
  | .brPop1 => -2
  | .jmp => -1

def ofCode? (number : Int) : Option Opcode :=
  all.find? fun operation => operation.code == number

def name : Opcode -> String
  | .div => "DIV"
  | .add => "ADD"
  | .mul => "MUL"
  | .mod => "MOD"
  | .pop => "POP"
  | .push => "PUSH"
  | .dup => "DUP"
  | .sel => "SEL"
  | .mov => "MOV"
  | .noop => "NONE"
  | .cmp => "CMP"
  | .brz => "BRZ"
  | .sub => "SUB"
  | .swap => "SWAP"
  | .halt => "HALT"
  | .popNum => "POPNUM"
  | .popChar => "POPCHAR"
  | .pushNum => "PUSHNUM"
  | .pushChar => "PUSHCHAR"
  | .brPop2 => "BRPOP2"
  | .brPop1 => "BRPOP1"
  | .jmp => "JMP"

def ofName? (name : String) : Option Opcode :=
  all.find? fun operation => operation.name == name

/-- The operation that the initial consonant of a syllable spells.  Consonants
without an effect spell `noop`. -/
def ofInitial : Nat -> Opcode
  | 2 => .div
  | 3 => .add
  | 4 => .mul
  | 5 => .mod
  | 6 => .pop
  | 7 => .push
  | 8 => .dup
  | 9 => .sel
  | 10 => .mov
  | 12 => .cmp
  | 14 => .brz
  | 16 => .sub
  | 17 => .swap
  | 18 => .halt
  | _ => .noop

/-- How many values the selected storage has to hold before the operation. -/
def requiredDepth : Opcode -> Nat
  | .div | .add | .mul | .mod | .cmp | .sub | .swap | .brPop2 => 2
  | .pop | .dup | .mov | .brz | .popNum | .popChar | .brPop1 => 1
  | _ => 0

/-- How many values the operation takes from the selected storage. -/
def taken : Opcode -> Nat
  | .div | .add | .mul | .mod | .cmp | .sub | .swap => 2
  | .pop | .dup | .mov | .brz | .popNum | .popChar => 1
  | _ => 0

/-- How many values the operation puts into the selected storage. -/
def given : Opcode -> Nat
  | .div | .add | .mul | .mod | .cmp | .sub | .push | .pushNum | .pushChar => 1
  | .dup | .swap => 2
  | _ => 0

def takesOperand : Opcode -> Bool
  | .push | .sel | .mov | .brz | .brPop2 | .brPop1 | .jmp => true
  | _ => false

/-- Whether control can go on in two places. -/
def isBranch : Opcode -> Bool
  | .brz | .brPop1 | .brPop2 => true
  | _ => false

def isJump : Opcode -> Bool
  | .brz | .brPop1 | .brPop2 | .jmp => true
  | _ => false

/-- Whether the operation tests the depth of the selected storage. -/
def isGuard : Opcode -> Bool
  | .brPop1 | .brPop2 => true
  | _ => false

/-- Whether the operation combines two values into one. -/
def isBinary : Opcode -> Bool
  | .div | .add | .mul | .mod | .cmp | .sub => true
  | _ => false

end Opcode
end HangulPane
