import HangulPane.Console.Input
import HangulPane.Space
import HangulPane.Text.Decimal

namespace HangulPane

/-!
The faults that end the run of a program.
-/

/-- A fault, with the index of the instruction at which it arose. -/
inductive Fault where
  | divisionByZero (index : Nat)
  | moduloByZero (index : Nat)
  | underflow (index slot required available : Nat)
  /-- The instruction names a storage that does not exist. -/
  | invalidStorage (index slot : Nat)
  /-- The input is not a number, or not one that can be held. -/
  | invalidNumber (index : Nat)
  | overflow (index : Nat)
  /-- Talking to the outside failed. -/
  | channel (fault : ChannelFault)
  deriving DecidableEq, Repr

namespace Fault

def message : Fault -> String
  | .divisionByZero index => "Division by zero at L" ++ Decimal.ofNat index
  | .moduloByZero index => "Modulo by zero at L" ++ Decimal.ofNat index
  | .underflow index slot required available =>
      "Storage " ++ Decimal.ofNat slot ++ " underflow at L" ++ Decimal.ofNat index ++ ": " ++
        Decimal.ofNat required ++ " values required, " ++ Decimal.ofNat available ++
        " available"
  | .invalidStorage index slot =>
      "Invalid storage " ++ Decimal.ofNat slot ++ " at L" ++ Decimal.ofNat index
  | .invalidNumber index => "Input is not a valid number at L" ++ Decimal.ofNat index
  | .overflow index => "Integer overflow at L" ++ Decimal.ofNat index
  | .channel fault => "I/O error: " ++ fault.message

def ofSpace (index slot : Nat) : SpaceFault -> Fault
  | .underflow required available => .underflow index slot required available
  | .arithmetic .divisionByZero => .divisionByZero index
  | .arithmetic .moduloByZero => .moduloByZero index
  | .arithmetic .overflow => .overflow index

end Fault
end HangulPane
