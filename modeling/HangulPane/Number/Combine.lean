import HangulPane.Number.Basic
import HangulPane.Opcode

namespace HangulPane
namespace Number

/-!
The value of a binary operation.  The value taken from the storage first is the
right operand.
-/

variable {N : Type} [Number N]

/-- The value of `left operation right`.  A comparison yields one or zero, and an
operation that combines nothing yields its right operand. -/
def combine (operation : Opcode) (left right : N) : Except ArithmeticFault N :=
  match operation with
  | .add => add left right
  | .sub => sub left right
  | .mul => mul left right
  | .div => div left right
  | .mod => rem left right
  | .cmp => .ok (ofLiteral (if atLeast left right then 1 else 0))
  | _ => .ok right

end Number
end HangulPane
