import HangulPane.Number.Combine

namespace HangulPane

/-!
One storage of a machine: a stack, the queue or the passage.

A stack gives out the value pushed last, the queue the value pushed first.  The
passage is a stack that remembers its last push, and duplicating on it repeats that
push instead of the top.  All operations act on the end from which values are
given out, except that the queue takes new values, and the results of binary
operations, at its other end.
-/

/-- Why an operation on a storage fails. -/
inductive SpaceFault where
  /-- Fewer values than the operation needs. -/
  | underflow (required available : Nat)
  /-- The operation has no result on the values it took. -/
  | arithmetic (fault : ArithmeticFault)
  deriving DecidableEq, Repr

/-- A storage.  The items are listed in the order in which they are given out. -/
inductive Space (N : Type) where
  | stack (items : List N)
  | queue (items : List N)
  | passage (items : List N) (lastPush : N)
  deriving Repr

namespace Space

variable {N : Type}

/-- The items, the next one to be given out first. -/
def items : Space N -> List N
  | .stack items => items
  | .queue items => items
  | .passage items _ => items

def size (space : Space N) : Nat :=
  space.items.length

def isEmpty (space : Space N) : Bool :=
  space.size == 0

/-- The items in the order in which they stand: bottom to top, or front to back. -/
def contents : Space N -> List N
  | .stack items => items.reverse
  | .queue items => items
  | .passage items _ => items.reverse

/-- The last value pushed, which only the passage remembers. -/
def lastPush? : Space N -> Option N
  | .passage _ lastPush => some lastPush
  | _ => none

def withItems (items : List N) : Space N -> Space N
  | .stack _ => .stack items
  | .queue _ => .queue items
  | .passage _ lastPush => .passage items lastPush

def push (value : N) : Space N -> Space N
  | .stack items => .stack (value :: items)
  | .queue items => .queue (items ++ [value])
  | .passage items _ => .passage (value :: items) value

def peek? (space : Space N) : Option N :=
  space.items.head?

def pop (space : Space N) : Except SpaceFault (N × Space N) :=
  match space.items with
  | [] => .error (.underflow 1 0)
  | value :: rest => .ok (value, space.withItems rest)

/-- The storage with its next value doubled, or the last push on the passage. -/
def dup (space : Space N) : Except SpaceFault (Space N) :=
  match space.items with
  | [] => .error (.underflow 1 0)
  | value :: rest =>
      .ok (space.withItems ((space.lastPush?.getD value) :: value :: rest))

/-- The storage with its next two values exchanged. -/
def swap (space : Space N) : Except SpaceFault (Space N) :=
  match space.items with
  | first :: second :: rest => .ok (space.withItems (second :: first :: rest))
  | items => .error (.underflow 2 items.length)

/-- The storage with the result of a binary operation where it belongs: in front
of what is left, or at the back of the queue. -/
def putResult (value : N) (rest : List N) : Space N -> Space N
  | .queue _ => .queue (rest ++ [value])
  | other => other.withItems (value :: rest)

/-- What is left of the two operands when their operation fails: a stack and the
passage keep the left one, the queue has lost both. -/
def keepAfterFailure (left : N) (rest : List N) : Space N -> Space N
  | .queue _ => .queue rest
  | other => other.withItems (left :: rest)

/-- Combine the next two values, the first of which is the right operand.  The
storage is what it is afterwards, also if the operation fails. -/
def binary [Number N] (operation : Opcode) (space : Space N) :
    Except SpaceFault Unit × Space N :=
  match space.items with
  | right :: left :: rest =>
      match Number.combine operation left right with
      | .ok value => (.ok (), space.putResult value rest)
      | .error fault => (.error (.arithmetic fault), space.keepAfterFailure left rest)
  | items => (.error (.underflow 2 items.length), space)

end Space
end HangulPane
