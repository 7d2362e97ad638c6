import HangulPane.Console.Input

namespace HangulPane

/-!
Where bytes are written to.  A sink may accept only so many bytes in all; a write
that does not fit leaves the bytes that do and then fails.  It may also let itself
be flushed only so many times.
-/

structure Sink where
  written : Array UInt8
  /-- How many bytes the sink accepts in all; no limit if there is none. -/
  limit : Option Nat
  deriving DecidableEq, Repr

namespace Sink

def fresh (limit : Option Nat) : Sink where
  written := #[]
  limit := limit

/-- How many of the given number of further bytes the sink accepts. -/
def room (sink : Sink) (wanted : Nat) : Nat :=
  match sink.limit with
  | none => wanted
  | some limit => min wanted (limit - sink.written.size)

def write (sink : Sink) (bytes : List UInt8) : Except ChannelFault Unit × Sink :=
  let accepted := sink.room bytes.length
  let result := if accepted = bytes.length then .ok () else .error .outputClosed
  (result, { sink with written := sink.written ++ bytes.take accepted })

def writeText (sink : Sink) (text : String) : Except ChannelFault Unit × Sink :=
  sink.write (Utf8.encode text.toList)

def emptied (sink : Sink) : Sink :=
  { sink with written := #[] }

end Sink

structure Flushes where
  /-- How many there were, those that failed included. -/
  count : Nat
  /-- How many succeed; all of them if there is none. -/
  limit : Option Nat
  deriving DecidableEq, Repr

namespace Flushes

def fresh (limit : Option Nat) : Flushes where
  count := 0
  limit := limit

/-- Whether the next flush succeeds. -/
def isOpen (flushes : Flushes) : Bool :=
  match flushes.limit with
  | none => true
  | some limit => decide (flushes.count < limit)

def flush (flushes : Flushes) : Except ChannelFault Unit × Flushes :=
  let result := if flushes.isOpen then .ok () else .error .outputClosed
  (result, { flushes with count := flushes.count + 1 })

end Flushes
end HangulPane
