import HangulPane.Console.Sink
import HangulPane.Text.Decimal

namespace HangulPane

/-!
The warning that a written value is no code point, and its throttle.

The warning is given at most a limited number of times.  When the limit is reached
one more line says so, and from then on there is silence.  A limit of zero silences
the warning altogether, a negative limit lets every one through.  A warning that is
given is flushed.
-/

/-- The throttle of the warning and where the warning goes. -/
structure Warnings where
  /-- How often the warning may be given; always if negative. -/
  limit : Int
  /-- How often it was given. -/
  count : Nat
  sink : Sink
  flushes : Flushes
  deriving DecidableEq, Repr

namespace Warnings

def defaultLimit : Int := 3

def fresh (limit : Int) (sinkLimit : Option Nat) : Warnings where
  limit := limit
  count := 0
  sink := Sink.fresh sinkLimit
  flushes := Flushes.fresh none

/-- Whether a number of warnings has used up the limit. -/
def isExhausted (warnings : Warnings) (count : Nat) : Bool :=
  0 ≤ warnings.limit && warnings.limit ≤ count

/-- The warning that a value, given in hexadecimal, is no code point. -/
def rangeLine (hex : String) : String :=
  "[Warning:UndefinedBehavior:write-utf8-range] value " ++ hex ++
    " is out of unicode codepoint range.\n"

/-- The line that announces silence. -/
def limitLine (limit : Int) : String :=
  "[Warning:Meta] The warning 'write-utf8-range' has reached the limit " ++
    Decimal.ofInt limit ++ " and will be suppressed\n"

def writeLine (warnings : Warnings) (text : String) : Except ChannelFault Unit × Warnings :=
  let (result, sink) := warnings.sink.writeText text
  (result, { warnings with sink })

/-- Announce silence, if it is due. -/
def announce (warnings : Warnings) : Except ChannelFault Unit × Warnings :=
  if warnings.isExhausted warnings.count then
    warnings.writeLine (limitLine warnings.limit)
  else
    (.ok (), warnings)

def flush (warnings : Warnings) : Except ChannelFault Unit × Warnings :=
  let (result, flushes) := warnings.flushes.flush
  (result, { warnings with flushes })

/-- Warn that a value is no code point, unless the limit is used up. -/
def warnRange (warnings : Warnings) (hex : String) : Except ChannelFault Unit × Warnings :=
  if warnings.isExhausted warnings.count then (.ok (), warnings)
  else
    match { warnings with count := warnings.count + 1 }.writeLine (rangeLine hex) with
    | (.error fault, warnings) => (.error fault, warnings)
    | (.ok (), warnings) =>
        match warnings.announce with
        | (.error fault, warnings) => (.error fault, warnings)
        | (.ok (), warnings) => warnings.flush

end Warnings
end HangulPane
