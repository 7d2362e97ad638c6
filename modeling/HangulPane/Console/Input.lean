import HangulPane.Number.Basic
import HangulPane.Text.Utf8

namespace HangulPane

/-!
The input of a running program.

Bytes are taken from their source one at a time and only as many as a read needs;
they wait in a buffer until they are used up.  The source may report an
interruption before any byte, after which it is simply asked again.  When it has
no more bytes it either tells the end or fails, every time it is asked.

Reading a number skips white space, takes an optional minus sign and digits, and
uses up one space, tab or line feed behind them.  Reading a character takes as
many bytes as the first one announces by its leading bits.
-/

/-- Why talking to the outside fails. -/
inductive ChannelFault where
  | inputFailed
  | outputClosed
  deriving DecidableEq, Repr

namespace ChannelFault

def message : ChannelFault -> String
  | .inputFailed => "input failed"
  | .outputClosed => "output closed"

end ChannelFault

/-- What the source of the input delivers when it is asked. -/
inductive Arrival where
  | byte (value : UInt8)
  | interrupted
  deriving DecidableEq, Repr

structure Input where
  /-- Bytes taken from the source and not yet used up. -/
  buffer : List UInt8
  /-- What the source is going to deliver. -/
  arrivals : List Arrival
  /-- Whether the source fails after that, rather than tell the end. -/
  failing : Bool
  deriving DecidableEq, Repr

namespace Input

/-- Input of the given bytes, without interruption or failure. -/
def ofBytes (bytes : List UInt8) : Input where
  buffer := []
  arrivals := bytes.map Arrival.byte
  failing := false

/-- Input whose source has nothing to deliver yet.  A read that needs more fails, and
can be made again on the same input once more has arrived. -/
def awaiting : Input where
  buffer := []
  arrivals := []
  failing := true

def receive (bytes : List UInt8) (input : Input) : Input :=
  { input with arrivals := input.arrivals ++ bytes.map Arrival.byte }

def close (input : Input) : Input :=
  { input with failing := false }

/-- The buffer after asking the source until it holds the given number of bytes,
with what the source still has to deliver and whether it failed. -/
def fill (wanted : Nat) (failing : Bool) (buffer : List UInt8) :
    List Arrival -> Except ChannelFault Unit × List UInt8 × List Arrival
  | [] =>
      if wanted ≤ buffer.length ∨ !failing then (.ok (), buffer, [])
      else (.error .inputFailed, buffer, [])
  | arrival :: later =>
      if wanted ≤ buffer.length then (.ok (), buffer, arrival :: later)
      else
        match arrival with
        | .byte value => fill wanted failing (buffer ++ [value]) later
        | .interrupted => fill wanted failing buffer later

/-- Make the buffer hold the given number of bytes, unless the input ends before. -/
def demand (wanted : Nat) (input : Input) : Except ChannelFault Unit × Input :=
  let (result, buffer, arrivals) := fill wanted input.failing input.buffer input.arrivals
  (result, { input with buffer, arrivals })

/-- The next byte, which stays in the buffer; nothing at the end. -/
def look (input : Input) : Except ChannelFault (Option UInt8) × Input :=
  match input.demand 1 with
  | (.error fault, input) => (.error fault, input)
  | (.ok (), input) => (.ok input.buffer.head?, input)

def drop (count : Nat) (input : Input) : Input :=
  { input with buffer := input.buffer.drop count }

/-- How many bytes there still are at most, as a bound for reading on. -/
def remaining (input : Input) : Nat :=
  input.buffer.length + input.arrivals.length

/-- White space between numbers: space, tab, line feed, form feed, carriage
return. -/
def isWhiteSpace (byte : UInt8) : Bool :=
  byte == 0x20 || byte == 0x09 || byte == 0x0A || byte == 0x0C || byte == 0x0D

def isDigit (byte : UInt8) : Bool :=
  0x30 ≤ byte && byte ≤ 0x39

/-- Whether a byte ends a number and is used up with it. -/
def isTerminator (byte : UInt8) : Bool :=
  byte == 0x20 || byte == 0x09 || byte == 0x0A

/-- Use up the bytes at the front that satisfy a condition, looking at no more
than the given number of bytes. -/
def takeWhile (accept : UInt8 -> Bool) : Nat -> Input ->
    Except ChannelFault (List UInt8) × Input
  | 0, input => (.ok [], input)
  | bound + 1, input =>
      match input.look with
      | (.error fault, input) => (.error fault, input)
      | (.ok none, input) => (.ok [], input)
      | (.ok (some byte), input) =>
          if accept byte then
            match takeWhile accept bound (input.drop 1) with
            | (.error fault, input) => (.error fault, input)
            | (.ok later, input) => (.ok (byte :: later), input)
          else
            (.ok [], input)

/-- Use up all bytes at the front that satisfy a condition.  The byte after them
is looked at, also when there are no more. -/
def takeAll (accept : UInt8 -> Bool) (input : Input) :
    Except ChannelFault (List UInt8) × Input :=
  takeWhile accept (input.remaining + 1) input

/-- Use up the next byte if it is the given one. -/
def takeByte (wanted : UInt8) (input : Input) : Except ChannelFault Bool × Input :=
  match input.look with
  | (.error fault, input) => (.error fault, input)
  | (.ok next, input) =>
      if next = some wanted then (.ok true, input.drop 1) else (.ok false, input)

/-- The input after a number: its terminator is used up, if it has one. -/
def dropTerminator (input : Input) : Input :=
  match input.buffer with
  | byte :: rest => if isTerminator byte then { input with buffer := rest } else input
  | [] => input

def asciiChar (byte : UInt8) : Char :=
  Char.ofNat byte.toNat

/-- Read a number.  There is none if no digit is found, or if the value cannot be
held. -/
def readNumber {N : Type} [Number N] (input : Input) :
    Except ChannelFault (Option N) × Input :=
  match input.takeAll isWhiteSpace with
  | (.error fault, input) => (.error fault, input)
  | (.ok _, input) =>
      match input.takeByte 0x2D with
      | (.error fault, input) => (.error fault, input)
      | (.ok negative, input) =>
          match input.takeAll isDigit with
          | (.error fault, input) => (.error fault, input)
          | (.ok digits, input) =>
              let input := input.dropTerminator
              if digits.isEmpty then (.ok none, input)
              else
                let sign := if negative then ['-'] else []
                (.ok (Number.ofNumeral? (sign ++ digits.map asciiChar)), input)

/-- The number of bytes that a first byte announces by its leading bits; nothing
for a continuation byte. -/
def announced (lead : UInt8) : Option Nat :=
  if lead < 0x80 then some 1
  else if lead &&& 0xF0 = 0xF0 then some 4
  else if lead &&& 0xE0 = 0xE0 then some 3
  else if lead &&& 0xC0 = 0xC0 then some 2
  else none

/-- The code point of the character that the bytes encode, or minus one. -/
def codePoint (bytes : List UInt8) : Int64 :=
  match Utf8.decode bytes with
  | .ok (c :: _) => Int64.ofNat c.toNat
  | _ => -1

/-- Read a character as its code point; minus one at the end of the input and for
bytes that are no character. -/
def readChar (input : Input) : Except ChannelFault Int64 × Input :=
  match input.look with
  | (.error fault, input) => (.error fault, input)
  | (.ok none, input) => (.ok (-1), input)
  | (.ok (some lead), input) =>
      match announced lead with
      | none => (.ok (-1), input.drop 1)
      | some length =>
          match input.demand length with
          | (.error fault, input) => (.error fault, input)
          | (.ok (), input) =>
              let bytes := input.buffer.take length
              let rest := input.drop length
              if bytes.length < length then (.ok (-1), rest)
              else (.ok (codePoint bytes), rest)

end Input
end HangulPane
