import HangulPane.Console.Warnings

namespace HangulPane

/-!
Everything that a running program talks to: its input, its output and the
warnings.  The output is flushed before every read, so that a dialogue shows in
order, and before every warning, also one that stays silent.  Where the flush
fails, neither is done.
-/

/-- The outside of a running program. -/
structure Console where
  input : Input
  output : Sink
  flushes : Flushes
  warnings : Warnings
  deriving DecidableEq, Repr

namespace Console

/-- A console on which nothing has happened yet. -/
def start (input : Input) (outputLimit : Option Nat) (warnings : Warnings) : Console where
  input := input
  output := Sink.fresh outputLimit
  flushes := Flushes.fresh none
  warnings := warnings

def flush (console : Console) : Except ChannelFault Unit × Console :=
  let (result, flushes) := console.flushes.flush
  (result, { console with flushes })

/-- Flush the output, and go on unless that fails. -/
def flushThen {Result : Type} (console : Console)
    (next : Console -> Except ChannelFault Result × Console) :
    Except ChannelFault Result × Console :=
  match console.flush with
  | (.error fault, console) => (.error fault, console)
  | (.ok (), console) => next console

/-- Read a number, if there is one. -/
def readNumber {N : Type} [Number N] (console : Console) :
    Except ChannelFault (Option N) × Console :=
  console.flushThen fun console =>
    let (result, input) : Except ChannelFault (Option N) × Input := console.input.readNumber
    (result, { console with input })

/-- Read a character as its code point. -/
def readChar {N : Type} [Number N] (console : Console) : Except ChannelFault N × Console :=
  console.flushThen fun console =>
    let (result, input) := console.input.readChar
    (result.map Number.ofLiteral, { console with input })

def write (console : Console) (bytes : List UInt8) : Except ChannelFault Unit × Console :=
  let (result, output) := console.output.write bytes
  (result, { console with output })

/-- Write a number in decimal. -/
def writeNumber {N : Type} [Number N] (console : Console) (value : N) :
    Except ChannelFault Unit × Console :=
  console.write (Utf8.encode (Number.toDecimal value).toList)

/-- Warn that a value, given in hexadecimal, is no code point. -/
def warnRange (console : Console) (hex : String) : Except ChannelFault Unit × Console :=
  let (result, warnings) := console.warnings.warnRange hex
  (result, { console with warnings })

/-- Warn that a value, given in hexadecimal, is no code point, and write the
replacement character for it. -/
def writeReplacement (console : Console) (hex : String) :
    Except ChannelFault Unit × Console :=
  match console.warnRange hex with
  | (.error fault, console) => (.error fault, console)
  | (.ok (), console) => console.write (String.utf8EncodeChar Utf8.replacement)

/-- Write a character, or the replacement character for a value that is no code
point. -/
def writeChar {N : Type} [Number N] (console : Console) (value : N) :
    Except ChannelFault Unit × Console :=
  match Number.toChar? value with
  | some c => console.write (String.utf8EncodeChar c)
  | none =>
      console.flushThen fun console => console.writeReplacement (Number.toHex value)

def withoutOutput (console : Console) : Console :=
  { console with output := console.output.emptied }

/-! A flush, and a read behind it, touch neither what was written nor the warnings. -/

theorem flushThen_cases {Result : Type} (console : Console)
    (next : Console -> Except ChannelFault Result × Console) :
    (∃ fault, console.flush.1 = .error fault ∧
        console.flushThen next = (.error fault, console.flush.2)) ∨
      console.flush.1 = .ok () ∧ console.flushThen next = next console.flush.2 := by
  unfold flushThen
  rcases console.flush with ⟨fault | _, flushed⟩
  · exact .inl ⟨fault, rfl, rfl⟩
  · exact .inr ⟨rfl, rfl⟩

@[simp]
theorem output_readNumber {N : Type} [Number N] (console : Console) :
    (console.readNumber : Except ChannelFault (Option N) × Console).2.output =
      console.output := by
  unfold readNumber
  rcases console.flushThen_cases _ with ⟨fault, _, fails⟩ | ⟨_, goesOn⟩
  · rw [fails]
    rfl
  · rw [goesOn]
    rfl

@[simp]
theorem output_readChar {N : Type} [Number N] (console : Console) :
    (console.readChar : Except ChannelFault N × Console).2.output = console.output := by
  unfold readChar
  rcases console.flushThen_cases _ with ⟨fault, _, fails⟩ | ⟨_, goesOn⟩
  · rw [fails]
    rfl
  · rw [goesOn]
    rfl

end Console
end HangulPane
