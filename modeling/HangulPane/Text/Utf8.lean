namespace HangulPane
namespace Utf8

/-!
Text as bytes.

Encoding is the standard one to four byte form.  Decoding stops at the first
sequence that is no character and says where it starts and how long its
well-formed beginning is; a sequence that the end of the data cuts short is
told apart from one that a wrong byte breaks.
-/

/-- The bytes of a text. -/
def encode (text : List Char) : List UInt8 :=
  text.flatMap String.utf8EncodeChar

/-- Why a byte sequence is not text. -/
inductive Flaw where
  /-- A sequence broken after `length` bytes that could begin a character. -/
  | broken (length index : Nat)
  /-- The data ends inside a character. -/
  | cutShort (index : Nat)
  deriving DecidableEq, Repr

/-- The description of a flaw; positions count bytes from the start. -/
def Flaw.message : Flaw -> String
  | .broken length index =>
      "invalid utf-8 sequence of " ++ length.repr ++ " bytes from index " ++ index.repr
  | .cutShort index => "incomplete utf-8 byte sequence from index " ++ index.repr

/-- What stands at the start of a byte sequence. -/
inductive Lead where
  | finished
  | character (c : Char) (rest : List UInt8)
  /-- A broken sequence, of which `length` bytes could begin a character. -/
  | broken (length : Nat)
  /-- The beginning of a character that the data does not complete. -/
  | cutShort

/-- A byte of the form `10xxxxxx`. -/
def isContinuation (byte : UInt8) : Bool :=
  0x80 ≤ byte && byte ≤ 0xBF

/-- The number of bytes of the character that a byte announces, if it can begin
one. -/
def announcedLength (lead : UInt8) : Option Nat :=
  if lead < 0x80 then some 1
  else if 0xC2 ≤ lead && lead ≤ 0xDF then some 2
  else if 0xE0 ≤ lead && lead ≤ 0xEF then some 3
  else if 0xF0 ≤ lead && lead ≤ 0xF4 then some 4
  else none

/-- Whether a byte may stand second after the given lead byte.  Four lead bytes
narrow the range, so as to exclude overlong forms, surrogates and values past
the last code point. -/
def mayFollow (lead second : UInt8) : Bool :=
  if lead = 0xE0 then 0xA0 ≤ second && second ≤ 0xBF
  else if lead = 0xED then 0x80 ≤ second && second ≤ 0x9F
  else if lead = 0xF0 then 0x90 ≤ second && second ≤ 0xBF
  else if lead = 0xF4 then 0x80 ≤ second && second ≤ 0x8F
  else isContinuation second

/-- The six bits that a continuation byte carries. -/
def payload (byte : UInt8) : Nat :=
  byte.toNat % 64

/-- Read the character at the start of the data. -/
def lead : List UInt8 -> Lead
  | [] => .finished
  | first :: rest =>
      match announcedLength first with
      | none => .broken 1
      | some 1 => .character (Char.ofNat first.toNat) rest
      | some length =>
          match rest with
          | [] => .cutShort
          | second :: rest =>
              if !mayFollow first second then .broken 1
              else if length = 2 then
                .character (Char.ofNat (first.toNat % 32 * 64 + payload second)) rest
              else
                match rest with
                | [] => .cutShort
                | third :: rest =>
                    if !isContinuation third then .broken 2
                    else if length = 3 then
                      .character
                        (Char.ofNat ((first.toNat % 16 * 64 + payload second) * 64 +
                          payload third)) rest
                    else
                      match rest with
                      | [] => .cutShort
                      | fourth :: rest =>
                          if !isContinuation fourth then .broken 3
                          else
                            .character
                              (Char.ofNat (((first.toNat % 8 * 64 + payload second) * 64 +
                                payload third) * 64 + payload fourth)) rest

/-- A character takes at least one byte, so reading one shortens the data. -/
theorem length_lt_of_lead {bytes rest : List UInt8} {c : Char}
    (read : lead bytes = .character c rest) : rest.length < bytes.length := by
  cases bytes with
  | nil => simp [lead] at read
  | cons first tail =>
      simp only [lead] at read
      split at read <;> try contradiction
      · cases read; simp
      · split at read <;> try contradiction
        split at read <;> try contradiction
        split at read
        · cases read; simp only [List.length_cons]; omega
        · split at read <;> try contradiction
          split at read <;> try contradiction
          split at read
          · cases read; simp only [List.length_cons]; omega
          · split at read <;> try contradiction
            split at read <;> try contradiction
            cases read; simp only [List.length_cons]; omega

/-- The characters of the data from `index` on, or the first flaw. -/
def decodeFrom (index : Nat) (bytes : List UInt8) : Except Flaw (List Char) :=
  match read : lead bytes with
  | .finished => .ok []
  | .broken length => .error (.broken length index)
  | .cutShort => .error (.cutShort index)
  | .character c rest =>
      have := length_lt_of_lead read
      match decodeFrom (index + (bytes.length - rest.length)) rest with
      | .ok later => .ok (c :: later)
      | .error flaw => .error flaw
termination_by bytes.length

/-- The text that the bytes encode, or the first flaw. -/
def decode (bytes : List UInt8) : Except Flaw (List Char) :=
  decodeFrom 0 bytes

/-- The character that stands for what cannot be shown. -/
def replacement : Char := '\uFFFD'

/-- The text of the bytes for showing: every broken sequence, and a character
that the end cuts short, become the replacement character. -/
def decodeLeniently (bytes : List UInt8) : List Char :=
  match read : lead bytes with
  | .finished => []
  | .cutShort => [replacement]
  | .character c rest =>
      have := length_lt_of_lead read
      c :: decodeLeniently rest
  | .broken length =>
      if _shorter : bytes.length - length < bytes.length then
        replacement :: decodeLeniently (bytes.drop length)
      else
        [replacement]
termination_by bytes.length

end Utf8
end HangulPane
