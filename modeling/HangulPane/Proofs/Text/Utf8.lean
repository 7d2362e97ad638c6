import HangulPane.Text.Utf8

namespace HangulPane
namespace Utf8

/-!
Text survives its bytes.

The bytes of a character fall into four shapes by their number.  In each shape the first byte
announces how many there are, the others are continuation bytes, and the payloads of all of them
make up the code point.  So reading the bytes of a text gives the text back, whatever follows.
-/

/-- The bytes of a character, by their number.  Bounds on the second byte keep out what a shorter
form can hold, surrogates, and what is past the last code point. -/
inductive Encodes (c : Char) : List UInt8 -> Prop where
  | one (first : UInt8) (low : first.toNat < 0x80) (code : c.toNat = first.toNat) :
      Encodes c [first]
  | two (first second : UInt8) (least : 0xC2 ≤ first.toNat) (most : first.toNat ≤ 0xDF)
      (follows : mayFollow first second = true)
      (code : c.toNat = first.toNat % 32 * 64 + payload second) :
      Encodes c [first, second]
  | three (first second third : UInt8) (least : 0xE0 ≤ first.toNat) (most : first.toNat ≤ 0xEF)
      (follows : mayFollow first second = true) (continues : isContinuation third = true)
      (code : c.toNat = (first.toNat % 16 * 64 + payload second) * 64 + payload third) :
      Encodes c [first, second, third]
  | four (first second third fourth : UInt8) (least : 0xF0 ≤ first.toNat)
      (most : first.toNat ≤ 0xF4) (follows : mayFollow first second = true)
      (continues : isContinuation third = true) (closes : isContinuation fourth = true)
      (code : c.toNat = ((first.toNat % 8 * 64 + payload second) * 64 + payload third) * 64 +
        payload fourth) :
      Encodes c [first, second, third, fourth]

theorem isContinuation_iff (byte : UInt8) :
    isContinuation byte = true <-> 0x80 ≤ byte.toNat ∧ byte.toNat ≤ 0xBF := by
  simp [isContinuation, UInt8.le_iff_toNat_le]

/-- What a lead byte asks of the byte behind it, in numbers. -/
theorem mayFollow_iff (lead second : UInt8) :
    mayFollow lead second = true <->
      (0x80 ≤ second.toNat ∧ second.toNat ≤ 0xBF) ∧
        (lead.toNat = 0xE0 -> 0xA0 ≤ second.toNat) ∧
        (lead.toNat = 0xED -> second.toNat ≤ 0x9F) ∧
        (lead.toNat = 0xF0 -> 0x90 ≤ second.toNat) ∧
        (lead.toNat = 0xF4 -> second.toNat ≤ 0x8F) := by
  simp only [mayFollow, isContinuation, ← UInt8.toNat_inj, UInt8.reduceToNat]
  -- Each of the four special lead bytes, and all others, leave a range of their own.
  repeat' split
  all_goals
    simp only [Bool.and_eq_true, decide_eq_true_eq, UInt8.le_iff_toNat_le, UInt8.reduceToNat]
    omega

theorem toNat_valid (c : Char) : c.toNat < 0xD800 ∨ 0xDFFF < c.toNat ∧ c.toNat < 0x110000 :=
  c.valid

theorem encodes_utf8EncodeChar (c : Char) : Encodes c (String.utf8EncodeChar c) := by
  have valid := toNat_valid c
  have same : c.val.toNat = c.toNat := rfl
  unfold String.utf8EncodeChar
  dsimp only
  rw [same]
  split
  · have number := UInt8.toNat_ofNat_of_lt' (show c.toNat < 256 by omega)
    exact .one _ (by omega) number.symm
  split
  · have first := UInt8.toNat_ofNat_of_lt' (show c.toNat / 64 % 32 + 192 < 256 by omega)
    have second := UInt8.toNat_ofNat_of_lt' (show c.toNat % 64 + 128 < 256 by omega)
    refine .two _ _ (by omega) (by omega) ?_ ?_
    · rw [mayFollow_iff, first, second]
      omega
    · rw [payload, first, second]
      omega
  split
  · have first := UInt8.toNat_ofNat_of_lt' (show c.toNat / 4096 % 16 + 224 < 256 by omega)
    have second := UInt8.toNat_ofNat_of_lt' (show c.toNat / 64 % 64 + 128 < 256 by omega)
    have third := UInt8.toNat_ofNat_of_lt' (show c.toNat % 64 + 128 < 256 by omega)
    refine .three _ _ _ (by omega) (by omega) ?_ ?_ ?_
    · rw [mayFollow_iff, first, second]
      omega
    · rw [isContinuation_iff, third]
      omega
    · rw [payload, payload, first, second, third]
      omega
  · have first := UInt8.toNat_ofNat_of_lt' (show c.toNat / 262144 % 8 + 240 < 256 by omega)
    have second := UInt8.toNat_ofNat_of_lt' (show c.toNat / 4096 % 64 + 128 < 256 by omega)
    have third := UInt8.toNat_ofNat_of_lt' (show c.toNat / 64 % 64 + 128 < 256 by omega)
    have fourth := UInt8.toNat_ofNat_of_lt' (show c.toNat % 64 + 128 < 256 by omega)
    refine .four _ _ _ _ (by omega) (by omega) ?_ ?_ ?_ ?_
    · rw [mayFollow_iff, first, second]
      omega
    · rw [isContinuation_iff, third]
      omega
    · rw [isContinuation_iff, fourth]
      omega
    · rw [payload, payload, payload, first, second, third, fourth]
      omega

/-- How many bytes a first byte announces, by its number. -/
theorem announcedLength_eq (first : UInt8) :
    announcedLength first =
      if first.toNat < 0x80 then some 1
      else if 0xC2 ≤ first.toNat ∧ first.toNat ≤ 0xDF then some 2
      else if 0xE0 ≤ first.toNat ∧ first.toNat ≤ 0xEF then some 3
      else if 0xF0 ≤ first.toNat ∧ first.toNat ≤ 0xF4 then some 4
      else none := by
  simp only [announcedLength, Bool.and_eq_true, decide_eq_true_eq, UInt8.le_iff_toNat_le,
    UInt8.lt_iff_toNat_lt, UInt8.reduceToNat]

/-- The bytes of a character are read as that character, whatever follows them. -/
theorem Encodes.lead {c : Char} {bytes : List UInt8} (encodes : Encodes c bytes)
    (rest : List UInt8) : Utf8.lead (bytes ++ rest) = .character c rest := by
  cases encodes with
  | one first low code =>
      have announces : announcedLength first = some 1 := by
        rw [announcedLength_eq, if_pos low]
      simp [Utf8.lead, announces, ← code]
  | two first second least most follows code =>
      have announces : announcedLength first = some 2 := by
        rw [announcedLength_eq, if_neg (by omega), if_pos ⟨least, most⟩]
      simp [Utf8.lead, announces, follows, ← code]
  | three first second third least most follows continues code =>
      have announces : announcedLength first = some 3 := by
        rw [announcedLength_eq, if_neg (by omega), if_neg (by omega), if_pos ⟨least, most⟩]
      simp [Utf8.lead, announces, follows, continues, ← code]
  | four first second third fourth least most follows continues closes code =>
      have announces : announcedLength first = some 4 := by
        rw [announcedLength_eq, if_neg (by omega), if_neg (by omega), if_neg (by omega),
          if_pos ⟨least, most⟩]
      simp [Utf8.lead, announces, follows, continues, closes, ← code]

theorem lead_utf8EncodeChar (c : Char) (rest : List UInt8) :
    lead (String.utf8EncodeChar c ++ rest) = .character c rest :=
  (encodes_utf8EncodeChar c).lead rest

theorem encode_nil : encode [] = [] := rfl

theorem encode_cons (c : Char) (text : List Char) :
    encode (c :: text) = String.utf8EncodeChar c ++ encode text := rfl

theorem utf8EncodeChar_of_ascii {c : Char} (ascii : c.toNat < 0x80) :
    String.utf8EncodeChar c = [UInt8.ofNat c.toNat] := by
  have low : c.val.toNat ≤ 0x7F := Nat.le_of_lt_succ ascii
  simp only [String.utf8EncodeChar, if_pos low]
  rfl

/-- A text of ASCII characters has a byte for each of them. -/
theorem encode_of_ascii {text : List Char} (ascii : forall c, c ∈ text -> c.toNat < 0x80) :
    encode text = text.map fun c => UInt8.ofNat c.toNat := by
  induction text with
  | nil => rfl
  | cons c text inductionHypothesis =>
      rw [encode_cons, utf8EncodeChar_of_ascii (ascii c List.mem_cons_self),
        inductionHypothesis fun c member => ascii c (List.mem_cons_of_mem _ member)]
      rfl

theorem decodeFrom_encode (text : List Char) :
    forall index, decodeFrom index (encode text) = .ok text := by
  induction text with
  | nil =>
      intro index
      rw [encode_nil, decodeFrom]
      rfl
  | cons c text inductionHypothesis =>
      intro index
      have read := lead_utf8EncodeChar c (encode text)
      rw [encode_cons, decodeFrom]
      split
      all_goals
        rename_i found
        rw [read] at found
        cases found
      rw [inductionHypothesis]

/-- The bytes of a text are read as that text. -/
theorem decode_encode (text : List Char) : decode (encode text) = .ok text :=
  decodeFrom_encode text 0

end Utf8
end HangulPane
