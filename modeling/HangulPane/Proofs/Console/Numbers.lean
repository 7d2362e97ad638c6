import HangulPane.Proofs.Console.Echo
import HangulPane.Proofs.Console.Numeral
import HangulPane.Proofs.Console.Scanner
import HangulPane.Proofs.Text.Decimal

namespace HangulPane

/-!
Numbers that are written are read back.

The numeral of a number is a sign, if one is due, and digits, so it has no white space in it and ends
where white space begins.  A read uses up the numeral and at most one byte behind it, which is white
space too and would have been skipped by the next read.  So of numbers set out with white space
between them each read finds the next one.  A word is found where it can be held; where it cannot,
its digits are used up all the same.
-/

theorem Decimal.not_mem_underscore_ofInt (value : Int) : '_' ∉ (ofInt value).toList := by
  intro member
  rcases eq_minus_or_isDigit_of_mem_ofInt member with sign | digit
  · cases sign
  · cases digit

namespace Input

variable {N : Type} [Number N]

/-! ## Numerals -/

/-- The bytes that are written for a number. -/
def numeral (value : N) : List UInt8 :=
  Utf8.encode (Number.toDecimal value).toList

/-- The bytes of the digits of a number. -/
def digitBytes (magnitude : Nat) : List UInt8 :=
  (Decimal.ofNat magnitude).toList.map fun c => UInt8.ofNat c.toNat

theorem digit_bounds {c : Char} (digit : c.isDigit = true) : 0x30 ≤ c.toNat ∧ c.toNat ≤ 0x39 :=
  Char.isDigit_iff_toNat.mp digit

theorem isDigit_ofNat {c : Char} (digit : c.isDigit = true) :
    isDigit (UInt8.ofNat c.toNat) = true := by
  have bounds := digit_bounds digit
  have number := UInt8.toNat_ofNat_of_lt' (show c.toNat < 256 by omega)
  simp only [isDigit, Bool.and_eq_true, decide_eq_true_eq, UInt8.le_iff_toNat_le, number,
    UInt8.reduceToNat]
  exact bounds

theorem asciiChar_ofNat {c : Char} (ascii : c.toNat < 0x80) :
    asciiChar (UInt8.ofNat c.toNat) = c := by
  rw [asciiChar, UInt8.toNat_ofNat_of_lt' (show c.toNat < 256 by omega), Char.ofNat_toNat]

theorem isDigit_of_mem_digitBytes {magnitude : Nat} {byte : UInt8}
    (member : byte ∈ digitBytes magnitude) : isDigit byte = true := by
  obtain ⟨c, listed, rfl⟩ := List.mem_map.mp member
  exact isDigit_ofNat (Decimal.isDigit_of_mem_ofNat listed)

theorem digitBytes_ne_nil (magnitude : Nat) : digitBytes magnitude ≠ [] :=
  fun nothing => Decimal.toList_ofNat_ne_nil magnitude (List.map_eq_nil_iff.mp nothing)

theorem map_asciiChar_digitBytes (magnitude : Nat) :
    (digitBytes magnitude).map asciiChar = (Decimal.ofNat magnitude).toList := by
  rw [digitBytes, List.map_map]
  refine (List.map_congr_left fun c member => ?_).trans (List.map_id _)
  have bounds := digit_bounds (Decimal.isDigit_of_mem_ofNat member)
  exact asciiChar_ofNat (by omega)

/-- What is written for a number is a sign, if one is due, and digits. -/
theorem numeral_eq (value : N) :
    numeral value = (if Number.toInt value < 0 then [0x2D] else []) ++
      digitBytes (Number.toInt value).natAbs := by
  have ascii : forall c, c ∈ (Decimal.ofNat (Number.toInt value).natAbs).toList ->
      c.toNat < 0x80 := by
    intro c member
    have bounds := digit_bounds (Decimal.isDigit_of_mem_ofNat member)
    omega
  rw [numeral, Number.toDecimal_eq, Decimal.toList_ofInt, digitBytes, ← Utf8.encode_of_ascii ascii]
  split <;> rfl

/-! ## White space -/

/-- Whether bytes are white space. -/
def IsWhite (gap : List UInt8) : Prop :=
  forall byte, byte ∈ gap -> isWhiteSpace byte = true

instance (gap : List UInt8) : Decidable (IsWhite gap) :=
  List.decidableBAll (isWhiteSpace · = true) gap

/-- Whether no number is carried on by the bytes, as they begin with white space if there are any. -/
def SetsOff (bytes : List UInt8) : Prop :=
  forall byte, bytes.head? = some byte -> isWhiteSpace byte = true

theorem isDigit_of_isWhiteSpace {byte : UInt8} (white : isWhiteSpace byte = true) :
    isDigit byte = false := by
  simp only [isWhiteSpace, Bool.or_eq_true, beq_iff_eq] at white
  rcases white with (((rfl | rfl) | rfl) | rfl) | rfl <;> rfl

theorem isWhiteSpace_of_isTerminator {byte : UInt8} (ends : isTerminator byte = true) :
    isWhiteSpace byte = true := by
  simp only [isTerminator, Bool.or_eq_true, beq_iff_eq] at ends
  rcases ends with (rfl | rfl) | rfl <;> rfl

theorem IsWhite.dropWhile {gap : List UInt8} (white : IsWhite gap) (rest : List UInt8) :
    (gap ++ rest).dropWhile isWhiteSpace = rest.dropWhile isWhiteSpace :=
  List.dropWhile_append_of_pos white

theorem IsWhite.setsOff {gap : List UInt8} (white : IsWhite gap) : SetsOff gap :=
  fun _ front => white _ (List.mem_of_head? front)

/-- Bytes that set off what is in front of them begin with no digit. -/
theorem SetsOff.cut {rest : List UInt8} (setsOff : SetsOff rest) {digits : List UInt8}
    (listed : forall byte, byte ∈ digits -> isDigit byte = true) :
    (digits ++ rest).takeWhile isDigit = digits ∧ (digits ++ rest).dropWhile isDigit = rest := by
  rw [List.takeWhile_append_of_pos listed, List.dropWhile_append_of_pos listed]
  cases rest with
  | nil => exact ⟨List.append_nil digits, rfl⟩
  | cons byte rest =>
      have other : ¬ isDigit byte = true := by
        rw [isDigit_of_isWhiteSpace (setsOff byte rfl)]
        exact Bool.false_ne_true
      rw [List.takeWhile_cons_of_neg other, List.dropWhile_cons_of_neg other, List.append_nil]
      exact ⟨rfl, rfl⟩

/-- A terminator in front makes no difference to the number that is found. -/
theorem scanNumber_cutTerminator (bytes : List UInt8) :
    (scanNumber (cutTerminator bytes) : Option N × List UInt8) = scanNumber bytes := by
  have same : (cutTerminator bytes).dropWhile isWhiteSpace = bytes.dropWhile isWhiteSpace := by
    cases bytes with
    | nil => rfl
    | cons byte rest =>
        rw [cutTerminator]
        split
        next ends => rw [List.dropWhile_cons_of_pos (isWhiteSpace_of_isTerminator ends)]
        · rfl
  rw [scanNumber, scanNumber, same]

/-- There is no number in white space. -/
theorem scanNumber_of_isWhite {gap : List UInt8} (white : IsWhite gap) :
    (scanNumber gap : Option N × List UInt8) = (none, []) := by
  have nothing := white.dropWhile []
  rw [List.append_nil, List.dropWhile_nil] at nothing
  rw [scanNumber, nothing]
  rfl

/-- The number that is found where the numeral of an integer was written, if it can be held. -/
def recovered (value : Int) : Option N :=
  Number.ofNumeral? (Decimal.ofInt value).toList

/-- A numeral is its sign and its digits to the scanner too, whatever stands behind it. -/
theorem cutSign_numeral (value : N) (rest : List UInt8) :
    cutSign ((numeral value ++ rest).dropWhile isWhiteSpace) =
      (decide (Number.toInt value < 0), digitBytes (Number.toInt value).natAbs ++ rest) := by
  rw [numeral_eq]
  by_cases negative : Number.toInt value < 0
  · rw [if_pos negative, decide_eq_true negative]
    rfl
  · rw [if_neg negative, decide_eq_false negative, List.nil_append]
    obtain ⟨first, later, bytes⟩ :=
      List.exists_cons_of_ne_nil (digitBytes_ne_nil (Number.toInt value).natAbs)
    have digit : isDigit first = true := isDigit_of_mem_digitBytes (bytes ▸ List.mem_cons_self)
    have black : ¬ isWhiteSpace first = true := by
      intro white
      rw [isDigit_of_isWhiteSpace white] at digit
      cases digit
    have unsigned : ¬ (first :: (later ++ rest)).head? = some 0x2D := by
      intro sign
      cases sign
      cases digit
    rw [bytes, List.cons_append, List.dropWhile_cons_of_neg black, cutSign, if_neg unsigned]

/-- A number that is set off is found behind white space, and its digits are used up. -/
theorem scanNumber_numeral {M : Type} [Number M] {gap rest : List UInt8} (white : IsWhite gap)
    (value : N) (setsOff : SetsOff rest) :
    (scanNumber (gap ++ (numeral value ++ rest)) : Option M × List UInt8) =
      (recovered (Number.toInt value), cutTerminator rest) := by
  obtain ⟨digits, behind⟩ := setsOff.cut fun byte =>
    @isDigit_of_mem_digitBytes (Number.toInt value).natAbs byte
  have present : (digitBytes (Number.toInt value).natAbs).isEmpty = false :=
    List.isEmpty_eq_false_iff.mpr (digitBytes_ne_nil _)
  rw [scanNumber, white.dropWhile, cutSign_numeral]
  dsimp only
  rw [digits, behind, numeral?, present, map_asciiChar_digitBytes, recovered, Decimal.toList_ofInt]
  simp only [decide_eq_true_eq, Bool.false_eq_true, if_false]

theorem recovered_integers (value : Int) : (recovered value : Option Int) = some value := by
  have plain := Decimal.groupedInt?_of_not_mem (Decimal.not_mem_underscore_ofInt value)
  exact plain.trans (Decimal.int?_ofInt value)

/-- A word is recovered where the integer can be held. -/
theorem recovered_words (value : Int) :
    (recovered value : Option Int64) =
      if Decimal.fitsWord value then some (Int64.ofInt value) else none := by
  change Decimal.word? (Decimal.ofInt value).toList = _
  rw [Decimal.word?, Decimal.int?_ofInt]

/-! ## Numbers with white space between them -/

/-- Numbers set out as text, each behind the bytes in front of it, and with the given bytes at the
end. -/
def setOut (closing : List UInt8) (entries : List (List UInt8 × N)) : List UInt8 :=
  entries.flatMap (fun entry => entry.1 ++ numeral entry.2) ++ closing

/-- Whether numbers are set out with white space between them, and with nothing but white space in
front of the first and behind the last one. -/
structure IsSpaced (gaps : List (List UInt8)) (closing : List UInt8) : Prop where
  white : forall gap, gap ∈ gaps -> IsWhite gap
  closing : IsWhite closing
  apart : forall gap, gap ∈ gaps.tail -> gap ≠ []

theorem setOut_cons (closing : List UInt8) (entry : List UInt8 × N)
    (entries : List (List UInt8 × N)) :
    setOut closing (entry :: entries) = entry.1 ++ (numeral entry.2 ++ setOut closing entries) := by
  simp only [setOut, List.flatMap_cons, List.append_assoc]

variable {closing : List UInt8}

theorem IsSpaced.tail {gap : List UInt8} {gaps : List (List UInt8)}
    (spaced : IsSpaced (gap :: gaps) closing) : IsSpaced gaps closing where
  white := fun other member => spaced.white other (List.mem_cons_of_mem gap member)
  closing := spaced.closing
  apart := fun other member => spaced.apart other (List.mem_of_mem_tail member)

/-- The first number is set off by what is set out behind it. -/
theorem IsSpaced.setsOff {gap : List UInt8} {entries : List (List UInt8 × N)}
    (spaced : IsSpaced (gap :: entries.map Prod.fst) closing) : SetsOff (setOut closing entries) := by
  cases entries with
  | nil => exact spaced.closing.setsOff
  | cons entry entries =>
      obtain ⟨byte, later, bytes⟩ :=
        List.exists_cons_of_ne_nil (spaced.apart entry.1 List.mem_cons_self)
      have white : IsWhite entry.1 := spaced.white entry.1 (List.mem_cons_of_mem _ List.mem_cons_self)
      rw [setOut_cons, bytes]
      intro front head
      cases head
      exact white byte (bytes ▸ List.mem_cons_self)

/-- Where numbers are set out, the first one is found and what is set out behind it stays, less the
terminator of the first. -/
theorem scanNumber_setOut {M : Type} [Number M] {entry : List UInt8 × N}
    {entries : List (List UInt8 × N)}
    (spaced : IsSpaced ((entry :: entries).map Prod.fst) closing) :
    (scanNumber (setOut closing (entry :: entries)) : Option M × List UInt8) =
      (recovered (Number.toInt entry.2), cutTerminator (setOut closing entries)) := by
  rw [setOut_cons]
  exact scanNumber_numeral (spaced.white entry.1 List.mem_cons_self) entry.2 spaced.setsOff

/-! ## Reading on -/

/-- The calls that read that many numbers one after the other. -/
def numberCalls (count : Nat) : List ReadCall :=
  List.replicate count .number

theorem scanAll_numberCalls_succ (count : Nat) (bytes : List UInt8) :
    (scanAll (numberCalls (count + 1)) bytes : List (Reading N) × List UInt8) =
      let rest : List (Reading N) × List UInt8 :=
        scanAll (numberCalls count) (scanNumber bytes : Option N × List UInt8).2
      (.number (scanNumber bytes).1 :: rest.1, rest.2) := rfl

/-- A terminator in front makes no difference to the numbers that are found. -/
theorem scanAll_cutTerminator (count : Nat) (bytes : List UInt8) :
    (scanAll (numberCalls count) (cutTerminator bytes) : List (Reading N) × List UInt8).1 =
        (scanAll (numberCalls count) bytes).1 ∧
      (0 < count -> (scanAll (numberCalls count) (cutTerminator bytes) :
          List (Reading N) × List UInt8) = scanAll (numberCalls count) bytes) := by
  cases count with
  | zero => exact ⟨rfl, fun positive => absurd positive (Nat.lt_irrefl 0)⟩
  | succ count =>
      have same : (scanAll (numberCalls (count + 1)) (cutTerminator bytes) :
          List (Reading N) × List UInt8) = scanAll (numberCalls (count + 1)) bytes := by
        rw [scanAll_numberCalls_succ, scanAll_numberCalls_succ, scanNumber_cutTerminator]
      exact ⟨congrArg Prod.fst same, fun _ => same⟩

theorem scanAll_of_isWhite (count : Nat) :
    forall gap : List UInt8, IsWhite gap ->
      (scanAll (numberCalls count) gap : List (Reading N) × List UInt8).1 =
        List.replicate count (.number none) := by
  induction count with
  | zero => exact fun _ _ => rfl
  | succ count inductionHypothesis =>
      intro gap white
      rw [scanAll_numberCalls_succ, scanNumber_of_isWhite white]
      dsimp only
      rw [inductionHypothesis [] nofun]
      rfl

/-- Of numbers that are set out each is found in turn, and none behind the last. -/
theorem scanAll_setOut {M : Type} [Number M] (more : Nat) (entries : List (List UInt8 × N)) :
    IsSpaced (entries.map Prod.fst) closing ->
      (scanAll (numberCalls (entries.length + more)) (setOut closing entries) :
          List (Reading M) × List UInt8).1 =
        (entries.map (fun entry : List UInt8 × N => recovered (Number.toInt entry.2)) ++
          List.replicate more none).map .number := by
  induction entries with
  | nil =>
      intro spaced
      rw [List.length_nil, Nat.zero_add, List.map_nil, List.nil_append, List.map_replicate]
      exact scanAll_of_isWhite more _ spaced.closing
  | cons entry entries inductionHypothesis =>
      intro spaced
      rw [List.length_cons, Nat.succ_add, scanAll_numberCalls_succ, scanNumber_setOut spaced]
      dsimp only
      rw [(scanAll_cutTerminator _ _).1, inductionHypothesis spaced.tail]
      rfl

/-- What a number leaves is what was set out behind it, less its terminator. -/
theorem scanAll_setOut_rest {M : Type} [Number M] (taken : Nat) :
    forall entries : List (List UInt8 × N), IsSpaced (entries.map Prod.fst) closing ->
      taken < entries.length ->
      (scanAll (numberCalls (taken + 1)) (setOut closing entries) :
          List (Reading M) × List UInt8).2 =
        cutTerminator (setOut closing (entries.drop (taken + 1))) := by
  induction taken with
  | zero =>
      intro entries spaced inside
      obtain ⟨entry, entries, rfl⟩ := List.exists_cons_of_length_pos inside
      rw [scanAll_numberCalls_succ, scanNumber_setOut spaced]
      rfl
  | succ taken inductionHypothesis =>
      intro entries spaced inside
      obtain ⟨entry, entries, rfl⟩ := List.exists_cons_of_length_pos (Nat.zero_lt_of_lt inside)
      rw [scanAll_numberCalls_succ, scanNumber_setOut spaced]
      dsimp only
      rw [(scanAll_cutTerminator _ _).2 (Nat.succ_pos taken),
        inductionHypothesis entries spaced.tail (Nat.lt_of_succ_lt_succ inside), List.drop_succ_cons]

/-- Whether reading numbers from any input that delivers the bytes gives the values one after the
other, and no number ever after. -/
def YieldsNumbers (bytes : List UInt8) (values : List (Option N)) : Prop :=
  forall (input : Input) (more : Nat), input.Delivers bytes ->
    (callAll (numberCalls (values.length + more)) input :
        List (Except ChannelFault (Reading N)) × Input).1 =
      (values ++ List.replicate more none).map fun value => .ok (.number value)

/-- Whether reading the first numbers from any input that delivers what is set out leaves what is set
out behind them, less one terminator. -/
def LeavesOthers (M : Type) [Number M] (closing : List UInt8) (entries : List (List UInt8 × N)) :
    Prop :=
  forall (input : Input) (taken : Nat), input.Delivers (setOut closing entries) ->
    taken < entries.length ->
    (callAll (numberCalls (taken + 1)) input :
        List (Except ChannelFault (Reading M)) × Input).2.Delivers
      (cutTerminator (setOut closing (entries.drop (taken + 1))))

theorem yieldsNumbers_setOut {M : Type} [Number M] {entries : List (List UInt8 × N)}
    (spaced : IsSpaced (entries.map Prod.fst) closing) :
    YieldsNumbers (setOut closing entries)
      (entries.map fun entry => (recovered (Number.toInt entry.2) : Option M)) := by
  intro input more delivers
  have results := (Delivers.callAll (N := M) (numberCalls (entries.length + more)) input _
    delivers).1
  rw [List.length_map, results, scanAll_setOut more entries spaced, List.map_map]
  rfl

theorem leavesOthers_setOut (M : Type) [Number M] {entries : List (List UInt8 × N)}
    (spaced : IsSpaced (entries.map Prod.fst) closing) : LeavesOthers M closing entries := by
  intro input taken delivers inside
  have rest := (Delivers.callAll (N := M) (numberCalls (taken + 1)) input _ delivers).2.1
  rw [scanAll_setOut_rest taken entries spaced inside] at rest
  exact rest

end Input

namespace Console

open Input

variable {N : Type} [Number N]

/-- Write numbers, each behind the bytes in front of it, and then the given bytes. -/
def writeSpaced (closing : List UInt8) : List (List UInt8 × N) -> Console -> Console
  | [], console => (console.write closing).2
  | (gap, value) :: entries, console =>
      writeSpaced closing entries ((console.write gap).2.writeNumber value).2

theorem grown_write {console : Console} (unlimited : console.output.limit = none)
    (bytes : List UInt8) :
    (console.write bytes).2.output.limit = none ∧
      (console.write bytes).2.output.written.toList = console.output.written.toList ++ bytes := by
  rw [write_of_unlimited unlimited]
  exact ⟨unlimited, Array.toList_appendList⟩

theorem written_writeSpaced (closing : List UInt8) (entries : List (List UInt8 × N)) :
    forall console : Console, console.output.limit = none ->
      (writeSpaced closing entries console).output.written.toList =
        console.output.written.toList ++ setOut closing entries := by
  induction entries with
  | nil => exact fun _ unlimited => (grown_write unlimited closing).2
  | cons entry entries inductionHypothesis =>
      intro console unlimited
      obtain ⟨between, spaced⟩ := grown_write unlimited entry.1
      obtain ⟨stillOpen, written⟩ := grown_write between (numeral entry.2)
      rw [writeSpaced, writeNumber, ← numeral, inductionHypothesis _ stillOpen, written, spaced,
        setOut_cons, List.append_assoc, List.append_assoc]

/-- Numbers that are written to an unlimited output with white space between them are read back one
after the other, and no number after the last.  Words are read back where they can be held.  A
number that cannot be held is not read, but its digits are used up: whatever is read, what is left
is what was set out behind it. -/
theorem writeSpaced_read_back (closing : List UInt8) (entries : List (List UInt8 × N))
    (console : Console) (unlimited : console.output.limit = none)
    (spaced : IsSpaced (entries.map Prod.fst) closing) :
    (writeSpaced closing entries console).output.written.toList =
        console.output.written.toList ++ setOut closing entries ∧
      YieldsNumbers (setOut closing entries)
        (entries.map fun entry => some (Number.toInt entry.2)) ∧
      YieldsNumbers (setOut closing entries)
        (entries.map fun entry =>
          if Decimal.fitsWord (Number.toInt entry.2) then some (Int64.ofInt (Number.toInt entry.2))
          else none) ∧
      LeavesOthers Int closing entries ∧ LeavesOthers Int64 closing entries := by
  have integers := yieldsNumbers_setOut (M := Int) spaced
  have words := yieldsNumbers_setOut (M := Int64) spaced
  simp only [recovered_integers] at integers
  simp only [recovered_words] at words
  exact ⟨written_writeSpaced closing entries console unlimited, integers, words,
    leavesOthers_setOut Int spaced, leavesOthers_setOut Int64 spaced⟩

/-- The least word, a number that no word holds, and a third one, with white space of all kinds. -/
theorem writeSpaced_read_back_bounds :
    let entries : List (List UInt8 × Int) :=
      [([0x20, 0x0C], -9223372036854775808), ([0x0D, 0x0A], 9223372036854775808), ([0x09], 0)]
    let console := Console.start (Input.ofBytes []) none (Warnings.fresh 0 none)
    console.output.limit = none ∧ IsSpaced (entries.map Prod.fst) [0x0A, 0x0D] ∧
      YieldsNumbers (setOut [0x0A, 0x0D] entries)
        [some (-9223372036854775808), some 9223372036854775808, some 0] ∧
      YieldsNumbers (setOut [0x0A, 0x0D] entries) [some Int64.minValue, none, some 0] := by
  intro entries console
  have unlimited : console.output.limit = none := rfl
  have spaced : IsSpaced (entries.map Prod.fst) [0x0A, 0x0D] :=
    ⟨by decide, by decide, by decide⟩
  obtain ⟨-, integers, words, -⟩ :=
    writeSpaced_read_back [0x0A, 0x0D] entries console unlimited spaced
  exact ⟨unlimited, spaced, integers, words⟩

end Console
end HangulPane
