import HangulPane.Proofs.Console.Delivery
import HangulPane.Proofs.Text.Utf8

namespace HangulPane
namespace Input

/-!
Characters in the input.

The leading bits of a first byte announce how many bytes are taken with it.  For the bytes of a
character that is their number, so a text is read character by character.  A continuation byte
announces nothing and is taken alone.  The other bytes that begin no character announce one or
three bytes behind them all the same, and these are lost to the text that follows.
-/

/-! ## Text -/

/-- How many bytes a first byte announces, by its number. -/
theorem announced_eq (lead : UInt8) :
    announced lead =
      if lead.toNat < 0x80 then some 1
      else if lead.toNat < 0xC0 then none
      else if lead.toNat < 0xE0 then some 2
      else if lead.toNat < 0xF0 then some 3
      else some 4 := by
  -- Masks are no matter for linear arithmetic, but there are few bytes to try.
  have each : forall number : Fin 256, announced (UInt8.ofFin number) =
      if number.val < 0x80 then some 1
      else if number.val < 0xC0 then none
      else if number.val < 0xE0 then some 2
      else if number.val < 0xF0 then some 3
      else some 4 := by decide +kernel
  exact each lead.toFin

theorem isContinuation_of_mayFollow {lead second : UInt8}
    (follows : Utf8.mayFollow lead second = true) : Utf8.isContinuation second = true :=
  (Utf8.isContinuation_iff second).mpr ((Utf8.mayFollow_iff lead second).mp follows).1

/-- The first byte of a character announces all of its bytes, and the others continue it. -/
theorem announced_of_encodes {c : Char} {bytes : List UInt8} (encodes : Utf8.Encodes c bytes) :
    exists lead tail, bytes = lead :: tail ∧ announced lead = some bytes.length ∧
      forall byte, byte ∈ tail -> Utf8.isContinuation byte = true := by
  cases encodes with
  | one first low code =>
      refine ⟨first, [], rfl, ?_, by simp⟩
      rw [announced_eq, if_pos low]
      rfl
  | two first second least most follows code =>
      refine ⟨first, [second], rfl, ?_, ?_⟩
      · rw [announced_eq, if_neg (by omega), if_neg (by omega), if_pos (by omega)]
        rfl
      · simpa using isContinuation_of_mayFollow follows
  | three first second third least most follows continues code =>
      refine ⟨first, [second, third], rfl, ?_, ?_⟩
      · rw [announced_eq, if_neg (by omega), if_neg (by omega), if_neg (by omega),
          if_pos (by omega)]
        rfl
      · simpa using ⟨isContinuation_of_mayFollow follows, continues⟩
  | four first second third fourth least most follows continues closes code =>
      refine ⟨first, [second, third, fourth], rfl, ?_, ?_⟩
      · rw [announced_eq, if_neg (by omega), if_neg (by omega), if_neg (by omega),
          if_neg (by omega)]
        rfl
      · simpa using ⟨isContinuation_of_mayFollow follows, continues, closes⟩

theorem codePoint_utf8EncodeChar (c : Char) :
    codePoint (String.utf8EncodeChar c) = Int64.ofNat c.toNat := by
  have decoded := Utf8.decode_encode [c]
  rw [Utf8.encode_cons, Utf8.encode_nil, List.append_nil] at decoded
  simp only [codePoint, decoded]

/-- Reading takes the bytes of a character and no more. -/
theorem scan_utf8EncodeChar (c : Char) (rest : List UInt8) :
    scan (String.utf8EncodeChar c ++ rest) = (Int64.ofNat c.toNat, rest) := by
  obtain ⟨lead, tail, bytes, announces, -⟩ := announced_of_encodes (Utf8.encodes_utf8EncodeChar c)
  have taken : (lead :: (tail ++ rest)).take (String.utf8EncodeChar c).length =
      String.utf8EncodeChar c := by
    rw [← List.cons_append, ← bytes, List.take_left]
  have left : (lead :: (tail ++ rest)).drop (String.utf8EncodeChar c).length = rest := by
    rw [← List.cons_append, ← bytes, List.drop_left]
  have front : String.utf8EncodeChar c ++ rest = lead :: (tail ++ rest) := by
    rw [bytes, List.cons_append]
  rw [front]
  simp only [scan, announces, taken, left, Nat.lt_irrefl, if_false, codePoint_utf8EncodeChar]

/-- The code points of a text. -/
def codePoints (text : List Char) : List Int :=
  text.map fun c => (c.toNat : Int)

theorem yields_cons_char {rest : List UInt8} {codes : List Int} (c : Char)
    (yields : Yields rest codes) :
    Yields (String.utf8EncodeChar c ++ rest) (c.toNat :: codes) := by
  have valid := Utf8.toNat_valid c
  refine yields_cons ?_ ?_
  · rw [scan_utf8EncodeChar]
    exact Int64.toInt_ofNat_of_lt (by omega)
  · rw [scan_utf8EncodeChar]
    exact yields

/-- The bytes of a text are read as its characters. -/
theorem yields_encode (text : List Char) : Yields (Utf8.encode text) (codePoints text) := by
  induction text with
  | nil => exact yields_nil
  | cons c text inductionHypothesis => exact yields_cons_char c inductionHypothesis

/-! ## Bytes that begin no character -/

variable {lead : UInt8}

/-- Each continuation byte where a character should begin is taken alone. -/
theorem yields_continuations {front rest : List UInt8} {codes : List Int}
    (continues : forall byte, byte ∈ front -> Utf8.isContinuation byte = true)
    (yields : Yields rest codes) :
    Yields (front ++ rest) (List.replicate front.length (-1) ++ codes) := by
  induction front with
  | nil => exact yields
  | cons byte front inductionHypothesis =>
      have range := (Utf8.isContinuation_iff byte).mp (continues byte List.mem_cons_self)
      have alone : announced byte = none := by
        rw [announced_eq, if_neg (by omega), if_pos (by omega)]
      have scanned : scan (byte :: (front ++ rest)) = (-1, front ++ rest) := by
        simp only [scan, alone]
      refine yields_cons ?_ ?_
      · rw [List.cons_append, scanned]
        rfl
      · rw [List.cons_append, scanned]
        exact inductionHypothesis fun byte member => continues byte (List.mem_cons_of_mem _ member)

/-- Whether no character begins with the byte. -/
def IsMalformed (lead : UInt8) : Prop :=
  0x80 ≤ lead ∧ lead ≤ 0xC1 ∨ 0xF5 ≤ lead

instance (lead : UInt8) : Decidable (IsMalformed lead) :=
  inferInstanceAs (Decidable (_ ∧ _ ∨ _))

/-- How many bytes behind it are taken together with a byte that begins no character. -/
def overrun (lead : UInt8) : Nat :=
  if lead < 0xC0 then 0 else if lead < 0xC2 then 1 else 3

theorem overrun_eq_zero_iff : overrun lead = 0 <-> lead ≤ 0xBF := by
  simp only [overrun, UInt8.lt_iff_toNat_lt, UInt8.le_iff_toNat_le, UInt8.reduceToNat]
  split
  · omega
  · split <;> omega

theorem announced_of_malformed (malformed : IsMalformed lead) :
    announced lead = none ∧ overrun lead = 0 ∨ announced lead = some (overrun lead + 1) := by
  simp only [IsMalformed, UInt8.le_iff_toNat_le, UInt8.reduceToNat] at malformed
  simp only [announced_eq, overrun, UInt8.lt_iff_toNat_lt, UInt8.reduceToNat]
  have below : ¬ lead.toNat < 0x80 := by omega
  by_cases continues : lead.toNat < 0xC0
  · exact .inl ⟨by rw [if_neg below, if_pos continues], by rw [if_pos continues]⟩
  · refine .inr ?_
    rw [if_neg below, if_neg continues, if_neg continues]
    by_cases short : lead.toNat < 0xC2
    · rw [if_pos (by omega), if_pos short]
    · rw [if_neg (by omega), if_neg (by omega), if_neg short]

theorem codePoint_of_malformed (malformed : IsMalformed lead) (rest : List UInt8) :
    codePoint (lead :: rest) = -1 := by
  simp only [IsMalformed, UInt8.le_iff_toNat_le, UInt8.reduceToNat] at malformed
  have none : Utf8.announcedLength lead = none := by
    rw [Utf8.announcedLength_eq, if_neg (by omega), if_neg (by omega), if_neg (by omega),
      if_neg (by omega)]
  have broken : Utf8.lead (lead :: rest) = .broken 1 := by
    simp only [Utf8.lead, none]
  have refused : Utf8.decode (lead :: rest) = .error (.broken 1 0) := by
    rw [Utf8.decode, Utf8.decodeFrom]
    split
    all_goals
      rename_i found
      rw [broken] at found
      cases found
    rfl
  simp only [codePoint, refused]

/-- A byte that begins no character is read as minus one, and the bytes that it announces are lost
with it. -/
theorem scan_of_malformed (malformed : IsMalformed lead) (rest : List UInt8) :
    scan (lead :: rest) = (-1, rest.drop (overrun lead)) := by
  rcases announced_of_malformed malformed with ⟨announces, alone⟩ | announces
  · simp only [scan, announces, alone, List.drop_zero]
  · simp only [scan, announces, List.take_succ_cons, List.drop_succ_cons,
      codePoint_of_malformed malformed, ite_self]

/-! ## What is left of a text -/

/-- What is read of a text that has lost that many bytes at its front.  Of a character that lost its
beginning each remaining byte gives minus one. -/
def remnant : Nat -> List Char -> List Int
  | 0, text => codePoints text
  | _ + 1, [] => []
  | lost + 1, c :: text =>
      List.replicate ((String.utf8EncodeChar c).length - (lost + 1)) (-1) ++
        remnant (lost + 1 - (String.utf8EncodeChar c).length) text

theorem remnant_zero (text : List Char) : remnant 0 text = codePoints text := by
  rw [remnant]

theorem yields_remnant (text : List Char) :
    forall lost, Yields ((Utf8.encode text).drop lost) (remnant lost text) := by
  induction text with
  | nil =>
      intro lost
      rw [Utf8.encode_nil, List.drop_nil]
      cases lost with
      | zero => exact yields_nil
      | succ lost => exact yields_nil
  | cons c text inductionHypothesis =>
      intro lost
      cases lost with
      | zero => exact yields_encode (c :: text)
      | succ lost =>
          obtain ⟨lead, tail, bytes, -, continues⟩ :=
            announced_of_encodes (Utf8.encodes_utf8EncodeChar c)
          -- The first byte of the character is lost, so all that is left of it continues it.
          have behind : forall byte,
              byte ∈ (String.utf8EncodeChar c).drop (lost + 1) ->
                Utf8.isContinuation byte = true := by
            intro byte member
            rw [bytes, List.drop_succ_cons] at member
            exact continues byte (List.mem_of_mem_drop member)
          have yields := yields_continuations behind
            (inductionHypothesis (lost + 1 - (String.utf8EncodeChar c).length))
          rw [List.length_drop] at yields
          rw [Utf8.encode_cons, List.drop_append, remnant]
          exact yields

/-- What is read of a text behind a byte that begins no character. -/
theorem yields_cons_malformed (malformed : IsMalformed lead) (text : List Char) :
    Yields (lead :: Utf8.encode text) (-1 :: remnant (overrun lead) text) := by
  refine yields_cons ?_ ?_
  · rw [scan_of_malformed malformed]
    rfl
  · rw [scan_of_malformed malformed]
    exact yields_remnant text (overrun lead)

theorem countP_codePoints (text : List Char) :
    (codePoints text).countP (0 ≤ ·) = text.length := by
  rw [codePoints, List.countP_map, List.countP_eq_length]
  intro c member
  exact decide_eq_true (Int.natCast_nonneg c.toNat)

theorem countP_replicate_minus_one (count : Nat) :
    (List.replicate count (-1 : Int)).countP (0 ≤ ·) = 0 := by
  rw [List.countP_replicate]
  rfl

theorem countP_remnant_le (text : List Char) :
    forall lost, (remnant lost text).countP (0 ≤ ·) ≤ text.length := by
  induction text with
  | nil =>
      intro lost
      cases lost with
      | zero => exact Nat.le_refl 0
      | succ lost => exact Nat.le_refl 0
  | cons c text inductionHypothesis =>
      intro lost
      cases lost with
      | zero => exact Nat.le_of_eq (countP_codePoints (c :: text))
      | succ lost =>
          rw [remnant, List.countP_append, countP_replicate_minus_one, Nat.zero_add]
          exact Nat.le_succ_of_le (inductionHypothesis _)

/-- A text that has lost a byte has lost a character. -/
theorem countP_remnant_lt {lost : Nat} (some : lost ≠ 0) {text : List Char} (nonempty : text ≠ []) :
    (remnant lost text).countP (0 ≤ ·) < text.length := by
  obtain ⟨lost, rfl⟩ := Nat.exists_eq_succ_of_ne_zero some
  obtain ⟨c, text, rfl⟩ := List.exists_cons_of_ne_nil nonempty
  rw [remnant, List.countP_append, countP_replicate_minus_one, Nat.zero_add]
  exact Nat.lt_succ_of_le (countP_remnant_le text _)

/-- Behind a byte that announces others the text is not read as it is. -/
theorem not_yields_cons_malformed (malformed : IsMalformed lead) (announces : overrun lead ≠ 0)
    {text : List Char} (nonempty : text ≠ []) :
    ¬ Yields (lead :: Utf8.encode text) (-1 :: codePoints text) := by
  intro whole
  have counted := whole.countP_eq (yields_cons_malformed malformed text)
  rw [List.countP_cons, List.countP_cons, countP_codePoints] at counted
  have lost := countP_remnant_lt announces nonempty
  omega

/-- Behind a byte that begins no character, a text is read as what is left of it when the byte has
taken the bytes that it announces.  It is read as it is only behind a continuation byte, or if it
is empty. -/
theorem text_after_malformed (lead : UInt8) (text : List Char) (malformed : IsMalformed lead) :
    Yields (lead :: Utf8.encode text) (-1 :: remnant (overrun lead) text) ∧
      (Yields (lead :: Utf8.encode text) (-1 :: codePoints text) <->
        lead ≤ 0xBF ∨ text = []) := by
  have yields := yields_cons_malformed malformed text
  refine ⟨yields, ?_, ?_⟩
  · intro whole
    refine Decidable.byContradiction fun other => ?_
    obtain ⟨announces, nonempty⟩ := not_or.mp other
    exact not_yields_cons_malformed malformed (mt overrun_eq_zero_iff.mp announces) nonempty whole
  · rintro (alone | rfl)
    · rw [overrun_eq_zero_iff.mpr alone, remnant_zero] at yields
      exact yields
    · cases announces : overrun lead with
      | zero | succ lost =>
          rw [announces] at yields
          exact yields

/-- The byte FF takes three bytes with it, the first two characters and the beginning of the
third. -/
theorem text_after_malformed_ff :
    IsMalformed 0xFF ∧
      Yields (0xFF :: Utf8.encode ['a', 'b', '\uAC00', 'c']) [-1, -1, -1, 'c'.toNat] := by
  have malformed : IsMalformed 0xFF := by decide
  exact ⟨malformed, (text_after_malformed 0xFF ['a', 'b', '\uAC00', 'c'] malformed).1⟩

/-- The byte C0 takes the letter behind it. -/
theorem not_yields_letter_after_c0 :
    ¬ Yields (0xC0 :: Utf8.encode ['a']) (-1 :: codePoints ['a']) :=
  not_yields_cons_malformed (by decide) (by decide) (by decide)

end Input
end HangulPane
