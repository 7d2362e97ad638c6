import HangulPane.Console.Basic
import HangulPane.Proofs.Number.Word

namespace HangulPane

/-!
Numbers read from the input.

What is read for a number is a sign and digits, whichever numbers the program computes with.
On such a numeral the readers for words and for integers of any size agree: a word is read
where the integer fits a word, and nothing where it does not.
-/

namespace Decimal

variable {text : List Char}

theorem groupedDigits?_of_not_mem (plain : '_' ∉ text) : groupedDigits? text = digits? text := by
  have kept : text.filter (· != '_') = text := by
    rw [List.filter_eq_self]
    intro c member
    exact bne_iff_ne.mpr fun underscore => plain (underscore ▸ member)
  have head : text.head? ≠ some '_' := fun front => plain (List.mem_of_head? front)
  rw [groupedDigits?, if_neg head, kept]

/-- Without underscores a grouped numeral is a numeral. -/
theorem groupedInt?_of_not_mem (plain : '_' ∉ text) : groupedInt? text = int? text := by
  unfold groupedInt? int? signed?
  split
  · rw [groupedDigits?_of_not_mem fun member => plain (List.mem_cons_of_mem _ member)]
  · rw [groupedDigits?_of_not_mem fun member => plain (List.mem_cons_of_mem _ member)]
  · rw [groupedDigits?_of_not_mem plain]

theorem word?_eq_held (text : List Char) :
    word? text = (int? text).bind fun value => (WordArithmetic.held value).toOption := by
  unfold word? WordArithmetic.held
  cases int? text with
  | none => rfl
  | some value =>
      simp only [Option.bind_some]
      split <;> rfl

end Decimal

namespace Input

theorem accept_of_mem_takeWhile {accept : UInt8 -> Bool} (bound : Nat) :
    forall (input after : Input) (taken : List UInt8),
      takeWhile accept bound input = (.ok taken, after) ->
      forall byte, byte ∈ taken -> accept byte = true := by
  induction bound with
  | zero =>
      intro input after taken took byte member
      cases took
      cases member
  | succ bound inductionHypothesis =>
      intro input after taken took byte member
      unfold takeWhile at took
      split at took
      · cases took
      · cases took
        cases member
      · rename_i first rest looked
        split at took
        · rename_i accepted
          rcases later : takeWhile accept bound (rest.drop 1) with ⟨_ | others, last⟩
          · rw [later] at took
            cases took
          · rw [later] at took
            cases took
            rcases List.mem_cons.mp member with rfl | member
            · exact accepted
            · exact inductionHypothesis _ _ _ later byte member
        · cases took
          cases member

theorem asciiChar_ne_underscore {byte : UInt8} (digit : isDigit byte = true) :
    asciiChar byte ≠ '_' := by
  have bounds : 0x30 ≤ byte.toNat ∧ byte.toNat ≤ 0x39 := by
    simp only [isDigit, Bool.and_eq_true, decide_eq_true_eq, UInt8.le_iff_toNat_le] at digit
    exact digit
  have valid : byte.toNat.isValidChar := Or.inl (by omega)
  intro underscore
  rw [asciiChar, Char.ofNat, dif_pos valid] at underscore
  have code : byte.toNat = 0x5F := congrArg Char.toNat underscore
  omega

/-- Reading a word is reading an integer and holding it in a word. -/
theorem readNumber_words (input : Input) :
    (input.readNumber : Except ChannelFault (Option Int64) × Input) =
      (((input.readNumber : Except ChannelFault (Option Int) × Input).1.map fun read =>
          read.bind fun value => (WordArithmetic.held value).toOption),
        (input.readNumber : Except ChannelFault (Option Int) × Input).2) := by
  unfold readNumber
  rcases input.takeAll isWhiteSpace with ⟨_ | _, input⟩
  · rfl
  · dsimp only
    rcases input.takeByte 0x2D with ⟨_ | negative, input⟩
    · rfl
    · dsimp only
      rcases took : input.takeAll isDigit with ⟨_ | digits, input⟩
      · rfl
      · dsimp only
        split
        · rfl
        · have plain : '_' ∉ (if negative then ['-'] else []) ++ digits.map asciiChar := by
            intro member
            rcases List.mem_append.mp member with sign | member
            · cases negative <;> simp at sign
            · rcases List.mem_map.mp member with ⟨byte, taken, underscore⟩
              have digit := accept_of_mem_takeWhile _ _ _ _ took byte taken
              exact asciiChar_ne_underscore digit underscore
          simp only [Number.ofNumeral?, Decimal.groupedInt?_of_not_mem plain,
            Decimal.word?_eq_held, Except.map]

end Input

/-- Reading a word from the console is reading an integer and holding it in a word. -/
theorem Console.readNumber_words (console : Console) :
    (console.readNumber : Except ChannelFault (Option Int64) × Console) =
      (((console.readNumber : Except ChannelFault (Option Int) × Console).1.map fun read =>
          read.bind fun value => (WordArithmetic.held value).toOption),
        (console.readNumber : Except ChannelFault (Option Int) × Console).2) := by
  simp only [readNumber, flushThen, Input.readNumber_words]
  rcases console.flush with ⟨_ | _, flushed⟩
  · rfl
  · rfl

end HangulPane
