import HangulPane.Console.Basic
import HangulPane.Number.Unbounded
import HangulPane.Proofs.Console.Characters
import HangulPane.Proofs.Console.Throttle

namespace HangulPane

/-!
Characters that are written are read back.

A value is written as the character whose code point it is, or as the replacement character, so what
is written is a text and is read as its characters.  Only a failing flush or warning keeps a value
from being written, and then no byte of it is.
-/

namespace Number

/-- Whether an integer is the code point of a character. -/
def IsScalar (value : Int) : Prop :=
  0 ≤ value ∧ (value < 0xD800 ∨ 0xE000 ≤ value ∧ value < 0x110000)

instance (value : Int) : Decidable (IsScalar value) :=
  inferInstanceAs (Decidable (_ ∧ _))

variable {N : Type} [Number N]

/-- The character that is written for a value. -/
def shown (value : N) : Char :=
  (toChar? value).getD Utf8.replacement

/-- The integer that is read where a value was written. -/
def echoed (value : N) : Int :=
  if IsScalar (toInt value) then toInt value else 0xFFFD

theorem scalar?_eq_none_iff (code : Nat) : scalar? code = none <-> ¬ code.isValidChar := by
  unfold scalar?
  by_cases valid : code.isValidChar
  · rw [dif_pos valid]
    exact ⟨nofun, fun invalid => absurd valid invalid⟩
  · rw [dif_neg valid]
    exact ⟨fun _ => valid, fun _ => rfl⟩

theorem toNat_of_scalar? {code : Nat} {c : Char} (found : scalar? code = some c) :
    c.toNat = code := by
  unfold scalar? at found
  by_cases valid : code.isValidChar
  · rw [dif_pos valid] at found
    cases found
    rfl
  · rw [dif_neg valid] at found
    cases found

theorem toChar?_eq_none_iff (value : N) : toChar? value = none <-> ¬ IsScalar (toInt value) := by
  rw [toChar?_eq]
  cases toInt value with
  | ofNat code =>
      rw [charOfInt?, scalar?_eq_none_iff]
      simp only [Nat.isValidChar, IsScalar, Int.ofNat_eq_natCast]
      omega
  | negSucc code =>
      simp only [charOfInt?, IsScalar, true_iff]
      omega

theorem isScalar_of_toChar? {value : N} {c : Char} (found : toChar? value = some c) :
    IsScalar (toInt value) := by
  refine Decidable.byContradiction fun other => ?_
  rw [(toChar?_eq_none_iff value).mpr other] at found
  cases found

/-- The character of a value has the value as its code point. -/
theorem toNat_of_toChar? {value : N} {c : Char} (found : toChar? value = some c) :
    (c.toNat : Int) = toInt value := by
  rw [toChar?_eq] at found
  unfold charOfInt? at found
  split at found
  next code integer => rw [integer, toNat_of_scalar? found, Int.ofNat_eq_natCast]
  next => cases found

theorem toNat_shown (value : N) : ((shown value).toNat : Int) = echoed value := by
  unfold echoed
  cases found : toChar? value with
  | none =>
      rw [if_neg ((toChar?_eq_none_iff value).mp found), shown, found]
      rfl
  | some c =>
      rw [if_pos (isScalar_of_toChar? found), shown, found]
      exact toNat_of_toChar? found

theorem codePoints_shown (values : List N) :
    Input.codePoints (values.map shown) = values.map echoed := by
  rw [Input.codePoints, List.map_map]
  exact List.map_congr_left fun value _ => toNat_shown value

end Number

namespace Warnings

/-- Whether no warning can fail, because none is given or because all are accepted. -/
def NeverFails (warnings : Warnings) : Prop :=
  warnings.limit = 0 ∨ warnings.AcceptsAll

theorem NeverFails.warnRange {warnings : Warnings} (never : warnings.NeverFails) (hex : String) :
    (warnings.warnRange hex).1 = .ok () ∧ (warnings.warnRange hex).2.NeverFails := by
  cases exhausted : warnings.isExhausted warnings.count with
  | true =>
      rw [Warnings.warnRange, if_pos exhausted]
      exact ⟨rfl, never⟩
  | false =>
      rcases never with silent | accepting
      · simp [isExhausted, silent] at exhausted
      obtain ⟨after, warned, adds⟩ := accepting.warnRange exhausted hex
      rw [warned]
      exact ⟨rfl, .inr adds.accepting⟩

end Warnings

namespace Console

variable {N : Type} [Number N] {console : Console}

/-- Whether nothing fails at a value that is no code point: the output can always be flushed, and
no warning can fail. -/
structure NeverFails (console : Console) : Prop where
  flushed : console.flushes.limit = none
  warned : console.warnings.NeverFails

/-- What writing a character to an unlimited output comes to: the character of the value is written,
or the value is no code point and the flush or the warning fails before anything is. -/
inductive Writes (value : N) (before after : Console) : Except ChannelFault Unit -> Prop where
  | shown
      (grown : after.output = { before.output with
        written := before.output.written ++ String.utf8EncodeChar (Number.shown value) })
      (sound : before.NeverFails -> after.NeverFails) :
      Writes value before after (.ok ())
  | refused (fault : ChannelFault) (unscalar : ¬ Number.IsScalar (Number.toInt value))
      (fails : ¬ before.NeverFails) (same : after.output = before.output) :
      Writes value before after (.error fault)

theorem Writes.limit_eq {value : N} {before after : Console} {result : Except ChannelFault Unit}
    (writes : Writes value before after result) :
    after.output.limit = before.output.limit := by
  cases writes with
  | shown grown sound => rw [grown]
  | refused fault unscalar fails same => rw [same]

/-- A flush makes no difference to what writing comes to. -/
theorem Writes.of_flush {value : N} {after : Console} {result : Except ChannelFault Unit}
    (writes : Writes value console.flush.2 after result) : Writes value console after result := by
  cases writes with
  | shown grown sound => exact .shown grown fun never => sound ⟨never.flushed, never.warned⟩
  | refused fault unscalar fails same =>
      exact .refused fault unscalar (fun never => fails ⟨never.flushed, never.warned⟩) same

theorem write_of_unlimited (unlimited : console.output.limit = none) (bytes : List UInt8) :
    console.write bytes = (.ok (), { console with
      output := { console.output with written := console.output.written ++ bytes } }) := by
  rw [write, Sink.write_of_unlimited unlimited]

theorem flush_of_unlimited (unlimited : console.flushes.limit = none) :
    console.flush = (.ok (), { console with
      flushes := { console.flushes with count := console.flushes.count + 1 } }) := by
  rw [flush, Flushes.flush_of_unlimited unlimited]

theorem flushThen_of_unlimited {Result : Type} (unlimited : console.flushes.limit = none)
    (next : Console -> Except ChannelFault Result × Console) :
    console.flushThen next = next { console with
      flushes := { console.flushes with count := console.flushes.count + 1 } } := by
  rw [flushThen, flush_of_unlimited unlimited]

/-- Writing the replacement character for a value that is none. -/
theorem writes_writeReplacement (unlimited : console.output.limit = none) {value : N}
    (unscalar : Number.toChar? value = none) (hex : String) :
    Writes value console (console.writeReplacement hex).2 (console.writeReplacement hex).1 := by
  have character : Number.shown value = Utf8.replacement := by
    rw [Number.shown, unscalar, Option.getD_none]
  have result : (console.warnRange hex).1 = (console.warnings.warnRange hex).1 := rfl
  have left : (console.warnRange hex).2.warnings = (console.warnings.warnRange hex).2 := rfl
  have flushes : (console.warnRange hex).2.flushes = console.flushes := rfl
  have same : (console.warnRange hex).2.output = console.output := rfl
  unfold writeReplacement
  rcases attempt : console.warnRange hex with ⟨fault | _, warned⟩
  · rw [attempt] at result same
    refine .refused fault ((Number.toChar?_eq_none_iff value).mp unscalar) ?_ same
    intro never
    cases result.trans (never.warned.warnRange hex).1
  · rw [attempt] at left flushes same
    have unlimitedStill : warned.output.limit = none := same ▸ unlimited
    simp only [write_of_unlimited unlimitedStill]
    refine .shown ?_ ?_
    · rw [same, character]
    · intro never
      exact ⟨flushes ▸ never.flushed, left ▸ (never.warned.warnRange hex).2⟩

theorem writes_writeChar (unlimited : console.output.limit = none) (value : N) :
    Writes value console (console.writeChar value).2 (console.writeChar value).1 := by
  unfold writeChar
  cases found : Number.toChar? value with
  | some c =>
      have character : Number.shown value = c := by rw [Number.shown, found, Option.getD_some]
      simp only [write_of_unlimited unlimited]
      exact .shown (by rw [character]) fun never => ⟨never.flushed, never.warned⟩
  | none =>
      dsimp only
      rcases console.flushThen_cases _ with ⟨fault, failed, fails⟩ | ⟨_, goesOn⟩
      · rw [fails]
        refine .refused fault ((Number.toChar?_eq_none_iff value).mp found) ?_ rfl
        intro never
        rw [flush_of_unlimited never.flushed] at failed
        cases failed
      · rw [goesOn]
        have still : console.flush.2.output.limit = none := unlimited
        exact Writes.of_flush (writes_writeReplacement still found _)

/-! ## Writing on -/

/-- Write characters one after the other, also after one that fails: the values that are written,
and the console afterwards. -/
def writeChars : List N -> Console -> List N × Console
  | [], console => ([], console)
  | value :: values, console =>
      let later := writeChars values (console.writeChar value).2
      match (console.writeChar value).1 with
      | .ok () => (value :: later.1, later.2)
      | .error _ => later

/-- What comes of writing some values when those in `written` are written.  Nothing is added and no
code point is left out, and where no warning can fail nothing is. -/
structure Written (values written : List N) (before after : Console) : Prop where
  grown : after.output.written.toList =
    before.output.written.toList ++ Utf8.encode (written.map Number.shown)
  scalars : List.Sublist (values.filter fun value => Number.IsScalar (Number.toInt value)) written
  among : List.Sublist written values
  complete : before.NeverFails -> written = values

theorem Written.cons {value : N} {values written : List N} {before between after : Console}
    (later : Written values written between after)
    (first : Writes value before between (.ok ())) :
    Written (value :: values) (value :: written) before after := by
  cases first with
  | shown grown sound =>
      constructor
      · rw [later.grown, grown, List.map_cons, Utf8.encode_cons, ← List.append_assoc,
          Array.toList_appendList]
      · rw [List.filter_cons]
        split
        · exact later.scalars.cons_cons value
        · exact later.scalars.cons value
      · exact later.among.cons_cons value
      · intro never
        rw [later.complete (sound never)]

theorem Written.skip {value : N} {values written : List N} {before between after : Console}
    {fault : ChannelFault} (later : Written values written between after)
    (first : Writes value before between (.error fault)) :
    Written (value :: values) written before after := by
  cases first with
  | refused fault unscalar fails same =>
      constructor
      · rw [later.grown, same]
      · rw [List.filter_cons_of_neg (by simpa using unscalar)]
        exact later.scalars
      · exact later.among.cons value
      · exact fun never => absurd never fails

theorem written_writeChars (values : List N) :
    forall console : Console, console.output.limit = none ->
      Written values (writeChars values console).1 console (writeChars values console).2 := by
  induction values with
  | nil =>
      intro console unlimited
      exact ⟨by simp [writeChars, Utf8.encode_nil], .slnil, .slnil, fun _ => rfl⟩
  | cons value values inductionHypothesis =>
      intro console unlimited
      have writes := writes_writeChar unlimited value
      have later := inductionHypothesis (console.writeChar value).2 (writes.limit_eq.trans unlimited)
      unfold writeChars
      split
      next written =>
        rw [written] at writes
        exact later.cons writes
      next fault refused =>
        rw [refused] at writes
        exact later.skip writes

/-- What is written to an unlimited output is a text.  Reading it gives for each value the value
itself if it is a code point and the code point of the replacement character if it is not, and then
minus one.  Any text is read as its characters. -/
theorem writeChars_read_back (values : List N) (console : Console)
    (unlimited : console.output.limit = none) :
    (exists bytes,
      (writeChars values console).2.output.written.toList =
          console.output.written.toList ++ bytes ∧
        Utf8.decode bytes = .ok ((writeChars values console).1.map Number.shown) ∧
        Input.Yields bytes ((writeChars values console).1.map Number.echoed)) ∧
      List.Sublist (values.filter fun value => Number.IsScalar (Number.toInt value))
        (writeChars values console).1 ∧
      List.Sublist (writeChars values console).1 values ∧
      (console.NeverFails -> (writeChars values console).1 = values) ∧
      forall text, Input.Yields (Utf8.encode text) (Input.codePoints text) := by
  have written := written_writeChars values console unlimited
  refine ⟨⟨_, written.grown, Utf8.decode_encode _, ?_⟩, written.scalars, written.among,
    written.complete, Input.yields_encode⟩
  rw [← Number.codePoints_shown]
  exact Input.yields_encode _

/-- A letter, a negative number, a surrogate, a face and a number past the last code point. -/
theorem writeChars_read_back_mixed :
    let console := Console.start (Input.ofBytes []) none (Warnings.fresh 1 none)
    let values : List Int := [0x41, -1, 0xD800, 0x1F600, 0x110000]
    console.output.limit = none ∧ console.NeverFails ∧
      exists bytes, (writeChars values console).2.output.written.toList = bytes ∧
        Input.Yields bytes [0x41, 0xFFFD, 0xFFFD, 0x1F600, 0xFFFD] := by
  intro console values
  have unlimited : console.output.limit = none := rfl
  have never : console.NeverFails := ⟨rfl, .inr ⟨rfl, rfl⟩⟩
  obtain ⟨⟨bytes, grown, _, yields⟩, _, _, complete, _⟩ :=
    writeChars_read_back values console unlimited
  rw [complete never] at yields
  exact ⟨unlimited, never, bytes, grown, yields⟩

end Console
end HangulPane
