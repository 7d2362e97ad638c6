import HangulPane.Console.Input

namespace HangulPane

/-!
The input as the bytes that it is going to deliver.

Where a byte waits does not show in what is read: it may be in the buffer or still at the source,
behind any number of interruptions.  Filling the buffer moves bytes from one place to the other.  So
if the source does not fail, reading a character is a function of the bytes to come, and it leaves
an input that delivers the rest of them.
-/

namespace Arrival

/-- The byte that arrives, if one does. -/
def byte? : Arrival -> Option UInt8
  | .byte value => some value
  | .interrupted => none

theorem filterMap_byte? (bytes : List UInt8) : (bytes.map byte).filterMap byte? = bytes := by
  induction bytes with
  | nil => rfl
  | cons value later inductionHypothesis =>
      exact congrArg (value :: ·) inductionHypothesis

end Arrival

namespace Input

/-! ## Bytes in the buffer and bytes at the source -/

/-- The bytes that are still to be read, wherever they are. -/
def pending (input : Input) : List UInt8 :=
  input.buffer ++ input.arrivals.filterMap Arrival.byte?

/-- What filling a buffer comes to: no byte is lost, and either as many as wanted are held or
everything has arrived.  It fails only if the source does. -/
structure Filled (wanted : Nat) (failing : Bool) (buffer : List UInt8) (arrivals : List Arrival)
    (result : Except ChannelFault Unit) (held : List UInt8) (later : List Arrival) : Prop where
  kept : held ++ later.filterMap Arrival.byte? = buffer ++ arrivals.filterMap Arrival.byte?
  enough : wanted ≤ held.length ∨ later = []
  succeeds : failing = false -> result = .ok ()

theorem filled_fill (wanted : Nat) (failing : Bool) (arrivals : List Arrival) :
    forall buffer : List UInt8,
      Filled wanted failing buffer arrivals (fill wanted failing buffer arrivals).1
        (fill wanted failing buffer arrivals).2.1 (fill wanted failing buffer arrivals).2.2 := by
  induction arrivals with
  | nil =>
      intro buffer
      unfold fill
      split
      · exact ⟨rfl, .inr rfl, fun _ => rfl⟩
      next short => exact ⟨rfl, .inr rfl, fun steady => absurd (.inr (by simp [steady])) short⟩
  | cons arrival later inductionHypothesis =>
      intro buffer
      unfold fill
      split
      next enough => exact ⟨rfl, .inl enough, fun _ => rfl⟩
      cases arrival with
      | byte value =>
          obtain ⟨kept, enough, succeeds⟩ := inductionHypothesis (buffer ++ [value])
          exact ⟨by simpa [Arrival.byte?] using kept, enough, succeeds⟩
      | interrupted =>
          obtain ⟨kept, enough, succeeds⟩ := inductionHypothesis buffer
          exact ⟨kept, enough, succeeds⟩

/-! ## Input that does not fail -/

/-- The bytes that the input is going to deliver before it tells the end. -/
structure Delivers (input : Input) (bytes : List UInt8) : Prop where
  steady : input.failing = false
  pending_eq : input.pending = bytes

/-- Whether the buffer holds the given number of bytes, or all there are. -/
def Holds (wanted : Nat) (input : Input) : Prop :=
  wanted ≤ input.buffer.length ∨ input.arrivals = []

theorem delivers_ofBytes (bytes : List UInt8) : (ofBytes bytes).Delivers bytes where
  steady := rfl
  pending_eq := Arrival.filterMap_byte? bytes

variable {input : Input} {bytes : List UInt8} {wanted : Nat}

theorem Delivers.demand (delivers : input.Delivers bytes) (wanted : Nat) :
    exists ready, input.demand wanted = (.ok (), ready) ∧ ready.Delivers bytes ∧
      ready.Holds wanted := by
  obtain ⟨kept, enough, succeeds⟩ :=
    filled_fill wanted input.failing input.arrivals input.buffer
  refine ⟨(input.demand wanted).2, ?_, ⟨delivers.steady, ?_⟩, enough⟩
  · exact Prod.ext (succeeds delivers.steady) rfl
  · exact kept.trans delivers.pending_eq

/-- What the buffer holds at its front is what is delivered first. -/
theorem Delivers.take (delivers : input.Delivers bytes) (holds : input.Holds wanted) :
    input.buffer.take wanted = bytes.take wanted := by
  rw [← delivers.pending_eq, pending]
  rcases holds with enough | arrived
  · rw [List.take_append_of_le_length enough]
  · rw [arrived, List.filterMap_nil, List.append_nil]

theorem Delivers.drop (delivers : input.Delivers bytes) (holds : input.Holds wanted) :
    (input.drop wanted).Delivers (bytes.drop wanted) where
  steady := delivers.steady
  pending_eq := by
    rw [← delivers.pending_eq, pending, pending]
    rcases holds with enough | arrived
    · rw [List.drop_append_of_le_length enough]
      rfl
    · simp [arrived, Input.drop]

theorem Delivers.look (delivers : input.Delivers bytes) :
    exists ready, input.look = (.ok bytes.head?, ready) ∧ ready.Delivers bytes ∧
      ready.Holds 1 := by
  obtain ⟨ready, demanded, readyDelivers, holds⟩ := delivers.demand 1
  have head := congrArg List.head? (readyDelivers.take holds)
  rw [List.head?_take, List.head?_take, if_neg Nat.one_ne_zero, if_neg Nat.one_ne_zero] at head
  refine ⟨ready, ?_, readyDelivers, holds⟩
  rw [Input.look, demanded, ← head]

/-! ## Characters -/

/-- The code point of the character that some bytes begin with, or minus one, and the bytes that
stay behind when it is read. -/
def scan : List UInt8 -> Int64 × List UInt8
  | [] => (-1, [])
  | lead :: later =>
      match announced lead with
      | none => (-1, later)
      | some length =>
          let bytes := (lead :: later).take length
          (if bytes.length < length then -1 else codePoint bytes, (lead :: later).drop length)

/-- Reading a character finds what is at the front of the bytes to come. -/
theorem Delivers.readChar (delivers : input.Delivers bytes) :
    exists after, input.readChar = (.ok (scan bytes).1, after) ∧
      after.Delivers (scan bytes).2 := by
  obtain ⟨ready, looked, readyDelivers, holds⟩ := delivers.look
  cases bytes with
  | nil =>
      refine ⟨ready, ?_, readyDelivers⟩
      rw [Input.readChar, looked]
      rfl
  | cons lead later =>
      rw [List.head?_cons] at looked
      cases announces : announced lead with
      | none =>
          refine ⟨ready.drop 1, ?_, ?_⟩
          · simp only [Input.readChar, looked, announces, scan]
          · simp only [scan, announces]
            exact readyDelivers.drop holds
      | some length =>
          obtain ⟨full, demanded, fullDelivers, fullHolds⟩ := readyDelivers.demand length
          refine ⟨full.drop length, ?_, ?_⟩
          · simp only [Input.readChar, looked, announces, demanded, scan,
              fullDelivers.take fullHolds]
            split <;> rfl
          · simp only [scan, announces]
            exact fullDelivers.drop fullHolds

/-! ## Reading on -/

/-- The results of reading that many characters one after the other, as integers. -/
def readChars : Nat -> Input -> List (Except ChannelFault Int)
  | 0, _ => []
  | count + 1, input =>
      input.readChar.1.map Int64.toInt :: readChars count input.readChar.2

/-- Whether reading characters from any input that delivers the bytes gives the codes one after the
other, and minus one ever after. -/
def Yields (bytes : List UInt8) (codes : List Int) : Prop :=
  forall (input : Input) (more : Nat), input.Delivers bytes ->
    readChars (codes.length + more) input =
      (codes ++ List.replicate more (-1)).map Except.ok

theorem readChars_succ_of_delivers (delivers : input.Delivers bytes) (count : Nat) :
    exists after, after.Delivers (scan bytes).2 ∧
      readChars (count + 1) input = .ok (scan bytes).1.toInt :: readChars count after := by
  obtain ⟨after, read, afterDelivers⟩ := delivers.readChar
  exact ⟨after, afterDelivers, by rw [readChars, read]; rfl⟩

theorem yields_nil : Yields [] [] := by
  intro input more
  simp only [List.length_nil, Nat.zero_add, List.nil_append, List.map_replicate]
  induction more generalizing input with
  | zero => intro delivers; rfl
  | succ more inductionHypothesis =>
      intro delivers
      obtain ⟨after, afterDelivers, read⟩ := readChars_succ_of_delivers delivers more
      rw [read, inductionHypothesis after afterDelivers]
      rfl

/-- The first code is the one at the front of the bytes, the others are those of the rest. -/
theorem yields_cons {code : Int} {codes : List Int} (front : (scan bytes).1.toInt = code)
    (rest : Yields (scan bytes).2 codes) : Yields bytes (code :: codes) := by
  intro input more delivers
  obtain ⟨after, afterDelivers, read⟩ := readChars_succ_of_delivers delivers (codes.length + more)
  have count : (code :: codes).length + more = codes.length + more + 1 := by
    simp only [List.length_cons]
    omega
  rw [count, read, rest after more afterDelivers, front]
  rfl

/-- Bytes yield the same number of characters whichever way their codes are listed. -/
theorem Yields.countP_eq {first second : List Int} (yields : Yields bytes first)
    (same : Yields bytes second) : first.countP (0 ≤ ·) = second.countP (0 ≤ ·) := by
  have whole := yields (ofBytes bytes) second.length (delivers_ofBytes bytes)
  rw [Nat.add_comm, same (ofBytes bytes) first.length (delivers_ofBytes bytes)] at whole
  have listed := (List.map_inj_right fun _ _ => Except.ok.inj).mp whole
  have counted := congrArg (List.countP (0 ≤ ·)) listed
  simp only [List.countP_append, List.countP_replicate] at counted
  simpa using counted.symm

end Input
end HangulPane
