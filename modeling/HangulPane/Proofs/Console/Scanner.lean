import HangulPane.Number.Unbounded
import HangulPane.Proofs.Console.Delivery

namespace HangulPane

/-!
Reads as a scanner makes them.

A scanner finds a number or a character at the front of a list of bytes and leaves the rest of the
list.  An input does the same with the bytes to come, whatever reads came before.  It looks at one
byte behind a number and at none behind a character, so at most one byte waits in the buffer between
two reads.  If the source fails inside a character, what has arrived of it waits there too.
-/

/-- A read from the input. -/
inductive ReadCall where
  | number
  | char
  deriving DecidableEq, Repr

/-- What was read. -/
inductive Reading (N : Type) where
  | number (value : Option N)
  | char (code : Int64)
  deriving DecidableEq, Repr

namespace Input

variable {N : Type} [Number N]

/-! ## The scanner -/

/-- Whether the bytes begin with a minus sign, and the bytes behind it. -/
def cutSign (bytes : List UInt8) : Bool × List UInt8 :=
  if bytes.head? = some 0x2D then (true, bytes.drop 1) else (false, bytes)

/-- The bytes behind the terminator of a number, if there is one. -/
def cutTerminator : List UInt8 -> List UInt8
  | byte :: rest => if isTerminator byte then rest else byte :: rest
  | [] => []

/-- The number of a sign and digits.  There is none without digits, or if it cannot be held. -/
def numeral? (negative : Bool) (digits : List UInt8) : Option N :=
  if digits.isEmpty then none
  else Number.ofNumeral? ((if negative then ['-'] else []) ++ digits.map asciiChar)

/-- The number that some bytes begin with, if there is one, and the bytes that stay behind when it is
read. -/
def scanNumber (bytes : List UInt8) : Option N × List UInt8 :=
  let signed := cutSign (bytes.dropWhile isWhiteSpace)
  (numeral? signed.1 (signed.2.takeWhile isDigit), cutTerminator (signed.2.dropWhile isDigit))

/-- What a scanner reads at the front of some bytes, and the rest of them. -/
def scanCall (bytes : List UInt8) : ReadCall -> Reading N × List UInt8
  | .number => (.number (scanNumber bytes).1, (scanNumber bytes : Option N × List UInt8).2)
  | .char => (.char (scan bytes).1, (scan bytes).2)

/-- What a scanner reads call by call, and the rest of the bytes. -/
def scanAll : List ReadCall -> List UInt8 -> List (Reading N) × List UInt8
  | [], bytes => ([], bytes)
  | call :: calls, bytes =>
      let first : Reading N × List UInt8 := scanCall bytes call
      let later := scanAll calls first.2
      (first.1 :: later.1, later.2)

theorem cutSign_suffix (bytes : List UInt8) : (cutSign bytes).2 <:+ bytes := by
  unfold cutSign
  split
  · exact List.drop_suffix 1 bytes
  · exact List.suffix_refl bytes

theorem cutTerminator_suffix (bytes : List UInt8) : cutTerminator bytes <:+ bytes := by
  unfold cutTerminator
  split
  · split
    · exact List.suffix_cons _ _
    · exact List.suffix_refl _
  · exact List.suffix_refl _

theorem scan_suffix (bytes : List UInt8) : (scan bytes).2 <:+ bytes := by
  unfold scan
  split
  · exact List.suffix_refl _
  · split
    · exact List.suffix_cons _ _
    · exact List.drop_suffix _ _

/-- A scanner leaves a rest of the bytes as it is. -/
theorem scanCall_suffix (bytes : List UInt8) (call : ReadCall) :
    (scanCall bytes call : Reading N × List UInt8).2 <:+ bytes := by
  cases call with
  | number =>
      exact (cutTerminator_suffix _).trans ((List.dropWhile_suffix _).trans
        ((cutSign_suffix _).trans (List.dropWhile_suffix _)))
  | char => exact scan_suffix bytes

theorem scanAll_suffix (calls : List ReadCall) :
    forall bytes : List UInt8, (scanAll calls bytes : List (Reading N) × List UInt8).2 <:+ bytes := by
  induction calls with
  | nil => exact List.suffix_refl
  | cons call calls inductionHypothesis =>
      exact fun bytes => (inductionHypothesis _).trans (scanCall_suffix bytes call)

/-! ## Numbers -/

variable {input : Input} {bytes : List UInt8}

/-- Taking bytes while they are accepted takes them from the front of the bytes to come, and leaves
the next one in the buffer. -/
theorem Delivers.takeWhile {accept : UInt8 -> Bool} {bound : Nat} (delivers : input.Delivers bytes)
    (enough : bytes.length < bound) :
    exists after, takeWhile accept bound input = (.ok (bytes.takeWhile accept), after) ∧
      after.Delivers (bytes.dropWhile accept) ∧ after.Holds 1 := by
  induction bytes generalizing input bound with
  | nil =>
      obtain ⟨bound, rfl⟩ := Nat.exists_eq_succ_of_ne_zero (Nat.ne_of_gt enough)
      obtain ⟨ready, looked, readyDelivers, holds⟩ := delivers.look
      exact ⟨ready, by rw [Input.takeWhile, looked]; rfl, readyDelivers, holds⟩
  | cons byte bytes inductionHypothesis =>
      obtain ⟨bound, rfl⟩ := Nat.exists_eq_succ_of_ne_zero (Nat.ne_of_gt (Nat.zero_lt_of_lt enough))
      obtain ⟨ready, looked, readyDelivers, holds⟩ := delivers.look
      rw [List.head?_cons] at looked
      by_cases accepted : accept byte = true
      · obtain ⟨after, taken, afterDelivers, afterHolds⟩ :=
          inductionHypothesis (readyDelivers.drop holds) (Nat.lt_of_succ_lt_succ enough)
        refine ⟨after, ?_, ?_, afterHolds⟩
        · rw [List.takeWhile_cons_of_pos accepted]
          simp only [Input.takeWhile, looked, if_pos accepted, taken]
        · rw [List.dropWhile_cons_of_pos accepted]
          exact afterDelivers
      · refine ⟨ready, ?_, ?_, holds⟩
        · rw [List.takeWhile_cons_of_neg accepted]
          simp only [Input.takeWhile, looked, if_neg accepted]
        · rw [List.dropWhile_cons_of_neg accepted]
          exact readyDelivers

theorem Delivers.length_le (delivers : input.Delivers bytes) : bytes.length ≤ input.remaining := by
  rw [← delivers.pending_eq, pending, List.length_append, remaining]
  exact Nat.add_le_add_left (List.length_filterMap_le _ _) _

theorem Delivers.takeAll (delivers : input.Delivers bytes) (accept : UInt8 -> Bool) :
    exists after, takeAll accept input = (.ok (bytes.takeWhile accept), after) ∧
      after.Delivers (bytes.dropWhile accept) ∧ after.Holds 1 :=
  delivers.takeWhile (Nat.lt_succ_of_le delivers.length_le)

theorem Delivers.takeSign (delivers : input.Delivers bytes) :
    exists after, input.takeByte 0x2D = (.ok (cutSign bytes).1, after) ∧
      after.Delivers (cutSign bytes).2 := by
  obtain ⟨ready, looked, readyDelivers, holds⟩ := delivers.look
  by_cases signed : bytes.head? = some 0x2D
  · refine ⟨ready.drop 1, ?_, ?_⟩
    · simp only [Input.takeByte, looked, cutSign, if_pos signed]
    · rw [cutSign, if_pos signed]
      exact readyDelivers.drop holds
  · refine ⟨ready, ?_, ?_⟩
    · simp only [Input.takeByte, looked, cutSign, if_neg signed]
    · rw [cutSign, if_neg signed]
      exact readyDelivers

/-- The terminator is known from the byte that waits in the buffer. -/
theorem Delivers.dropTerminator (delivers : input.Delivers bytes) (holds : input.Holds 1) :
    input.dropTerminator.Delivers (cutTerminator bytes) := by
  have front := delivers.take holds
  have left := delivers.drop holds
  cases buffer : input.buffer with
  | nil =>
      rw [buffer, List.take_nil] at front
      have nothing : bytes = [] := (List.take_eq_nil_iff.mp front.symm).resolve_left Nat.one_ne_zero
      rw [Input.dropTerminator, buffer]
      rw [nothing] at delivers ⊢
      exact delivers
  | cons byte rest =>
      cases bytes with
      | nil =>
          rw [buffer] at front
          cases front
      | cons first later =>
          rw [buffer] at front
          cases front
          rw [Input.drop, buffer] at left
          rw [Input.dropTerminator, buffer, cutTerminator]
          dsimp only
          split
          · exact left
          · exact delivers

/-- Reading a number finds what is at the front of the bytes to come. -/
theorem Delivers.readNumber (delivers : input.Delivers bytes) :
    exists after, input.readNumber = (.ok (scanNumber bytes : Option N × List UInt8).1, after) ∧
      after.Delivers (scanNumber bytes : Option N × List UInt8).2 := by
  obtain ⟨blankless, skipped, blanklessDelivers, -⟩ := delivers.takeAll isWhiteSpace
  obtain ⟨signless, signed, signlessDelivers⟩ := blanklessDelivers.takeSign
  obtain ⟨spent, taken, spentDelivers, holds⟩ := signlessDelivers.takeAll isDigit
  refine ⟨spent.dropTerminator, ?_, spentDelivers.dropTerminator holds⟩
  simp only [Input.readNumber, skipped, signed, taken, scanNumber, numeral?]
  split <;> rfl

/-! ## What waits in the buffer -/

/-- The buffer is filled no further than wanted. -/
theorem length_fill_le (wanted : Nat) (failing : Bool) (arrivals : List Arrival) :
    forall buffer : List UInt8,
      (fill wanted failing buffer arrivals).2.1.length ≤ max wanted buffer.length := by
  induction arrivals with
  | nil =>
      intro buffer
      unfold fill
      split
      · exact Nat.le_max_right _ _
      · exact Nat.le_max_right _ _
  | cons arrival later inductionHypothesis =>
      intro buffer
      unfold fill
      split
      · exact Nat.le_max_right _ _
      next short =>
        cases arrival with
        | byte value =>
            have grown := inductionHypothesis (buffer ++ [value])
            rw [List.length_append, List.length_singleton] at grown
            dsimp only
            omega
        | interrupted => exact inductionHypothesis buffer

theorem length_demand_le (wanted : Nat) (input : Input) :
    (input.demand wanted).2.buffer.length ≤ max wanted input.buffer.length :=
  length_fill_le wanted input.failing input.arrivals input.buffer

theorem length_drop_le (count : Nat) (input : Input) :
    (input.drop count).buffer.length ≤ input.buffer.length := by
  rw [drop, List.length_drop]
  exact Nat.sub_le _ _

theorem length_look_le (held : input.buffer.length ≤ 1) : input.look.2.buffer.length ≤ 1 := by
  have filled := length_demand_le 1 input
  rw [Nat.max_eq_left held] at filled
  unfold look
  rcases attempt : input.demand 1 with ⟨_ | _, ready⟩
  · rw [attempt] at filled
    exact filled
  · rw [attempt] at filled
    exact filled

theorem length_takeWhile_le (accept : UInt8 -> Bool) (bound : Nat) :
    forall input : Input, input.buffer.length ≤ 1 ->
      (takeWhile accept bound input).2.buffer.length ≤ 1 := by
  induction bound with
  | zero => exact fun _ held => held
  | succ bound inductionHypothesis =>
      intro input held
      have looked := length_look_le held
      unfold takeWhile
      generalize input.look = attempt at looked ⊢
      rcases attempt with ⟨_ | _ | byte, ready⟩
      · exact looked
      · exact looked
      · dsimp only
        split
        · have rest := inductionHypothesis (ready.drop 1) (Nat.le_trans (length_drop_le 1 ready) looked)
          generalize takeWhile accept bound (ready.drop 1) = attempt at rest ⊢
          rcases attempt with ⟨_ | _, after⟩
          · exact rest
          · exact rest
        · exact looked

theorem length_takeByte_le (wanted : UInt8) (held : input.buffer.length ≤ 1) :
    (input.takeByte wanted).2.buffer.length ≤ 1 := by
  have looked := length_look_le held
  unfold takeByte
  generalize input.look = attempt at looked ⊢
  rcases attempt with ⟨_ | next, ready⟩
  · exact looked
  · dsimp only
    split
    · exact Nat.le_trans (length_drop_le 1 ready) looked
    · exact looked

theorem length_dropTerminator_le (held : input.buffer.length ≤ 1) :
    input.dropTerminator.buffer.length ≤ 1 := by
  unfold dropTerminator
  split
  next byte rest buffer =>
    split
    · rw [buffer, List.length_cons] at held
      exact Nat.le_of_succ_le held
    · exact held
  · exact held

/-- Reading a number looks at one byte behind what it uses up, also if the source fails. -/
theorem length_readNumber_le (held : input.buffer.length ≤ 1) :
    (input.readNumber : Except ChannelFault (Option N) × Input).2.buffer.length ≤ 1 := by
  have skipped : (input.takeAll isWhiteSpace).2.buffer.length ≤ 1 :=
    length_takeWhile_le isWhiteSpace _ input held
  unfold readNumber
  generalize input.takeAll isWhiteSpace = attempt at skipped ⊢
  rcases attempt with ⟨_ | _, blankless⟩
  · exact skipped
  dsimp only at skipped ⊢
  have signed := length_takeByte_le 0x2D skipped
  generalize blankless.takeByte 0x2D = attempt at signed ⊢
  rcases attempt with ⟨_ | negative, signless⟩
  · exact signed
  dsimp only at signed ⊢
  have taken : (signless.takeAll isDigit).2.buffer.length ≤ 1 :=
    length_takeWhile_le isDigit _ signless signed
  generalize signless.takeAll isDigit = attempt at taken ⊢
  rcases attempt with ⟨_ | digits, spent⟩
  · exact taken
  · dsimp only at taken ⊢
    split
    · exact length_dropTerminator_le taken
    · exact length_dropTerminator_le taken

/-- Reading a character uses up all that it has asked for, if the source does not fail. -/
theorem length_readChar_le {code : Int64} (held : input.buffer.length ≤ 1)
    (read : input.readChar.1 = .ok code) : input.readChar.2.buffer.length ≤ 1 := by
  have looked := length_look_le held
  unfold readChar at read ⊢
  generalize input.look = attempt at looked read ⊢
  rcases attempt with ⟨_ | _ | lead, ready⟩
  · cases read
  · exact looked
  dsimp only at looked read ⊢
  cases announces : announced lead with
  | none => exact Nat.le_trans (length_drop_le 1 ready) looked
  | some length =>
      have filled := length_demand_le length ready
      rw [announces] at read
      dsimp only at read ⊢
      generalize ready.demand length = attempt at filled read ⊢
      rcases attempt with ⟨_ | _, full⟩
      · cases read
      · have left : (full.drop length).buffer.length ≤ 1 := by
          rw [drop, List.length_drop]
          dsimp only at filled
          omega
        dsimp only
        split
        · exact left
        · exact left

/-! ## Call after call -/

/-- Make a call. -/
def call (input : Input) : ReadCall -> Except ChannelFault (Reading N) × Input
  | .number => (input.readNumber.1.map .number,
      (input.readNumber : Except ChannelFault (Option N) × Input).2)
  | .char => (input.readChar.1.map .char, input.readChar.2)

/-- Make calls one after the other, also after one that fails. -/
def callAll : List ReadCall -> Input -> List (Except ChannelFault (Reading N)) × Input
  | [], input => ([], input)
  | first :: calls, input =>
      let made : Except ChannelFault (Reading N) × Input := input.call first
      let later := callAll calls made.2
      (made.1 :: later.1, later.2)

theorem Delivers.call (delivers : input.Delivers bytes) (made : ReadCall) :
    exists after, input.call made = (.ok (scanCall bytes made : Reading N × List UInt8).1, after) ∧
      after.Delivers (scanCall bytes made : Reading N × List UInt8).2 ∧
      (input.buffer.length ≤ 1 -> after.buffer.length ≤ 1) := by
  cases made with
  | number =>
      obtain ⟨after, read, afterDelivers⟩ := delivers.readNumber (N := N)
      refine ⟨after, by rw [Input.call, read]; rfl, afterDelivers, fun held => ?_⟩
      have bounded := length_readNumber_le (N := N) held
      rwa [read] at bounded
  | char =>
      obtain ⟨after, read, afterDelivers⟩ := delivers.readChar
      refine ⟨after, by rw [Input.call, read]; rfl, afterDelivers, fun held => ?_⟩
      have bounded := length_readChar_le held (congrArg Prod.fst read)
      rwa [read] at bounded

/-- Calls find what the scanner finds, and leave what it leaves. -/
theorem Delivers.callAll (calls : List ReadCall) :
    forall (input : Input) (bytes : List UInt8), input.Delivers bytes ->
      (callAll calls input : List (Except ChannelFault (Reading N)) × Input).1 =
          (scanAll calls bytes).1.map Except.ok ∧
        (callAll calls input : List (Except ChannelFault (Reading N)) × Input).2.Delivers
          (scanAll calls bytes : List (Reading N) × List UInt8).2 ∧
        (input.buffer.length ≤ 1 ->
          (callAll calls input : List (Except ChannelFault (Reading N)) × Input).2.buffer.length ≤ 1) := by
  induction calls with
  | nil => exact fun input bytes delivers => ⟨rfl, delivers, id⟩
  | cons made calls inductionHypothesis =>
      intro input bytes delivers
      obtain ⟨after, first, afterDelivers, afterHeld⟩ := delivers.call (N := N) made
      obtain ⟨results, lastDelivers, lastHeld⟩ := inductionHypothesis after _ afterDelivers
      simp only [Input.callAll, first, scanAll, List.map_cons, results]
      exact ⟨trivial, lastDelivers, lastHeld ∘ afterHeld⟩

/-! ## A source that fails -/

/-- The input with all that has arrived in its buffer. -/
def gathered (input : Input) : Input :=
  { input with buffer := input.pending, arrivals := [] }

/-- Whether bytes do not make up what the first of them announces. -/
def IsCutShort : List UInt8 -> Prop
  | [] => True
  | lead :: later => exists length, announced lead = some length ∧ (lead :: later).length < length

theorem fill_of_enough {wanted : Nat} {arrivals : List Arrival} (failing : Bool) :
    forall buffer : List UInt8,
      wanted ≤ (buffer ++ arrivals.filterMap Arrival.byte?).length ->
      (fill wanted failing buffer arrivals).1 = .ok () := by
  induction arrivals with
  | nil =>
      intro buffer enough
      rw [List.filterMap_nil, List.append_nil] at enough
      rw [fill, if_pos (.inl enough)]
  | cons arrival later inductionHypothesis =>
      intro buffer enough
      unfold fill
      split
      · rfl
      · cases arrival with
        | byte value =>
            refine inductionHypothesis (buffer ++ [value]) ?_
            rw [List.append_assoc]
            exact enough
        | interrupted => exact inductionHypothesis buffer enough

theorem fill_of_short {wanted : Nat} {arrivals : List Arrival} :
    forall buffer : List UInt8,
      (buffer ++ arrivals.filterMap Arrival.byte?).length < wanted ->
      fill wanted true buffer arrivals =
        (.error .inputFailed, buffer ++ arrivals.filterMap Arrival.byte?, []) := by
  induction arrivals with
  | nil =>
      intro buffer short
      rw [List.filterMap_nil, List.append_nil] at short ⊢
      rw [fill, if_neg (by simpa using short)]
  | cons arrival later inductionHypothesis =>
      intro buffer short
      have lacking : ¬ wanted ≤ buffer.length := by
        rw [List.length_append] at short
        omega
      unfold fill
      rw [if_neg lacking]
      cases arrival with
      | byte value =>
          have rest := inductionHypothesis (buffer ++ [value])
          rw [List.append_assoc] at rest
          exact rest short
      | interrupted => exact inductionHypothesis buffer short

/-- As long as there are bytes enough it does not matter that the source fails behind them. -/
theorem demand_of_enough {wanted : Nat} (enough : wanted ≤ input.pending.length) :
    exists ready, input.demand wanted = (.ok (), ready) ∧ ready.pending = input.pending ∧
      ready.failing = input.failing ∧ ready.Holds wanted := by
  obtain ⟨kept, held, -⟩ := filled_fill wanted input.failing input.arrivals input.buffer
  exact ⟨(input.demand wanted).2, Prod.ext (fill_of_enough _ _ enough) rfl, kept, rfl, held⟩

theorem demand_of_short {wanted : Nat} (failing : input.failing = true)
    (short : input.pending.length < wanted) :
    input.demand wanted = (.error .inputFailed, input.gathered) := by
  have filled := fill_of_short input.buffer short
  simp only [demand, failing, filled, gathered, pending]

/-- Whether the source fails behind the bytes to come has no influence on them. -/
theorem delivers_close (input : Input) : input.close.Delivers input.pending :=
  ⟨rfl, rfl⟩

theorem look_of_cons {lead : UInt8} {later : List UInt8} (pending : input.pending = lead :: later) :
    exists ready, input.look = (.ok (some lead), ready) ∧ ready.pending = lead :: later ∧
      ready.failing = input.failing ∧ ready.Holds 1 := by
  have enough : 1 ≤ input.pending.length := by simp [pending]
  obtain ⟨ready, demanded, kept, same, holds⟩ := demand_of_enough enough
  have front : ready.buffer.take 1 = ready.pending.take 1 := ready.delivers_close.take holds
  have head := congrArg List.head? front
  rw [List.head?_take, List.head?_take, if_neg Nat.one_ne_zero, if_neg Nat.one_ne_zero, kept,
    pending, List.head?_cons] at head
  refine ⟨ready, ?_, kept.trans pending, same, holds⟩
  simp only [look, demanded, head]

/-- Where a source fails inside a character, all that has arrived of it stays in the buffer. -/
theorem readChar_of_isCutShort (failing : input.failing = true)
    (cut : IsCutShort input.pending) : input.readChar = (.error .inputFailed, input.gathered) := by
  cases pending : input.pending with
  | nil =>
      have short : input.pending.length < 1 := by simp [pending]
      rw [readChar, look, demand_of_short failing short]
  | cons lead later =>
      obtain ⟨ready, looked, kept, same, -⟩ := look_of_cons pending
      rw [pending] at cut
      obtain ⟨length, announces, short⟩ := cut
      rw [← kept] at short
      have gathers : ready.gathered = input.gathered := by
        simp only [gathered, kept, pending, same]
      simp only [readChar, looked, announces, demand_of_short (same.trans failing) short, gathers]

/-- Where all of a character has arrived, it is read as if the source did not fail. -/
theorem readChar_of_not_isCutShort (whole : ¬ IsCutShort input.pending) :
    exists after, input.readChar = (.ok (scan input.pending).1, after) ∧
      after.pending = (scan input.pending).2 := by
  cases pending : input.pending with
  | nil =>
      rw [pending] at whole
      exact absurd trivial whole
  | cons lead later =>
      rw [pending] at whole
      obtain ⟨ready, looked, kept, -, holds⟩ := look_of_cons pending
      cases announces : announced lead with
      | none =>
          have left := (ready.delivers_close.drop holds).pending_eq
          rw [kept] at left
          refine ⟨ready.drop 1, ?_, ?_⟩
          · simp only [readChar, looked, announces, scan]
          · simp only [scan, announces]
            exact left
      | some length =>
          have enough : length ≤ ready.pending.length := by
            rw [kept]
            exact Nat.le_of_not_lt fun short => whole ⟨length, announces, short⟩
          obtain ⟨full, demanded, fullKept, -, fullHolds⟩ := demand_of_enough enough
          have front : full.buffer.take length = (lead :: later).take length := by
            rw [← kept, ← fullKept]
            exact full.delivers_close.take fullHolds
          have left := (full.delivers_close.drop fullHolds).pending_eq
          rw [fullKept, kept] at left
          refine ⟨full.drop length, ?_, ?_⟩
          · simp only [readChar, looked, announces, demanded, scan, front]
            split <;> rfl
          · simp only [scan, announces]
            exact left

/-- What has arrived before a failure comes before the bytes that arrive later. -/
theorem delivers_receive_gathered (input : Input) (more : List UInt8) :
    (input.gathered.receive more).close.Delivers (input.pending ++ more) where
  steady := rfl
  pending_eq := by
    simp only [pending, receive, close, gathered, List.nil_append, Arrival.filterMap_byte?]

/-- The buffer cannot be seen in what is read.  Whatever bytes the source delivers, and however often
it reports an interruption before a byte or before the end, the calls read what a scanner reads.
Buffer and source together then hold the rest of the bytes, and at most one byte of it is in the
buffer.  As the calls are any, this is so after each of them.  If the source fails, reading a
character fails only where it is cut short, and all that has arrived stays in the buffer, to be read
before what arrives later. -/
theorem callAll_scans (arrivals : List Arrival) (calls : List ReadCall) :
    (let bytes := arrivals.filterMap Arrival.byte?
      let scanned : List (Reading N) × List UInt8 := scanAll calls bytes
      let made : List (Except ChannelFault (Reading N)) × Input :=
        callAll calls { buffer := [], arrivals := arrivals, failing := false }
      made.1 = scanned.1.map Except.ok ∧
        made.2.buffer ++ made.2.arrivals.filterMap Arrival.byte? = scanned.2 ∧
        scanned.2 <:+ bytes ∧ made.2.buffer.length ≤ 1) ∧
      forall stalled : Input, stalled.failing = true ->
        (¬ IsCutShort stalled.pending -> exists after,
          stalled.readChar = (.ok (scan stalled.pending).1, after) ∧
            after.pending = (scan stalled.pending).2) ∧
        (IsCutShort stalled.pending ->
          stalled.readChar = (.error .inputFailed, stalled.gathered) ∧
            forall more,
              (stalled.gathered.receive more).close.Delivers (stalled.pending ++ more)) := by
  refine ⟨?_, ?_⟩
  · have delivers : Delivers { buffer := [], arrivals := arrivals, failing := false }
        (arrivals.filterMap Arrival.byte?) := ⟨rfl, rfl⟩
    obtain ⟨results, rest, held⟩ := Delivers.callAll (N := N) calls _ _ delivers
    exact ⟨results, rest.pending_eq, scanAll_suffix calls _, held (Nat.zero_le 1)⟩
  · intro stalled failing
    exact ⟨readChar_of_not_isCutShort, fun cut =>
      ⟨readChar_of_isCutShort failing cut, delivers_receive_gathered stalled⟩⟩

/-- A number and a character, each interrupted, and a character that the source does not finish. -/
theorem callAll_scans_interrupted :
    let source : List Arrival := [.byte 0x31, .interrupted, .byte 0x32, .byte 0x0A, .byte 0x41,
      .interrupted]
    let stalled : Input := { buffer := [0xEA], arrivals := [.interrupted, .byte 0xB0], failing := true }
    (callAll [.number, .char, .number] { buffer := [], arrivals := source, failing := false } :
        List (Except ChannelFault (Reading Int)) × Input).1 =
        [.ok (.number (some 12)), .ok (.char 0x41), .ok (.number none)] ∧
      stalled.failing = true ∧ IsCutShort stalled.pending ∧
      stalled.readChar.2.buffer = [0xEA, 0xB0] := by
  intro source stalled
  have cut : IsCutShort stalled.pending := ⟨3, rfl, by decide⟩
  have scanned : (scanAll [.number, .char, .number] [0x31, 0x32, 0x0A, 0x41] :
      List (Reading Int) × List UInt8).1 = [.number (some 12), .char 0x41, .number none] := by
    decide +kernel
  obtain ⟨⟨results, -⟩, stalls⟩ :=
    callAll_scans (N := Int) source [.number, .char, .number]
  refine ⟨results.trans (congrArg (List.map Except.ok) scanned), rfl, cut, ?_⟩
  · rw [((stalls stalled rfl).2 cut).1]
    rfl

end Input
end HangulPane
