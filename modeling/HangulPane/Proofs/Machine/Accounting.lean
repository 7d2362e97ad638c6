import HangulPane.Proofs.Console.Echo
import HangulPane.Proofs.Machine.Output

namespace HangulPane

/-!
What a run writes, accounted for by its calls.

The output of a run is made of what its calls write, one after the other: the numeral of a number,
the character of a code point, and the replacement character for any other value that is written as
a character.  Each value of the last kind is a stray and warns once.  So the warnings of a run are
those of its strays, throttled.
-/

namespace ConsoleCall

variable {N : Type} [Number N]

/-- The bytes that a call writes if it succeeds. -/
def bytes : ConsoleCall N -> List UInt8
  | .writeNumber value _ => Utf8.encode (Number.toDecimal value).toList
  | .writeChar value _ =>
      if Number.IsScalar (Number.toInt value) then String.utf8EncodeChar (Number.shown value)
      else [0xEF, 0xBF, 0xBD]
  | .readNumber _ | .readChar _ => []

/-- The value that a call writes as a character though it is no code point. -/
def stray? : ConsoleCall N -> Option N
  | .writeChar value _ => if Number.IsScalar (Number.toInt value) then none else some value
  | .writeNumber .. | .readNumber _ | .readChar _ => none

/-- Whether a call writes all its bytes, if it writes any. -/
def Delivered : ConsoleCall N -> Prop
  | .writeNumber _ result | .writeChar _ result => result = .ok ()
  | .readNumber _ | .readChar _ => True

end ConsoleCall

namespace Console

variable {N : Type} [Number N] {limit : Int} {calls : List (ConsoleCall N)} {console : Console}

/-- The values that calls write as characters though they are no code points. -/
def strays (calls : List (ConsoleCall N)) : List N :=
  calls.filterMap ConsoleCall.stray?

/-- Whether calls account for all that has come out of a console that accepts everything. -/
structure Accounted (limit : Int) (calls : List (ConsoleCall N)) (console : Console) : Prop where
  unlimited : console.output.limit = none
  flushed : console.flushes.limit = none
  written : console.output.written.toList = calls.flatMap ConsoleCall.bytes
  told : console.warnings.Told limit ((strays calls).map Number.toHex)
  delivered : forall call, call ∈ calls -> call.Delivered

theorem accounted_start (input : Input) (limit : Int) :
    Accounted limit ([] : List (ConsoleCall N)) (start input none (Warnings.fresh limit none)) :=
  ⟨rfl, rfl, rfl, Warnings.told_fresh limit, nofun⟩

/-- A call accounts for what comes out by it. -/
theorem Accounted.add (accounted : Accounted limit calls console) {call : ConsoleCall N}
    {after : Console} (unlimited : after.output.limit = console.output.limit)
    (flushed : after.flushes.limit = console.flushes.limit)
    (grown : after.output.written.toList = console.output.written.toList ++ call.bytes)
    (told : after.warnings.Told limit
      ((strays calls).map Number.toHex ++ call.stray?.toList.map Number.toHex))
    (delivered : call.Delivered) : Accounted limit (calls ++ [call]) after := by
  have strayed : strays (calls ++ [call]) = strays calls ++ call.stray?.toList := by
    rw [strays, List.filterMap_append, List.filterMap_cons, List.filterMap_nil]
    cases call.stray? <;> rfl
  constructor
  · exact unlimited.trans accounted.unlimited
  · exact flushed.trans accounted.flushed
  · rw [grown, accounted.written, List.flatMap_append, List.flatMap_singleton]
  · rw [strayed, List.map_append]
    exact told
  · intro other member
    rcases List.mem_append.mp member with earlier | last
    · exact accounted.delivered other earlier
    · rw [List.mem_singleton.mp last]
      exact delivered

/-- The warnings stay as they are where a call is no stray. -/
theorem Accounted.addPlain (accounted : Accounted limit calls console) {call : ConsoleCall N}
    {after : Console} (unlimited : after.output.limit = console.output.limit)
    (flushed : after.flushes.limit = console.flushes.limit)
    (grown : after.output.written.toList = console.output.written.toList ++ call.bytes)
    (plain : call.stray? = none) (same : after.warnings = console.warnings)
    (delivered : call.Delivered) : Accounted limit (calls ++ [call]) after := by
  refine accounted.add unlimited flushed grown ?_ delivered
  rw [same, plain, Option.toList_none, List.map_nil, List.append_nil]
  exact accounted.told

theorem Accounted.flush (accounted : Accounted limit calls console) :
    Accounted limit calls console.flush.2 :=
  ⟨accounted.unlimited, accounted.flushed, accounted.written, accounted.told, accounted.delivered⟩

theorem Accounted.writeNumber (accounted : Accounted limit calls console) (value : N) :
    Accounted limit (calls ++ [.writeNumber value (console.writeNumber value).1])
      (console.writeNumber value).2 := by
  rw [Console.writeNumber, write_of_unlimited accounted.unlimited]
  exact accounted.addPlain rfl rfl Array.toList_appendList rfl rfl rfl

/-- A value that is no code point warns and is written as the replacement character. -/
theorem Accounted.writeReplacement (accounted : Accounted limit calls console) {value : N}
    (stray : ¬ Number.IsScalar (Number.toInt value)) :
    (console.writeReplacement (Number.toHex value)).1 = .ok () ∧
      Accounted limit (calls ++ [.writeChar value (.ok ())])
        (console.writeReplacement (Number.toHex value)).2 := by
  obtain ⟨passed, told⟩ := accounted.told.warnRange (Number.toHex value)
  let warned : Console :=
    { console with warnings := (console.warnings.warnRange (Number.toHex value)).2 }
  have attempt : console.warnRange (Number.toHex value) = (.ok (), warned) :=
    congrArg (·, warned) passed
  unfold Console.writeReplacement
  rw [attempt]
  dsimp only
  rw [write_of_unlimited (show warned.output.limit = none from accounted.unlimited)]
  refine ⟨rfl, accounted.add rfl rfl ?_ ?_ rfl⟩
  · rw [ConsoleCall.bytes, if_neg stray]
    exact Array.toList_appendList
  · rw [ConsoleCall.stray?, if_neg stray]
    exact told

/-- A code point is written as its character, and any other value warns and is written as the
replacement character. -/
theorem Accounted.writeChar (accounted : Accounted limit calls console) (value : N) :
    Accounted limit (calls ++ [.writeChar value (console.writeChar value).1])
      (console.writeChar value).2 := by
  unfold Console.writeChar
  cases found : Number.toChar? value with
  | some c =>
      have scalar := Number.isScalar_of_toChar? found
      dsimp only
      rw [write_of_unlimited accounted.unlimited]
      refine accounted.addPlain rfl rfl ?_ (if_pos scalar) rfl rfl
      rw [ConsoleCall.bytes, if_pos scalar, Number.shown, found, Option.getD_some,
        Array.toList_appendList]
  | none =>
      have stray := (Number.toChar?_eq_none_iff value).mp found
      have flushed := accounted.flush
      rw [flush_of_unlimited accounted.flushed] at flushed
      obtain ⟨passed, written⟩ := flushed.writeReplacement stray
      dsimp only
      rw [flushThen_of_unlimited accounted.flushed, passed]
      exact written

/-- A read shows nothing. -/
theorem Accounted.addRead (accounted : Accounted limit calls console) {call : ConsoleCall N}
    {after : Console} (silent : call.bytes = []) (plain : call.stray? = none)
    (delivered : call.Delivered) (read : ∃ input, after = { console.flush.2 with input }) :
    Accounted limit (calls ++ [call]) after := by
  obtain ⟨input, rfl⟩ := read
  refine accounted.addPlain rfl rfl ?_ plain rfl delivered
  rw [silent, List.append_nil]
  rfl

end Console

namespace Machine

variable {N : Type} [Number N] {limit : Int} {calls : List (ConsoleCall N)} {machine : Machine N}
  {console : Console}

theorem Talks.accounted {instruction : Instruction} {after : Console}
    (talks : machine.Talks console instruction after)
    (accounted : console.Accounted limit calls) :
    after.Accounted limit (calls ++ (machine.callOf console instruction).toList) := by
  cases talks with
  | silent quiet =>
      rw [quiet, Option.toList_none, List.append_nil]
      exact accounted
  | wroteNumber value called =>
      rw [called]
      exact accounted.writeNumber value
  | wroteChar value called =>
      rw [called]
      exact accounted.writeChar value
  | readNumber called =>
      rw [called]
      refine accounted.addRead rfl rfl trivial ?_
      rw [Console.readNumber, Console.flushThen_of_unlimited accounted.flushed,
        Console.flush_of_unlimited accounted.flushed]
      exact ⟨_, rfl⟩
  | readChar called =>
      rw [called]
      refine accounted.addRead rfl rfl trivial ?_
      rw [Console.readChar, Console.flushThen_of_unlimited accounted.flushed,
        Console.flush_of_unlimited accounted.flushed]
      exact ⟨_, rfl⟩

/-- The call of a step joins those that account for what comes out. -/
theorem accounted_step (accounted : console.Accounted limit calls) (code : Array Instruction)
    (machine : Machine N) :
    (machine.step code console).console.Accounted limit
      (calls ++ (machine.call? code console).toList) := by
  unfold step call?
  cases code[machine.index]? with
  | none =>
      rw [Option.bind_none, Option.toList_none, List.append_nil]
      exact accounted
  | some instruction =>
      rw [Option.bind_some]
      exact (talks_execute instruction).accounted accounted

/-- The calls of a run account for what comes out by it. -/
theorem accounted_runFrom (code : Array Instruction) (taken bound : Nat) (machine : Machine N)
    (accounted : console.Accounted limit calls) :
    (runFrom code taken bound machine console).console.Accounted limit
      (calls ++ Machine.calls code bound machine console) :=
  runFrom_keeps (Console.Accounted limit) code (fun _ _ earlier => earlier.flush)
    (fun _ machine _ earlier => accounted_step earlier code machine) bound taken machine console
    calls accounted

/-- A step makes a stray where it writes a character and the next value is no code point. -/
theorem stray?_call?_iff (code : Array Instruction) (machine : Machine N) (console : Console)
    (value : N) :
    (machine.call? code console).bind ConsoleCall.stray? = some value <->
      code[machine.index]? = some .popChar ∧ machine.space.peek? = some value ∧
        ¬ Number.IsScalar (Number.toInt value) := by
  unfold call?
  cases fetched : code[machine.index]? with
  | none => simp
  | some instruction =>
      rw [Option.bind_some]
      cases instruction with
      | popChar =>
          rw [callOf_popChar]
          cases machine.space.peek? with
          | none => simp
          | some next =>
              simp only [ConsoleCall.stray?, Option.map_some, Option.bind_some,
                Option.ite_none_left_eq_some, Option.some.injEq, true_and]
              constructor
              · rintro ⟨stray, rfl⟩
                exact ⟨rfl, stray⟩
              · rintro ⟨rfl, stray⟩
                exact ⟨stray, rfl⟩
      | popNum =>
          rw [callOf_popNum]
          cases machine.space.peek? <;> simp [ConsoleCall.stray?]
      | _ => simp [callOf, ConsoleCall.stray?]

/-- Warnings are given in order until the limit is used up, silence is announced right behind the
last of them, and a negative limit lets every one through.  A run of any program warns of its strays
in this way, whatever it reads and however long it goes on, and each of its calls writes its bytes,
a stray the replacement character.  Its strays are the steps that write a character when the next
value is no code point. -/
theorem run_throttles_strays :
    (forall (limit : Int) (hexes : List String),
      ((Warnings.fresh limit none).warnAll hexes).sink.written.toList = Warnings.bytes
        (if limit < 0 then hexes.map Warnings.rangeLine
        else (hexes.take limit.toNat).map Warnings.rangeLine ++
          if 0 < limit ∧ limit ≤ hexes.length then [Warnings.limitLine limit] else [])) ∧
    (forall (program : Program) (bound : Nat) (input : Input) (limit : Int),
      let console := Console.start input none (Warnings.fresh limit none)
      let calls : List (ConsoleCall N) := Machine.calls program.linked bound start console
      let strays := Console.strays calls
      (run program bound console : Run N).console.Accounted limit calls ∧
        ((Warnings.given limit (strays.map Number.toHex)).length : Int) =
          if limit < 0 then (strays.length : Int) else min strays.length limit) ∧
    forall (code : Array Instruction) (machine : Machine N) (console : Console) (value : N),
      (machine.call? code console).bind ConsoleCall.stray? = some value <->
        code[machine.index]? = some .popChar ∧ machine.space.peek? = some value ∧
          ¬ Number.IsScalar (Number.toInt value) := by
  refine ⟨?_, ?_, stray?_call?_iff⟩
  · intro limit hexes
    rw [(Warnings.told_warnAll hexes [] _ (Warnings.told_fresh limit)).written, List.nil_append]
    unfold Warnings.lines Warnings.given
    by_cases negative : limit < 0
    · have quiet : ¬ (0 < limit ∧ limit ≤ hexes.length) := by omega
      rw [if_pos negative, if_pos negative, if_neg quiet, List.append_nil]
    · rw [if_neg negative, if_neg negative]
  · intro program bound input limit console calls strays
    constructor
    · exact accounted_runFrom program.linked 0 bound start (Console.accounted_start input limit)
    · rw [Warnings.length_given, List.length_map]

end Machine
end HangulPane
