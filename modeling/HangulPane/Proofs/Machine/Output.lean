import HangulPane.Proofs.Machine.DepthTables
import HangulPane.Proofs.Machine.Observation

namespace HangulPane

/-!
Output is never taken back.

A machine does nothing to a console but by the calls it makes.  Whatever it does, the bytes written
before stay in front of the bytes written later.  So the output of a run is a prefix of the output
of each longer run.
-/

namespace Console

/-- Whether the output of one console begins with the output of another one. -/
def Extends (after before : Console) : Prop :=
  before.output.written.toList <+: after.output.written.toList

theorem Extends.refl (console : Console) : console.Extends console :=
  List.prefix_refl _

theorem Extends.trans {first second third : Console} (later : third.Extends second)
    (earlier : second.Extends first) : third.Extends first :=
  List.IsPrefix.trans earlier later

theorem Extends.of_output_eq {after before : Console} (same : after.output = before.output) :
    after.Extends before :=
  ⟨[], by rw [List.append_nil, same]⟩

theorem extends_write (console : Console) (bytes : List UInt8) :
    (console.write bytes).2.Extends console := by
  simp [Extends, write, Sink.write]

theorem extends_writeReplacement (console : Console) (hex : String) :
    (console.writeReplacement hex).2.Extends console := by
  unfold writeReplacement
  have warned : (console.warnRange hex).2.Extends console := .of_output_eq rfl
  rcases attempt : console.warnRange hex with ⟨_ | _, after⟩
  · rw [attempt] at warned
    exact warned
  · rw [attempt] at warned
    exact (after.extends_write _).trans warned

theorem extends_writeChar {N : Type} [Number N] (console : Console) (value : N) :
    (console.writeChar value).2.Extends console := by
  unfold writeChar
  have flushed : console.flush.2.Extends console := .of_output_eq rfl
  cases Number.toChar? value with
  | some c => exact console.extends_write _
  | none =>
      dsimp only
      rcases console.flushThen_cases _ with ⟨fault, _, fails⟩ | ⟨_, goesOn⟩
      · rw [fails]
        exact flushed
      · rw [goesOn]
        exact (extends_writeReplacement _ _).trans flushed

end Console

namespace Machine

variable {N : Type} [Number N] {machine : Machine N} {console : Console}

/-- What an instruction does to a console: nothing without a call, and with one what the call
does. -/
inductive Talks (machine : Machine N) (console : Console) (instruction : Instruction) :
    Console -> Prop where
  | silent (quiet : machine.callOf console instruction = none) :
      Talks machine console instruction console
  | wroteNumber (value : N) (called : machine.callOf console instruction =
        some (.writeNumber value (console.writeNumber value).1)) :
      Talks machine console instruction (console.writeNumber value).2
  | wroteChar (value : N) (called : machine.callOf console instruction =
        some (.writeChar value (console.writeChar value).1)) :
      Talks machine console instruction (console.writeChar value).2
  | readNumber (called : machine.callOf console instruction =
        some (.readNumber console.readNumber.1)) :
      Talks machine console instruction (console.readNumber (N := N)).2
  | readChar (called : machine.callOf console instruction =
        some (.readChar console.readChar.1)) :
      Talks machine console instruction (console.readChar (N := N)).2

theorem talks_popThen {instruction : Instruction} {next : N -> Machine N -> Stepped N}
    (quiet : machine.callOf console instruction = none)
    (later : forall value machine, (next value machine).console = console) :
    machine.Talks console instruction (machine.popThen console next).console := by
  unfold popThen
  split
  · exact .silent quiet
  · rw [later]
    exact .silent quiet

theorem callOf_popNum :
    machine.callOf console .popNum = machine.space.peek?.map fun value =>
      .writeNumber value (console.writeNumber value).1 := by
  unfold callOf Space.peek?
  cases machine.space.items <;> rfl

theorem callOf_popChar :
    machine.callOf console .popChar = machine.space.peek?.map fun value =>
      .writeChar value (console.writeChar value).1 := by
  unfold callOf Space.peek?
  cases machine.space.items <;> rfl

/-- What is written is the next value, if there is one. -/
theorem talks_output {instruction : Instruction} {call : N -> ConsoleCall N}
    {write : Console -> N -> Except ChannelFault Unit × Console}
    (called : machine.callOf console instruction = machine.space.peek?.map call)
    (writes : forall value, machine.callOf console instruction = some (call value) ->
      machine.Talks console instruction (write console value).2) :
    machine.Talks console instruction (machine.output console write).console := by
  unfold Space.peek? at called
  unfold output popThen Space.pop
  cases items : machine.space.items with
  | nil =>
      rw [items] at called
      exact .silent called
  | cons value rest =>
      rw [items] at called
      have talks := writes value called
      dsimp only
      split
      next attempt =>
        rw [attempt] at talks
        exact talks
      next attempt =>
        rw [attempt] at talks
        exact talks

theorem talks_perform (instruction : Instruction) :
    machine.Talks console instruction (machine.perform console instruction).console := by
  cases instruction with
  | add | sub | mul | div | mod | cmp =>
      simp only [perform, combine]
      split
      · exact .silent rfl
      · exact .silent rfl
  | pop => exact talks_popThen rfl fun _ _ => rfl
  | dup | swap =>
      simp only [perform, proceedWith]
      split
      · exact .silent rfl
      · exact .silent rfl
  | sel slot =>
      simp only [perform, select]
      split
      · exact .silent rfl
      · exact .silent rfl
  | mov slot =>
      simp only [perform, move]
      split
      · exact .silent rfl
      · exact talks_popThen rfl fun _ _ => rfl
  | brz target =>
      refine talks_popThen rfl ?_
      intro value machine
      split
      · rfl
      · rfl
  | popNum => exact talks_output callOf_popNum .wroteNumber
  | popChar => exact talks_output callOf_popChar .wroteChar
  | pushNum =>
      have talks : machine.Talks console .pushNum (console.readNumber (N := N)).2 :=
        .readNumber rfl
      simp only [perform, inputNumber]
      split
      all_goals
        rename_i attempt
        rw [attempt] at talks
        exact talks
  | pushChar =>
      have talks : machine.Talks console .pushChar (console.readChar (N := N)).2 :=
        .readChar rfl
      simp only [perform, inputChar]
      split
      all_goals
        rename_i attempt
        rw [attempt] at talks
        exact talks
  | push | noop | brPop1 | brPop2 | jmp | halt => exact .silent rfl

/-- An instruction that finds too few values makes no call. -/
theorem callOf_of_short {instruction : Instruction} (console : Console)
    (short : machine.space.size < instruction.opcode.requiredDepth) :
    machine.callOf console instruction = none := by
  have empty : instruction.opcode.requiredDepth = 1 -> machine.space.peek? = none := by
    intro one
    have nothing : machine.space.items = [] := List.length_eq_zero_iff.mp (by
      rw [one] at short
      exact Nat.lt_one_iff.mp short)
    rw [Space.peek?, nothing, List.head?_nil]
  cases instruction with
  | popNum => rw [callOf_popNum, empty rfl, Option.map_none]
  | popChar => rw [callOf_popChar, empty rfl, Option.map_none]
  | pushNum | pushChar => exact absurd short (Nat.not_lt_zero _)
  | _ => rfl

theorem talks_execute (instruction : Instruction) :
    machine.Talks console instruction (machine.execute console instruction).console := by
  by_cases short : machine.space.size < instruction.opcode.requiredDepth
  · have quiet := callOf_of_short console short
    rcases execute_of_short console short with ⟨_, target, jumps⟩ | ⟨_, fails⟩
    · rw [jumps]
      exact .silent quiet
    · rw [fails]
      exact .silent quiet
  · rw [execute_of_enough (Nat.le_of_not_lt short)]
    exact talks_perform instruction

/-- A call adds to the output or leaves it alone. -/
theorem Talks.extended {instruction : Instruction} {after : Console}
    (talks : machine.Talks console instruction after) : after.Extends console := by
  cases talks with
  | silent quiet => exact .refl console
  | wroteNumber value called => exact console.extends_write _
  | wroteChar value called => exact console.extends_writeChar value
  | readNumber called => exact .of_output_eq console.output_readNumber
  | readChar called => exact .of_output_eq console.output_readChar

theorem extends_step (code : Array Instruction) (machine : Machine N) (console : Console) :
    (machine.step code console).console.Extends console := by
  unfold step
  cases code[machine.index]? with
  | none => exact .refl console
  | some instruction => exact (talks_execute instruction).extended

/-- What steps with their calls and a flush keep, a run with its calls keeps too. -/
theorem runFrom_keeps (holds : List (ConsoleCall N) -> Console -> Prop) (code : Array Instruction)
    (flushed : forall calls console, holds calls console -> holds calls console.flush.2)
    (kept : forall calls (machine : Machine N) console, holds calls console ->
      holds (calls ++ (machine.call? code console).toList) (machine.step code console).console)
    (bound : Nat) :
    forall (taken : Nat) (machine : Machine N) (console : Console) (before : List (ConsoleCall N)),
      holds before console ->
      holds (before ++ calls code bound machine console)
        (runFrom code taken bound machine console).console := by
  induction bound with
  | zero =>
      intro taken machine console before held
      rw [calls, List.append_nil]
      exact held
  | succ bound inductionHypothesis =>
      intro taken machine console before held
      have after := kept before machine console held
      rcases stepped : machine.step code console with ⟨result, next, later⟩
      rw [stepped] at after
      cases result with
      | error fault =>
          simp only [runFrom, calls, stepped, List.append_nil]
          rw [(next.concludes_conclude ..).console_eq]
          exact flushed _ later after
      | ok progress =>
          cases progress with
          | halted =>
              simp only [runFrom, calls, stepped, List.append_nil]
              rw [(next.concludes_conclude ..).console_eq]
              exact flushed _ later after
          | continued | jumped =>
              simp only [runFrom, calls, stepped]
              rw [← List.append_assoc]
              exact inductionHypothesis (taken + 1) next later _ after

/-- A run adds to the output or leaves it alone. -/
theorem extends_runFrom (code : Array Instruction) (taken bound : Nat) (machine : Machine N)
    (console : Console) : (runFrom code taken bound machine console).console.Extends console := by
  refine runFrom_keeps (fun _ after => after.Extends console) code (fun _ _ extended => extended)
    ?_ bound taken machine console [] (.refl console)
  exact fun _ machine between earlier => (extends_step code machine between).trans earlier

/-- The output of a run begins with the output of each shorter run. -/
theorem extends_run (program : Program) (console : Console) {bound other : Nat}
    (shorter : bound ≤ other) :
    (run program other console : Run N).console.Extends
      (run program bound console : Run N).console := by
  rcases Nat.exists_eq_add_of_le shorter with ⟨more, rfl⟩
  unfold run
  rw [runFrom_add, Run.resumed]
  split
  · exact extends_runFrom _ _ more _ _
  · exact .refl _

end Machine
end HangulPane
