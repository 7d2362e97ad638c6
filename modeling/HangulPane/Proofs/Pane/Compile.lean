import HangulPane.Number.Unbounded
import HangulPane.Proofs.Machine.Reindex
import HangulPane.Proofs.Pane.Trace

namespace HangulPane

/-!
A traced program runs like the walker on its pane.

The machine stands where the code of what the walker meets next stands.  The walker moves
alone where there is no cell and over cells without an effect; the machine moves alone
over jumps that close a trace and over guards that are satisfied.  All else they do
together.  Where there is no cell at all nothing is traced, and the two part: the program
ends at once and the walker moves on for ever.
-/

namespace Cell

/-- Whether a cell names a storage that exists and stands for no control operation, as all
cells of a pane do. -/
structure WellFormed (cell : Cell) : Prop where
  final : cell.final < slotCount
  opcode : cell.opcode ≠ .brPop1 ∧ cell.opcode ≠ .brPop2 ∧ cell.opcode ≠ .jmp

theorem opcode_ofInitial (initial : Nat) :
    Opcode.ofInitial initial ≠ .brPop1 ∧ Opcode.ofInitial initial ≠ .brPop2 ∧
      Opcode.ofInitial initial ≠ .jmp := by
  unfold Opcode.ofInitial
  split <;> simp

theorem wellFormed_ofChar (c : Char) : (ofChar c).WellFormed := by
  unfold ofChar
  split
  · exact ⟨Nat.mod_lt _ (by decide), opcode_ofInitial _⟩
  · exact ⟨by decide, by decide⟩

variable {cell : Cell}

theorem WellFormed.operation (wellFormed : cell.WellFormed) :
    cell.operation ≠ .brPop1 ∧ cell.operation ≠ .brPop2 ∧ cell.operation ≠ .jmp := by
  unfold Cell.operation
  have spelled := wellFormed.opcode
  cases opcode : cell.opcode <;> simp_all <;> grind

/-- The guard of a cell that needs values. -/
def guard (cell : Cell) (label : Nat) : Instruction :=
  if cell.operation.requiredDepth = 1 then .brPop1 label else .brPop2 label

theorem isGuard_guard (cell : Cell) (label : Nat) :
    (cell.guard label).opcode.isGuard = true := by
  unfold guard
  split <;> rfl

theorem label?_guard (cell : Cell) (label : Nat) : (cell.guard label).label? = some label := by
  unfold guard
  split <;> rfl

/-- A guard asks for as many values as the operation behind it. -/
theorem requiredDepth_guard (guarded : cell.isGuarded = true) (label : Nat) :
    (cell.guard label).opcode.requiredDepth = cell.operation.requiredDepth := by
  unfold isGuarded at guarded
  unfold guard
  cases operation : cell.operation <;>
    simp_all [Opcode.requiredDepth, Instruction.opcode]

theorem opcode_action (wellFormed : cell.WellFormed) : cell.action.opcode = cell.operation := by
  have spelled := wellFormed.operation
  unfold action
  cases operation : cell.operation <;> simp_all [Instruction.opcode]

/-- The code of a cell that needs values: its guard and what it stands for. -/
theorem emission_of_isGuarded (wellFormed : cell.WellFormed) (guarded : cell.isGuarded = true)
    (label : Nat) : cell.emission label = [cell.guard label, cell.action.withLabel label] := by
  have spelled := wellFormed.operation
  unfold isGuarded at guarded
  unfold emission guard action
  cases operation : cell.operation <;>
    simp_all [Opcode.requiredDepth, Instruction.withLabel, Instruction.mapLabel]

/-- The code of a cell that needs no values and has an effect. -/
theorem emission_of_not_isGuarded (wellFormed : cell.WellFormed)
    (unguarded : cell.isGuarded = false) (busy : cell.operation ≠ .noop) (label : Nat) :
    cell.emission label = [cell.action.withLabel label] := by
  have spelled := wellFormed.operation
  unfold isGuarded at unguarded
  unfold emission action
  cases operation : cell.operation <;>
    simp_all [Opcode.requiredDepth, Instruction.withLabel, Instruction.mapLabel]

/-- Only a branch on zero has a label, and it is guarded. -/
theorem isGuarded_of_label? (labelled : cell.action.label?.isSome) : cell.isGuarded = true := by
  unfold action at labelled
  unfold isGuarded
  cases operation : cell.operation <;> simp_all [Instruction.label?, Opcode.requiredDepth]

end Cell

theorem Pane.wellFormed_cellAt (pane : Pane) (position : Position) :
    (pane.cellAt position).WellFormed := by
  unfold cellAt
  cases pane.charAt? position with
  | none => exact ⟨by decide, by decide⟩
  | some c => exact Cell.wellFormed_ofChar c

/-- Whether a cursor meets its next cell, as another cursor, within a number of attempts. -/
def Pane.Heads (pane : Pane) (cursor : Cursor) (attempts : Nat) (arrived : Cursor) : Prop :=
  pane.firstCell? cursor.direction cursor.stride attempts cursor.position =
      some arrived.position ∧
    arrived = { cursor with position := arrived.position }

/-- The number of attempts after which a cursor has met its next cell. -/
def Pane.reach (pane : Pane) : Nat :=
  (pane.height + 1) * (pane.width + 2)

namespace Pane

variable {pane : Pane} {cursor arrived : Cursor} {attempts : Nat}

theorem heads_of_arrival? (arrives : pane.arrival? cursor = some arrived) :
    pane.Heads cursor pane.reach arrived := by
  unfold arrival? at arrives
  cases found : pane.nextCell? cursor.position cursor.direction cursor.stride with
  | none => simp [found] at arrives
  | some position =>
      rw [found] at arrives
      cases arrives
      exact ⟨found, rfl⟩

theorem Heads.eq_of_contains (heads : pane.Heads cursor attempts arrived)
    (cell : pane.contains cursor.position = true) : arrived = cursor := by
  rcases heads with ⟨found, same⟩
  cases attempts with
  | zero => simp [firstCell?] at found
  | succ attempts =>
      rw [firstCell?, if_pos cell] at found
      rw [same, ← Option.some.inj found]

theorem Heads.movingOn (heads : pane.Heads cursor attempts arrived)
    (beside : pane.contains cursor.position = false) :
    ∃ fewer, attempts = fewer + 1 ∧ pane.Heads (pane.movingOn cursor) fewer arrived := by
  rcases heads with ⟨found, same⟩
  cases attempts with
  | zero => simp [firstCell?] at found
  | succ attempts =>
      rw [firstCell?, if_neg (by simp [beside])] at found
      exact ⟨attempts, rfl, found, same⟩

end Pane

namespace Tracing

variable {pane : Pane} {tracing : Tracing} {idle index : Nat} {cursor : Cursor}

/-- Whether what a cursor at a cell does stands at an index, and not only a jump to it. -/
inductive Stands (pane : Pane) (tracing : Tracing) (idle : Nat) (cursor : Cursor) (index : Nat) :
    Prop where
  | here (landing : Landing) (landed : tracing.Landed pane (pane.tracedAt cursor) landing)
      (entry : landing.entry = index)
      (busy : (pane.cellAt cursor.position).operation ≠ .noop)
  | idle (next : Cursor) (later : Nat) (fewer : later < idle)
      (noop : (pane.cellAt cursor.position).operation = .noop)
      (arrives : pane.arrival? (pane.leaving cursor) = some next)
      (rest : tracing.Continues pane later next index)

/-- A cursor goes on as the one does for which its cell was traced. -/
theorem Settled.of_tracedAt {landing : Landing} {label : Nat}
    (settled : tracing.Settled pane (pane.tracedAt cursor) landing label) :
    tracing.Settled pane cursor landing label := by
  rcases settled with ⟨code, back, onward⟩
  simp only [Pane.position_tracedAt, Pane.turningBack_tracedAt, Pane.leaving_tracedAt]
    at code back onward
  exact ⟨code, back, onward⟩

/-- What a traced cell does stands at its landing. -/
theorem Settled.stands {landing : Landing} {label : Nat}
    (settled : tracing.Settled pane cursor landing label)
    (landed : tracing.Landed pane (pane.tracedAt cursor) landing) :
    ∃ idle, tracing.Stands pane idle cursor landing.entry := by
  by_cases noop : (pane.cellAt cursor.position).operation = .noop
  · rcases settled.onward (by simp [noop]) with ⟨next, idle, arrives, continues⟩
    have without : (pane.cellAt cursor.position).emission label = [] := by
      simp [Cell.emission, noop]
    rw [without, List.length_nil, Nat.add_zero] at continues
    exact ⟨idle + 1, .idle next idle (Nat.lt_succ_self idle) noop arrives continues⟩
  · exact ⟨0, .here landing landed rfl noop⟩

/-- Whether all traced cells of a pane are settled. -/
def Complete (pane : Pane) (tracing : Tracing) : Prop :=
  forall cursor landing, pane.contains cursor.position = true ->
    tracing.Landed pane cursor landing -> ∃ label, tracing.Settled pane cursor landing label

end Tracing

/-- The pairs of a walker and a machine with the same storages, where the machine stands
before what the walker does next.  A machine that may stand before a jump has the highest
rank, one that has passed a guard the lowest. -/
inductive Walker.Shadows {N : Type} (pane : Pane) (tracing : Tracing) :
    Process.Pairing (Walker N) (Machine N) where
  | travelling {walker : Walker N} {arrived : Cursor} {attempts idle index : Nat}
      (heads : pane.Heads walker.cursor attempts arrived)
      (continues : tracing.Continues pane idle arrived index) :
      Shadows pane tracing (idle * (pane.reach + 1) + attempts) 2 walker
        (walker.machine.movedTo index)
  | standing {walker : Walker N} {arrived : Cursor} {attempts idle index : Nat}
      (heads : pane.Heads walker.cursor attempts arrived)
      (stands : tracing.Stands pane idle arrived index) :
      Shadows pane tracing (idle * (pane.reach + 1) + attempts) 1 walker
        (walker.machine.movedTo index)
  | admitted {walker : Walker N} {landing : Landing}
      (cell : pane.contains walker.cursor.position = true)
      (guarded : (pane.cellAt walker.cursor.position).isGuarded = true)
      (landed : tracing.Landed pane (pane.tracedAt walker.cursor) landing)
      (enough : ¬ walker.machine.space.size <
        (pane.cellAt walker.cursor.position).operation.requiredDepth) :
      Shadows pane tracing 0 0 walker (walker.machine.movedTo (landing.entry + 1))

namespace Walker

/-- A walker that goes on with a machine's storages, and the machine where it resumes. -/
theorem shadows_of_resumes {N : Type} {pane : Pane} {tracing : Tracing} {cursor : Cursor}
    {index : Nat} (machine : Machine N) (resumes : tracing.Resumes pane cursor index) :
    ∃ leftRank, Shadows pane tracing leftRank 2 (ofMachine machine cursor)
      (machine.movedTo index) := by
  rcases resumes with ⟨arrived, idle, arrives, continues⟩
  have heads : pane.Heads (ofMachine machine cursor).cursor pane.reach arrived :=
    Pane.heads_of_arrival? arrives
  exact ⟨_, .travelling heads continues⟩

variable {N : Type} [Number N] {pane : Pane} {walker : Walker N}

theorem process_beside (beside : pane.contains walker.cursor.position = false)
    (console : Console) :
    process pane walker console =
      { call := none
        console
        next := .goOn { walker with cursor := pane.movingOn walker.cursor } } := by
  simp [process, beside]

theorem process_short
    (cell : pane.contains walker.cursor.position = true)
    (short : walker.machine.space.size <
      (pane.cellAt walker.cursor.position).operation.requiredDepth) (console : Console) :
    process pane walker console =
      { call := none
        console
        next := .goOn { walker with cursor := pane.turningBack walker.cursor } } := by
  simp [process, cell, short]

/-- At a cell whose operation has enough values, a walker does what a machine does. -/
theorem process_enough
    (cell : pane.contains walker.cursor.position = true)
    (enough : ¬ walker.machine.space.size <
      (pane.cellAt walker.cursor.position).operation.requiredDepth) (console : Console) :
    process pane walker console =
      { call := walker.machine.callOf console (pane.cellAt walker.cursor.position).action
        console := (walker.machine.execute console
          (pane.cellAt walker.cursor.position).action).console
        next := continuation pane walker.cursor (walker.machine.execute console
          (pane.cellAt walker.cursor.position).action) } := by
  have same := Cell.opcode_action (pane.wellFormed_cellAt walker.cursor.position)
  have performed : walker.machine.execute console (pane.cellAt walker.cursor.position).action =
      walker.machine.perform console (pane.cellAt walker.cursor.position).action := by
    unfold Machine.execute
    dsimp only
    rw [same, if_neg enough]
  rw [performed]
  simp only [process, cell, if_true, if_neg enough]

theorem process_noop
    (cell : pane.contains walker.cursor.position = true)
    (noop : (pane.cellAt walker.cursor.position).operation = .noop) (console : Console) :
    process pane walker console =
      { call := none
        console
        next := .goOn { walker with cursor := pane.leaving walker.cursor } } := by
  have action : (pane.cellAt walker.cursor.position).action = .noop := by
    simp [Cell.action, noop]
  rw [process_enough cell (by simp [noop, Opcode.requiredDepth]), action]
  rfl

variable {tracing : Tracing} {program : Program}

/-- What is known of a program that was traced from a pane. -/
structure TracedFrom (pane : Pane) (tracing : Tracing) (program : Program) : Prop where
  complete : tracing.Complete pane
  code : program.code = tracing.code
  labels : program.labels = tracing.labels

theorem TracedFrom.target (traced : TracedFrom pane tracing program) {label index : Nat}
    (bound : tracing.labels.find? label = some index) : program.target label = index := by
  rw [Program.target, traced.labels, bound]
  rfl

/-- A cell where a trace has landed is settled for each cursor that it was traced for. -/
theorem TracedFrom.settled (traced : TracedFrom pane tracing program) {cursor : Cursor}
    {landing : Landing} (cell : pane.contains cursor.position = true)
    (landed : tracing.Landed pane (pane.tracedAt cursor) landing) :
    ∃ label, tracing.Settled pane cursor landing label := by
  have tracedCell : pane.contains (pane.tracedAt cursor).position = true := by
    rw [Pane.position_tracedAt]
    exact cell
  rcases traced.complete _ landing tracedCell landed with ⟨label, settled⟩
  exact ⟨label, settled.of_tracedAt⟩

/-- At the instruction of a cell that has enough values the walker and the machine move
together. -/
theorem tandem_action (traced : TracedFrom pane tracing program)
    (cell : pane.contains walker.cursor.position = true)
    (enough : ¬ walker.machine.space.size <
      (pane.cellAt walker.cursor.position).operation.requiredDepth)
    {label index : Nat}
    (fetched : program.code[index]? =
      some ((pane.cellAt walker.cursor.position).action.withLabel label))
    (back : (pane.cellAt walker.cursor.position).isGuarded = true -> ∃ target,
      tracing.labels.find? label = some target ∧
        tracing.Resumes pane (pane.turningBack walker.cursor) target)
    (onward : (pane.cellAt walker.cursor.position).operation ≠ .halt ->
      tracing.Resumes pane (pane.leaving walker.cursor) (index + 1))
    (console : Console) (leftRank rightRank : Nat) :
    Process.Tandem (process pane) (Machine.process program.linked) (Shadows pane tracing) console
      leftRank rightRank walker (walker.machine.movedTo index) := by
  have wellFormed := pane.wellFormed_cellAt walker.cursor.position
  have leftMoves := process_enough cell enough console
  generalize cellIs : pane.cellAt walker.cursor.position = here at *
  have linked : program.linked[index]? =
      some (here.action.mapLabel fun _ => program.target label) := by
    rw [Program.getElem?_linked, fetched]
    cases here.action <;> rfl
  have rightMoves := walker.machine.process_of_fetch console index linked
  rcases stepped : walker.machine.execute console here.action with ⟨result, next, after⟩
  rw [stepped] at leftMoves rightMoves
  cases result with
  | error fault =>
      refine .ended _ after (stop next (some fault)) leftMoves (rightMoves.trans ?_)
      simp [Machine.continuation, Stepped.relocated_error, Machine.stop, stop, linked]
  | ok progress =>
      cases progress with
      | halted =>
          refine .ended _ after (stop next none) leftMoves (rightMoves.trans ?_)
          simp [Machine.continuation, Stepped.relocated_halted, Machine.stop, stop, linked]
      | continued =>
          have falls := walker.machine.fallsThrough_of_continued console (by rw [stepped])
          have running : here.operation ≠ .halt := by
            intro halts
            simp [Cell.action, halts, Instruction.fallsThrough] at falls
          rcases shadows_of_resumes next (onward running) with ⟨rank, shadows⟩
          exact .both _ after _ _ rank 2 leftMoves rightMoves shadows
      | jumped =>
          have labelled := walker.machine.label?_isSome_of_jumped console (by rw [stepped])
          rcases back (Cell.isGuarded_of_label? labelled) with ⟨target, bound, resumes⟩
          have destination : Machine.destination (fun _ => program.target label) here.action =
              target := by
            rcases Option.isSome_iff_exists.mp labelled with ⟨own, found⟩
            simp [Machine.destination, found, traced.target bound]
          rw [destination] at rightMoves
          rcases shadows_of_resumes next resumes with ⟨rank, shadows⟩
          exact .both _ after _ _ rank 2 leftMoves rightMoves shadows

/-- At a cell with an effect whose code stands at the machine's index, the two move together
or the machine passes the guard. -/
theorem tandem_here (traced : TracedFrom pane tracing program)
    (cell : pane.contains walker.cursor.position = true) {landing : Landing}
    (landed : tracing.Landed pane (pane.tracedAt walker.cursor) landing)
    (busy : (pane.cellAt walker.cursor.position).operation ≠ .noop)
    (console : Console) (leftRank : Nat) {rightRank : Nat} (positive : 0 < rightRank) :
    Process.Tandem (process pane) (Machine.process program.linked) (Shadows pane tracing) console
      leftRank rightRank walker (walker.machine.movedTo landing.entry) := by
  have wellFormed := pane.wellFormed_cellAt walker.cursor.position
  rcases traced.settled cell landed with ⟨label, code, back, onward⟩
  rw [← traced.code] at code
  cases guarded : (pane.cellAt walker.cursor.position).isGuarded with
  | false =>
      rw [Cell.emission_of_not_isGuarded wellFormed guarded busy] at code onward
      have enough : ¬ walker.machine.space.size <
          (pane.cellAt walker.cursor.position).operation.requiredDepth := by
        simp [Cell.isGuarded] at guarded
        omega
      exact tandem_action traced cell enough (code 0 (by simp)) back onward console _ _
  | true =>
      rw [Cell.emission_of_isGuarded wellFormed guarded] at code
      have guardFetched : program.code[landing.entry]? =
          some ((pane.cellAt walker.cursor.position).guard label) := code 0 (by simp)
      have linked : program.linked[landing.entry]? =
          some (((pane.cellAt walker.cursor.position).guard label).mapLabel program.target) := by
        rw [Program.getElem?_linked, guardFetched]
        rfl
      have required := Cell.requiredDepth_guard guarded label
      by_cases short : walker.machine.space.size <
          (pane.cellAt walker.cursor.position).operation.requiredDepth
      · rcases back guarded with ⟨target, bound, resumes⟩
        rcases shadows_of_resumes walker.machine resumes with ⟨rank, shadows⟩
        have jumps : Machine.Silently program.linked (walker.machine.movedTo landing.entry)
            (walker.machine.movedTo target) := by
          refine Machine.silently_guard_jump linked ?_ ?_ ?_
          · simp [Cell.isGuard_guard]
          · simp [Cell.label?_guard, traced.target bound]
          · simpa [required] using short
        exact .both none console _ _ rank 2 (process_short cell short console)
          (jumps console) shadows
      · have passes : Machine.Silently program.linked (walker.machine.movedTo landing.entry)
            (walker.machine.movedTo (landing.entry + 1)) := by
          refine Machine.silently_guard linked ?_ ?_
          · simp [Cell.isGuard_guard]
          · simpa [required] using short
        exact .rightOnly _ 0 0 (passes console) positive (.admitted cell guarded landed short)

/-- A machine that has passed the guard of the walker's cell. -/
theorem tandem_admitted (traced : TracedFrom pane tracing program)
    (cell : pane.contains walker.cursor.position = true)
    (guarded : (pane.cellAt walker.cursor.position).isGuarded = true) {landing : Landing}
    (landed : tracing.Landed pane (pane.tracedAt walker.cursor) landing)
    (enough : ¬ walker.machine.space.size <
      (pane.cellAt walker.cursor.position).operation.requiredDepth)
    (console : Console) (leftRank rightRank : Nat) :
    Process.Tandem (process pane) (Machine.process program.linked) (Shadows pane tracing) console
      leftRank rightRank walker (walker.machine.movedTo (landing.entry + 1)) := by
  have wellFormed := pane.wellFormed_cellAt walker.cursor.position
  rcases traced.settled cell landed with ⟨label, code, back, onward⟩
  rw [← traced.code] at code
  rw [Cell.emission_of_isGuarded wellFormed guarded] at code onward
  exact tandem_action traced cell enough (code 1 (by simp)) back onward console _ _

/-- A walker at its cell, and a machine before what that cell does. -/
theorem tandem_stands (traced : TracedFrom pane tracing program)
    (cell : pane.contains walker.cursor.position = true) {idle index : Nat}
    (stands : tracing.Stands pane idle walker.cursor index) (console : Console) (attempts : Nat)
    {rightRank : Nat} (positive : 0 < rightRank) :
    Process.Tandem (process pane) (Machine.process program.linked) (Shadows pane tracing) console
      (idle * (pane.reach + 1) + attempts) rightRank walker (walker.machine.movedTo index) := by
  cases stands with
  | here landing landed entry busy =>
      rw [← entry]
      exact tandem_here traced cell landed busy console _ positive
  | idle next later fewer noop arrives rest =>
      have heads : pane.Heads (pane.leaving walker.cursor) pane.reach next :=
        Pane.heads_of_arrival? arrives
      have falls : later * (pane.reach + 1) + pane.reach < idle * (pane.reach + 1) + attempts := by
        have product : (later + 1) * (pane.reach + 1) ≤ idle * (pane.reach + 1) :=
          Nat.mul_le_mul_right _ fewer
        rw [Nat.succ_mul] at product
        omega
      exact .leftOnly { walker with cursor := pane.leaving walker.cursor } _ 2
        (process_noop cell noop console) falls
        (.travelling heads rest)

/-- A walker at its cell, and a machine before what that cell does or a jump to it. -/
theorem tandem_continues (traced : TracedFrom pane tracing program)
    (cell : pane.contains walker.cursor.position = true) {idle index : Nat}
    (continues : tracing.Continues pane idle walker.cursor index) (console : Console)
    (attempts : Nat) :
    Process.Tandem (process pane) (Machine.process program.linked) (Shadows pane tracing) console
      (idle * (pane.reach + 1) + attempts) 2 walker (walker.machine.movedTo index) := by
  cases continues with
  | here landed entry busy =>
      exact tandem_stands traced cell (.here _ landed entry busy) console attempts (by decide)
  | @idle _ next _ later noop arrives rest =>
      exact tandem_stands traced cell (.idle next later (Nat.lt_succ_self later) noop arrives rest)
        console attempts (by decide)
  | @jump _ _ label landing landed fetched bound =>
      rcases traced.settled cell landed with ⟨own, settled⟩
      rcases settled.stands landed with ⟨later, stands⟩
      have heads : pane.Heads walker.cursor 1 walker.cursor := by
        refine ⟨?_, rfl⟩
        rw [Pane.firstCell?, if_pos cell]
      have jumps : Machine.Silently program.linked (walker.machine.movedTo index)
          (walker.machine.movedTo landing.entry) := by
        refine Machine.silently_jmp ?_
        rw [Machine.movedTo_index, Program.getElem?_linked, traced.code, fetched,
          ← traced.target bound]
        rfl
      exact .rightOnly _ _ 1 (jumps console) (by decide) (.standing heads stands)

/-- The walker and the machine always move on together. -/
theorem simulates_shadows (traced : TracedFrom pane tracing program) :
    Process.Simulates (process (N := N) pane) (Machine.process program.linked)
      (Shadows pane tracing) := by
  intro leftRank rightRank walker machine shadows console
  cases shadows with
  | @travelling _ arrived attempts idle index heads continues =>
      cases cell : pane.contains walker.cursor.position with
      | true =>
          rw [heads.eq_of_contains cell] at continues
          exact tandem_continues traced cell continues console attempts
      | false =>
          rcases heads.movingOn cell with ⟨fewer, rfl, headsOn⟩
          exact .leftOnly { walker with cursor := pane.movingOn walker.cursor } _ 2
            (process_beside cell console) (Nat.lt_succ_self _)
            (.travelling headsOn continues)
  | @standing _ arrived attempts idle index heads stands =>
      cases cell : pane.contains walker.cursor.position with
      | true =>
          rw [heads.eq_of_contains cell] at stands
          exact tandem_stands traced cell stands console attempts (by decide)
      | false =>
          rcases heads.movingOn cell with ⟨fewer, rfl, headsOn⟩
          exact .leftOnly { walker with cursor := pane.movingOn walker.cursor } _ 1
            (process_beside cell console) (Nat.lt_succ_self _)
            (.standing headsOn stands)
  | @admitted _ landing cell guarded landed enough =>
      exact tandem_admitted traced cell guarded landed enough console _ _

end Walker

namespace Pane

variable {N : Type} [Number N]

theorem tracedFrom_toProgram {pane : Pane} (nonempty : pane.isEmpty = false)
    (withComments : Bool) :
    Walker.TracedFrom pane (Tracing.drain pane (Tracing.trace pane (Tracing.start pane) origin))
      (pane.toProgram withComments) where
  complete := (Tracing.complete_drain nonempty).2
  code := by simp [toProgram, nonempty]
  labels := by simp [toProgram, nonempty]

/-- The program of a pane shows what the walker on the pane shows, if there is a cell. -/
theorem walker_shows_iff {pane : Pane} (nonempty : pane.isEmpty = false) (withComments : Bool)
    (console : Console) (history : History N) :
    (Walker.process pane).Shows Walker.start console history <->
      (pane.toProgram withComments).Shows console history := by
  rw [Program.shows_iff]
  have simulation := Walker.simulates_shadows (N := N)
    (tracedFrom_toProgram nonempty withComments)
  rcases Walker.shadows_of_resumes (Machine.start : Machine N) (Tracing.complete_drain nonempty).1
    with ⟨rank, shadows⟩
  exact simulation.shows_iff shadows console history

/-- How a program without instructions ends, if its output is flushed with the given
result. -/
def emptyOutcome : Except ChannelFault Unit -> Outcome N
  | .ok () =>
      .finished Number.zero (Machine.start : Machine N).selected Storage.empty false
  | .error fault =>
      .faulted (.channel fault) (Machine.start : Machine N).selected Storage.empty false

theorem takeResult_start :
    (Machine.start : Machine N).takeResult = (Number.zero, Machine.start) := by
  have space : (Machine.start : Machine N).space = .stack [] := by
    simp [Machine.space, Machine.start, Storage.get, Storage.empty, Space.forSlot, queueSlot,
      passageSlot]
  simp [Machine.takeResult, space, Space.pop, Space.items]

theorem outcome_stop_start (flushed : Except ChannelFault Unit) :
    ((Machine.start : Machine N).stop #[] none).outcome flushed = emptyOutcome flushed := by
  cases flushed with
  | error fault => rfl
  | ok done =>
      simp only [Stop.outcome, Machine.stop, Machine.takeResult_movedTo, takeResult_start]
      rfl

/-- The program of a pane without cells ends with its first step. -/
theorem history_toProgram_of_isEmpty {pane : Pane} (empty : pane.isEmpty = true)
    (withComments : Bool) (console : Console) (bound : Nat) :
    (Machine.history (pane.toProgram withComments) (bound + 1) console : History N) =
      { calls := []
        console := console.flush.2
        outcome := some (emptyOutcome console.flush.1) } := by
  have nothing : (pane.toProgram withComments).linked[(Machine.start : Machine N).index]? =
      none := by
    simp [Program.getElem?_linked, toProgram, empty, Tracing.start]
  have moved : Machine.process (pane.toProgram withComments).linked (Machine.start : Machine N)
      console = { call := none, console, next := .ended (Machine.start.stop #[] none) } := by
    simp [Machine.process, Machine.step, Machine.call?, nothing, Machine.halt,
      Machine.continuation, Machine.stop]
  rw [Machine.history_eq, Process.history_of_ended moved bound, outcome_stop_start]
  rfl

/-- A walker on a pane without cells never ends. -/
theorem outcome_walker_of_isEmpty {pane : Pane} (empty : pane.isEmpty = true) (bound : Nat) :
    forall (walker : Walker N) (console : Console),
      ((Walker.process pane).history bound walker console).outcome = none := by
  have beside : forall position, pane.contains position = false := by
    intro position
    have narrow := pane.rowLength_le_width position.row
    have width : pane.width = 0 := by simpa [isEmpty] using empty
    apply Bool.eq_false_iff.mpr
    intro inside
    have column := (contains_iff position).mp inside
    omega
  induction bound with
  | zero => exact fun _ _ => rfl
  | succ bound inductionHypothesis =>
      intro walker console
      rw [Process.history_of_goOn (Walker.process_beside (beside _) console)]
      exact inductionHypothesis _ console

/-- A program traced from a text with a cell runs like the walker on the pane of the text:
whatever one of them has shown after a number of steps, the other one shows after some number
of steps.  The program of a text without cells ends at once, with the result zero unless its
output cannot be flushed. -/
theorem toProgram_follows_walker (text : List Char) (withComments : Bool) (console : Console) :
    ((ofText text).isEmpty = false ->
      (forall bound, ∃ other,
        (Machine.history ((ofText text).toProgram withComments) other console : History N) =
          (Walker.process (ofText text)).history bound Walker.start console) ∧
      (forall bound, ∃ other,
        (Walker.process (ofText text)).history other Walker.start console =
          (Machine.history ((ofText text).toProgram withComments) bound console : History N))) ∧
    ((ofText text).isEmpty = true -> forall bound,
      (Machine.history ((ofText text).toProgram withComments) (bound + 1) console : History N) =
        { calls := []
          console := console.flush.2
          outcome := some (emptyOutcome console.flush.1) }) := by
  refine ⟨?_, fun empty => history_toProgram_of_isEmpty empty withComments console⟩
  intro nonempty
  constructor
  · intro bound
    exact (walker_shows_iff nonempty withComments console _).mp ⟨bound, rfl⟩
  · intro bound
    exact (walker_shows_iff nonempty withComments console _).mpr ⟨bound, rfl⟩

/-- A branch that finds no value at first.  The walker turns back at it, wraps around to the
last cell, and with the value from there wraps around again to a branch that lets it pass. -/
def wrapping : List Char :=
  ['차', '반', '발', '따', '망', '희', '받']

/-- A console without input that accepts everything. -/
def accepting : Console :=
  Console.start (Input.ofBytes []) none (Warnings.fresh 3 none)

/-- Both cases at work: a text in which the walker is turned back by a guard, wraps around in
both directions and takes a branch before it writes a product, and the text without cells. -/
theorem toProgram_follows_walker_wrapping :
    ((ofText wrapping).isEmpty = false ∧ ∃ other,
      let history : History Int :=
        Machine.history ((ofText wrapping).toProgram true) other accepting
      history.calls = [.writeNumber 10 (.ok ())] ∧
        history.outcome = some (.finished 0 (Machine.start : Machine Int).selected Storage.empty
          true)) ∧
      (ofText []).isEmpty = true ∧
        (Machine.history ((ofText []).toProgram false) 1 accepting : History Int).outcome =
          some (.finished 0 (Machine.start : Machine Int).selected Storage.empty false) := by
  have follows := toProgram_follows_walker (N := Int) wrapping true accepting
  have empty := toProgram_follows_walker (N := Int) [] false accepting
  obtain ⟨other, same⟩ := (follows.1 (by decide)).1 9
  refine ⟨⟨by decide, other, ?_⟩, by decide, congrArg History.outcome (empty.2 (by decide) 0)⟩
  rw [same]
  exact ⟨rfl, rfl⟩

/-- Without a cell the program ends and the walker does not. -/
theorem not_toProgram_follows_walker_empty :
    ¬ forall bound, ∃ other,
      (Walker.process (ofText [])).history other Walker.start
          (Console.start (Input.ofBytes []) none (Warnings.fresh 3 none)) =
        (Machine.history ((ofText []).toProgram false) bound
          (Console.start (Input.ofBytes []) none (Warnings.fresh 3 none)) : History Int) := by
  have empty : (ofText []).isEmpty = true := by decide
  intro follows
  rcases follows 1 with ⟨other, same⟩
  have outcomes := congrArg History.outcome same
  rw [outcome_walker_of_isEmpty empty, history_toProgram_of_isEmpty empty] at outcomes
  cases outcomes

end Pane
end HangulPane
