import HangulPane.Proofs.Machine.Effect
import HangulPane.Proofs.Number.Word

namespace HangulPane

/-!
Machines that differ in the literals on top of one stack.

While two machines run code that only pushes, doubles and combines literals, all that
can tell them apart is which literals are on top of the selected stack.  A window says
at which pairs of indices the machines may stand and with which literals each.  Where
both have the same literals they are one machine at two indices again.
-/

/-- What an instruction that works on literals alone makes of those on top of a stack. -/
inductive Instruction.OnLiterals : Instruction -> List Int64 -> List Int64 -> Prop where
  | noop (literals : List Int64) : OnLiterals .noop literals literals
  | push (literal : Int64) (literals : List Int64) :
      OnLiterals (.push literal) literals (literal :: literals)
  | dup (literal : Int64) (rest : List Int64) :
      OnLiterals .dup (literal :: rest) (literal :: literal :: rest)
  | combine {instruction : Instruction} {left right value : Int64} (rest : List Int64)
      (isBinary : instruction.opcode.isBinary = true)
      (combined : Number.combine instruction.opcode left right = .ok value) :
      OnLiterals instruction (right :: left :: rest) (value :: rest)

theorem Instruction.mapLabel_of_onLiterals {instruction : Instruction}
    {literals after : List Int64} (works : instruction.OnLiterals literals after)
    (rename : Nat -> Nat) : instruction.mapLabel rename = instruction := by
  cases works with
  | noop | push | dup => rfl
  | combine _ isBinary _ => cases instruction <;> first | rfl | cases isBinary

/-- The literals suffice for an instruction that works on them alone. -/
theorem Instruction.requiredDepth_le_of_onLiterals {instruction : Instruction}
    {literals after : List Int64} (works : instruction.OnLiterals literals after) :
    instruction.opcode.requiredDepth ≤ literals.length := by
  cases works with
  | noop | push => exact Nat.zero_le _
  | dup => exact Nat.le_add_left 1 _
  | combine rest isBinary _ =>
      have two : instruction.opcode.requiredDepth = 2 := by
        cases instruction <;> first | rfl | cases isBinary
      rw [two]
      exact Nat.le_add_left 2 _

namespace Machine

variable {N : Type} [Number N]

/-- The storage of a stack with literals on top. -/
def topped (literals : List Int64) (rest : List N) : Space N :=
  .stack (literals.map Number.ofLiteral ++ rest)

theorem combine_of_topped [LiteralNumber N] {machine : Machine N} (console : Console)
    {operation : Opcode} {left right value : Int64} {literals : List Int64} {rest : List N}
    (space : machine.space = topped (right :: left :: literals) rest)
    (combined : Number.combine operation left right = .ok value) :
    machine.combine console operation =
      (machine.withSpace (topped (value :: literals) rest)).proceed console := by
  have exactly := LiteralNumber.combine_ofLiteral (N := N) operation left right value combined
  have done : machine.space.binary operation = (.ok (), topped (value :: literals) rest) := by
    rw [space]
    simp [topped, Space.binary, Space.items, exactly, Space.putResult, Space.withItems]
  simp only [combine, done]

/-- An instruction that works on literals alone goes on with the changed ones. -/
theorem execute_of_onLiterals [LiteralNumber N] {machine : Machine N} (console : Console)
    {instruction : Instruction} {literals after : List Int64} {rest : List N}
    (space : machine.space = topped literals rest)
    (works : instruction.OnLiterals literals after) :
    machine.execute console instruction =
      (machine.withSpace (topped after rest)).proceed console := by
  have enough : ¬ machine.space.size < instruction.opcode.requiredDepth := by
    have required := Instruction.requiredDepth_le_of_onLiterals works
    rw [space, topped, Space.size, Space.items, List.length_append, List.length_map]
    omega
  unfold execute
  dsimp only
  rw [if_neg enough]
  cases works with
  | noop => simp only [perform, ← space, withSpace_space]
  | push => simp [perform, push, space, topped, Space.push]
  | dup =>
      simp [perform, proceedWith, space, topped, Space.dup, Space.items, Space.withItems,
        Space.lastPush?]
  | combine rest isBinary combined =>
      cases instruction with
      | add | sub | mul | div | mod | cmp => exact combine_of_topped console space combined
      | _ => cases isBinary

theorem callOf_of_onLiterals {machine : Machine N} (console : Console)
    {instruction : Instruction} {literals after : List Int64}
    (works : instruction.OnLiterals literals after) :
    machine.callOf console instruction = none := by
  cases works with
  | noop | push | dup => rfl
  | combine _ isBinary _ =>
      cases instruction with
      | popNum | popChar | pushNum | pushChar => cases isBinary
      | _ => rfl

/-- An instruction that works on literals alone only changes those. -/
theorem silently_of_onLiterals [LiteralNumber N] {code : Array Instruction}
    {machine : Machine N} {instruction : Instruction} {literals after : List Int64}
    {rest : List N} (fetched : code[machine.index]? = some instruction)
    (space : machine.space = topped literals rest)
    (works : instruction.OnLiterals literals after) :
    Silently code machine
      ((machine.withSpace (topped after rest)).movedTo (machine.index + 1)) := by
  intro console
  simp only [process, step_of_fetch _ console fetched, call?, fetched, Option.bind_some,
    execute_of_onLiterals console space works, callOf_of_onLiterals console works]
  rfl

theorem silently_topped [LiteralNumber N] {code : Array Instruction} (machine : Machine N)
    {instruction : Instruction} {literals after : List Int64} {index : Nat} (rest : List N)
    (fetched : code[index]? = some instruction)
    (works : instruction.OnLiterals literals after) :
    Silently code ((machine.withSpace (topped literals rest)).movedTo index)
      ((machine.withSpace (topped after rest)).movedTo (index + 1)) := by
  have space : ((machine.withSpace (topped literals rest)).movedTo index).space =
      topped literals rest := by
    simp
  have moves := silently_of_onLiterals fetched space works
  simpa using moves

/-- The pairs of indices, each with the literals that the left and the right machine have
on top of their stack. -/
abbrev Window := Nat -> Nat -> List Int64 -> List Int64 -> Prop

/-- Whether a window admits two machines at the given indices with the given literals;
equal ones need not be told apart. -/
def Window.Admits (window : Window) (left right : Nat) (leftLiterals rightLiterals : List Int64) :
    Prop :=
  (leftLiterals = rightLiterals ∧ window left right [] []) ∨
    window left right leftLiterals rightLiterals

/-- Two machines that differ in their index and in the literals on top of a stack. -/
def Apart (leftLiterals rightLiterals : List Int64) (left : Machine N) (index : Nat)
    (right : Machine N) : Prop :=
  (leftLiterals = [] ∧ rightLiterals = [] ∧ right = left.movedTo index) ∨
    ∃ rest, left.space = topped leftLiterals rest ∧
      right = (left.withSpace (topped rightLiterals rest)).movedTo index

/-- How two machines that a window admits can move on. -/
inductive Aligned (left right : Array Instruction) (window : Window) (rank : Nat -> Nat -> Nat)
    (machine : Machine N) (index : Nat) : List Int64 -> List Int64 -> Prop where
  /-- Both are past the end. -/
  | past (leftOver : left[machine.index]? = none) (rightOver : right[index]? = none) :
      Aligned left right window rank machine index [] []
  /-- Both meet the same instruction. -/
  | same (instruction : Instruction) (renameLeft renameRight : Nat -> Nat)
      (leftFetched : left[machine.index]? = some (instruction.mapLabel renameLeft))
      (rightFetched : right[index]? = some (instruction.mapLabel renameRight))
      (leads : forall leftNext rightNext,
        Follows instruction renameLeft renameRight machine.index index leftNext rightNext ->
        window leftNext rightNext [] []) :
      Aligned left right window rank machine index [] []
  /-- Both work on literals. -/
  | work {leftLiterals rightLiterals : List Int64} (leftInstruction rightInstruction : Instruction)
      (leftAfter rightAfter : List Int64)
      (leftFetched : left[machine.index]? = some leftInstruction)
      (rightFetched : right[index]? = some rightInstruction)
      (leftWorks : leftInstruction.OnLiterals leftLiterals leftAfter)
      (rightWorks : rightInstruction.OnLiterals rightLiterals rightAfter)
      (onStack : leftLiterals = [] -> ∃ items, machine.space = .stack items)
      (leads : window.Admits (machine.index + 1) (index + 1) leftAfter rightAfter) :
      Aligned left right window rank machine index leftLiterals rightLiterals
  /-- Both jump. -/
  | jump {leftLiterals rightLiterals : List Int64} (leftTarget rightTarget : Nat)
      (leftFetched : left[machine.index]? = some (.jmp leftTarget))
      (rightFetched : right[index]? = some (.jmp rightTarget))
      (leads : window leftTarget rightTarget leftLiterals rightLiterals) :
      Aligned left right window rank machine index leftLiterals rightLiterals
  /-- The left one works on literals alone. -/
  | catchUp {leftLiterals rightLiterals : List Int64} (instruction : Instruction)
      (after : List Int64) (fetched : left[machine.index]? = some instruction)
      (works : instruction.OnLiterals leftLiterals after)
      (onStack : leftLiterals = [] -> ∃ items, machine.space = .stack items)
      (leads : window.Admits (machine.index + 1) index after rightLiterals)
      (falls : rank (machine.index + 1) index < rank machine.index index) :
      Aligned left right window rank machine index leftLiterals rightLiterals

/-- The pairs of a machine of which something is known and one that a window admits
beside it. -/
def Windowed (holds : Machine N -> Prop) (window : Window) (rank : Nat -> Nat -> Nat) :
    Process.Pairing (Machine N) (Machine N) :=
  fun leftRank _ machine other =>
    holds machine ∧ ∃ index leftLiterals rightLiterals,
      window machine.index index leftLiterals rightLiterals ∧
        Apart leftLiterals rightLiterals machine index other ∧
        leftRank = rank machine.index index

/-- Machines with pending literals have a stack selected; where none are pending that has
to be known. -/
theorem Apart.on_stack {leftLiterals rightLiterals : List Int64} {left right : Machine N}
    {index : Nat} (apart : Apart leftLiterals rightLiterals left index right)
    (onStack : leftLiterals = [] -> ∃ items, left.space = .stack items) :
    ∃ rest, left.space = topped leftLiterals rest ∧
      right = (left.withSpace (topped rightLiterals rest)).movedTo index := by
  rcases apart with ⟨rfl, rfl, rfl⟩ | pending
  · rcases onStack rfl with ⟨items, stack⟩
    refine ⟨items, stack, ?_⟩
    have same : topped [] items = left.space := stack.symm
    rw [same, withSpace_space]
  · exact pending

/-- Machines that a window admits with the given literals are paired. -/
theorem windowed_of_admits {holds : Machine N -> Prop} {window : Window} {rank : Nat -> Nat -> Nat}
    {machine : Machine N} {leftLiterals rightLiterals : List Int64} {rest : List N}
    {left right : Nat}
    (held : holds ((machine.withSpace (topped leftLiterals rest)).movedTo left))
    (admits : window.Admits left right leftLiterals rightLiterals) :
    Windowed holds window rank (rank left right) 0
      ((machine.withSpace (topped leftLiterals rest)).movedTo left)
      ((machine.withSpace (topped rightLiterals rest)).movedTo right) := by
  rcases admits with ⟨rfl, together⟩ | apart
  · exact ⟨held, right, [], [], together, Or.inl ⟨rfl, rfl, rfl⟩, rfl⟩
  · refine ⟨held, right, leftLiterals, rightLiterals, apart, Or.inr ⟨rest, ?_, ?_⟩, rfl⟩
    · simp
    · simp

theorem Apart.together {left right : Machine N} {index : Nat}
    (apart : Apart [] [] left index right) : right = left.movedTo index := by
  rcases apart with ⟨_, _, same⟩ | ⟨rest, space, rfl⟩
  · exact same
  · rw [← space, withSpace_space]

theorem Apart.movedTo {leftLiterals rightLiterals : List Int64} {left right : Machine N}
    {index : Nat} (apart : Apart leftLiterals rightLiterals left index right)
    (leftIndex rightIndex : Nat) :
    Apart leftLiterals rightLiterals (left.movedTo leftIndex) rightIndex
      (right.movedTo rightIndex) := by
  rcases apart with ⟨leftNone, rightNone, rfl⟩ | ⟨rest, space, rfl⟩
  · exact Or.inl ⟨leftNone, rightNone, rfl⟩
  · exact Or.inr ⟨rest, space, rfl⟩

theorem Apart.index {leftLiterals rightLiterals : List Int64} {left right : Machine N}
    {index : Nat} (apart : Apart leftLiterals rightLiterals left index right) :
    right.index = index := by
  rcases apart with ⟨_, _, rfl⟩ | ⟨rest, _, rfl⟩ <;> rfl

/-- Machines without pending literals that make the same step stay paired. -/
theorem InStep.tandem_windowed {left right : Array Instruction} {machine : Machine N}
    {index : Nat} {console : Console} {follows : Nat -> Nat -> Prop} {holds : Machine N -> Prop}
    {window : Window} {rank : Nat -> Nat -> Nat}
    (inStep : InStep left right machine index console follows)
    (leads : forall leftNext rightNext, follows leftNext rightNext ->
      window leftNext rightNext [] [])
    (maintained : Maintains left holds) (held : holds machine) (leftRank rightRank : Nat) :
    Process.Tandem (process left) (process right) (Windowed holds window rank) console
      leftRank rightRank machine (machine.movedTo index) := by
  rcases inStep with ⟨call, after, stop, leftMoves, rightMoves⟩ |
    ⟨call, after, next, nextIndex, leftMoves, rightMoves, goes⟩
  · exact .ended call after stop leftMoves rightMoves
  · refine .both call after next (next.movedTo nextIndex) (rank next.index nextIndex) 0 leftMoves
      rightMoves ⟨maintained machine console call after next held leftMoves, nextIndex, [], [],
        leads _ _ goes, Or.inl ⟨rfl, rfl, rfl⟩, rfl⟩

/-- If all machines that a window admits can move on, they do so together. -/
theorem simulates_windowed [LiteralNumber N] {left right : Array Instruction}
    {holds : Machine N -> Prop} {window : Window} {rank : Nat -> Nat -> Nat}
    (maintained : Maintains left holds)
    (aligned : forall machine index leftLiterals rightLiterals, holds machine ->
      window machine.index index leftLiterals rightLiterals ->
      Aligned left right window rank machine index leftLiterals rightLiterals) :
    Process.Simulates (process left) (process right) (Windowed holds window rank) := by
  rintro leftRank rightRank machine other ⟨held, index, leftLiterals, rightLiterals, admitted,
    apart, rfl⟩ console
  cases aligned machine index leftLiterals rightLiterals held admitted with
  | past leftOver rightOver =>
      have inStep : InStep left right machine index console (fun _ _ => False) :=
        machine.inStep_of_end console index leftOver rightOver
      rw [apart.together]
      exact inStep.tandem_windowed (fun _ _ never => never.elim) maintained held _ _
  | same instruction renameLeft renameRight leftFetched rightFetched leads =>
      rw [apart.together]
      have inStep := machine.inStep_of_fetch console index leftFetched rightFetched
      exact inStep.tandem_windowed leads maintained held _ _
  | work leftInstruction rightInstruction leftAfter rightAfter leftFetched rightFetched leftWorks
      rightWorks onStack leads =>
      rcases apart.on_stack onStack with ⟨rest, space, rfl⟩
      have leftMoves := silently_of_onLiterals leftFetched space leftWorks console
      have rightMoves := silently_topped machine rest rightFetched rightWorks console
      exact .both none console _ _ _ 0 leftMoves rightMoves
        (windowed_of_admits (maintained machine console none console _ held leftMoves) leads)
  | jump leftTarget rightTarget leftFetched rightFetched leads =>
      have leftMoves := silently_jmp leftFetched console
      have rightMoves := silently_jmp (apart.index.symm ▸ rightFetched) console
      exact .both none console _ _ _ 0 leftMoves rightMoves
        ⟨maintained machine console none console _ held leftMoves, rightTarget, leftLiterals,
          rightLiterals, leads, apart.movedTo leftTarget rightTarget, rfl⟩
  | catchUp instruction after fetched works onStack leads falls =>
      rcases apart.on_stack onStack with ⟨rest, space, rfl⟩
      have leftMoves := silently_of_onLiterals fetched space works console
      exact .leftOnly _ _ 0 leftMoves falls
        (windowed_of_admits (maintained machine console none console _ held leftMoves) leads)

end Machine

/-- Programs between which a window can be kept open behave alike. -/
theorem SameBehaviour.of_window {N : Type} [Number N] [LiteralNumber N] {left right : Program}
    (holds : Machine N -> Prop) (window : Machine.Window) (rank : Nat -> Nat -> Nat)
    (maintained : Machine.Maintains left.linked holds)
    (aligned : forall machine index leftLiterals rightLiterals, holds machine ->
      window machine.index index leftLiterals rightLiterals ->
      Machine.Aligned left.linked right.linked window rank machine index leftLiterals
        rightLiterals)
    (holdsAtStart : holds Machine.start) (openAtStart : window 0 0 [] []) :
    SameBehaviour N left right := by
  have simulation := Machine.simulates_windowed maintained aligned
  have pair : Machine.Windowed holds window rank (rank 0 0) 0 Machine.start Machine.start :=
    ⟨holdsAtStart, 0, [], [], openAtStart, Or.inl ⟨rfl, rfl, rfl⟩, rfl⟩
  exact SameBehaviour.of_simulates simulation pair

end HangulPane
