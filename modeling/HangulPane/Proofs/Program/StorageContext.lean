import HangulPane.Proofs.Program.Reachability

namespace HangulPane

/-!
The storage context of a program is exact.

Along a path of control flow the last select that was passed decides whether the queue or the
passage is selected.  An instruction has no context exactly if no path leads to it, and its
context is special exactly if some path leads to it on which the last select names the queue or
the passage.  One direction holds because the exploration only ever records what a path brings,
the other because the recorded contexts are closed under the control flow.
-/

namespace Program

variable {program : Program}

/-- A path of control flow from the first instruction to an index, with the indices that it
passes before it gets there. -/
inductive Path (program : Program) : List Nat -> Nat -> Prop where
  | start : Path program [] 0
  | onward {passed : List Nat} {index next : Nat} (path : Path program passed index)
      (flows : program.Flows index next) : Path program (passed ++ [index]) next

/-- The slot that the instruction at an index selects, if it selects one. -/
def selectedAt? (program : Program) (index : Nat) : Option UInt8 :=
  match program.code[index]? with
  | some (.sel slot) => some slot
  | _ => none

/-- The slot that the last select among the given instructions names. -/
def lastSelected? (program : Program) (passed : List Nat) : Option UInt8 :=
  (passed.filterMap program.selectedAt?).getLast?

/-- Whether the last select among the given instructions names the queue or the passage. -/
def SelectsSpecial (program : Program) (passed : List Nat) : Prop :=
  ∃ slot, program.lastSelected? passed = some slot ∧
    (slot.toNat = queueSlot ∨ slot.toNat = passageSlot)

/-- Whether a context tells of each instruction whether a path leads to it, in agreement with
the instructions that are found reachable, and whether the queue or the passage is selected at
the end of some such path. -/
structure ExactContext (program : Program) (context : Array (Option Bool)) : Prop where
  size : context.size = program.size
  unreached : forall index, index < program.size ->
    (context[index]? = some none <-> ¬ ∃ passed, program.Path passed index)
  unreachable : forall index, index < program.size ->
    (context[index]? = some none <-> program.reachable[index]? = some false)
  special : forall index, index < program.size ->
    (context[index]? = some (some true) <->
      ∃ passed, program.Path passed index ∧ program.SelectsSpecial passed)
  plain : forall index, index < program.size ->
    (context[index]? = some (some false) <->
      (∃ passed, program.Path passed index) ∧
        forall passed, program.Path passed index -> ¬ program.SelectsSpecial passed)

/-- Whether a run that is about to execute an instruction with the context of a stack has a
stack selected. -/
def FindsStacks (N : Type) [Number N] (program : Program) (context : Array (Option Bool)) :
    Prop :=
  forall (console : Console) (bound : Nat),
    (Machine.run program bound console : Run N).ending = .unfinished ->
    context[(Machine.run program bound console : Run N).machine.index]? = some (some false) ->
    ¬ (Machine.run program bound console : Run N).machine.selected.IsSpecial ∧
      ∃ items, (Machine.run program bound console : Run N).machine.space = .stack items

/-- An index is reached exactly if some path leads to it. -/
theorem reaches_iff_exists_path {index : Nat} :
    program.Reaches index <-> ∃ passed, program.Path passed index := by
  constructor
  · intro reached
    induction reached with
    | refl => exact ⟨[], .start⟩
    | tail _ flows inductionHypothesis =>
        rcases inductionHypothesis with ⟨passed, path⟩
        exact ⟨_, path.onward flows⟩
  · rintro ⟨passed, path⟩
    induction path with
    | start => exact .refl
    | onward _ flows inductionHypothesis => exact inductionHypothesis.tail flows

section Selection

/-- Whether the queue or the passage is selected after the given instructions. -/
def specialAfterAll (program : Program) (passed : List Nat) : Bool :=
  ((program.lastSelected? passed).map isSpecialSlot).getD false

theorem specialAfterAll_eq_true_iff {passed : List Nat} :
    program.specialAfterAll passed = true <-> program.SelectsSpecial passed := by
  unfold specialAfterAll SelectsSpecial
  cases program.lastSelected? passed with
  | none => simp
  | some slot => simp [isSpecialSlot]

/-- One more instruction changes what is selected as far as it selects something. -/
theorem specialAfterAll_append {passed : List Nat} {index : Nat} {instruction : Instruction}
    (fetched : program.code[index]? = some instruction) :
    program.specialAfterAll (passed ++ [index]) =
      specialAfter instruction (program.specialAfterAll passed) := by
  unfold specialAfterAll lastSelected?
  rw [List.filterMap_append]
  cases instruction with
  | sel slot => simp [selectedAt?, fetched, specialAfter]
  | _ => simp [selectedAt?, fetched, specialAfter]

end Selection

/-- The exploration records only what some path brings. -/
theorem conserves_contextGraph (program : Program) :
    program.contextGraph.Conserves fun index special =>
      ∃ passed, program.Path passed index ∧ program.specialAfterAll passed = special where
  joined := by
    intro index recorded arriving joined joining _ brought
    have arrives : joined = arriving := by
      cases recorded <;> cases arriving <;> simp [contextGraph] at joining ⊢
      exact joining
    rw [arrives]
    exact brought
  passed := by
    intro index special next _ passing
    cases passing
  followed := by
    rintro index special next ⟨passed, path, rfl⟩ follows
    simp only [contextGraph] at follows
    split at follows
    · contradiction
    · rename_i instruction fetched
      rcases List.mem_map.mp follows with ⟨successor, listed, rfl⟩
      exact ⟨_, path.onward (mem_successors_iff_flows.mp listed), specialAfterAll_append fetched⟩

/-- A context that is closed under the control flow allows for what a path brings. -/
theorem Contextual.allows_of_path {context : Array (Option Bool)}
    (closed : program.Contextual context) {passed : List Nat} {index : Nat}
    (path : program.Path passed index) :
    Allows context program.size index (program.specialAfterAll passed) := by
  induction path with
  | start => exact closed.first
  | @onward passed index next path flows inductionHypothesis =>
      have inside : index < program.code.size := flows.lt_size
      rcases inductionHypothesis inside with ⟨known, found, covered⟩
      have fetched : program.code[index]? = some program.code[index] :=
        Array.getElem?_eq_getElem inside
      apply (closed.next index _ known found fetched next (mem_successors_iff_flows.mpr flows)).mono
      rw [specialAfterAll_append fetched]
      cases program.code[index] with
      | sel slot => exact id
      | _ => exact covered

theorem size_storageContext (program : Program) : program.storageContext.size = program.size :=
  Exploration.size_outcome program.contextGraph _

/-- A context that is recorded is brought by some path. -/
theorem exists_path_of_storageContext {index : Nat} {special : Bool}
    (found : program.storageContext[index]? = some (some special)) :
    ∃ passed, program.Path passed index ∧ program.specialAfterAll passed = special := by
  apply Exploration.holds_outcome program.conserves_contextGraph ?_ found
  intro arrival listed
  rw [List.mem_singleton.mp listed]
  exact ⟨[], .start, rfl⟩

/-- What a path brings is recorded, unless something special is recorded already. -/
theorem storageContext_of_path {passed : List Nat} {index : Nat} (inside : index < program.size)
    (path : program.Path passed index) :
    ∃ known, program.storageContext[index]? = some (some known) ∧
      (program.SelectsSpecial passed -> known = true) := by
  rcases program.contextual_storageContext.allows_of_path path inside with ⟨known, found, covered⟩
  exact ⟨known, found, fun special => covered (specialAfterAll_eq_true_iff.mpr special)⟩

theorem storageContext_eq_none_iff {index : Nat} (inside : index < program.size) :
    program.storageContext[index]? = some none <-> ¬ ∃ passed, program.Path passed index := by
  constructor
  · rintro missing ⟨passed, path⟩
    rcases storageContext_of_path inside path with ⟨known, found, _⟩
    rw [missing] at found
    cases found
  · intro unreached
    have entry : index < program.storageContext.size := program.size_storageContext ▸ inside
    cases found : program.storageContext[index] with
    | none => rw [Array.getElem?_eq_getElem entry, found]
    | some special =>
        have recorded : program.storageContext[index]? = some (some special) := by
          rw [Array.getElem?_eq_getElem entry, found]
        rcases exists_path_of_storageContext recorded with ⟨passed, path, _⟩
        exact absurd ⟨passed, path⟩ unreached

theorem storageContext_eq_true_iff {index : Nat} (inside : index < program.size) :
    program.storageContext[index]? = some (some true) <->
      ∃ passed, program.Path passed index ∧ program.SelectsSpecial passed := by
  constructor
  · intro found
    rcases exists_path_of_storageContext found with ⟨passed, path, special⟩
    exact ⟨passed, path, specialAfterAll_eq_true_iff.mp special⟩
  · rintro ⟨passed, path, special⟩
    rcases storageContext_of_path inside path with ⟨known, found, covered⟩
    rw [found, covered special]

theorem storageContext_eq_false_iff {index : Nat} (inside : index < program.size) :
    program.storageContext[index]? = some (some false) <->
      (∃ passed, program.Path passed index) ∧
        forall passed, program.Path passed index -> ¬ program.SelectsSpecial passed := by
  constructor
  · intro found
    rcases exists_path_of_storageContext found with ⟨passed, path, _⟩
    refine ⟨⟨passed, path⟩, ?_⟩
    intro other otherPath special
    rw [(storageContext_eq_true_iff inside).mpr ⟨other, otherPath, special⟩] at found
    cases found
  · rintro ⟨⟨passed, path⟩, plain⟩
    rcases storageContext_of_path inside path with ⟨known, found, _⟩
    cases known with
    | false => exact found
    | true =>
        rcases (storageContext_eq_true_iff inside).mp found with ⟨other, otherPath, special⟩
        exact absurd special (plain other otherPath)

theorem reachable_eq_false_iff {index : Nat} (inside : index < program.size) :
    program.reachable[index]? = some false <-> ¬ ∃ passed, program.Path passed index := by
  rw [← reaches_iff_exists_path, ← isAlive_reachable_iff inside, isAlive]
  have entry : index < program.reachable.size := program.size_reachable ▸ inside
  rw [Array.getElem?_eq_getElem entry]
  simp

theorem exactContext_storageContext (program : Program) :
    program.ExactContext program.storageContext where
  size := program.size_storageContext
  unreached := fun _ inside => storageContext_eq_none_iff inside
  unreachable := fun _ inside =>
    (storageContext_eq_none_iff inside).trans (reachable_eq_false_iff inside).symm
  special := fun _ inside => storageContext_eq_true_iff inside
  plain := fun _ inside => storageContext_eq_false_iff inside

end Program

/-- A run that has not ended is at a machine of which the invariant holds. -/
theorem Machine.holds_of_unfinished {N : Type} [Number N] {code : Array Instruction}
    {holds : Machine N -> Prop} (maintained : Maintains code holds) (bound : Nat) :
    forall (taken : Nat) (machine : Machine N) (console : Console), holds machine ->
      (runFrom code taken bound machine console).ending = .unfinished ->
      holds (runFrom code taken bound machine console).machine := by
  induction bound with
  | zero =>
      intro taken machine console held _
      exact held
  | succ bound inductionHypothesis =>
      intro taken machine console held unfinished
      rcases stepped : machine.step code console with ⟨result, next, after⟩
      cases result with
      | error fault =>
          simp only [runFrom, stepped] at unfinished
          exact absurd unfinished (next.concludes_conclude ..).ending_ne
      | ok progress =>
          cases progress with
          | halted =>
              simp only [runFrom, stepped] at unfinished
              exact absurd unfinished (next.concludes_conclude ..).ending_ne
          | continued | jumped =>
              have heldNext : holds next := by
                apply maintained machine console (machine.call? code console) after next held
                simp only [process, stepped, continuation]
              simp only [runFrom, stepped] at unfinished ⊢
              exact inductionHypothesis (taken + 1) next after heldNext unfinished

namespace Program

theorem findsStacks_storageContext (N : Type) [Number N] (program : Program) :
    FindsStacks N program program.storageContext := by
  intro console bound unfinished plain
  have closed := program.contextual_storageContext
  have held : program.InContext program.storageContext
      (Machine.run program bound console : Run N).machine :=
    Machine.holds_of_unfinished closed.maintains bound 0 Machine.start console
      closed.inContext_start unfinished
  have inside : (Machine.run program bound console : Run N).machine.index < program.size := by
    rw [← program.size_storageContext]
    exact (Array.getElem?_eq_some_iff.mp plain).1
  constructor
  · intro special
    rcases held.allowed inside with ⟨known, found, covered⟩
    rw [plain] at found
    cases found
    cases covered special
  · exact held.exists_stack inside plain

/-- The storage context tells exactly which instructions control can reach and which of them it
can reach with the queue or the passage selected, and an instruction that never meets those
runs with a stack selected only. -/
theorem storageContext_exact (N : Type) [Number N] (program : Program) :
    program.ExactContext program.storageContext ∧
      FindsStacks N program program.storageContext :=
  ⟨program.exactContext_storageContext, findsStacks_storageContext N program⟩

end Program
end HangulPane
