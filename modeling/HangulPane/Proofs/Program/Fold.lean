import HangulPane.Program.Compact
import HangulPane.Proofs.Program.Rounds
import HangulPane.Proofs.Program.Stretch

namespace HangulPane

/-!
Folding constants keeps the behaviour.

A fold rewrites one stretch of the program.  What it relies on is a context that is closed
under control flow, true facts about the labels and their uses, and that whatever was discarded
is idle.  Every fold keeps all of that.
-/

/-- Whether an instruction only works on the selected storage and passes control on. -/
def Instruction.isPlain : Instruction -> Bool
  | .sel _ | .halt | .brz _ | .brPop1 _ | .brPop2 _ | .jmp _ => false
  | _ => true

namespace Instruction

variable {instruction : Instruction}

theorem label?_of_isPlain (plain : instruction.isPlain = true) : instruction.label? = none := by
  cases instruction <;> first | rfl | contradiction

theorem ne_sel_of_isPlain (plain : instruction.isPlain = true) (byte : UInt8) :
    instruction ≠ .sel byte := by
  rintro rfl
  contradiction

theorem fallsThrough_of_isPlain (plain : instruction.isPlain = true) :
    instruction.fallsThrough = true := by
  cases instruction <;> first | rfl | contradiction

theorem isPlain_of_isBinary (binary : instruction.opcode.isBinary = true) :
    instruction.isPlain = true := by
  cases instruction <;> first | rfl | contradiction

end Instruction

namespace Program

theorem successors_of_isPlain {program : Program} {index : Nat} {instruction : Instruction}
    (fetched : program.code[index]? = some instruction) (plain : instruction.isPlain = true) :
    program.successors index = [index + 1] := by
  unfold successors
  rw [fetched]
  cases instruction <;> first | rfl | contradiction

theorem specialAfter_of_isPlain {instruction : Instruction} (plain : instruction.isPlain = true)
    (special : Bool) : specialAfter instruction special = special := by
  cases instruction <;> first | rfl | contradiction

/-- The program with an instruction replaced. -/
def withCode (program : Program) (index : Nat) (instruction : Instruction) : Program :=
  { program with code := program.code.setIfInBounds index instruction }

section WithCode

variable {program : Program} {index : Nat} {old new : Instruction}

@[simp]
theorem size_withCode (program : Program) (index : Nat) (new : Instruction) :
    (program.withCode index new).size = program.size := by
  simp [withCode, size]

@[simp]
theorem target_withCode (program : Program) (index : Nat) (new : Instruction) (label : Nat) :
    (program.withCode index new).target label = program.target label := by
  simp [withCode, target, size]

theorem code_withCode_of_ne {other : Nat} (different : index ≠ other) :
    (program.withCode index new).code[other]? = program.code[other]? := by
  simp [withCode, different]

theorem code_withCode_self (fetched : program.code[index]? = some old) :
    (program.withCode index new).code[index]? = some new := by
  have inside : index < program.code.size := (Array.getElem?_eq_some_iff.mp fetched).1
  simp [withCode, inside]

/-- Replacing a plain instruction by another one keeps the control flow. -/
theorem successors_withCode (fetched : program.code[index]? = some old)
    (plainOld : old.isPlain = true) (plainNew : new.isPlain = true) (other : Nat) :
    (program.withCode index new).successors other = program.successors other := by
  by_cases here : index = other
  · subst here
    rw [successors_of_isPlain fetched plainOld,
      successors_of_isPlain (code_withCode_self fetched) plainNew]
  · have targets : (program.withCode index new).target = program.target :=
      funext (program.target_withCode index new)
    simp only [successors, code_withCode_of_ne here, targets]

theorem Contextual.withCode {context : Array (Option Bool)} (closed : program.Contextual context)
    (fetched : program.code[index]? = some old) (plainOld : old.isPlain = true)
    (plainNew : new.isPlain = true) : (program.withCode index new).Contextual context where
  first := by
    rw [size_withCode]
    exact closed.first
  next := by
    intro other instruction special known otherFetched next successor
    rw [successors_withCode fetched plainOld plainNew] at successor
    rw [size_withCode]
    by_cases here : index = other
    · subst here
      rw [code_withCode_self fetched] at otherFetched
      cases otherFetched
      have before := closed.next index old special known fetched next successor
      rwa [specialAfter_of_isPlain plainOld, ← specialAfter_of_isPlain plainNew special] at before
    · rw [code_withCode_of_ne here] at otherFetched
      exact closed.next other instruction special known otherFetched next successor

/-- Replacing an item that a partial map drops by another such item keeps the images. -/
theorem filterMap_set_of_none {Item Image : Type} (image? : Item -> Option Image)
    {items : List Item} {place : Nat} {old new : Item} (there : items[place]? = some old)
    (oldDropped : image? old = none) (newDropped : image? new = none) :
    (items.set place new).filterMap image? = items.filterMap image? := by
  induction items generalizing place with
  | nil => rfl
  | cons item rest inductionHypothesis =>
      cases place with
      | zero =>
          cases there
          simp [oldDropped, newDropped]
      | succ place =>
          have thereLater : rest[place]? = some old := by simpa using there
          have later := inductionHypothesis thereLater
          simp [List.filterMap_cons, later]

/-- Replacing an instruction without a label by another one keeps the references. -/
theorem referredLabels_withCode (fetched : program.code[index]? = some old)
    (plainOld : old.isPlain = true) (plainNew : new.isPlain = true) :
    (program.withCode index new).referredLabels = program.referredLabels := by
  rw [← Array.getElem?_toList] at fetched
  simp only [referredLabels, withCode, Array.toList_setIfInBounds]
  exact filterMap_set_of_none Instruction.label? fetched (Instruction.label?_of_isPlain plainOld)
    (Instruction.label?_of_isPlain plainNew)

end WithCode

/-- Moving a label past a plain instruction keeps a context closed. -/
theorem Contextual.withAdvanced {program : Program} {context : Array (Option Bool)}
    (closed : program.Contextual context) {label : Nat} {passed : Instruction}
    (fetched : program.code[program.target label]? = some passed)
    (plain : passed.isPlain = true) : (program.withAdvanced label).Contextual context where
  first := closed.first
  next := by
    intro index instruction special known fetchedHere other successor
    have before := closed.next index instruction special known fetchedHere
    rcases mem_successors fetchedHere successor with ⟨falls, rfl⟩ | ⟨used, labelled, rfl⟩
    · exact before _ (mem_successors_of_fallsThrough fetchedHere falls)
    · have atTarget := before _ (mem_successors_of_label fetchedHere labelled)
      rw [target_withAdvanced]
      split
      · rename_i same
        subst same
        exact closed.follow atTarget fetched (Instruction.ne_sel_of_isPlain plain)
          (mem_successors_of_fallsThrough fetched (Instruction.fallsThrough_of_isPlain plain))
      · exact atTarget

/-- What lies before an index, down to the closest instruction that is not idle. -/
theorem previous?_eq_some {code : Array Instruction} {index before : Nat}
    (found : previous? code index = some before) :
    before < index ∧ code[before]? ≠ some .noop ∧
      forall between, before < between -> between < index -> code[between]? = some .noop := by
  induction index with
  | zero => simp [previous?] at found
  | succ index inductionHypothesis =>
      unfold previous? at found
      split at found
      · rename_i idle
        rcases inductionHypothesis found with ⟨less, busy, between⟩
        refine ⟨Nat.lt_succ_of_lt less, busy, ?_⟩
        intro other after below
        by_cases last : other = index
        · rw [last]
          exact idle
        · exact between other after (by omega)
      · rename_i busy
        cases found
        exact ⟨Nat.lt_succ_self _, busy, fun _ _ _ => by omega⟩

namespace Folding

/-- What holds of a program while it is being folded. -/
structure Consistent (context : Array (Option Bool)) (folding : Folding) : Prop where
  closed : folding.program.Contextual context
  targets : folding.targets = folding.program.targetCounts
  unique : forall index,
    folding.unique.find? index = folding.program.uniqueLabels.find? index
  uses : folding.uses = folding.program.labelUses
  /-- An instruction that is not needed is never reached or does nothing. -/
  idle : forall index, isAlive folding.live index = false -> index < folding.program.size ->
    (forall known, context[index]? ≠ some (some known)) ∨
      folding.program.code[index]? = some .noop

variable {context : Array (Option Bool)} {folding : Folding}

theorem consistent_start (program : Program) :
    (start program).Consistent program.storageContext where
  closed := program.contextual_storageContext
  targets := rfl
  unique := fun _ => rfl
  uses := rfl
  idle := by
    intro index dead _
    refine Or.inl ?_
    intro known found
    simp [isAlive, start, found] at dead

theorem Consistent.replace (consistent : folding.Consistent context) {index : Nat}
    {old new : Instruction} (fetched : folding.program.code[index]? = some old)
    (plainOld : old.isPlain = true) (plainNew : new.isPlain = true) (busy : old ≠ .noop) :
    (folding.replace index new).Consistent context where
  closed := consistent.closed.withCode fetched plainOld plainNew
  targets := by
    have sameSize : (folding.program.withCode index new).size = folding.program.size :=
      size_withCode _ _ _
    change folding.targets = (folding.program.withCode index new).targetCounts
    rw [consistent.targets, targetCounts, targetCounts, sameSize]
    rfl
  unique := consistent.unique
  uses := by
    change folding.uses = (folding.program.withCode index new).labelUses
    rw [consistent.uses, labelUses, labelUses, referredLabels_withCode fetched plainOld plainNew]
  idle := by
    intro other dead inside
    change other < (folding.program.withCode index new).size at inside
    rw [size_withCode] at inside
    change _ ∨ (folding.program.withCode index new).code[other]? = some .noop
    rcases consistent.idle other dead inside with unreached | idle
    · exact Or.inl unreached
    · refine Or.inr ?_
      have different : index ≠ other := by
        rintro rfl
        rw [fetched] at idle
        exact busy (Option.some.inj idle)
      rw [code_withCode_of_ne different]
      exact idle

theorem Consistent.discard (consistent : folding.Consistent context) {index : Nat}
    {old : Instruction} (fetched : folding.program.code[index]? = some old)
    (plain : old.isPlain = true) (busy : old ≠ .noop) :
    (folding.discard index).Consistent context := by
  have replaced : (folding.replace index .noop).Consistent context :=
    consistent.replace fetched plain rfl busy
  refine ⟨replaced.closed, replaced.targets, replaced.unique, replaced.uses, ?_⟩
  intro other dead inside
  by_cases here : index = other
  · subst here
    exact Or.inr (code_withCode_self fetched)
  · refine replaced.idle other ?_ inside
    simpa [isAlive, Folding.discard, here] using dead

theorem Consistent.advanceLabel (consistent : folding.Consistent context) {label : Nat}
    {passed : Instruction}
    (alone : folding.unique.find? (folding.program.target label) = some label)
    (fetched : folding.program.code[folding.program.target label]? = some passed)
    (plain : passed.isPlain = true) :
    (folding.advanceLabel label (folding.program.target label)).Consistent context := by
  have inside : folding.program.target label < folding.program.size :=
    (Array.getElem?_eq_some_iff.mp fetched).1
  have counted : (folding.program.withAdvanced label).targetCounts =
      (folding.targets.modify (folding.program.target label) (· - 1)).modify
        (folding.program.target label + 1) (· + 1) := by
    rw [consistent.targets]
    exact targetCounts_withAdvanced inside
  refine ⟨consistent.closed.withAdvanced fetched plain, counted.symm, ?_, consistent.uses,
    consistent.idle⟩
  intro index
  rw [consistent.unique] at alone
  refine Eq.trans ?_ (find?_uniqueLabels_withAdvanced alone inside index).symm
  have countedNext : (folding.program.withAdvanced label).targetCounts[
      folding.program.target label + 1]? =
        some ((folding.program.withAdvanced label).targetCount (folding.program.target label + 1)) :=
    getElem?_targetCounts _ inside
  rw [counted] at countedNext
  simp only [Folding.advanceLabel, countedNext, Option.some.injEq]
  by_cases next : index = folding.program.target label + 1
  · subst next
    split
    · simp [Table.find?_insert]
    · simp [Table.find?_erase]
  · rw [if_neg next]
    split
    · simp [Table.find?_insert, Table.find?_erase, next, consistent.unique]
    · simp [Table.find?_erase, next, consistent.unique]

theorem Consistent.moveComments (consistent : folding.Consistent context)
    (source destination : Nat) : (folding.moveComments source destination).Consistent context :=
  ⟨⟨consistent.closed.first, consistent.closed.next⟩, consistent.targets, consistent.unique,
    consistent.uses, consistent.idle⟩

/-- What has a context and is not needed does nothing. -/
theorem Consistent.noop_of_dead (consistent : folding.Consistent context) {index : Nat}
    {known : Bool} (found : context[index]? = some (some known))
    (dead : isAlive folding.live index = false) (inside : index < folding.program.size) :
    folding.program.code[index]? = some .noop :=
  (consistent.idle index dead inside).resolve_left fun unreached => unreached known found

/-- Where no label is counted, none leads. -/
theorem Consistent.target_ne (consistent : folding.Consistent context) {first last : Nat}
    (none_ : folding.hasTarget first last = false) (bounded : last < folding.program.size)
    (label index : Nat) (from_ : first ≤ index) (to_ : index ≤ last) :
    folding.program.target label ≠ index := by
  have listed : index ∈ List.range' first (last + 1 - first) := by
    rw [List.mem_range'_1]
    omega
  have uncounted := List.any_eq_false.mp none_ index listed
  rw [consistent.targets, getElem?_targetCounts _ (by omega)] at uncounted
  refine target_ne_of_targetCount (by omega) ?_ label
  simpa using uncounted

/-- What one fold makes of a program: the facts about it stay true, and it behaves as
before. -/
structure Preserves (N : Type) [Number N] (context : Array (Option Bool))
    (before after : Folding) : Prop where
  consistent : after.Consistent context
  sameBehaviour : SameBehaviour N before.program after.program

section Folds

variable {N : Type} [Number N]

theorem stackOnly_of_isStackOnly {index : Nat} (stackOnly : isStackOnly context index = true) :
    context[index]? = some (some false) := by
  simpa [isStackOnly] using stackOnly

variable [LiteralNumber N]

/-- The literals that are pending when a literal is about to be doubled. -/
def pendingDuplicate (literal : Int64) (before : Nat) : Pending := fun index =>
  if index ≤ before then ([], []) else ([literal], [literal])

theorem pendingDuplicate_before (literal : Int64) (before : Nat) :
    pendingDuplicate literal before before = ([], []) :=
  if_pos (Nat.le_refl before)

theorem pendingDuplicate_after {literal : Int64} {before index : Nat} (less : before < index) :
    pendingDuplicate literal before index = ([literal], [literal]) :=
  if_neg (Nat.not_le.mpr less)

/-- A duplicate of a literal can as well push that literal. -/
theorem sameBehaviour_withCode_dup {program : Program} {before index : Nat} {literal : Int64}
    (closed : program.Contextual context)
    (duplicate : program.code[index]? = some .dup)
    (push : program.code[before]? = some (.push literal)) (less : before < index)
    (idle : forall between, before < between -> between < index ->
      program.code[between]? = some .noop)
    (stackOnly : context[before]? = some (some false))
    (untargeted : forall label other, before + 1 ≤ other -> other ≤ index ->
      program.target label ≠ other) :
    SameBehaviour N program (program.withCode index (.push literal)) := by
  have stretch : program.Stretch (program.withCode index (.push literal)) before index
      (pendingDuplicate literal before) := by
    refine ⟨?_, ?_, pendingDuplicate_before literal before, ?_, ?_⟩
    · exact fun other outside => code_withCode_of_ne (by omega)
    · exact fun label other within => untargeted label other within.1 within.2
    · intro other within
      rw [pendingDuplicate_after within.1]
      simp
    · intro other started below
      rw [code_withCode_of_ne (by omega), pendingDuplicate_after (Nat.lt_succ_of_le started)]
      by_cases entry : other = before
      · rw [entry, pendingDuplicate_before]
        exact ⟨.push literal, .push literal, push, push, .push _ _, .push _ _⟩
      · have later : before < other := by omega
        have between := idle other later below
        rw [pendingDuplicate_after later]
        exact ⟨.noop, .noop, between, between, .noop _, .noop _⟩
  have doubled : Instruction.dup.OnLiterals (pendingDuplicate literal before index).1
      [literal, literal] := by
    rw [pendingDuplicate_after less]
    exact .dup literal []
  have pushed : (Instruction.push literal).OnLiterals (pendingDuplicate literal before index).2
      [literal, literal] := by
    rw [pendingDuplicate_after less]
    exact .push literal [literal]
  exact stretch.sameBehaviour_of_equal_end less closed stackOnly (target_withCode _ _ _)
    duplicate (code_withCode_self duplicate) doubled pushed

/-- The literals that are pending after two literals were pushed one after the other, where
the right program has only a result. -/
def pendingPair (left right : Nat) (leftValue rightValue : Int64) (result : List Int64) : Pending :=
  fun index =>
    if index ≤ left then ([], [])
    else if index ≤ right then ([leftValue], [])
    else ([rightValue, leftValue], result)

section PendingPair

variable {left right index : Nat} {leftValue rightValue : Int64} {result : List Int64}

theorem pendingPair_none : pendingPair left right leftValue rightValue result left = ([], []) :=
  if_pos (Nat.le_refl left)

theorem pendingPair_one (after : left < index) (before : index ≤ right) :
    pendingPair left right leftValue rightValue result index = ([leftValue], []) := by
  unfold pendingPair
  rw [if_neg (Nat.not_le.mpr after), if_pos before]

theorem pendingPair_two (less : left < right) (after : right < index) :
    pendingPair left right leftValue rightValue result index =
      ([rightValue, leftValue], result) := by
  unfold pendingPair
  rw [if_neg (by omega), if_neg (Nat.not_le.mpr after)]

end PendingPair

/-- Two instructions that leave two literals, with nothing but idle instructions between
them and before the one at the last index. -/
structure TwoLiterals (program : Program) (left right last : Nat) (leftValue rightValue : Int64) :
    Prop where
  push : program.code[left]? = some (.push leftValue)
  second : ∃ instruction, program.code[right]? = some instruction ∧
    instruction.isPlain = true ∧ instruction ≠ .noop ∧
    instruction.OnLiterals [leftValue] [rightValue, leftValue]
  leftLess : left < right
  rightLess : right < last
  idle : forall between, left < between -> between < last -> between ≠ right ->
    program.code[between]? = some .noop
  untargeted : forall label index, left + 1 ≤ index -> index ≤ last ->
    program.target label ≠ index

/-- Making the first of two literals idle and putting a result in place of the second one
rewrites a stretch. -/
theorem TwoLiterals.stretch {program folded : Program} {left right last : Nat}
    {leftValue rightValue : Int64} {result : List Int64} {replacement : Instruction}
    (literals : TwoLiterals program left right last leftValue rightValue)
    (elsewhere : forall index, index ≠ left -> index ≠ right -> index ≠ last ->
      folded.code[index]? = program.code[index]?)
    (leftIdle : folded.code[left]? = some .noop)
    (rightReplaced : folded.code[right]? = some replacement)
    (yields : replacement.OnLiterals [] result) :
    program.Stretch folded left last (pendingPair left right leftValue rightValue result) := by
  have leftLess := literals.leftLess
  have rightLess := literals.rightLess
  refine ⟨?_, ?_, pendingPair_none, ?_, ?_⟩
  · exact fun index outside => elsewhere index (by omega) (by omega) (by omega)
  · exact fun label index within => literals.untargeted label index within.1 within.2
  · intro index within
    by_cases first : index ≤ right
    · rw [pendingPair_one within.1 first]
      simp
    · rw [pendingPair_two leftLess (by omega)]
      simp
  · intro index started below
    rcases Nat.lt_trichotomy index right with early | here | late
    · rw [pendingPair_one (Nat.lt_succ_of_le started) early]
      by_cases entry : index = left
      · rw [entry, pendingPair_none]
        exact ⟨_, _, literals.push, leftIdle, .push _ _, .noop _⟩
      · have idle := literals.idle index (by omega) below (by omega)
        rw [pendingPair_one (by omega) (Nat.le_of_lt early)]
        exact ⟨_, _, idle, (elsewhere index entry (by omega) (by omega)).trans idle, .noop _,
          .noop _⟩
    · rw [here, pendingPair_one leftLess (Nat.le_refl right),
        pendingPair_two leftLess (Nat.lt_succ_self right)]
      rcases literals.second with ⟨instruction, fetched, _, _, works⟩
      exact ⟨instruction, replacement, fetched, rightReplaced, works, yields⟩
    · have idle := literals.idle index (by omega) below (by omega)
      rw [pendingPair_two leftLess late, pendingPair_two leftLess (Nat.lt_succ_of_lt late)]
      exact ⟨_, _, idle, (elsewhere index (by omega) (by omega) (by omega)).trans idle, .noop _,
        .noop _⟩

theorem combine_of_foldedValue? {instruction : Instruction} {left right value : Int64}
    (folded : foldedValue? instruction left right = some value) :
    Number.combine instruction.opcode left right = .ok value := by
  unfold foldedValue? at folded
  split at folded
  · rename_i result combined
    split at folded
    · cases folded
      exact combined
    · contradiction
  · contradiction

theorem onLiterals_of_foldedValue? {instruction : Instruction} {left right value : Int64}
    (binary : instruction.opcode.isBinary = true)
    (folded : foldedValue? instruction left right = some value) :
    instruction.OnLiterals [right, left] [value] :=
  .combine [] binary (combine_of_foldedValue? folded)

/-- An operation on two literals can as well push its value. -/
theorem sameBehaviour_of_folded_operation {program : Program} {left right index : Nat}
    {leftValue rightValue value : Int64} {operation : Instruction}
    (closed : program.Contextual context)
    (literals : TwoLiterals program left right index leftValue rightValue)
    (stackOnly : context[left]? = some (some false))
    (fetched : program.code[index]? = some operation)
    (binary : operation.opcode.isBinary = true)
    (folded : foldedValue? operation leftValue rightValue = some value) :
    SameBehaviour N program
      (((program.withCode index (.push value)).withCode right .noop).withCode left .noop) := by
  have leftLess := literals.leftLess
  have rightLess := literals.rightLess
  rcases literals.second with ⟨second, rightFetched, _, _, _⟩
  have rightFetchedLater : (program.withCode index (.push value)).code[right]? = some second := by
    rw [code_withCode_of_ne (by omega)]
    exact rightFetched
  have leftFetchedLater : ((program.withCode index (.push value)).withCode right .noop).code[left]? =
      some (.push leftValue) := by
    rw [code_withCode_of_ne (by omega), code_withCode_of_ne (by omega)]
    exact literals.push
  have stretch : program.Stretch
      (((program.withCode index (.push value)).withCode right .noop).withCode left .noop) left index
      (pendingPair left right leftValue rightValue []) := by
    have yields : Instruction.noop.OnLiterals [] [] := .noop []
    refine literals.stretch ?_ (code_withCode_self leftFetchedLater) ?_ yields
    · intro other notLeft notRight notIndex
      rw [code_withCode_of_ne notLeft.symm, code_withCode_of_ne notRight.symm,
        code_withCode_of_ne notIndex.symm]
    · rw [code_withCode_of_ne (by omega), code_withCode_self rightFetchedLater]
  have pendingHere : pendingPair left right leftValue rightValue [] index =
      ([rightValue, leftValue], []) := pendingPair_two leftLess rightLess
  have operates : operation.OnLiterals (pendingPair left right leftValue rightValue [] index).1
      [value] := by
    rw [pendingHere]
    exact onLiterals_of_foldedValue? binary folded
  have pushes : (Instruction.push value).OnLiterals
      (pendingPair left right leftValue rightValue [] index).2 [value] := by
    rw [pendingHere]
    exact .push value []
  refine stretch.sameBehaviour_of_equal_end (Nat.lt_trans leftLess rightLess) closed stackOnly
    (by simp) fetched ?_ operates pushes
  rw [code_withCode_of_ne (by omega), code_withCode_of_ne (by omega), code_withCode_self fetched]

/-- Two literals before a jump to an operation on them can as well be combined before the
jump, if the jump then skips the operation. -/
theorem sameBehaviour_of_folded_jump {program : Program} {left right index label : Nat}
    {leftValue rightValue value : Int64} {operation : Instruction}
    (closed : program.Contextual context)
    (literals : TwoLiterals program left right index leftValue rightValue)
    (stackOnly : context[left]? = some (some false))
    (jump : program.code[index]? = some (.jmp label))
    (once : program.labelUses.find? label = some 1)
    (fetched : program.code[program.target label]? = some operation)
    (binary : operation.opcode.isBinary = true)
    (folded : foldedValue? operation leftValue rightValue = some value) :
    SameBehaviour N program
      (((program.withCode right (.push value)).withCode left .noop).withAdvanced label) := by
  have leftLess := literals.leftLess
  have rightLess := literals.rightLess
  rcases literals.second with ⟨second, rightFetched, _, _, _⟩
  have leftFetchedLater : (program.withCode right (.push value)).code[left]? =
      some (.push leftValue) := by
    rw [code_withCode_of_ne (by omega)]
    exact literals.push
  have stretch : program.Stretch
      (((program.withCode right (.push value)).withCode left .noop).withAdvanced label) left index
      (pendingPair left right leftValue rightValue [value]) := by
    have yields : (Instruction.push value).OnLiterals [] [value] := .push value []
    refine literals.stretch ?_ (code_withCode_self leftFetchedLater) ?_ yields
    · intro other notLeft notRight _
      exact (code_withCode_of_ne notLeft.symm).trans (code_withCode_of_ne notRight.symm)
    · exact (code_withCode_of_ne (by omega)).trans (code_withCode_self rightFetched)
  have pendingHere : pendingPair left right leftValue rightValue [value] index =
      ([rightValue, leftValue], [value]) := pendingPair_two leftLess rightLess
  have targets : forall other,
      (((program.withCode right (.push value)).withCode left .noop).withAdvanced label).target other =
        if other = label then program.target label + 1 else program.target other := by
    intro other
    rw [target_withAdvanced]
    simp only [target_withCode]
  refine stretch.sameBehaviour_of_skipped_operation (Nat.lt_trans leftLess rightLess) closed
    stackOnly jump ?_ ?_ ?_ ?_ ?_ fetched ?_
  · exact (code_withCode_of_ne (by omega)).trans
      ((code_withCode_of_ne (by omega)).trans jump)
  · intro other instruction otherFetched labelled
    exact eq_of_used_once once otherFetched labelled jump rfl
  · rw [targets, if_pos rfl]
  · intro other different
    rw [targets, if_neg different]
  · intro leadsToFirst
    rw [leadsToFirst, literals.push] at fetched
    cases fetched
    contradiction
  · rw [pendingHere]
    exact onLiterals_of_foldedValue? binary folded

theorem Consistent.skipOperation (consistent : folding.Consistent context)
    {left right index label : Nat} {leftValue rightValue : Int64} {operation : Instruction}
    (literals : TwoLiterals folding.program left right index leftValue rightValue)
    (alone : folding.unique.find? (folding.program.target label) = some label)
    (fetched : folding.program.code[folding.program.target label]? = some operation)
    (binary : operation.opcode.isBinary = true) (value : Int64) :
    (((folding.replace right (.push value)).discard left).advanceLabel label
      (folding.program.target label)).Consistent context := by
  have leftLess := literals.leftLess
  rcases literals.second with ⟨second, rightFetched, plain, busy, _⟩
  have leftFetched : (folding.replace right (.push value)).program.code[left]? =
      some (.push leftValue) :=
    (code_withCode_of_ne (Nat.ne_of_gt leftLess)).trans literals.push
  have replaced : (folding.replace right (.push value)).Consistent context :=
    consistent.replace rightFetched plain rfl busy
  have discarded := replaced.discard leftFetched rfl (by simp)
  have sameTarget : ((folding.replace right (.push value)).discard left).program.target label =
      folding.program.target label :=
    (target_withCode _ _ _ _).trans (target_withCode _ _ _ _)
  have notLeft : left ≠ folding.program.target label := by
    intro same
    rw [← same, literals.push] at fetched
    cases fetched
    contradiction
  have notRight : right ≠ folding.program.target label :=
    (literals.untargeted label right leftLess (Nat.le_of_lt literals.rightLess)).symm
  have fetchedLater : ((folding.replace right (.push value)).discard left).program.code[
      folding.program.target label]? = some operation :=
    (code_withCode_of_ne notLeft).trans ((code_withCode_of_ne notRight).trans fetched)
  have aloneLater : ((folding.replace right (.push value)).discard left).unique.find?
      (folding.program.target label) = some label := alone
  rw [← sameTarget] at fetchedLater aloneLater ⊢
  exact discarded.advanceLabel aloneLater fetchedLater (Instruction.isPlain_of_isBinary binary)

theorem pushes_of_pushedValue? {leftValue rightValue : Int64} {instruction : Option Instruction}
    (pushed : pushedValue? leftValue instruction = some rightValue) :
    ∃ second, instruction = some second ∧ second.isPlain = true ∧ second ≠ .noop ∧
      second.OnLiterals [leftValue] [rightValue, leftValue] := by
  cases instruction with
  | none => cases pushed
  | some second =>
      refine ⟨second, rfl, ?_⟩
      cases second with
      | push literal =>
          cases pushed
          exact ⟨rfl, by simp, .push _ _⟩
      | dup =>
          cases pushed
          exact ⟨rfl, by simp, .dup _ []⟩
      | _ => cases pushed

theorem FindsLiterals.twoLiterals {left right last : Nat} {leftValue rightValue : Int64}
    (literals : folding.FindsLiterals context left right last leftValue rightValue)
    (consistent : folding.Consistent context) (inside : last < folding.program.size) :
    TwoLiterals folding.program left right last leftValue rightValue := by
  rcases previous?_eq_some literals.rightFound with ⟨rightLess, _, rightIdle⟩
  rcases previous?_eq_some literals.leftFound with ⟨leftLess, _, leftIdle⟩
  refine ⟨literals.push, pushes_of_pushedValue? literals.pushed, leftLess, rightLess, ?_,
    consistent.target_ne literals.untargeted inside⟩
  intro between after before different
  rcases Nat.lt_or_gt_of_ne different with early | late
  · exact leftIdle between after early
  · exact rightIdle between late before

theorem Consistent.foldTriple (consistent : folding.Consistent context)
    {left right index : Nat} {leftValue rightValue value : Int64} {operation : Instruction}
    (literals : TwoLiterals folding.program left right index leftValue rightValue)
    (stackOnly : context[left]? = some (some false))
    (fetched : folding.program.code[index]? = some operation)
    (binary : operation.opcode.isBinary = true)
    (folded : foldedValue? operation leftValue rightValue = some value) :
    Preserves N context folding
      (((folding.replace index (.push value)).discard right).discard left) := by
  have leftLess := literals.leftLess
  have rightLess := literals.rightLess
  rcases literals.second with ⟨second, rightFetched, plain, busy, _⟩
  have rightFetchedLater : (folding.replace index (.push value)).program.code[right]? =
      some second :=
    (code_withCode_of_ne (by omega)).trans rightFetched
  have leftFetchedLater : ((folding.replace index (.push value)).discard right).program.code[left]? =
      some (.push leftValue) :=
    (code_withCode_of_ne (by omega)).trans ((code_withCode_of_ne (by omega)).trans literals.push)
  have replaced : (folding.replace index (.push value)).Consistent context := by
    refine consistent.replace fetched (Instruction.isPlain_of_isBinary binary) rfl ?_
    rintro rfl
    contradiction
  exact ⟨(replaced.discard rightFetchedLater plain busy).discard leftFetchedLater rfl (by simp),
    sameBehaviour_of_folded_operation consistent.closed literals stackOnly fetched binary folded⟩

/-- A fold preserves the facts about the program and its behaviour. -/
theorem Consistent.folds (consistent : folding.Consistent context) {first last : Nat}
    {after : Folding} (folds : folding.Folds context first last after) :
    Preserves N context folding after := by
  cases folds with
  | @duplicate literal found push repeats stackOnly untargeted =>
      have inside : last < folding.program.size := (Array.getElem?_eq_some_iff.mp repeats).1
      simp only [Bool.and_eq_true] at stackOnly
      rcases previous?_eq_some found with ⟨less, _, idle⟩
      exact ⟨consistent.replace repeats rfl rfl (by simp),
        sameBehaviour_withCode_dup consistent.closed repeats push less idle
          (stackOnly_of_isStackOnly stackOnly.2) (consistent.target_ne untargeted inside)⟩
  | @operation right leftValue rightValue value operation literals fetched binary folded =>
      have inside : last < folding.program.size := (Array.getElem?_eq_some_iff.mp fetched).1
      have stackOnly := literals.stackOnly
      simp only [Bool.and_eq_true] at stackOnly
      exact consistent.foldTriple (literals.twoLiterals consistent inside)
        (stackOnly_of_isStackOnly stackOnly.2) fetched binary folded
  | @jump right label leftValue rightValue value operation literals jump alone once _ fetched
      binary folded =>
      have inside : last < folding.program.size := (Array.getElem?_eq_some_iff.mp jump).1
      have stackOnly := literals.stackOnly
      simp only [Bool.and_eq_true] at stackOnly
      have pair := literals.twoLiterals consistent inside
      rw [consistent.uses] at once
      refine ⟨(consistent.skipOperation pair alone fetched binary value).moveComments _ _, ?_⟩
      refine (sameBehaviour_of_folded_jump consistent.closed pair
        (stackOnly_of_isStackOnly stackOnly.2) jump once fetched binary folded).trans
          (.of_linked_eq ?_)
      simp only [withAdvanced, target_withCode]
      rfl

end Folds
end Folding

section Pass

variable {N : Type} [Number N] [LiteralNumber N] {program : Program} {duplicates : Bool}

/-- Folding constants keeps the behaviour, and what it finds not needed is never reached or
does nothing. -/
theorem foldConstants?_preserves {folded : Program} {needed : Array Bool}
    (found : program.foldConstants? duplicates = some (folded, needed)) :
    ∃ folding : Folding, folding.program = folded ∧ folding.live = needed ∧
      Folding.Preserves N program.storageContext (Folding.start program) folding := by
  refine foldConstants?_induction ⟨Folding.consistent_start program, .refl program⟩ ?_ found
  intro before first last after preserved folds
  have next := preserved.consistent.folds (N := N) folds
  exact ⟨next.consistent, preserved.sameBehaviour.trans next.sameBehaviour⟩

end Pass

end Program
end HangulPane
