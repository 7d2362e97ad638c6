import HangulPane.Program.Compact
import HangulPane.Proofs.Machine.Reindex
import Mathlib.Data.List.Basic

namespace HangulPane
namespace Program

/-!
Compaction keeps the behaviour if what it deletes does nothing.

A survivor stands at the number of survivors before it, and a label lands on the
number of survivors before what it stood for.  So control that goes to a deleted
instruction goes to the next survivor instead.  That is the same as long as every
deleted instruction that a run meets would only have passed control on to the next
one.
-/

/-- Going past an index counts the instruction there if it is alive. -/
theorem survivorsBefore_succ (live : Array Bool) (index : Nat) :
    survivorsBefore live (index + 1) =
      survivorsBefore live index + if isAlive live index then 1 else 0 := by
  simp [survivorsBefore, List.range_succ, List.countP_append, List.countP_cons]

/-- The survivors among the first instructions. -/
def survivingBefore (program : Program) (live : Array Bool) (index : Nat) : List Instruction :=
  ((List.range index).filter (isAlive live)).filterMap fun index => program.code[index]?

/-- A survivor is listed at the number of survivors before it. -/
theorem getElem?_filter_range {live : Array Bool} {index bound : Nat}
    (alive : isAlive live index = true) (below : index < bound) :
    ((List.range bound).filter (isAlive live))[survivorsBefore live index]? = some index := by
  induction bound with
  | zero => contradiction
  | succ bound inductionHypothesis =>
      rw [List.range_succ, List.filter_append]
      by_cases last : index = bound
      · subst last
        have length : ((List.range index).filter (isAlive live)).length =
            survivorsBefore live index := List.countP_eq_length_filter.symm
        rw [List.getElem?_append_right (Nat.le_of_eq length), length, Nat.sub_self]
        simp [alive]
      · have earlier := inductionHypothesis (by omega)
        rw [List.getElem?_append_left (List.getElem?_eq_some_iff.mp earlier).1, earlier]

/-- Inside the program there is an instruction at every index. -/
theorem survivingBefore_eq_map (program : Program) (live : Array Bool) {bound : Nat}
    (inside : bound ≤ program.size) :
    program.survivingBefore live bound =
      ((List.range bound).filter (isAlive live)).map fun index =>
        program.code[index]?.getD .noop := by
  apply List.filterMap_eq_map_iff_forall_eq_some.mpr
  intro index listed
  have below : index < bound := List.mem_range.mp (List.mem_filter.mp listed).1
  have present : index < program.code.size := Nat.lt_of_lt_of_le below inside
  simp [Array.getElem?_eq_getElem present]

theorem length_survivingBefore (program : Program) (live : Array Bool) (index : Nat)
    (inside : index ≤ program.size) :
    (program.survivingBefore live index).length = survivorsBefore live index := by
  rw [program.survivingBefore_eq_map live inside, List.length_map]
  exact List.countP_eq_length_filter.symm

/-- A survivor stands at the number of survivors before it. -/
theorem getElem?_survivingBefore (program : Program) (live : Array Bool) {index : Nat}
    (alive : isAlive live index = true) (bound : Nat) (before : index < bound)
    (inside : bound ≤ program.size) :
    (program.survivingBefore live bound)[survivorsBefore live index]? = program.code[index]? := by
  have present : index < program.code.size := Nat.lt_of_lt_of_le before inside
  rw [program.survivingBefore_eq_map live inside, List.getElem?_map,
    getElem?_filter_range alive before, Option.map_some, Array.getElem?_eq_getElem present,
    Option.getD_some]

/-- Each place that survivors take up is the place of one of them. -/
theorem exists_survivor (live : Array Bool) {place bound : Nat}
    (taken : place < survivorsBefore live bound) :
    ∃ index, index < bound ∧ isAlive live index = true ∧ survivorsBefore live index = place := by
  induction bound with
  | zero => simp [survivorsBefore] at taken
  | succ bound inductionHypothesis =>
      by_cases earlier : place < survivorsBefore live bound
      · rcases inductionHypothesis earlier with ⟨index, below, alive, standing⟩
        exact ⟨index, Nat.lt_succ_of_lt below, alive, standing⟩
      · rw [survivorsBefore_succ] at taken
        split at taken
        · rename_i alive
          exact ⟨bound, Nat.lt_succ_self bound, alive, by omega⟩
        · omega

theorem getElem?_code_compact (program : Program) (live : Array Bool) {index : Nat}
    (alive : isAlive live index = true) (inside : index < program.size) :
    (program.compact live).code[survivorsBefore live index]? = program.code[index]? := by
  have found := program.getElem?_survivingBefore live alive program.size inside (Nat.le_refl _)
  simpa [compact, survivingCode, survivors, survivingBefore] using found

theorem size_compact (program : Program) (live : Array Bool) :
    (program.compact live).size = survivorsBefore live program.size := by
  have length := program.length_survivingBefore live program.size (Nat.le_refl _)
  simpa [compact, size, survivingCode, survivors, survivingBefore] using length

/-- The value of a key after keys were entered one after another, each with the value
that belongs to it. -/
theorem find?_foldl_insert (value : Nat -> Nat) (keys : List Nat) (table : Table) (key : Nat) :
    (keys.foldl (fun table key => table.insert key (value key)) table).find? key =
      if key ∈ keys then some (value key) else table.find? key := by
  induction keys generalizing table with
  | nil => simp
  | cons first later inductionHypothesis =>
      rw [List.foldl_cons, inductionHypothesis, Table.find?_insert]
      by_cases here : key = first
      · simp [here]
      · simp [here]

/-- The labels of a compacted program are those that its instructions refer to, each entered
with the index at which it lands. -/
theorem find?_compact (program : Program) (live : Array Bool) (label : Nat) :
    (program.compact live).labels.find? label =
      if label ∈ (program.compact live).referredLabels then
        some (program.compactedTarget live label)
      else none :=
  find?_foldl_insert (program.compactedTarget live) _ Table.empty label

/-- A label that a survivor refers to lands on the next survivor. -/
theorem target_compact (program : Program) (live : Array Bool) {index label : Nat}
    {instruction : Instruction} (fetched : program.code[index]? = some instruction)
    (alive : isAlive live index = true) (labelled : instruction.label? = some label) :
    (program.compact live).target label =
      survivorsBefore live (min (program.target label) program.size) := by
  have inside : index < program.size := (Array.getElem?_eq_some_iff.mp fetched).1
  have survives : instruction ∈ program.survivingCode live := by
    refine List.mem_filterMap.mpr ⟨index, ?_, fetched⟩
    exact List.mem_filter.mpr ⟨List.mem_range.mpr inside, alive⟩
  have referred : label ∈ (program.survivingCode live).filterMap Instruction.label? :=
    List.mem_filterMap.mpr ⟨instruction, survives, labelled⟩
  simp only [target, compact, find?_foldl_insert, if_pos referred]
  rfl

/-- Deleting instructions keeps the behaviour if each deleted one that a run meets does
nothing but pass control on. -/
theorem sameBehaviour_compact {N : Type} [Number N] (program : Program) (live : Array Bool)
    (holds : Machine N -> Prop) (maintained : Machine.Maintains program.linked holds)
    (holdsAtStart : holds Machine.start)
    (idle : forall machine, holds machine -> machine.index < program.size ->
      isAlive live machine.index = false ->
      Machine.Silently program.linked machine (machine.movedTo (machine.index + 1))) :
    SameBehaviour N program (program.compact live) := by
  refine .of_reindexing holds
    (fun index other => other = survivorsBefore live (min index program.size))
    (fun index _ => program.size - index) maintained ?_ holdsAtStart ?_
  · rintro machine _ held rfl
    by_cases inside : machine.index < program.size
    · have clamped : min machine.index program.size = machine.index := by omega
      have clampedNext : min (machine.index + 1) program.size = machine.index + 1 := by omega
      have fetched : program.code[machine.index]? = some program.code[machine.index] :=
        Array.getElem?_eq_getElem inside
      rw [clamped]
      cases alive : isAlive live machine.index with
      | false =>
          refine .passed (machine.index + 1) (idle machine held inside alive) ?_ (by omega)
          simp [clampedNext, survivorsBefore_succ, alive]
      | true =>
          refine .same program.code[machine.index] program.target (program.compact live).target
            ?_ ?_ ?_
          · simp [getElem?_linked, fetched]
          · simp [getElem?_linked, program.getElem?_code_compact live alive inside, fetched]
          · rintro leftNext rightNext (⟨_, rfl, rfl⟩ | ⟨label, labelled, rfl, rfl⟩)
            · simp [clampedNext, survivorsBefore_succ, alive]
            · exact program.target_compact live fetched alive labelled
    · have clamped : min machine.index program.size = program.size := by omega
      have leftOver : program.code[machine.index]? = none :=
        Array.getElem?_eq_none (Nat.le_of_not_lt inside)
      have rightOver : (program.compact live).code[(program.compact live).size]? = none :=
        Array.getElem?_eq_none (Nat.le_refl _)
      rw [clamped, ← size_compact]
      exact .past (by simp [getElem?_linked, leftOver]) (by simp [getElem?_linked, rightOver])
  · simp [survivorsBefore]

end Program
end HangulPane
