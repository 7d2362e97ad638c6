import HangulPane.Proofs.Pane.Chronicle
import HangulPane.Proofs.Pane.Compile
import Mathlib.Data.List.Chain

namespace HangulPane

/-!
How the code that a tracer writes is laid out.

Each deed adds its own code at the end and leaves all that was there.  So the program is the
code of the deeds in order, and the code of every path is one block that control leaves only
through its last instruction.  Labels lead to the end of the code or to where the code of a
cursor starts, and neither of these is behind a guard.
-/

namespace Cell

variable {cell : Cell} {label : Nat}

/-- Code that is not a halt goes on with what comes behind it. -/
theorem fallsThrough_of_mem_emission (running : cell.operation ≠ .halt)
    {instruction : Instruction} (member : instruction ∈ cell.emission label) :
    instruction.fallsThrough = true := by
  unfold emission at member
  cases operation : cell.operation <;> simp_all [Instruction.fallsThrough] <;>
    rcases member with rfl | rfl <;> rfl

/-- What a cell stands for is no guard. -/
theorem isGuard_action (wellFormed : cell.WellFormed) (label : Nat) :
    (cell.action.withLabel label).opcode.isGuard = false := by
  rw [Instruction.withLabel, Instruction.opcode_mapLabel, opcode_action wellFormed]
  have spelled := wellFormed.operation
  cases operation : cell.operation <;> simp_all [Opcode.isGuard]

/-- A guard in the code of a cell is followed by the operation that it guards. -/
theorem operator_of_guard (wellFormed : cell.WellFormed) {offset : Nat} {guard : Instruction}
    (found : (cell.emission label)[offset]? = some guard)
    (guards : guard.opcode.isGuard = true) :
    ∃ operator, (cell.emission label)[offset + 1]? = some operator ∧
      operator.opcode.isGuard = false ∧
      operator.opcode.requiredDepth = guard.opcode.requiredDepth := by
  have acts := isGuard_action wellFormed label
  cases guarded : cell.isGuarded with
  | true =>
      rw [emission_of_isGuarded wellFormed guarded] at found ⊢
      match offset with
      | 0 =>
          cases found
          refine ⟨_, rfl, acts, ?_⟩
          rw [requiredDepth_guard guarded, Instruction.withLabel, Instruction.opcode_mapLabel,
            opcode_action wellFormed]
      | 1 =>
          cases found
          rw [acts] at guards
          cases guards
  | false =>
      by_cases idle : cell.operation = .noop
      · simp [emission, idle] at found
      · rw [emission_of_not_isGuarded wellFormed guarded idle] at found
        rw [List.mem_singleton.mp (List.mem_of_getElem? found), acts] at guards
        cases guards

end Cell

namespace Deed

/-- Where the code of a path that is taken up starts. -/
def pathStart? : Deed -> Option Nat
  | .takeUp _ index => some index
  | _ => none

/-- The code that a deed adds. -/
def code (pane : Pane) : Deed -> List Instruction
  | .write cursor _ label => (pane.cellAt cursor.position).emission label
  | .close _ label _ => [.jmp label]
  | _ => []

/-- A guard that a deed adds comes with the operation that it guards. -/
theorem operator_of_guard {pane : Pane} {deed : Deed} {offset : Nat} {guard : Instruction}
    (found : (deed.code pane)[offset]? = some guard) (guards : guard.opcode.isGuard = true) :
    ∃ operator, (deed.code pane)[offset + 1]? = some operator ∧
      operator.opcode.isGuard = false ∧
      operator.opcode.requiredDepth = guard.opcode.requiredDepth := by
  cases deed with
  | write cursor index label => exact Cell.operator_of_guard (pane.wellFormed_cellAt _) found guards
  | close cursor label target =>
      rw [List.mem_singleton.mp (List.mem_of_getElem? found)] at guards
      cases guards
  | takeUp path index | lose => simp [code] at found

end Deed

namespace Tracer

/-- Where the code of each path starts, in order. -/
def pathStarts (pane : Pane) (deeds : List Deed) : List Nat :=
  (if pane.isEmpty then [] else [0]) ++ deeds.filterMap Deed.pathStart?

variable {pane : Pane} {deeds : List Deed} {deed : Deed} {tracer next : Tracer}

/-- A deed adds its code at the end. -/
theorem Step.code (step : Step pane tracer deed next) :
    next.tracing.code.toList = tracer.tracing.code.toList ++ deed.code pane := by
  cases step with
  | takeUp queued => exact (List.append_nil _).symm
  | write arrives inside fresh =>
      rw [Tracing.code_emitAt, Deed.code, Pane.position_tracedAt]
  | close arrives landed => exact Array.toList_push
  | lose lost => exact (List.append_nil _).symm

theorem Step.size_code (step : Step pane tracer deed next) :
    next.tracing.code.size = tracer.tracing.code.size + (deed.code pane).length := by
  rw [← Array.length_toList, step.code, List.length_append, Array.length_toList]

/-- A deed leaves what is there. -/
theorem Step.extends (course : tracer.OnCourse pane) (step : Step pane tracer deed next) :
    tracer.tracing.Extends next.tracing := by
  cases step with
  | @takeUp tracing path later queued =>
      have first : path ∈ tracing.pending := queued ▸ List.mem_cons_self
      exact Tracing.extends_takeUp course.orderly first
  | write arrives inside fresh =>
      exact Tracing.extends_emitAt ((Array.getElem?_eq_getElem inside).trans (congrArg some fresh))
  | close arrives landed => exact Tracing.extends_closeWithJump course.orderly _
  | lose lost => exact .refl _

/-- An instruction that is there after a deed was there before, or is one that it added. -/
theorem Step.getElem?_code (step : Step pane tracer deed next) {index : Nat}
    {instruction : Instruction} (fetched : next.tracing.code[index]? = some instruction) :
    tracer.tracing.code[index]? = some instruction ∨
      ∃ offset, index = tracer.tracing.code.size + offset ∧
        (deed.code pane)[offset]? = some instruction := by
  rw [← Array.getElem?_toList, step.code, List.getElem?_append] at fetched
  split at fetched
  · exact Or.inl (Array.getElem?_toList ▸ fetched)
  · rename_i behind
    rw [Array.length_toList] at behind fetched
    exact Or.inr ⟨index - tracer.tracing.code.size, by omega, fetched⟩

/-- What a deed adds stands behind all that was there. -/
theorem Step.getElem?_code_added (step : Step pane tracer deed next) (offset : Nat) :
    next.tracing.code[tracer.tracing.code.size + offset]? = (deed.code pane)[offset]? := by
  rw [← Array.getElem?_toList, step.code, List.getElem?_append_right (by simp)]
  simp

/-- Whether control may come to an index from elsewhere, because no guard stands before it. -/
structure Enterable (code : Array Instruction) (index : Nat) : Prop where
  inside : index ≤ code.size
  unguarded : forall before guard, before + 1 = index -> code[before]? = some guard ->
    guard.opcode.isGuard = false

theorem Enterable.extended {earlier later : Tracing} (extended : earlier.Extends later)
    {index : Nat} (enterable : Enterable earlier.code index) : Enterable later.code index where
  inside := Nat.le_trans enterable.inside extended.size_le
  unguarded := by
    intro before guard next fetched
    have inside := enterable.inside
    rw [extended.code before (by omega)] at fetched
    exact enterable.unguarded before guard next fetched

/-- The landings after a deed: those before, and where the code of a cell was written. -/
theorem Step.landing_cases (step : Step pane tracer deed next) {number : Nat} {landing : Landing}
    (found : next.tracing.landings[number]? = some (some landing)) :
    tracer.tracing.landings[number]? = some (some landing) ∨
      landing.entry = tracer.tracing.code.size := by
  cases step with
  | takeUp _ | close _ _ | lose _ => exact Or.inl found
  | write arrives inside fresh =>
      change (Array.set _ _ _ inside)[number]? = _ at found
      rw [Array.getElem?_set] at found
      split at found
      · cases found
        exact Or.inr (Tracing.entry_landingOf _)
      · exact Or.inl found

/-- The labels after a deed: those before, and one that leads to the end of the code or to a
landing. -/
theorem Step.target_cases (step : Step pane tracer deed next) {label target : Nat}
    (found : next.tracing.labels.find? label = some target) :
    tracer.tracing.labels.find? label = some target ∨ target = tracer.tracing.code.size ∨
      ∃ (number : Nat) (landing : Landing),
        tracer.tracing.landings[number]? = some (some landing) ∧ landing.entry = target := by
  cases step with
  | write _ _ _ | lose _ => exact Or.inl found
  | takeUp queued =>
      change (Table.insert _ _ _).find? label = some target at found
      rw [Table.find?_insert] at found
      split at found
      · exact Or.inr (Or.inl (Option.some.inj found).symm)
      · exact Or.inl found
  | close arrives landed =>
      change (Table.insert _ _ _).find? label = some target at found
      rw [Table.find?_insert] at found
      split at found
      · exact Or.inr (Or.inr ⟨_, _, landed, Option.some.inj found⟩)
      · exact Or.inl found

/-- Whether each guard is followed by the operation that it guards, and no label leads there. -/
structure Guarded (tracing : Tracing) : Prop where
  operators : forall index guard, tracing.code[index]? = some guard ->
    guard.opcode.isGuard = true ->
    ∃ operator, tracing.code[index + 1]? = some operator ∧ operator.opcode.isGuard = false ∧
      operator.opcode.requiredDepth = guard.opcode.requiredDepth
  landings : forall (number : Nat) (landing : Landing),
    tracing.landings[number]? = some (some landing) -> Enterable tracing.code landing.entry
  targets : forall label target, tracing.labels.find? label = some target ->
    Enterable tracing.code target

/-- The code never ends with a guard. -/
theorem Guarded.enterable_size {tracing : Tracing} (guarded : Guarded tracing) :
    Enterable tracing.code tracing.code.size where
  inside := Nat.le_refl _
  unguarded := by
    intro before guard last fetched
    cases guards : guard.opcode.isGuard with
    | false => rfl
    | true =>
        rcases guarded.operators before guard fetched guards with ⟨operator, behind, _⟩
        rw [last, Array.getElem?_eq_none (Nat.le_refl _)] at behind
        cases behind

theorem guarded_start (pane : Pane) : Guarded (Tracing.start pane) where
  operators := by
    intro index guard fetched
    simp [Tracing.start] at fetched
  landings := by
    intro number landing found
    simp [Tracing.start, Array.getElem?_replicate] at found
  targets := by
    intro label target found
    cases found

theorem Guarded.step (guarded : Guarded tracer.tracing) (course : tracer.OnCourse pane)
    (step : Step pane tracer deed next) : Guarded next.tracing := by
  have extended := step.extends course
  refine ⟨?_, ?_, ?_⟩
  · intro index guard fetched guards
    rcases step.getElem?_code fetched with earlier | ⟨offset, rfl, added⟩
    · rcases guarded.operators index guard earlier guards with ⟨operator, behind, guardless⟩
      refine ⟨operator, ?_, guardless⟩
      rw [extended.code _ (Array.getElem?_eq_some_iff.mp behind).1]
      exact behind
    · rw [Nat.add_assoc, step.getElem?_code_added]
      exact Deed.operator_of_guard added guards
  · intro number landing found
    rcases step.landing_cases found with earlier | last
    · exact (guarded.landings number landing earlier).extended extended
    · rw [last]
      exact guarded.enterable_size.extended extended
  · intro label target found
    rcases step.target_cases found with earlier | rfl | ⟨number, landing, landed, rfl⟩
    · exact (guarded.targets label target earlier).extended extended
    · exact guarded.enterable_size.extended extended
    · exact (guarded.landings number landing landed).extended extended

theorem Performs.guarded (performs : Performs pane deeds tracer) : Guarded tracer.tracing := by
  induction performs with
  | start => exact guarded_start pane
  | step before step inductionHypothesis => exact inductionHypothesis.step before.onCourse step

/-- The code that a deed adds when it ends a path is one instruction, after which control does
not go on with the next one. -/
theorem Step.closing (course : tracer.OnCourse pane) (step : Step pane tracer deed next)
    (follows : tracer.cursor.isSome) (ends : next.cursor = none) :
    ∃ closing, deed.code pane = [closing] ∧ closing.fallsThrough = false := by
  have kept := course.ne_lose step
  cases step with
  | takeUp _ => cases ends
  | @write tracing cursor arrived arrives inside fresh =>
      have halts : (pane.cellAt arrived.position).operation = .halt := by
        apply Decidable.byContradiction
        intro running
        simp [Pane.onward?, running] at ends
      refine ⟨.halt, ?_, rfl⟩
      rw [Deed.code, Pane.position_tracedAt, Cell.emission, halts]
  | close arrives landed => exact ⟨_, rfl, rfl⟩
  | lose _ => exact absurd rfl kept

/-- Control goes through the code that a deed adds if the path is not ended. -/
theorem Step.running (step : Step pane tracer deed next) (goesOn : next.cursor.isSome)
    {instruction : Instruction} (added : instruction ∈ deed.code pane) :
    instruction.fallsThrough = true := by
  cases step with
  | takeUp _ => cases added
  | @write tracing cursor arrived arrives inside fresh =>
      have running : (pane.cellAt arrived.position).operation ≠ .halt := by
        intro halts
        simp [Pane.onward?, halts] at goesOn
      rw [Deed.code, Pane.position_tracedAt] at added
      exact Cell.fallsThrough_of_mem_emission running added
  | close _ _ | lose _ => cases goesOn

/-- Whether the code between two indices is left only through its last instruction, which is a
halt or a jump, and not before. -/
structure IsBlock (code : Array Instruction) (start stop : Nat) : Prop where
  nonempty : start < stop
  runs : forall index instruction, start ≤ index -> index + 1 < stop ->
    code[index]? = some instruction -> instruction.fallsThrough = true
  closes : ∃ closing, code[stop - 1]? = some closing ∧ closing.fallsThrough = false

theorem IsBlock.extended {earlier later : Tracing} (extended : earlier.Extends later)
    {start stop : Nat} (block : IsBlock earlier.code start stop) :
    IsBlock later.code start stop := by
  rcases block with ⟨nonempty, runs, closing, closes, stops⟩
  have inside := (Array.getElem?_eq_some_iff.mp closes).1
  refine ⟨nonempty, ?_, closing, ?_, stops⟩
  · intro index instruction from_ below fetched
    rw [extended.code index (by omega)] at fetched
    exact runs index instruction from_ below fetched
  · rw [extended.code _ inside]
    exact closes

/-- Whether the code is divided into the blocks of the paths, where the last one may not have
come to its end. -/
inductive Divided (starts : List Nat) : Tracer -> Prop where
  | closed {tracing : Tracing}
      (blocks : (starts ++ [tracing.code.size]).IsChain (IsBlock tracing.code)) :
      Divided starts ⟨tracing, none⟩
  | opened {tracing : Tracing} {cursor : Cursor} {earlier : List Nat} {start : Nat}
      (last : starts = earlier ++ [start]) (blocks : starts.IsChain (IsBlock tracing.code))
      (inside : start ≤ tracing.code.size)
      (runs : forall index instruction, start ≤ index ->
        tracing.code[index]? = some instruction -> instruction.fallsThrough = true) :
      Divided starts ⟨tracing, some cursor⟩

theorem isChain_extended {earlier later : Tracing} (extended : earlier.Extends later)
    {starts : List Nat} (blocks : starts.IsChain (IsBlock earlier.code)) :
    starts.IsChain (IsBlock later.code) :=
  blocks.imp fun _ _ block => block.extended extended

/-- A deed of a path goes on with its block or closes it. -/
theorem Divided.follow {starts earlier : List Nat} {start : Nat}
    (course : tracer.OnCourse pane) (step : Step pane tracer deed next)
    (follows : tracer.cursor.isSome) (last : starts = earlier ++ [start])
    (blocks : starts.IsChain (IsBlock tracer.tracing.code))
    (inside : start ≤ tracer.tracing.code.size)
    (runs : forall index instruction, start ≤ index ->
      tracer.tracing.code[index]? = some instruction -> instruction.fallsThrough = true) :
    Divided starts next := by
  have extended := step.extends course
  have size := step.size_code
  obtain ⟨tracing, cursor⟩ := next
  cases cursor with
  | none =>
      -- The path ends, so its block is what ran through before and one instruction more.
      rcases step.closing course follows rfl with ⟨closing, added, stops⟩
      rw [added, List.length_singleton] at size
      have closes : tracing.code[tracer.tracing.code.size]? = some closing := by
        have first := step.getElem?_code_added 0
        rw [added] at first
        exact first
      refine .closed ((isChain_extended extended blocks).append (.singleton _) ?_)
      intro first isLast stop isHead
      rw [last, List.getLast?_concat] at isLast
      cases isLast
      cases isHead
      change tracing.code.size = _ at size
      refine ⟨by omega, ?_, closing, ?_, stops⟩
      · intro index instruction behind below fetched
        rw [extended.code index (by omega)] at fetched
        exact runs index instruction behind fetched
      · rw [size, Nat.add_sub_cancel]
        exact closes
  | some cursor =>
      refine .opened last (isChain_extended extended blocks)
        (Nat.le_trans inside extended.size_le) ?_
      intro index instruction behind fetched
      rcases step.getElem?_code fetched with there | ⟨offset, rfl, added⟩
      · exact runs index instruction behind there
      · exact step.running rfl (List.mem_of_getElem? added)

theorem Divided.step {starts : List Nat} (divided : Divided starts tracer)
    (course : tracer.OnCourse pane) (step : Step pane tracer deed next) :
    Divided (starts ++ [deed].filterMap Deed.pathStart?) next := by
  cases divided with
  | closed blocks =>
      cases step with
      | @takeUp tracing path later queued =>
          refine .opened rfl blocks (Nat.le_refl _) ?_
          intro index instruction behind fetched
          have below := (Array.getElem?_eq_some_iff.mp fetched).1
          exact absurd below (Nat.not_lt.mpr behind)
  | opened last blocks inside runs =>
      have silent : [deed].filterMap Deed.pathStart? = [] := by
        cases step <;> rfl
      rw [silent, List.append_nil]
      exact .follow course step rfl last blocks inside runs

theorem Performs.divided (performs : Performs pane deeds tracer) :
    Divided (pathStarts pane deeds) tracer := by
  induction performs with
  | start =>
      unfold pathStarts Tracer.start
      cases pane.isEmpty with
      | true => exact .closed (.singleton _)
      | false =>
          refine .opened (List.nil_append [0]).symm (.singleton _) (Nat.zero_le _) ?_
          intro index instruction _ fetched
          simp [Tracing.start] at fetched
  | step before step inductionHypothesis =>
      have divided := inductionHypothesis.step before.onCourse step
      rw [pathStarts, List.append_assoc, ← List.filterMap_append] at divided
      exact divided

/-- Between two paths every label leads to code. -/
theorem Performs.target_lt (performs : Performs pane deeds tracer) (between : tracer.cursor = none)
    {label target : Nat} (found : tracer.tracing.labels.find? label = some target) :
    target < tracer.tracing.code.size := by
  cases performs with
  | start => cases found
  | @step deeds deed earlier _ before step =>
      -- The last deed ended a path, and what it added stands behind all that labels lead to.
      have guarded := before.guarded
      have follows : earlier.cursor.isSome := by
        cases step with
        | takeUp _ => cases between
        | write _ _ _ | close _ _ | lose _ => rfl
      rcases step.closing before.onCourse follows between with ⟨closing, added, _⟩
      rw [step.size_code, added, List.length_singleton]
      apply Nat.lt_succ_of_le
      rcases step.target_cases found with there | rfl | ⟨number, landing, landed, rfl⟩
      · exact (guarded.targets label target there).inside
      · exact Nat.le_refl _
      · exact (guarded.landings number landing landed).inside

/-- The code of a cursor that was written stands where it was written. -/
theorem Performs.codeAt (performs : Performs pane deeds tracer) {cursor : Cursor}
    {index label : Nat} (listed : .write cursor index label ∈ deeds) :
    Tracing.CodeAt tracer.tracing.code index ((pane.cellAt cursor.position).emission label) ∧
      index + ((pane.cellAt cursor.position).emission label).length ≤
        tracer.tracing.code.size := by
  induction performs with
  | start => cases listed
  | step before step inductionHypothesis =>
      have extended := step.extends before.onCourse
      rcases List.mem_append.mp listed with earlier | last
      · rcases inductionHypothesis earlier with ⟨code, inside⟩
        exact ⟨code.extended extended inside, Nat.le_trans inside extended.size_le⟩
      · have added := step.getElem?_code_added
        have size := step.size_code
        cases List.mem_singleton.mp last
        cases step with
        | write arrives inside fresh => exact ⟨fun offset _ => added offset, Nat.le_of_eq size.symm⟩

theorem jmp_not_mem_emission (cell : Cell) (label own : Nat) :
    Instruction.jmp label ∉ cell.emission own := by
  intro member
  by_cases halts : cell.operation = .halt
  · simp [Cell.emission, halts] at member
  · cases Cell.fallsThrough_of_mem_emission halts member

/-- Every jump was the last deed of a path, and leads to code that was written before. -/
theorem Performs.jump (performs : Performs pane deeds tracer) {index label : Nat}
    (fetched : tracer.tracing.code[index]? = some (.jmp label)) :
    ∃ before after cursor target own, deeds = before ++ .close cursor label target :: after ∧
      .write cursor target own ∈ before := by
  induction performs with
  | start => simp [Tracer.start, Tracing.start] at fetched
  | @step deeds deed tracer next earlier step inductionHypothesis =>
      rcases step.getElem?_code fetched with there | ⟨offset, rfl, added⟩
      · rcases inductionHypothesis there with ⟨before, after, cursor, target, own, rfl, written⟩
        exact ⟨before, after ++ [deed], cursor, target, own, by simp, written⟩
      · have member := List.mem_of_getElem? added
        cases step with
        | takeUp _ | lose _ => cases member
        | write arrives inside fresh => exact absurd member (jmp_not_mem_emission _ _ _)
        | close arrives landed =>
            cases List.mem_singleton.mp member
            have cell := contains_of_arrival? arrives
            rw [← Pane.position_tracedAt] at cell
            rcases earlier.recorded.known _ _ cell landed with ⟨own, written⟩
            exact ⟨deeds, [], _, _, own, rfl, written⟩

/-- What a finished tracer leaves, as its deeds tell. -/
structure Chronicled (pane : Pane) (deeds : List Deed) (tracing : Tracing) : Prop where
  /-- No cursor is written twice. -/
  once : (written deeds).Nodup
  /-- The code of each path is one block, and the next one starts behind it. -/
  blocks : (pathStarts pane deeds ++ [tracing.code.size]).IsChain (IsBlock tracing.code)
  /-- Each label that was created was bound once. -/
  bound : ((bindings deeds).map Prod.fst).Perm (List.range tracing.nextLabel)
  /-- The labels are what they were bound to, which is code. -/
  labels : tracing.labels.entries = bindings deeds
  targets : forall label target, (label, target) ∈ bindings deeds -> target < tracing.code.size
  /-- Each jump leads to the start of the code of a cursor that was written before. -/
  jumps : forall (index label : Nat), tracing.code[index]? = some (.jmp label) ->
    ∃ before after cursor target own, deeds = before ++ .close cursor label target :: after ∧
      .write cursor target own ∈ before ∧ tracing.labels.find? label = some target ∧
      Tracing.CodeAt tracing.code target ((pane.cellAt cursor.position).emission own)
  /-- Each guard is followed by the operation that it guards, and no label leads there. -/
  guards : forall (index : Nat) (guard : Instruction), tracing.code[index]? = some guard ->
    guard.opcode.isGuard = true ->
    ∃ operator, tracing.code[index + 1]? = some operator ∧ operator.opcode.isGuard = false ∧
      operator.opcode.requiredDepth = guard.opcode.requiredDepth ∧
      forall label, tracing.labels.find? label ≠ some (index + 1)

theorem Performs.chronicled (performs : Performs pane deeds tracer) (finished : tracer.Finished) :
    Chronicled pane deeds tracer.tracing := by
  have labelled := performs.labelled
  have guarded := performs.guarded
  have bound : forall label target, (label, target) ∈ bindings deeds <->
      tracer.tracing.labels.find? label = some target := by
    intro label target
    rw [← labelled.entries]
    exact tracer.tracing.labels.mem_entries_iff label target
  refine ⟨performs.recorded.once, ?_, ?_, labelled.entries, ?_, ?_, ?_⟩
  · obtain ⟨tracing, cursor⟩ := tracer
    cases performs.divided with
    | closed blocks => exact blocks
    | opened _ _ _ _ => cases finished.cursor
  · have created := labelled.created
    rw [finished.pending, List.map_nil, List.append_nil] at created
    exact created
  · intro label target member
    exact performs.target_lt finished.cursor ((bound label target).mp member)
  · intro index label fetched
    rcases performs.jump fetched with ⟨before, after, cursor, target, own, split_, listed⟩
    have closes : .close cursor label target ∈ deeds := by
      rw [split_]
      exact List.mem_append_right _ List.mem_cons_self
    have writes : .write cursor target own ∈ deeds := by
      rw [split_]
      exact List.mem_append_left _ listed
    refine ⟨before, after, cursor, target, own, split_, listed, ?_, (performs.codeAt writes).1⟩
    exact (bound label target).mp (List.mem_filterMap.mpr ⟨_, closes, rfl⟩)
  · intro index guard fetched guards
    rcases guarded.operators index guard fetched guards with ⟨operator, behind, guardless, depth⟩
    refine ⟨operator, behind, guardless, depth, ?_⟩
    intro label found
    rw [(guarded.targets label _ found).unguarded index guard rfl fetched] at guards
    cases guards

end Tracer

namespace Pane

open Tracer

/-- Tracing a text ends, and traces each cursor once.  In no run are there more deeds than the
number of cells allows, nor more landings than eight for each cell, and a tracer that is not
finished goes on.  The program is what a finished tracer leaves. -/
theorem tracing_chronicled (text : List Char) (withComments : Bool) :
    (forall deeds tracer, Performs (ofText text) deeds tracer ->
      deeds.length ≤ 24 * (ofText text).cells.length + 1 ∧
        Memo.seen tracer.tracing.landings ≤ 8 * (ofText text).cells.length ∧
        (¬tracer.Finished -> ∃ deed next, Step (ofText text) tracer deed next)) ∧
      ∃ deeds tracer, Performs (ofText text) deeds tracer ∧ tracer.Finished ∧
        ((ofText text).toProgram withComments).code = tracer.tracing.code ∧
        ((ofText text).toProgram withComments).labels = tracer.tracing.labels ∧
        Chronicled (ofText text) deeds tracer.tracing := by
  constructor
  · intro deeds tracer performs
    have recorded := performs.recorded
    refine ⟨performs.length_le, ?_, performs.onCourse.exists_step⟩
    rw [recorded.seen]
    exact recorded.length_written_le
  · rcases exists_performs_toProgram (ofText text) withComments with
      ⟨deeds, tracer, performs, finished, code, labels⟩
    exact ⟨deeds, tracer, performs, finished, code, labels, performs.chronicled finished⟩

end Pane
end HangulPane
