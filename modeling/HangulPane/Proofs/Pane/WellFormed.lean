import HangulPane.Proofs.Pane.Safety
import HangulPane.Proofs.Program.WellFormed

namespace HangulPane

/-!
The program of a pane is well formed.

While a pane is traced, the guards refer to labels that are not bound yet.  Each of them is the
label of a path that waits to be traced, and is bound when the path is taken up, so no label is
left open once no path waits.  Labels are only ever bound to the end of the code or to code
that stands already, and code stays where it is.
-/

namespace Cell

variable {cell : Cell} {label : Nat} {instruction : Instruction}

theorem hasSlot_of_mem_emission (wellFormed : cell.WellFormed)
    (member : instruction ∈ cell.emission label) : instruction.hasSlot = true := by
  have acting : (cell.action.withLabel label).hasSlot = true := by
    rw [Instruction.withLabel, Instruction.hasSlot_mapLabel]
    exact hasSlot_action wellFormed
  have guarding : (cell.guard label).hasSlot = true := by
    unfold guard
    split <;> rfl
  cases guarded : cell.isGuarded with
  | true =>
      simp only [emission_of_isGuarded wellFormed guarded, List.mem_cons, List.not_mem_nil,
        or_false] at member
      rcases member with rfl | rfl
      · exact guarding
      · exact acting
  | false =>
      by_cases idle : cell.operation = .noop
      · simp [emission, idle] at member
      · rw [emission_of_not_isGuarded wellFormed guarded idle, List.mem_singleton] at member
        rw [member]
        exact acting

/-- The code of a cell refers to no label but that of its underflow path, and to that only if
it has a guard. -/
theorem label?_of_mem_emission (wellFormed : cell.WellFormed)
    (member : instruction ∈ cell.emission label) {other : Nat}
    (labelled : instruction.label? = some other) :
    other = label ∧ cell.isGuarded = true := by
  cases guarded : cell.isGuarded with
  | true =>
      refine ⟨?_, rfl⟩
      simp only [emission_of_isGuarded wellFormed guarded, List.mem_cons, List.not_mem_nil,
        or_false] at member
      rcases member with rfl | rfl
      · rw [label?_guard] at labelled
        exact (Option.some.inj labelled).symm
      · rw [Instruction.withLabel, Instruction.label?_mapLabel, Option.map_eq_some_iff] at labelled
        rcases labelled with ⟨_, _, same⟩
        exact same.symm
  | false =>
      by_cases idle : cell.operation = .noop
      · simp [emission, idle] at member
      · rw [emission_of_not_isGuarded wellFormed guarded idle, List.mem_singleton] at member
        rw [member, Instruction.withLabel, Instruction.label?_mapLabel,
          Option.map_eq_some_iff] at labelled
        rcases labelled with ⟨own, labelled, _⟩
        have guardedToo := isGuarded_of_label? (Option.isSome_of_mem labelled)
        rw [guarded] at guardedToo
        contradiction

end Cell

namespace Tracing

/-- Whether every label of the code is bound or waits to be bound, and all labels and landings
lie within the code. -/
structure Sound (tracing : Tracing) : Prop where
  bound : forall instruction, instruction ∈ tracing.code ->
    forall label, instruction.label? = some label ->
      (∃ target, tracing.labels.find? label = some target) ∨
        ∃ path, path ∈ tracing.pending ∧ path.label = label
  targets : forall label target, tracing.labels.find? label = some target ->
    target ≤ tracing.code.size
  landings : forall (number : Nat) (landing : Landing),
    tracing.landings[number]? = some (some landing) -> landing.entry ≤ tracing.code.size
  slots : forall instruction, instruction ∈ tracing.code -> instruction.hasSlot = true

theorem mem_code_emitAt {tracing : Tracing} {pane : Pane} {cursor : Cursor}
    {inside : pane.cursorNumber (pane.tracedAt cursor) < tracing.landings.size}
    {instruction : Instruction} :
    instruction ∈ (tracing.emitAt pane cursor inside).code <->
      instruction ∈ tracing.code ∨
        instruction ∈ (pane.cellAt cursor.position).emission tracing.nextLabel := by
  rw [← Array.mem_toList_iff, code_emitAt, List.mem_append, Array.mem_toList_iff]

theorem sound_start (pane : Pane) : (start pane).Sound where
  bound := by
    intro instruction member
    simp [start] at member
  targets := by
    intro label target found
    contradiction
  landings := by
    intro number landing found
    simp [start, Array.getElem?_replicate] at found
  slots := by
    intro instruction member
    simp [start] at member

namespace Sound

variable {tracing : Tracing} (sound : tracing.Sound)
include sound

theorem closeWithJump {landing : Landing} (standing : landing.entry ≤ tracing.code.size) :
    (tracing.closeWithJump landing).Sound := by
  have size : (tracing.closeWithJump landing).code.size = tracing.code.size + 1 :=
    Array.size_push ..
  have labels : forall label, (tracing.closeWithJump landing).labels.find? label =
      if label = tracing.nextLabel then some landing.entry else tracing.labels.find? label :=
    Table.find?_insert tracing.labels tracing.nextLabel landing.entry
  refine ⟨?_, ?_, ?_, ?_⟩
  · intro instruction member label labelled
    rw [labels]
    split
    · exact Or.inl ⟨_, rfl⟩
    · rename_i other
      rcases Array.mem_push.mp member with earlier | rfl
      · exact sound.bound instruction earlier label labelled
      · exact absurd (Option.some.inj labelled).symm other
  · intro label target found
    rw [labels] at found
    rw [size]
    split at found
    · cases found
      exact Nat.le_succ_of_le standing
    · exact Nat.le_succ_of_le (sound.targets label target found)
  · intro number known found
    rw [size]
    exact Nat.le_succ_of_le (sound.landings number known found)
  · intro instruction member
    rcases Array.mem_push.mp member with earlier | rfl
    · exact sound.slots instruction earlier
    · rfl

theorem emitAt {pane : Pane} (cursor : Cursor)
    (inside : pane.cursorNumber (pane.tracedAt cursor) < tracing.landings.size) :
    (tracing.emitAt pane cursor inside).Sound := by
  have wellFormed := pane.wellFormed_cellAt cursor.position
  have longer : tracing.code.size ≤ (tracing.emitAt pane cursor inside).code.size := by
    rw [size_code_emitAt]
    exact Nat.le_add_right ..
  refine ⟨?_, ?_, ?_, ?_⟩
  · intro instruction member label labelled
    rw [pending_emitAt]
    rcases mem_code_emitAt.mp member with earlier | emitted
    · rcases sound.bound instruction earlier label labelled with bound | ⟨path, waits, same⟩
      · exact Or.inl bound
      · refine Or.inr ⟨path, ?_, same⟩
        split
        · exact List.mem_append_left _ waits
        · exact waits
    · -- The label of the guard is not bound yet, but its path waits from now on.
      rcases Cell.label?_of_mem_emission wellFormed emitted labelled with ⟨rfl, guarded⟩
      rw [if_pos guarded]
      exact Or.inr ⟨_, List.mem_append_right _ List.mem_cons_self, rfl⟩
  · intro label target found
    exact Nat.le_trans (sound.targets label target found) longer
  · intro number landing found
    change (tracing.landings.set _ _ inside)[number]? = _ at found
    rw [Array.getElem?_set] at found
    split at found
    · cases found
      rw [entry_landingOf]
      exact longer
    · exact Nat.le_trans (sound.landings number landing found) longer
  · intro instruction member
    rcases mem_code_emitAt.mp member with earlier | emitted
    · exact sound.slots instruction earlier
    · exact Cell.hasSlot_of_mem_emission wellFormed emitted

theorem takeUp {path : PendingPath} {later : List PendingPath}
    (queued : tracing.pending = path :: later) : (tracing.takeUp path later).Sound := by
  have labels : forall label, (tracing.takeUp path later).labels.find? label =
      if label = path.label then some tracing.code.size else tracing.labels.find? label :=
    Table.find?_insert tracing.labels path.label tracing.code.size
  refine ⟨?_, ?_, sound.landings, sound.slots⟩
  · intro instruction member label labelled
    rw [labels]
    split
    · exact Or.inl ⟨_, rfl⟩
    · rename_i other
      rcases sound.bound instruction member label labelled with bound | ⟨waiting, waits, same⟩
      · exact Or.inl bound
      · rw [queued] at waits
        rcases List.mem_cons.mp waits with rfl | waitsOn
        · exact absurd same.symm other
        · exact Or.inr ⟨waiting, waitsOn, same⟩
  · intro label target found
    rw [labels] at found
    split at found
    · cases found
      exact Nat.le_refl _
    · exact sound.targets label target found

end Sound

theorem Sound.trace {pane : Pane} {tracing : Tracing} {cursor : Cursor} (sound : tracing.Sound) :
    (Tracing.trace pane tracing cursor).Sound := by
  fun_induction Tracing.trace pane tracing cursor with
  | case1 tracing cursor missing => exact sound
  | case2 tracing cursor position found cell traced inside landing known =>
      apply sound.closeWithJump
      apply sound.landings _ landing
      exact (Array.getElem?_eq_getElem inside).trans (congrArg some known)
  | case3 tracing cursor position found cell traced inside fresh leaving emitted halts =>
      have emitting : (tracing.emitAt pane { cursor with position } inside).Sound :=
        sound.emitAt { cursor with position } inside
      exact emitting
  | case4 tracing cursor position found cell traced inside fresh leaving emitted running _
      inductionHypothesis =>
      have emitting : (tracing.emitAt pane { cursor with position } inside).Sound :=
        sound.emitAt { cursor with position } inside
      exact inductionHypothesis emitting
  | case5 tracing cursor position found cell traced outside => exact sound

/-- Draining leaves a sound tracing in which no path waits. -/
theorem Sound.drain {pane : Pane} {tracing : Tracing} (sound : tracing.Sound) :
    (Tracing.drain pane tracing).Sound ∧ (Tracing.drain pane tracing).pending = [] := by
  fun_induction Tracing.drain pane tracing with
  | case1 tracing queued => exact ⟨sound, queued⟩
  | case2 tracing path later queued inductionHypothesis =>
      exact inductionHypothesis (sound.takeUp queued).trace

theorem size_commentsOf (size : Nat) (origins : Array (Nat × String)) :
    (commentsOf size origins).size = size := by
  unfold commentsOf
  rw [← Array.foldl_toList]
  have kept : forall (origins : List (Nat × String)) (comments : Array (List String)),
      (origins.foldl (fun comments origin => comments.modify origin.1 (· ++ [origin.2]))
        comments).size = comments.size := by
    intro origins
    induction origins with
    | nil =>
        intro comments
        rfl
    | cons origin later inductionHypothesis =>
        intro comments
        rw [List.foldl_cons, inductionHypothesis, Array.size_modify]
  rw [kept, Array.size_replicate]

/-- A sound tracing in which no path waits is a well-formed program. -/
theorem Sound.wellFormed {tracing : Tracing} (sound : tracing.Sound)
    (complete : tracing.pending = []) (withComments : Bool) :
    Program.WellFormed
      { code := tracing.code
        labels := tracing.labels
        comments :=
          if withComments then some (commentsOf tracing.code.size tracing.origins)
          else none } where
  bound := by
    intro label referred
    rcases Program.mem_referredLabels.mp referred with ⟨instruction, member, labelled⟩
    rcases sound.bound instruction member label labelled with bound | ⟨path, waits, _⟩
    · exact bound
    · rw [complete] at waits
      contradiction
  targets := sound.targets
  slots := sound.slots
  comments := by
    intro comments recorded
    dsimp only at recorded
    split at recorded
    · cases recorded
      exact size_commentsOf ..
    · contradiction

end Tracing

theorem Pane.wellFormed_toProgram (pane : Pane) (withComments : Bool) :
    (pane.toProgram withComments).WellFormed := by
  unfold toProgram
  dsimp only
  split
  · exact (Tracing.sound_start pane).wellFormed rfl withComments
  · rcases (Tracing.sound_start pane).trace.drain with ⟨sound, complete⟩
    exact sound.wellFormed complete withComments

end HangulPane
