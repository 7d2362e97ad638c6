import HangulPane.Proofs.Pane.Tracer
import Mathlib.Data.List.Nodup

namespace HangulPane

/-!
What the deeds of a tracer tell of the cursors and of the labels.

Every cursor that has a landing was written, and none was written twice.  There are eight
cursors for each cell, so the deeds come to an end.  Every label that was created is bound by
one deed, or belongs to a path that waits to be taken up.
-/

namespace Pane

/-- The positions of the cells, row by row. -/
def cells (pane : Pane) : List Position :=
  (List.range pane.height).flatMap fun row =>
    (List.range (pane.rowLength row)).map fun column => { row, column }

theorem mem_cells {pane : Pane} {position : Position} :
    position ∈ pane.cells <-> pane.contains position = true := by
  simp only [cells, List.mem_flatMap, List.mem_map, List.mem_range]
  constructor
  · rintro ⟨row, _, column, inside, rfl⟩
    exact (contains_iff _).mpr inside
  · intro cell
    exact ⟨position.row, row_lt_of_contains cell, position.column, (contains_iff _).mp cell, rfl⟩

/-- The cursors at cells: eight for every cell. -/
def cellCursors (pane : Pane) : List Cursor :=
  pane.cells.flatMap fun position =>
    [Direction.down, .right, .up, .left].flatMap fun direction =>
      [Stride.one, .two].map fun stride => { position, direction, stride }

theorem mem_cellCursors {pane : Pane} {cursor : Cursor}
    (cell : pane.contains cursor.position = true) : cursor ∈ pane.cellCursors := by
  obtain ⟨position, direction, stride⟩ := cursor
  refine List.mem_flatMap.mpr ⟨position, mem_cells.mpr cell, ?_⟩
  cases direction <;> cases stride <;> simp

theorem length_cellCursors (pane : Pane) : pane.cellCursors.length = 8 * pane.cells.length := by
  simp [cellCursors, List.length_flatMap, Nat.mul_comm]

end Pane

/-- How many places have a fact. -/
def Memo.seen {Fact : Type} (memo : Memo Fact) : Nat :=
  memo.toList.countP Option.isSome

theorem Memo.seen_set {Fact : Type} {memo : Memo Fact} {place : Nat} (inside : place < memo.size)
    (fact : Fact) (fresh : memo[place] = none) :
    Memo.seen (memo.set place (some fact) inside) = Memo.seen memo + 1 := by
  have inList : place < memo.toList.length := by simpa using inside
  have freshInList : memo.toList[place] = none := by simpa using fresh
  unfold seen
  rw [Array.toList_set, List.countP_set inList]
  simp [freshInList]

theorem Table.entries_insert {table : Table} {key : Nat} (absent : table.find? key = none)
    (value : Nat) : (table.insert key value).entries = table.entries ++ [(key, value)] := by
  have appended : forall entries : List (Nat × Nat), entries.lookup key = none ->
      putEntry key value entries = entries ++ [(key, value)] := by
    intro entries
    induction entries with
    | nil => exact fun _ => rfl
    | cons entry rest inductionHypothesis =>
        intro missing
        obtain ⟨other, otherValue⟩ := entry
        by_cases same : other = key
        · rw [same, List.lookup_cons_self] at missing
          cases missing
        · rw [lookup_cons_of_ne (Ne.symm same)] at missing
          rw [putEntry, if_neg same, inductionHypothesis missing, List.cons_append]
  exact appended table.entries absent

namespace Deed

/-- The cursor whose code is written. -/
def written? : Deed -> Option Cursor
  | .write cursor _ _ => some cursor
  | _ => none

/-- The label that is bound, with what it is bound to. -/
def binding? : Deed -> Option (Nat × Nat)
  | .takeUp path index => some (path.label, index)
  | .close _ label target => some (label, target)
  | _ => none

end Deed

namespace Tracer

/-- The cursors whose code was written, in order. -/
def written (deeds : List Deed) : List Cursor :=
  deeds.filterMap Deed.written?

/-- The labels that were bound, in order, each with what it was bound to. -/
def bindings (deeds : List Deed) : List (Nat × Nat) :=
  deeds.filterMap Deed.binding?

variable {pane : Pane} {deeds : List Deed} {deed : Deed} {tracer next : Tracer}

/-- What the deeds tell of the landings: the cursors that were written, each once, are those
that have one, and the landing is where their code starts. -/
structure Recorded (pane : Pane) (deeds : List Deed) (tracing : Tracing) : Prop where
  once : (written deeds).Nodup
  cells : forall cursor, cursor ∈ written deeds -> pane.contains cursor.position = true
  landed : forall cursor index label, .write cursor index label ∈ deeds ->
    ∃ landing, tracing.Landed pane cursor landing ∧ landing.entry = index
  known : forall cursor landing, pane.contains cursor.position = true ->
    tracing.Landed pane cursor landing -> ∃ label, .write cursor landing.entry label ∈ deeds
  seen : Memo.seen tracing.landings = (written deeds).length

theorem mem_written {cursor : Cursor} :
    cursor ∈ written deeds <-> ∃ index label, .write cursor index label ∈ deeds := by
  constructor
  · intro member
    rcases List.mem_filterMap.mp member with ⟨deed, listed, tells⟩
    cases deed with
    | write other index label =>
        cases tells
        exact ⟨index, label, listed⟩
    | takeUp _ _ | close _ _ _ | lose => cases tells
  · rintro ⟨index, label, listed⟩
    exact List.mem_filterMap.mpr ⟨_, listed, rfl⟩

/-- A deed that writes no code and adds no landing changes nothing of that. -/
theorem Recorded.silent {tracing later : Tracing} (recorded : Recorded pane deeds tracing)
    (silent : deed.written? = none) (same : later.landings = tracing.landings) :
    Recorded pane (deeds ++ [deed]) later := by
  have writes : written (deeds ++ [deed]) = written deeds := by
    rw [written, List.filterMap_append, List.filterMap_cons_none silent, List.filterMap_nil,
      List.append_nil, written]
  have other : forall cursor index label, .write cursor index label ∈ deeds ++ [deed] ->
      .write cursor index label ∈ deeds := by
    intro cursor index label member
    rcases List.mem_append.mp member with earlier | last
    · exact earlier
    · rw [← List.mem_singleton.mp last] at silent
      cases silent
  refine ⟨writes ▸ recorded.once, writes ▸ recorded.cells, ?_, ?_, ?_⟩
  · intro cursor index label member
    unfold Tracing.Landed
    rw [same]
    exact recorded.landed cursor index label (other cursor index label member)
  · intro cursor landing cell landed
    unfold Tracing.Landed at landed
    rw [same] at landed
    rcases recorded.known cursor landing cell landed with ⟨label, member⟩
    exact ⟨label, List.mem_append_left _ member⟩
  · rw [same, writes]
    exact recorded.seen

theorem recorded_start (pane : Pane) : Recorded pane [] (Tracing.start pane) where
  once := List.nodup_nil
  cells := by
    intro cursor member
    cases member
  landed := by
    intro cursor index label member
    cases member
  known := by
    intro cursor landing cell landed
    simp [Tracing.Landed, Tracing.start, Array.getElem?_replicate] at landed
  seen := by
    simp [Memo.seen, Tracing.start, written, List.countP_replicate]

theorem Recorded.write {tracing : Tracing} {arrived : Cursor}
    (recorded : Recorded pane deeds tracing) (cell : pane.contains arrived.position = true)
    {inside : pane.cursorNumber (pane.tracedAt arrived) < tracing.landings.size}
    (fresh : tracing.landings[pane.cursorNumber (pane.tracedAt arrived)] = none) :
    Recorded pane
      (deeds ++ [.write (pane.tracedAt arrived) tracing.code.size tracing.nextLabel])
      (tracing.emitAt pane arrived inside) := by
  have unseen : tracing.landings[pane.cursorNumber (pane.tracedAt arrived)]? = some none :=
    (Array.getElem?_eq_getElem inside).trans (congrArg some fresh)
  have extended : tracing.Extends (tracing.emitAt pane arrived inside) :=
    Tracing.extends_emitAt unseen
  have new : pane.tracedAt arrived ∉ written deeds := by
    intro member
    rcases mem_written.mp member with ⟨index, label, listed⟩
    rcases recorded.landed _ _ _ listed with ⟨landing, landed, _⟩
    rw [Tracing.Landed, unseen] at landed
    cases landed
  have writes : written (deeds ++
      [.write (pane.tracedAt arrived) tracing.code.size tracing.nextLabel]) =
        written deeds ++ [pane.tracedAt arrived] :=
    List.filterMap_append
  refine ⟨?_, ?_, ?_, ?_, ?_⟩
  · rw [writes, List.nodup_append]
    refine ⟨recorded.once, List.nodup_singleton _, ?_⟩
    rintro cursor earlier _ single rfl
    exact new (List.mem_singleton.mp single ▸ earlier)
  · intro cursor member
    rw [writes] at member
    rcases List.mem_append.mp member with earlier | last
    · exact recorded.cells cursor earlier
    · rw [List.mem_singleton.mp last, Pane.position_tracedAt]
      exact cell
  · intro cursor index label member
    rcases List.mem_append.mp member with earlier | last
    · rcases recorded.landed cursor index label earlier with ⟨landing, landed, entry⟩
      exact ⟨landing, extended.landings _ _ landed, entry⟩
    · cases List.mem_singleton.mp last
      exact ⟨_, Tracing.landed_emitAt_self, Tracing.entry_landingOf _⟩
  · intro cursor landing cursorCell landed
    rcases Tracing.landed_emitAt cell cursorCell landed with earlier | ⟨rfl, rfl⟩
    · rcases recorded.known cursor landing cursorCell earlier with ⟨label, member⟩
      exact ⟨label, List.mem_append_left _ member⟩
    · rw [Tracing.entry_landingOf]
      exact ⟨_, List.mem_append_right _ (List.mem_singleton.mpr rfl)⟩
  · rw [writes, List.length_append, List.length_singleton, ← recorded.seen]
    exact Memo.seen_set inside _ fresh

theorem Performs.recorded (performs : Performs pane deeds tracer) :
    Recorded pane deeds tracer.tracing := by
  induction performs with
  | start => exact recorded_start pane
  | step before step inductionHypothesis =>
      cases step with
      | takeUp queued => exact inductionHypothesis.silent rfl rfl
      | write arrives inside fresh =>
          exact inductionHypothesis.write (contains_of_arrival? arrives) fresh
      | close arrives landed => exact inductionHypothesis.silent rfl rfl
      | lose lost => exact inductionHypothesis.silent rfl rfl

/-- No more cursors are written than there are at the cells. -/
theorem Recorded.length_written_le {tracing : Tracing} (recorded : Recorded pane deeds tracing) :
    (written deeds).length ≤ 8 * pane.cells.length := by
  rw [← pane.length_cellCursors]
  apply recorded.once.length_le_of_subset
  intro cursor member
  exact Pane.mem_cellCursors (recorded.cells cursor member)

theorem length_pending_emitAt {tracing : Tracing} {arrived : Cursor}
    (inside : pane.cursorNumber (pane.tracedAt arrived) < tracing.landings.size) :
    (tracing.emitAt pane arrived inside).pending.length ≤ tracing.pending.length + 1 := by
  rw [Tracing.pending_emitAt]
  split
  · exact Nat.le_of_eq List.length_append
  · exact Nat.le_succ _

/-- Each deed but a writing one uses up what a writing one provided for: a path that waits is
taken up and ended, a path that is followed is ended. -/
theorem Performs.length_add_le (performs : Performs pane deeds tracer) :
    deeds.length + 2 * tracer.tracing.pending.length + (if tracer.cursor.isSome then 1 else 0) ≤
      3 * (written deeds).length + 1 := by
  induction performs with
  | start =>
      change 0 + 2 * 0 + _ ≤ 3 * 0 + 1
      split <;> omega
  | @step deeds deed tracer next before step inductionHypothesis =>
      have longer : (deeds ++ [deed]).length = deeds.length + 1 := List.length_append
      have writes : (written (deeds ++ [deed])).length =
          (written deeds).length + ([deed].filterMap Deed.written?).length := by
        rw [written, List.filterMap_append, List.length_append, written]
      -- A path that waits counts twice, for it will be taken up and it will be ended.
      rw [longer, writes]
      cases step with
      | @takeUp tracing path later queued =>
          have waiting : tracing.pending.length = later.length + 1 := by
            rw [queued, List.length_cons]
          change deeds.length + 1 + 2 * later.length + 1 ≤ 3 * ((written deeds).length + 0) + 1
          change deeds.length + 2 * tracing.pending.length + 0 ≤ _ at inductionHypothesis
          omega
      | @write tracing cursor arrived arrives inside fresh =>
          have pending := length_pending_emitAt inside
          change deeds.length + 1 + 2 * (tracing.emitAt pane arrived inside).pending.length + _ ≤
            3 * ((written deeds).length + 1) + 1
          change deeds.length + 2 * tracing.pending.length + 1 ≤ _ at inductionHypothesis
          split <;> omega
      | @close tracing cursor arrived landing arrives landed =>
          change deeds.length + 1 + 2 * tracing.pending.length + 0 ≤
            3 * ((written deeds).length + 0) + 1
          change deeds.length + 2 * tracing.pending.length + 1 ≤ _ at inductionHypothesis
          omega
      | @lose tracing cursor lost =>
          change deeds.length + 1 + 2 * tracing.pending.length + 0 ≤
            3 * ((written deeds).length + 0) + 1
          change deeds.length + 2 * tracing.pending.length + 1 ≤ _ at inductionHypothesis
          omega

/-- A tracer has done after a number of deeds that the number of cells bounds. -/
theorem Performs.length_le (performs : Performs pane deeds tracer) :
    deeds.length ≤ 24 * pane.cells.length + 1 := by
  have spent := performs.length_add_le
  have cursors := performs.recorded.length_written_le
  omega

/-- What the deeds tell of the labels: those that are bound are bound in the order of the deeds,
and every label that was created is bound once or waits, once, to be bound. -/
structure Labelled (deeds : List Deed) (tracing : Tracing) : Prop where
  entries : tracing.labels.entries = bindings deeds
  created : ((bindings deeds).map Prod.fst ++ tracing.pending.map PendingPath.label).Perm
    (List.range tracing.nextLabel)

section Labelled

variable {tracing : Tracing} (labelled : Labelled deeds tracing)
include labelled

theorem Labelled.takeUp (orderly : tracing.Orderly pane) {path : PendingPath}
    {later : List PendingPath} (queued : tracing.pending = path :: later) :
    Labelled (deeds ++ [.takeUp path tracing.code.size]) (tracing.takeUp path later) := by
  have bound : bindings (deeds ++ [.takeUp path tracing.code.size]) =
      bindings deeds ++ [(path.label, tracing.code.size)] := List.filterMap_append
  have first : path ∈ tracing.pending := queued ▸ List.mem_cons_self
  constructor
  · rw [bound, ← labelled.entries]
    exact Table.entries_insert (orderly.queued path first).2.1 _
  · -- The label that waited first is now the one that was bound last.
    have created := labelled.created
    rw [queued, List.map_cons] at created
    rw [bound, List.map_append, List.append_assoc]
    exact created

theorem Labelled.emitAt {arrived : Cursor}
    {inside : pane.cursorNumber (pane.tracedAt arrived) < tracing.landings.size} :
    Labelled (deeds ++ [.write (pane.tracedAt arrived) tracing.code.size tracing.nextLabel])
      (tracing.emitAt pane arrived inside) := by
  have bound : bindings (deeds ++
      [.write (pane.tracedAt arrived) tracing.code.size tracing.nextLabel]) = bindings deeds := by
    rw [bindings, List.filterMap_append]
    exact List.append_nil _
  have next : (tracing.emitAt pane arrived inside).nextLabel =
      if (pane.cellAt arrived.position).isGuarded then tracing.nextLabel + 1
      else tracing.nextLabel := rfl
  refine ⟨bound ▸ labelled.entries, ?_⟩
  rw [bound, Tracing.pending_emitAt, next]
  split
  · rw [List.map_append, ← List.append_assoc, List.range_succ]
    exact labelled.created.append_right _
  · exact labelled.created

theorem Labelled.closeWithJump (orderly : tracing.Orderly pane) (cursor : Cursor)
    (landing : Landing) :
    Labelled (deeds ++ [.close cursor tracing.nextLabel landing.entry])
      (tracing.closeWithJump landing) := by
  have bound : bindings (deeds ++ [.close cursor tracing.nextLabel landing.entry]) =
      bindings deeds ++ [(tracing.nextLabel, landing.entry)] := List.filterMap_append
  have absent : tracing.labels.find? tracing.nextLabel = none := by
    cases found : tracing.labels.find? tracing.nextLabel with
    | none => rfl
    | some target => exact absurd (orderly.bound _ _ found) (Nat.lt_irrefl _)
  constructor
  · rw [bound, ← labelled.entries]
    exact Table.entries_insert absent _
  · have last : ([tracing.nextLabel] ++ tracing.pending.map PendingPath.label).Perm
        (tracing.pending.map PendingPath.label ++ [tracing.nextLabel]) := List.perm_append_comm
    rw [bound, List.map_append, List.append_assoc]
    refine (last.append_left _).trans ?_
    change List.Perm _ (List.range (tracing.nextLabel + 1))
    rw [← List.append_assoc, List.range_succ]
    exact labelled.created.append_right _

end Labelled

theorem Performs.labelled (performs : Performs pane deeds tracer) :
    Labelled deeds tracer.tracing := by
  induction performs with
  | start => exact ⟨rfl, .refl _⟩
  | step before step inductionHypothesis =>
      have course := before.onCourse
      have kept := course.ne_lose step
      cases step with
      | takeUp queued => exact inductionHypothesis.takeUp course.orderly queued
      | write arrives inside fresh => exact inductionHypothesis.emitAt
      | close arrives landed => exact inductionHypothesis.closeWithJump course.orderly _ _
      | lose lost => exact absurd rfl kept

end Tracer
end HangulPane
