import HangulPane.Proofs.Pane.Tracer
import Mathlib.Data.Nat.PSub

namespace HangulPane

/-!
Travel stays in the box around the pane, and no path gets lost in it.

The box has the rows of the pane and the columns of its widest row.  A move that goes over the
border of the box comes back into it at the far end of its line, where it looks for a cell row
by row or column by column.  The search is written out here with subtractions that fail
below zero, and inside the box none of them fails.

A path starts at the origin or one move away from a cell.  There is a cell ahead of it then,
however uneven the rows are and whether or not the stride leaps over cells.
-/

namespace Pane

variable {pane : Pane} {position : Position}

/-- Whether a position is in the box around the pane. -/
structure InBox (pane : Pane) (position : Position) : Prop where
  row : position.row < pane.height
  column : position.column < pane.span

theorem rowLength_le_span (pane : Pane) (row : Nat) : pane.rowLength row ≤ pane.span :=
  Nat.le_trans (pane.rowLength_le_width row) (Nat.le_max_left _ _)

theorem span_pos (pane : Pane) : 0 < pane.span :=
  Nat.lt_of_lt_of_le Nat.one_pos (Nat.le_max_right _ _)

theorem firstRowWith_lt (inside : 0 < pane.height) (column : Nat) :
    pane.firstRowWith column < pane.height := by
  unfold firstRowWith
  cases found : (List.range pane.height).find? fun row => pane.contains { row, column } with
  | none => exact inside
  | some row => exact List.mem_range.mp (List.mem_of_find?_eq_some found)

theorem lastRowWith_lt (inside : 0 < pane.height) (column : Nat) :
    pane.lastRowWith column < pane.height := by
  unfold lastRowWith
  cases found : (List.range pane.height).reverse.find? fun row => pane.contains { row, column } with
  | none => exact Nat.sub_lt inside Nat.one_pos
  | some row =>
      exact List.mem_range.mp (List.mem_reverse.mp (List.mem_of_find?_eq_some found))

/-- A move from inside the box ends inside it. -/
theorem InBox.advance (inBox : pane.InBox position) (direction : Direction) (stride : Stride) :
    pane.InBox (pane.advance position direction stride) := by
  have someRow : 0 < pane.height := Nat.zero_lt_of_lt inBox.row
  have someColumn := pane.span_pos
  unfold Pane.advance
  cases direction with
  | down =>
      dsimp only
      split
      · rename_i below
        exact ⟨below, inBox.column⟩
      · exact ⟨firstRowWith_lt someRow _, inBox.column⟩
  | right =>
      dsimp only
      split
      · rename_i below
        exact ⟨inBox.row, below⟩
      · exact ⟨inBox.row, someColumn⟩
  | up =>
      dsimp only
      split
      · exact ⟨lastRowWith_lt someRow _, inBox.column⟩
      · exact ⟨Nat.lt_of_le_of_lt (Nat.sub_le _ _) inBox.row, inBox.column⟩
  | left =>
      have narrow := pane.rowLength_le_span position.row
      dsimp only
      split
      · refine ⟨inBox.row, ?_⟩
        change pane.rowLength position.row - 1 < pane.span
        omega
      · exact ⟨inBox.row, Nat.lt_of_le_of_lt (Nat.sub_le _ _) inBox.column⟩

/-- Look for a cell down a column, in so many rows; the first row comes after the last. -/
def scanDown (pane : Pane) (column : Nat) : Nat -> Nat -> Nat
  | 0, row => row
  | rows + 1, row =>
      if pane.contains { row, column } then row
      else scanDown pane column rows ((row + 1) % pane.height)

/-- Look for a cell up a column, in so many rows; the last row comes after the first. -/
def scanUp? (pane : Pane) (column : Nat) : Nat -> Nat -> Option Nat
  | 0, row => some row
  | rows + 1, row =>
      if pane.contains { row, column } then some row
      else ((if row = 0 then pane.height else row).psub 1).bind (scanUp? pane column rows)

/-- Look for a cell from a column to the left; the search ends at the first column. -/
def scanLeft (pane : Pane) (row : Nat) : Nat -> Nat
  | 0 => 0
  | column + 1 =>
      if pane.contains { row, column := column + 1 } then column + 1
      else scanLeft pane row column

/-- The position after one move, by a search for where it comes back into the box; there is
none if a subtraction goes below zero. -/
def checkedAdvance? (pane : Pane) (position : Position) (direction : Direction)
    (stride : Stride) : Option Position :=
  let distance := stride.toNat
  match direction with
  | .down =>
      let row := position.row + distance
      if row < pane.height then some { position with row }
      else some { position with row := pane.scanDown position.column pane.height 0 }
  | .right =>
      let column := position.column + distance
      if column < pane.span then some { position with column }
      else some { position with column := 0 }
  | .up =>
      (if position.row < distance then
          (pane.height.psub 1).bind (pane.scanUp? position.column pane.height)
        else position.row.psub distance).map fun row => { position with row }
  | .left =>
      (if position.column < distance then
          (pane.span.psub 1).map (pane.scanLeft position.row)
        else position.column.psub distance).map fun column => { position with column }

/-- A search down the rest of a column that finds nothing ends at the first row. -/
theorem scanDown_eq (column rows row : Nat) (rest : row + rows = pane.height) :
    pane.scanDown column rows (row % pane.height) =
      ((List.range' row rows).find? fun row => pane.contains { row, column }).getD 0 := by
  induction rows generalizing row with
  | zero =>
      have last : row = pane.height := rest
      rw [last, Nat.mod_self]
      rfl
  | succ rows inductionHypothesis =>
      have inside : row % pane.height = row := Nat.mod_eq_of_lt (by omega)
      rw [scanDown, inside, List.range'_succ, List.find?_cons]
      cases pane.contains { row, column } with
      | true => rfl
      | false => exact inductionHypothesis (row + 1) (by omega)

/-- A search up the rest of a column that finds nothing ends at the last row. -/
theorem scanUp?_eq (someRow : 0 < pane.height) (column row : Nat) :
    pane.scanUp? column (row + 1) row =
      some (((List.range (row + 1)).reverse.find? fun row =>
        pane.contains { row, column }).getD (pane.height - 1)) := by
  induction row with
  | zero =>
      rw [scanUp?, List.range_one, List.reverse_singleton, List.find?_cons]
      cases pane.contains { row := 0, column } with
      | true => rfl
      | false =>
          rw [if_neg Bool.false_ne_true, if_pos rfl, Nat.psub_eq_sub someRow]
          rfl
  | succ row inductionHypothesis =>
      rw [scanUp?, List.range_succ, List.reverse_append, List.reverse_singleton,
        List.singleton_append, List.find?_cons]
      cases pane.contains { row := row + 1, column } with
      | true => rfl
      | false =>
          rw [if_neg Bool.false_ne_true, if_neg (Nat.succ_ne_zero row)]
          exact inductionHypothesis

/-- A search to the left that starts behind the row ends at its last cell. -/
theorem scanLeft_eq (row column : Nat) (behind : pane.rowLength row ≤ column + 1) :
    pane.scanLeft row column = pane.rowLength row - 1 := by
  induction column with
  | zero =>
      have first : pane.rowLength row - 1 = 0 := by omega
      rw [first, scanLeft]
  | succ column inductionHypothesis =>
      unfold scanLeft
      split
      · rename_i cell
        have inside : column + 1 < pane.rowLength row := (contains_iff _).mp cell
        omega
      · rename_i noCell
        rw [contains_iff] at noCell
        exact inductionHypothesis (Nat.le_of_not_lt noCell)

/-- Inside the box no subtraction of a move goes below zero. -/
theorem InBox.checkedAdvance?_eq (inBox : pane.InBox position) (direction : Direction)
    (stride : Stride) :
    pane.checkedAdvance? position direction stride =
      some (pane.advance position direction stride) := by
  have someRow : 0 < pane.height := Nat.zero_lt_of_lt inBox.row
  unfold checkedAdvance? Pane.advance
  cases direction with
  | down =>
      have wrapped := pane.scanDown_eq position.column pane.height 0 (Nat.zero_add _)
      rw [Nat.zero_mod, ← List.range_eq_range'] at wrapped
      dsimp only
      rw [wrapped]
      exact (apply_ite some _ _ _).symm
  | right => exact (apply_ite some _ _ _).symm
  | up =>
      dsimp only
      split
      · have last : pane.height - 1 + 1 = pane.height := Nat.sub_add_cancel someRow
        have wrapped := pane.scanUp?_eq someRow position.column (pane.height - 1)
        rw [last] at wrapped
        rw [Nat.psub_eq_sub someRow, Option.bind_some, wrapped]
        rfl
      · rename_i near
        rw [Nat.psub_eq_sub (Nat.le_of_not_lt near)]
        rfl
  | left =>
      have someColumn := pane.span_pos
      have narrow := pane.rowLength_le_span position.row
      dsimp only
      split
      · rw [Nat.psub_eq_sub someColumn, Option.map_some, scanLeft_eq _ _ (by omega)]
        rfl
      · rename_i near
        rw [Nat.psub_eq_sub (Nat.le_of_not_lt near)]
        rfl

/-- Whether a move goes over the border of the box. -/
def Wraps (pane : Pane) (position : Position) (direction : Direction) (stride : Stride) : Prop :=
  match direction with
  | .down => pane.height ≤ position.row + stride.toNat
  | .right => pane.span ≤ position.column + stride.toNat
  | .up => position.row < stride.toNat
  | .left => position.column < stride.toNat

/-- Where a move over the border may come back into the box.  Down and up it keeps to the
column, and if there is a cell in it then the first or the last one is met; to the right it
comes back at the first column; to the left it keeps to the row, and if there is a cell in it
then the last one is met. -/
def WrapsOnto (pane : Pane) (position : Position) (direction : Direction) (landed : Position) :
    Prop :=
  match direction with
  | .down =>
      landed.column = position.column ∧
        forall row, pane.contains { position with row } = true ->
          pane.contains landed = true ∧ landed.row ≤ row
  | .right => landed = { position with column := 0 }
  | .up =>
      landed.column = position.column ∧
        forall row, pane.contains { position with row } = true ->
          pane.contains landed = true ∧ row ≤ landed.row
  | .left =>
      landed.row = position.row ∧
        forall column, pane.contains { position with column } = true ->
          pane.contains landed = true ∧ column ≤ landed.column

theorem firstRowWith_le {column row : Nat} (cell : pane.contains { row, column } = true) :
    pane.firstRowWith column ≤ row := by
  have listed : row ∈ List.range pane.height := List.mem_range.mpr (row_lt_of_contains cell)
  unfold firstRowWith
  cases found : (List.range pane.height).find? fun row => pane.contains { row, column } with
  | none => exact absurd cell (List.find?_eq_none.mp found row listed)
  | some first =>
      apply Nat.le_of_not_lt
      intro earlier
      have missing := (List.find?_range_eq_some.mp found).2.2 row earlier
      rw [cell] at missing
      cases missing

theorem le_lastRowWith {column row : Nat} (cell : pane.contains { row, column } = true) :
    row ≤ pane.lastRowWith column := by
  have listed : row ∈ (List.range pane.height).reverse :=
    List.mem_reverse.mpr (List.mem_range.mpr (row_lt_of_contains cell))
  unfold lastRowWith
  cases found : (List.range pane.height).reverse.find? fun row => pane.contains { row, column } with
  | none => exact absurd cell (List.find?_eq_none.mp found row listed)
  | some last =>
      -- What comes before the row that was found, the rows being listed upwards, has no cell.
      rcases List.find?_eq_some_iff_append.mp found with ⟨_, below, above, split_, noCell⟩
      have descending : (below ++ last :: above).Pairwise (· > ·) := by
        rw [← split_, List.pairwise_reverse]
        exact List.pairwise_lt_range
      rw [split_] at listed
      rcases List.mem_append.mp listed with earlier | later
      · have missing := noCell row earlier
        rw [cell] at missing
        cases missing
      · rcases List.mem_cons.mp later with rfl | behind
        · exact Nat.le_refl _
        · have parts := (List.pairwise_append.mp descending).2.1
          exact Nat.le_of_lt (List.rel_of_pairwise_cons parts behind)

/-- A move over the border comes back at the far end of its line, or at the first column. -/
theorem wrapsOnto_advance {direction : Direction} {stride : Stride}
    (wraps : pane.Wraps position direction stride) :
    pane.WrapsOnto position direction (pane.advance position direction stride) := by
  unfold Pane.advance
  cases direction with
  | down =>
      dsimp only
      rw [if_neg (Nat.not_lt.mpr wraps)]
      exact ⟨rfl, fun row cell => ⟨contains_firstRowWith cell, firstRowWith_le cell⟩⟩
  | right =>
      have outside : ¬position.column + stride.toNat < max pane.width 1 := Nat.not_lt.mpr wraps
      dsimp only
      rw [if_neg outside]
      rfl
  | up =>
      have above : position.row < stride.toNat := wraps
      dsimp only
      rw [if_pos above]
      exact ⟨rfl, fun row cell => ⟨contains_lastRowWith cell, le_lastRowWith cell⟩⟩
  | left =>
      have before : position.column < stride.toNat := wraps
      dsimp only
      rw [if_pos before]
      refine ⟨rfl, ?_⟩
      intro column cell
      have inside : column < pane.rowLength position.row := (contains_iff _).mp cell
      refine ⟨(contains_iff _).mpr ?_, ?_⟩
      · exact Nat.sub_lt (Nat.zero_lt_of_lt inside) Nat.one_pos
      · exact Nat.le_sub_one_of_lt inside

/-- The cursors with which a path starts or goes on: the origin, and those that are one move
away from a cell. -/
inductive Departure (pane : Pane) : Cursor -> Prop where
  | origin : Departure pane origin
  | move {cell : Position} (inside : pane.contains cell = true) (direction : Direction)
      (stride : Stride) :
      Departure pane { position := pane.advance cell direction stride, direction, stride }

/-- Ahead of a path there is a cell. -/
theorem Departure.exists_nextCell? {cursor : Cursor} (departure : pane.Departure cursor)
    (nonempty : pane.isEmpty = false) :
    ∃ cell, pane.nextCell? cursor.position cursor.direction cursor.stride = some cell := by
  cases departure with
  | origin => exact Pane.exists_nextCell? _ (onLine_origin nonempty)
  | move inside direction stride => exact exists_nextCell?_of_contains inside direction stride

end Pane

namespace Tracer

variable {pane : Pane} {deeds : List Deed} {deed : Deed} {tracer next : Tracer}

/-- Whether a path is being followed with the cursor, or is left for later. -/
inductive Follows (tracer : Tracer) (cursor : Cursor) : Prop where
  | now (follows : tracer.cursor = some cursor) : Follows tracer cursor
  | later {label : Nat} (waits : ⟨cursor, label⟩ ∈ tracer.tracing.pending) : Follows tracer cursor

/-- A deed goes on with a path that is there or departs from a cell. -/
theorem Step.follows_cases (step : Step pane tracer deed next) {cursor : Cursor}
    (follows : next.Follows cursor) : tracer.Follows cursor ∨ pane.Departure cursor := by
  cases step with
  | @takeUp tracing path others queued =>
      have waited : forall {other}, other ∈ path :: others -> other ∈ tracing.pending :=
        fun member => queued.symm ▸ member
      cases follows with
      | now follows =>
          cases follows
          exact Or.inl (.later (waited List.mem_cons_self))
      | later waits => exact Or.inl (.later (waited (List.mem_cons_of_mem _ waits)))
  | write arrives inside fresh =>
      have cell := contains_of_arrival? arrives
      cases follows with
      | now follows =>
          dsimp only [Pane.onward?] at follows
          split at follows
          · cases follows
          · cases follows
            exact Or.inr (.move cell _ _)
      | later waits =>
          rw [Tracing.pending_emitAt] at waits
          split at waits
          · rcases List.mem_append.mp waits with earlier | last
            · exact Or.inl (.later earlier)
            · cases List.mem_singleton.mp last
              exact Or.inr (.move cell _ _)
          · exact Or.inl (.later waits)
  | close _ _ | lose _ =>
      cases follows with
      | now follows => cases follows
      | later waits => exact Or.inl (.later waits)

/-- Every path departs from a cell, but for the one from the origin. -/
theorem Performs.departure (performs : Performs pane deeds tracer) {cursor : Cursor}
    (follows : tracer.Follows cursor) : pane.Departure cursor := by
  induction performs generalizing cursor with
  | start =>
      cases follows with
      | now follows =>
          unfold Tracer.start at follows
          split at follows
          · cases follows
          · cases follows
            exact .origin
      | later waits => cases waits
  | step _ step inductionHypothesis =>
      rcases step.follows_cases follows with earlier | departure
      · exact inductionHypothesis earlier
      · exact departure

end Tracer

namespace Pane

/-- Travel on the pane is total, and no path on it is lost. -/
structure Travelled (pane : Pane) : Prop where
  /-- There is a box, and programs start in it. -/
  starts : pane.InBox origin.position
  /-- No move leads out of the box. -/
  stays : forall position direction stride, pane.InBox position ->
    pane.InBox (pane.advance position direction stride)
  /-- No move inside the box subtracts below zero. -/
  checked : forall position direction stride, pane.InBox position ->
    pane.checkedAdvance? position direction stride =
      some (pane.advance position direction stride)
  /-- A move over the border comes back at the far end of its line, or at the first column. -/
  wraps : forall position direction stride,
    pane.Wraps position direction stride ->
    pane.WrapsOnto position direction (pane.advance position direction stride)
  /-- From where a path departs, a cell is met before the search for one is given up. -/
  meets : pane.isEmpty = false -> forall cursor, pane.Departure cursor ->
    ∃ cell, pane.nextCell? cursor.position cursor.direction cursor.stride = some cell
  /-- The paths of a tracer depart so, and none is given up. -/
  keeps : forall deeds tracer, Tracer.Performs pane deeds tracer ->
    (forall cursor, tracer.Follows cursor -> pane.Departure cursor) ∧ .lose ∉ deeds
  /-- The program is what a tracer has written in the end. -/
  program : forall withComments, ∃ deeds tracer, Tracer.Performs pane deeds tracer ∧
    tracer.Finished ∧ (pane.toProgram withComments).code = tracer.tracing.code ∧
    (pane.toProgram withComments).labels = tracer.tracing.labels

theorem inBox_origin_ofText (text : List Char) : (ofText text).InBox origin.position where
  row := by
    have someLine := List.length_pos_iff.mpr (Text.lines_ne_nil text)
    simpa [height, ofText, origin] using someLine
  column := (ofText text).span_pos

/-- Travel on the pane of a text never leaves its box and never gets lost. -/
theorem travelled_ofText (text : List Char) : (ofText text).Travelled where
  starts := inBox_origin_ofText text
  stays := fun _ direction stride inBox => inBox.advance direction stride
  checked := fun _ direction stride inBox => inBox.checkedAdvance?_eq direction stride
  wraps := fun _ _ _ wraps => wrapsOnto_advance wraps
  meets := fun nonempty _ departure => departure.exists_nextCell? nonempty
  keeps := fun _ _ performs => ⟨fun _ follows => performs.departure follows, performs.lose_not_mem⟩
  program := Tracer.exists_performs_toProgram (ofText text)

end Pane
end HangulPane
