import HangulPane.Pane.Trace

namespace HangulPane
namespace Pane

/-!
Travel on a pane that is not empty always meets a cell, and the cursors at cells are
numbered one to one.

The line of travel is a row or a column.  If there is a cell in the line then every move
stays in the line, and it either comes closer to the border or wraps around onto a cell.
-/

/-- The widest of the rows is at least as wide as each of them. -/
theorem le_foldl_max (rows : List (Array Char)) (widest : Nat) :
    widest ≤ rows.foldl (fun widest row => max widest row.size) widest ∧
      forall row, row ∈ rows ->
        row.size ≤ rows.foldl (fun widest row => max widest row.size) widest := by
  induction rows generalizing widest with
  | nil => simp
  | cons first later inductionHypothesis =>
      rcases inductionHypothesis (max widest first.size) with ⟨start, each⟩
      refine ⟨Nat.le_trans (Nat.le_max_left _ _) start, ?_⟩
      intro row member
      rcases List.mem_cons.mp member with rfl | memberLater
      · exact Nat.le_trans (Nat.le_max_right _ _) start
      · exact each row memberLater

/-- If the widest row has a cell then some row does. -/
theorem exists_of_foldl_max_pos (rows : List (Array Char))
    (positive : 0 < rows.foldl (fun widest row => max widest row.size) 0) :
    ∃ row, row ∈ rows ∧ 0 < row.size := by
  apply Decidable.byContradiction
  intro noCell
  have empty : forall row, row ∈ rows -> row.size = 0 := by
    intro row member
    exact Nat.eq_zero_of_not_pos fun cell => noCell ⟨row, member, cell⟩
  have zero : rows.foldl (fun widest row => max widest row.size) 0 = 0 := by
    clear positive noCell
    induction rows with
    | nil => rfl
    | cons first later inductionHypothesis =>
        rw [List.foldl_cons, empty first (List.mem_cons_self ..), Nat.max_self]
        exact inductionHypothesis fun row member => empty row (List.mem_cons_of_mem _ member)
  omega

variable {pane : Pane}

theorem rowLength_le_width (pane : Pane) (row : Nat) : pane.rowLength row ≤ pane.width := by
  unfold rowLength
  cases found : pane.rows[row]? with
  | none => simp
  | some cells =>
      have member : cells ∈ pane.rows.toList := by
        simpa using Array.mem_of_getElem? found
      rw [pane.width_eq, ← Array.foldl_toList]
      exact (le_foldl_max pane.rows.toList 0).2 cells member

theorem contains_iff (position : Position) :
    pane.contains position = true <-> position.column < pane.rowLength position.row := by
  simp [contains]

theorem row_lt_height {row : Nat} (occupied : 0 < pane.rowLength row) : row < pane.height := by
  apply Decidable.byContradiction
  intro outside
  have missing : pane.rows[row]? = none := Array.getElem?_eq_none (Nat.le_of_not_lt outside)
  simp [rowLength, missing] at occupied

theorem row_lt_of_contains {position : Position} (cell : pane.contains position = true) :
    position.row < pane.height :=
  row_lt_height (Nat.lt_of_le_of_lt (Nat.zero_le _) ((contains_iff position).mp cell))

theorem column_lt_of_contains {position : Position} (cell : pane.contains position = true) :
    position.column < pane.width :=
  Nat.lt_of_lt_of_le ((contains_iff position).mp cell) (pane.rowLength_le_width position.row)

/-- Whether travel in the given direction from a position goes along a line with a cell. -/
def OnLine (pane : Pane) (direction : Direction) (position : Position) : Prop :=
  match direction with
  | .down | .up =>
      position.row < pane.height ∧
        ∃ row, pane.contains { row, column := position.column } = true
  | .right | .left => position.column < pane.width ∧ 0 < pane.rowLength position.row

theorem onLine_of_contains {position : Position} (cell : pane.contains position = true)
    (direction : Direction) : pane.OnLine direction position := by
  have row := row_lt_of_contains cell
  have column := column_lt_of_contains cell
  cases direction with
  | down | up => exact ⟨row, position.row, cell⟩
  | right | left =>
      exact ⟨column, Nat.lt_of_le_of_lt (Nat.zero_le _) ((contains_iff position).mp cell)⟩

/-- How far the border is in the direction of travel, at most. -/
def ahead (pane : Pane) (direction : Direction) (position : Position) : Nat :=
  match direction with
  | .down => pane.height - position.row
  | .right => pane.width - position.column
  | .up => position.row
  | .left => position.column

theorem contains_firstRowWith {column row : Nat}
    (cell : pane.contains { row, column } = true) :
    pane.contains { row := pane.firstRowWith column, column } = true := by
  have inside : row < pane.height := row_lt_of_contains cell
  unfold firstRowWith
  cases found : (List.range pane.height).find? fun row => pane.contains { row, column } with
  | none =>
      have missing := List.find?_eq_none.mp found row (List.mem_range.mpr inside)
      exact absurd cell missing
  | some first =>
      have holds := List.find?_some found
      exact holds

theorem contains_lastRowWith {column row : Nat}
    (cell : pane.contains { row, column } = true) :
    pane.contains { row := pane.lastRowWith column, column } = true := by
  have inside : row < pane.height := row_lt_of_contains cell
  unfold lastRowWith
  cases found : (List.range pane.height).reverse.find? fun row => pane.contains { row, column } with
  | none =>
      have missing := List.find?_eq_none.mp found row (by simpa using inside)
      exact absurd cell missing
  | some last =>
      have holds := List.find?_some found
      exact holds

theorem toNat_pos (stride : Stride) : 0 < stride.toNat := by
  cases stride <;> decide

/-- A move along a line comes closer to the border or ends on a cell. -/
theorem advance_onLine {direction : Direction} (stride : Stride) {position : Position}
    (line : pane.OnLine direction position) :
    pane.OnLine direction (pane.advance position direction stride) ∧
      (pane.contains (pane.advance position direction stride) = true ∨
        pane.ahead direction (pane.advance position direction stride) <
          pane.ahead direction position) := by
  have distance := toNat_pos stride
  cases direction with
  | down =>
      rcases line with ⟨row, other, cell⟩
      have wrapped := contains_firstRowWith cell
      unfold advance
      dsimp only
      split
      · rename_i inside
        refine ⟨⟨inside, other, cell⟩, Or.inr ?_⟩
        simp only [ahead]
        omega
      · exact ⟨onLine_of_contains wrapped .down, Or.inl wrapped⟩
  | up =>
      rcases line with ⟨row, other, cell⟩
      have wrapped := contains_lastRowWith cell
      unfold advance
      dsimp only
      split
      · exact ⟨onLine_of_contains wrapped .up, Or.inl wrapped⟩
      · refine ⟨⟨Nat.lt_of_le_of_lt (Nat.sub_le _ _) row, other, cell⟩, Or.inr ?_⟩
        simp only [ahead]
        omega
  | right =>
      rcases line with ⟨column, occupied⟩
      have wrapped : pane.contains { position with column := 0 } = true :=
        (contains_iff _).mpr occupied
      unfold advance
      dsimp only
      split
      · rename_i inside
        rw [Nat.max_eq_left (by omega)] at inside
        refine ⟨⟨inside, occupied⟩, Or.inr ?_⟩
        simp only [ahead]
        omega
      · exact ⟨onLine_of_contains wrapped .right, Or.inl wrapped⟩
  | left =>
      rcases line with ⟨column, occupied⟩
      have wrapped : pane.contains
          { position with column := pane.rowLength position.row - 1 } = true :=
        (contains_iff _).mpr (Nat.sub_lt occupied Nat.one_pos)
      unfold advance
      dsimp only
      split
      · exact ⟨onLine_of_contains wrapped .left, Or.inl wrapped⟩
      · refine ⟨⟨Nat.lt_of_le_of_lt (Nat.sub_le _ _) column, occupied⟩, Or.inr ?_⟩
        simp only [ahead]
        omega

/-- Travel along a line meets a cell within as many moves as the border is ahead, and two
more. -/
theorem exists_firstCell? {direction : Direction} (stride : Stride) (attempts : Nat)
    {position : Position} (line : pane.OnLine direction position)
    (enough : pane.ahead direction position + 2 ≤ attempts) :
    ∃ cell, pane.firstCell? direction stride attempts position = some cell := by
  induction attempts generalizing position with
  | zero => omega
  | succ attempts inductionHypothesis =>
      unfold firstCell?
      split
      · exact ⟨position, rfl⟩
      · rcases advance_onLine stride line with ⟨lineNext, arrives | closer⟩
        · cases attempts with
          | zero => omega
          | succ attempts => exact ⟨_, by rw [firstCell?, if_pos arrives]⟩
        · exact inductionHypothesis lineNext (by omega)

/-- So many positions are looked at that travel along a line meets a cell. -/
theorem exists_nextCell? {direction : Direction} (stride : Stride) {position : Position}
    (line : pane.OnLine direction position) :
    ∃ cell, pane.nextCell? position direction stride = some cell := by
  refine exists_firstCell? stride _ line ?_
  have rows : (pane.height + 1) * 2 ≤ (pane.height + 1) * (pane.width + 2) :=
    Nat.mul_le_mul_left _ (Nat.le_add_left 2 _)
  have columns : 1 * (pane.width + 2) ≤ (pane.height + 1) * (pane.width + 2) :=
    Nat.mul_le_mul_right _ (Nat.le_add_left 1 _)
  cases direction with
  | down =>
      rcases line with ⟨row, _⟩
      simp only [ahead]
      omega
  | up =>
      rcases line with ⟨row, _⟩
      simp only [ahead]
      omega
  | right =>
      simp only [ahead]
      omega
  | left =>
      rcases line with ⟨column, _⟩
      simp only [ahead]
      omega

/-- From a cell, travel in any direction meets a cell again. -/
theorem exists_nextCell?_of_contains {position : Position}
    (cell : pane.contains position = true) (direction : Direction) (stride : Stride) :
    ∃ next, pane.nextCell? (pane.advance position direction stride) direction stride =
      some next :=
  exists_nextCell? stride (advance_onLine stride (onLine_of_contains cell direction)).1

/-- The start of every program lies on a line with a cell, unless the pane is empty. -/
theorem onLine_origin (nonempty : pane.isEmpty = false) :
    pane.OnLine origin.direction origin.position := by
  have positive : 0 < pane.rows.toList.foldl (fun widest row => max widest row.size) 0 := by
    rw [Array.foldl_toList, ← pane.width_eq]
    apply Nat.pos_of_ne_zero
    simpa [isEmpty] using nonempty
  rcases exists_of_foldl_max_pos pane.rows.toList positive with ⟨cells, member, occupied⟩
  rcases List.mem_iff_getElem?.mp member with ⟨row, found⟩
  rw [Array.getElem?_toList] at found
  have cell : pane.contains { row, column := 0 } = true := by
    simp [contains, rowLength, found, occupied]
  exact ⟨Nat.lt_of_le_of_lt (Nat.zero_le _) (row_lt_of_contains cell), row, cell⟩

/-- What travel meets is a cell. -/
theorem contains_of_firstCell? {direction : Direction} {stride : Stride} {attempts : Nat}
    {position cell : Position}
    (found : pane.firstCell? direction stride attempts position = some cell) :
    pane.contains cell = true := by
  induction attempts generalizing position with
  | zero => simp [firstCell?] at found
  | succ attempts inductionHypothesis =>
      unfold firstCell? at found
      split at found
      · rename_i here
        cases found
        exact here
      · exact inductionHypothesis found

theorem toNat_lt_four (direction : Direction) : direction.toNat < 4 := by
  cases direction <;> decide

theorem toNat_sub_one_lt_two (stride : Stride) : stride.toNat - 1 < 2 := by
  cases stride <;> decide

theorem column_lt_span {position : Position} (cell : pane.contains position = true) :
    position.column < pane.span :=
  Nat.lt_of_lt_of_le (column_lt_of_contains cell) (Nat.le_max_left _ _)

/-- Cursors at cells are numbered within the count. -/
theorem cursorNumber_lt {cursor : Cursor} (cell : pane.contains cursor.position = true) :
    pane.cursorNumber cursor < pane.cursorCount := by
  have row := row_lt_of_contains cell
  have column := column_lt_span cell
  have direction := toNat_lt_four cursor.direction
  have stride := toNat_sub_one_lt_two cursor.stride
  have rows : (cursor.position.row + 1) * pane.span ≤ pane.height * pane.span :=
    Nat.mul_le_mul_right _ row
  rw [Nat.succ_mul] at rows
  unfold cursorNumber cursorCount
  omega

theorem direction_toNat_injective {first second : Direction}
    (same : first.toNat = second.toNat) : first = second := by
  cases first <;> cases second <;> first | rfl | contradiction

theorem stride_toNat_injective {first second : Stride}
    (same : first.toNat - 1 = second.toNat - 1) : first = second := by
  cases first <;> cases second <;> first | rfl | contradiction

/-- The row of a place in a numbering row by row. -/
theorem row_of_place {row column span : Nat} (inside : column < span) :
    (row * span + column) / span = row := by
  rw [Nat.mul_comm, Nat.mul_add_div (Nat.lt_of_le_of_lt (Nat.zero_le _) inside),
    Nat.div_eq_of_lt inside, Nat.add_zero]

/-- Cursors at cells are numbered one to one. -/
theorem cursorNumber_injective {first second : Cursor}
    (firstCell : pane.contains first.position = true)
    (secondCell : pane.contains second.position = true)
    (same : pane.cursorNumber first = pane.cursorNumber second) : first = second := by
  obtain ⟨⟨firstRow, firstColumn⟩, firstDirection, firstStride⟩ := first
  obtain ⟨⟨secondRow, secondColumn⟩, secondDirection, secondStride⟩ := second
  have firstInside : firstColumn < pane.span := column_lt_span firstCell
  have secondInside : secondColumn < pane.span := column_lt_span secondCell
  have firstDirectionBound := toNat_lt_four firstDirection
  have secondDirectionBound := toNat_lt_four secondDirection
  have firstStrideBound := toNat_sub_one_lt_two firstStride
  have secondStrideBound := toNat_sub_one_lt_two secondStride
  simp only [cursorNumber] at same
  have places : firstRow * pane.span + firstColumn = secondRow * pane.span + secondColumn := by
    omega
  have directions : firstDirection = secondDirection := direction_toNat_injective (by omega)
  have strides : firstStride = secondStride := stride_toNat_injective (by omega)
  have rows : firstRow = secondRow :=
    calc
      firstRow = (firstRow * pane.span + firstColumn) / pane.span :=
        (row_of_place firstInside).symm
      _ = (secondRow * pane.span + secondColumn) / pane.span := by rw [places]
      _ = secondRow := row_of_place secondInside
  subst rows directions strides
  have columns : firstColumn = secondColumn := by omega
  rw [columns]

end Pane
end HangulPane
