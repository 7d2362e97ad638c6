import HangulPane.Proofs.Pane.Travel
import HangulPane.Proofs.Pane.Walker

namespace HangulPane

/-!
What a finished tracing knows of every cursor.

The code of each cell stands where its landing says.  Behind it stands what the cursor
meets next, and the label of its underflow path leads to what the cursor meets when it
turns around.  What stands at an index may be the code of the next cell, a jump to it, or
nothing yet: a cell without an effect leaves no code and shares the index of what follows.

Traces only add to what was there, so what holds of a tracing holds of all that extend
it.  The paths left for later are accounted for when they are taken up.
-/

namespace Pane

/-- The cursor at the next cell it meets. -/
def arrival? (pane : Pane) (cursor : Cursor) : Option Cursor :=
  (pane.nextCell? cursor.position cursor.direction cursor.stride).map fun position =>
    { cursor with position }

/-- The cursor by which the cell under a cursor is traced. -/
def tracedAt (pane : Pane) (cursor : Cursor) : Cursor :=
  tracedCursor (pane.cellAt cursor.position) cursor.position cursor.direction cursor.stride

variable {pane : Pane}

@[simp]
theorem position_tracedAt (pane : Pane) (cursor : Cursor) :
    (pane.tracedAt cursor).position = cursor.position := by
  unfold tracedAt tracedCursor
  split <;> rfl

/-- A movement turns a traced cursor as it turned the cursor before. -/
theorem turn_tracedAt (pane : Pane) (cursor : Cursor) :
    (pane.cellAt cursor.position).movement.turn (pane.tracedAt cursor).direction
        (pane.tracedAt cursor).stride =
      (pane.cellAt cursor.position).movement.turn cursor.direction cursor.stride := by
  unfold tracedAt tracedCursor
  cases (pane.cellAt cursor.position).movement <;> rfl

theorem leaving_tracedAt (pane : Pane) (cursor : Cursor) :
    pane.leaving (pane.tracedAt cursor) = pane.leaving cursor := by
  simp only [leaving, position_tracedAt, turn_tracedAt]

theorem turningBack_tracedAt (pane : Pane) (cursor : Cursor) :
    pane.turningBack (pane.tracedAt cursor) = pane.turningBack cursor := by
  simp only [turningBack, position_tracedAt, turn_tracedAt]

theorem exists_arrival?_of_nextCell? {cursor : Cursor}
    (meets : ∃ cell, pane.nextCell? cursor.position cursor.direction cursor.stride = some cell) :
    ∃ arrived, pane.arrival? cursor = some arrived := by
  rcases meets with ⟨cell, found⟩
  exact ⟨{ cursor with position := cell }, by simp [arrival?, found]⟩

theorem exists_arrival?_leaving {cursor : Cursor}
    (cell : pane.contains cursor.position = true) :
    ∃ arrived, pane.arrival? (pane.leaving cursor) = some arrived :=
  exists_arrival?_of_nextCell? (exists_nextCell?_of_contains cell _ _)

theorem exists_arrival?_turningBack {cursor : Cursor}
    (cell : pane.contains cursor.position = true) :
    ∃ arrived, pane.arrival? (pane.turningBack cursor) = some arrived :=
  exists_arrival?_of_nextCell? (exists_nextCell?_of_contains cell _ _)

end Pane

namespace Tracing

/-- Whether the instructions stand in the code from an index on. -/
def CodeAt (code : Array Instruction) (start : Nat) (instructions : List Instruction) : Prop :=
  forall offset, offset < instructions.length ->
    code[start + offset]? = instructions[offset]?

/-- Whether a later tracing keeps all that an earlier one has. -/
structure Extends (earlier later : Tracing) : Prop where
  code : forall index, index < earlier.code.size -> later.code[index]? = earlier.code[index]?
  labels : forall label index, earlier.labels.find? label = some index ->
    later.labels.find? label = some index
  landings : forall (number : Nat) (landing : Landing),
    earlier.landings[number]? = some (some landing) ->
    later.landings[number]? = some (some landing)

theorem Extends.refl (tracing : Tracing) : tracing.Extends tracing :=
  ⟨fun _ _ => rfl, fun _ _ found => found, fun _ _ found => found⟩

theorem Extends.size_le {earlier later : Tracing} (extends_ : earlier.Extends later) :
    earlier.code.size ≤ later.code.size := by
  apply Decidable.byContradiction
  intro shorter
  have missing : later.code[later.code.size]? = none := Array.getElem?_eq_none (Nat.le_refl _)
  rw [extends_.code later.code.size (by omega)] at missing
  have outside := Array.getElem?_eq_none_iff.mp missing
  omega

theorem Extends.trans {first second third : Tracing} (left : first.Extends second)
    (right : second.Extends third) : first.Extends third where
  code := by
    intro index inside
    rw [right.code index (Nat.lt_of_lt_of_le inside left.size_le), left.code index inside]
  labels := fun label index found => right.labels label index (left.labels label index found)
  landings := fun number landing found =>
    right.landings number landing (left.landings number landing found)

/-- The landing of the cell under a cursor. -/
def Landed (pane : Pane) (tracing : Tracing) (cursor : Cursor) (landing : Landing) : Prop :=
  tracing.landings[pane.cursorNumber cursor]? = some (some landing)

/-- Whether what a cursor at a cell does stands at an index, after a number of cells
without an effect. -/
inductive Continues (pane : Pane) (tracing : Tracing) : Nat -> Cursor -> Nat -> Prop where
  /-- The code of the cell stands there. -/
  | here {cursor : Cursor} {index : Nat} {landing : Landing}
      (landed : tracing.Landed pane (pane.tracedAt cursor) landing)
      (entry : landing.entry = index)
      (busy : (pane.cellAt cursor.position).operation ≠ .noop) :
      Continues pane tracing 0 cursor index
  /-- The cell has no code, and what comes after it stands there. -/
  | idle {cursor next : Cursor} {index idle : Nat}
      (noop : (pane.cellAt cursor.position).operation = .noop)
      (arrives : pane.arrival? (pane.leaving cursor) = some next)
      (rest : Continues pane tracing idle next index) :
      Continues pane tracing (idle + 1) cursor index
  /-- A jump to the code of the cell stands there. -/
  | jump {cursor : Cursor} {index label : Nat} {landing : Landing}
      (landed : tracing.Landed pane (pane.tracedAt cursor) landing)
      (fetched : tracing.code[index]? = some (.jmp label))
      (bound : tracing.labels.find? label = some landing.entry) :
      Continues pane tracing 0 cursor index

/-- Whether what a travelling cursor does stands at an index. -/
def Resumes (pane : Pane) (tracing : Tracing) (cursor : Cursor) (index : Nat) : Prop :=
  ∃ arrived idle, pane.arrival? cursor = some arrived ∧
    Continues pane tracing idle arrived index

/-- Whether the code of a traced cursor stands at its landing, with the right code behind
it and under the label of its underflow path. -/
structure Settled (pane : Pane) (tracing : Tracing) (cursor : Cursor) (landing : Landing)
    (label : Nat) : Prop where
  code : CodeAt tracing.code landing.entry ((pane.cellAt cursor.position).emission label)
  back : (pane.cellAt cursor.position).isGuarded = true -> ∃ index,
    tracing.labels.find? label = some index ∧ tracing.Resumes pane (pane.turningBack cursor) index
  onward : (pane.cellAt cursor.position).operation ≠ .halt ->
    tracing.Resumes pane (pane.leaving cursor)
      (landing.entry + ((pane.cellAt cursor.position).emission label).length)

/-- Whether a path that was left for later is there. -/
def Resolved (pane : Pane) (tracing : Tracing) (path : PendingPath) : Prop :=
  ∃ index, tracing.labels.find? path.label = some index ∧
    tracing.Resumes pane path.cursor index

/-- What holds of a tracing between two traces. -/
structure Orderly (pane : Pane) (tracing : Tracing) : Prop where
  full : tracing.landings.size = pane.cursorCount
  bound : forall label index, tracing.labels.find? label = some index ->
    label < tracing.nextLabel
  queued : forall path, path ∈ tracing.pending -> path.label < tracing.nextLabel ∧
    tracing.labels.find? path.label = none ∧ ∃ arrived, pane.arrival? path.cursor = some arrived
  distinct : (tracing.pending.map PendingPath.label).Nodup

/-- What a trace adds: the code of the cursor it follows, and landings that are settled as
soon as the paths left for later are there. -/
structure Traced (pane : Pane) (tracing : Tracing) (cursor : Cursor) (result : Tracing) : Prop where
  orderly : result.Orderly pane
  keeps : tracing.Extends result
  queue : forall path, path ∈ tracing.pending -> path ∈ result.pending
  completes : forall final, result.Extends final ->
    (forall path, path ∈ result.pending -> final.Resolved pane path) ->
    final.Resumes pane cursor tracing.code.size ∧
      forall other landing, pane.contains other.position = true ->
        result.Landed pane other landing ->
        tracing.Landed pane other landing ∨ ∃ label, final.Settled pane other landing label

variable {pane : Pane} {tracing : Tracing}

theorem Orderly.closeWithJump (orderly : tracing.Orderly pane) (landing : Landing) :
    (tracing.closeWithJump landing).Orderly pane where
  full := orderly.full
  bound := by
    intro label index found
    change (tracing.labels.insert _ _).find? label = some index at found
    rw [Table.find?_insert] at found
    split at found
    · rename_i same
      rw [same]
      exact Nat.lt_succ_self _
    · exact Nat.lt_succ_of_lt (orderly.bound label index found)
  queued := by
    intro path member
    rcases orderly.queued path member with ⟨less, unbound, arrives⟩
    refine ⟨Nat.lt_succ_of_lt less, ?_, arrives⟩
    change (tracing.labels.insert _ _).find? path.label = none
    rw [Table.find?_insert, if_neg (Nat.ne_of_lt less)]
    exact unbound
  distinct := orderly.distinct

theorem extends_closeWithJump (orderly : tracing.Orderly pane) (landing : Landing) :
    tracing.Extends (tracing.closeWithJump landing) where
  code := by
    intro index inside
    change (tracing.code.push _)[index]? = tracing.code[index]?
    rw [Array.getElem?_push_lt inside, Array.getElem?_eq_getElem inside]
  labels := by
    intro label index found
    change (tracing.labels.insert _ _).find? label = some index
    rw [Table.find?_insert, if_neg (Nat.ne_of_lt (orderly.bound label index found))]
    exact found
  landings := fun _ _ found => found

/-- A trace that meets a known cell ends with a jump to it. -/
theorem traced_closeWithJump (orderly : tracing.Orderly pane) {cursor arrived : Cursor}
    {landing : Landing} (arrives : pane.arrival? cursor = some arrived)
    (landed : tracing.Landed pane (pane.tracedAt arrived) landing) :
    Traced pane tracing cursor (tracing.closeWithJump landing) where
  orderly := orderly.closeWithJump landing
  keeps := extends_closeWithJump orderly landing
  queue := fun _ member => member
  completes := by
    intro final extended _
    have fetched : (tracing.closeWithJump landing).code[tracing.code.size]? =
        some (.jmp tracing.nextLabel) := by
      simp [Tracing.closeWithJump]
    have bound : (tracing.closeWithJump landing).labels.find? tracing.nextLabel =
        some landing.entry := by
      simp [Tracing.closeWithJump, Table.find?_insert]
    have inside : tracing.code.size < (tracing.closeWithJump landing).code.size :=
      (Array.getElem?_eq_some_iff.mp fetched).1
    refine ⟨⟨arrived, 0, arrives, .jump (extended.landings _ _ landed)
      ((extended.code _ inside).trans fetched) (extended.labels _ _ bound)⟩, ?_⟩
    exact fun _ _ _ known => Or.inl known

/-- The tracing after the code of the cell under a cursor. -/
def emitAt (tracing : Tracing) (pane : Pane) (cursor : Cursor)
    (inside : pane.cursorNumber (pane.tracedAt cursor) < tracing.landings.size) : Tracing :=
  tracing.emitCell pane (pane.tracedAt cursor) (pane.cellAt cursor.position)
    ((pane.cellAt cursor.position).movement.turn cursor.direction cursor.stride).1
    ((pane.cellAt cursor.position).movement.turn cursor.direction cursor.stride).2 inside

section EmitAt

variable {cursor : Cursor}
  {inside : pane.cursorNumber (pane.tracedAt cursor) < tracing.landings.size}

theorem pending_emitAt :
    (tracing.emitAt pane cursor inside).pending =
      if (pane.cellAt cursor.position).isGuarded then
        tracing.pending ++
          [{ cursor := pane.turningBack cursor, label := tracing.nextLabel }]
      else tracing.pending := by
  simp only [emitAt, emitCell, Pane.turningBack, Pane.position_tracedAt]

theorem entry_landingOf (cell : Cell) : (tracing.landingOf cell).entry = tracing.code.size := by
  unfold landingOf Landing.entry
  dsimp only
  split <;> rfl

theorem code_emitAt :
    (tracing.emitAt pane cursor inside).code.toList =
      tracing.code.toList ++ (pane.cellAt cursor.position).emission tracing.nextLabel :=
  Array.toList_appendList

theorem size_code_emitAt :
    (tracing.emitAt pane cursor inside).code.size = tracing.code.size +
      ((pane.cellAt cursor.position).emission tracing.nextLabel).length := by
  rw [← Array.length_toList, code_emitAt, List.length_append, Array.length_toList]

theorem codeAt_emitAt :
    CodeAt (tracing.emitAt pane cursor inside).code tracing.code.size
      ((pane.cellAt cursor.position).emission tracing.nextLabel) := by
  intro offset _
  rw [← Array.getElem?_toList, code_emitAt, List.getElem?_append_right (by simp)]
  simp

/-- The landings after the code of a cell: those before, and that of the cell. -/
theorem landed_emitAt {other : Cursor} {landing : Landing}
    (cell : pane.contains cursor.position = true) (otherCell : pane.contains other.position = true)
    (landed : (tracing.emitAt pane cursor inside).Landed pane other landing) :
    tracing.Landed pane other landing ∨
      (other = pane.tracedAt cursor ∧
        landing = tracing.landingOf (pane.cellAt cursor.position)) := by
  change (tracing.landings.set _ _ inside)[pane.cursorNumber other]? = _ at landed
  rw [Array.getElem?_set] at landed
  split at landed
  · rename_i same
    refine Or.inr ⟨?_, ?_⟩
    · refine Pane.cursorNumber_injective otherCell ?_ same.symm
      rw [Pane.position_tracedAt]
      exact cell
    · simpa [eq_comm] using landed
  · exact Or.inl landed

theorem landed_emitAt_self :
    (tracing.emitAt pane cursor inside).Landed pane (pane.tracedAt cursor)
      (tracing.landingOf (pane.cellAt cursor.position)) := by
  change (tracing.landings.set _ _ inside)[_]? = _
  rw [Array.getElem?_set_self]

theorem extends_emitAt
    (fresh : tracing.landings[pane.cursorNumber (pane.tracedAt cursor)]? = some none) :
    tracing.Extends (tracing.emitAt pane cursor inside) where
  code := by
    intro index below
    rw [← Array.getElem?_toList, code_emitAt, List.getElem?_append_left (by simpa using below),
      Array.getElem?_toList]
  labels := fun _ _ found => found
  landings := by
    intro number landing found
    change (tracing.landings.set _ _ inside)[number]? = _
    rw [Array.getElem?_set]
    split
    · rename_i same
      rw [← same, fresh] at found
      simp at found
    · exact found

theorem Orderly.emitAt (orderly : tracing.Orderly pane)
    (cell : pane.contains cursor.position = true) :
    (tracing.emitAt pane cursor inside).Orderly pane := by
  have later : tracing.nextLabel ≤ (tracing.emitAt pane cursor inside).nextLabel := by
    simp only [Tracing.emitAt, emitCell]
    split <;> omega
  refine ⟨?_, ?_, ?_, ?_⟩
  · change (tracing.landings.set _ _ inside).size = _
    rw [Array.size_set]
    exact orderly.full
  · exact fun label index found => Nat.lt_of_lt_of_le (orderly.bound label index found) later
  · intro path member
    rw [pending_emitAt] at member
    split at member
    · rename_i guarded
      rcases List.mem_append.mp member with old | new
      · rcases orderly.queued path old with ⟨less, unbound, arrives⟩
        exact ⟨Nat.lt_of_lt_of_le less later, unbound, arrives⟩
      · rw [List.mem_singleton.mp new]
        refine ⟨?_, ?_, Pane.exists_arrival?_turningBack cell⟩
        · simp [Tracing.emitAt, emitCell, guarded]
        · cases found : tracing.labels.find? tracing.nextLabel with
          | none => exact found
          | some index => exact absurd (orderly.bound _ _ found) (Nat.lt_irrefl _)
    · rcases orderly.queued path member with ⟨less, unbound, arrives⟩
      exact ⟨Nat.lt_of_lt_of_le less later, unbound, arrives⟩
  · rw [pending_emitAt]
    split
    · rw [List.map_append, List.nodup_append]
      refine ⟨orderly.distinct, by simp, ?_⟩
      intro label member other single
      rcases List.mem_map.mp member with ⟨path, queued, rfl⟩
      rw [List.map_singleton, List.mem_singleton] at single
      rw [single]
      exact Nat.ne_of_lt (orderly.queued path queued).1
    · exact orderly.distinct

theorem CodeAt.extended {earlier later : Tracing} (extended : earlier.Extends later) {start : Nat}
    {instructions : List Instruction} (standing : CodeAt earlier.code start instructions)
    (inside : start + instructions.length ≤ earlier.code.size) :
    CodeAt later.code start instructions := by
  intro offset below
  rw [extended.code _ (by omega)]
  exact standing offset below

/-- The cell under a cursor is settled once what comes after it and the paths left for later
are there. -/
theorem settled_emitAt {final : Tracing}
    (extended : (tracing.emitAt pane cursor inside).Extends final)
    (resolved : forall path, path ∈ (tracing.emitAt pane cursor inside).pending ->
      final.Resolved pane path)
    (onward : (pane.cellAt cursor.position).operation ≠ .halt ->
      final.Resumes pane (pane.leaving cursor) (tracing.emitAt pane cursor inside).code.size) :
    final.Settled pane (pane.tracedAt cursor)
      (tracing.landingOf (pane.cellAt cursor.position)) tracing.nextLabel := by
  refine ⟨?_, ?_, ?_⟩ <;> simp only [Pane.position_tracedAt, entry_landingOf]
  · exact codeAt_emitAt.extended extended (Nat.le_of_eq size_code_emitAt.symm)
  · intro guarded
    have queued : { cursor := pane.turningBack cursor, label := tracing.nextLabel } ∈
        (tracing.emitAt pane cursor inside).pending := by
      rw [pending_emitAt, if_pos guarded]
      exact List.mem_append_right _ (List.mem_singleton.mpr rfl)
    rw [Pane.turningBack_tracedAt]
    exact resolved _ queued
  · intro running
    rw [Pane.leaving_tracedAt, ← size_code_emitAt]
    exact onward running

/-- A cursor resumes at the code of the next cell it meets. -/
theorem resumes_emitAt {final : Tracing} {travelling : Cursor}
    (extended : (tracing.emitAt pane cursor inside).Extends final)
    (arrives : pane.arrival? travelling = some cursor)
    (onward : (pane.cellAt cursor.position).operation ≠ .halt ->
      final.Resumes pane (pane.leaving cursor) (tracing.emitAt pane cursor inside).code.size) :
    final.Resumes pane travelling tracing.code.size := by
  by_cases noop : (pane.cellAt cursor.position).operation = .noop
  · rcases onward (by simp [noop]) with ⟨next, idle, arrivesNext, continues⟩
    have without : (pane.cellAt cursor.position).emission tracing.nextLabel = [] := by
      simp [Cell.emission, noop]
    rw [size_code_emitAt, without, List.length_nil, Nat.add_zero] at continues
    exact ⟨cursor, idle + 1, arrives, .idle noop arrivesNext continues⟩
  · exact ⟨cursor, 0, arrives, .here (extended.landings _ _ landed_emitAt_self)
      (entry_landingOf _) noop⟩

/-- A trace that goes on after the code of a cell, or ends with it at a halt. -/
theorem traced_emitAt {result : Tracing} {travelling : Cursor}
    (arrives : pane.arrival? travelling = some cursor)
    (cell : pane.contains cursor.position = true)
    (fresh : tracing.landings[pane.cursorNumber (pane.tracedAt cursor)]? = some none)
    (orderly : result.Orderly pane)
    (keeps : (tracing.emitAt pane cursor inside).Extends result)
    (queue : forall path, path ∈ (tracing.emitAt pane cursor inside).pending ->
      path ∈ result.pending)
    (completes : forall final, result.Extends final ->
      (forall path, path ∈ result.pending -> final.Resolved pane path) ->
      ((pane.cellAt cursor.position).operation ≠ .halt -> final.Resumes pane (pane.leaving cursor)
        (tracing.emitAt pane cursor inside).code.size) ∧
        forall other landing, pane.contains other.position = true ->
          result.Landed pane other landing ->
          (tracing.emitAt pane cursor inside).Landed pane other landing ∨
            ∃ label, final.Settled pane other landing label) :
    Traced pane tracing travelling result where
  orderly := orderly
  keeps := (extends_emitAt fresh).trans keeps
  queue := by
    intro path member
    apply queue
    rw [pending_emitAt]
    split
    · exact List.mem_append_left _ member
    · exact member
  completes := by
    intro final extended resolved
    rcases completes final extended resolved with ⟨onward, landings⟩
    have extendedHere := keeps.trans extended
    refine ⟨resumes_emitAt extendedHere arrives onward, ?_⟩
    intro other landing otherCell landed
    rcases landings other landing otherCell landed with known | settled
    · rcases landed_emitAt cell otherCell known with old | ⟨rfl, rfl⟩
      · exact Or.inl old
      · exact Or.inr ⟨_, settled_emitAt extendedHere
          (fun path member => resolved path (queue path member)) onward⟩
    · exact Or.inr settled

end EmitAt

theorem arrival?_of_nextCell? {cursor : Cursor} {position : Position}
    (found : pane.nextCell? cursor.position cursor.direction cursor.stride = some position) :
    pane.arrival? cursor = some { cursor with position } := by
  simp [Pane.arrival?, found]

/-- What a trace adds.  The induction is on the cells it meets. -/
theorem traced_trace (pane : Pane) (tracing : Tracing) (cursor : Cursor)
    (orderly : tracing.Orderly pane) (travels : ∃ arrived, pane.arrival? cursor = some arrived) :
    Traced pane tracing cursor (trace pane tracing cursor) := by
  fun_induction trace pane tracing cursor with
  | case1 tracing cursor missing =>
      rcases travels with ⟨arrived, arrives⟩
      simp [Pane.arrival?, missing] at arrives
  | case2 tracing cursor position found cell traced inside landing known =>
      refine traced_closeWithJump orderly (arrival?_of_nextCell? found) ?_
      exact (Array.getElem?_eq_getElem inside).trans (congrArg some known)
  | case3 tracing cursor position found cell traced inside fresh leaving emitted halts =>
      have contained : pane.contains position = true := Pane.contains_of_firstCell? found
      have orderlyAfter : (tracing.emitAt pane { cursor with position } inside).Orderly pane :=
        orderly.emitAt contained
      refine traced_emitAt (arrival?_of_nextCell? found) contained
        ((Array.getElem?_eq_getElem inside).trans (congrArg some fresh)) orderlyAfter
        (.refl _) (fun _ member => member) ?_
      intro final _ _
      exact ⟨fun running => absurd halts running, fun _ _ _ known => Or.inl known⟩
  | case4 tracing cursor position found cell traced inside fresh leaving emitted running _
      inductionHypothesis =>
      have contained : pane.contains position = true := Pane.contains_of_firstCell? found
      have orderlyAfter : (tracing.emitAt pane { cursor with position } inside).Orderly pane :=
        orderly.emitAt contained
      have travelsOn : ∃ arrived, pane.arrival? (pane.leaving { cursor with position }) =
          some arrived := Pane.exists_arrival?_leaving contained
      have onward := inductionHypothesis orderlyAfter travelsOn
      refine traced_emitAt (arrival?_of_nextCell? found) contained
        ((Array.getElem?_eq_getElem inside).trans (congrArg some fresh)) onward.orderly
        onward.keeps onward.queue ?_
      intro final extended resolved
      rcases onward.completes final extended resolved with ⟨resumes, landings⟩
      exact ⟨fun _ => resumes, landings⟩
  | case5 tracing cursor position found cell traced outside =>
      have contained : pane.contains position = true := Pane.contains_of_firstCell? found
      refine absurd ?_ outside
      rw [orderly.full]
      refine Pane.cursorNumber_lt ?_
      change pane.contains (pane.tracedAt { cursor with position }).position = true
      rw [Pane.position_tracedAt]
      exact contained

section TakeUp

variable {path : PendingPath} {later : List PendingPath}

theorem Orderly.takeUp (orderly : tracing.Orderly pane) (queued : tracing.pending = path :: later) :
    (tracing.takeUp path later).Orderly pane := by
  have labels : forall label, (tracing.takeUp path later).labels.find? label =
      if label = path.label then some tracing.code.size else tracing.labels.find? label :=
    Table.find?_insert tracing.labels path.label tracing.code.size
  have distinct := orderly.distinct
  rw [queued, List.map_cons, List.nodup_cons] at distinct
  have first : path ∈ tracing.pending := by
    rw [queued]
    exact List.mem_cons_self ..
  refine ⟨orderly.full, ?_, ?_, distinct.2⟩
  · intro label index found
    rw [labels] at found
    split at found
    · rename_i same
      rw [same]
      exact (orderly.queued path first).1
    · exact orderly.bound label index found
  · intro other member
    have otherQueued : other ∈ tracing.pending := by
      rw [queued]
      exact List.mem_cons_of_mem _ member
    rcases orderly.queued other otherQueued with ⟨less, unbound, arrives⟩
    refine ⟨less, ?_, arrives⟩
    rw [labels, if_neg]
    · exact unbound
    · intro same
      exact distinct.1 (same ▸ List.mem_map_of_mem member)

theorem extends_takeUp (orderly : tracing.Orderly pane) (first : path ∈ tracing.pending) :
    tracing.Extends (tracing.takeUp path later) where
  code := fun _ _ => rfl
  labels := by
    intro label index found
    change (tracing.labels.insert _ _).find? label = some index
    rw [Table.find?_insert, if_neg]
    · exact found
    · rintro rfl
      rw [(orderly.queued path first).2.1] at found
      contradiction
  landings := fun _ _ found => found

end TakeUp

/-- What draining the pending paths leads to: they are all there, and all new landings are
settled. -/
structure Drained (pane : Pane) (tracing final : Tracing) : Prop where
  keeps : tracing.Extends final
  resolved : forall path, path ∈ tracing.pending -> final.Resolved pane path
  settled : forall other landing, pane.contains other.position = true ->
    final.Landed pane other landing ->
    tracing.Landed pane other landing ∨ ∃ label, final.Settled pane other landing label

/-- A trace whose pending paths were drained is complete. -/
theorem Traced.drained {cursor : Cursor} {result final : Tracing}
    (traced : Traced pane tracing cursor result) (drained : Drained pane result final) :
    final.Resumes pane cursor tracing.code.size ∧
      forall other landing, pane.contains other.position = true ->
        final.Landed pane other landing ->
        tracing.Landed pane other landing ∨ ∃ label, final.Settled pane other landing label := by
  rcases traced.completes final drained.keeps drained.resolved with ⟨resumes, landings⟩
  refine ⟨resumes, ?_⟩
  intro other landing cell landed
  rcases drained.settled other landing cell landed with known | settled
  · exact landings other landing cell known
  · exact Or.inr settled

theorem drained_drain (pane : Pane) (tracing : Tracing) (orderly : tracing.Orderly pane) :
    Drained pane tracing (drain pane tracing) := by
  fun_induction drain pane tracing with
  | case1 tracing queued =>
      refine ⟨.refl _, ?_, fun _ _ _ landed => Or.inl landed⟩
      intro path member
      rw [queued] at member
      contradiction
  | case2 tracing path later queued inductionHypothesis =>
      have first : path ∈ tracing.pending := by
        rw [queued]
        exact List.mem_cons_self ..
      have traced := traced_trace pane (tracing.takeUp path later) path.cursor
        (orderly.takeUp queued) (orderly.queued path first).2.2
      have drained := inductionHypothesis traced.orderly
      rcases traced.drained drained with ⟨resumes, settled⟩
      have keptSinceTakeUp := traced.keeps.trans drained.keeps
      refine ⟨(extends_takeUp orderly first).trans keptSinceTakeUp, ?_, settled⟩
      intro other member
      rw [queued] at member
      rcases List.mem_cons.mp member with rfl | memberLater
      · refine ⟨tracing.code.size, keptSinceTakeUp.labels _ _ ?_, resumes⟩
        change (tracing.labels.insert _ _).find? _ = _
        rw [Table.find?_insert, if_pos rfl]
      · exact drained.resolved other (traced.queue other memberLater)

theorem orderly_start (pane : Pane) : (start pane).Orderly pane where
  full := by simp [start]
  bound := by
    intro label index found
    simp [start] at found
  queued := by
    intro path member
    simp [start] at member
  distinct := by simp [start]

/-- The tracing of a whole pane has what its start does at index zero, and every cell that
was traced is settled. -/
theorem complete_drain {pane : Pane} (nonempty : pane.isEmpty = false) :
    (drain pane (trace pane (start pane) Pane.origin)).Resumes pane Pane.origin 0 ∧
      forall other landing, pane.contains other.position = true ->
        (drain pane (trace pane (start pane) Pane.origin)).Landed pane other landing ->
        ∃ label, (drain pane (trace pane (start pane) Pane.origin)).Settled pane other landing
          label := by
  have travels : ∃ arrived, pane.arrival? Pane.origin = some arrived :=
    Pane.exists_arrival?_of_nextCell? (Pane.exists_nextCell? _ (Pane.onLine_origin nonempty))
  have traced := traced_trace pane (start pane) Pane.origin (orderly_start pane) travels
  rcases traced.drained (drained_drain pane _ traced.orderly) with ⟨resumes, settled⟩
  refine ⟨resumes, ?_⟩
  intro other landing cell landed
  rcases settled other landing cell landed with known | done
  · simp [Landed, start, Array.getElem?_replicate] at known
  · exact done

end Tracing
end HangulPane
