import HangulPane.Program.Blocks
import HangulPane.Proofs.Machine.Reindex

namespace HangulPane

/-!
Moving blocks keeps the behaviour.

A move changes the order of the instructions and leaves out one jump.  Control that
falls through does so inside one of the parts that keep their order: what stands in
front of each gap is a jump.  Control that went to the removed jump goes to the start
of the block at once, which is where the jump led.
-/

/-- The place of a number among successive ones. -/
theorem idxOf_range' {first count number : Nat} (above : first ≤ number)
    (below : number < first + count) : (List.range' first count).idxOf number = number - first := by
  induction count generalizing first with
  | zero => omega
  | succ count inductionHypothesis =>
      rw [List.range'_succ, List.idxOf_cons]
      by_cases here : first = number
      · simp [here]
      · have later : (List.range' (first + 1) count).idxOf number = number - (first + 1) :=
          inductionHypothesis (by omega) (by omega)
        rw [beq_eq_false_iff_ne.mpr here, cond_false, later]
        omega

theorem idxOf_range'_append {first count number : Nat} (above : first ≤ number)
    (below : number < first + count) (later : List Nat) :
    (List.range' first count ++ later).idxOf number = number - first := by
  rw [List.idxOf_append, if_pos (List.mem_range'_1.mpr ⟨above, below⟩), idxOf_range' above below]

theorem idxOf_append_of_outside {first count number : Nat}
    (outside : number < first ∨ first + count ≤ number) (later : List Nat) :
    (List.range' first count ++ later).idxOf number = later.idxOf number + count := by
  have missing : number ∉ List.range' first count := by
    rw [List.mem_range'_1]
    omega
  rw [List.idxOf_append, if_neg missing, List.length_range']

/-- The entry at an index of a list from which nothing is filtered out. -/
theorem getElem?_filterMap_of_isSome {α β : Type} (f : α -> Option β) (values : List α)
    (kept : forall value, value ∈ values -> (f value).isSome = true) (index : Nat) :
    (values.filterMap f)[index]? = values[index]?.bind f := by
  induction values generalizing index with
  | nil => simp
  | cons value later inductionHypothesis =>
      rcases Option.isSome_iff_exists.mp (kept value (List.mem_cons_self ..)) with ⟨image, found⟩
      rw [List.filterMap_cons_some found]
      cases index with
      | zero => simp [found]
      | succ index =>
          simpa using inductionHypothesis
            (fun value member => kept value (List.mem_cons_of_mem _ member)) index

namespace Program
namespace Block

variable {size : Nat}

/-- The new index of an instruction that is not the removed jump. -/
def place (block : Block size) (index : Nat) : Nat :=
  if block.stop < block.entry then
    if index < block.start then index
    else if index ≤ block.stop then index + (block.entry - (block.stop + 1))
    else if index < block.entry then index - (block.stop + 1 - block.start)
    else index - 1
  else
    if index < block.entry then index
    else if index < block.start then index + (block.stop - block.start)
    else if index ≤ block.stop then index - block.start + block.entry
    else index - 1

section Behind

variable (block : Block size) {index : Nat} (behind : block.stop < block.entry)
include behind

theorem place_front (front : index < block.start) : block.place index = index := by
  rw [place, if_pos behind, if_pos front]

theorem place_inside (started : block.start ≤ index) (unfinished : index ≤ block.stop) :
    block.place index = index + (block.entry - (block.stop + 1)) := by
  rw [place, if_pos behind, if_neg (Nat.not_lt_of_le started), if_pos unfinished]

theorem place_between (after : block.stop < index) (before : index < block.entry) :
    block.place index = index - (block.stop + 1 - block.start) := by
  have apart := block.apart
  rw [place, if_pos behind, if_neg (by omega), if_neg (Nat.not_le_of_lt after), if_pos before]

theorem place_rest (rest : block.entry < index) : block.place index = index - 1 := by
  have apart := block.apart
  rw [place, if_pos behind, if_neg (by omega), if_neg (by omega), if_neg (by omega)]

/-- The place of an instruction in the new order when its block moves to a later jump. -/
theorem idxOf_order_of_behind (inside : index < size) (other : index ≠ block.entry) :
    block.order.idxOf index = block.place index := by
  have apart := block.apart
  have parts : index < block.start ∨ (block.start ≤ index ∧ index ≤ block.stop) ∨
      (block.stop < index ∧ index < block.entry) ∨ block.entry < index := by omega
  simp only [order, if_pos behind, List.append_assoc]
  rcases parts with front | ⟨started, unfinished⟩ | ⟨after, before⟩ | rest
  · rw [block.place_front behind front, idxOf_range'_append (Nat.zero_le index) (by omega)]
    rfl
  · rw [block.place_inside behind started unfinished, idxOf_append_of_outside (by omega),
      idxOf_append_of_outside (by omega), idxOf_range'_append started (by omega)]
    omega
  · rw [block.place_between behind after before, idxOf_append_of_outside (by omega),
      idxOf_range'_append after (by omega)]
    omega
  · rw [block.place_rest behind rest, idxOf_append_of_outside (by omega),
      idxOf_append_of_outside (by omega), idxOf_append_of_outside (by omega),
      idxOf_range' rest (by omega)]
    omega

theorem place_succ_of_behind (notEntry : index ≠ block.entry) (notStop : index ≠ block.stop)
    (notBefore : index + 1 ≠ block.start) (notEntered : index + 1 ≠ block.entry) :
    block.place (index + 1) = block.place index + 1 := by
  have apart := block.apart
  have parts : index + 1 < block.start ∨ (block.start ≤ index ∧ index + 1 ≤ block.stop) ∨
      (block.stop < index ∧ index + 1 < block.entry) ∨ block.entry < index := by omega
  rcases parts with front | ⟨started, unfinished⟩ | ⟨after, before⟩ | rest
  · rw [block.place_front behind front, block.place_front behind (Nat.lt_of_succ_lt front)]
  · rw [block.place_inside behind (Nat.le_succ_of_le started) unfinished,
      block.place_inside behind started (Nat.le_of_succ_le unfinished)]
    omega
  · rw [block.place_between behind (Nat.lt_succ_of_lt after) before,
      block.place_between behind after (Nat.lt_of_succ_lt before)]
    omega
  · rw [block.place_rest behind (Nat.lt_succ_of_lt rest), block.place_rest behind rest]
    omega

end Behind

section Ahead

variable (block : Block size) {index : Nat} (ahead : ¬ block.stop < block.entry)
include ahead

theorem place_front_of_ahead (front : index < block.entry) : block.place index = index := by
  rw [place, if_neg ahead, if_pos front]

theorem place_between_of_ahead (after : block.entry < index) (before : index < block.start) :
    block.place index = index + (block.stop - block.start) := by
  rw [place, if_neg ahead, if_neg (Nat.lt_asymm after), if_pos before]

theorem place_inside_of_ahead (started : block.start ≤ index) (unfinished : index ≤ block.stop) :
    block.place index = index - block.start + block.entry := by
  have apart := block.apart
  rw [place, if_neg ahead, if_neg (by omega), if_neg (Nat.not_lt_of_le started),
    if_pos unfinished]

theorem place_rest_of_ahead (rest : block.stop < index) : block.place index = index - 1 := by
  have apart := block.apart
  rw [place, if_neg ahead, if_neg (by omega), if_neg (by omega), if_neg (by omega)]

/-- The place of an instruction in the new order when its block moves to an earlier jump. -/
theorem idxOf_order_of_ahead (inside : index < size) (other : index ≠ block.entry) :
    block.order.idxOf index = block.place index := by
  have apart := block.apart
  have parts : index < block.entry ∨ (block.entry < index ∧ index < block.start) ∨
      (block.start ≤ index ∧ index ≤ block.stop) ∨ block.stop < index := by omega
  simp only [order, if_neg ahead, List.append_assoc]
  rcases parts with front | ⟨after, before⟩ | ⟨started, unfinished⟩ | rest
  · rw [block.place_front_of_ahead ahead front,
      idxOf_range'_append (Nat.zero_le index) (by omega)]
    rfl
  · rw [block.place_between_of_ahead ahead after before, idxOf_append_of_outside (by omega),
      idxOf_append_of_outside (by omega), idxOf_range'_append after (by omega)]
    omega
  · rw [block.place_inside_of_ahead ahead started unfinished,
      idxOf_append_of_outside (by omega), idxOf_range'_append started (by omega)]
    omega
  · rw [block.place_rest_of_ahead ahead rest, idxOf_append_of_outside (by omega),
      idxOf_append_of_outside (by omega), idxOf_append_of_outside (by omega),
      idxOf_range' rest (by omega)]
    omega

theorem place_succ_of_ahead (notEntry : index ≠ block.entry) (notStop : index ≠ block.stop)
    (notBefore : index + 1 ≠ block.start) (notEntered : index + 1 ≠ block.entry) :
    block.place (index + 1) = block.place index + 1 := by
  have apart := block.apart
  have parts : index + 1 < block.entry ∨ (block.entry < index ∧ index + 1 < block.start) ∨
      (block.start ≤ index ∧ index + 1 ≤ block.stop) ∨ block.stop < index := by omega
  rcases parts with front | ⟨after, before⟩ | ⟨started, unfinished⟩ | rest
  · rw [block.place_front_of_ahead ahead front,
      block.place_front_of_ahead ahead (Nat.lt_of_succ_lt front)]
  · rw [block.place_between_of_ahead ahead (Nat.lt_succ_of_lt after) before,
      block.place_between_of_ahead ahead after (Nat.lt_of_succ_lt before)]
    omega
  · rw [block.place_inside_of_ahead ahead (Nat.le_succ_of_le started) unfinished,
      block.place_inside_of_ahead ahead started (Nat.le_of_succ_le unfinished)]
    omega
  · rw [block.place_rest_of_ahead ahead (Nat.lt_succ_of_lt rest),
      block.place_rest_of_ahead ahead rest]
    omega

end Ahead

theorem idxOf_order (block : Block size) {index : Nat} (inside : index < size)
    (other : index ≠ block.entry) : block.order.idxOf index = block.place index := by
  by_cases behind : block.stop < block.entry
  · exact block.idxOf_order_of_behind behind inside other
  · exact block.idxOf_order_of_ahead behind inside other

theorem length_order (block : Block size) : block.order.length = size - 1 := by
  have apart := block.apart
  unfold order
  split <;> simp only [List.length_append, List.length_range'] <;> omega

theorem mem_order (block : Block size) (index : Nat) :
    index ∈ block.order <-> index < size ∧ index ≠ block.entry := by
  have apart := block.apart
  unfold order
  split <;> simp only [List.mem_append, List.mem_range'_1] <;> omega

theorem newIndex_entry (block : Block size) :
    block.newIndex block.entry = block.newIndex block.start := by
  have apart := block.apart
  have different : block.start ≠ block.entry := by omega
  have inside : block.start < size := by omega
  simp [newIndex, different, inside]

theorem newIndex_of_lt (block : Block size) {index : Nat} (inside : index < size)
    (other : index ≠ block.entry) : block.newIndex index = block.place index := by
  rw [newIndex, if_neg other, if_pos inside, block.idxOf_order inside other]

/-- Every index other than that of the removed jump stands at its new index in the new order. -/
theorem getElem?_order_newIndex (block : Block size) {index : Nat} (inside : index < size)
    (other : index ≠ block.entry) : block.order[block.newIndex index]? = some index := by
  have member : index ∈ block.order := (block.mem_order index).mpr ⟨inside, other⟩
  rw [newIndex, if_neg other, if_pos inside,
    List.getElem?_eq_getElem (List.idxOf_lt_length_of_mem member)]
  exact congrArg some (List.getElem_idxOf _)

theorem newIndex_of_ge (block : Block size) {index : Nat} (outside : size ≤ index) :
    block.newIndex index = size - 1 := by
  have apart := block.apart
  rw [newIndex, if_neg (by omega), if_neg (by omega), length_order]

/-- Inside each part that keeps its order, places follow each other. -/
theorem place_succ (block : Block size) {index : Nat} (notEntry : index ≠ block.entry)
    (notStop : index ≠ block.stop) (notBefore : index + 1 ≠ block.start)
    (notEntered : index + 1 ≠ block.entry) : block.place (index + 1) = block.place index + 1 := by
  by_cases behind : block.stop < block.entry
  · exact block.place_succ_of_behind behind notEntry notStop notBefore notEntered
  · exact block.place_succ_of_ahead behind notEntry notStop notBefore notEntered

/-- The last instruction that stays has the last place. -/
theorem place_last (block : Block size) {index : Nat} (last : index + 1 = size)
    (notEntry : index ≠ block.entry) (notStop : index ≠ block.stop) :
    block.place index + 1 = size - 1 := by
  have apart := block.apart
  by_cases behind : block.stop < block.entry
  · rw [block.place_rest behind (by omega)]
    omega
  · rw [block.place_rest_of_ahead behind (by omega)]
    omega

/-- The block goes where the removed jump was, behind the instruction before it. -/
theorem place_start (block : Block size) {index : Nat} (entered : index + 1 = block.entry)
    (notStop : index ≠ block.stop) : block.place block.start = block.place index + 1 := by
  have apart := block.apart
  by_cases behind : block.stop < block.entry
  · rw [block.place_inside behind (Nat.le_refl _) (by omega),
      block.place_between behind (by omega) (by omega)]
    omega
  · rw [block.place_inside_of_ahead behind (Nat.le_refl _) (by omega),
      block.place_front_of_ahead behind (by omega)]
    omega

/-- Where control falls through, the new indices follow each other as the old ones do. -/
theorem newIndex_succ (block : Block size) {index : Nat} (inside : index < size)
    (notEntry : index ≠ block.entry) (notStop : index ≠ block.stop)
    (notBefore : index + 1 ≠ block.start) :
    block.newIndex (index + 1) = block.newIndex index + 1 := by
  have apart := block.apart
  rw [block.newIndex_of_lt inside notEntry]
  by_cases last : index + 1 = size
  · rw [block.newIndex_of_ge (Nat.le_of_eq last.symm)]
    exact (block.place_last last notEntry notStop).symm
  · by_cases entered : index + 1 = block.entry
    · rw [entered, newIndex_entry, block.newIndex_of_lt (by omega) (by omega)]
      exact block.place_start entered notStop
    · rw [block.newIndex_of_lt (by omega) entered]
      exact block.place_succ notEntry notStop notBefore entered

end Block

theorem isSome_of_mem_order (program : Program) (block : Block program.size) (index : Nat)
    (listed : index ∈ block.order) : (program.code[index]?).isSome = true :=
  Option.isSome_iff_exists.mpr
    ⟨_, Array.getElem?_eq_getElem ((block.mem_order index).mp listed).1⟩

/-- The instruction at an index is the one that stood at the old index in its place. -/
theorem getElem?_relocate (program : Program) (block : Block program.size) (index : Nat) :
    (program.relocate block).code[index]? =
      block.order[index]?.bind fun old => program.code[old]? := by
  simp only [relocate, List.getElem?_toArray]
  exact getElem?_filterMap_of_isSome _ _ (program.isSome_of_mem_order block) index

/-- Every instruction other than the removed jump is found at its new index. -/
theorem getElem?_code_relocate (program : Program) (block : Block program.size) {index : Nat}
    (inside : index < program.size) (other : index ≠ block.entry) :
    (program.relocate block).code[block.newIndex index]? = program.code[index]? := by
  rw [getElem?_relocate, block.getElem?_order_newIndex inside other, Option.bind_some]

theorem size_relocate (program : Program) (block : Block program.size) :
    (program.relocate block).size = program.size - 1 := by
  change (block.order.filterMap fun index => program.code[index]?).length = program.size - 1
  rw [List.length_filterMap_eq_countP,
    List.countP_eq_length.mpr (program.isSome_of_mem_order block), block.length_order]

theorem exists_of_jumpDestination? {program : Program} {index destination : Nat}
    (found : program.jumpDestination? index = some destination) :
    ∃ label, program.code[index]? = some (.jmp label) ∧ program.target label = destination := by
  unfold jumpDestination? at found
  split at found
  · rename_i label fetched
    exact ⟨label, fetched, Option.some.inj found⟩
  · contradiction

theorem jumpDestination?_of_jmp {program : Program} {index label : Nat}
    (fetched : program.code[index]? = some (.jmp label)) :
    program.jumpDestination? index = some (program.target label) := by
  rw [jumpDestination?, fetched]

/-- What is known of a block that can be moved. -/
structure Movable (program : Program) (block : Block program.size) : Prop where
  entered : program.jumpDestination? block.entry = some block.start
  fenced : (program.jumpDestination? (block.start - 1)).isSome = true
  closed : (program.jumpDestination? block.stop).isSome = true
  positive : 0 < block.start

section Search

variable {program : Program} {labels : Table} {comments : Option (Array (List String))}
  (same : forall index, Program.jumpDestination? { program with labels, comments } index =
    program.jumpDestination? index)
include same

theorem jumpsTo_congr (destination : Nat) :
    Program.jumpsTo { program with labels, comments } destination =
      program.jumpsTo destination := by
  simp only [jumpsTo, same]
  rfl

theorem closingJump?_congr (indices : List Nat) :
    Program.closingJump? { program with labels, comments } indices =
      program.closingJump? indices := by
  induction indices with
  | nil => rfl
  | cons index later inductionHypothesis =>
      rw [closingJump?, closingJump?, same, jumpsTo_congr same, inductionHypothesis]
      rfl

theorem blockAt?_congr (start : Nat) :
    Program.blockAt? { program with labels, comments } start = program.blockAt? start := by
  unfold blockAt?
  rw [jumpsTo_congr same, same, closingJump?_congr same]
  rfl

/-- The search for a block depends on the instructions and on where the jumps lead, not on
labels or comments as such. -/
theorem movableBlock?_congr :
    Program.movableBlock? { program with labels, comments } = program.movableBlock? := by
  have everywhere : Program.blockAt? { program with labels, comments } = program.blockAt? :=
    funext (blockAt?_congr same)
  unfold movableBlock?
  rw [everywhere]
  rfl

end Search

theorem jump_of_closingJump? {program : Program} {indices : List Nat} {stop : Nat}
    (found : program.closingJump? indices = some stop) :
    (program.jumpDestination? stop).isSome = true := by
  induction indices with
  | nil => contradiction
  | cons index later inductionHypothesis =>
      rw [closingJump?] at found
      split at found
      · rename_i jump
        cases found
        exact jump
      · split at found
        · contradiction
        · exact inductionHypothesis found

theorem movable_of_blockAt? {program : Program} {start : Nat} (positive : 0 < start)
    {block : Block program.size} (found : program.blockAt? start = some block) :
    program.Movable block := by
  unfold blockAt? at found
  split at found
  · rename_i entry single
    split at found
    · rename_i fenced
      split at found
      · contradiction
      · rename_i stop closing
        split at found
        · cases found
          have listed : entry ∈ program.jumpsTo start := by simp [single]
          have entered : program.jumpDestination? entry = some start := by
            simpa [jumpsTo] using (List.mem_filter.mp listed).2
          exact ⟨entered, fenced, jump_of_closingJump? closing, positive⟩
        · contradiction
    · contradiction
  · contradiction

theorem movable_of_movableBlock? {program : Program} {block : Block program.size}
    (found : program.movableBlock? = some block) : program.Movable block := by
  rcases List.exists_of_findSome?_eq_some found with ⟨start, listed, here⟩
  have positive : 0 < start := by
    have range := List.mem_range'_1.mp listed
    omega
  exact movable_of_blockAt? positive here

/-- What a label stands for after a move: the new index of what it stood for. -/
theorem target_relocate (program : Program) (block : Block program.size) (label : Nat) :
    (program.relocate block).target label = block.newIndex (program.target label) := by
  unfold target
  rw [program.size_relocate block]
  change ((program.labels.mapValues block.newIndex).find? label).getD (program.size - 1) = _
  rw [Table.find?_mapValues]
  cases program.labels.find? label with
  | none => exact (block.newIndex_of_ge (Nat.le_refl _)).symm
  | some index => rfl

theorem Movable.start_before {program : Program} {block : Block program.size}
    (movable : program.Movable block) {index : Nat} (before : index + 1 = block.start) :
    (program.jumpDestination? index).isSome = true := by
  have fenced := movable.fenced
  rwa [show block.start - 1 = index by omega] at fenced

/-- An unconditional jump does not fall through. -/
theorem fallsThrough_of_jump {program : Program} {index : Nat} {instruction : Instruction}
    (fetched : program.code[index]? = some instruction)
    (jump : (program.jumpDestination? index).isSome = true) :
    instruction.fallsThrough = false := by
  rcases Option.isSome_iff_exists.mp jump with ⟨destination, found⟩
  rcases exists_of_jumpDestination? found with ⟨label, here, _⟩
  rw [fetched] at here
  cases here
  rfl

/-- Moving a block keeps the behaviour. -/
theorem sameBehaviour_relocate {N : Type} [Number N] {program : Program}
    {block : Block program.size} (movable : program.Movable block) :
    SameBehaviour N program (program.relocate block) := by
  have apart := block.apart
  refine .of_reindexing (fun _ => True) (fun index other => other = block.newIndex index)
    (fun index _ => if index = block.entry then 1 else 0) (fun _ _ _ _ _ _ _ => trivial) ?_
    trivial ?_
  · rintro machine _ _ rfl
    by_cases entry : machine.index = block.entry
    · rcases exists_of_jumpDestination? movable.entered with ⟨label, fetched, leads⟩
      refine .passed block.start ?_ ?_ ?_
      · refine Machine.silently_jmp ?_
        rw [getElem?_linked, entry, fetched, ← leads]
        rfl
      · rw [entry, block.newIndex_entry]
      · rw [if_pos entry, if_neg (by omega)]
        exact Nat.zero_lt_one
    · by_cases inside : machine.index < program.size
      · have fetched : program.code[machine.index]? = some program.code[machine.index] :=
          Array.getElem?_eq_getElem inside
        have relocated := program.getElem?_code_relocate block inside entry
        refine .same program.code[machine.index] program.target (program.relocate block).target
          ?_ ?_ ?_
        · simp [getElem?_linked, fetched]
        · simp [getElem?_linked, relocated, fetched]
        · rintro leftNext rightNext (⟨falls, rfl, rfl⟩ | ⟨label, _, rfl, rfl⟩)
          · refine (block.newIndex_succ inside entry ?_ ?_).symm
            · intro stop
              have jump := movable.closed
              rw [← stop] at jump
              simp [fallsThrough_of_jump fetched jump] at falls
            · intro before
              have jump := movable.start_before before
              simp [fallsThrough_of_jump fetched jump] at falls
          · exact program.target_relocate block label
      · have outside : program.size ≤ machine.index := Nat.le_of_not_lt inside
        have leftOver : program.code[machine.index]? = none := Array.getElem?_eq_none outside
        have rightOver : (program.relocate block).code[block.newIndex machine.index]? = none := by
          rw [block.newIndex_of_ge outside, ← program.size_relocate block]
          exact Array.getElem?_eq_none (Nat.le_refl _)
        exact .past (by simp [getElem?_linked, leftOver]) (by simp [getElem?_linked, rightOver])
  · by_cases entry : 0 = block.entry
    · rw [entry, block.newIndex_entry, block.newIndex_of_lt (by omega) (by omega)]
      unfold Block.place
      repeat' split
      all_goals omega
    · have positive := movable.positive
      rw [block.newIndex_of_lt (by omega) entry]
      unfold Block.place
      repeat' split
      all_goals omega

theorem sameBehaviour_moveBlocks {N : Type} [Number N] (program : Program) :
    SameBehaviour N program program.moveBlocks := by
  induction program using moveBlocks.induct with
  | case1 program none_movable =>
      rw [moveBlocks, none_movable]
      exact .refl program
  | case2 program block found inductionHypothesis =>
      rw [moveBlocks, found]
      exact (sameBehaviour_relocate (movable_of_movableBlock? found)).trans inductionHypothesis

/-- A label that an instruction refers to stands for the same index without the others. -/
theorem target_removeUnusedLabels (program : Program) {label : Nat}
    (referred : label ∈ program.referredLabels) :
    program.removeUnusedLabels.target label = program.target label := by
  unfold target
  rw [removeUnusedLabels, Table.find?_filterKeys program.labels _
    (List.contains_iff_mem.mpr referred)]
  rfl

/-- Labels that no instruction refers to do not matter. -/
theorem linked_removeUnusedLabels (program : Program) :
    program.removeUnusedLabels.linked = program.linked := by
  unfold linked
  apply Array.map_congr_left
  intro instruction member
  have kept : forall label, instruction.label? = some label ->
      program.removeUnusedLabels.target label = program.target label := by
    intro label labelled
    exact program.target_removeUnusedLabels
      (List.mem_filterMap.mpr ⟨instruction, Array.mem_toList_iff.mpr member, labelled⟩)
  cases instruction with
  | brz label | brPop1 label | brPop2 label | jmp label =>
      exact congrArg _ (kept label rfl)
  | _ => rfl

/-- Moving blocks keeps the behaviour. -/
theorem sameBehaviour_reorderBlocks {N : Type} [Number N] (program : Program) :
    SameBehaviour N program program.reorderBlocks :=
  program.sameBehaviour_moveBlocks.trans
    (.of_linked_eq program.moveBlocks.linked_removeUnusedLabels.symm)

end Program
end HangulPane
