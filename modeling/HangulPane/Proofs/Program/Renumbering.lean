import HangulPane.Proofs.Program.Reachability

namespace HangulPane
namespace Program

/-!
Compaction renumbers exactly.

The survivors are listed in order, and the place of an index in that list is its new number.
Jumps, labels and comments are all described through the list: a jump lands on the first
survivor at or after its old target, the labels are those of the survivors in the order in
which they are first met, and a survivor takes over the comments of all that was deleted
between the survivor before it and itself.
-/

/-- The place, in a list of indices, of the first one at or after a target; the end of the list
if there is none. -/
inductive FirstFrom (kept : List Nat) (target : Nat) : Nat -> Prop where
  | survivor {place index : Nat} (there : kept[place]? = some index) (after : target ≤ index)
      (first : forall other, other ∈ kept -> target ≤ other -> index ≤ other) :
      FirstFrom kept target place
  | past (before : forall index, index ∈ kept -> index < target) :
      FirstFrom kept target kept.length

/-- The index directly after what stands before a place in a list of indices; nothing stands
before the first place, so that a start has to be given for it. -/
def stretchStart (start : Nat) (kept : List Nat) : Nat -> Nat
  | 0 => start
  | place + 1 => kept[place]?.getD 0 + 1

/-- The comments of the instructions from one index to another, in order. -/
def commentsFrom (program : Program) (first last : Nat) : List String :=
  (List.range' first (last + 1 - first)).flatMap program.commentsAt

/-- Whether a program is another one without the instructions that are not alive, where `kept`
lists the indices that the instructions had. -/
structure Renumbers (program : Program) (live : Array Bool) (kept : List Nat)
    (result : Program) : Prop where
  increasing : kept.Pairwise (fun earlier later => earlier < later)
  survivors : forall index, index ∈ kept <-> index < program.size ∧ live[index]? = some true
  size : result.size = kept.length
  code : forall place index : Nat, kept[place]? = some index ->
    result.code[place]? = program.code[index]?
  jumps : forall place index target : Nat, kept[place]? = some index ->
    program.jumpTarget? index = some target ->
    ∃ landing, result.jumpTarget? place = some landing ∧ FirstFrom kept target landing
  labels : result.labels.keys =
    (kept.filterMap fun index => program.code[index]?.bind Instruction.label?).eraseDups
  comments : forall recorded, program.comments = some recorded ->
    ∃ gathered, result.comments = some gathered ∧ gathered.size = kept.length ∧
      forall place index : Nat, kept[place]? = some index ->
        gathered[place]? = some (program.commentsFrom (stretchStart 0 kept place) index)
  uncommented : program.comments = none -> result.comments = none

section Places

variable {live : Array Bool}

theorem isAlive_iff {index : Nat} : isAlive live index = true <-> live[index]? = some true := by
  unfold isAlive
  cases live[index]? with
  | none => simp
  | some alive => simp

theorem survivorsBefore_lt {index bound : Nat} (alive : isAlive live index = true)
    (below : index < bound) : survivorsBefore live index < survivorsBefore live bound := by
  have counted := survivorsBefore_le live (Nat.succ_le_of_lt below)
  rw [survivorsBefore_succ, if_pos alive] at counted
  exact counted

variable {program : Program}

theorem mem_survivors {index : Nat} :
    index ∈ program.survivors live <-> index < program.size ∧ isAlive live index = true := by
  rw [survivors, List.mem_filter, List.mem_range]

theorem length_survivors :
    (program.survivors live).length = survivorsBefore live program.size :=
  List.countP_eq_length_filter.symm

/-- The place of a survivor in the list is the number of survivors before it. -/
theorem getElem?_survivors_iff {place index : Nat} :
    (program.survivors live)[place]? = some index <->
      index < program.size ∧ isAlive live index = true ∧ survivorsBefore live index = place := by
  constructor
  · intro there
    rcases mem_survivors.mp (List.mem_of_getElem? there) with ⟨inside, alive⟩
    have counted : (program.survivors live)[survivorsBefore live index]? = some index :=
      getElem?_filter_range alive inside
    have listed := (List.getElem?_eq_some_iff.mp counted).1
    have distinct : (program.survivors live).Nodup := List.nodup_range.filter _
    exact ⟨inside, alive, (List.getElem?_inj listed distinct).mp (counted.trans there.symm)⟩
  · rintro ⟨inside, alive, rfl⟩
    exact getElem?_filter_range alive inside

/-- The number of survivors before a target is the place of the first one from there on. -/
theorem firstFrom_survivorsBefore (target : Nat) :
    FirstFrom (program.survivors live) target
      (survivorsBefore live (min target program.size)) := by
  by_cases taken : survivorsBefore live (min target program.size) <
      survivorsBefore live program.size
  · rcases exists_survivor live taken with ⟨index, inside, alive, standing⟩
    refine .survivor (getElem?_survivors_iff.mpr ⟨inside, alive, standing⟩) ?_ ?_
    · -- A survivor before the target would be counted.
      refine Nat.le_of_not_lt fun before => ?_
      have counted := survivorsBefore_lt alive (Nat.lt_min.mpr ⟨before, inside⟩)
      omega
    · intro other listed after
      refine Nat.le_of_not_lt fun before => ?_
      have otherAlive := (mem_survivors.mp listed).2
      have counted := survivorsBefore_lt otherAlive before
      have least := survivorsBefore_le live
        (Nat.le_trans (Nat.min_le_left target program.size) after)
      omega
  · have most := survivorsBefore_le live (Nat.min_le_right target program.size)
    have all : survivorsBefore live (min target program.size) =
        (program.survivors live).length := by
      rw [length_survivors]
      omega
    rw [all]
    refine .past ?_
    intro index listed
    refine Nat.lt_of_not_le fun after => ?_
    rcases mem_survivors.mp listed with ⟨inside, alive⟩
    have counted := survivorsBefore_lt alive inside
    have least := survivorsBefore_le live
      (Nat.le_trans (Nat.min_le_left target program.size) after)
    omega

end Places

/-- Entering keys one after another adds those that are new, each where it is first met. -/
theorem keys_foldl_insert (value : Nat -> Nat) (keys : List Nat) (table : Table) :
    (keys.foldl (fun table key => table.insert key (value key)) table).keys =
      table.keys ++ (keys.filter fun key => !decide (key ∈ table.keys)).eraseDups := by
  induction keys generalizing table with
  | nil => simp
  | cons key later inductionHypothesis =>
      rw [List.foldl_cons, inductionHypothesis, Table.keys_insert]
      by_cases known : key ∈ table.keys
      · simp [known]
      · have others : (later.filter fun other => !decide (other ∈ table.keys ++ [key])) =
            (later.filter fun other => !decide (other ∈ table.keys)).filter
              fun other => !other == key := by
          rw [List.filter_filter]
          refine List.filter_congr fun other _ => ?_
          by_cases same : other = key
          · simp [same]
          · simp [same]
        rw [if_neg known, others, List.filter_cons_of_pos (by simpa using known),
          List.eraseDups_cons, List.append_assoc]
        rfl

theorem keys_compact (program : Program) (live : Array Bool) :
    (program.compact live).labels.keys =
      ((program.survivors live).filterMap
        fun index => program.code[index]?.bind Instruction.label?).eraseDups := by
  have entered : (program.compact live).labels.keys = _ :=
    keys_foldl_insert (program.compactedTarget live)
      ((program.survivingCode live).filterMap Instruction.label?) Table.empty
  have fresh : Table.empty.keys = [] := rfl
  rw [entered, fresh, List.filter_eq_self.mpr (by simp), survivingCode, List.filterMap_filterMap]
  rfl

section Comments

variable (program : Program) (live : Array Bool)

theorem commentsFrom_self (index : Nat) :
    program.commentsFrom index index = program.commentsAt index := by
  simp [commentsFrom]

/-- The comments from an index on begin with those of that index. -/
theorem commentsFrom_succ {first last : Nat} (before : first < last) :
    program.commentsAt first ++ program.commentsFrom (first + 1) last =
      program.commentsFrom first last := by
  have length : last + 1 - first = last + 1 - (first + 1) + 1 := by omega
  rw [commentsFrom, commentsFrom, length, List.range'_succ, List.flatMap_cons]

/-- A survivor gathers the comments from directly after the survivor before it; the first one
also takes what is carried along.  The induction is on the instructions that are left. -/
theorem getElem?_gatherComments (count : Nat) :
    forall (start : Nat) (carried : List String) (place index : Nat),
      ((List.range' start count).filter (isAlive live))[place]? = some index ->
      (gatherComments program live carried (List.range' start count))[place]? =
        some ((if place = 0 then carried else []) ++ program.commentsFrom
          (stretchStart start ((List.range' start count).filter (isAlive live)) place)
          index) := by
  induction count with
  | zero =>
      intro start carried place index there
      simp at there
  | succ count inductionHypothesis =>
      intro start carried place index there
      rw [List.range'_succ] at there ⊢
      rw [gatherComments]
      cases alive : isAlive live start with
      | true =>
          rw [List.filter_cons_of_pos alive] at there ⊢
          cases place with
          | zero =>
              cases there
              simp [stretchStart, commentsFrom_self]
          | succ place =>
              have later := inductionHypothesis (start + 1) [] place index there
              -- The stretch of the next survivor starts directly after this one.
              have sameStart : stretchStart start
                  (start :: (List.range' (start + 1) count).filter (isAlive live)) (place + 1) =
                  stretchStart (start + 1)
                    ((List.range' (start + 1) count).filter (isAlive live)) place := by
                cases place <;> rfl
              simpa [sameStart] using later
      | false =>
          rw [List.filter_cons_of_neg (by simp [alive])] at there ⊢
          have later := inductionHypothesis (start + 1) (carried ++ program.commentsAt start)
            place index there
          cases place with
          | zero =>
              have listed := (List.mem_filter.mp (List.mem_of_getElem? there)).1
              have after : start < index := (List.mem_range'_1.mp listed).1
              simpa [stretchStart, ← program.commentsFrom_succ after] using later
          | succ place => simpa [stretchStart] using later

end Comments

/-- Compaction leaves the survivors in order, sends each of their jumps to the first survivor at
or after its old target, binds exactly their labels in order of first use, and gives each of
them the comments from directly after the survivor before it up to its own. -/
theorem compact_renumbers (program : Program) (live : Array Bool) :
    ∃ kept, program.Renumbers live kept (program.compact live) := by
  refine ⟨program.survivors live, ?_⟩
  have code : forall place index : Nat, (program.survivors live)[place]? = some index ->
      (program.compact live).code[place]? = program.code[index]? := by
    intro place index there
    rcases getElem?_survivors_iff.mp there with ⟨inside, alive, rfl⟩
    exact program.getElem?_code_compact live alive inside
  refine ⟨List.pairwise_lt_range.filter _, ?_, ?_, code, ?_, program.keys_compact live, ?_, ?_⟩
  · intro index
    rw [mem_survivors, isAlive_iff]
  · rw [size_compact, length_survivors]
  · intro place index target there leads
    rcases jumpTarget?_eq_some_iff.mp leads with ⟨instruction, label, fetched, labelled, rfl⟩
    have alive := (getElem?_survivors_iff.mp there).2.1
    refine ⟨_, jumpTarget?_eq_some_iff.mpr
      ⟨instruction, label, (code place index there).trans fetched, labelled, rfl⟩, ?_⟩
    rw [program.target_compact live fetched alive labelled]
    exact firstFrom_survivorsBefore _
  · intro recorded commented
    refine ⟨_, by rw [compact, commented]; rfl, ?_, ?_⟩
    · rw [List.size_toArray, length_gatherComments, length_survivors]
      rfl
    · intro place index there
      rw [survivors, List.range_eq_range'] at there
      have gathered := program.getElem?_gatherComments live program.size 0 [] place index there
      rw [List.getElem?_toArray, List.range_eq_range', gathered, survivors, List.range_eq_range']
      simp
  · intro uncommented
    rw [compact, uncommented]
    rfl

end Program
end HangulPane
