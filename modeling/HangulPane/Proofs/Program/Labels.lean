import HangulPane.Program.Basic

namespace HangulPane

/-!
Counting labels.

How many labels stand for an index, which label is the only one to stand for it and how
many instructions refer to a label are facts that folding keeps up to date while it moves
labels.  A label that is counted once belongs to one instruction, and an index that is
counted zero times is entered by no jump.
-/

/-- Giving a key that has a value another one changes the number of values with a
property by as much as the two values differ in it. -/
theorem Table.countP_putEntry (property : Nat -> Bool) {key old : Nat} (new : Nat)
    {entries : List (Nat × Nat)} (found : entries.lookup key = some old) :
    (putEntry key new entries).countP (fun entry => property entry.2) +
        (if property old then 1 else 0) =
      entries.countP (fun entry => property entry.2) + (if property new then 1 else 0) := by
  induction entries with
  | nil => simp at found
  | cons entry rest inductionHypothesis =>
      obtain ⟨entryKey, entryValue⟩ := entry
      by_cases here : key = entryKey
      · subst here
        simp only [List.lookup_cons, beq_self_eq_true, Option.some.injEq] at found
        subst found
        simp only [putEntry, if_true, List.countP_cons]
        omega
      · rw [lookup_cons_of_ne here] at found
        have later := inductionHypothesis found
        rw [putEntry, if_neg (Ne.symm here)]
        simp only [List.countP_cons]
        omega

namespace Table

theorem find?_erase (table : Table) (key other : Nat) :
    (table.erase key).find? other = if other = key then none else table.find? other := by
  split
  · rename_i same
    subst same
    cases found : (table.erase other).find? other with
    | none => rfl
    | some value =>
        have kept := (List.mem_filter.mp ((mem_entries_iff ..).mpr found)).2
        simp at kept
  · rename_i different
    exact table.find?_filterKeys _ (bne_iff_ne.mpr different)

/-- What a key has after pairs were entered is in one of them. -/
theorem mem_of_find?_ofList {pairs : List (Nat × Nat)} {key value : Nat}
    (found : (ofList pairs).find? key = some value) : (key, value) ∈ pairs := by
  have entered : forall (pairs : List (Nat × Nat)) (table : Table),
      (pairs.foldl (fun table pair => table.insert pair.1 pair.2) table).find? key = some value ->
        (key, value) ∈ pairs ∨ table.find? key = some value := by
    intro pairs
    induction pairs with
    | nil => exact fun _ found => Or.inr found
    | cons pair later inductionHypothesis =>
        intro table found
        rcases inductionHypothesis _ found with listed | before
        · exact Or.inl (List.mem_cons_of_mem _ listed)
        · rw [find?_insert] at before
          split at before
          · rename_i same
            cases before
            rw [same]
            exact Or.inl List.mem_cons_self
          · exact Or.inr before
  exact (entered pairs empty found).resolve_right (by simp)

theorem exists_find?_ofList {pairs : List (Nat × Nat)} {key value : Nat}
    (listed : (key, value) ∈ pairs) : ∃ other, (ofList pairs).find? key = some other := by
  have kept : forall (pairs : List (Nat × Nat)) (table : Table),
      ((key, value) ∈ pairs ∨ ∃ other, table.find? key = some other) ->
        ∃ other, (pairs.foldl (fun table pair => table.insert pair.1 pair.2) table).find? key =
          some other := by
    intro pairs
    induction pairs with
    | nil => exact fun _ known => known.resolve_left List.not_mem_nil
    | cons pair later inductionHypothesis =>
        intro table known
        apply inductionHypothesis
        rw [find?_insert]
        split
        · exact Or.inr ⟨_, rfl⟩
        · rename_i different
          refine known.imp_left fun listed => ?_
          rcases List.mem_cons.mp listed with rfl | later
          · exact absurd rfl different
          · exact later
  exact kept pairs empty (Or.inl listed)

end Table

namespace Program

/-- A fresh label comes after all bound ones, so it is none of them. -/
theorem lt_of_freshLabel? {program : Program} {fresh label index : Nat}
    (found : program.freshLabel? = some fresh)
    (bound : program.labels.find? label = some index) : label < fresh := by
  have listed := (program.labels.mem_keys_iff label).mpr ⟨index, bound⟩
  unfold freshLabel? at found
  split at found
  · rename_i nothing
    rw [List.max?_eq_none_iff.mp nothing] at listed
    exact absurd listed List.not_mem_nil
  · rename_i largest greatest
    have atMost := (List.max?_eq_some_iff.mp greatest).2 label listed
    split at found
    · cases found
      omega
    · cases found

/-- There is a fresh label unless the largest one is bound. -/
theorem freshLabel?_eq_none_iff (program : Program) :
    program.freshLabel? = none <->
      ∃ label index, maxIndex ≤ label ∧ program.labels.find? label = some index := by
  unfold freshLabel?
  cases greatest : program.labels.keys.max? with
  | none =>
      have nothing := List.max?_eq_none_iff.mp greatest
      constructor
      · nofun
      · rintro ⟨label, index, _, bound⟩
        have listed := (program.labels.mem_keys_iff label).mpr ⟨index, bound⟩
        rw [nothing] at listed
        exact absurd listed List.not_mem_nil
  | some largest =>
      obtain ⟨listed, atMost⟩ := List.max?_eq_some_iff.mp greatest
      obtain ⟨index, bound⟩ := (program.labels.mem_keys_iff largest).mp listed
      dsimp only
      split
      · rename_i below
        constructor
        · nofun
        · rintro ⟨label, other, large, otherBound⟩
          have bounded := atMost label ((program.labels.mem_keys_iff label).mpr ⟨other, otherBound⟩)
          omega
      · rename_i large
        exact iff_of_true rfl ⟨largest, index, Nat.not_lt.mp large, bound⟩

/-- The uses of a label that are counted are the instructions that refer to it. -/
theorem getD_find?_labelUses (program : Program) (label : Nat) :
    (program.labelUses.find? label).getD 0 = program.referredLabels.count label := by
  have counted : forall (referred : List Nat) (uses : Table),
      ((referred.foldl (fun uses label => uses.insert label ((uses.find? label).getD 0 + 1))
        uses).find? label).getD 0 = (uses.find? label).getD 0 + referred.count label := by
    intro referred
    induction referred with
    | nil => simp
    | cons first later inductionHypothesis =>
        intro uses
        rw [List.foldl_cons, inductionHypothesis, Table.find?_insert, List.count_cons]
        by_cases here : label = first
        · subst here
          simp only [if_true, Option.getD_some, beq_self_eq_true]
          omega
        · simp [here, Ne.symm here]
  have fromEmpty := counted program.referredLabels Table.empty
  rwa [Table.find?_empty, Option.getD_none, Nat.zero_add] at fromEmpty

/-- Two members with a property, at different places of a list, are both counted. -/
theorem two_le_countP {Item : Type} (property : Item -> Bool) {items : List Item}
    {first second : Nat} {early late : Item} (less : first < second)
    (earlyThere : items[first]? = some early) (earlyHas : property early = true)
    (lateThere : items[second]? = some late) (lateHas : property late = true) :
    2 ≤ items.countP property := by
  have earlyMember : early ∈ items.take second := by
    apply List.mem_iff_getElem?.mpr
    exact ⟨first, by rw [List.getElem?_take_of_lt less, earlyThere]⟩
  have lateMember : late ∈ items.drop second := by
    apply List.mem_iff_getElem?.mpr
    exact ⟨0, by rw [List.getElem?_drop, Nat.add_zero, lateThere]⟩
  have earlyCounted := List.countP_pos_iff.mpr ⟨early, earlyMember, earlyHas⟩
  have lateCounted := List.countP_pos_iff.mpr ⟨late, lateMember, lateHas⟩
  rw [← List.take_append_drop second items, List.countP_append]
  omega

/-- A label that is used once belongs to one instruction. -/
theorem eq_of_used_once {program : Program} {label first second : Nat}
    {firstInstruction secondInstruction : Instruction}
    (once : program.labelUses.find? label = some 1)
    (firstFetched : program.code[first]? = some firstInstruction)
    (firstLabelled : firstInstruction.label? = some label)
    (secondFetched : program.code[second]? = some secondInstruction)
    (secondLabelled : secondInstruction.label? = some label) : first = second := by
  let refers : Instruction -> Bool := fun instruction => instruction.label? == some label
  have count : program.code.toList.countP refers = 1 := by
    have counted := program.getD_find?_labelUses label
    rw [once, referredLabels, List.count_filterMap] at counted
    exact counted.symm
  rw [← Array.getElem?_toList] at firstFetched secondFetched
  have firstRefers : refers firstInstruction = true := by simp [refers, firstLabelled]
  have secondRefers : refers secondInstruction = true := by simp [refers, secondLabelled]
  rcases Nat.lt_trichotomy first second with less | same | greater
  · have twice := two_le_countP refers less firstFetched firstRefers secondFetched secondRefers
    omega
  · exact same
  · have twice := two_le_countP refers greater secondFetched secondRefers firstFetched firstRefers
    omega

/-- A label inside the program is bound. -/
theorem find?_of_target_lt {program : Program} {label : Nat}
    (inside : program.target label < program.size) :
    program.labels.find? label = some (program.target label) := by
  unfold target at inside ⊢
  cases found : program.labels.find? label with
  | none => simp [found] at inside
  | some index => rfl

/-- No label leads to an index that none stands for. -/
theorem target_ne_of_targetCount {program : Program} {index : Nat}
    (inside : index < program.size) (none_ : program.targetCount index = 0) (label : Nat) :
    program.target label ≠ index := by
  intro leads
  have found := find?_of_target_lt (leads.symm ▸ inside)
  have listed : (label, program.target label) ∈ program.labels.entries :=
    List.lookup_eq_some_iff.mp found |> fun ⟨_, _, split, _⟩ => by simp [split]
  have counted : 0 < program.targetCount index :=
    List.countP_pos_iff.mpr ⟨_, listed, by simp [leads]⟩
  omega

theorem getElem?_targetCounts (program : Program) {index : Nat} (inside : index ≤ program.size) :
    program.targetCounts[index]? = some (program.targetCount index) := by
  simp [targetCounts, Nat.lt_succ_of_le inside]

/-- The program with a label moved to the next index. -/
def withAdvanced (program : Program) (label : Nat) : Program :=
  { program with labels := program.labels.insert label (program.target label + 1) }

theorem target_withAdvanced (program : Program) (label other : Nat) :
    (program.withAdvanced label).target other =
      if other = label then program.target label + 1 else program.target other := by
  unfold withAdvanced target
  dsimp only
  rw [Table.find?_insert]
  split
  · rfl
  · rfl

theorem targetCount_withAdvanced {program : Program} {label : Nat}
    (inside : program.target label < program.size) (index : Nat) :
    (program.withAdvanced label).targetCount index +
        (if program.target label == index then 1 else 0) =
      program.targetCount index + (if program.target label + 1 == index then 1 else 0) :=
  Table.countP_putEntry (fun value => value == index) (program.target label + 1)
    (find?_of_target_lt inside)

/-- Moving a label to the next index moves one count along. -/
theorem targetCounts_withAdvanced {program : Program} {label : Nat}
    (inside : program.target label < program.size) :
    (program.withAdvanced label).targetCounts =
      (program.targetCounts.modify (program.target label) (· - 1)).modify
        (program.target label + 1) (· + 1) := by
  apply Array.ext_getElem?
  intro index
  by_cases bounded : index ≤ program.size
  · have boundedAfter : index ≤ (program.withAdvanced label).size := bounded
    have movedHere := targetCount_withAdvanced inside index
    rw [Array.getElem?_modify, Array.getElem?_modify, getElem?_targetCounts _ boundedAfter,
      getElem?_targetCounts _ bounded]
    by_cases here : program.target label = index
    · subst here
      simp at movedHere ⊢
      omega
    · by_cases next : program.target label + 1 = index
      · subst next
        simp at movedHere ⊢
        omega
      · simp [here, next] at movedHere ⊢
        omega
  · have outside : (program.withAdvanced label).targetCounts.size ≤ index := by
      simp [targetCounts, withAdvanced, size]
      simp [size] at bounded
      omega
    rw [Array.getElem?_eq_none outside, Array.getElem?_eq_none]
    simpa [targetCounts, withAdvanced, size] using outside

/-- Of the labels that stand for an index that is counted once there is one. -/
theorem eq_of_targetCount_eq_one {program : Program} {index first second : Nat}
    (once : program.targetCount index = 1) (firstFound : program.labels.find? first = some index)
    (secondFound : program.labels.find? second = some index) : first = second := by
  rw [targetCount, List.countP_eq_length_filter] at once
  obtain ⟨only, listed⟩ := List.length_eq_one_iff.mp once
  have isOnly : forall label, program.labels.find? label = some index -> (label, index) = only := by
    intro label found
    rw [← List.mem_singleton, ← listed, List.mem_filter]
    exact ⟨(Table.mem_entries_iff ..).mpr found, beq_self_eq_true index⟩
  exact congrArg Prod.fst ((isOnly first firstFound).trans (isOnly second secondFound).symm)

theorem find?_uniqueLabels_eq_some_iff (program : Program) (index label : Nat) :
    program.uniqueLabels.find? index = some label <->
      program.labels.find? label = some index ∧ program.targetCount index = 1 := by
  have listed_iff : forall other, (index, other) ∈ ((program.labels.entries.filter fun entry =>
      program.targetCount entry.2 == 1).map Prod.swap) <->
        program.labels.find? other = some index ∧ program.targetCount index = 1 := by
    intro other
    rw [← Table.mem_entries_iff]
    constructor
    · intro listed
      rcases List.mem_map.mp listed with ⟨entry, kept, ⟨⟩⟩
      simpa using List.mem_filter.mp kept
    · intro only
      refine List.mem_map.mpr ⟨(other, index), List.mem_filter.mpr ?_, rfl⟩
      simpa using only
  constructor
  · exact fun found => (listed_iff label).mp (Table.mem_of_find?_ofList found)
  · intro only
    obtain ⟨other, found⟩ := Table.exists_find?_ofList ((listed_iff label).mpr only)
    have otherOnly := (listed_iff other).mp (Table.mem_of_find?_ofList found)
    rw [eq_of_targetCount_eq_one only.2 only.1 otherOnly.1]
    exact found

/-- Moving the only label of an index to the next one leaves the index without a label.  At the
next index it is the only one, or there are several. -/
theorem find?_uniqueLabels_withAdvanced {program : Program} {label : Nat}
    (alone : program.uniqueLabels.find? (program.target label) = some label)
    (inside : program.target label < program.size) (index : Nat) :
    (program.withAdvanced label).uniqueLabels.find? index =
      if index = program.target label + 1 then
        if (program.withAdvanced label).targetCount index = 1 then some label else none
      else if index = program.target label then none else program.uniqueLabels.find? index := by
  obtain ⟨found, once⟩ := (find?_uniqueLabels_eq_some_iff ..).mp alone
  have moved : forall other, (program.withAdvanced label).labels.find? other =
      if other = label then some (program.target label + 1) else program.labels.find? other :=
    fun other => Table.find?_insert ..
  apply Option.ext
  intro other
  rw [find?_uniqueLabels_eq_some_iff]
  split
  · rename_i next
    subst next
    split
    · rename_i onceThere
      simp only [onceThere, and_true, Option.some.injEq]
      constructor
      · intro otherFound
        refine (eq_of_targetCount_eq_one onceThere otherFound ?_).symm
        rw [moved, if_pos rfl]
      · rintro rfl
        rw [moved, if_pos rfl]
    · rename_i several
      simp [several]
  · rename_i notNext
    split
    · rename_i here
      subst here
      refine iff_of_false (fun only => ?_) (by simp)
      rw [moved] at only
      split at only
      · exact absurd only.1 (by simp)
      · rename_i different
        exact different (eq_of_targetCount_eq_one once only.1 found)
    · rename_i elsewhere
      rw [find?_uniqueLabels_eq_some_iff, moved]
      have counted := targetCount_withAdvanced inside index
      simp only [beq_iff_eq, Ne.symm elsewhere, Ne.symm notNext, if_false, Nat.add_zero] at counted
      rw [counted]
      split
      · rename_i same
        subst same
        simp [found, Ne.symm elsewhere, Ne.symm notNext]
      · exact Iff.rfl

end Program
end HangulPane
