namespace HangulPane

/-!
Finite maps from numbers to numbers that remember the order in which their keys
were first entered.

Entering a key again changes its value and keeps its place.  Every key occurs
once, which is part of the type.  Labels are kept in such a table, because the
order of labels decides what one round of jump collapsing does.
-/

/-- A finite map with its keys in order of first entry. -/
structure Table where
  entries : List (Nat × Nat)
  /-- No key occurs twice. -/
  distinct : (entries.map Prod.fst).Nodup

namespace Table

instance : DecidableEq Table := fun left right =>
  if same : left.entries = right.entries then
    isTrue (by cases left; cases right; cases same; rfl)
  else
    isFalse (fun equal => same (congrArg entries equal))

def empty : Table where
  entries := []
  distinct := List.nodup_nil

def keys (table : Table) : List Nat :=
  table.entries.map Prod.fst

def find? (table : Table) (key : Nat) : Option Nat :=
  table.entries.lookup key

/-- Entries with a key given a value: in its old place, or at the end if it is new. -/
def putEntry (key value : Nat) : List (Nat × Nat) -> List (Nat × Nat)
  | [] => [(key, value)]
  | entry :: rest =>
      if entry.1 = key then (key, value) :: rest else entry :: putEntry key value rest

/-- The keys after a key is given a value. -/
theorem map_fst_putEntry (key value : Nat) (entries : List (Nat × Nat)) :
    (putEntry key value entries).map Prod.fst =
      if key ∈ entries.map Prod.fst then entries.map Prod.fst
      else entries.map Prod.fst ++ [key] := by
  induction entries with
  | nil => simp [putEntry]
  | cons entry rest inductionHypothesis =>
      by_cases same : entry.1 = key
      · simp [putEntry, same]
      · have different : key ≠ entry.1 := fun equal => same equal.symm
        simp only [putEntry, if_neg same, List.map_cons, inductionHypothesis, List.mem_cons,
          different, false_or]
        split <;> simp

/-- Giving a key a value keeps the keys distinct. -/
theorem nodup_putEntry (key value : Nat) {entries : List (Nat × Nat)}
    (distinct : (entries.map Prod.fst).Nodup) :
    ((putEntry key value entries).map Prod.fst).Nodup := by
  rw [map_fst_putEntry]
  split
  · exact distinct
  · rename_i fresh
    refine List.nodup_append.mpr ⟨distinct, by simp, ?_⟩
    intro listed member other single
    rw [List.mem_singleton.mp single]
    exact fun equal => fresh (equal ▸ member)

def insert (table : Table) (key value : Nat) : Table where
  entries := putEntry key value table.entries
  distinct := nodup_putEntry key value table.distinct

def filterKeys (keep : Nat -> Bool) (table : Table) : Table where
  entries := table.entries.filter fun entry => keep entry.1
  distinct := by
    have sublist : ((table.entries.filter fun entry => keep entry.1).map Prod.fst).Sublist
        (table.entries.map Prod.fst) := List.filter_sublist.map Prod.fst
    exact sublist.nodup table.distinct

def erase (table : Table) (key : Nat) : Table :=
  table.filterKeys fun other => other != key

def mapValues (change : Nat -> Nat) (table : Table) : Table where
  entries := table.entries.map fun entry => (entry.1, change entry.2)
  distinct := by
    have same : (table.entries.map fun entry => (entry.1, change entry.2)).map Prod.fst =
        table.entries.map Prod.fst := by
      simp [List.map_map, Function.comp_def]
    rw [same]
    exact table.distinct

/-- The table that results from entering the pairs in order. -/
def ofList (pairs : List (Nat × Nat)) : Table :=
  pairs.foldl (fun table pair => table.insert pair.1 pair.2) empty

theorem lookup_cons_of_ne {key other : Nat} (different : other ≠ key) (value : Nat)
    (rest : List (Nat × Nat)) : ((key, value) :: rest).lookup other = rest.lookup other := by
  rw [List.lookup_cons, beq_eq_false_iff_ne.mpr different]

/-- Looking up a key after some key was given a value. -/
theorem lookup_putEntry (key value other : Nat) (entries : List (Nat × Nat)) :
    (putEntry key value entries).lookup other =
      if other = key then some value else entries.lookup other := by
  induction entries with
  | nil =>
      by_cases same : other = key
      · simp [putEntry, same]
      · rw [putEntry, lookup_cons_of_ne same, if_neg same]
  | cons entry rest inductionHypothesis =>
      obtain ⟨entryKey, entryValue⟩ := entry
      by_cases replaced : entryKey = key
      · subst replaced
        by_cases same : other = entryKey
        · simp [putEntry, same]
        · rw [putEntry, if_pos rfl, lookup_cons_of_ne same, lookup_cons_of_ne same,
            if_neg same]
      · rw [putEntry, if_neg replaced]
        by_cases here : other = entryKey
        · subst here
          simp [replaced]
        · rw [lookup_cons_of_ne here, lookup_cons_of_ne here]
          exact inductionHypothesis

@[simp]
theorem find?_empty (key : Nat) : empty.find? key = none := rfl

theorem find?_insert (table : Table) (key value other : Nat) :
    (table.insert key value).find? other =
      if other = key then some value else table.find? other :=
  lookup_putEntry key value other table.entries

theorem find?_mapValues (table : Table) (change : Nat -> Nat) (key : Nat) :
    (table.mapValues change).find? key = (table.find? key).map change := by
  unfold find? mapValues
  dsimp only
  induction table.entries with
  | nil => rfl
  | cons entry rest inductionHypothesis =>
      obtain ⟨entryKey, entryValue⟩ := entry
      by_cases here : key = entryKey
      · simp [here]
      · rw [List.map_cons, lookup_cons_of_ne here, lookup_cons_of_ne here]
        exact inductionHypothesis

theorem find?_filterKeys (table : Table) (keep : Nat -> Bool) {key : Nat}
    (kept : keep key = true) : (table.filterKeys keep).find? key = table.find? key := by
  unfold find? filterKeys
  dsimp only
  induction table.entries with
  | nil => rfl
  | cons entry rest inductionHypothesis =>
      obtain ⟨entryKey, entryValue⟩ := entry
      by_cases here : key = entryKey
      · subst here
        simp [kept]
      · rw [lookup_cons_of_ne here, List.filter_cons]
        split
        · rw [lookup_cons_of_ne here]
          exact inductionHypothesis
        · exact inductionHypothesis

/-- The entries are what the keys are looked up as, because no key occurs twice. -/
theorem mem_entries_iff (table : Table) (key value : Nat) :
    (key, value) ∈ table.entries <-> table.find? key = some value := by
  obtain ⟨entries, distinct⟩ := table
  unfold find?
  dsimp only
  induction entries with
  | nil => simp
  | cons entry rest inductionHypothesis =>
      obtain ⟨entryKey, entryValue⟩ := entry
      rw [List.map_cons, List.nodup_cons] at distinct
      by_cases here : key = entryKey
      · subst here
        have absent : (key, value) ∉ rest := fun member =>
          distinct.1 (List.mem_map.mpr ⟨(key, value), member, rfl⟩)
        simp [absent, eq_comm]
      · rw [lookup_cons_of_ne here, ← inductionHypothesis distinct.2]
        simp [here]

theorem mem_keys_iff (table : Table) (key : Nat) :
    key ∈ table.keys <-> ∃ value, table.find? key = some value := by
  simp only [← mem_entries_iff, keys, List.mem_map, Prod.exists, exists_and_right,
    exists_eq_right]

theorem keys_insert (table : Table) (key value : Nat) :
    (table.insert key value).keys =
      if key ∈ table.keys then table.keys else table.keys ++ [key] :=
  map_fst_putEntry key value table.entries

end Table
end HangulPane
