import HangulPane.Listing.Reader
import Mathlib.Data.List.Basic

namespace HangulPane
namespace Listing

/-!
The labels of a program that is read from a listing.

Destinations are numbered in the order of their first use, and a destination that was used
before keeps its number.  The label with a number is bound to what its destination resolves
to, so every control instruction leads where its own operand says.
-/

/-- The destinations of statements, in order, with repetitions. -/
def destinations (statements : List Statement) : List String :=
  statements.filterMap Statement.destination

/-- A numbering with one more destination; the place in the list is the number. -/
def enroll (tokens : List String) (token : String) : List String :=
  if token ∈ tokens then tokens else tokens ++ [token]

theorem isPrefix_enroll (tokens : List String) (token : String) :
    tokens <+: enroll tokens token := by
  unfold enroll
  split
  · exact List.prefix_refl tokens
  · exact List.prefix_append tokens [token]

theorem mem_enroll {tokens : List String} {token other : String} :
    other ∈ enroll tokens token <-> other ∈ tokens ∨ other = token := by
  unfold enroll
  split
  · rename_i known
    constructor
    · exact Or.inl
    · rintro (member | rfl)
      · exact member
      · exact known
  · simp

theorem isPrefix_foldl_enroll (known tokens : List String) :
    known <+: tokens.foldl enroll known := by
  induction tokens generalizing known with
  | nil => exact List.prefix_refl known
  | cons token later inductionHypothesis =>
      exact (isPrefix_enroll known token).trans (inductionHypothesis (enroll known token))

theorem mem_foldl_enroll {known tokens : List String} {token : String} :
    token ∈ tokens.foldl enroll known <-> token ∈ known ∨ token ∈ tokens := by
  induction tokens generalizing known with
  | nil => simp
  | cons first later inductionHypothesis =>
      rw [List.foldl_cons, inductionHypothesis, mem_enroll, List.mem_cons, or_assoc]

/-- The numbering of the destinations of statements, after those that have a number already. -/
def numbering (tokens : List String) (statements : List Statement) : List String :=
  (destinations statements).foldl enroll tokens

theorem numbering_cons_none {statement : Statement} (plain : statement.destination = none)
    (tokens : List String) (later : List Statement) :
    numbering tokens (statement :: later) = numbering tokens later := by
  rw [numbering, destinations, List.filterMap_cons_none plain]
  rfl

theorem numbering_cons_some {statement : Statement} {token : String}
    (jumps : statement.destination = some token) (tokens : List String)
    (later : List Statement) :
    numbering tokens (statement :: later) = numbering (enroll tokens token) later := by
  rw [numbering, destinations, List.filterMap_cons_some jumps]
  rfl

theorem isPrefix_numbering (tokens : List String) (statements : List Statement) :
    tokens <+: numbering tokens statements :=
  isPrefix_foldl_enroll tokens (destinations statements)

theorem mem_numbering {tokens : List String} {statements : List Statement} {token : String} :
    token ∈ numbering tokens statements <->
      token ∈ tokens ∨ token ∈ destinations statements :=
  mem_foldl_enroll

/-- The instruction of a statement under a numbering of the destinations. -/
def placed (tokens : List String) (statement : Statement) : Instruction :=
  match statement.destination with
  | none => statement.instruction
  | some token => statement.instruction.withLabel (tokens.idxOf token)

variable {names : List (String × Nat)} {size : Nat}

/-- Whether the labels with the numbers of destinations, and no others, are bound, each to
what its destination resolves to. -/
def Assigned (names : List (String × Nat)) (size : Nat) (tokens : List String)
    (labels : Table) : Prop :=
  forall label, labels.find? label = tokens[label]?.bind (resolve? names size)

theorem Assigned.insert {tokens : List String} {labels : Table}
    (assigned : Assigned names size tokens labels) {token : String} {target : Nat}
    (resolved : resolve? names size token = some target) :
    Assigned names size (enroll tokens token)
      (labels.insert ((enroll tokens token).idxOf token) target) := by
  intro label
  rw [Table.find?_insert]
  split
  · rename_i own
    have enrolled : token ∈ enroll tokens token := mem_enroll.mpr (Or.inr rfl)
    rw [own, List.getElem?_idxOf enrolled, Option.bind_some, resolved]
  · rename_i other
    rw [assigned label]
    unfold enroll at other ⊢
    split
    · rfl
    · rename_i fresh
      -- A new destination takes the number after all others, which no label had before.
      rw [if_neg fresh, List.idxOf_append_of_notMem fresh] at other
      congr 1
      rcases Nat.lt_or_ge label tokens.length with inside | outside
      · rw [List.getElem?_append_left inside]
      · have past : tokens.length + 1 ≤ label := by
          rcases Nat.eq_or_lt_of_le outside with last | past
          · exact absurd (by simp [last]) other
          · exact past
        rw [List.getElem?_eq_none outside, List.getElem?_eq_none (by simpa using past)]

theorem assignLabels_cons_none {statement : Statement} (plain : statement.destination = none)
    (tokens : List String) (labels : Table) (later : List Statement) :
    assignLabels names size tokens labels (statement :: later) =
      (assignLabels names size tokens labels later).map fun (code, final) =>
        (statement.instruction :: code, final) := by
  simp only [assignLabels, plain]
  cases assignLabels names size tokens labels later <;> rfl

theorem assignLabels_cons_some {statement : Statement} {token : String} {target : Nat}
    (jumps : statement.destination = some token)
    (resolved : resolve? names size token = some target) (tokens : List String)
    (labels : Table) (later : List Statement) :
    assignLabels names size tokens labels (statement :: later) =
      (assignLabels names size (enroll tokens token)
        (labels.insert ((enroll tokens token).idxOf token) target) later).map
          fun (code, final) =>
            (statement.instruction.withLabel ((enroll tokens token).idxOf token) :: code,
              final) := by
  simp only [assignLabels, jumps, resolved, enroll]
  split <;> simp only [*] <;> rfl

/-- Labels can only be assigned when every destination resolves. -/
theorem resolve?_of_assignLabels {statements : List Statement} {tokens : List String}
    {labels : Table} {result : List Instruction × Table}
    (done : assignLabels names size tokens labels statements = .ok result) {token : String}
    (member : token ∈ destinations statements) : (resolve? names size token).isSome := by
  induction statements generalizing tokens labels result with
  | nil => contradiction
  | cons statement later inductionHypothesis =>
      cases jumps : statement.destination with
      | none =>
          rw [destinations, List.filterMap_cons_none jumps] at member
          simp only [assignLabels, jumps] at done
          split at done
          · cases done
          · exact inductionHypothesis ‹_› member
      | some first =>
          rw [destinations, List.filterMap_cons_some jumps] at member
          simp only [assignLabels, jumps] at done
          split at done
          · cases done
          · split at done
            · cases done
            · rcases List.mem_cons.mp member with rfl | rest
              · simp [*]
              · exact inductionHypothesis ‹_› rest

theorem exists_assignLabels {statements : List Statement} {tokens : List String}
    {labels : Table} (assigned : Assigned names size tokens labels)
    (resolved : forall token, token ∈ destinations statements ->
      (resolve? names size token).isSome) :
    ∃ final, assignLabels names size tokens labels statements =
        .ok (statements.map (placed (numbering tokens statements)), final) ∧
      Assigned names size (numbering tokens statements) final := by
  induction statements generalizing tokens labels with
  | nil => exact ⟨labels, rfl, assigned⟩
  | cons statement later inductionHypothesis =>
      cases jumps : statement.destination with
      | none =>
          rw [destinations, List.filterMap_cons_none jumps] at resolved
          rcases inductionHypothesis assigned resolved with ⟨final, done, finally_⟩
          rw [numbering_cons_none jumps]
          refine ⟨final, ?_, finally_⟩
          rw [assignLabels_cons_none jumps, done]
          simp only [Except.map, List.map_cons, placed, jumps]
      | some token =>
          rw [destinations, List.filterMap_cons_some jumps] at resolved
          rcases Option.isSome_iff_exists.mp (resolved token List.mem_cons_self) with
            ⟨target, own⟩
          rcases inductionHypothesis (assigned.insert own)
            (fun other member => resolved other (List.mem_cons_of_mem _ member)) with
            ⟨final, done, finally_⟩
          rw [numbering_cons_some jumps]
          refine ⟨final, ?_, finally_⟩
          -- The number given here is still the destination's when all statements are numbered.
          have kept : (numbering (enroll tokens token) later).idxOf token =
              (enroll tokens token).idxOf token := by
            rcases isPrefix_numbering (enroll tokens token) later with ⟨added, grown⟩
            rw [← grown]
            exact List.idxOf_append_of_mem (mem_enroll.mpr (Or.inr rfl))
          rw [assignLabels_cons_some jumps own, done]
          simp only [Except.map, List.map_cons, placed, jumps, kept]

/-- Whether a program is what the lines of a listing hold. -/
structure Held (draft : Draft) (program : Program) : Prop where
  resolved : forall token, token ∈ destinations draft.statements.toList ->
    (resolve? draft.names draft.statements.size token).isSome
  code : program.code.toList =
    draft.statements.toList.map (placed (numbering [] draft.statements.toList))
  labels : Assigned draft.names draft.statements.size (numbering [] draft.statements.toList)
    program.labels
  comments : program.comments =
    some (draft.statements.map fun statement => statement.comment.toList)

/-- A listing holds a program exactly when its lines can be read and the operands of its
jumps can be resolved. -/
theorem read_eq_ok {text : List Char} {draft : Draft}
    (lines : readLines { statements := #[], names := [] } 1 (Text.lines text) = .ok draft)
    (resolved : forall token, token ∈ destinations draft.statements.toList ->
      (resolve? draft.names draft.statements.size token).isSome) :
    ∃ program, read text = .ok program ∧ Held draft program := by
  have unused : Assigned draft.names draft.statements.size [] Table.empty := fun _ => rfl
  rcases exists_assignLabels unused resolved with ⟨labels, done, assigned⟩
  refine ⟨_, by rw [read, lines]; simp only [done]; rfl, ?_⟩
  exact ⟨resolved, by simp, assigned, rfl⟩

theorem exists_held_of_read {text : List Char} {program : Program}
    (done : read text = .ok program) :
    ∃ draft, readLines { statements := #[], names := [] } 1 (Text.lines text) = .ok draft ∧
      Held draft program := by
  cases lines : readLines { statements := #[], names := [] } 1 (Text.lines text) with
  | error error =>
      rw [read, lines] at done
      cases done
  | ok draft =>
      have resolved : forall token, token ∈ destinations draft.statements.toList ->
          (resolve? draft.names draft.statements.size token).isSome := by
        intro token member
        cases assigned : assignLabels draft.names draft.statements.size [] Table.empty
            draft.statements.toList with
        | error error =>
            simp only [read, lines, assigned] at done
            cases done
        | ok result => exact resolve?_of_assignLabels assigned member
      rcases read_eq_ok lines resolved with ⟨other, same, held⟩
      rw [done] at same
      cases same
      exact ⟨draft, rfl, held⟩

namespace Held

variable {draft : Draft} {program : Program} (held : Held draft program)
include held

theorem size_eq : program.size = draft.statements.size := by
  rw [Program.size, ← Array.length_toList, held.code, List.length_map, Array.length_toList]

theorem code_getElem? (index : Nat) : program.code[index]? =
    draft.statements[index]?.map (placed (numbering [] draft.statements.toList)) := by
  rw [← Array.getElem?_toList, held.code, List.getElem?_map, Array.getElem?_toList]

/-- The label of a control instruction is bound to what its operand resolves to. -/
theorem find?_idxOf {token : String} (member : token ∈ destinations draft.statements.toList) :
    program.labels.find? ((numbering [] draft.statements.toList).idxOf token) =
      resolve? draft.names draft.statements.size token := by
  rw [held.labels, List.getElem?_idxOf (mem_numbering.mpr (Or.inr member))]
  rfl

/-- Every label that is bound belongs to some operand. -/
theorem exists_token {label target : Nat} (found : program.labels.find? label = some target) :
    ∃ token, token ∈ destinations draft.statements.toList ∧
      resolve? draft.names draft.statements.size token = some target := by
  rw [held.labels, Option.bind_eq_some_iff] at found
  rcases found with ⟨token, numbered, resolved⟩
  rcases mem_numbering.mp (List.mem_of_getElem? numbered) with known | member
  · contradiction
  · exact ⟨token, member, resolved⟩

end Held

end Listing
end HangulPane
