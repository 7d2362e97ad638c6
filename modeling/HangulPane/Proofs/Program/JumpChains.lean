import HangulPane.Program.Blocks
import HangulPane.Proofs.Machine.Retrace
import HangulPane.Proofs.Program.Collapse

namespace HangulPane
namespace Program

/-!
Where chains of jumps end.

Control that meets a jump goes on to the next jump or to something else, or it goes round in a
cycle of jumps for ever.  Collapsing moves labels while the chains are being followed, so each
label that moves shortens some chains for the labels after it.  It never changes where a chain
ends, nor whether it does: a step of a chain in the collapsed program is one step or two steps of
the chain in the program before.  Since the instructions stay where they are, a collapsed program
retraces every run of the program to the index at which it ends.
-/

/-- Whether following unconditional jumps from an index ends at the given one, which holds
another instruction or lies past the end. -/
inductive JumpsEndAt (program : Program) : Nat -> Nat -> Prop where
  | here {index : Nat} (stays : program.jumpDestination? index = none) :
      JumpsEndAt program index index
  | hop {index next last : Nat} (jumps : program.jumpDestination? index = some next)
      (later : JumpsEndAt program next last) : JumpsEndAt program index last

/-- Whether following unconditional jumps from an index never ends. -/
def JumpsForever (program : Program) (index : Nat) : Prop :=
  ∃ path : Nat -> Nat, path 0 = index ∧
    forall step, program.jumpDestination? (path step) = some (path (step + 1))

/-- The indices that are met by following jumps from an index, which is kept where there is no
jump. -/
def jumpPath (program : Program) (index : Nat) : Nat -> Nat
  | 0 => index
  | step + 1 => (program.jumpDestination? (jumpPath program index step)).getD
      (jumpPath program index step)

section Chains

variable {program : Program} {index last : Nat}

theorem JumpsEndAt.not_jumpsForever (ends : program.JumpsEndAt index last) :
    ¬ program.JumpsForever index := by
  induction ends with
  | here stays =>
      rintro ⟨path, rfl, jumps⟩
      rw [jumps 0] at stays
      cases stays
  | hop jumps _ inductionHypothesis =>
      rintro ⟨path, rfl, jumpsOn⟩
      apply inductionHypothesis
      rw [jumpsOn 0] at jumps
      exact ⟨fun step => path (step + 1), Option.some.inj jumps, fun step => jumpsOn (step + 1)⟩

/-- A chain that ends nowhere meets a jump at every step. -/
theorem jumpsForever_of_forall_not (endless : forall last, ¬ program.JumpsEndAt index last) :
    program.JumpsForever index := by
  have endlessOn : forall step last,
      ¬ program.JumpsEndAt (program.jumpPath index step) last := by
    intro step
    induction step with
    | zero => exact endless
    | succ step inductionHypothesis =>
        intro last ends
        rw [jumpPath] at ends
        cases jumps : program.jumpDestination? (program.jumpPath index step) with
        | none => exact inductionHypothesis _ (.here jumps)
        | some next =>
            rw [jumps] at ends
            exact inductionHypothesis last (.hop jumps ends)
  refine ⟨program.jumpPath index, rfl, ?_⟩
  intro step
  cases jumps : program.jumpDestination? (program.jumpPath index step) with
  | none => exact absurd (.here jumps) (endlessOn step _)
  | some next => rw [jumpPath, jumps, Option.getD_some]

/-- Following jumps never ends exactly if it ends nowhere. -/
theorem jumpsForever_iff :
    program.JumpsForever index <-> forall last, ¬ program.JumpsEndAt index last :=
  ⟨fun forever _ ends => ends.not_jumpsForever forever, jumpsForever_of_forall_not⟩

end Chains

/-- A jump of the program with one label collapsed is the jump that it was, or that jump and the
one that it led to. -/
theorem jumpDestination?_collapseLabel (program : Program) (label index : Nat) :
    (program.collapseLabel label).jumpDestination? index = program.jumpDestination? index ∨
      ∃ between last, program.jumpDestination? index = some between ∧
        program.jumpDestination? between = some last ∧
        (program.collapseLabel label).jumpDestination? index = some last := by
  simp only [jumpDestination?, code_collapseLabel]
  cases fetched : program.code[index]? with
  | none => exact Or.inl rfl
  | some instruction =>
      cases instruction with
      | jmp other =>
          rcases program.target_collapseLabel label other with
            same | ⟨next, rfl, found, _, moved⟩
          · exact Or.inl (congrArg some same)
          · refine Or.inr ⟨program.target other, program.target next, rfl, ?_, congrArg some moved⟩
            rw [found]
      | _ => exact Or.inl rfl

section Collapse

variable {program : Program} {label index last : Nat}

theorem jumpsEndAt_of_collapseLabel (ends : (program.collapseLabel label).JumpsEndAt index last) :
    program.JumpsEndAt index last := by
  induction ends with
  | @here index stays =>
      rcases program.jumpDestination?_collapseLabel label index with
        same | ⟨between, last, _, _, moved⟩
      · exact .here (same ▸ stays)
      · rw [moved] at stays
        cases stays
  | @hop index next last jumps _ inductionHypothesis =>
      rcases program.jumpDestination?_collapseLabel label index with
        same | ⟨between, far, first, second, moved⟩
      · exact .hop (same ▸ jumps) inductionHypothesis
      · rw [moved] at jumps
        cases jumps
        exact .hop first (.hop second inductionHypothesis)

/-- A chain still ends where it did.  The collapsed program may skip the next index of the chain,
so the induction says of each index that the chain ends from there and from the next one. -/
theorem jumpsEndAt_collapseLabel (ends : program.JumpsEndAt index last) :
    (program.collapseLabel label).JumpsEndAt index last ∧
      forall next, program.jumpDestination? index = some next ->
        (program.collapseLabel label).JumpsEndAt next last := by
  induction ends with
  | @here index stays =>
      refine ⟨?_, ?_⟩
      · rcases program.jumpDestination?_collapseLabel label index with
          same | ⟨between, last, first, _, _⟩
        · exact .here (same.trans stays)
        · rw [stays] at first
          cases first
      · intro next jumps
        rw [stays] at jumps
        cases jumps
  | @hop index next last jumps _ inductionHypothesis =>
      refine ⟨?_, ?_⟩
      · rcases program.jumpDestination?_collapseLabel label index with
          same | ⟨between, far, first, second, moved⟩
        · exact .hop (same.trans jumps) inductionHypothesis.1
        · rw [jumps] at first
          cases first
          exact .hop moved (inductionHypothesis.2 far second)
      · intro other jumpsOther
        rw [jumps] at jumpsOther
        cases jumpsOther
        exact inductionHypothesis.1

theorem jumpsEndAt_collapseJumps_iff :
    program.collapseJumps.JumpsEndAt index last <-> program.JumpsEndAt index last := by
  unfold collapseJumps
  generalize program.labels.keys = labels
  induction labels generalizing program with
  | nil => exact Iff.rfl
  | cons label later inductionHypothesis =>
      rw [List.foldl_cons, inductionHypothesis]
      exact ⟨jumpsEndAt_of_collapseLabel, fun ends => (jumpsEndAt_collapseLabel ends).1⟩

end Collapse

section Runs

variable {N : Type} [Number N]

theorem linked_of_jmp {program : Program} {index label : Nat}
    (fetched : program.code[index]? = some (.jmp label)) :
    program.linked[index]? = some (.jmp (program.target label)) := by
  rw [getElem?_linked, fetched]
  rfl

/-- Programs with the same instructions move together from the same place, if they do so from
there on. -/
theorem retraced_of_sameCode {left right : Program} (sameCode : right.code = left.code)
    {bound : Nat} (machine : Machine N) (console : Console)
    (falls : forall (next : Machine N) after,
      Machine.Retraced left.linked right.linked bound next next after)
    (leads : forall (next : Machine N) after label,
      Machine.Retraced left.linked right.linked bound (next.movedTo (left.target label))
        (next.movedTo (right.target label)) after) :
    Machine.Retraced left.linked right.linked (bound + 1) machine machine console := by
  cases fetched : left.code[machine.index]? with
  | none =>
      apply Machine.retraced_of_end
      · rw [getElem?_linked, fetched, Option.map_none]
      · rw [getElem?_linked, sameCode, fetched, Option.map_none]
  | some instruction =>
      have leftFetched : left.linked[machine.index]? =
          some (instruction.mapLabel left.target) := by
        rw [getElem?_linked, fetched, Option.map_some]
      have rightFetched : right.linked[machine.index]? =
          some (instruction.mapLabel right.target) := by
        rw [getElem?_linked, sameCode, fetched, Option.map_some]
      apply Machine.retraced_of_fetch leftFetched rightFetched
      rintro next after _ _ (⟨_, rfl, rfl⟩ | ⟨label, _, rfl, rfl⟩)
      · exact falls _ after
      · exact leads next after label

/-- The program with one label collapsed retraces the program, which may be at a jump that the
other one has left out. -/
theorem retraced_collapseLabel (program : Program) (label bound : Nat) :
    forall (machine : Machine N) (other : Nat) (console : Console),
      program.Collapsed machine.index other ->
      Machine.Retraced program.linked (program.collapseLabel label).linked bound machine
        (machine.movedTo other) console := by
  induction bound with
  | zero => exact fun machine other console _ => Machine.retraced_zero _ _ _ _ console
  | succ bound inductionHypothesis =>
      rintro machine other console (rfl | ⟨next, found, _, rfl⟩)
      · apply retraced_of_sameCode (program.code_collapseLabel label)
        · exact fun next after => inductionHypothesis next next.index after (Or.inl rfl)
        · exact fun next after used => inductionHypothesis (next.movedTo (program.target used))
            _ after (program.collapsed_target label used)
      · exact .driver_jumps (linked_of_jmp found)
          (inductionHypothesis (machine.movedTo (program.target next)) _ console (Or.inl rfl))

/-- The program retraces the program with one label collapsed. -/
theorem collapseLabel_retraced (program : Program) (label bound : Nat) :
    forall (machine : Machine N) (other : Nat) (console : Console),
      program.Collapsed machine.index other ->
      Machine.Retraced (program.collapseLabel label).linked program.linked bound
        (machine.movedTo other) machine console := by
  induction bound with
  | zero => exact fun machine other console _ => Machine.retraced_zero _ _ _ _ console
  | succ bound inductionHypothesis =>
      have together : forall (machine : Machine N) (console : Console),
          Machine.Retraced (program.collapseLabel label).linked program.linked (bound + 1)
            machine machine console := by
        intro machine console
        apply retraced_of_sameCode (program.code_collapseLabel label).symm
        · exact fun next after => inductionHypothesis next next.index after (Or.inl rfl)
        · exact fun next after used => inductionHypothesis (next.movedTo (program.target used))
            _ after (program.collapsed_target label used)
      rintro machine other console (rfl | ⟨next, found, _, rfl⟩)
      · exact together machine console
      · exact .follower_jumps (linked_of_jmp found) (together _ console)

theorem runsExactly_collapseLabel (program : Program) (label : Nat) :
    RunsExactly N program (program.collapseLabel label) ∧
      RunsExactly N (program.collapseLabel label) program := by
  constructor
  · apply RunsExactly.of_retraced
    exact fun bound console =>
      program.retraced_collapseLabel label bound Machine.start 0 console (Or.inl rfl)
  · apply RunsExactly.of_retraced
    exact fun bound console =>
      program.collapseLabel_retraced label bound Machine.start 0 console (Or.inl rfl)

theorem runsExactly_collapseJumps (program : Program) :
    RunsExactly N program program.collapseJumps ∧
      RunsExactly N program.collapseJumps program := by
  unfold collapseJumps
  generalize program.labels.keys = labels
  induction labels generalizing program with
  | nil => exact ⟨.refl program, .refl program⟩
  | cons label later inductionHypothesis =>
      have first := program.runsExactly_collapseLabel (N := N) label
      have rest := inductionHypothesis (program.collapseLabel label)
      exact ⟨first.1.trans rest.1, rest.2.trans first.2⟩

end Runs

/-- Collapsing jumps keeps the instructions, and from every index the chain of jumps ends where
it did, or as before never ends.  The collapsed program and the program it was made from retrace
each other's runs: the same calls, and the same end, with the same value and storages or the same
fault at the same index. -/
theorem collapseJumps_keeps_chains (N : Type) [Number N] (program : Program) :
    program.collapseJumps.code = program.code ∧
      (forall index last,
        program.collapseJumps.JumpsEndAt index last <-> program.JumpsEndAt index last) ∧
      (forall index,
        program.collapseJumps.JumpsForever index <-> program.JumpsForever index) ∧
      RunsExactly N program program.collapseJumps ∧
      RunsExactly N program.collapseJumps program := by
  refine ⟨program.code_collapseJumps, fun _ _ => jumpsEndAt_collapseJumps_iff, ?_,
    program.runsExactly_collapseJumps⟩
  intro index
  simp only [jumpsForever_iff, jumpsEndAt_collapseJumps_iff]

end Program
end HangulPane
