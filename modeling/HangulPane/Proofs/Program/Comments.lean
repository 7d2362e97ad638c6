import HangulPane.Listing.Writer
import HangulPane.Program.Load
import HangulPane.Program.Optimize
import HangulPane.Proofs.Program.Blocks

namespace HangulPane
namespace Program

/-!
Comments have no influence on code.

Taking the comments away commutes with every pass: a pass decides nothing by comments, and
it leaves none where there were none.  So programs that differ in their comments alone
differ in their comments alone after every level of optimisation, and what is written
without comments is the same.
-/

/-- The program without its comments. -/
def bare (program : Program) : Program :=
  { program with comments := none }

/-- Whether two programs have the same instructions and the same labels, in the same order. -/
def SameCode (left right : Program) : Prop :=
  left.code = right.code ∧ left.labels = right.labels

theorem sameCode_iff_bare_eq {left right : Program} :
    left.SameCode right <-> left.bare = right.bare := by
  simp [SameCode, bare]

/-- What commutes with taking the comments away keeps programs the same up to comments. -/
theorem SameCode.of_commutes {left right : Program} (same : left.SameCode right)
    (pass : Program -> Program)
    (commutes : forall program : Program, (pass program).bare = pass program.bare) :
    (pass left).SameCode (pass right) := by
  rw [sameCode_iff_bare_eq] at same ⊢
  rw [commutes, commutes, same]

/-- What does not depend on comments is the same for programs that are the same up to them. -/
theorem SameCode.eq_of_ignores {Value : Type} {left right : Program} (same : left.SameCode right)
    (view : Program -> Value)
    (ignores : forall program : Program, view program.bare = view program) :
    view left = view right := by
  rw [← ignores left, ← ignores right, sameCode_iff_bare_eq.mp same]

theorem bare_collapseLabel (program : Program) (label : Nat) :
    (program.collapseLabel label).bare = program.bare.collapseLabel label := by
  unfold collapseLabel
  dsimp only [bare, target, size]
  split
  · split
    · rfl
    · rfl
  · rfl

theorem bare_collapseJumps (program : Program) :
    program.collapseJumps.bare = program.bare.collapseJumps := by
  exact (List.foldl_hom bare fun program label => (bare_collapseLabel program label).symm).symm

theorem bare_compact (live : Array Bool) (program : Program) :
    (program.compact live).bare = program.bare.compact live := rfl

/-- The search for a block does not look at comments. -/
theorem movableBlock?_bare (program : Program) :
    program.bare.movableBlock? = program.movableBlock? :=
  movableBlock?_congr fun _ => rfl

theorem bare_relocate (program : Program) (block : Block program.size) :
    (program.relocate block).bare = program.bare.relocate block := rfl

/-- So the same blocks move. -/
theorem bare_moveBlocks (program : Program) :
    program.moveBlocks.bare = program.bare.moveBlocks := by
  fun_induction moveBlocks program with
  | case1 program nothing =>
      have nothingBare : program.bare.movableBlock? = none :=
        program.movableBlock?_bare.trans nothing
      rw [moveBlocks, nothingBare]
  | case2 program block found inductionHypothesis =>
      have foundBare : program.bare.movableBlock? = some block :=
        program.movableBlock?_bare.trans found
      rw [inductionHypothesis, bare_relocate]
      conv => rhs; rw [moveBlocks, foundBare]

theorem bare_reorderBlocks (program : Program) :
    program.reorderBlocks.bare = program.bare.reorderBlocks := by
  unfold reorderBlocks
  rw [← bare_moveBlocks]
  rfl

/-! Folding. -/

namespace Folding

/-- The folding of the program without its comments. -/
def bare (folding : Folding) : Folding :=
  { folding with program := folding.program.bare }

@[simp]
theorem code_bare (folding : Folding) : folding.bare.program.code = folding.program.code := rfl

@[simp]
theorem at?_bare (folding : Folding) (index : Nat) :
    folding.bare.at? index = folding.at? index := rfl

@[simp]
theorem hasTarget_bare (folding : Folding) (first last : Nat) :
    folding.bare.hasTarget first last = folding.hasTarget first last := rfl

theorem bare_foldDuplicate (context : Array (Option Bool)) (folding : Folding) (index : Nat) :
    (folding.foldDuplicate context index).bare = folding.bare.foldDuplicate context index := by
  simp only [foldDuplicate, code_bare, at?_bare, hasTarget_bare]
  rw [apply_ite bare]
  refine ite_congr rfl (fun _ => ?_) fun _ => rfl
  cases previous? folding.program.code index with
  | none => rfl
  | some before =>
      dsimp only
      rw [apply_ite bare]
      refine ite_congr rfl (fun _ => ?_) fun _ => rfl
      split
      · rfl
      · rfl

theorem bare_foldWithTarget (folding : Folding) (right left label : Nat)
    (rightValue leftValue : Int64) :
    (folding.foldWithTarget right left label rightValue leftValue).bare =
      folding.bare.foldWithTarget right left label rightValue leftValue := by
  have sameTarget : folding.bare.program.target label = folding.program.target label := rfl
  simp only [foldWithTarget, at?_bare, sameTarget]
  cases folding.at? (folding.program.target label) with
  | none => rfl
  | some operation =>
      dsimp only
      rw [apply_ite bare]
      refine ite_congr rfl (fun _ => ?_) fun _ => rfl
      cases foldedValue? operation leftValue rightValue with
      | none => rfl
      | some value => rfl

theorem bare_foldThroughJump? (folding : Folding) (right left label : Nat)
    (rightValue leftValue : Int64) :
    (folding.foldThroughJump? right left label rightValue leftValue).map bare =
      folding.bare.foldThroughJump? right left label rightValue leftValue := by
  have sameTarget : folding.bare.program.target label = folding.program.target label := rfl
  have sameNext : folding.bare.program.nextIndex? = folding.program.nextIndex? := rfl
  have sameSize : folding.bare.program.size = folding.program.size := rfl
  have sameUnique : folding.bare.unique = folding.unique := rfl
  have sameUses : folding.bare.uses = folding.uses := rfl
  simp only [foldThroughJump?, sameTarget, sameNext, sameSize, sameUnique, sameUses]
  rw [apply_ite (Option.map bare)]
  refine ite_congr rfl (fun _ => ?_) fun _ => rfl
  rw [Option.map_map]
  congr 1
  funext next
  rw [Function.comp_apply, apply_ite bare, bare_foldWithTarget]

theorem bare_foldOperation? (context : Array (Option Bool)) (folding : Folding) (index : Nat) :
    (folding.foldOperation? context index).map bare =
      folding.bare.foldOperation? context index := by
  simp only [foldOperation?, code_bare, at?_bare, hasTarget_bare]
  cases previous? folding.program.code index with
  | none => rfl
  | some right =>
      dsimp only
      cases previous? folding.program.code right with
      | none => rfl
      | some left =>
          dsimp only
          split
          · split
            · rfl
            · rw [apply_ite (Option.map bare)]
              refine ite_congr rfl (fun _ => ?_) fun _ => rfl
              split
              · exact folding.bare_foldThroughJump? _ _ _ _ _
              · rw [apply_ite (Option.map bare)]
                refine ite_congr rfl (fun _ => ?_) fun _ => rfl
                split
                · rfl
                · rfl
              · rfl
          · rfl

theorem foldl_foldDuplicate_bare (context : Array (Option Bool)) (indices : List Nat)
    (folding : Folding) :
    indices.foldl (foldDuplicate context) folding.bare =
      (indices.foldl (foldDuplicate context) folding).bare :=
  List.foldl_hom bare fun folding index => (bare_foldDuplicate context folding index).symm

theorem foldlM_foldOperation?_bare (context : Array (Option Bool)) (indices : List Nat)
    (folding : Folding) :
    indices.foldlM (foldOperation? context) folding.bare =
      (indices.foldlM (foldOperation? context) folding).map bare := by
  induction indices generalizing folding with
  | nil => rfl
  | cons index later inductionHypothesis =>
      rw [List.foldlM_cons, List.foldlM_cons, ← bare_foldOperation?]
      cases folding.foldOperation? context index with
      | none => rfl
      | some next => exact inductionHypothesis next

end Folding

/-- Folding a program without comments gives the folded program without comments, and finds
the same instructions needed. -/
theorem foldConstants?_bare (duplicates : Bool) (program : Program) :
    program.bare.foldConstants? duplicates =
      (program.foldConstants? duplicates).map fun (folded, needed) => (folded.bare, needed) := by
  have sameContext : program.bare.storageContext = program.storageContext := rfl
  have sameStart : Folding.start program.bare = (Folding.start program).bare := rfl
  have sameSize : program.bare.size = program.size := rfl
  cases duplicates with
  | false =>
      simp only [foldConstants?, sameContext, sameStart, sameSize, Bool.false_eq_true, if_false,
        Folding.foldlM_foldOperation?_bare, Option.map_map]
      rfl
  | true =>
      simp only [foldConstants?, sameContext, sameStart, sameSize, if_true,
        Folding.foldl_foldDuplicate_bare, Folding.foldlM_foldOperation?_bare, Option.map_map]
      rfl

/-! The levels. -/

theorem bare_pruneCoarsely (program : Program) :
    program.pruneCoarsely.bare = program.bare.pruneCoarsely := by
  unfold pruneCoarsely
  rw [← bare_collapseJumps]
  rfl

theorem bare_prunePrecisely (program : Program) :
    program.prunePrecisely.bare = program.bare.prunePrecisely := by
  unfold prunePrecisely
  rw [← bare_collapseJumps]
  exact bare_reorderBlocks _

theorem bare_foldAndSweep (program : Program) :
    program.foldAndSweep.bare = program.bare.foldAndSweep := by
  unfold foldAndSweep
  rw [foldConstants?_bare]
  cases program.foldConstants? true with
  | none => rfl
  | some result =>
      dsimp only [Option.map_some]
      rw [← bare_collapseJumps]
      rfl

/-- Taking the comments away commutes with optimising. -/
theorem bare_optimize (level : OptimizationLevel) (program : Program) :
    (program.optimize level).bare = program.bare.optimize level := by
  cases level with
  | plain => rfl
  | coarse =>
      change program.pruneCoarsely.foldAndSweep.bare = program.bare.pruneCoarsely.foldAndSweep
      rw [bare_foldAndSweep, bare_pruneCoarsely]
  | precise =>
      change program.prunePrecisely.foldAndSweep.bare = program.bare.prunePrecisely.foldAndSweep
      rw [bare_foldAndSweep, bare_prunePrecisely]

/-! What is written. -/

theorem encodeFrom_bare (program : Program) (index : Nat) (instructions : List Instruction) :
    Records.encodeFrom program.bare index instructions =
      Records.encodeFrom program index instructions := by
  induction instructions generalizing index with
  | nil => rfl
  | cons instruction later inductionHypothesis =>
      rw [Records.encodeFrom, Records.encodeFrom, inductionHypothesis]
      rfl

theorem encode_bare (program : Program) :
    Records.encode program.bare = Records.encode program :=
  program.encodeFrom_bare 0 program.code.toList

/-- A listing that shows no comments does not depend on them. -/
theorem write_bare (program : Program) :
    Listing.write program.bare false = Listing.write program false := rfl

/-! Programs that differ in their comments alone. -/

/-- What folding makes of two programs: it breaks off in both, or it makes the same of them up
to comments and finds the same instructions needed. -/
inductive FoldedAlike : Option (Program × Array Bool) -> Option (Program × Array Bool) -> Prop where
  | brokenOff : FoldedAlike none none
  | folded {left right : Program} (needed : Array Bool) (same : left.SameCode right) :
      FoldedAlike (some (left, needed)) (some (right, needed))

/-- Whether every pass makes the same of two programs up to comments, and finds the same
instructions needed. -/
structure PassedAlike (left right : Program) : Prop where
  collapsed : left.collapseJumps.SameCode right.collapseJumps
  compacted : forall live, (left.compact live).SameCode (right.compact live)
  reordered : left.reorderBlocks.SameCode right.reorderBlocks
  folded : forall duplicates,
    FoldedAlike (left.foldConstants? duplicates) (right.foldConstants? duplicates)
  marked : left.coarselyLive = right.coarselyLive ∧ left.preciselyLive = right.preciselyLive ∧
    left.reachable = right.reachable

theorem SameCode.foldedAlike {left right : Program} (same : left.SameCode right)
    (duplicates : Bool) :
    FoldedAlike (left.foldConstants? duplicates) (right.foldConstants? duplicates) := by
  have alike := left.foldConstants?_bare duplicates
  rw [sameCode_iff_bare_eq.mp same, right.foldConstants?_bare duplicates] at alike
  cases leftFound : left.foldConstants? duplicates with
  | none =>
      rw [leftFound, Option.map_none, Option.map_eq_none_iff] at alike
      rw [alike]
      exact .brokenOff
  | some leftFolded =>
      obtain ⟨leftProgram, leftNeeded⟩ := leftFolded
      rw [leftFound, Option.map_some, Option.map_eq_some_iff] at alike
      obtain ⟨⟨rightProgram, rightNeeded⟩, rightFound, equal⟩ := alike
      obtain ⟨samePrograms, rfl⟩ := Prod.mk.inj equal
      rw [rightFound]
      exact .folded _ (sameCode_iff_bare_eq.mpr samePrograms.symm)

theorem SameCode.passedAlike {left right : Program} (same : left.SameCode right) :
    PassedAlike left right where
  collapsed := same.of_commutes collapseJumps bare_collapseJumps
  compacted := fun live => same.of_commutes (fun program => program.compact live)
    (bare_compact live)
  reordered := same.of_commutes reorderBlocks bare_reorderBlocks
  folded := same.foldedAlike
  marked := ⟨same.eq_of_ignores coarselyLive fun _ => rfl,
    same.eq_of_ignores preciselyLive fun _ => rfl, same.eq_of_ignores reachable fun _ => rfl⟩

/-- What loading gives in two ways: the same error, or programs with the same code, also after
the passes of a level, and the same written forms. -/
inductive LoadedAlike (level : OptimizationLevel) :
    Except ProgramError Program -> Except ProgramError Program -> Prop where
  | refused (error : ProgramError) : LoadedAlike level (.error error) (.error error)
  | loaded (left right : Program) (same : left.SameCode right)
      (optimized : (left.optimize level).SameCode (right.optimize level))
      (records : Records.encode (left.optimize level) = Records.encode (right.optimize level))
      (listing : Listing.write (left.optimize level) false =
        Listing.write (right.optimize level) false) :
      LoadedAlike level (.ok left) (.ok right)

theorem SameCode.loadedAlike {left right : Program} (same : left.SameCode right)
    (level : OptimizationLevel) : LoadedAlike level (.ok left) (.ok right) := by
  have optimized := same.of_commutes (optimize level) (bare_optimize level)
  exact .loaded left right same optimized (optimized.eq_of_ignores Records.encode encode_bare)
    (optimized.eq_of_ignores (fun program => Listing.write program false) write_bare)

/-- Whether comments are asked for makes no difference for the code that is loaded. -/
theorem loadedAlike_load (format : SourceFormat) (level : OptimizationLevel)
    (first second : Bool) (bytes : List UInt8) :
    LoadedAlike level (load format first bytes) (load format second bytes) := by
  have itself : forall loaded : Except ProgramError Program, LoadedAlike level loaded loaded := by
    rintro (error | program)
    · exact .refused error
    · exact SameCode.loadedAlike ⟨rfl, rfl⟩ level
  cases format with
  | bytecode | asm => exact itself _
  | text =>
      unfold load
      cases Utf8.decode bytes with
      | error flaw => exact .refused _
      | ok text =>
          have same : ((Pane.ofText text).toProgram first).SameCode
              ((Pane.ofText text).toProgram second) := ⟨rfl, rfl⟩
          exact same.loadedAlike level

end Program
end HangulPane
