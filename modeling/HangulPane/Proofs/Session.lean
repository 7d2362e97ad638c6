import HangulPane.Proofs.Program.Comments
import HangulPane.Proofs.Text.Utf8
import HangulPane.Session
import Mathlib

namespace HangulPane

/-!
Both tools print the same listing.

The tool that runs programs loads them with comments when it is asked for a listing, and the
tool that only lists them loads them without.  Comments have no influence on code, so the two
complain about the same programs and otherwise come to the same text.
-/

namespace Settings

/-- The settings with a listing on the standard output in place of what they ask for. -/
def forListing (settings : Settings) : Settings :=
  { settings with target := .asm, output := "-", companion := none }

/-- What the lister makes of a request changes nothing but the target and where the text goes. -/
theorem merge_adjust_lister (request : Request) (defaults : Defaults) (environment : Environment) :
    merge (Tool.lister.adjust request) defaults environment =
      (merge request defaults environment).map forListing := by
  have sameInput : inputOf (Tool.lister.adjust request) = inputOf request := rfl
  have sameLevel : levelOf (Tool.lister.adjust request) defaults = levelOf request defaults := rfl
  have sameLimit : warningLimitOf (Tool.lister.adjust request) defaults environment =
      warningLimitOf request defaults environment := rfl
  have sameRepresentation : representationOf (Tool.lister.adjust request) defaults environment =
      representationOf request defaults environment := rfl
  unfold merge
  rw [sameInput, sameLevel, sameLimit, sameRepresentation]
  cases inputOf request with
  | error fault => rfl
  | ok input =>
      cases levelOf request defaults with
      | error fault => rfl
      | ok level =>
          cases warningLimitOf request defaults environment with
          | error fault => rfl
          | ok limit =>
              cases representationOf request defaults environment with
              | error fault => rfl
              | ok representation => rfl

theorem resolve_adjust_lister (request : Request) (folder : Folder) (environment : Environment) :
    resolve (Tool.lister.adjust request) folder environment =
      (resolve request folder environment).map forListing := by
  have sameConfig : (Tool.lister.adjust request).config = request.config := rfl
  unfold resolve
  rw [sameConfig]
  cases request.config with
  | none => exact merge_adjust_lister request {} environment
  | some path =>
      dsimp only
      cases defaultsOf path (folder.read path) with
      | error fault => rfl
      | ok defaults => exact merge_adjust_lister request defaults environment

end Settings

namespace Task

/-- The task of listing a program that was loaded. -/
theorem plan_of_asm {settings : Settings} (lists : settings.target = .asm) (tool : Tool)
    (contents : List UInt8) :
    plan tool settings contents =
      (Program.load (settings.source.detect settings.input.name contents)
        (tool.withComments settings) contents).map fun program =>
          .store settings.output
            (Utf8.encode (Listing.write (program.optimize settings.level) false).toList) := by
  unfold plan
  dsimp only
  cases Program.load (settings.source.detect settings.input.name contents)
    (tool.withComments settings) contents with
  | error error => rfl
  | ok program =>
      change ofProgram settings (program.optimize settings.level) = _
      rw [ofProgram, lists]
      rfl

/-- Whether two tasks fail alike or store the same text, each in its own place. -/
inductive StoresAlike (leftOutput rightOutput : String) :
    Except ProgramError Task -> Except ProgramError Task -> Prop where
  | refused (error : ProgramError) : StoresAlike leftOutput rightOutput (.error error) (.error error)
  | stored (text : List UInt8) :
      StoresAlike leftOutput rightOutput (.ok (.store leftOutput text))
        (.ok (.store rightOutput text))

/-- With the same settings otherwise, the two tools list the same text. -/
theorem storesAlike_plan {settings : Settings} (lists : settings.target = .asm)
    (contents : List UInt8) :
    StoresAlike settings.output "-" (plan .runner settings contents)
      (plan .lister settings.forListing contents) := by
  have listsToo : settings.forListing.target = .asm := rfl
  have alike := Program.loadedAlike_load (settings.source.detect settings.input.name contents)
    settings.level (Tool.runner.withComments settings)
    (Tool.lister.withComments settings.forListing) contents
  rw [plan_of_asm lists, plan_of_asm listsToo]
  dsimp only [Settings.forListing] at alike ⊢
  generalize Program.load _ (Tool.runner.withComments settings) contents = commented at alike ⊢
  generalize Program.load _ (Tool.lister.withComments _) contents = plain at alike ⊢
  cases alike with
  | refused error => exact .refused error
  | loaded leftProgram rightProgram same optimized records listing =>
      simp only [Except.map, listing]
      exact .stored _

end Task

namespace Session

/-- Whether the runner and the lister come to the same listing for a request.  They complain
with the same message, each under its own name, or they come to the same text: the lister
prints it, and the runner stores it where its settings say, which may be where the lister
prints. -/
def ListsAlike (request : Request) (environment : Environment) (folder : Folder)
    (standardInput : List UInt8) (bound : Nat) : Prop :=
  (∃ message : String,
      run .runner request environment folder standardInput bound =
          some (refuse .runner folder message) ∧
        run .lister request environment folder standardInput bound =
          some (refuse .lister folder message)) ∨
    ∃ (settings : Settings) (text input : List UInt8),
      Settings.resolve request folder environment = .ok settings ∧
        run .lister request environment folder standardInput bound =
          some { status := 0, output := text, complaints := [], folder } ∧
        run .runner request environment folder standardInput bound =
          perform .runner settings folder (.store settings.output text) input bound ∧
        (settings.output = "-" ->
          run .runner request environment folder standardInput bound =
            run .lister request environment folder standardInput bound)

theorem listsAlike_of_target {request : Request} {environment : Environment} {folder : Folder}
    (lists : forall settings, Settings.resolve request folder environment = .ok settings ->
      settings.target = .asm) (standardInput : List UInt8) (bound : Nat) :
    ListsAlike request environment folder standardInput bound := by
  have adjusted := Settings.resolve_adjust_lister request folder environment
  unfold ListsAlike run
  have runner : Tool.runner.adjust request = request := rfl
  rw [runner, adjusted]
  cases resolved : Settings.resolve request folder environment with
  | error fault => exact Or.inl ⟨fault.message, rfl, rfl⟩
  | ok settings =>
      simp only [Except.map]
      have sameInput : settings.forListing.input = settings.input := rfl
      rw [sameInput]
      cases readSource settings.input folder standardInput with
      | error fault => exact Or.inl ⟨fault.message, rfl, rfl⟩
      | ok sources =>
          rcases sources with ⟨contents, input⟩
          have alike := Task.storesAlike_plan (lists settings resolved) contents
          dsimp only
          generalize Task.plan .runner settings contents = stored at alike ⊢
          generalize Task.plan .lister settings.forListing contents = printed at alike ⊢
          cases alike with
          | refused error => exact Or.inl ⟨error.message, rfl, rfl⟩
          | stored text =>
              refine Or.inr ⟨settings, text, input, rfl, rfl, rfl, ?_⟩
              intro dash
              rw [dash]
              rfl

/-- Comments have no influence on code.  Every pass makes the same code of a program whatever
its comments are, and marks the same instructions.  A source is loaded with and without
comments as programs with the same code, or refused with the same error, and their optimised
forms have the same code, records and listing.  So both tools come to the same listing. -/
theorem listing_independent_of_comments :
    (forall (program : Program) (left right : Option (Array (List String))),
        Program.PassedAlike { program with comments := left }
          { program with comments := right }) ∧
      (forall (format : SourceFormat) (bytes : List UInt8) (level : OptimizationLevel),
        Program.LoadedAlike level (Program.load format true bytes)
          (Program.load format false bytes)) ∧
      forall (request : Request) (environment : Environment) (folder : Folder)
        (standardInput : List UInt8) (bound : Nat),
        (forall settings, Settings.resolve request folder environment = .ok settings ->
          settings.target = .asm) ->
        ListsAlike request environment folder standardInput bound := by
  refine ⟨?_, ?_, ?_⟩
  · intro program left right
    have same : Program.SameCode { program with comments := left }
        { program with comments := right } := ⟨rfl, rfl⟩
    exact same.passedAlike
  · intro format bytes level
    exact Program.loadedAlike_load format level true false bytes
  · intro request environment folder standardInput bound lists
    exact listsAlike_of_target lists standardInput bound

/-- A text that ends with the product of two literals. -/
def product : String := "반받따희"

/-- The program that the text stands for, with a guard before the operation. -/
def productProgram : Program where
  code := #[.push 2, .push 3, .brPop2 0, .mul, .halt, .jmp 1]
  labels := Table.ofList [(0, 5), (1, 1)]
  comments := some #[["반", "[  0,  0] RIGHT1"], ["받", "[  0,  1] RIGHT1"], [],
    ["따", "[  0,  2] RIGHT1"], ["희", "[  0,  3] RIGHT1"], []]

theorem load_product :
    Program.load .text true (Utf8.encode product.toList) = .ok productProgram := by
  have traced : (Pane.ofText product.toList).toProgram true = productProgram := by cbv
  rw [Program.load, Utf8.decode_encode]
  exact congrArg Except.ok traced

/-- The program without the guard and what that leads to. -/
def prunedProduct : Program where
  code := #[.push 2, .push 3, .mul, .halt]
  labels := Table.empty
  comments := some #[["반", "[  0,  0] RIGHT1"], ["받", "[  0,  1] RIGHT1"],
    ["따", "[  0,  2] RIGHT1"], ["희", "[  0,  3] RIGHT1"]]

theorem pruneCoarsely_product : productProgram.pruneCoarsely = prunedProduct := by
  have live : productProgram.collapseJumps.coarselyLive =
      #[true, true, false, true, true, false] := by cbv
  rw [Program.pruneCoarsely, live]
  rfl

theorem foldConstants?_product : prunedProduct.foldConstants? true =
    some ({ prunedProduct with code := #[.noop, .noop, .push 6, .halt] },
      #[false, false, true, true]) := by
  have context : prunedProduct.storageContext =
      #[some false, some false, some false, some false] := by cbv
  rw [Program.foldConstants?, Program.Folding.start, context]
  decide +kernel

/-- Of the six instructions two are left: the guard is deleted with what it leads to, and the
product is folded into one literal, which has the comments of three cells. -/
theorem optimize_product : productProgram.optimize .coarse =
    { code := #[.push 6, .halt]
      labels := Table.empty
      comments := some #[["반", "[  0,  0] RIGHT1", "받", "[  0,  1] RIGHT1", "따",
        "[  0,  2] RIGHT1"], ["희", "[  0,  3] RIGHT1"]] } := by
  let folded : Program := { prunedProduct with code := #[.noop, .noop, .push 6, .halt] }
  have reached : folded.collapseJumps.reachable = #[true, true, true, true] := by cbv
  rw [Program.optimize, pruneCoarsely_product, Program.foldAndSweep, foldConstants?_product]
  dsimp only
  rw [reached]
  decide +kernel

/-- The passes make the same code of the program and of the one without comments, and the two
tools come to the same listing of the text. -/
theorem listing_independent_of_comments_product :
    Program.load .text true (Utf8.encode product.toList) = .ok productProgram ∧
      (productProgram.optimize .coarse).code = #[.push 6, .halt] ∧
      Program.PassedAlike { productProgram with comments := productProgram.comments }
        { productProgram with comments := none } ∧
      (forall settings,
        Settings.resolve { inline := some product, target := some .asm } { files := [] }
          (fun _ => none) = .ok settings -> settings.target = .asm) ∧
      ListsAlike { inline := some product, target := some .asm } (fun _ => none) { files := [] }
        [] 1 := by
  have lists : forall settings,
      Settings.resolve { inline := some product, target := some .asm } { files := [] }
        (fun _ => none) = .ok settings -> settings.target = .asm := by
    intro settings resolved
    cases resolved
    rfl
  refine ⟨load_product, ?_, ?_, lists, ?_⟩
  · rw [optimize_product]
  · exact listing_independent_of_comments.1 productProgram _ none
  · exact listing_independent_of_comments.2.2 _ _ _ [] 1 lists

end Session
end HangulPane
