import HangulPane.Proofs.Listing.Draft
import HangulPane.Proofs.Listing.Labels

namespace HangulPane
namespace Listing

/-!
Programs come back from their listings.

In the draft of a listing every name that a jump uses is defined, at the index that it is the
name of, so the linked code is the same again.  What a listing does not keep are the labels
themselves.  An index is named once, however many labels stand for it, and a name that no jump
uses is lost; where every label is used the program that is read has the same listing.
-/

section Read

variable (program : Program) (commented : Bool)

theorem mem_destinations_draftOf {token : String} :
    token ∈ destinations (draftOf program commented).statements.toList <->
      ∃ label, label ∈ program.referredLabels ∧ indexName (program.target label) = token := by
  simp only [Program.mem_referredLabels_iff_getElem?, destinations, List.mem_filterMap]
  constructor
  · rintro ⟨statement, member, jumps⟩
    rcases List.getElem?_of_mem member with ⟨index, stated⟩
    rw [Array.getElem?_toList, statements_draftOf, Option.map_eq_some_iff] at stated
    rcases stated with ⟨instruction, fetched, rfl⟩
    rcases Option.map_eq_some_iff.mp jumps with ⟨label, labelled, named⟩
    exact ⟨label, ⟨index, instruction, fetched, labelled⟩, named⟩
  · rintro ⟨label, ⟨index, instruction, fetched, labelled⟩, named⟩
    refine ⟨transcript program commented index instruction, ?_, ?_⟩
    · apply List.mem_of_getElem?
      rw [Array.getElem?_toList, statements_draftOf, fetched]
      rfl
    · simp [transcript, labelled, named]

variable {program}

theorem label?_placed (tokens : List String) (index : Nat) (instruction : Instruction) :
    (placed tokens (transcript program commented index instruction)).label? =
      instruction.label?.map fun label => tokens.idxOf (indexName (program.target label)) := by
  cases instruction <;> rfl

/-- An instruction that is read leads where it led if its number does. -/
theorem mapLabel_placed {tokens : List String} (index : Nat) {instruction : Instruction}
    {change : Nat -> Nat}
    (leads : forall label, instruction.label? = some label ->
      change (tokens.idxOf (indexName (program.target label))) = program.target label) :
    (placed tokens (transcript program commented index instruction)).mapLabel change =
      instruction.mapLabel program.target := by
  cases instruction with
  | brz label | brPop1 label | brPop2 label | jmp label => exact congrArg _ (leads label rfl)
  | _ => rfl

section Held

variable {commented} {read : Program} (held : Held (draftOf program commented) read)
include held

/-- The labels that are read are the numbers of the names that were written. -/
theorem mem_referredLabels_read {label : Nat} :
    label ∈ read.referredLabels <-> ∃ other, other ∈ program.referredLabels ∧
      (numbering [] (draftOf program commented).statements.toList).idxOf
        (indexName (program.target other)) = label := by
  simp only [Program.mem_referredLabels_iff_getElem?, held.code_getElem?, statements_draftOf]
  constructor
  · rintro ⟨index, instruction, fetched, labelled⟩
    rw [Option.map_map, Option.map_eq_some_iff] at fetched
    rcases fetched with ⟨original, fetched, rfl⟩
    rw [Function.comp_apply, label?_placed, Option.map_eq_some_iff] at labelled
    rcases labelled with ⟨other, labelled, numbered⟩
    exact ⟨other, ⟨index, original, fetched, labelled⟩, numbered⟩
  · rintro ⟨other, ⟨index, instruction, fetched, labelled⟩, numbered⟩
    refine ⟨index, _, by rw [fetched]; rfl, ?_⟩
    rw [label?_placed, labelled, Option.map_some, numbered]

end Held

variable (closed : forall label, label ∈ program.referredLabels ->
  program.labels.find? label = some (program.target label) ∧
    program.target label ≤ program.size)
include closed

/-- The name of an index that an instruction leads to is resolved to the index. -/
theorem resolve?_draftOf {label : Nat} (referred : label ∈ program.referredLabels) :
    resolve? (draftOf program commented).names (draftOf program commented).statements.size
      (indexName (program.target label)) = some (program.target label) := by
  rcases closed label referred with ⟨found, inside⟩
  have counted : 0 < program.targetCount (program.target label) :=
    Program.targetCount_pos_iff.mpr ⟨label, found⟩
  rw [resolve?, names_draftOf program commented,
    if_pos ⟨Nat.lt_succ_of_le inside, counted⟩]

theorem isSome_resolve?_draftOf {token : String}
    (member : token ∈ destinations (draftOf program commented).statements.toList) :
    (resolve? (draftOf program commented).names (draftOf program commented).statements.size
      token).isSome := by
  rcases (mem_destinations_draftOf program commented).mp member with ⟨label, referred, rfl⟩
  rw [resolve?_draftOf commented closed referred]
  rfl

variable {commented} {read : Program} (held : Held (draftOf program commented) read)
include held

/-- The label of an instruction that is read is bound to where the instruction leads. -/
theorem find?_read {label : Nat} (referred : label ∈ program.referredLabels) :
    read.labels.find? ((numbering [] (draftOf program commented).statements.toList).idxOf
      (indexName (program.target label))) = some (program.target label) := by
  rw [held.find?_idxOf ((mem_destinations_draftOf program commented).mpr
    ⟨label, referred, rfl⟩)]
  exact resolve?_draftOf commented closed referred

theorem linked_read : read.linked = program.linked := by
  apply Array.ext_getElem?
  intro index
  rw [Program.getElem?_linked, Program.getElem?_linked, held.code_getElem?,
    statements_draftOf]
  cases fetched : program.code[index]? with
  | none => rfl
  | some instruction =>
      apply congrArg some
      apply mapLabel_placed
      intro label labelled
      have referred : label ∈ program.referredLabels :=
        Program.mem_referredLabels_iff_getElem?.mpr ⟨index, instruction, fetched, labelled⟩
      exact Program.target_of_find? (find?_read closed held referred)

/-- The indices with labels in the program that is read are those that its jumps lead to. -/
theorem targetCount_read (index : Nat) :
    0 < read.targetCount index <->
      ∃ place : Nat, program.linked[place]?.bind Instruction.label? = some index := by
  rw [← linked_read closed held]
  apply Program.targetCount_pos_iff_linked
  · intro label referred
    rcases (mem_referredLabels_read held).mp referred with ⟨other, original, rfl⟩
    have leads := find?_read closed held original
    rw [Program.target_of_find? leads, leads]
  · intro label target found
    rcases held.exists_token found with ⟨token, member, resolved⟩
    rcases (mem_destinations_draftOf program commented).mp member with ⟨other, original, rfl⟩
    rw [resolve?_draftOf commented closed original] at resolved
    refine ⟨_, (mem_referredLabels_read held).mpr ⟨other, original, rfl⟩, ?_⟩
    rw [Program.target_of_find? (find?_read closed held original)]
    exact Option.some.inj resolved

end Read

/-- Whether no comment has blanks at its ends. -/
def Trimmed (program : Program) : Prop :=
  forall index, index < program.size ->
    Text.trim (program.commentText index).toList = (program.commentText index).toList

theorem commentText_read {program read : Program} (held : Held (draftOf program true) read)
    (trimmed : Trimmed program) (index : Nat) :
    read.commentText index = if index < program.size then program.commentText index else "" := by
  have own : read.commentsAt index = ((program.code[index]?.map
      (transcript program true index)).map fun statement => statement.comment.toList).getD [] := by
    rw [← statements_draftOf, ← Array.getElem?_map, Program.commentsAt, held.comments]
    rfl
  rw [Program.commentText, own]
  split
  · rename_i inside
    have fetched : program.code[index]? = some program.code[index] :=
      Array.getElem?_eq_getElem inside
    simp only [fetched, Option.map_some, Option.getD_some, transcript, if_true]
    exact intercalate_commentOf (trimmed index inside)
  · rename_i outside
    have past : program.code[index]? = none := Array.getElem?_eq_none (Nat.le_of_not_lt outside)
    rw [past]
    rfl

theorem lineText_congr {left right : Program} {commented : Bool} {index : Nat}
    {first second : Instruction}
    (linked : first.mapLabel left.target = second.mapLabel right.target)
    (named : 0 < left.targetCount index <-> 0 < right.targetCount index)
    (comments : commented = true -> left.commentText index = right.commentText index) :
    lineText left commented index first = lineText right commented index second := by
  simp only [lineText, mainText, labelColumn, linked, named, commentTail]
  cases commented with
  | false => rfl
  | true => rw [comments rfl]

/-- A listing shows the linked code, which indices have labels, and the comments. -/
theorem write_congr {left right : Program} {commented : Bool}
    (linked : left.linked = right.linked)
    (named : forall index, 0 < left.targetCount index <-> 0 < right.targetCount index)
    (comments : commented = true -> forall index, index < right.size ->
      left.commentText index = right.commentText index) :
    write left commented = write right commented := by
  have size : left.size = right.size := by
    rw [← Program.size_linked, linked, Program.size_linked]
  have lines : linesFrom left commented 0 left.code.toList =
      linesFrom right commented 0 right.code.toList := by
    apply List.ext_getElem?
    intro index
    -- The linked code tells whether there is a line, and what stands in its columns.
    have same : left.linked[index]? = right.linked[index]? := by rw [linked]
    rw [Program.getElem?_linked, Program.getElem?_linked] at same
    simp only [linesFrom, List.getElem?_map, List.getElem?_zipIdx, Array.getElem?_toList,
      Option.map_map]
    cases here : left.code[index]? with
    | none =>
        rw [here, Option.map_none, eq_comm, Option.map_eq_none_iff] at same
        rw [same]
        rfl
    | some first =>
        rw [here, Option.map_some, eq_comm, Option.map_eq_some_iff] at same
        rcases same with ⟨second, there, linked⟩
        rw [there]
        have inside : index < right.size := (Array.getElem?_eq_some_iff.mp there).1
        have line : lineText left commented index first = lineText right commented index second :=
          lineText_congr linked.symm (named index) fun wanted => comments wanted index inside
        simpa using line
  apply String.toList_inj.mp
  rw [toList_write, toList_write, lines, size]
  simp only [named]

/-- A program that names only storages that exist, in which every label that is referred to is
bound to an index or to the end, and of which no comment breaks a line, comes back from its
listing with the same operation, literal or slot and destination at every index.  Its comments
come back if they were written and have no blanks at their ends.  If then every label is
referred to, what is read has the same listing. -/
theorem read_write {program : Program} (commented : Bool)
    (slots : forall instruction, instruction ∈ program.code -> instruction.hasSlot = true)
    (bound : forall label, label ∈ program.referredLabels ->
      ∃ target, program.labels.find? label = some target ∧ target ≤ program.size)
    (oneLine : forall index, index < program.size ->
      '\n' ∉ (program.commentText index).toList) :
    ∃ read, Listing.read (write program commented).toList = .ok read ∧ read.Agrees program ∧
      (commented = true -> Trimmed program -> forall index, read.commentText index =
        if index < program.size then program.commentText index else "") ∧
      ((commented = true -> Trimmed program) ->
        (forall label, label ∈ program.labels.keys -> label ∈ program.referredLabels) ->
        write read commented = write program commented) := by
  have closed : forall label, label ∈ program.referredLabels ->
      program.labels.find? label = some (program.target label) ∧
        program.target label ≤ program.size := by
    intro label referred
    rcases bound label referred with ⟨target, found, inside⟩
    rw [Program.target_of_find? found]
    exact ⟨found, inside⟩
  rcases read_eq_ok (readLines_write commented slots oneLine)
    (fun _ => isSome_resolve?_draftOf commented closed) with ⟨read, done, held⟩
  have linked := linked_read closed held
  have comments : commented = true -> Trimmed program -> forall index,
      read.commentText index =
        if index < program.size then program.commentText index else "" := by
    rintro rfl trimmed index
    exact commentText_read held trimmed index
  refine ⟨read, done, Program.agrees_of_linked_eq linked, comments, ?_⟩
  intro trimmed used
  apply write_congr linked
  · intro index
    rw [targetCount_read closed held,
      Program.targetCount_pos_iff_linked fun label referred => (closed label referred).1]
    intro label target found
    have referred := used label ((Table.mem_keys_iff ..).mpr ⟨target, found⟩)
    exact ⟨label, referred, Program.target_of_find? found⟩
  · intro wanted index below
    rw [comments wanted (trimmed wanted), if_pos below]

/-- A loop that branches to its end, with comments that hold separators and look like indices. -/
def remarked : Program where
  code := #[.push (-3), .brz 7, .sel 21, .jmp 3]
  labels := Table.ofList [(3, 0), (7, 4)]
  comments := some #[["L0 ; a: b"], [], ["L7"], ["back", "L2"]]

theorem read_write_remarked :
    ∃ read, Listing.read (write remarked true).toList = .ok read ∧ read.Agrees remarked ∧
      (forall index, read.commentText index =
        if index < 4 then remarked.commentText index else "") ∧
      write read true = write remarked true := by
  have slots : forall instruction, instruction ∈ remarked.code ->
      instruction.hasSlot = true := by
    decide
  have bound : forall label, label ∈ remarked.referredLabels ->
      ∃ target, remarked.labels.find? label = some target ∧ target ≤ remarked.size := by
    intro label referred
    have listed : label ∈ [7, 3] := referred
    simp only [List.mem_cons, List.not_mem_nil, or_false] at listed
    rcases listed with rfl | rfl
    · exact ⟨4, rfl, by decide⟩
    · exact ⟨0, rfl, by decide⟩
  have oneLine : forall index, index < remarked.size ->
      '\n' ∉ (remarked.commentText index).toList := by
    decide +kernel
  have trimmed : Trimmed remarked := by
    unfold Trimmed
    decide +kernel
  have used : forall label, label ∈ remarked.labels.keys ->
      label ∈ remarked.referredLabels := by
    decide
  rcases read_write true slots bound oneLine with ⟨read, done, agrees, comments, same⟩
  exact ⟨read, done, agrees, comments rfl trimmed, same (fun _ => trimmed) used⟩

end Listing
end HangulPane
