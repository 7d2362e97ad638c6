import HangulPane.Proofs.Listing.WellFormed
import Mathlib.Data.List.Dedup
import Mathlib.Data.List.Induction

namespace HangulPane

/-!
Where the jumps of a listing lead.

A listing is looked at as a whole here: what a label stands for is told by the last line that
defines it and the instructions above that line, and the jumps are told by the lines on which
they stand.  Reading comes to the same line by line.  The draft of some lines knows the labels
that they define and the jumps that they hold, so that each jump is resolved, or refused, by
what all lines say.
-/

/-- The label of the instruction at an index, if it is a control instruction. -/
def Program.labelAt? (program : Program) (index : Nat) : Option Nat :=
  program.code[index]?.bind Instruction.label?

namespace Listing

/-- A jump as it stands in a listing. -/
structure Jump where
  /-- The number of its line, counted from one. -/
  line : Nat
  /-- Its index among the instructions. -/
  index : Nat
  /-- Its operand. -/
  token : String
  deriving DecidableEq, Repr

/-- The label that a line defines. -/
def labelOf? (text : List Char) : Option String :=
  (Line.ofText text).label.map String.ofList

/-- The operand on a line whose operation is a jump. -/
def jumpOperand? (text : List Char) : Option String :=
  match (Line.ofText text).words with
  | first :: operand :: _ =>
      if (operationOf? first).any Opcode.isJump then some (String.ofList operand) else none
  | _ => none

/-- What is wrong with a line. -/
def lineError? (number : Nat) (text : List Char) : Option ProgramError :=
  match (Line.ofText text).words with
  | [] => none
  | first :: others =>
      match readStatement number first others (Line.ofText text).comment with
      | .error error => some error
      | .ok _ => none

/-- What is wrong with the first line with which something is. -/
def firstLineError? (lines : List (List Char)) : Option ProgramError :=
  (lines.zipIdx 1).findSome? fun (text, number) => lineError? number text

/-- How many instructions there are: one on each line that has a word for it. -/
def instructionCount (lines : List (List Char)) : Nat :=
  lines.countP fun text => !(Line.ofText text).words.isEmpty

/-- The jumps, in order. -/
def jumps (lines : List (List Char)) : List Jump :=
  lines.zipIdx.filterMap fun (text, place) =>
    (jumpOperand? text).map fun token =>
      { line := place + 1, index := instructionCount (lines.take place), token }

/-- The index that a label stands for: the number of instructions above the last line that
defines it. -/
def definition? (lines : List (List Char)) (token : String) : Option Nat :=
  (lines.zipIdx.reverse.find? fun (text, _) => labelOf? text = some token).map fun (_, place) =>
    instructionCount (lines.take place)

/-- The index that an operand leads to: what it stands for as a label, or else the number that
it is, unless that is beyond the end. -/
def resolution? (lines : List (List Char)) (token : String) : Option Nat :=
  (definition? lines token).or
    ((Decimal.index? token.toList).filter (· ≤ instructionCount lines))

section Append

variable (lines : List (List Char)) (text : List Char)

theorem instructionCount_append : instructionCount (lines ++ [text]) =
    instructionCount lines + if (Line.ofText text).words.isEmpty then 0 else 1 := by
  rw [instructionCount, List.countP_append, List.countP_singleton, instructionCount]
  cases (Line.ofText text).words.isEmpty <;> rfl

theorem firstLineError?_append : firstLineError? (lines ++ [text]) =
    (firstLineError? lines).or (lineError? (lines.length + 1) text) := by
  rw [firstLineError?, List.zipIdx_append, List.findSome?_append, Nat.add_comm 1,
    List.zipIdx_singleton, List.findSome?_singleton, firstLineError?]

/-- The instructions above a line are not changed by a line below it. -/
theorem instructionCount_take_append {place : Nat} (above : place ≤ lines.length) :
    instructionCount ((lines ++ [text]).take place) = instructionCount (lines.take place) := by
  rw [List.take_append_of_le_length above]

theorem jumps_append : jumps (lines ++ [text]) =
    jumps lines ++ ((jumpOperand? text).map fun token =>
      { line := lines.length + 1, index := instructionCount lines, token }).toList := by
  have last : instructionCount ((lines ++ [text]).take lines.length) = instructionCount lines := by
    rw [instructionCount_take_append lines text (Nat.le_refl _), List.take_length]
  rw [jumps, List.zipIdx_append, List.filterMap_append, Nat.zero_add, List.zipIdx_singleton]
  congr 1
  · apply List.filterMap_congr
    rintro ⟨other, place⟩ member
    have above : place < lines.length := List.snd_lt_of_mem_zipIdx member
    dsimp only
    rw [instructionCount_take_append lines text (Nat.le_of_lt above)]
  · dsimp only [List.filterMap]
    rw [last]
    cases jumpOperand? text <;> rfl

theorem definition?_append (token : String) : definition? (lines ++ [text]) token =
    if labelOf? text = some token then some (instructionCount lines)
    else definition? lines token := by
  rw [definition?, List.zipIdx_append, Nat.zero_add, List.zipIdx_singleton, List.reverse_append,
    List.reverse_singleton, List.singleton_append, List.find?_cons]
  by_cases own : labelOf? text = some token
  · simp only [own, decide_true, if_true, Option.map_some]
    rw [instructionCount_take_append lines text (Nat.le_refl _), List.take_length]
  · simp only [own, decide_false, if_false]
    rw [definition?]
    cases found : lines.zipIdx.reverse.find? fun (text, _) => labelOf? text = some token with
    | none => rfl
    | some entry =>
        have member := List.mem_reverse.mp (List.mem_of_find?_eq_some found)
        have above : entry.2 < lines.length := List.snd_lt_of_mem_zipIdx member
        dsimp only [Option.map]
        rw [instructionCount_take_append lines text (Nat.le_of_lt above)]

/-- Reading one more line comes after reading those above it. -/
theorem readLines_append (draft : Draft) (number : Nat) :
    readLines draft number (lines ++ [text]) =
      (readLines draft number lines).bind fun draft =>
        readLine draft (number + lines.length) (Line.ofText text) := by
  induction lines generalizing draft number with
  | nil =>
      simp only [List.nil_append, readLines, List.length_nil, Nat.add_zero, Except.bind]
      cases readLine draft number (Line.ofText text) <;> rfl
  | cons first later inductionHypothesis =>
      simp only [List.cons_append, readLines, List.length_cons]
      cases readLine draft number (Line.ofText first) with
      | error error => rfl
      | ok next =>
          dsimp only
          rw [inductionHypothesis, Nat.add_assoc, Nat.add_comm 1]

end Append

/-- The jump that a statement with the given index is. -/
def Statement.jumpAt? (index : Nat) (statement : Statement) : Option Jump :=
  statement.destination.map fun token => { line := statement.line, index, token }

/-- The jumps among statements, the first of which has the given index. -/
def jumpsFrom (index : Nat) (statements : List Statement) : List Jump :=
  (statements.zipIdx index).filterMap fun (statement, index) => statement.jumpAt? index

theorem mem_jumpsFrom {statements : List Statement} {jump : Jump} :
    jump ∈ jumpsFrom 0 statements <-> ∃ statement, statements[jump.index]? = some statement ∧
      statement.line = jump.line ∧ statement.destination = some jump.token := by
  simp only [jumpsFrom, List.mem_filterMap, List.mem_zipIdx_iff_getElem?, Prod.exists,
    Statement.jumpAt?, Option.map_eq_some_iff]
  constructor
  · rintro ⟨statement, index, fetched, token, jumps, rfl⟩
    exact ⟨statement, fetched, rfl, jumps⟩
  · rintro ⟨statement, fetched, line, jumps⟩
    exact ⟨statement, jump.index, fetched, jump.token, jumps, by rw [line]⟩

theorem map_token_jumpsFrom (index : Nat) (statements : List Statement) :
    (jumpsFrom index statements).map Jump.token = destinations statements := by
  have tokens : forall statement : Statement × Nat,
      (statement.1.jumpAt? statement.2).map Jump.token = statement.1.destination := by
    rintro ⟨statement, index⟩
    simp [Statement.jumpAt?, Function.comp_def]
  simp only [jumpsFrom, List.map_filterMap, tokens, destinations]
  conv_rhs => rw [← List.zipIdx_map_fst index statements, List.filterMap_map]
  rfl

/-- What a draft knows of the lines that it was read from. -/
structure Drafted (lines : List (List Char)) (draft : Draft) : Prop where
  size : draft.statements.size = instructionCount lines
  names : forall token, draft.names.lookup token = definition? lines token
  listed : jumpsFrom 0 draft.statements.toList = jumps lines
  labelled : forall statement, statement ∈ draft.statements ->
    statement.instruction.label?.isSome = statement.destination.isSome

theorem drafted_nil : Drafted [] { statements := #[], names := [] } where
  size := rfl
  names := fun _ => rfl
  listed := rfl
  labelled := by
    intro statement member
    cases Array.not_mem_empty statement member

/-- The destination of the statement of a line is the operand of its jump. -/
theorem destination_of_readStatement {number : Nat} {text first : List Char}
    {others : List (List Char)} {comment : Option (List Char)} {statement : Statement}
    (words : (Line.ofText text).words = first :: others)
    (read : readStatement number first others comment = .ok statement) :
    statement.destination = jumpOperand? text := by
  rcases readStatement_cases read with ⟨operation, value, named, operand, _, _⟩
  unfold jumpOperand?
  rw [words]
  rcases readOperand_cases operand with ⟨jump, word, head, destination⟩ | ⟨plain, destination⟩
  · rcases List.head?_eq_some_iff.mp head with ⟨rest, rfl⟩
    simp [named, jump, destination]
  · rw [destination]
    cases others <;> simp [named, plain]

section Drafted

variable {lines : List (List Char)} {draft : Draft} (drafted : Drafted lines draft)
include drafted

theorem Drafted.lookup_names (text : List Char) (token : String) :
    (match (Line.ofText text).label with
      | some label => (String.ofList label, draft.statements.size) :: draft.names
      | none => draft.names).lookup token = definition? (lines ++ [text]) token := by
  rw [definition?_append, labelOf?, ← drafted.names, ← drafted.size]
  cases (Line.ofText text).label with
  | none => rfl
  | some label =>
      simp only [Option.map_some, Option.some.injEq, List.lookup_cons]
      by_cases own : String.ofList label = token
      · rw [if_pos own, beq_iff_eq.mpr own.symm]
      · rw [if_neg own, beq_eq_false_iff_ne.mpr (Ne.symm own)]

/-- What a draft knows of the lines above, it knows after one more line, unless something is
wrong with that. -/
theorem Drafted.readLine (text : List Char) :
    (∃ error, lineError? (lines.length + 1) text = some error ∧
        Listing.readLine draft (lines.length + 1) (Line.ofText text) = .error error) ∨
      (lineError? (lines.length + 1) text = none ∧
        ∃ next, Listing.readLine draft (lines.length + 1) (Line.ofText text) = .ok next ∧
          Drafted (lines ++ [text]) next) := by
  have names := drafted.lookup_names text
  have size := instructionCount_append lines text
  have jumping := jumps_append lines text
  unfold lineError? Listing.readLine
  cases words : (Line.ofText text).words with
  | nil =>
      have idle : jumpOperand? text = none := by rw [jumpOperand?, words]
      rw [words] at size
      rw [idle] at jumping
      refine Or.inr ⟨rfl, _, rfl, drafted.size.trans size.symm, names, ?_, drafted.labelled⟩
      rw [jumping]
      exact drafted.listed.trans (List.append_nil _).symm
  | cons first others =>
      rw [words] at size
      dsimp only
      cases read : readStatement (lines.length + 1) first others (Line.ofText text).comment with
      | error error => exact Or.inl ⟨error, rfl, rfl⟩
      | ok statement =>
          have destination := destination_of_readStatement words read
          rcases readStatement_cases read with ⟨_, _, _, _, _, line⟩
          refine Or.inr ⟨rfl, _, rfl, ?_, names, ?_, ?_⟩
          · rw [Array.size_push, drafted.size, size, List.isEmpty_cons, if_neg Bool.false_ne_true]
          · rw [jumping, ← drafted.listed, Array.toList_push, jumpsFrom, List.zipIdx_append,
              List.filterMap_append, List.zipIdx_singleton, Nat.zero_add, Array.length_toList,
              drafted.size, ← destination, ← line]
            congr 1
          · intro other member
            rcases Array.mem_push.mp member with earlier | rfl
            · exact drafted.labelled other earlier
            · exact label?_of_readStatement read

end Drafted

/-- Lines are read into a draft that knows them, or the first line with which something is wrong
is refused. -/
theorem readLines_cases (lines : List (List Char)) :
    (∃ error, firstLineError? lines = some error ∧
        readLines { statements := #[], names := [] } 1 lines = .error error) ∨
      (firstLineError? lines = none ∧
        ∃ draft, readLines { statements := #[], names := [] } 1 lines = .ok draft ∧
          Drafted lines draft) := by
  -- From behind: one more line adds to what the lines above it say, and takes nothing back.
  induction lines using List.reverseRecOn with
  | nil => exact Or.inr ⟨rfl, _, rfl, drafted_nil⟩
  | append_singleton lines text inductionHypothesis =>
      rw [firstLineError?_append, readLines_append, Nat.add_comm 1]
      rcases inductionHypothesis with ⟨error, wrong, refused⟩ | ⟨fine, draft, read, drafted⟩
      · rw [wrong, refused]
        exact Or.inl ⟨error, rfl, rfl⟩
      · rw [fine, read]
        exact drafted.readLine text

/-- The labels of a program that is read from lines. -/
structure Linked (lines : List (List Char)) (program : Program) : Prop where
  size : program.size = instructionCount lines
  /-- Each jump has a label, which is bound to where its operand leads. -/
  bound : forall jump, jump ∈ jumps lines ->
    ∃ label target, program.labelAt? jump.index = some label ∧
      program.labels.find? label = some target ∧ resolution? lines jump.token = some target
  /-- Nothing else has a label. -/
  only : forall index label, program.labelAt? index = some label ->
    ∃ jump, jump ∈ jumps lines ∧ jump.index = index
  /-- Jumps share a label if they share the operand, and not otherwise. -/
  shared : forall first second, first ∈ jumps lines -> second ∈ jumps lines ->
    (program.labelAt? first.index = program.labelAt? second.index <->
      first.token = second.token)
  /-- An operand that is used for the first time takes the next number: there are as many labels
  before it as different operands. -/
  numbered : forall before jump after, jumps lines = before ++ jump :: after ->
    jump.token ∉ before.map Jump.token ->
    program.labelAt? jump.index = some (before.map Jump.token).dedup.length

theorem nodup_foldl_enroll {known : List String} (nodup : known.Nodup) (tokens : List String) :
    (tokens.foldl enroll known).Nodup := by
  induction tokens generalizing known with
  | nil => exact nodup
  | cons token later inductionHypothesis =>
      apply inductionHypothesis
      unfold enroll
      split
      · exact nodup
      · rename_i fresh
        exact nodup.append (List.nodup_singleton token) (List.disjoint_singleton.mpr fresh)

/-- As many numbers are given as there are different tokens. -/
theorem length_foldl_enroll (tokens : List String) :
    (tokens.foldl enroll []).length = tokens.dedup.length := by
  have same : (tokens.foldl enroll []).Perm tokens.dedup := by
    rw [List.perm_ext_iff_of_nodup (nodup_foldl_enroll List.nodup_nil tokens)
      (List.nodup_dedup tokens)]
    intro token
    rw [mem_foldl_enroll, List.mem_dedup]
    simp
  exact same.length_eq

/-- The number of a token is that of the different tokens before its first use. -/
theorem idxOf_foldl_enroll {before : List String} {token : String} (fresh : token ∉ before)
    (after : List String) :
    ((before ++ token :: after).foldl enroll []).idxOf token = before.dedup.length := by
  have unknown : token ∉ before.foldl enroll [] := by
    rw [mem_foldl_enroll]
    simpa using fresh
  have numbered : enroll (before.foldl enroll []) token = before.foldl enroll [] ++ [token] :=
    if_neg unknown
  have kept := isPrefix_foldl_enroll (before.foldl enroll [] ++ [token]) after
  rw [List.foldl_append, List.foldl_cons, numbered, ← kept.idxOf_eq_of_mem (by simp),
    List.idxOf_append_of_notMem unknown, List.idxOf_cons_self, length_foldl_enroll]
  rfl

section Held

variable {lines : List (List Char)} {draft : Draft} (drafted : Drafted lines draft)
include drafted

theorem Drafted.resolve?_eq (token : String) :
    resolve? draft.names draft.statements.size token = resolution? lines token := by
  unfold resolve? resolution?
  rw [drafted.names, drafted.size]
  cases definition? lines token with
  | some target => rfl
  | none =>
      cases Decimal.index? token.toList with
      | none => rfl
      | some target => simp [Option.filter]

theorem Drafted.destinations_eq :
    destinations draft.statements.toList = (jumps lines).map Jump.token := by
  rw [← drafted.listed, map_token_jumpsFrom]

theorem Drafted.numbering_eq :
    numbering [] draft.statements.toList = ((jumps lines).map Jump.token).foldl enroll [] := by
  rw [numbering, drafted.destinations_eq]

variable {program : Program} (held : Held draft program)
include held

/-- The label of a jump is the number of its operand. -/
theorem Drafted.labelAt?_eq {jump : Jump} (member : jump ∈ jumps lines) :
    program.labelAt? jump.index =
      some ((((jumps lines).map Jump.token).foldl enroll []).idxOf jump.token) := by
  rw [← drafted.listed, mem_jumpsFrom] at member
  rcases member with ⟨statement, fetched, _, destination⟩
  rw [Array.getElem?_toList] at fetched
  have labelled := drafted.labelled statement (Array.mem_of_getElem? fetched)
  rw [destination, Option.isSome_some] at labelled
  rcases Option.isSome_iff_exists.mp labelled with ⟨label, own⟩
  rw [Program.labelAt?, held.code_getElem?, fetched, Option.map_some, Option.bind_some, placed,
    destination, ← drafted.numbering_eq]
  dsimp only
  rw [Instruction.withLabel, Instruction.label?_mapLabel, own]
  rfl

theorem Drafted.linked : Linked lines program where
  size := held.size_eq.trans drafted.size
  bound := by
    intro jump member
    have used : jump.token ∈ destinations draft.statements.toList := by
      rw [drafted.destinations_eq]
      exact List.mem_map_of_mem member
    rcases Option.isSome_iff_exists.mp (held.resolved jump.token used) with ⟨target, resolved⟩
    refine ⟨_, target, drafted.labelAt?_eq held member, ?_, ?_⟩
    · rw [← drafted.numbering_eq, held.find?_idxOf used]
      exact resolved
    · rw [← drafted.resolve?_eq]
      exact resolved
  only := by
    intro index label found
    rw [Program.labelAt?, held.code_getElem?] at found
    rcases Option.bind_eq_some_iff.mp found with ⟨instruction, there, labelled⟩
    rcases Option.map_eq_some_iff.mp there with ⟨statement, fetched, rfl⟩
    have destined := drafted.labelled statement (Array.mem_of_getElem? fetched)
    cases destination : statement.destination with
    | none =>
        rw [placed, destination] at labelled
        rw [destination, labelled] at destined
        cases destined
    | some token =>
        refine ⟨{ line := statement.line, index, token }, ?_, rfl⟩
        rw [← drafted.listed, mem_jumpsFrom]
        exact ⟨statement, Array.getElem?_toList ▸ fetched, rfl, destination⟩
  shared := by
    intro first second firstMember secondMember
    have known : first.token ∈ ((jumps lines).map Jump.token).foldl enroll [] :=
      mem_foldl_enroll.mpr (Or.inr (List.mem_map_of_mem firstMember))
    rw [drafted.labelAt?_eq held firstMember, drafted.labelAt?_eq held secondMember,
      Option.some.injEq, List.idxOf_inj known]
  numbered := by
    intro before jump after split_ fresh
    have member : jump ∈ jumps lines := by
      rw [split_]
      exact List.mem_append_right _ List.mem_cons_self
    rw [drafted.labelAt?_eq held member, split_, List.map_append, List.map_cons,
      idxOf_foldl_enroll fresh]

end Held

/-- Labels are refused to the first statement whose destination cannot be resolved. -/
theorem assignLabels_eq_error {names : List (String × Nat)} {size : Nat}
    {statements : List Statement} {index : Nat} {jump : Jump}
    (first : (jumpsFrom index statements).find? (fun jump =>
      (resolve? names size jump.token).isNone) = some jump) (tokens : List String)
    (labels : Table) :
    assignLabels names size tokens labels statements =
      .error (.undefinedLabel jump.line jump.token) := by
  induction statements generalizing index tokens labels with
  | nil => cases first
  | cons statement later inductionHypothesis =>
      rw [jumpsFrom, List.zipIdx_cons, List.filterMap_cons] at first
      cases jumps : statement.destination with
      | none =>
          simp only [Statement.jumpAt?, jumps, Option.map_none] at first
          rw [assignLabels_cons_none jumps, inductionHypothesis first]
          rfl
      | some token =>
          simp only [Statement.jumpAt?, jumps, Option.map_some] at first
          rw [List.find?_cons] at first
          cases resolved : resolve? names size token with
          | none =>
              simp only [resolved, Option.isNone_none] at first
              cases first
              simp only [assignLabels, jumps, resolved]
          | some target =>
              simp only [resolved, Option.isNone_some] at first
              rw [assignLabels_cons_some jumps resolved, inductionHypothesis first]
              rfl

/-- What reading a listing comes to if nothing is wrong with any line. -/
structure Linkage (text : List Char) : Prop where
  /-- There is a program exactly if the operand of each jump leads somewhere. -/
  succeeds : (∃ program, read text = .ok program) <->
    forall jump, jump ∈ jumps (Text.lines text) ->
      (resolution? (Text.lines text) jump.token).isSome
  /-- Each jump of the program leads where its operand does. -/
  links : forall program, read text = .ok program -> Linked (Text.lines text) program
  /-- What is refused is the first jump whose operand leads nowhere. -/
  fails : forall error, read text = .error error ->
    ∃ jump, (jumps (Text.lines text)).find? (fun jump =>
        (resolution? (Text.lines text) jump.token).isNone) = some jump ∧
      error = .undefinedLabel jump.line jump.token

section Read

variable {text : List Char} {draft : Draft}
  (lines : readLines { statements := #[], names := [] } 1 (Text.lines text) = .ok draft)
  (drafted : Drafted (Text.lines text) draft)
include lines drafted

theorem linked_of_read {program : Program} (done : read text = .ok program) :
    Linked (Text.lines text) program := by
  rcases exists_held_of_read done with ⟨other, same, held⟩
  rw [lines] at same
  cases same
  exact drafted.linked held

theorem exists_read (resolved : forall jump, jump ∈ jumps (Text.lines text) ->
      (resolution? (Text.lines text) jump.token).isSome) :
    ∃ program, read text = .ok program := by
  have destined : forall token, token ∈ destinations draft.statements.toList ->
      (resolve? draft.names draft.statements.size token).isSome := by
    intro token used
    rw [drafted.destinations_eq] at used
    rcases List.mem_map.mp used with ⟨jump, member, rfl⟩
    rw [drafted.resolve?_eq]
    exact resolved jump member
  rcases read_eq_ok lines destined with ⟨program, done, _⟩
  exact ⟨program, done⟩

theorem read_eq_undefinedLabel {jump : Jump}
    (first : (jumps (Text.lines text)).find? (fun jump =>
      (resolution? (Text.lines text) jump.token).isNone) = some jump) :
    read text = .error (.undefinedLabel jump.line jump.token) := by
  simp only [← drafted.resolve?_eq, ← drafted.listed] at first
  simp only [read, lines, assignLabels_eq_error first]

/-- A listing whose lines can be read is resolved as a whole. -/
theorem linkage_of_drafted : Linkage text where
  succeeds := by
    constructor
    · rintro ⟨program, done⟩ jump member
      rcases (linked_of_read lines drafted done).bound jump member with
        ⟨label, target, _, _, resolved⟩
      rw [resolved]
      rfl
    · exact exists_read lines drafted
  links := fun _ done => linked_of_read lines drafted done
  fails := by
    intro error failed
    cases first : (jumps (Text.lines text)).find? (fun jump =>
        (resolution? (Text.lines text) jump.token).isNone) with
    | none =>
        rw [List.find?_eq_none] at first
        have resolved : forall jump, jump ∈ jumps (Text.lines text) ->
            (resolution? (Text.lines text) jump.token).isSome := by
          intro jump member
          rw [← Option.not_isNone, Bool.not_eq_true']
          exact Bool.eq_false_iff.mpr (first jump member)
        rcases exists_read lines drafted resolved with ⟨program, done⟩
        rw [failed] at done
        cases done
    | some jump =>
        rw [read_eq_undefinedLabel lines drafted first] at failed
        cases failed
        exact ⟨jump, rfl, rfl⟩

end Read

/-- Reading a listing refuses the first line with which something is wrong.  If there is none,
each jump leads where its operand does by what all lines say, or else the first jump is refused
whose operand leads nowhere. -/
theorem read_linkage (text : List Char) :
    (forall error, firstLineError? (Text.lines text) = some error -> read text = .error error) ∧
      (firstLineError? (Text.lines text) = none -> Linkage text) := by
  rcases readLines_cases (Text.lines text) with
    ⟨error, wrong, refused⟩ | ⟨fine, draft, lines, drafted⟩
  · constructor
    · intro other first
      rw [wrong] at first
      cases first
      rw [read, refused]
    · intro fine
      rw [wrong] at fine
      cases fine
  · constructor
    · intro error first
      rw [fine] at first
      cases first
    · intro _
      exact linkage_of_drafted lines drafted

end Listing
end HangulPane
