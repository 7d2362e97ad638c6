import HangulPane.Proofs.Listing.Labels
import HangulPane.Proofs.Program.WellFormed

namespace HangulPane

/-!
What is read from a listing is a well-formed program.

The names of a listing stand for the number of statements before them, which is at most the
number of all, and a number that is used in place of a name is refused if it is larger.  Only
an operation that can name a storage takes a slot, and the slot is checked where it is read.
-/

namespace Listing

/-- Whether the statements of a draft name storages that exist and have a destination if they
jump, and its names stand for statements or for the end. -/
structure Draft.Sound (draft : Draft) : Prop where
  slots : forall statement, statement ∈ draft.statements ->
    statement.instruction.hasSlot = true
  destinations : forall statement, statement ∈ draft.statements ->
    statement.destination = none -> statement.instruction.label? = none
  names : forall name index, (name, index) ∈ draft.names -> index ≤ draft.statements.size

/-- The operand of a jump is its destination; nothing else has one. -/
theorem readOperand_cases {line : Nat} {operation : Opcode} {word : Option (List Char)}
    {value : Int64} {destination : Option String}
    (read : readOperand line operation word = .ok (value, destination)) :
    (operation.isJump = true ∧ ∃ text, word = some text ∧ destination = some (String.ofList text)) ∨
      (operation.isJump = false ∧ destination = none) := by
  unfold readOperand at read
  split at read
  · rename_i jump
    split at read
    · cases read
    · cases read
      exact Or.inl ⟨jump, _, rfl, rfl⟩
  · rename_i plain
    refine Or.inr ⟨Bool.not_eq_true _ ▸ plain, ?_⟩
    split at read
    · split at read
      · cases read
      · split at read
        · cases read
        · cases read
          rfl
    · cases read
      rfl

/-- A statement is read from an operation and its operand. -/
theorem readStatement_cases {line : Nat} {first : List Char} {others : List (List Char)}
    {comment : Option (List Char)} {statement : Statement}
    (read : readStatement line first others comment = .ok statement) :
    ∃ operation value, operationOf? first = some operation ∧
      readOperand line operation others.head? = .ok (value, statement.destination) ∧
      Instruction.ofParts? operation value = some statement.instruction ∧
      statement.line = line := by
  unfold readStatement at read
  split at read
  · cases read
  · rename_i operation named
    split at read
    · cases read
    · rename_i value destination operand
      split at read
      · cases read
      · rename_i instruction made
        cases read
        exact ⟨operation, value, named, operand, made, rfl⟩

/-- A statement has a destination exactly if its instruction is a control instruction. -/
theorem label?_of_readStatement {line : Nat} {first : List Char} {others : List (List Char)}
    {comment : Option (List Char)} {statement : Statement}
    (read : readStatement line first others comment = .ok statement) :
    statement.instruction.label?.isSome = statement.destination.isSome := by
  rcases readStatement_cases read with ⟨operation, value, _, operand, made, _⟩
  have label := statement.instruction.isJump_opcode
  rw [(Instruction.opcode_of_ofParts? made).1] at label
  rw [← label]
  rcases readOperand_cases operand with ⟨jump, word, _, destination⟩ | ⟨plain, destination⟩
  · rw [jump, destination]
    rfl
  · rw [plain, destination]
    rfl

theorem readStatement_sound {line : Nat} {first : List Char} {others : List (List Char)}
    {comment : Option (List Char)} {statement : Statement}
    (read : readStatement line first others comment = .ok statement) :
    statement.instruction.hasSlot = true ∧
      (statement.destination = none -> statement.instruction.label? = none) := by
  rcases readStatement_cases read with ⟨operation, value, _, _, made, _⟩
  refine ⟨(Instruction.opcode_of_ofParts? made).2, ?_⟩
  intro plain
  have label := label?_of_readStatement read
  rw [plain, Option.isSome_none] at label
  exact Option.isNone_iff_eq_none.mp (Option.isSome_eq_false_iff.mp label)

theorem Draft.Sound.readLine {draft later : Draft} (sound : draft.Sound) {number : Nat}
    {line : Line} (read : Listing.readLine draft number line = .ok later) : later.Sound := by
  -- A name stands for the statement that comes next, or for the end if none comes.
  have entered : forall names : List (String × Nat),
      (names = draft.names ∨ ∃ label, names = (label, draft.statements.size) :: draft.names) ->
        forall name index, (name, index) ∈ names -> index ≤ draft.statements.size := by
    rintro names (rfl | ⟨label, rfl⟩) name index member
    · exact sound.names name index member
    · rcases List.mem_cons.mp member with own | earlier
      · cases own
        exact Nat.le_refl _
      · exact sound.names name index earlier
  unfold Listing.readLine at read
  dsimp only at read
  split at read
  · cases read
    refine ⟨sound.slots, sound.destinations, entered _ ?_⟩
    cases line.label with
    | none => exact Or.inl rfl
    | some label => exact Or.inr ⟨String.ofList label, rfl⟩
  · split at read
    · cases read
    · rename_i statement stated
      cases read
      rcases readStatement_sound stated with ⟨named, jumps⟩
      refine ⟨?_, ?_, ?_⟩
      · intro other member
        rcases Array.mem_push.mp member with earlier | rfl
        · exact sound.slots other earlier
        · exact named
      · intro other member
        rcases Array.mem_push.mp member with earlier | rfl
        · exact sound.destinations other earlier
        · exact jumps
      · intro name index member
        rw [Array.size_push]
        refine Nat.le_succ_of_le (entered _ ?_ name index member)
        cases line.label with
        | none => exact Or.inl rfl
        | some label => exact Or.inr ⟨String.ofList label, rfl⟩

theorem Draft.Sound.readLines {texts : List (List Char)} {draft later : Draft}
    (sound : draft.Sound) {number : Nat}
    (read : Listing.readLines draft number texts = .ok later) : later.Sound := by
  induction texts generalizing draft number with
  | nil =>
      cases read
      exact sound
  | cons text rest inductionHypothesis =>
      rw [Listing.readLines] at read
      split at read
      · cases read
      · rename_i next line
        exact inductionHypothesis (sound.readLine line) read

theorem Draft.Sound.resolve?_le {draft : Draft} (sound : draft.Sound) {token : String}
    {target : Nat}
    (resolved : resolve? draft.names draft.statements.size token = some target) :
    target ≤ draft.statements.size := by
  unfold resolve? at resolved
  split at resolved
  · rename_i found
    cases resolved
    rcases List.lookup_eq_some_iff.mp found with ⟨front, back, split_, _⟩
    apply sound.names token target
    rw [split_]
    exact List.mem_append_right front List.mem_cons_self
  · split at resolved
    · split at resolved
      · rename_i inside
        cases resolved
        exact inside
      · contradiction
    · contradiction

theorem Draft.sound_empty : Draft.Sound { statements := #[], names := [] } where
  slots := by
    intro statement member
    simp at member
  destinations := by
    intro statement member
    simp at member
  names := by
    intro name index member
    contradiction

theorem Draft.Sound.hasSlot_placed {draft : Draft} (sound : draft.Sound) (tokens : List String)
    {statement : Statement} (member : statement ∈ draft.statements) :
    (placed tokens statement).hasSlot = true := by
  have named := sound.slots statement member
  unfold placed
  split
  · exact named
  · rw [Instruction.withLabel, Instruction.hasSlot_mapLabel]
    exact named

/-- A label in the code is the number of a destination. -/
theorem Draft.Sound.label?_placed {draft : Draft} (sound : draft.Sound) {tokens : List String}
    {statement : Statement} (member : statement ∈ draft.statements) {label : Nat}
    (labelled : (placed tokens statement).label? = some label) :
    ∃ token, token ∈ Listing.destinations draft.statements.toList ∧
      tokens.idxOf token = label := by
  unfold placed at labelled
  split at labelled
  · rename_i plain
    rw [sound.destinations statement member plain] at labelled
    contradiction
  · rename_i token jumps
    rw [Instruction.withLabel, Instruction.label?_mapLabel, Option.map_eq_some_iff] at labelled
    rcases labelled with ⟨_, _, same⟩
    refine ⟨token, ?_, same⟩
    exact List.mem_filterMap.mpr ⟨statement, Array.mem_toList_iff.mpr member, jumps⟩

theorem Held.exists_statement {draft : Draft} {program : Program} (held : Held draft program)
    {instruction : Instruction} (member : instruction ∈ program.code) :
    ∃ statement, statement ∈ draft.statements ∧
      placed (numbering [] draft.statements.toList) statement = instruction := by
  rw [← Array.mem_toList_iff, held.code, List.mem_map] at member
  rcases member with ⟨statement, member, same⟩
  exact ⟨statement, Array.mem_toList_iff.mp member, same⟩

theorem Held.wellFormed {draft : Draft} {program : Program} (held : Held draft program)
    (sound : draft.Sound) : program.WellFormed where
  bound := by
    intro label referred
    rcases Program.mem_referredLabels.mp referred with ⟨instruction, member, labelled⟩
    rcases held.exists_statement member with ⟨statement, stated, rfl⟩
    rcases sound.label?_placed stated labelled with ⟨token, used, rfl⟩
    rw [held.find?_idxOf used]
    exact Option.isSome_iff_exists.mp (held.resolved token used)
  targets := by
    intro label target found
    rcases held.exists_token found with ⟨token, _, resolved⟩
    rw [held.size_eq]
    exact sound.resolve?_le resolved
  slots := by
    intro instruction member
    rcases held.exists_statement member with ⟨statement, stated, rfl⟩
    exact sound.hasSlot_placed _ stated
  comments := by
    intro comments recorded
    rw [held.comments, Option.some.injEq] at recorded
    rw [← recorded, Array.size_map, held.size_eq]

theorem wellFormed_read {text : List Char} {program : Program}
    (done : read text = .ok program) : program.WellFormed := by
  rcases exists_held_of_read done with ⟨draft, lines, held⟩
  exact held.wellFormed (Draft.sound_empty.readLines lines)

end Listing
end HangulPane
