import HangulPane.Program.Basic
import HangulPane.Program.Error
import HangulPane.Text.Blank
import HangulPane.Text.Capital

namespace HangulPane
namespace Listing

/-!
Reading programs from listings.

A line consists of an optional label before a colon, the name of an operation in
capital or small letters, the operand if the operation takes one, and an optional
comment after a semicolon; every part may be missing, and further words are
ignored.  Labels may be used before they are defined and the last definition of a
label counts, so the lines are read first and the operands of jumps are resolved
afterwards.  A jump whose operand is no label may name an index instead.
-/

structure Line where
  /-- The text before the colon, without surrounding blanks. -/
  label : Option (List Char)
  /-- The words of the instruction. -/
  words : List (List Char)
  /-- The text after the semicolon. -/
  comment : Option (List Char)

/-- The text before a separator, if it occurs, and otherwise the whole text; and
what follows the separator. -/
def splitComment (text : List Char) : List Char × Option (List Char) :=
  match Text.cutAt ';' text with
  | some (main, comment) => (main, some comment)
  | none => (text, none)

/-- The label before the colon, if there is one, and the rest of the text. -/
def splitLabel (text : List Char) : Option (List Char) × List Char :=
  match Text.cutAt ':' text with
  | some (label, rest) => (some (Text.trim label), rest)
  | none => (none, text)

def Line.ofText (text : List Char) : Line :=
  let (main, comment) := splitComment text
  let (label, instruction) := splitLabel main
  { label := label, words := Text.words instruction, comment := comment }

/-- Whether a word is an index as the comment column of a listing tells it. -/
def isIndexTag : List Char -> Bool
  | 'L' :: digits => !digits.isEmpty && digits.all Char.isDigit
  | _ => false

/-- A comment without surrounding blanks and without the index it may start with;
nothing if nothing is left. -/
def commentOf (text : List Char) : Option String :=
  let comment := Text.trim text
  let first := comment.takeWhile fun c => !Text.isBlank c
  let rest :=
    if isIndexTag first then
      Text.trimStart (comment.dropWhile fun c => !Text.isBlank c)
    else
      comment
  if rest.isEmpty then none else some (String.ofList rest)

/-- An instruction as it stands on a line.  The label of a control instruction is
still open. -/
structure Statement where
  /-- The number of the line, counted from one. -/
  line : Nat
  instruction : Instruction
  /-- The operand of a control instruction. -/
  destination : Option String
  comment : Option String

/-- What the lines read so far hold. -/
structure Draft where
  statements : Array Statement
  /-- The labels with the indices they name, the latest definition first. -/
  names : List (String × Nat)

/-- The operand of an operation as a number, and as the destination of a jump. -/
def readOperand (line : Nat) (operation : Opcode) (word : Option (List Char)) :
    Except ProgramError (Int64 × Option String) :=
  if operation.isJump then
    match word with
    | none => .error (.missingOperand line)
    | some word => .ok (0, some (String.ofList word))
  else if operation.takesOperand then
    match word with
    | none => .error (.missingOperand line)
    | some word =>
        match Decimal.word? word with
        | none => .error (.invalidOperand line (String.ofList word))
        | some value => .ok (value, none)
  else
    .ok (0, none)

/-- The operation that a word names. -/
def operationOf? (word : List Char) : Option Opcode :=
  Opcode.ofName? (String.ofList (Text.capitals word))

/-- The statement of a line, whose first word is given. -/
def readStatement (line : Nat) (first : List Char) (others : List (List Char))
    (comment : Option (List Char)) : Except ProgramError Statement :=
  match operationOf? first with
  | none => .error (.unknownMnemonic line (String.ofList first))
  | some operation =>
      match readOperand line operation others.head? with
      | .error error => .error error
      | .ok (value, destination) =>
          match Instruction.ofParts? operation value with
          | none => .error (.invalidStorage line value.toInt)
          | some instruction =>
              .ok { line, instruction, destination, comment := comment.bind commentOf }

def readLine (draft : Draft) (number : Nat) (line : Line) : Except ProgramError Draft :=
  let names :=
    match line.label with
    | some label => (String.ofList label, draft.statements.size) :: draft.names
    | none => draft.names
  match line.words with
  | [] => .ok { draft with names }
  | first :: others =>
      match readStatement number first others line.comment with
      | .error error => .error error
      | .ok statement => .ok { statements := draft.statements.push statement, names }

/-- The draft after the remaining lines, numbered from the given number. -/
def readLines (draft : Draft) (number : Nat) : List (List Char) -> Except ProgramError Draft
  | [] => .ok draft
  | text :: later =>
      match readLine draft number (Line.ofText text) with
      | .error error => .error error
      | .ok draft => readLines draft (number + 1) later

/-- The index that the operand of a jump names: that of a label, or else the
number itself if it is an index of the program or its end. -/
def resolve? (names : List (String × Nat)) (size : Nat) (destination : String) : Option Nat :=
  match names.lookup destination with
  | some target => some target
  | none =>
      match Decimal.index? destination.toList with
      | some target => if target ≤ size then some target else none
      | none => none

/-- The instructions of the statements and the table of their labels.  Equal
operands share a label, and labels are numbered in the order of their first use;
`tokens` are the operands that have a label already. -/
def assignLabels (names : List (String × Nat)) (size : Nat) (tokens : List String)
    (labels : Table) : List Statement -> Except ProgramError (List Instruction × Table)
  | [] => .ok ([], labels)
  | statement :: later =>
      match statement.destination with
      | none =>
          match assignLabels names size tokens labels later with
          | .error error => .error error
          | .ok (code, labels) => .ok (statement.instruction :: code, labels)
      | some token =>
          match resolve? names size token with
          | none => .error (.undefinedLabel statement.line token)
          | some target =>
              let tokens := if token ∈ tokens then tokens else tokens ++ [token]
              let label := tokens.idxOf token
              match assignLabels names size tokens (labels.insert label target) later with
              | .error error => .error error
              | .ok (code, labels) =>
                  .ok (statement.instruction.withLabel label :: code, labels)

/-- The program that a listing holds. -/
def read (text : List Char) : Except ProgramError Program :=
  match readLines { statements := #[], names := [] } 1 (Text.lines text) with
  | .error error => .error error
  | .ok draft =>
      match assignLabels draft.names draft.statements.size [] Table.empty
          draft.statements.toList with
      | .error error => .error error
      | .ok (code, labels) =>
          .ok
            { code := code.toArray
              labels := labels
              comments := some (draft.statements.map fun statement =>
                statement.comment.toList) }

end Listing
end HangulPane
