import HangulPane.Text.Decimal

namespace HangulPane
namespace Document

/-!
Configuration documents, written in the notation TOML.

A document gives values to keys.  The only values that a key of the tools accepts
are integers, texts, and a table of one name with nothing in it, which is another
way to write the name.  Reading therefore knows just these: whatever else the
notation allows, such as fractions, dates, lists with items or deeper tables, no
key accepts, and the document is refused here already.  The same holds for texts
with a line break or a quotation mark at their end.
-/

/-- The value of a key. -/
inductive Value where
  | integer (value : Int)
  | text (value : String)
  /-- A list or table without content. -/
  | nothing
  /-- A table of one name without content. -/
  | named (name : String)
  deriving DecidableEq, Repr

/-- A line of a document. -/
inductive Statement where
  /-- The heading of a table. -/
  | heading (path : List String)
  /-- A value for the key at a path. -/
  | assign (path : List String) (value : Value)
  deriving DecidableEq, Repr

/-- Spaces and tabs, which may stand between the parts of a line. -/
def isGap (c : Char) : Bool :=
  c == ' ' || c == '\t'

def skipGap (text : List Char) : List Char :=
  text.dropWhile isGap

/-- The text after a line break, if it starts with one. -/
def lineBreak? : List Char -> Option (List Char)
  | '\n' :: rest => some rest
  | '\r' :: '\n' :: rest => some rest
  | _ => none

/-- Whether a comment may contain a character: all but control characters. -/
def isCommentChar (c : Char) : Bool :=
  c == '\t' || (' ' ≤ c && c != '\x7F')

/-- The text after a gap and a comment, if there is one. -/
def skipComment (text : List Char) : List Char :=
  match skipGap text with
  | '#' :: rest => rest.dropWhile isCommentChar
  | rest => rest

/-- The text of the next line, if nothing but a gap and a comment is left of this
one. -/
def endLine? (text : List Char) : Option (List Char) :=
  match skipComment text with
  | [] => some []
  | rest => lineBreak? rest

/-- Whether a key without quotation marks may contain a character. -/
def isBareChar (c : Char) : Bool :=
  c.isAlphanum || c == '_' || c == '-'

def hexValue? (c : Char) : Option Nat :=
  if c.isDigit then some (c.toNat - '0'.toNat)
  else if 'a' ≤ c && c ≤ 'f' then some (c.toNat - 'a'.toNat + 10)
  else if 'A' ≤ c && c ≤ 'F' then some (c.toNat - 'A'.toNat + 10)
  else none

/-- The number that digits of a base denote. -/
def numberOf? (base : Nat) (digits : List Char) : Option Nat :=
  digits.foldl
    (fun value digit =>
      match value, hexValue? digit with
      | some value, some digit => if digit < base then some (value * base + digit) else none
      | _, _ => none)
    (some 0)

/-- The character that a letter stands for after a backslash. -/
def escaped? : Char -> Option Char
  | 'b' => some '\x08'
  | 't' => some '\t'
  | 'n' => some '\n'
  | 'f' => some '\x0C'
  | 'r' => some '\r'
  | '"' => some '"'
  | '\\' => some '\\'
  | _ => none

/-- The character whose code point the given number of hexadecimal digits denote,
and the text after them. -/
def codePoint? (digits : Nat) (text : List Char) : Option (Char × List Char) :=
  if digits ≤ text.length then
    match numberOf? 16 (text.take digits) with
    | some code =>
        if code.isValidChar then some (Char.ofNat code, text.drop digits) else none
    | none => none
  else
    none

/-- The character that an escape stands for, and the text after it. -/
def escape? : List Char -> Option (Char × List Char)
  | [] => none
  | 'u' :: rest => codePoint? 4 rest
  | 'U' :: rest => codePoint? 8 rest
  | c :: rest => (escaped? c).map fun value => (value, rest)

/-- The rest of a text in double quotation marks, and what follows it. -/
def quoted? (text : List Char) : Option (List Char × List Char) :=
  match text with
  | [] => none
  | '"' :: rest => some ([], rest)
  | '\n' :: _ => none
  | '\\' :: rest =>
      match escape? rest with
      | none => none
      | some (c, later) =>
          if _shorter : later.length < rest.length + 1 then
            (quoted? later).map fun (value, after) => (c :: value, after)
          else
            none
  | c :: rest => (quoted? rest).map fun (value, after) => (c :: value, after)
termination_by text.length

/-- The rest of a text in single quotation marks, and what follows it. -/
def literal? : List Char -> Option (List Char × List Char)
  | [] => none
  | '\'' :: rest => some ([], rest)
  | '\n' :: _ => none
  | c :: rest => (literal? rest).map fun (value, after) => (c :: value, after)

def skipBlankLines (text : List Char) : List Char :=
  match lineBreak? (skipGap text) with
  | none => skipGap text
  | some later =>
      if _shorter : later.length < text.length then skipBlankLines later else later
termination_by text.length

/-- The text after a backslash at the end of a line: all blank space up to the next
character goes with it. -/
def continueLine? (text : List Char) : Option (List Char) :=
  (lineBreak? (skipGap text)).map skipBlankLines

/-- The rest of a text in three double quotation marks, and what follows it. -/
def longQuoted? (text : List Char) : Option (List Char × List Char) :=
  match text with
  | [] => none
  | '"' :: '"' :: '"' :: rest => some ([], rest)
  | '\n' :: _ => none
  | '\\' :: rest =>
      match continueLine? rest with
      | some later =>
          if _shorter : later.length < rest.length + 1 then longQuoted? later else none
      | none =>
          match escape? rest with
          | none => none
          | some (c, later) =>
              if _shorter : later.length < rest.length + 1 then
                (longQuoted? later).map fun (value, after) => (c :: value, after)
              else
                none
  | c :: rest => (longQuoted? rest).map fun (value, after) => (c :: value, after)
termination_by text.length

/-- The rest of a text in three single quotation marks, and what follows it. -/
def longLiteral? : List Char -> Option (List Char × List Char)
  | [] => none
  | '\'' :: '\'' :: '\'' :: rest => some ([], rest)
  | '\n' :: _ => none
  | c :: rest => (longLiteral? rest).map fun (value, after) => (c :: value, after)

def skipLineBreak (text : List Char) : List Char :=
  (lineBreak? text).getD text

/-- The text that a document starts with, and what follows it. -/
def text? : List Char -> Option (String × List Char)
  | '"' :: '"' :: '"' :: rest => (longQuoted? (skipLineBreak rest)).map asString
  | '\'' :: '\'' :: '\'' :: rest => (longLiteral? (skipLineBreak rest)).map asString
  | '"' :: rest => (quoted? rest).map asString
  | '\'' :: rest => (literal? rest).map asString
  | _ => none
where
  /-- The characters read, as a text. -/
  asString (read : List Char × List Char) : String × List Char :=
    (String.ofList read.1, read.2)

/-- The key at the start of the text, and what follows it. -/
def key? (text : List Char) : Option (String × List Char) :=
  match text with
  | '"' :: rest => (quoted? rest).map fun read => (String.ofList read.1, read.2)
  | '\'' :: rest => (literal? rest).map fun read => (String.ofList read.1, read.2)
  | _ =>
      let key := text.takeWhile isBareChar
      if key.isEmpty then none else some (String.ofList key, text.dropWhile isBareChar)

/-- The keys of a path, separated by points, and what follows them. -/
def path? (text : List Char) : Option (List String × List Char) :=
  match key? text with
  | none => none
  | some (key, rest) =>
      match skipGap rest with
      | '.' :: later =>
          if _shorter : (skipGap later).length < text.length then
            (path? (skipGap later)).map fun (keys, after) => (key :: keys, after)
          else
            none
      | after => some ([key], after)
termination_by text.length

/-- Digits without the underscores between them; one may stand between two
digits. -/
def ungrouped? : List Char -> Option (List Char)
  | [] => none
  | [c] => if c = '_' then none else some [c]
  | c :: '_' :: rest => if c = '_' then none else (ungrouped? rest).map (c :: ·)
  | c :: rest => if c = '_' then none else (ungrouped? rest).map (c :: ·)

/-- The number that grouped digits of a base denote. -/
def groupedNumber? (base : Nat) (digits : List Char) : Option Nat :=
  (ungrouped? digits).bind (numberOf? base)

/-- The number that decimal digits denote, a leading zero being refused. -/
def decimal? : List Char -> Option Nat
  | ['0'] => some 0
  | '0' :: _ => none
  | digits => groupedNumber? 10 digits

/-- The integer that a word denotes, if it fits a signed word. -/
def integer? (word : List Char) : Option Int :=
  let value : Option Int :=
    match word with
    | '0' :: 'x' :: digits => (groupedNumber? 16 digits).map Int.ofNat
    | '0' :: 'o' :: digits => (groupedNumber? 8 digits).map Int.ofNat
    | '0' :: 'b' :: digits => (groupedNumber? 2 digits).map Int.ofNat
    | '-' :: digits => (decimal? digits).map fun value => -(value : Int)
    | '+' :: digits => (decimal? digits).map Int.ofNat
    | digits => (decimal? digits).map Int.ofNat
  value.bind fun value => if Decimal.fitsWord value then some value else none

/-- Whether a number, a date or another bare word may contain a character. -/
def isWordChar (c : Char) : Bool :=
  c.isAlphanum || c == '_' || c == '+' || c == '-' || c == '.' || c == ':'

/-- The text after the gaps, comments and line breaks that it starts with. -/
def skipLines (text : List Char) : List Char :=
  match skipComment text with
  | [] => []
  | rest =>
      match lineBreak? rest with
      | none => rest
      | some later =>
          if _shorter : later.length < text.length then skipLines later else later
termination_by text.length

/-- What follows an empty list or table at the start of the text. -/
def nothing? : List Char -> Option (List Char)
  | '[' :: rest =>
      match skipLines rest with
      | ']' :: after => some after
      | _ => none
  | '\x7b' :: rest =>
      match skipGap rest with
      | '\x7d' :: after => some after
      | _ => none
  | _ => none

/-- The name in a table of one name without content, after its opening brace, and
what follows the table. -/
def namedTable? (text : List Char) : Option (String × List Char) :=
  match key? (skipGap text) with
  | none => none
  | some (name, rest) =>
      match skipGap rest with
      | '=' :: rest =>
          match nothing? (skipGap rest) with
          | none => none
          | some rest =>
              match skipGap rest with
              | '\x7d' :: after => some (name, after)
              | _ => none
      | _ => none

/-- The value at the start of the text, and what follows it. -/
def value? (text : List Char) : Option (Value × List Char) :=
  match text? text with
  | some (value, after) => some (.text value, after)
  | none =>
      match nothing? text with
      | some after => some (.nothing, after)
      | none =>
          match text with
          | '\x7b' :: rest => (namedTable? rest).map fun (name, after) => (.named name, after)
          | _ =>
              (integer? (text.takeWhile isWordChar)).map fun value =>
                (.integer value, text.dropWhile isWordChar)

/-- The heading after its opening bracket, and the next line. -/
def heading? (text : List Char) : Option (Statement × List Char) :=
  match path? (skipGap text) with
  | none => none
  | some (path, rest) =>
      match skipGap rest with
      | ']' :: rest => (endLine? rest).map fun after => (.heading path, after)
      | _ => none

/-- The assignment at the start of the text, and the next line. -/
def assignment? (text : List Char) : Option (Statement × List Char) :=
  match path? text with
  | none => none
  | some (path, rest) =>
      match skipGap rest with
      | '=' :: rest =>
          match value? (skipGap rest) with
          | none => none
          | some (value, rest) =>
              (endLine? rest).map fun after => (.assign path value, after)
      | _ => none

/-- The statements of a document; lists of tables are refused. -/
def statements? (text : List Char) : Option (List Statement) :=
  match skipLines text with
  | [] => some []
  | start =>
      let read :=
        match start with
        | '[' :: rest => heading? rest
        | _ => assignment? start
      match read with
      | none => none
      | some (statement, after) =>
          if _shorter : after.length < text.length then
            (statements? after).map (statement :: ·)
          else
            none
termination_by text.length

/-- Where the assignments of a document belong. -/
inductive Section where
  /-- To the document itself. -/
  | top
  /-- To the table of a key. -/
  | table (key : String)
  /-- To a table that has to stay empty. -/
  | closed
  deriving DecidableEq, Repr

/-- What the statements so far say. -/
structure Contents where
  values : List (String × Value)
  /-- The keys whose value was assigned, so that no heading may add to it. -/
  assigned : List String
  /-- The keys whose table has had its heading. -/
  opened : List String
  current : Section

/-- The contents with a value for a key that has none yet. -/
def Contents.put (contents : Contents) (key : String) (value : Value) : Option Contents :=
  if (contents.values.lookup key).isSome then none
  else some { contents with values := contents.values ++ [(key, value)] }

/-- The contents with an assigned value for a key that has none yet. -/
def Contents.assign (contents : Contents) (key : String) (value : Value) : Option Contents :=
  (contents.put key value).map fun contents =>
    { contents with assigned := key :: contents.assigned }

/-- The contents after one more statement. -/
def Contents.add (contents : Contents) (statement : Statement) : Option Contents :=
  match statement, contents.current with
  | .assign [key] value, .top => contents.assign key value
  | .assign [key, name] .nothing, .top => contents.assign key (.named name)
  | .assign [name] .nothing, .table key => contents.assign key (.named name)
  | .heading [key], _ =>
      if key ∈ contents.opened ∨ key ∈ contents.assigned then none
      else some { contents with opened := key :: contents.opened, current := .table key }
  | .heading [key, name], _ =>
      (contents.put key (.named name)).map fun contents => { contents with current := .closed }
  | _, _ => none

/-- The values of a document's keys.  A table that only has a heading is refused. -/
def read? (text : List Char) : Option (List (String × Value)) :=
  let text :=
    match text with
    | '\uFEFF' :: rest => rest
    | _ => text
  match statements? text with
  | none => none
  | some statements =>
      match statements.foldlM Contents.add
          { values := [], assigned := [], opened := [], current := .top } with
      | none => none
      | some contents =>
          if contents.opened.all fun key => (contents.values.lookup key).isSome then
            some contents.values
          else
            none

end Document
end HangulPane
