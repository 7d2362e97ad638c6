namespace HangulPane
namespace Text

/-!
Blank characters, and the cutting of text at blanks and at separators.

A character is blank when it has the Unicode property White_Space: twenty-five
code points, six of them in ASCII.  All functions work on lists of characters,
so that what they keep and what they drop can be read off the list.
-/

/-- The characters with the Unicode property White_Space. -/
def isBlank (c : Char) : Bool :=
  let code := c.toNat
  (0x09 ≤ code && code ≤ 0x0D) || code == 0x20 || code == 0x85 || code == 0xA0 ||
    code == 0x1680 || (0x2000 ≤ code && code ≤ 0x200A) || code == 0x2028 ||
    code == 0x2029 || code == 0x202F || code == 0x205F || code == 0x3000

def trimStart (text : List Char) : List Char :=
  text.dropWhile isBlank

def trimEnd (text : List Char) : List Char :=
  (text.reverse.dropWhile isBlank).reverse

def trim (text : List Char) : List Char :=
  trimEnd (trimStart text)

/-- The word that reaches the start of the text, and the words after it.  The
first component is empty when the text is empty or starts with a blank. -/
def leadingWord : List Char -> List Char × List (List Char)
  | [] => ([], [])
  | c :: rest =>
      let (word, later) := leadingWord rest
      if isBlank c then
        ([], if word.isEmpty then later else word :: later)
      else
        (c :: word, later)

/-- The maximal runs of characters that are not blank, in order. -/
def words (text : List Char) : List (List Char) :=
  let (word, later) := leadingWord text
  if word.isEmpty then later else word :: later

/-- The text before and after the first occurrence of the separator, if there
is one. -/
def cutAt (separator : Char) (text : List Char) : Option (List Char × List Char) :=
  match text.dropWhile (· != separator) with
  | [] => none
  | _ :: rest => some (text.takeWhile (· != separator), rest)

/-- The lines of a text: what stands between line feeds.  There is always one,
and a line feed at the very end is followed by one more, empty line. -/
def lines : List Char -> List (List Char)
  | [] => [[]]
  | c :: rest =>
      if c = '\n' then
        [] :: lines rest
      else
        match lines rest with
        | [] => [[c]]
        | line :: later => (c :: line) :: later

theorem lines_ne_nil (text : List Char) : lines text ≠ [] := by
  cases text with
  | nil => simp [lines]
  | cons c rest =>
      simp only [lines]
      split
      · simp
      · split <;> simp

end Text
end HangulPane
