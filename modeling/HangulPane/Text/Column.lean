namespace HangulPane
namespace Text

/-!
Columns of fixed least width.  Widths count characters; a text that is already
as wide as its column is left as it is.
-/

def spaces (count : Nat) : String :=
  String.ofList (List.replicate count ' ')

/-- The text, followed by as many spaces as the column still needs. -/
def padRight (width : Nat) (text : String) : String :=
  text ++ spaces (width - text.length)

/-- The text, preceded by as many spaces as the column still needs. -/
def padLeft (width : Nat) (text : String) : String :=
  spaces (width - text.length) ++ text

end Text
end HangulPane
