namespace HangulPane
namespace Text

/-!
Capital letters, as far as they can spell a word of ASCII capitals.

Capitalising a text can only yield ASCII letters from ASCII letters and from the
few other characters whose capital form is made of ASCII letters: the dotless i,
the long s, the sharp s and the Latin ligatures.  All other characters are left
as they are, which is enough to decide whether a text spells a given word of
ASCII capitals.
-/

/-- The capital form of a character, as far as it consists of ASCII letters. -/
def capital (c : Char) : List Char :=
  if c.isLower then [c.toUpper]
  else if c = '\u0131' then ['I']
  else if c = '\u017F' then ['S']
  else if c = '\u00DF' then ['S', 'S']
  else if c = '\uFB00' then ['F', 'F']
  else if c = '\uFB01' then ['F', 'I']
  else if c = '\uFB02' then ['F', 'L']
  else if c = '\uFB03' then ['F', 'F', 'I']
  else if c = '\uFB04' then ['F', 'F', 'L']
  else if c = '\uFB05' then ['S', 'T']
  else if c = '\uFB06' then ['S', 'T']
  else [c]

def capitals (text : List Char) : List Char :=
  text.flatMap capital

end Text
end HangulPane
