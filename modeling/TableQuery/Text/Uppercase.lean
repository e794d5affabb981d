/-
Texts whose upper form is written in ASCII.

Besides the ASCII characters, a few letters have an upper form in ASCII: the dotless i, the long s,
the sharp s and the ligatures of `f` and `st`.
-/
import TableQuery.Text.Ranges

namespace TableQuery.Text

/-- The letters outside ASCII with an upper form in ASCII. -/
def asciiUpperForms : List (Char × List Char) :=
  [('ß', ['S', 'S']), ('ı', ['I']), ('ſ', ['S']), ('ﬀ', ['F', 'F']), ('ﬁ', ['F', 'I']),
    ('ﬂ', ['F', 'L']), ('ﬃ', ['F', 'F', 'I']), ('ﬄ', ['F', 'F', 'L']), ('ﬅ', ['S', 'T']),
    ('ﬆ', ['S', 'T'])]

/-- The upper form of a character, if it is ASCII. -/
def asciiUpper? (c : Char) : Option (List Char) :=
  if c.toNat < 128 then some [c.toUpper] else asciiUpperForms.lookup c

/-- The upper form of a text, if it is ASCII. -/
def asciiUppercase? (text : List Char) : Option (List Char) :=
  (text.mapM asciiUpper?).map List.flatten

end TableQuery.Text
