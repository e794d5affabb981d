/-
Words and digits of regular expressions.

A word consists of letters, marks and decimal digits. Regular expressions go by the sixteenth
edition of the character set; what only the seventeenth has is no part of a word for them.
-/
import TableQuery.Text.Letter
import TableQuery.Text.Mark
import TableQuery.Text.Numeral

namespace TableQuery.Text

/-- The letters, marks and digits that the seventeenth edition added. -/
def recentRanges : Ranges :=
  [(0x88f, 0x88f), (0xc5c, 0xc5c), (0xcdc, 0xcdc), (0x1acf, 0x1add), (0x1ae0, 0x1aeb),
   (0xa7ce, 0xa7cf), (0xa7d2, 0xa7d2), (0xa7d4, 0xa7d4), (0xa7f1, 0xa7f1), (0x10940, 0x10959),
   (0x10ec5, 0x10ec7), (0x10efa, 0x10efb), (0x11b60, 0x11b67), (0x11db0, 0x11ddb),
   (0x11de0, 0x11de9), (0x16ea0, 0x16eb8), (0x16ebb, 0x16ed3), (0x16ff2, 0x16ff6),
   (0x187f8, 0x187ff), (0x18d09, 0x18d1e), (0x18d80, 0x18df2), (0x1e6c0, 0x1e6de),
   (0x1e6e0, 0x1e6f5), (0x1e6fe, 0x1e6ff), (0x2b73a, 0x2b73f), (0x2cea2, 0x2cead),
   (0x323b0, 0x33479)]

/-- The characters of words. -/
def wordRanges : Ranges := ((letterRanges.union markRanges).union decimalRanges).diff recentRanges

/-- The decimal digits among them. -/
def digitRanges : Ranges := decimalRanges.diff recentRanges

/-- The character is part of a word. -/
def isWordChar (c : Char) : Bool := wordRanges.contains c

end TableQuery.Text
