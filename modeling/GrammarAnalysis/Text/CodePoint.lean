import GrammarAnalysis.Text.Alphabetic
import GrammarAnalysis.Text.Numeric
import GrammarAnalysis.Text.ExtendingMark
import GrammarAnalysis.Text.Unprintable

/-!
# Code Points as Text

Code points are natural numbers. The ones below `codePointEnd` make up the code space, of
which the surrogates are no characters; the analysis also carries numbers beyond the code space
that come from the definition of a grammar. This module says how a code point, and a text, are
*shown* in messages: a code point with a glyph of its own stands for itself, and everything
else is escaped.
-/

namespace GrammarAnalysis

/-- The end of the code space, which is `[0, codePointEnd)`. -/
def codePointEnd : Nat := 0x110000

/-- The largest number that a code point can be. -/
def codePointMax : Nat := 0xFFFFFFFF

namespace CodePoint

/-- The escape of a code point by its hexadecimal number. -/
def hexEscape (c : Nat) : String :=
  "\\u\x7b" ++ String.ofList (Nat.toDigits 16 c) ++ "\x7d"

/-- The code point has a glyph that can be shown on its own. -/
def isPrintable (c : Nat) : Bool :=
  decide (c < codePointEnd) && !unprintableRanges.contains c && !extendingMarkRanges.contains c

/-- The text of a code point where `quote` delimits the text around it: the controls with a
letter of their own, the backslash and the delimiter take a backslash, and a code point without
a glyph is shown by its number. -/
def shown (quote : Char → Bool) (c : Nat) : String :=
  if c = 0 then "\\0"
  else if c = 9 then "\\t"
  else if c = 10 then "\\n"
  else if c = 13 then "\\r"
  else if c = 92 then "\\\\"
  else if isPrintable c then
    let ch := Char.ofNat c
    if quote ch then String.ofList ['\\', ch] else String.singleton ch
  else hexEscape c

/-- The text of a code point as a bound of a character class. The two ends of the code space
have names, and both kinds of quote are escaped. -/
def classText (c : Nat) : String :=
  if c = 0 then "MIN"
  else if c = codePointEnd - 1 then "MAX"
  else shown (fun q => q = '"' || q = '\'') c

end CodePoint

/-- A text between double quotes, with the escapes that make it readable. -/
def quotedText (s : String) : String :=
  "\"" ++ String.join (s.toList.map fun c => CodePoint.shown (· = '"') c.toNat) ++ "\""

end GrammarAnalysis
