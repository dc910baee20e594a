import GrammarAnalysis.Text.CodePoint

/-!
# Identifiers

An identifier begins with a letter, an underscore or a dollar sign, and goes on with those and
with digits. Letters and digits are those of every script.
-/

namespace GrammarAnalysis

/-- A character that can begin an identifier. -/
def isIdentifierStart (c : Char) : Bool :=
  alphabeticRanges.contains c.toNat || c = '_' || c = '$'

/-- A character that can stand in an identifier after the first one. -/
def isIdentifierRest (c : Char) : Bool :=
  alphabeticRanges.contains c.toNat || numericRanges.contains c.toNat || c = '_' || c = '$'

/-- The text is an identifier. -/
def isIdentifier (s : String) : Bool :=
  match s.toList with
  | [] => false
  | c :: rest => isIdentifierStart c && rest.all isIdentifierRest

/-- The text begins like an identifier. -/
def beginsIdentifier (s : String) : Bool :=
  match s.toList with
  | [] => false
  | c :: _ => isIdentifierStart c

end GrammarAnalysis
