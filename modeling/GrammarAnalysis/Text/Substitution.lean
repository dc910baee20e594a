/-!
# Substitution in Texts

Names are derived from one another by substituting a part of the text: the first occurrence of
a pattern, or every occurrence, from the left and without overlaps. The pattern is never empty.
-/

namespace GrammarAnalysis

namespace Substitution

/-- Replaces the first occurrence of `pattern` in a list of characters. -/
def first (pattern replacement : List Char) : List Char → List Char
  | [] => []
  | c :: rest =>
    if pattern.isPrefixOf (c :: rest) then replacement ++ (c :: rest).drop pattern.length
    else c :: first pattern replacement rest

/-- Replaces every occurrence of `pattern`, once `skipped` characters are passed over. -/
def allAfter (pattern replacement : List Char) : Nat → List Char → List Char
  | _, [] => []
  | skipped + 1, _ :: rest => allAfter pattern replacement skipped rest
  | 0, c :: rest =>
    if pattern.isPrefixOf (c :: rest) then
      replacement ++ allAfter pattern replacement (pattern.length - 1) rest
    else
      c :: allAfter pattern replacement 0 rest

end Substitution

/-- Replaces the first occurrence of `pattern` in the text. -/
def replaceFirst (pattern replacement text : String) : String :=
  String.ofList (Substitution.first pattern.toList replacement.toList text.toList)

/-- Replaces every occurrence of `pattern` in the text. -/
def replaceAll (pattern replacement text : String) : String :=
  String.ofList (Substitution.allAfter pattern.toList replacement.toList 0 text.toList)

/-- The text begins with `start`. -/
def beginsWith (start text : String) : Bool :=
  start.toList.isPrefixOf text.toList

end GrammarAnalysis
