import GrammarAnalysis.CharSet

/-!
# Regular Expressions

The regular expressions of a grammar are trees over character classes, literal texts and
references to other, named expressions. A repetition has a list of operands, like every other
operator, although only the first one is ever matched: the construction of the automaton does not
read the others, while the names in them count, and so does whether they match the empty word.
A tree with a repetition that was given no operand is accepted in a grammar, but no automaton can be
built for it.

## Main definitions

* `Quantifier`, `Regex` — the trees;
* `Regex.quantified`, `Regex.dangling` — the repetitions of one operand, and of none;
* `Regex.references` — the names referred to, from left to right;
* `Regex.nullableWith` — the tree matches the empty word, given which names do;
* `Regex.render` — the text of a tree, operators first.
-/

namespace GrammarAnalysis

/-- How often the operand of a repetition is matched. -/
inductive Quantifier where
  /-- Any number of times. -/
  | star
  /-- At least once. -/
  | plus
  /-- At most once. -/
  | optional
  /-- At least `min` times, and at most `max` times if there is such a bound. -/
  | times (min : Nat) (max : Option Nat)
deriving DecidableEq, Repr

/-- The tree of a regular expression. -/
inductive Regex where
  /-- One code point of a class, or one outside of it. -/
  | chars (set : CharSet) (negated : Bool)
  /-- A literal text. -/
  | text (image : String)
  /-- The parts, one after the other. -/
  | concat (parts : List Regex)
  /-- One of the alternatives. -/
  | choice (alternatives : List Regex)
  /-- A repetition of the first operand. -/
  | repeated (quantifier : Quantifier) (operands : List Regex)
  /-- Whatever the named expression matches. -/
  | reference (name : String)
  /-- The end of the input. -/
  | endOfInput
deriving Repr, Inhabited

/-- The text of a quantifier. -/
def Quantifier.render : Quantifier → String
  | star => "*"
  | plus => "+"
  | optional => "?"
  | times min (some max) => "\x7b" ++ toString min ++ "," ++ toString max ++ "\x7d"
  | times min none => "\x7b" ++ toString min ++ ",\x7d"

namespace Regex

/-- A repetition of one operand. -/
@[match_pattern, reducible] def quantified (quantifier : Quantifier) (body : Regex) : Regex :=
  repeated quantifier [body]

/-- A repetition that was given no operand. -/
@[match_pattern, reducible] def dangling (quantifier : Quantifier) : Regex :=
  repeated quantifier []

/-- The text of the operator at the root of the tree. -/
def operatorText : Regex → String
  | chars set negated => (if negated then "~" else "") ++ set.render
  | text image => quotedText image
  | concat _ => "&"
  | choice _ => "|"
  | repeated q _ => q.render
  | reference name => "<" ++ name ++ ">"
  | endOfInput => "<EOF>"

mutual

/-- The text of the tree: the operator, then its operands between parentheses. -/
def render : Regex → String
  | concat parts => operatorText (concat parts) ++ renderOperands parts
  | choice alternatives => operatorText (choice alternatives) ++ renderOperands alternatives
  | repeated q operands => q.render ++ renderOperands operands
  | r => r.operatorText

/-- The operands between parentheses, or nothing if there are none. -/
def renderOperands : List Regex → String
  | [] => ""
  | r :: rest => "(" ++ render r ++ renderMore rest ++ ")"

/-- Further operands, each after a space. -/
def renderMore : List Regex → String
  | [] => ""
  | r :: rest => " " ++ render r ++ renderMore rest

end

mutual

/-- The names that the tree refers to, from left to right. -/
def references : Regex → List String
  | reference name => [name]
  | concat parts => referencesOfAll parts
  | choice alternatives => referencesOfAll alternatives
  | repeated _ operands => referencesOfAll operands
  | chars _ _ | text _ | endOfInput => []

/-- The names that the trees of a list refer to, from left to right. -/
def referencesOfAll : List Regex → List String
  | [] => []
  | r :: rest => references r ++ referencesOfAll rest

end

/-- The text, if the tree is a literal text. -/
def literal? : Regex → Option String
  | text image => some image
  | _ => none

/-- The name, if the tree is a reference. -/
def reference? : Regex → Option String
  | reference name => some name
  | _ => none

/-- The alternatives, if the tree is a choice. -/
def alternatives? : Regex → Option (List Regex)
  | choice alternatives => some alternatives
  | _ => none

mutual

/-- The tree matches the empty word, where `nullable` tells which names do. -/
def nullableWith (nullable : String → Bool) : Regex → Bool
  | chars _ _ => false
  | text image => image.isEmpty
  | concat parts => allNullable nullable parts
  | choice alternatives => anyNullable nullable alternatives
  | repeated .star _ | repeated .optional _ => true
  | repeated .plus operands => allNullable nullable operands
  | repeated (.times min _) operands => min == 0 || allNullable nullable operands
  | reference name => nullable name
  | endOfInput => false

/-- Each tree matches the empty word. -/
def allNullable (nullable : String → Bool) : List Regex → Bool
  | [] => true
  | r :: rest => nullableWith nullable r && allNullable nullable rest

/-- One of the trees matches the empty word. -/
def anyNullable (nullable : String → Bool) : List Regex → Bool
  | [] => false
  | r :: rest => nullableWith nullable r || anyNullable nullable rest

end

end Regex

end GrammarAnalysis
