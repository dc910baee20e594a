import GrammarAnalysis.Automaton.Indexing

/-!
# Lexical States

A lexer is always in one of its lexical states. Each lexical state has the automaton of the
patterns that can be matched in it, and the table of the literal texts among them: texts that
match as they are written, and texts that match in any case. The second kind is looked up by
its upper-case form.

## Main definitions

* `LexicalState` — the automaton, the table of literals, and the patterns;
* `LexicalState.findLiteral` — the pattern of a literal text;
* `LexicalState.methodName`, `movesName` — the names in the generated lexer.
-/

namespace GrammarAnalysis

/-- The lexical state that a lexer begins in. -/
def defaultLexicalState : String := "DEFAULT"

/-- A lexical state. -/
structure LexicalState where
  name : String
  automaton : Automaton := .start
  /-- The literals that match as they are written, with their patterns. -/
  exactLiterals : List (String × Nat) := []
  /-- The literals that match in any case, in upper case, with their patterns. -/
  foldedLiterals : List (String × Nat) := []
  /-- The patterns that the automaton was built from. -/
  patterns : OrderedSet Nat := ∅
  /-- The token productions of the state, in the order of their addition. -/
  tokenProductions : List Nat := []
deriving Repr, Inhabited

namespace LexicalState

/-- No pattern can be matched in this state. -/
def isEmpty (s : LexicalState) : Bool := s.patterns.isEmpty

/-- The automaton was built from this pattern, among others. -/
def hasPattern (s : LexicalState) (pattern : Nat) : Bool := decide (pattern ∈ s.patterns)

/-- Enters a literal text into the table. -/
def addLiteral (s : LexicalState) (image : String) (pattern : Nat) (ignoreCase : Bool) :
    LexicalState :=
  if ignoreCase then
    { s with foldedLiterals := (CaseMap.upperText image, pattern) :: s.foldedLiterals }
  else
    { s with exactLiterals := (image, pattern) :: s.exactLiterals }

/-- The pattern of a literal text: one with exactly this text, or else one that matches in any
case and has the same upper-case form. -/
def findLiteral (s : LexicalState) (image : String) : Option Nat :=
  match s.exactLiterals.lookup image with
  | some pattern => some pattern
  | none => s.foldedLiterals.lookup (CaseMap.upperText image)

/-! ### Names in the generated lexer -/

/-- The name of an indexed state: `kind`, then the lexical state unless it is the default one,
then the index. -/
def indexedName (s : LexicalState) (kind : String) (id : Nat) : Option String :=
  (s.automaton.state id).index.map fun index =>
    let scope := if s.name = defaultLexicalState then "" else s.name ++ "_"
    kind ++ scope ++ toString index

/-- The method of a state. Composite states are told apart by their names. -/
def methodName (s : LexicalState) (id : Nat) : Option String :=
  s.indexedName (if (s.automaton.state id).isComposite then "NFA_COMPOSITE_" else "NFA_") id

/-- The table of the moves of a state. -/
def movesName (s : LexicalState) (id : Nat) : Option String :=
  s.indexedName
    (if (s.automaton.state id).isComposite then "NFA_MOVES_COMPOSITE_" else "NFA_MOVES_") id

end LexicalState

end GrammarAnalysis
