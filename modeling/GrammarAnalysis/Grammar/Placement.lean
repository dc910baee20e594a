import GrammarAnalysis.Grammar.Size

/-!
# Where an Expansion Stands

Whether the parser has to choose at an expansion, and what comes before it. Units that can be
empty are looked past, so these questions need the sizes.
-/

namespace GrammarAnalysis

namespace Grammar

/-- The parser has to choose here: at the root of a production, at an alternative, at the body
of a loop or option, and inside of parentheses that begin such a place. -/
def choicePointWithin (g : Grammar) : (budget : Nat) → Nat → Bool
  | 0, _ => false
  | budget + 1, e =>
    match g.parent e with
    | .production _ => true
    | .lookahead _ | .none => false
    | .expansion parent =>
      match g.shape parent with
      | .choice _ | .zeroOrMore _ | .oneOrMore _ | .zeroOrOne _ => true
      | .parentheses _ =>
        match g.parentNode parent with
        | none => choicePointWithin g budget parent
        | some above =>
          if g.isSequence above then
            choicePointWithin g budget above
              && ((g.unitsBefore parent).getD []).all fun unit => g.maximumSize unit == 0
          else
            choicePointWithin g budget parent
      | _ => false

/-- The parser has to choose whether, or how often, to enter the node. -/
def isAtChoicePoint (g : Grammar) (e : Nat) : Bool := g.choicePointWithin g.depth e

/-- The node is in a sequence, and the units before it can all be empty. -/
def beginsSequence (g : Grammar) (e : Nat) : Bool :=
  match g.unitsBefore e with
  | some before => before.all g.possiblyEmpty
  | none => false

/-- The last unit before the node, in its sequence, that can match a token. -/
def preceding (g : Grammar) (e : Nat) : Option Nat :=
  match g.unitsBefore e with
  | some before => before.reverse.find? fun unit => 0 < g.maximumSize unit
  | none => none

/-- The node ends a loop: after it, nothing has to be matched before the loop goes on. -/
def endOfLoopWithin (g : Grammar) : (budget : Nat) → Nat → Bool
  | 0, _ => false
  | budget + 1, e =>
    if (g.shape e).isLoop then true
    else match g.parentNode e with
      | none => false
      | some parent =>
        if g.isSequence parent && !(g.unitsAfter parent e).all g.possiblyEmpty then false
        else endOfLoopWithin g budget parent

/-- The node is a loop or ends one: after it, nothing has to be matched before the loop goes
on. -/
def isAtEndOfLoop (g : Grammar) (e : Nat) : Bool := g.endOfLoopWithin g.depth e

/-- The first unit of a sequence that cannot be empty. Superfluous parentheses are looked into,
and passed if there is no such unit inside. -/
def firstNonEmptyWithin (g : Grammar) : (budget : Nat) → Nat → Option Nat
  | 0, _ => none
  | budget + 1, e =>
    (g.children e).findSome? fun unit =>
      match g.parenthesizedSequence unit with
      | some inner => firstNonEmptyWithin g budget inner
      | none => if g.possiblyEmpty unit then none else some unit

/-- The first unit of a sequence that cannot be empty. Superfluous parentheses are looked into,
and passed if there is no such unit inside. -/
def firstNonEmpty (g : Grammar) (e : Nat) : Option Nat := g.firstNonEmptyWithin g.depth e

end Grammar

end GrammarAnalysis
