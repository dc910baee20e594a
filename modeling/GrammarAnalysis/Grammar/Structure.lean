import GrammarAnalysis.Grammar.Basic

/-!
# The Structure of Expansions

How the nodes of a grammar hang together: what a non-terminal refers to, which production a
node is a part of, what is below a node and what comes after it. The walks up and down the
nodes are on a budget of one step for each node of the grammar.

Parentheses around a sequence are *superfluous*: they do not change what is matched.
-/

namespace GrammarAnalysis

namespace Grammar

/-! ### References -/

/-- The production that a non-terminal refers to, if it is defined. -/
def referredProduction (g : Grammar) (e : Nat) : Option Nat :=
  match g.shape e with
  | .nonTerminal name => g.productionNamed name
  | _ => none

/-- The root of a production. -/
def root (g : Grammar) (p : Nat) : Nat := (g.production p).root

/-- The root of the production that a non-terminal refers to. -/
def referredRoot (g : Grammar) (e : Nat) : Option Nat := (g.referredProduction e).map g.root

/-- The expansion inside of a repetition, an option or parentheses, and the root of the
production that a non-terminal refers to. -/
def nestedExpansion (g : Grammar) (e : Nat) : Option Nat :=
  match g.shape e with
  | .zeroOrMore body | .oneOrMore body | .zeroOrOne body | .parentheses body => some body
  | .nonTerminal _ => g.referredRoot e
  | _ => none

/-- The non-terminals that refer to a production by its name. -/
def referringNonTerminals (g : Grammar) (p : Nat) : List Nat :=
  (List.range g.size).filter fun e => g.shape e == .nonTerminal (g.production p).name

/-! ### Upward -/

/-- The production reached by going up from a node, out of lookaheads too. -/
def containingWithin (g : Grammar) : (budget : Nat) → Nat → Option Nat
  | 0, _ => none
  | budget + 1, e =>
    match g.parent e with
    | .production p => some p
    | .expansion above | .lookahead above => containingWithin g budget above
    | .none => none

/-- The production that a node is a part of. -/
def containingProduction (g : Grammar) (e : Nat) : Option Nat := g.containingWithin g.depth e

/-- A lookahead is reached by going up from a node. -/
def insideLookaheadWithin (g : Grammar) : (budget : Nat) → Nat → Bool
  | 0, _ => false
  | budget + 1, e =>
    match g.parent e with
    | .lookahead _ => true
    | .expansion above => insideLookaheadWithin g budget above
    | .production _ | .none => false

/-- The node is a part of a lookahead. -/
def isInsideLookahead (g : Grammar) (e : Nat) : Bool := g.insideLookaheadWithin g.depth e

/-- The lexical state of the production that the node is the root of. -/
def specifiedLexicalState (g : Grammar) (e : Nat) : Option String :=
  match g.parent e with
  | .production p => (g.production p).lexicalState
  | _ => none

/-- The first loop met by going up from a node, itself included. -/
def loopAncestorWithin (g : Grammar) : (budget : Nat) → Nat → Option Nat
  | 0, _ => none
  | budget + 1, e =>
    if (g.shape e).isLoop then some e
    else (g.parentNode e).bind (loopAncestorWithin g budget)

/-- The closest loop around a node, or the node if it is a loop. -/
def firstLoopAncestor (g : Grammar) (e : Nat) : Option Nat := g.loopAncestorWithin g.depth e

/-! ### Superfluous parentheses -/

/-- The sequence inside of superfluous parentheses. -/
def parenthesizedSequence (g : Grammar) (e : Nat) : Option Nat :=
  match g.shape e with
  | .parentheses body => if g.isSequence body then some body else none
  | _ => none

/-- The node is parentheses around a sequence. -/
def isSuperfluous (g : Grammar) (e : Nat) : Bool := (g.parenthesizedSequence e).isSome

/-- What a node belongs to. For an operand of superfluous parentheses, this is asked again of
the expansion that the parentheses are an operand of. -/
def properParentWithin (g : Grammar) : (budget : Nat) → Nat → Parent
  | 0, e => g.parent e
  | budget + 1, e =>
    match g.parent e with
    | .expansion p =>
      if g.isSuperfluous p then
        match g.parentNode p with
        | some above => properParentWithin g budget above
        | none => g.parent p
      else .expansion p
    | parent => parent

/-- What a node belongs to, where superfluous parentheses are passed over together with the
expansion that they are an operand of. -/
def properParent (g : Grammar) (e : Nat) : Parent := g.properParentWithin g.depth e

/-- The operands of a node, each superfluous parenthesis followed by the operands inside. -/
def unitsWithin (g : Grammar) : (budget : Nat) → Nat → List Nat
  | 0, _ => []
  | budget + 1, e =>
    (g.children e).flatMap fun unit =>
      unit :: match g.parenthesizedSequence unit with
        | some inner => unitsWithin g budget inner
        | none => []

/-- The operands of a node, each superfluous parenthesis followed by the operands inside. -/
def allUnits (g : Grammar) (e : Nat) : List Nat := g.unitsWithin g.depth e

/-! ### Downward -/

/-- The nodes directly below a node: those of its lookahead, then its operands. -/
def attached (g : Grammar) (e : Nat) : List Nat :=
  let parts := match (g.node e).lookahead with
    | some lookahead => lookahead.nested.toList ++ lookahead.upTo.toList
    | none => []
  parts ++ g.children e

/-- The nodes below a node, each before those below it. -/
def descendantsWithin (g : Grammar) : (budget : Nat) → Nat → List Nat
  | 0, _ => []
  | budget + 1, e => (g.attached e).flatMap fun below => below :: descendantsWithin g budget below

/-- The nodes below a node, those of lookaheads included, each before those below it. -/
def descendants (g : Grammar) (e : Nat) : List Nat := g.descendantsWithin g.depth e

/-- A code block below the node also runs while the parser looks ahead. -/
def hasLookaheadCode (g : Grammar) (e : Nat) : Bool :=
  (g.descendants e).any fun d => (g.shape d).isLookaheadCode

/-- An operand of the node makes the parser fail. -/
def hasFailureChild (g : Grammar) (e : Nat) : Bool :=
  (g.children e).any fun c => (g.shape c).isFailure

/-! ### Sideways -/

/-- The operands of the node's sequence that come before the node, if it is in one. -/
def unitsBefore (g : Grammar) (e : Nat) : Option (List Nat) :=
  match g.parentNode e with
  | none => none
  | some parent =>
    if g.isSequence parent && (g.children parent).contains e then
      some ((g.children parent).takeWhile (· != e))
    else none

/-- The operands of a sequence that come after its unit `e`, if it is one. -/
def unitsAfter (g : Grammar) (sequence e : Nat) : List Nat :=
  ((g.children sequence).dropWhile (· != e)).drop 1

/-- The node after `e` in its sequence or, if there is none, after what `e` is an operand of. -/
def followingWithin (g : Grammar) : (budget : Nat) → Nat → Option Nat
  | 0, _ => none
  | budget + 1, e =>
    match g.parentNode e with
    | none => none
    | some parent =>
      match if g.isSequence parent then (g.unitsAfter parent e).head? else none with
      | some next => some next
      | none => followingWithin g budget parent

/-- The node after `e` in its sequence or, if there is none, after what `e` is an operand of. -/
def following (g : Grammar) (e : Nat) : Option Nat := g.followingWithin g.depth e

end Grammar

end GrammarAnalysis
