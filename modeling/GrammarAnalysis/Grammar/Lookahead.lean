import GrammarAnalysis.Grammar.Placement

/-!
# Lookaheads

A lookahead is carried by a sequence, and applies to the sequence and to what begins with it: a
sequence without a lookahead of its own takes over the one of a non-terminal, or of superfluous
parentheses, that it begins with, and a non-terminal the one of its production.

## Main definitions

* `Grammar.lookaheadOwner` — the sequence whose lookahead applies to a node;
* `Grammar.lookaheadOf` — that lookahead;
* `Grammar.carriedAmount`, `carriedAlwaysSucceeds`, `carriedRequiresScan` — properties of the
  lookahead that a sequence carries itself.
-/

namespace GrammarAnalysis

namespace Grammar

/-! ### The lookahead that applies to a node -/

/-- The owner of the lookahead that a sequence begins with. Units that match no token are passed
over, and the first non-terminal or superfluous parentheses among the units decides. -/
def leadingOwner (g : Grammar) (owner : Nat → Guarded (Option Nat)) :
    List Nat → Guarded (Option Nat)
  | [] => pure none
  | unit :: rest =>
    if (g.shape unit).isNonTerminal then owner unit
    else match g.parenthesizedSequence unit with
      | some inner => owner inner
      | none => do
        if 0 < (← g.maximumGuarded unit) then pure none else leadingOwner g owner rest

/-- The sequence whose lookahead applies to the node. `inside` holds the non-terminals that the
walk is inside of. -/
def ownerWithin (g : Grammar) : (budget : Nat) → (inside : List Nat) → Nat →
    Guarded (Option Nat)
  | 0, _, _ => .fallback none
  | budget + 1, inside, e =>
    match g.shape e with
    | .sequence units =>
      if (g.node e).lookahead.isSome then pure (some e)
      else g.leadingOwner (ownerWithin g budget inside) units
    | .nonTerminal name =>
      match g.productionNamed name with
      | none => pure none
      | some p =>
        if e ∈ inside then .fallback none
        else ownerWithin g budget (e :: inside) (g.root p)
    | _ => pure none

/-- The sequence whose lookahead applies to the node; cut if a guard was met. -/
def ownerGuarded (g : Grammar) (e : Nat) : Guarded (Option Nat) := g.ownerWithin g.budget [] e

/-- The sequence whose lookahead applies to the node. -/
def lookaheadOwner (g : Grammar) (e : Nat) : Option Nat := (g.ownerGuarded e).value

/-- The lookahead that the node carries itself. -/
def carried (g : Grammar) (e : Nat) : Option Lookahead := (g.node e).lookahead

/-- The lookahead that applies to the node. -/
def lookaheadOf (g : Grammar) (e : Nat) : Option Lookahead := (g.lookaheadOwner e).bind g.carried

/-- What the parser tries to decide whether to enter the node, given the owner of the lookahead
that applies: the expansion nested in the lookahead, or the node itself. -/
def expansionTried (g : Grammar) (e : Nat) (owner : Option Nat) : Nat :=
  ((owner.bind g.carried).bind (·.nested)).getD e

/-- What the parser tries to decide whether to enter the node. -/
def lookaheadExpansion (g : Grammar) (e : Nat) : Nat := g.expansionTried e (g.lookaheadOwner e)

/-- A lookahead was written here: a sequence counts with its own lookahead only, and any other
node with the one that applies to it. -/
def hasExplicitLookahead (g : Grammar) (e : Nat) : Bool :=
  if g.isSequence e then (g.carried e).isSome else (g.lookaheadOf e).isSome

/-- The lookahead that applies looks at a given number of tokens. -/
def hasExplicitAmount (g : Grammar) (e : Nat) : Bool := (g.lookaheadOf e).any (·.amount.isSome)

/-- The lookahead that applies tries an expansion of its own. -/
def hasSyntacticLookahead (g : Grammar) (e : Nat) : Bool :=
  (g.lookaheadOf e).any (·.nested.isSome)

/-- The lookahead that applies evaluates a predicate. -/
def hasSemanticLookahead (g : Grammar) (e : Nat) : Bool :=
  (g.lookaheadOf e).any (·.semantic.isSome)

/-- The lookahead that applies looks at the productions that the parser is in. -/
def hasLookBehind (g : Grammar) (e : Nat) : Bool := (g.lookaheadOf e).any (·.lookBehind.isSome)

/-- The lookahead that applies is negated. -/
def isNegated (g : Grammar) (e : Nat) : Bool := (g.lookaheadOf e).any (·.negated)

/-- The expansion that the lookahead that applies looks up to. -/
def upToExpansion (g : Grammar) (e : Nat) : Option Nat := (g.lookaheadOf e).bind (·.upTo)

/-- A lookahead below the node has a predicate that is evaluated inside of other lookaheads. -/
def hasNestedSemanticLookahead (g : Grammar) (e : Nat) : Bool :=
  (g.descendants e).any fun d =>
    (g.lookaheadOf d).any fun lookahead => lookahead.semantic.isSome && lookahead.semanticNested

/-! ### The lookahead that a sequence carries -/

/-- The number of tokens that the carried lookahead looks at: the number that was given; none
for a predicate alone, where this was chosen; and any number otherwise. -/
def carriedAmount (g : Grammar) (e : Nat) : Nat :=
  match g.carried e with
  | none => unbounded
  | some lookahead =>
    match lookahead.amount with
    | some amount => amount
    | none =>
      if lookahead.legacy && lookahead.nested.isNone && lookahead.semantic.isSome then 0
      else unbounded

/-- What the carried lookahead tries: the expansion nested in it, or the sequence itself. -/
def carriedExpansion (g : Grammar) (e : Nat) : Nat := ((g.carried e).bind (·.nested)).getD e

/-- The carried lookahead always succeeds. -/
def carriedAlwaysSucceeds (g : Grammar) (e : Nat) : Bool :=
  match g.carried e with
  | none => true
  | some lookahead =>
    lookahead.semantic.isNone
      && (g.carriedAmount e == 0 || g.possiblyEmpty (g.carriedExpansion e))

/-- The carried lookahead has to try an expansion, or evaluate a predicate ahead of time. -/
def carriedRequiresScan (g : Grammar) (e : Nat) : Bool :=
  match g.carried e with
  | none => false
  | some lookahead => !g.possiblyEmpty (g.carriedExpansion e) || lookahead.semanticNested

/-- The lookahead that applies to the node has to try an expansion, or evaluate a predicate
ahead of time. -/
def lookaheadRequiresScan (g : Grammar) (e : Nat) : Bool :=
  (g.lookaheadOwner e).any g.carriedRequiresScan

end Grammar

end GrammarAnalysis
