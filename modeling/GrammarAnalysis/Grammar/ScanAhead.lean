import GrammarAnalysis.Grammar.Effects

/-!
# Looking Ahead

What the generated parser has to do before it enters an expansion: how many tokens it looks at,
whether it has to try the expansion ahead of time, and which methods that takes.
-/

namespace GrammarAnalysis

namespace Grammar

/-- The production has a lookahead, or a limit of lookaheads, of its own. -/
def hasScanInstructions (g : Grammar) (p : Nat) : Bool :=
  g.productionHasScanLimit p || g.hasExplicitLookahead (g.root p)

/-- The expansion has to be tried ahead of time. -/
def requiresScanAhead (g : Grammar) (e : Nat) : Bool :=
  match g.shape e with
  | .sequence units =>
    (units.any fun unit => (g.node unit).scanLimit)
      || (g.anyLeading (fun unit => (g.referredProduction unit).any g.hasScanInstructions) units)
      || g.lookaheadRequiresScan e
  | .empty _ => false
  | _ => g.lookaheadRequiresScan e || g.hasLookaheadCode e

/-- The number of tokens to look at before the expansion is entered. -/
def lookaheadAmount (g : Grammar) (e : Nat) : Nat :=
  match g.lookaheadOwner e with
  | some owner => g.carriedAmount owner
  | none => if g.requiresScanAhead e then unbounded else 1

/-- More than one token has to be looked at to choose the expansion, and no nested expansion
says how. -/
def hasImplicitSyntacticLookahead (g : Grammar) (e : Nat) : Bool :=
  g.isAtChoicePoint e && !g.hasSyntacticLookahead e && !g.isAlwaysSuccessful e
    && (g.hasScanLimit e
      || !(g.hasExplicitAmount e && decide (g.lookaheadAmount e ≤ 1))
        && decide (1 < g.maximumSize e)
        && (g.lookaheadOwner e).any fun owner => 1 < g.carriedAmount owner)

/-- The choice of the expansion takes a predicate method. -/
def requiresPredicateMethod (g : Grammar) (e : Nat) : Bool :=
  !g.isInsideLookahead e && g.isAtChoicePoint e
    && ((g.lookaheadOf e).isSome
      || !g.possiblyEmpty e
        && (g.hasImplicitSyntacticLookahead e || g.hasTokenActivation e
          || (g.specifiedLexicalState e).isSome || g.switchesLexicalState e
          || g.hasLookaheadCode e))

/-- A lookahead that comes to the node goes through all of it, instead of ending where the
lookahead of the node itself does. -/
def scansToEnd (g : Grammar) (e : Nat) : Bool :=
  if g.isInsideLookahead e then true
  else
    let otherwise := !g.isAtChoicePoint e
    match g.properParent e with
    | .expansion parent =>
      if g.isSequence parent then
        !g.isAtChoicePoint parent || g.hasExplicitAmount parent || g.hasExplicitScanLimit parent
          || g.firstNonEmpty parent != some e
      else otherwise
    | _ => otherwise

/-- The expansion takes a method that recovers from errors in it. -/
def requiresRecoverMethod (g : Grammar) (e : Nat) : Bool :=
  !g.isInsideLookahead e
    && !((g.containingProduction e).any fun p => (g.production p).onlyForLookahead)
    && ((g.node e).tolerant
      || (match g.parent e with | .production _ => true | _ => false)
      || (g.preceding e).any fun unit => (g.node unit).tolerant && !(g.shape unit).isTerminal)

end Grammar

end GrammarAnalysis
