import GrammarAnalysis.Grammar.Lookahead

/-!
# What an Expansion Does besides Matching Tokens

Limits of lookaheads, activated tokens, changes of the lexical state, and failures. The walks
through non-terminals carry the non-terminals that they are inside of, and take one that is met
again to have no such effect.

## Main definitions

* `Grammar.hasScanLimit` — a lookahead at the node ends at a limit;
* `Grammar.isAlwaysSuccessful` — the node matches whatever the input is;
* `Grammar.hasTokenActivation`, `Grammar.switchesLexicalState`;
* `Grammar.isSingleToken` — the node always matches exactly one token, and does nothing else.
-/

namespace GrammarAnalysis

namespace Grammar

/-! ### Limits of lookaheads -/

/-- A unit ends lookaheads, or a non-terminal among the leading units does, as `limited` tells.
The units after the first one that cannot be empty are not leading. -/
def limitAmong (g : Grammar) (limited : Nat → Bool) : (leading : Bool) → List Nat → Bool
  | _, [] => false
  | leading, unit :: rest =>
    (g.node unit).scanLimit
      || leading && (g.shape unit).isNonTerminal && limited unit
      || limitAmong g limited (leading && g.possiblyEmpty unit) rest

/-- A lookahead at the node ends at a limit. -/
def scanLimitWithin (g : Grammar) : (budget : Nat) → (inside : List Nat) → Nat → Bool
  | 0, _, _ => false
  | budget + 1, inside, e =>
    match g.shape e with
    | .sequence _ => g.limitAmong (scanLimitWithin g budget inside) true (g.allUnits e)
    | .nonTerminal name =>
      match g.productionNamed name with
      | none => false
      | some p =>
        if e ∈ inside then false
        else g.isSequence (g.root p) && scanLimitWithin g budget (e :: inside) (g.root p)
    | _ => false

/-- A lookahead at the node ends at a limit: one after a unit of the sequence, or one in a
non-terminal that the sequence begins with. -/
def hasScanLimit (g : Grammar) (e : Nat) : Bool := g.scanLimitWithin g.budget [] e

/-- The node is a sequence with a limit after one of its units. -/
def hasExplicitScanLimit (g : Grammar) (e : Nat) : Bool :=
  g.isSequence e && (g.children e).any fun unit => (g.node unit).scanLimit

/-- The root of the production is a sequence with a limit. -/
def productionHasScanLimit (g : Grammar) (p : Nat) : Bool :=
  g.isSequence (g.root p) && g.hasScanLimit (g.root p)

/-! ### Success -/

/-- Nothing at the node itself can keep it from matching the empty text: it has no predicate and
no failing operand, and what its lookahead tries can be empty. -/
def succeedsItself (g : Grammar) (e : Nat) : Bool :=
  !g.hasSemanticLookahead e && !g.hasLookBehind e && g.possiblyEmpty e && !g.hasFailureChild e
    && match g.lookaheadOf e with
      | none => true
      | some lookahead => lookahead.nested.all g.possiblyEmpty

/-- The node matches whatever the input is. -/
def successWithin (g : Grammar) : (budget : Nat) → (inside : List Nat) → Nat → Bool
  | 0, _, _ => false
  | budget + 1, inside, e =>
    match g.shape e with
    | .sequence units => g.succeedsItself e && units.all (successWithin g budget inside)
    | .choice alternatives => g.succeedsItself e && alternatives.any (successWithin g budget inside)
    | .parentheses body => g.succeedsItself e && successWithin g budget inside body
    | .nonTerminal name =>
      match g.productionNamed name with
      | none => false
      | some p =>
        if e ∈ inside then false
        else successWithin g budget (e :: inside) (g.root p)
    | .empty .failure => false
    | _ => g.succeedsItself e

/-- The node matches whatever the input is. -/
def isAlwaysSuccessful (g : Grammar) (e : Nat) : Bool := g.successWithin g.budget [] e

/-! ### Effects on the lexer -/

/-- A leading unit satisfies the condition. The units after the first one that cannot be empty
are not leading. -/
def anyLeading (g : Grammar) (p : Nat → Bool) : List Nat → Bool
  | [] => false
  | unit :: rest => p unit || (g.possiblyEmpty unit && anyLeading g p rest)

/-- The node begins by activating or deactivating tokens. -/
def activationWithin (g : Grammar) : (budget : Nat) → (inside : List Nat) → Nat → Bool
  | 0, _, _ => false
  | budget + 1, inside, e =>
    match g.shape e with
    | .sequence units => g.anyLeading (activationWithin g budget inside) units
    | .nonTerminal name =>
      match g.productionNamed name with
      | none => false
      | some p =>
        if e ∈ inside then false
        else activationWithin g budget (e :: inside) (g.root p)
    | .empty (.activation _) => true
    | _ => (g.children e).any fun c => (g.shape c).isActivation

/-- The node begins by activating or deactivating tokens. -/
def hasTokenActivation (g : Grammar) (e : Nat) : Bool := g.activationWithin g.budget [] e

/-- The node begins by changing the lexical state. -/
def switchWithin (g : Grammar) : (budget : Nat) → (inside : List Nat) → Nat → Bool
  | 0, _, _ => false
  | budget + 1, inside, e =>
    match g.shape e with
    | .sequence units => g.anyLeading (switchWithin g budget inside) units
    | .choice alternatives => alternatives.any (switchWithin g budget inside)
    | .zeroOrMore body | .oneOrMore body | .zeroOrOne body | .parentheses body =>
      switchWithin g budget inside body
    | .nonTerminal name =>
      match g.productionNamed name with
      | none => false
      | some p =>
        (g.production p).lexicalState.isSome
          || !decide (e ∈ inside) && switchWithin g budget (e :: inside) (g.root p)
    | .empty (.stateSwitch _) => true
    | .terminal _ | .empty _ => false

/-- The node begins by changing the lexical state. -/
def switchesLexicalState (g : Grammar) (e : Nat) : Bool := g.switchWithin g.budget [] e

/-- Whether the lexical state changes before the next token after the node. The answer is not
known if the end of the production is reached. -/
def switchAheadWithin (g : Grammar) : (budget : Nat) → Nat → Option Bool
  | 0, _ => none
  | budget + 1, e =>
    match g.following e with
    | none => none
    | some next =>
      if g.switchesLexicalState next then some true
      else if g.possiblyEmpty next then switchAheadWithin g budget next
      else some false

/-- Whether the lexical state changes before the next token after the node. The answer is not
known if the end of the production is reached. -/
def isBeforeLexicalStateSwitch (g : Grammar) (e : Nat) : Option Bool :=
  g.switchAheadWithin g.budget e

/-! ### Single tokens -/

/-- The node matches exactly one token and does nothing else, as far as can be told without
going into the production of a non-terminal. -/
def isSimpleToken (g : Grammar) (e : Nat) : Bool :=
  !g.possiblyEmpty e && decide (g.maximumSize e ≤ 1) && !g.hasScanLimit e
    && !g.switchesLexicalState e && (g.lookaheadOf e).isNone
    && (let below := g.descendants e
      !(below.any fun d => (g.shape d).isFailure || (g.shape d).isActivation)
        && !(below.any fun d => g.switchesLexicalState d || g.hasLookBehind d))
    && !g.hasNestedSemanticLookahead e && !g.hasLookaheadCode e

/-- The node always matches exactly one token, and does nothing else. -/
def singleTokenWithin (g : Grammar) : (budget : Nat) → (inside : List Nat) → Nat → Bool
  | 0, _, _ => false
  | budget + 1, inside, e =>
    g.isSimpleToken e
      && match g.shape e with
        | .nonTerminal name =>
          match g.productionNamed name with
          | none => true
          | some p =>
            if e ∈ inside then false
            else singleTokenWithin g budget (e :: inside) (g.root p)
        | _ => true

/-- The node always matches exactly one token, and does nothing else. -/
def isSingleToken (g : Grammar) (e : Nat) : Bool := g.singleTokenWithin g.budget [] e

end Grammar

end GrammarAnalysis
