import GrammarAnalysis.Grammar.Structure
import GrammarAnalysis.Guarded

/-!
# Sizes

How many tokens an expansion matches: whether it can be none, and the least and the greatest
number. Sizes are capped at `unbounded`, which stands for any number of tokens, and for the
least size of an expansion that matches nothing.

Each walk carries the non-terminals that it is inside of. A non-terminal met again is taken to
match no empty text, and to have an unbounded size.

## Main definitions

* `Grammar.possiblyEmpty` — the expansion can match no token at all;
* `Grammar.minimumSize`, `Grammar.maximumSize` — the bounds.
-/

namespace GrammarAnalysis

/-- The sum of two sizes, capped. -/
def addSizes (m n : Nat) : Nat := min (m + n) unbounded

namespace Grammar

/-! ### Empty matches -/

/-- The node can match no token at all. `inside` holds the non-terminals that the walk is
inside of. -/
def emptyWithin (g : Grammar) : (budget : Nat) → (inside : List Nat) → Nat → Guarded Bool
  | 0, _, _ => .fallback false
  | budget + 1, inside, e =>
    match g.shape e with
    | .sequence units => Guarded.all (emptyWithin g budget inside) units
    | .choice alternatives => Guarded.any (emptyWithin g budget inside) alternatives
    | .zeroOrMore _ | .zeroOrOne _ | .empty _ => pure true
    | .oneOrMore body | .parentheses body => emptyWithin g budget inside body
    | .nonTerminal name =>
      match g.productionNamed name with
      | none => pure false
      | some p =>
        if e ∈ inside then .fallback false
        else emptyWithin g budget (e :: inside) (g.root p)
    | .terminal _ => pure false

/-- The node can match no token at all; the answer is cut if a guard was met. -/
def emptyGuarded (g : Grammar) (e : Nat) : Guarded Bool := g.emptyWithin g.budget [] e

/-- The node can match no token at all. -/
def possiblyEmpty (g : Grammar) (e : Nat) : Bool := (g.emptyGuarded e).value

/-! ### Least sizes -/

/-- The capped sum of the sizes of nodes. The nodes after one of unbounded size do not count. -/
def sumSizes (size : Nat → Nat) : List Nat → Nat
  | [] => 0
  | e :: rest =>
    let n := size e
    if n = unbounded then unbounded else addSizes n (sumSizes size rest)

/-- The least of the sizes of nodes. The nodes after one of size zero do not count. -/
def leastSize (size : Nat → Nat) : List Nat → Nat
  | [] => unbounded
  | e :: rest =>
    let n := size e
    if n = 0 then 0 else min n (leastSize size rest)

/-- The least number of tokens that the node matches. -/
def minimumWithin (g : Grammar) : (budget : Nat) → (inside : List Nat) → Nat → Nat
  | 0, _, _ => unbounded
  | budget + 1, inside, e =>
    match g.shape e with
    | .sequence units => sumSizes (minimumWithin g budget inside) units
    | .choice alternatives => leastSize (minimumWithin g budget inside) alternatives
    | .zeroOrMore _ | .zeroOrOne _ | .empty _ => 0
    | .oneOrMore body | .parentheses body => minimumWithin g budget inside body
    | .nonTerminal name =>
      match g.productionNamed name with
      | none => unbounded
      | some p =>
        if e ∈ inside then unbounded
        else minimumWithin g budget (e :: inside) (g.root p)
    | .terminal _ => 1

/-- The least number of tokens that the node matches. -/
def minimumSize (g : Grammar) (e : Nat) : Nat := g.minimumWithin g.budget [] e

/-! ### Greatest sizes -/

/-- The capped sum of the sizes of nodes and `total`. The nodes after one of unbounded size are
not looked at. -/
def sumGuarded (size : Nat → Guarded Nat) : (total : Nat) → List Nat → Guarded Nat
  | total, [] => pure total
  | total, e :: rest => do
    let n ← size e
    if n = unbounded then pure unbounded else sumGuarded size (addSizes total n) rest

/-- The greatest of the sizes of nodes and `most`. The nodes after one of unbounded size are not
looked at. -/
def greatestGuarded (size : Nat → Guarded Nat) : (most : Nat) → List Nat → Guarded Nat
  | most, [] => pure most
  | most, e :: rest => do
    let n ← size e
    let most := max most n
    if most = unbounded then pure most else greatestGuarded size most rest

/-- The greatest number of tokens that the node matches. -/
def maximumWithin (g : Grammar) : (budget : Nat) → (inside : List Nat) → Nat → Guarded Nat
  | 0, _, _ => .fallback unbounded
  | budget + 1, inside, e =>
    match g.shape e with
    | .sequence units => sumGuarded (maximumWithin g budget inside) 0 units
    | .choice alternatives => greatestGuarded (maximumWithin g budget inside) 0 alternatives
    | .zeroOrMore _ => pure unbounded
    | .oneOrMore body => do
      let n ← maximumWithin g budget inside body
      return if n = 0 then 0 else unbounded
    | .zeroOrOne body | .parentheses body => maximumWithin g budget inside body
    | .nonTerminal name =>
      match g.productionNamed name with
      | none => pure unbounded
      | some p =>
        if e ∈ inside then .fallback unbounded
        else maximumWithin g budget (e :: inside) (g.root p)
    | .terminal _ => pure 1
    | .empty _ => pure 0

/-- The greatest number of tokens that the node matches; cut if a guard was met. -/
def maximumGuarded (g : Grammar) (e : Nat) : Guarded Nat := g.maximumWithin g.budget [] e

/-- The greatest number of tokens that the node matches. -/
def maximumSize (g : Grammar) (e : Nat) : Nat := (g.maximumGuarded e).value

end Grammar

end GrammarAnalysis
