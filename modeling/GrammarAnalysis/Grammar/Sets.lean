import GrammarAnalysis.Grammar.Lookahead

/-!
# First, Final and Follow Sets

The tokens that an expansion can begin with, those that it can end with, and those that can
come after it in its production. A follow set is incomplete where the end of the production can
be reached, since what comes then depends on where the production is used.

The walks carry the non-terminals that they are inside of, and take one that is met again to
contribute nothing. First sets of nodes, and first and final sets of productions, are kept in
the memory of the grammar unless they are cut; an answer that is kept is given again even if
the grammar has changed.

A terminal for a pattern that does not exist is a fault of the question that meets it.

## Main definitions

* `Inquiry` — a question that may be answered from memory, and adds to it;
* `Grammar.firstSet`, `productionFirstSet` — the tokens to begin with;
* `Grammar.finalSet`, `productionFinalSet` — the tokens to end with;
* `Grammar.followSet` — the tokens that come after.
-/

namespace GrammarAnalysis

/-- A question that may be answered from the memory of a grammar, and adds to it. -/
abbrev Inquiry (α : Type) := Memory → Except Fault (α × Memory)

namespace Memory

/-- Keeps the first set of a node, unless it is cut. -/
def keepFirst (m : Memory) (e : Nat) (s : Guarded TokenSet) : Memory :=
  if s.cut then m else { m with first := (e, s.value) :: m.first }

/-- Keeps the first set of a production, unless it is cut. -/
def keepProductionFirst (m : Memory) (p : Nat) (s : Guarded TokenSet) : Memory :=
  if s.cut then m else { m with productionFirst := (p, s.value) :: m.productionFirst }

/-- Keeps the final set of a production, unless it is cut. -/
def keepProductionFinal (m : Memory) (p : Nat) (s : Guarded TokenSet) : Memory :=
  if s.cut then m else { m with productionFinal := (p, s.value) :: m.productionFinal }

end Memory

namespace Grammar

/-- The token of a terminal. A pattern without an ordinal has none. -/
def terminalSet (g : Grammar) (pattern : Nat) : Except Fault TokenSet :=
  match g.lexicon.pattern? pattern with
  | none => .error .index
  | some p =>
    match p.ordinal with
    | some ordinal => .ok (.ofToken ordinal)
    | none => .ok ∅

/-- The union of the sets of nodes. Each node comes with a mark of its own, which tells whether
a guard was met in choosing it. -/
def unionOf (visit : Nat → Inquiry (Guarded TokenSet)) :
    List (Guarded Nat) → Inquiry (Guarded TokenSet)
  | [], m => .ok (pure ∅, m)
  | e :: rest, m => do
    let (s, m) ← visit e.value m
    let (t, m) ← unionOf visit rest m
    return (⟨s.value.union t.value, e.cut || s.cut || t.cut⟩, m)

/-- The union of the sets of units, up to the first unit that cannot be empty. -/
def unionOfLeading (g : Grammar) (visit : Nat → Inquiry (Guarded TokenSet)) :
    List Nat → Inquiry (Guarded TokenSet)
  | [], m => .ok (pure ∅, m)
  | unit :: rest, m => do
    let (s, m) ← visit unit m
    let empty := g.emptyGuarded unit
    if empty.value then
      let (t, m) ← unionOfLeading g visit rest m
      return (⟨s.value.union t.value, s.cut || empty.cut || t.cut⟩, m)
    else
      return (⟨s.value, s.cut || empty.cut⟩, m)

/-! ### First sets -/

/-- The first set of a production, from memory or else by a visit to its root. -/
def productionFirstBy (g : Grammar) (visit : Nat → Inquiry (Guarded TokenSet)) (p : Nat) :
    Inquiry (Guarded TokenSet) := fun m =>
  match m.productionFirst.lookup p with
  | some s => .ok (pure s, m)
  | none => do
    let (s, m) ← visit (g.root p) m
    return (s, m.keepProductionFirst p s)

/-- The tokens that the node can begin with, from memory or else by a walk. -/
def firstWithin (g : Grammar) : (budget : Nat) → (inside : List Nat) → Nat →
    Inquiry (Guarded TokenSet)
  | 0, _, _, m => .ok (.fallback ∅, m)
  | budget + 1, inside, e, m =>
    match m.first.lookup e with
    | some s => .ok (pure s, m)
    | none => do
      let (s, m) ← match g.shape e with
        | .sequence units => g.unionOfLeading (firstWithin g budget inside) units m
        | .choice alternatives =>
          unionOf (firstWithin g budget inside)
            (alternatives.map fun a => g.expansionTried a <$> g.ownerGuarded a) m
        | .zeroOrMore body | .oneOrMore body | .zeroOrOne body | .parentheses body =>
          firstWithin g budget inside body m
        | .nonTerminal name =>
          match g.productionNamed name with
          | none => .ok (pure ∅, m)
          | some p =>
            if e ∈ inside then .ok (.fallback ∅, m)
            else g.productionFirstBy (firstWithin g budget (e :: inside)) p m
        | .terminal pattern => (g.terminalSet pattern).map fun s => (pure s, m)
        | .empty _ => .ok (pure ∅, m)
      return (s, m.keepFirst e s)

/-- The tokens that the node can begin with. -/
def firstSet (g : Grammar) (e : Nat) : Inquiry TokenSet := fun m => do
  let (s, m) ← g.firstWithin g.budget [] e m
  return (s.value, m)

/-- The tokens that the production can begin with. -/
def productionFirstSet (g : Grammar) (p : Nat) : Inquiry TokenSet := fun m => do
  let (s, m) ← g.productionFirstBy (g.firstWithin g.budget []) p m
  return (s.value, m)

/-! ### Final sets -/

/-- The final set of a production, from memory or else by a visit to its root. -/
def productionFinalBy (g : Grammar) (visit : Nat → Inquiry (Guarded TokenSet)) (p : Nat) :
    Inquiry (Guarded TokenSet) := fun m =>
  match m.productionFinal.lookup p with
  | some s => .ok (pure s, m)
  | none => do
    let (s, m) ← visit (g.root p) m
    return (s, m.keepProductionFinal p s)

/-- The tokens that the node can end with. -/
def finalWithin (g : Grammar) : (budget : Nat) → (inside : List Nat) → Nat →
    Inquiry (Guarded TokenSet)
  | 0, _, _, m => .ok (.fallback ∅, m)
  | budget + 1, inside, e, m =>
    match g.shape e with
    | .sequence units => g.unionOfLeading (finalWithin g budget inside) units.reverse m
    | .choice alternatives => unionOf (finalWithin g budget inside) (alternatives.map pure) m
    | .zeroOrMore body | .oneOrMore body | .zeroOrOne body | .parentheses body =>
      finalWithin g budget inside body m
    | .nonTerminal name =>
      match g.productionNamed name with
      | none => .ok (pure ∅, m)
      | some p =>
        if e ∈ inside then .ok (.fallback ∅, m)
        else g.productionFinalBy (finalWithin g budget (e :: inside)) p m
    | .terminal pattern => (g.terminalSet pattern).map fun s => (pure s, m)
    | .empty _ => .ok (pure ∅, m)

/-- The tokens that the node can end with. -/
def finalSet (g : Grammar) (e : Nat) : Inquiry TokenSet := fun m => do
  let (s, m) ← g.finalWithin g.budget [] e m
  return (s.value, m)

/-- The tokens that the production can end with. -/
def productionFinalSet (g : Grammar) (p : Nat) : Inquiry TokenSet := fun m => do
  let (s, m) ← g.productionFinalBy (g.finalWithin g.budget []) p m
  return (s.value, m)

/-! ### Follow sets -/

/-- The nodes that can come directly after the node in its production, and whether the end of
the production can be reached. -/
def followersWithin (g : Grammar) : (budget : Nat) → Nat → List Nat × Bool
  | 0, _ => ([], true)
  | budget + 1, e =>
    match g.following e with
    | none => ([], true)
    | some next =>
      if g.possiblyEmpty next then
        let (rest, open_) := followersWithin g budget next
        (next :: rest, open_)
      else ([next], false)

/-- The nodes whose first sets make up the follow set of the node: the loop that it ends, then
the nodes after it. The second part tells whether the end of the production can be reached. -/
def followers (g : Grammar) (e : Nat) : List Nat × Bool :=
  let loop := if g.isAtEndOfLoop e then (g.firstLoopAncestor e).toList else []
  let (after, open_) := g.followersWithin g.budget e
  (loop ++ after, open_)

/-- The union of the first sets of nodes. -/
def firstSets (g : Grammar) : List Nat → Inquiry TokenSet
  | [], m => .ok (∅, m)
  | e :: rest, m => do
    let (s, m) ← g.firstSet e m
    let (t, m) ← firstSets g rest m
    return (s.union t, m)

/-- The tokens that can come after the node in its production. -/
def followSet (g : Grammar) (e : Nat) : Inquiry TokenSet := fun m => do
  let (nodes, open_) := g.followers e
  let (s, m) ← g.firstSets nodes m
  return (s.withIncomplete open_, m)

end Grammar

end GrammarAnalysis
