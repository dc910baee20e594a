import GrammarAnalysis.Grammar.Size

/-!
# Left Recursion

A production is left recursive if it can begin with itself. The walk goes through everything
that an expansion can begin with, enters the production of a name once only, and marks each
non-terminal found to refer to the name that is looked for.

## Main definitions

* `Trail` — the names entered, and the non-terminals marked;
* `Grammar.startsWith` — an expansion can begin with the production of a name;
* `Grammar.isLeftRecursive` — a production can begin with itself.
-/

namespace GrammarAnalysis

/-- What a walk has come by. -/
structure Trail where
  /-- The names of the productions entered. -/
  visited : OrderedSet String := ∅
  /-- The non-terminals that refer to the name looked for. -/
  marked : OrderedSet Nat := ∅
deriving Repr, Inhabited

namespace Grammar

/-- A node of the list begins with the name; every node up to the first that cannot be empty is
walked through. -/
def leadingStart (g : Grammar) (starts : Nat → Trail → Bool × Trail) :
    List Nat → Trail → Bool × Trail
  | [], t => (false, t)
  | unit :: rest, t =>
    let (found, t) := starts unit t
    if g.possiblyEmpty unit then
      let (later, t) := leadingStart g starts rest t
      (found || later, t)
    else (found, t)

/-- A node of the list begins with the name; the nodes after the first that does are not walked
through. -/
def anyStart (starts : Nat → Trail → Bool × Trail) : List Nat → Trail → Bool × Trail
  | [], t => (false, t)
  | e :: rest, t =>
    match starts e t with
    | (true, t) => (true, t)
    | (false, t) => anyStart starts rest t

/-- The node can begin with the production of the name. -/
def startsWithin (g : Grammar) (target : String) : (budget : Nat) → Nat → Trail → Bool × Trail
  | 0, _, t => (false, t)
  | budget + 1, e, t =>
    match g.shape e with
    | .sequence units => g.leadingStart (startsWithin g target budget) units t
    | .choice alternatives => anyStart (startsWithin g target budget) alternatives t
    | .zeroOrMore body | .oneOrMore body | .zeroOrOne body | .parentheses body =>
      startsWithin g target budget body t
    | .nonTerminal name =>
      if name = target then (true, { t with marked := t.marked.insert e })
      else if name ∈ t.visited then (false, t)
      else
        let t := { t with visited := t.visited.insert name }
        match g.productionNamed name with
        | none => (false, t)
        | some p => startsWithin g target budget (g.root p) t
    | .terminal _ | .empty _ => (false, t)

/-- The node can begin with the production of the name, when the productions of the names in
`visited` are not entered. The non-terminals that refer to the name are marked. -/
def startsWith (g : Grammar) (e : Nat) (target : String) (visited : OrderedSet String) :
    Bool × OrderedSet String × Grammar :=
  let (found, t) := g.startsWithin target g.budget e
    { visited := visited, marked := g.memory.leftRecursive }
  (found, t.visited, { g with memory := { g.memory with leftRecursive := t.marked } })

/-- The production can begin with itself. The non-terminals that refer to it are marked. -/
def isLeftRecursive (g : Grammar) (p : Nat) : Bool × Grammar :=
  let (found, _, g) := g.startsWith (g.root p) (g.production p).name ∅
  (found, g)

/-- The non-terminal was found to refer to a production that it leads. -/
def needsLeftRecursionCheck (g : Grammar) (e : Nat) : Bool :=
  decide (e ∈ g.memory.leftRecursive)

end Grammar

end GrammarAnalysis
