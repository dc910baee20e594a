import GrammarAnalysis.Grammar.Structure
import GrammarAnalysis.Text.Substitution

/-!
# Names in the Generated Parser

The root of a production is named after the production. Every other node gets a name from its
place in the source, with a counter where that is needed to tell it from the names given
before. A name is given once, and kept in the memory of the grammar; the names of the other
sets and methods of a node are derived from it by substitution.

## Main definitions

* `Grammar.uniqueIdentifier` — a name that is not in use;
* `Grammar.firstSetName`, `Grammar.scanRoutineName` — the names that are kept;
* `Grammar.derivedSetName`, `Grammar.derivedMethodName` — the names derived from them.
-/

namespace GrammarAnalysis

namespace Grammar

/-- What the identifiers of one kind begin with. -/
def identifierStart (g : Grammar) (kind : String) : String :=
  g.options.identifierStart ++ kind ++ "_"

/-- The name of the routine that looks ahead at a production. -/
def lookaheadMethodName (g : Grammar) (p : Nat) : String :=
  g.identifierStart "check" ++ (g.production p).name

/-- The first of `base`, `base_1`, `base_2`, … that is not in use. -/
def freshIdentifier (used : OrderedSet String) (base : String) : String :=
  let candidates := base :: (List.range used.size).map fun i => base ++ "_" ++ toString (i + 1)
  (candidates.find? fun name => decide (name ∉ used)).getD base

/-- The identifier of a node, before it is told apart from others: the production that the node
is a part of, and its place in the source. -/
def placeIdentifier (g : Grammar) (start : String) (e : Nat) : String :=
  let scope := match g.containingProduction e with
    | some p => (g.production p).name ++ "_"
    | none => ""
  let place := (g.node e).position
  start ++ scope ++ toString place.line ++ "_" ++ toString place.column

/-- A name for a node that is not in use, and is from now on. -/
def uniqueIdentifier (g : Grammar) (start : String) (e : Nat) (m : Memory) : String × Memory :=
  let name := freshIdentifier m.identifiers (g.placeIdentifier start e)
  (name, { m with identifiers := m.identifiers.insert name })

/-! ### Sets -/

/-- The name of the variable that holds the first set of the node. -/
def firstSetName (g : Grammar) (e : Nat) (m : Memory) : String × Memory :=
  match m.firstSetNames.lookup e with
  | some name => (name, m)
  | none =>
    let (name, m) := match g.parent e with
      | .production p => ((g.production p).firstSetName, m)
      | _ => g.uniqueIdentifier (g.identifierStart "first_set") e m
    (name, { m with firstSetNames := (e, name) :: m.firstSetNames })

/-- The name of the variable that holds another set of the node, made from the name of its
first set by exchanging the word for the kind of set. -/
def derivedSetName (g : Grammar) (kind : String) (e : Nat) (m : Memory) : String × Memory :=
  let (first, m) := g.firstSetName e m
  let name :=
    if beginsWith (g.identifierStart "first_set") first then replaceFirst "first" kind first
    else replaceAll "_FIRST_SET" ("_" ++ CaseMap.upperText kind ++ "_SET") first
  (name, m)

/-- The name of the variable that holds the final set of the node. -/
def finalSetName (g : Grammar) (e : Nat) (m : Memory) : String × Memory :=
  g.derivedSetName "final" e m

/-- The name of the variable that holds the follow set of the node. -/
def followSetName (g : Grammar) (e : Nat) (m : Memory) : String × Memory :=
  g.derivedSetName "follow" e m

/-! ### Methods -/

/-- The name of the routine that looks ahead at the node. -/
def scanRoutineName (g : Grammar) (e : Nat) (m : Memory) : String × Memory :=
  match m.scanRoutineNames.lookup e with
  | some name => (name, m)
  | none =>
    let (name, m) := match g.parent e with
      | .production p => (g.lookaheadMethodName p, m)
      | _ => g.uniqueIdentifier (g.identifierStart "check") e m
    (name, { m with scanRoutineNames := (e, name) :: m.scanRoutineNames })

/-- The name of another method of the node, made from the name of the routine that looks ahead
at it by exchanging what it begins with. -/
def derivedMethodName (g : Grammar) (kind : String) (e : Nat) (m : Memory) : String × Memory :=
  let (scan, m) := g.scanRoutineName e m
  (replaceAll (g.identifierStart "check") (g.identifierStart kind) scan, m)

/-- The name of the predicate that decides whether to enter the node. -/
def predicateMethodName (g : Grammar) (e : Nat) (m : Memory) : String × Memory :=
  g.derivedMethodName "scan" e m

/-- The name of the method that recovers from errors in the node. -/
def recoverMethodName (g : Grammar) (e : Nat) (m : Memory) : String × Memory :=
  g.derivedMethodName "recover" e m

/-- The name of the method that recovers from errors by going to the node. -/
def recoverToMethodName (g : Grammar) (e : Nat) (m : Memory) : String × Memory :=
  g.derivedMethodName "recover_to" e m

end Grammar

end GrammarAnalysis
