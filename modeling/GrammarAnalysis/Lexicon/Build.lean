import GrammarAnalysis.Automaton.Construction
import GrammarAnalysis.Lexicon.Basic

/-!
# Construction of the Lexer

Building a lexicon gives each lexical state the automaton of the patterns that its token
productions declare. All the patterns of a state share one automaton: its initial state leads
to the start of each, and the finish of each accepts it.

A reference is expanded again at each use. A reference to nothing, and one to a pattern that is
being expanded, match the empty word.

## Main definitions

* `Lexicon.expandWithin` — the fragment of a pattern, with its references expanded;
* `LexicalState.addTokenProduction`, `LexicalState.build` — the automaton of a lexical state;
* `Lexicon.build` — the automata of all lexical states, and the warnings that they give rise to;
* `Lexicon.orderedMembers` — the members of a composite state, as the lexer tries them.
-/

namespace GrammarAnalysis

namespace Lexicon

/-- Where case is ignored in a pattern that is matched with the given flag: in its texts also if it
is in the whole lexicon. -/
def folding (L : Lexicon) (ignoreCase : Bool) : CaseFolding :=
  ⟨ignoreCase, L.ignoreCase || ignoreCase⟩

/-- Adds the fragment of a pattern. `expanding` holds the patterns that are being expanded;
each pattern that is entered takes one from the budget. -/
def expandWithin (L : Lexicon) (ignoreCase : Bool) :
    (budget : Nat) → (expanding : List Nat) → Nat → Assembly
  | 0, _, _, A => .ok A.addPoint
  | budget + 1, expanding, id, A =>
    match (L.pattern id).tree with
    | none => .ok A.addPoint
    | some tree =>
      if id ∈ expanding then .ok A.addPoint
      else tree.assemble (L.folding ignoreCase) (fun name A =>
        match L.namedToken name with
        | none => .ok A.addPoint
        | some target => expandWithin L ignoreCase budget (id :: expanding) target A) A

/-- Adds the fragment of a pattern, matched with the given case flag. -/
def expand (L : Lexicon) (ignoreCase : Bool) (id : Nat) : Assembly :=
  L.expandWithin ignoreCase (L.patterns.size + 1) [] id

/-- Adds a pattern to an automaton: its finish accepts it, and the initial state leads to its
start. -/
def addToAutomaton (L : Lexicon) (ignoreCase : Bool) (id : Nat) (A : Automaton) :
    Except Fault Automaton := do
  let (f, A) ← L.expand ignoreCase id A
  let A := A.modify f.finish fun s => { s with accepts := some id }
  return A.addEpsilon A.initial f.start

/-- The patterns that the token productions of a lexical state declare for matching, each with
the case flag to match it with. -/
def patternsOf (L : Lexicon) (s : LexicalState) : List (Nat × Bool) :=
  s.tokenProductions.flatMap fun tp =>
    let tp := L.production tp
    let ids := (tp.entries.map (·.pattern)).filter fun id => !(L.pattern id).isPrivate
    ids.map fun id => (id, tp.ignoreCase || L.ignoreCase)

end Lexicon

namespace LexicalState

/-- Adds a token production at the end. -/
def addTokenProduction (s : LexicalState) (tp : Nat) : LexicalState :=
  { s with tokenProductions := s.tokenProductions ++ [tp] }

/-- Builds and prepares the automaton of a lexical state. -/
def build (s : LexicalState) (L : Lexicon) : Except Fault LexicalState := do
  let patterns := L.patternsOf s
  let A ← patterns.foldlM (fun A (id, ignoreCase) => L.addToAutomaton ignoreCase id A) s.automaton
  let A ← A.prepare
  return { s with automaton := A, patterns := s.patterns.insertAll (patterns.map (·.1)) }

end LexicalState

namespace Lexicon

/-- The error for a lexical state that does not exist. -/
def undefinedStateText (name : String) : String :=
  "Lexical state \"" ++ name ++ "\" has not been defined."

/-- Enters the token productions into the lexical states that they name. A name without a
lexical state is an error. -/
def enterTokenProductions (L : Lexicon) (log : Log) : Lexicon × Log :=
  let uses := L.tokenProductions.toList.zipIdx.flatMap fun (tp, id) =>
    tp.lexicalStates.map fun name => (id, name)
  uses.foldl (fun (L, log) (id, name) =>
    match L.stateIndex name with
    | some index => (L.modifyState index (·.addTokenProduction id), log)
    | none => (L, log.addError .grammar (undefinedStateText name))) (L, log)

/-- Builds each lexical state. -/
def buildStates (L : Lexicon) : Except Fault Lexicon := do
  let states ← L.lexicalStates.toList.mapM (·.build L)
  return { L with lexicalStates := states.toArray }

/-- The choices among the patterns that the lexical states match, in the order of the states. -/
def choices (L : Lexicon) : List Nat :=
  (L.lexicalStates.toList.flatMap fun s => (L.patternsOf s).map (·.1)).filter fun id =>
    (L.pattern id).alternatives?.isSome

/-- The transitions that the entries of a lexical state ask for: the pattern, the lexical state
to go to unless it is the same one, and the code to run unless it is empty. -/
def transitionsOf (L : Lexicon) (s : LexicalState) : List (Nat × Option Nat × Option String) :=
  s.tokenProductions.flatMap fun tp =>
    let entries := (L.production tp).entries.filter fun e => !(L.pattern e.pattern).isPrivate
    entries.map fun e =>
      (e.pattern, (e.nextState.filter (· != s.name)).bind L.stateIndex,
        e.action.filter fun a => !a.isEmpty)

/-- Records the transitions and actions with the patterns. -/
def setTransitions (L : Lexicon) : Lexicon :=
  (L.lexicalStates.toList.flatMap L.transitionsOf).foldl (fun L (id, nextState, action) =>
    L.modifyPattern id fun p =>
      { p with nextState := nextState <|> p.nextState, action := action <|> p.action }) L

/-- The warnings about the alternatives of a choice that are references to tokens with a
smaller ordinal in the same lexical state: such a token always wins over the choice. -/
def unmatchable (L : Lexicon) (choice : Nat) : List String :=
  let p := L.pattern choice
  match p.alternatives?, p.ordinal with
  | some alternatives, some ordinal =>
    let targets := alternatives.filterMap fun r => r.reference?.bind L.namedToken
    let winners := targets.filter fun id =>
      let q := L.pattern id
      !q.isPrivate && (q.ordinal.any fun o => 0 < o && o < ordinal)
        && L.stateOf id == L.stateOf choice
    winners.map fun id =>
      s!"Regular Expression choice : {(L.pattern id).label} can never be matched as : {p.label}"
  | _, _ => []

/-- The errors about lexical states without a pattern. -/
def emptyStates (L : Lexicon) : List (Subject × String) :=
  L.lexicalStates.toList.zipIdx.filterMap fun (s, index) =>
    if s.isEmpty then
      some (.lexicalState index, s!"Lexical State {s.name} does not contain any token types!")
    else none

/-- Builds the automata of the lexical states, then reports the choices with alternatives that
can never be matched, and the lexical states without a pattern. The patterns must have been
registered before. -/
def build (L : Lexicon) (log : Log) : Except Fault (Lexicon × Log) := do
  let (L, log) := L.enterTokenProductions log
  let choices := L.choices
  let L ← L.buildStates
  let L := L.setTransitions
  let log := choices.foldl (fun log choice =>
    (L.unmatchable choice).foldl (fun log text => log.addWarning (.regex choice) text) log) log
  let log := L.emptyStates.foldl (fun log (subject, text) => log.addError subject text) log
  return (L, log)

/-! ### Views of the automata -/

/-- The ordinal of the token that a state accepts. -/
def acceptedOrdinal (L : Lexicon) (s : State) : Nat :=
  (s.accepts.bind fun id => (L.pattern id).ordinal).getD unbounded

/-- The ordinal of the token that a state accepts; composite states have none. -/
def stateOrdinal (L : Lexicon) (s : State) : Except Fault Nat :=
  if s.isComposite then .error .compositeOrdinal else .ok (L.acceptedOrdinal s)

/-- The order in which a lexer tries the members of a composite state: by decreasing ordinal of
the token accepted after the move, then by the first range of the moves, then by decreasing
number of ranges. -/
def compareMembers (L : Lexicon) (A : Automaton) (i j : Nat) : Ordering :=
  let ordinal (s : State) : Nat :=
    match s.next with
    | some n => L.acceptedOrdinal (A.state n)
    | none => unbounded
  let s := A.state i
  let t := A.state j
  (compare (ordinal t) (ordinal s))
    |>.then (compare (s.moves.head?.map (·.first)) (t.moves.head?.map (·.first)))
    |>.then (compare (s.moves.head?.map (·.last)) (t.moves.head?.map (·.last)))
    |>.then (compare t.moves.length s.moves.length)

/-- The members of a composite state, in the order in which a lexer tries them. -/
def orderedMembers (L : Lexicon) (A : Automaton) (id : Nat) : List Nat :=
  match (A.state id).members with
  | some members => members.toList.mergeSort fun i j => (L.compareMembers A i j).isLE
  | none => []

end Lexicon

end GrammarAnalysis
