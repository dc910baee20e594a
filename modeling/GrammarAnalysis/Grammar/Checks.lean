import GrammarAnalysis.Grammar.LeftRecursion
import GrammarAnalysis.Grammar.ScanAhead

/-!
# Checks of the Productions

What can be wrong with the productions of a grammar, and with the patterns before the tokens
are registered. Each check lists its findings, in the order in which they are reported; a
finding is an error or a warning about a part of the grammar.

## Main definitions

* `Finding` — a message and what it is about;
* `Grammar.undefinedNonTerminals`, `misplacedLookaheads`, `lexicalStateFindings`,
  `hiddenAlternatives`, `emptyLoops`, `lookBehindErrors`, `patternErrors` — the checks.
-/

namespace GrammarAnalysis

/-- A message about a part of the grammar. -/
structure Finding where
  subject : Subject
  message : Message
deriving DecidableEq, Repr

namespace Finding

/-- An error about a part of the grammar. -/
def error (subject : Subject) (text : String) : Finding := ⟨subject, .error text⟩

/-- A warning about a part of the grammar. -/
def warning (subject : Subject) (text : String) : Finding := ⟨subject, .warning text⟩

end Finding

/-- Records findings in the order of the list. -/
def Log.record (log : Log) (findings : List Finding) : Log :=
  findings.foldl (fun log f => log.add f.message (some f.subject)) log

namespace Grammar

/-- Records findings about the grammar. -/
def record (g : Grammar) (findings : List Finding) : Grammar :=
  { g with log := g.log.record findings }

/-- The positions of the nodes. -/
def ids (g : Grammar) : List Nat := List.range g.size

/-- The positions of the nodes that carry a lookahead, with it. -/
def carriers (g : Grammar) : List (Nat × Lookahead) :=
  g.ids.filterMap fun e => (g.carried e).map fun lookahead => (e, lookahead)

/-! ### References -/

/-- The non-terminals that refer to no production. -/
def undefinedNonTerminals (g : Grammar) : List Finding :=
  g.ids.filterMap fun e =>
    match g.shape e with
    | .nonTerminal name =>
      if (g.productionNamed name).isNone then
        some (.error (.expansion e) s!"Non-terminal {name} has not been defined.")
      else none
    | _ => none

/-- The error for a lexical state that does not exist. -/
def undefinedState? (g : Grammar) (subject : Subject) (name : String) : Option Finding :=
  if (g.lexicon.stateIndex name).isNone then
    some (.error subject (Lexicon.undefinedStateText name))
  else none

/-- The undefined lexical state of a production, and its left recursion. -/
def productionFindings (g : Grammar) (p : Nat) : List Finding :=
  let production := g.production p
  let undefined := production.lexicalState.bind (g.undefinedState? (.production p))
  let recursive :=
    if (g.isLeftRecursive p).1 then
      some (Finding.warning (.production p) s!"Production {production.name} is left recursive.")
    else none
  undefined.toList ++ recursive.toList

/-- The undefined lexical states of productions and of their roots, and the left recursions. -/
def lexicalStateFindings (g : Grammar) : List Finding :=
  (List.range g.productions.size).flatMap g.productionFindings
    ++ g.ids.filterMap fun e =>
      (g.specifiedLexicalState e).bind (g.undefinedState? (.expansion e))

/-- Marks the non-terminals that make a production left recursive, for every production. -/
def markLeftRecursion (g : Grammar) : Grammar :=
  (List.range g.productions.size).foldl (fun g p => (g.isLeftRecursive p).2) g

/-! ### Lookaheads -/

/-- The lookaheads, and the limits of lookaheads, where the parser does not choose. -/
def misplacedLookaheads (g : Grammar) : List Finding :=
  let lookaheads := g.ids.filter fun e =>
    g.isSequence e && g.hasExplicitLookahead e && !g.isAtChoicePoint e
  let limits := g.ids.filter fun e =>
    (g.node e).scanLimit && (g.parentNode e).any fun parent => !g.isAtChoicePoint parent
  (lookaheads.map fun e =>
      .error (.expansion e) "Encountered scanahead at a non-choice location.")
    ++ limits.map fun e =>
      .error (.expansion e) "The up-to-here delimiter can only be at a choice point."

/-- The names in predicates that look like names of productions, but are none; and the
expansions to look up to that are not one token. -/
def lookBehindErrors (g : Grammar) : List Finding :=
  let names := g.carriers.flatMap fun (e, lookahead) =>
    let path := (lookahead.lookBehind.map (·.path)).getD []
    (path.filter fun name => beginsIdentifier name && (g.productionNamed name).isNone).map
      fun name => (e, name)
  let limits := (g.carriers.filterMap fun (_, lookahead) => lookahead.upTo).filter
    fun upTo => !g.isSingleToken upTo
  (names.map fun (e, name) =>
      .error (.expansion e) s!"Predicate refers to undefined Non-terminal: {name}")
    ++ limits.map fun upTo =>
      .error (.expansion upTo) "The expansion after UPTO here must be matched by exactly one token."

/-! ### Empty matches -/

/-- The alternatives after one that always succeeds, which are never tried. -/
def hiddenAlternatives (g : Grammar) : List Finding :=
  g.ids.flatMap fun e =>
    match g.shape e with
    | .choice alternatives =>
      (alternatives.dropLast.zipIdx.filter fun (a, _) => g.isAlwaysSuccessful a).map fun (a, i) =>
        let count := alternatives.length - i - 1
        let hidden :=
          if count = 1 then "The expansion that follows"
          else s!"The following {count} expansions"
        .error (.expansion a)
          s!"This expansion can match the empty string. {hidden} can never be matched."
    | _ => []

/-- The node fails without matching anything. -/
def alwaysFails (g : Grammar) (e : Nat) : Bool :=
  ((g.shape e).isFailure || g.hasFailureChild e) && g.possiblyEmpty e

/-- The loops whose body fails, or succeeds without matching anything. -/
def loopError? (g : Grammar) (e body : Nat) : Option Finding :=
  let construct := (g.shape e).render
  if g.alwaysFails body then
    some (.error (.expansion e)
      s!"Expansion inside {construct} always fails! This cannot be right!")
  else if g.isAlwaysSuccessful body then
    some (.error (.expansion e)
      s!"Expansion inside {construct} can be matched by the empty string, so it would produce an infinite loop!")
  else none

/-- The options whose body fails, or succeeds without matching anything. -/
def optionWarning? (g : Grammar) (e body : Nat) : Option Finding :=
  if g.alwaysFails body then
    some (.warning (.expansion e)
      "The FAIL inside this construct is always triggered. This may not be your intention.")
  else if g.isAlwaysSuccessful body then
    some (.warning (.expansion e)
      "The expansion inside this (...)? construct can be matched by the empty string so it is always matched. This may not be your intention.")
  else none

/-- The loops and options whose body need not match anything. -/
def emptyLoops (g : Grammar) : List Finding :=
  (g.ids.filterMap fun e =>
      match g.shape e with
      | .zeroOrMore body | .oneOrMore body => g.loopError? e body
      | _ => none)
    ++ g.ids.filterMap fun e =>
      match g.shape e with
      | .zeroOrOne body => g.optionWarning? e body
      | _ => none

/-! ### Patterns -/

/-- The entries of the token productions, with what a message about one of them is about. -/
def tokenEntries (g : Grammar) : List (Subject × TokenEntry) :=
  g.lexicon.tokenProductions.toList.zipIdx.flatMap fun (tp, id) =>
    tp.entries.zipIdx.map fun (entry, index) => (.entry id index, entry)

/-- The undefined lexical states to go to after a match, and the patterns that match the empty
text. -/
def patternErrors (g : Grammar) : List Finding :=
  (g.tokenEntries.filterMap fun (subject, entry) =>
      entry.nextState.bind (g.undefinedState? subject))
    ++ (g.tokenEntries.filter fun (_, entry) => g.lexicon.matchesEmpty entry.pattern).map
      fun (subject, _) =>
        .error subject "Regular Expression can match empty string. This is not allowed here."

end Grammar

end GrammarAnalysis
