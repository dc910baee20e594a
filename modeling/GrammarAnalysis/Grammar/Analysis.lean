import GrammarAnalysis.Grammar.Sets
import GrammarAnalysis.Grammar.Tokens

/-!
# Analysis of Grammars

The analysis checks the grammar, registers the tokens, and builds the lexer. It goes on as long
as no error has been recorded, and tells which stage recorded one.

## Main definitions

* `Grammar.check` — the checks, and the registration of the tokens;
* `Grammar.analyze` — the whole analysis;
* `Grammar.tryAnalyze` — the same, with a failure in the place of a grammar with errors.
-/

namespace GrammarAnalysis

namespace Grammar

/-- Checks the productions and the patterns, in this order: the lookaheads, the lexical states,
the choices, the loops, the predicates, and the patterns. -/
def checkProductions (g : Grammar) : Grammar :=
  markLeftRecursion <| g.record
    (g.misplacedLookaheads ++ g.lexicalStateFindings ++ g.hiddenAlternatives ++ g.emptyLoops
      ++ g.lookBehindErrors ++ g.patternErrors)

/-- Checks the references to tokens, and resolves them. -/
def checkReferences (g : Grammar) : Grammar :=
  let g := (g.record g.referenceErrors).resolveReferences
  g.record g.loopErrors

/-- Checks the grammar and registers its tokens. An undefined non-terminal ends the checks at
once, and any error before the references are looked at ends them there. -/
def check (g : Grammar) : Grammar :=
  let undefined := g.undefinedNonTerminals
  if !undefined.isEmpty then g.record undefined
  else
    let g := g.checkProductions.registerNames.registerTokens
    if g.log.hasNoErrors then g.checkReferences else g

/-- Checks the grammar, then builds the lexer and makes the labels of the tokens identifiers.
The result tells which stage recorded an error. -/
def analyze (g : Grammar) : Except Fault (Option Stage × Grammar) := do
  let g := g.check
  if !g.log.hasNoErrors then return (some .checks, g)
  let (L, log) ← g.lexicon.build g.log
  let g := { g with lexicon := L, log := log }
  if !log.hasNoErrors then return (some .lexer, g)
  return (none, { g with lexicon := L.ensureLabels })

/-- Analyzes the grammar; errors are a failure. -/
def tryAnalyze (g : Grammar) : Except Fault (Except BuildFailure Grammar) := do
  match ← g.analyze with
  | (none, g) => return .ok g
  | (some stage, g) => return .error ⟨g.log, stage⟩

end Grammar

end GrammarAnalysis
