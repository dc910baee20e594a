import GrammarAnalysis.Grammar.Analysis
import GrammarAnalysis.Grammar.Builder
import GrammarAnalysis.Grammar.Names
import GrammarAnalysis.Proofs.TokenSet.Refinement
import GrammarAnalysis.Proofs.Grammar.Growth
import GrammarAnalysis.Proofs.Grammar.WellFormed
import GrammarAnalysis.Proofs.Grammar.Derivation
import GrammarAnalysis.Proofs.Grammar.Sizes
import GrammarAnalysis.Proofs.Grammar.Bounds
import GrammarAnalysis.Proofs.Grammar.Success
import GrammarAnalysis.Proofs.Grammar.SingleTokens
import GrammarAnalysis.Proofs.Grammar.Fringe
import GrammarAnalysis.Proofs.Grammar.FirstFinal
import GrammarAnalysis.Proofs.Grammar.Surroundings
import GrammarAnalysis.Proofs.Grammar.Follow
import GrammarAnalysis.Proofs.Regex.Language
import GrammarAnalysis.Proofs.Automaton.Paths
import GrammarAnalysis.Proofs.Automaton.Fragments
import GrammarAnalysis.Proofs.Automaton.Thompson
import GrammarAnalysis.Proofs.Automaton.Closing
import GrammarAnalysis.Proofs.Automaton.Recognition
import GrammarAnalysis.Proofs.Automaton.Tables
import GrammarAnalysis.Proofs.Automaton.Faults
import GrammarAnalysis.Proofs.Automaton.Merging
import GrammarAnalysis.Proofs.Automaton.Exactness
import GrammarAnalysis.Proofs.Lexicon.Expansion
import GrammarAnalysis.Proofs.Lexicon.Construction
import GrammarAnalysis.Proofs.Lexicon.Recognition
import GrammarAnalysis.Proofs.Lexicon.Tables
import GrammarAnalysis.Proofs.Lexicon.Drafts
import GrammarAnalysis.Proofs.Lexicon.Ledger
import GrammarAnalysis.Proofs.Lexicon.Literals
import GrammarAnalysis.Proofs.Lexicon.Warnings
import GrammarAnalysis.Proofs.Lexicon.Loops
import GrammarAnalysis.Proofs.Lexicon.Merging
import GrammarAnalysis.Proofs.Lexicon.Clashes
import GrammarAnalysis.Proofs.Grammar.Drafts
import GrammarAnalysis.Proofs.Grammar.TokenSteps
import GrammarAnalysis.Proofs.Grammar.Diagnostics
import GrammarAnalysis.Proofs.Grammar.Registration
import GrammarAnalysis.Proofs.Grammar.Settling
import GrammarAnalysis.Proofs.Grammar.Literals
import GrammarAnalysis.Proofs.Grammar.Merging
import GrammarAnalysis.Proofs.Grammar.Terminals
import GrammarAnalysis.Proofs.Grammar.Warnings
import GrammarAnalysis.Proofs.Grammar.Memory
import GrammarAnalysis.Proofs.Grammar.Questions
import GrammarAnalysis.Proofs.Grammar.LeftRecursion
import GrammarAnalysis.Proofs.Grammar.Incompleteness
import GrammarAnalysis.Proofs.Text.Identifier
import GrammarAnalysis.Proofs.Text.Substitution
import GrammarAnalysis.Proofs.Grammar.RoutineNames
import GrammarAnalysis.Proofs.Lexicon.Labels
import GrammarAnalysis.Proofs.Grammar.TokenNames
import GrammarAnalysis.Proofs.Grammar.Consolidation
import GrammarAnalysis.Proofs.Grammar.EmptyMatches
import GrammarAnalysis.Proofs.Automaton.Composites
import GrammarAnalysis.Proofs.Automaton.Numbering
import GrammarAnalysis.Proofs.Lexicon.States
import GrammarAnalysis.Proofs.Grammar.Cycles
import GrammarAnalysis.Proofs.Lexicon.Nullability
import GrammarAnalysis.Proofs.CharSet.NormalForm
import GrammarAnalysis.Proofs.CharSet.Complement
import GrammarAnalysis.Proofs.Text.CaseMap
import GrammarAnalysis.Proofs.CharSet.CaseFolding
import GrammarAnalysis.Proofs.Automaton.CaseVariants
import GrammarAnalysis.Proofs.Automaton.Moves
import GrammarAnalysis.Proofs.Lexicon.Moves
