import GrammarAnalysis.Lexicon.LexicalState
import GrammarAnalysis.Log
import GrammarAnalysis.Regex
import GrammarAnalysis.Text.Identifier
import GrammarAnalysis.TokenSet

/-!
# The Lexicon

The lexical part of a grammar: the patterns, the token productions that declare them, the
lexical states, and the tokens. A pattern becomes a token when it is registered, which gives it
the next ordinal; ordinal 0 is the end of the input. Extra tokens, which no pattern matches,
come after all the registered ones.

Patterns, token productions and lexical states are identified by their positions. A request
that mentions a position where there is nothing is answered by the fault `index`.

## Main definitions

* `Pattern`, `TokenProduction`, `Lexicon` — the data;
* `Lexicon.addTokenProduction`, `addPattern`, `addEntry`, `register`, … — how a lexicon grows;
* `Lexicon.tokenName`, `patternAt`, `registered`, … — tokens by ordinal;
* `Lexicon.matchesEmpty` — a pattern that matches the empty text;
* `Lexicon.ensureLabels` — makes every token label an identifier.
-/

namespace GrammarAnalysis

/-- The kind of the tokens of a token production. -/
inductive TokenKind where
  | token
  | skip
  | more
  | unparsed
deriving DecidableEq, Repr, Inhabited

/-- The keyword of a kind of tokens. -/
def TokenKind.keyword : TokenKind → String
  | .token => "TOKEN"
  | .skip => "SKIP"
  | .more => "MORE"
  | .unparsed => "UNPARSED"

/-- The stand-in for an ordinal where there is none, and for a size without bound. -/
def unbounded : Nat := 0xFFFFFFFF

/-- A regular expression that a token production declares, or that a production uses as a
terminal. -/
structure Pattern where
  /-- The name given to the pattern, or the empty text. -/
  givenLabel : String
  /-- The ordinal of the token, once the pattern is registered. -/
  ordinal : Option Nat := none
  /-- The pattern is for use in other patterns only. -/
  isPrivate : Bool := false
  /-- The tree, if the pattern has one. -/
  tree : Option Regex
  /-- The token production that declares the pattern. -/
  production : Option Nat := none
  /-- The lexical state that the lexer goes to after a match. -/
  nextState : Option Nat := none
  /-- The code to run after a match. -/
  action : Option String := none
  position : Position := {}
deriving Repr, Inhabited

namespace Pattern

/-- The pattern was given a name. -/
def hasLabel (p : Pattern) : Bool := !p.givenLabel.isEmpty

/-- The name of the pattern, or else its ordinal. A pattern that has neither, and the one with
ordinal 0, are called `EOF`. -/
def label (p : Pattern) : String :=
  if p.hasLabel then p.givenLabel
  else match p.ordinal with
    | none | some 0 => "EOF"
    | some n => toString n

/-- The text, if the pattern is a literal. -/
def literal? (p : Pattern) : Option String := p.tree.bind (·.literal?)

/-- The name, if the pattern is a reference. -/
def reference? (p : Pattern) : Option String := p.tree.bind (·.reference?)

/-- The pattern is a reference. -/
def isReference (p : Pattern) : Bool := p.reference?.isSome

/-- The alternatives, if the pattern is a choice. -/
def alternatives? (p : Pattern) : Option (List Regex) := p.tree.bind (·.alternatives?)

/-- The names that the pattern refers to, from left to right. -/
def references (p : Pattern) : List String :=
  match p.tree with
  | some tree => tree.references
  | none => []

end Pattern

/-- The place of a pattern in a token production. -/
structure TokenEntry where
  pattern : Nat
  /-- The name of the lexical state to go to after a match. -/
  nextState : Option String := none
  /-- The code to run after a match. -/
  action : Option String := none
  position : Position := {}
deriving DecidableEq, Repr, Inhabited

/-- Patterns that are declared together, with one kind and in the same lexical states. A
production that is not explicit stands for a literal text used in a grammar production. -/
structure TokenProduction where
  kind : TokenKind := .token
  lexicalStates : List String := []
  ignoreCase : Bool := false
  explicit : Bool := true
  entries : List TokenEntry := []
deriving DecidableEq, Repr, Inhabited

/-- The lexical part of a grammar. -/
structure Lexicon where
  patterns : Array Pattern
  /-- The registered patterns, by ordinal. -/
  ordinals : Array Nat
  tokenProductions : Array TokenProduction := #[]
  lexicalStates : Array LexicalState := #[]
  /-- The patterns that can be referred to by name. -/
  namedTokens : List (String × Nat) := []
  /-- The tokens that no pattern matches. -/
  extraTokens : List String := []
  /-- Case is ignored in all the patterns. -/
  ignoreCase : Bool := false
deriving Repr

namespace Lexicon

/-- The lexicon that knows the end of the input only. -/
def new (ignoreCase : Bool) : Lexicon :=
  { patterns := #[{ givenLabel := "EOF", ordinal := some 0, tree := some .endOfInput }]
    ordinals := #[0]
    ignoreCase := ignoreCase }

instance : Inhabited Lexicon := ⟨new false⟩

/-! ### Positions -/

/-- The pattern at a position. -/
def pattern? (L : Lexicon) (id : Nat) : Option Pattern := L.patterns[id]?

/-- The pattern at a position where there is one. -/
def pattern (L : Lexicon) (id : Nat) : Pattern := (L.pattern? id).getD default

/-- Changes a pattern. -/
def modifyPattern (L : Lexicon) (id : Nat) (f : Pattern → Pattern) : Lexicon :=
  { L with patterns := L.patterns.modify id f }

/-- The token production at a position where there is one. -/
def production (L : Lexicon) (id : Nat) : TokenProduction :=
  (L.tokenProductions[id]?).getD default

/-- Changes a token production. -/
def modifyProduction (L : Lexicon) (id : Nat) (f : TokenProduction → TokenProduction) : Lexicon :=
  { L with tokenProductions := L.tokenProductions.modify id f }

/-- The token production that declares a pattern. -/
def productionOf (L : Lexicon) (id : Nat) : Option TokenProduction :=
  (L.pattern id).production.map L.production

/-- The kind of the token production that declares a pattern. -/
def kindOf (L : Lexicon) (id : Nat) : Option TokenKind := (L.productionOf id).map (·.kind)

/-- Case is ignored in the token production that declares a pattern; for a pattern outside of
any, in the whole lexicon. -/
def ignoresCase (L : Lexicon) (id : Nat) : Bool :=
  match L.productionOf id with
  | some tp => tp.ignoreCase
  | none => L.ignoreCase

/-! ### Growth -/

/-- Adds a pattern outside of any token production. -/
def addPattern (L : Lexicon) (p : Pattern) : Nat × Lexicon :=
  (L.patterns.size, { L with patterns := L.patterns.push p })

/-- Adds a token production. -/
def addTokenProduction (L : Lexicon) (tp : TokenProduction) : Nat × Lexicon :=
  (L.tokenProductions.size, { L with tokenProductions := L.tokenProductions.push tp })

/-- Adds a pattern at the end of a token production. -/
def addEntry (L : Lexicon) (production : Nat) (label : String) (isPrivate : Bool)
    (tree : Option Regex) : Except Fault (Nat × Lexicon) :=
  if production < L.tokenProductions.size then
    let (id, L) := L.addPattern
      { givenLabel := label, isPrivate := isPrivate, tree := tree, production := some production }
    .ok (id, L.modifyProduction production fun tp =>
      { tp with entries := tp.entries ++ [{ pattern := id }] })
  else
    .error .index

/-- Changes the last entry of a token production, if there is one. -/
def modifyLastEntry (tp : TokenProduction) (f : TokenEntry → TokenEntry) : TokenProduction :=
  { tp with entries := tp.entries.modify (tp.entries.length - 1) f }

/-- Sets the lexical state to go to, and the action, of the last entry of a token production. -/
def setTransition (L : Lexicon) (production : Nat) (nextState action : Option String) :
    Except Fault Lexicon :=
  if production < L.tokenProductions.size then
    .ok (L.modifyProduction production fun tp =>
      modifyLastEntry tp fun e => { e with nextState := nextState, action := action })
  else
    .error .index

/-- Registers a pattern as a token, with the next ordinal. -/
def register (L : Lexicon) (id : Nat) : Nat × Lexicon :=
  let ordinal := L.ordinals.size
  (ordinal, { L.modifyPattern id fun p => { p with ordinal := some ordinal } with
    ordinals := L.ordinals.push id })

/-- Registers a pattern, if there is one. -/
def register? (L : Lexicon) (id : Nat) : Except Fault (Nat × Lexicon) :=
  if id < L.patterns.size then .ok (L.register id) else .error .index

/-- Gives a pattern a name to refer to it by, unless the name is in use. -/
def addNamedToken (L : Lexicon) (name : String) (id : Nat) : Lexicon :=
  if (L.namedTokens.lookup name).isSome then L
  else { L with namedTokens := L.namedTokens ++ [(name, id)] }

/-- Adds an extra token, unless there is one with that name. -/
def addExtraToken (L : Lexicon) (name : String) : Lexicon :=
  if name ∈ L.extraTokens then L else { L with extraTokens := L.extraTokens ++ [name] }

/-! ### Lexical states -/

/-- The position of the lexical state with a name. -/
def stateIndex (L : Lexicon) (name : String) : Option Nat :=
  L.lexicalStates.toList.findIdx? (·.name == name)

/-- The lexical state with a name. -/
def lexicalState (L : Lexicon) (name : String) : Option LexicalState :=
  L.lexicalStates.toList.find? (·.name == name)

/-- Changes a lexical state. -/
def modifyState (L : Lexicon) (id : Nat) (f : LexicalState → LexicalState) : Lexicon :=
  { L with lexicalStates := L.lexicalStates.modify id f }

/-- Adds a lexical state, unless there is one with that name. -/
def addLexicalState (L : Lexicon) (name : String) : Nat × Lexicon :=
  match L.stateIndex name with
  | some index => (index, L)
  | none =>
    (L.lexicalStates.size, { L with lexicalStates := L.lexicalStates.push { name := name } })

/-- The last lexical state that has a pattern, or the first one if there is none. -/
def stateOf (L : Lexicon) (pattern : Nat) : Nat :=
  let indices := (List.range L.lexicalStates.size).filter fun i =>
    (L.lexicalStates[i]?).any (·.hasPattern pattern)
  indices.getLast?.getD 0

/-- The largest number of automaton states in a lexical state. -/
def maxAutomatonSize (L : Lexicon) : Nat :=
  L.lexicalStates.toList.foldl (fun m s => max m s.automaton.liveCount) 0

/-! ### Tokens -/

/-- The pattern that a name refers to. -/
def namedToken (L : Lexicon) (name : String) : Option Nat := L.namedTokens.lookup name

/-- The number of registered patterns. -/
def registeredCount (L : Lexicon) : Nat := L.ordinals.size

/-- The number of tokens, extra tokens included. -/
def tokenCount (L : Lexicon) : Nat := L.ordinals.size + L.extraTokens.length

/-- The registered pattern with an ordinal. -/
def patternAt (L : Lexicon) (ordinal : Nat) : Option Pattern :=
  if ordinal = unbounded then none else (L.ordinals[ordinal]?).map L.pattern

/-- The registered patterns with their ordinals. -/
def registered (L : Lexicon) : List (Nat × Pattern) :=
  L.ordinals.toList.zipIdx.map fun (id, ordinal) => (ordinal, L.pattern id)

/-- The ordinal of an extra token. -/
def extraTokenOrdinal (L : Lexicon) (name : String) : Option Nat :=
  (L.extraTokens.findIdx? (· == name)).map (L.ordinals.size + ·)

/-- The name of a token. An ordinal without a token is its own name. -/
def tokenName (L : Lexicon) (ordinal : Nat) : String :=
  match L.ordinals[ordinal]? with
  | some id => (L.pattern id).label
  | none => (L.extraTokens[ordinal - L.ordinals.size]?).getD (toString ordinal)

/-- The label of the first registered pattern for a literal text. -/
def literalLabel (L : Lexicon) (image : String) : Option String :=
  (L.registered.find? fun (_, p) => p.literal? == some image).map fun (_, p) => p.label

/-- The tokens whose patterns satisfy a condition. -/
def tokensWith (L : Lexicon) (condition : Pattern → Bool) : TokenSet :=
  .ofList ((L.registered.filter fun (_, p) => condition p).map (·.1))

/-- The tokens of a kind. -/
def tokensOfKind (L : Lexicon) (kind : TokenKind) : TokenSet :=
  L.tokensWith fun p => (p.production.map fun tp => (L.production tp).kind) == some kind

/-- The tokens that the parser sees: those of the regular kind, and those that were declared
outside of any token production. -/
def regularTokens (L : Lexicon) : TokenSet :=
  L.tokensWith fun p =>
    match p.production with
    | some tp => (L.production tp).kind == .token
    | none => true

/-- A match can change the lexical state. -/
def hasTransitions (L : Lexicon) : Bool :=
  decide (1 < L.lexicalStates.size) && L.registered.any fun (_, p) => p.nextState.isSome

/-- A match can run code. -/
def hasActions (L : Lexicon) : Bool := L.registered.any fun (_, p) => p.action.isSome

/-- The text of the registered patterns. -/
def render (L : Lexicon) : String :=
  ", ".intercalate (L.registered.map fun (ordinal, p) => toString ordinal ++ ": " ++ p.label)

/-! ### Names of the tokens of a set -/

/-- The members of a set that come before the first one that is no token. -/
def tokensWithin (L : Lexicon) (s : TokenSet) : List Nat :=
  (s.iter.map UInt32.toNat).takeWhile (· < L.tokenCount)

/-- The names of the tokens of a set. -/
def tokenNames (L : Lexicon) (s : TokenSet) : List String :=
  (L.tokensWithin s).map L.tokenName

/-- The name of the first token of a set. -/
def firstTokenName (L : Lexicon) (s : TokenSet) : Option String :=
  (L.tokenNames s).head?

/-- The names of the tokens of a set, with commas between them. -/
def tokenList (L : Lexicon) (s : TokenSet) : String :=
  ", ".intercalate (L.tokenNames s)

/-! ### Empty matches -/

/-- The pattern matches the empty text. `visiting` holds the patterns that are being looked
into; a reference to one of them, or to nothing, matches nothing. Each pattern that is entered
takes one from the budget. -/
def matchesEmptyWithin (L : Lexicon) : (budget : Nat) → (visiting : List Nat) → Nat → Bool
  | 0, _, _ => false
  | budget + 1, visiting, id =>
    match (L.pattern id).tree with
    | none => false
    | some tree => tree.nullableWith fun name =>
      match L.namedToken name with
      | none => false
      | some target =>
        if target ∈ visiting then false
        else matchesEmptyWithin L budget (target :: visiting) target

/-- The pattern matches the empty text. -/
def matchesEmpty (L : Lexicon) (id : Nat) : Bool :=
  L.matchesEmptyWithin (L.patterns.size + 1) [id] id

/-! ### Labels -/

/-- The label of a token whose label is no identifier: the upper-case form of its literal text
if that is an identifier which no token has for its label, and a name made from the ordinal
otherwise. -/
def replacementLabel (L : Lexicon) (ordinal : Nat) (p : Pattern) : String :=
  let numbered := "_TOKEN_" ++ toString ordinal
  match p.literal? with
  | none => numbered
  | some image =>
    let upper := CaseMap.upperText image
    if isIdentifier upper && !(L.registered.any fun (_, q) => q.label == upper) then upper
    else numbered

/-- Makes the label of one token an identifier. -/
def ensureLabel (L : Lexicon) (ordinal : Nat) : Lexicon :=
  match L.ordinals[ordinal]? with
  | none => L
  | some id =>
    let p := L.pattern id
    if isIdentifier p.label then L
    else
      let label := L.replacementLabel ordinal p
      L.modifyPattern id fun p => { p with givenLabel := label }

/-- Makes the labels of the tokens identifiers, by increasing ordinal. -/
def ensureLabels (L : Lexicon) : Lexicon :=
  (List.range L.ordinals.size).foldl ensureLabel L

end Lexicon

end GrammarAnalysis
