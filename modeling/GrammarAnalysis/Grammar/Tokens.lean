import GrammarAnalysis.Grammar.Checks

/-!
# Registration of the Tokens

The patterns of the token productions become tokens in the order of their declaration. A
literal text that a lexical state has already is not declared again: a terminal of a production
takes the ordinal of the first declaration, and is removed from its token production.
References are resolved last, and get the ordinals of what they refer to.

## Main definitions

* `Grammar.registerNames` — the patterns that can be referred to by name;
* `Grammar.registerTokens` — the ordinals of the patterns;
* `Grammar.referenceErrors`, `Grammar.resolveReferences` — references to tokens;
* `Lexicon.loops` — the patterns that refer to themselves.
-/

namespace GrammarAnalysis

namespace Grammar

/-- The patterns that the token productions declare, in order. -/
def declaredPatterns (g : Grammar) : List Nat :=
  g.tokenEntries.map fun (_, entry) => entry.pattern

/-! ### Names -/

/-- Makes it possible to refer to a labelled pattern by its label. -/
def registerName (g : Grammar) (id : Nat) : Grammar :=
  let p := g.lexicon.pattern id
  if p.isReference || !p.hasLabel then g
  else if (g.lexicon.namedToken p.givenLabel).isSome then
    g.record [.error (.regex id)
      ("Multiply defined lexical token name \"" ++ p.givenLabel ++ "\".")]
  else
    { g with lexicon := g.lexicon.addNamedToken p.givenLabel id }

/-- Makes it possible to refer to the labelled patterns by their labels. -/
def registerNames (g : Grammar) : Grammar := g.declaredPatterns.foldl registerName g

/-! ### Ordinals -/

/-- Enters a name for an ordinal, or replaces the one that it has. -/
def insertTokenName (ordinal : Nat) (name : String) : List (Nat × String) → List (Nat × String)
  | [] => [(ordinal, name)]
  | (n, other) :: rest =>
    if ordinal < n then (ordinal, name) :: (n, other) :: rest
    else if ordinal = n then (ordinal, name) :: rest
    else (n, other) :: insertTokenName ordinal name rest

/-- Declares a literal in a lexical state that does not have it yet. A pattern without an
ordinal is registered. -/
def declareLiteral (L : Lexicon) (state id : Nat) (image : String) : Lexicon :=
  let L := if (L.pattern id).ordinal.isNone then (L.register id).2 else L
  L.modifyState state fun s => s.addLiteral image id (L.ignoresCase id)

/-- What there is to say against taking a literal for one that is declared already. -/
def literalConflict? (L : Lexicon) (privates : List Nat) (image : String) (present : Nat) :
    Option String :=
  let otherKind := (L.kindOf present).filter (· != .token)
  match otherKind with
  | some kind =>
    some ("String token \"" ++ image ++ "\" has been defined as a \"" ++ kind.keyword ++ "\" token.")
  | none =>
    if present ∈ privates then
      some ("String token \"" ++ image ++ "\" has been defined as a private regular expression.")
    else none

/-- Takes a literal for the one that is declared already: it gets the same ordinal. -/
def shareOrdinal (L : Lexicon) (id present : Nat) : Lexicon :=
  L.modifyPattern id fun p => { p with ordinal := (L.pattern present).ordinal }

/-- The registration of the patterns of one token production. -/
structure Registration where
  grammar : Grammar
  /-- The private patterns met so far. -/
  privates : List Nat := []
  /-- The patterns found to be declared already. -/
  removed : List Nat := []

namespace Registration

/-- Registers a literal in one lexical state. -/
def literalIn (explicit : Bool) (id : Nat) (image : String) (r : Registration) (state : String) :
    Registration :=
  let L := r.grammar.lexicon
  match L.stateIndex state with
  | none => r
  | some index =>
    match (L.lexicalStates[index]?).bind (·.findLiteral image) with
    | none => { r with grammar := { r.grammar with lexicon := declareLiteral L index id image } }
    | some present =>
      if explicit then r
      else match literalConflict? L r.privates image present with
        | some text => { r with grammar := r.grammar.record [.error (.regex id) text] }
        | none =>
          { r with
            grammar := { r.grammar with lexicon := shareOrdinal L id present }
            removed := r.removed ++ [id] }

/-- Enters the name of a pattern that has a label and an ordinal. -/
def nameToken (id : Nat) (r : Registration) : Registration :=
  let p := r.grammar.lexicon.pattern id
  match p.hasLabel, p.ordinal with
  | true, some ordinal =>
    { r with grammar := { r.grammar with
      tokenNames := insertTokenName ordinal p.givenLabel r.grammar.tokenNames } }
  | _, _ => r

/-- Registers a pattern: a literal in each lexical state of its token production, and any other
pattern as a token of its own. References and private patterns are no tokens. -/
def pattern (tp : TokenProduction) (r : Registration) (id : Nat) : Registration :=
  let L := r.grammar.lexicon
  let p := L.pattern id
  if p.isReference then r
  else if p.isPrivate then { r with privates := r.privates ++ [id] }
  else match p.literal? with
    | none => nameToken id { r with grammar := { r.grammar with lexicon := (L.register id).2 } }
    | some image => nameToken id (tp.lexicalStates.foldl (literalIn tp.explicit id image) r)

end Registration

/-- Registers the patterns of a token production. -/
def registerProduction (g : Grammar) (id : Nat) : Grammar :=
  let tp := g.lexicon.production id
  let r := (tp.entries.map (·.pattern)).foldl (Registration.pattern tp) { grammar := g }
  { r.grammar with lexicon := r.grammar.lexicon.modifyProduction id fun tp =>
    { tp with entries := tp.entries.filter fun entry => !r.removed.contains entry.pattern } }

/-- Registers the patterns of the token productions. -/
def registerTokens (g : Grammar) : Grammar :=
  (List.range g.lexicon.tokenProductions.size).foldl registerProduction g

/-! ### References -/

/-- What is wrong with a reference to a token. Outside of explicit token productions, a
reference has to be to a token that the parser sees. -/
def referenceError? (L : Lexicon) (explicit : Bool) (name : String) : Option String :=
  if name ∈ L.extraTokens then none
  else match L.namedToken name with
    | none => some ("Undefined lexical token name \"" ++ name ++ "\".")
    | some target =>
      let subject := "Token name \"" ++ name ++ "\" refers to a "
      if explicit then none
      else if (L.pattern target).isPrivate then
        some (subject ++ "private (with a #) regular expression.")
      else if (L.kindOf target).any (· != .token) then
        some (subject ++ "non-token (SKIP, MORE, UNPARSED) regular expression.")
      else none

/-- The errors in references to tokens, in patterns and in productions. -/
def referenceErrors (g : Grammar) : List Finding :=
  let L := g.lexicon
  L.patterns.toList.zipIdx.flatMap fun (p, id) =>
    let explicit := (p.production.map L.production).any (·.explicit)
    (p.references.filterMap (referenceError? L explicit)).map fun text => .error (.regex id) text

/-- Gives a reference the ordinal of what it refers to. -/
def resolveReference (L : Lexicon) (id : Nat) : Lexicon :=
  match (L.pattern id).reference? with
  | none => L
  | some name =>
    let ordinal := match L.namedToken name with
      | some target => (L.pattern target).ordinal
      | none => L.extraTokenOrdinal name
    L.modifyPattern id fun p => { p with ordinal := ordinal }

/-- Gives the references the ordinals of what they refer to, and removes them from the token
productions, since they declare no token of their own. -/
def resolveReferences (g : Grammar) : Grammar :=
  let L := (List.range g.lexicon.patterns.size).foldl resolveReference g.lexicon
  let productions := L.tokenProductions.map fun tp =>
    { tp with entries := tp.entries.filter fun entry => !(L.pattern entry.pattern).isReference }
  { g with lexicon := { L with tokenProductions := productions } }

end Grammar

/-! ### Patterns that refer to themselves -/

/-- What a search for patterns that refer to themselves has found. -/
structure LoopSearch where
  /-- The patterns at which a loop was found to close. -/
  closed : List Nat := []
  /-- The patterns whose references close a loop. -/
  loops : List Nat := []
deriving Repr, Inhabited

namespace Lexicon

/-- Follows the references of a pattern. `visiting` holds the patterns on the way to it; each
pattern that is entered takes one from the budget. -/
def searchWithin (L : Lexicon) : (budget : Nat) → (visiting : List Nat) → LoopSearch → Nat →
    LoopSearch
  | 0, _, found, _ => found
  | budget + 1, visiting, found, id =>
    let targets := (L.pattern id).references.filterMap L.namedToken
    targets.foldl (fun found target =>
      if target ∈ found.closed then found
      else if target ∈ visiting then
        { closed := target :: found.closed, loops := found.loops ++ [id] }
      else searchWithin L budget (target :: visiting) found target) found

/-- The patterns with a reference that closes a loop, found from the given patterns. -/
def loops (L : Lexicon) (starts : List Nat) : List Nat :=
  (starts.foldl (L.searchWithin (L.patterns.size + 1) []) {}).loops

end Lexicon

namespace Grammar

/-- The declared patterns that refer to themselves. -/
def loopErrors (g : Grammar) : List Finding :=
  (g.lexicon.loops g.declaredPatterns).map fun id =>
    .error (.regex id) "Self-referential loop detected"

end Grammar

end GrammarAnalysis
