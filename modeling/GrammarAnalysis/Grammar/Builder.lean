import GrammarAnalysis.Grammar.Basic

/-!
# Building Grammars

A grammar is built by adding token productions, nodes and productions, each of which gets the
next position of its kind. An operand, a root and the parts of a lookahead have to exist when
they are mentioned; a terminal and a non-terminal can refer to what does not exist yet.

A node that is used in several places belongs to the last of them.

## Main definitions

* `Grammar.addNode` and the functions for each shape;
* `Grammar.setLookahead`, `setScanLimit`, `setTolerant` — the properties of a node;
* `Grammar.addProduction` — productions;
* `Grammar.describe` — what a message is about, in words.
-/

namespace GrammarAnalysis

namespace Grammar

/-! ### The lexical part -/

/-- Adds a lexical state, unless there is one with that name. -/
def addLexicalState (g : Grammar) (name : String) : Nat × Grammar :=
  let (id, L) := g.lexicon.addLexicalState name
  (id, { g with lexicon := L })

/-- Adds a token production. Without lexical states, it belongs to the default one. -/
def addTokenProduction (g : Grammar) (tp : TokenProduction) : Nat × Grammar :=
  let states := if tp.lexicalStates.isEmpty then [defaultLexicalState] else tp.lexicalStates
  let (id, L) := g.lexicon.addTokenProduction
    { tp with lexicalStates := states, ignoreCase := tp.ignoreCase || g.options.ignoreCase }
  (id, { g with lexicon := L })

/-- Adds a pattern at the end of a token production. -/
def addEntry (g : Grammar) (production : Nat) (label : String) (isPrivate : Bool)
    (tree : Option Regex) : Except Fault (Nat × Grammar) := do
  let (id, L) ← g.lexicon.addEntry production label isPrivate tree
  return (id, { g with lexicon := L })

/-- Changes the first entry of a pattern in the token production that declares it. -/
def modifyEntry (g : Grammar) (pattern : Nat) (f : TokenEntry → TokenEntry) :
    Except Fault Grammar :=
  match g.lexicon.pattern? pattern with
  | none => .error .index
  | some p =>
    match p.production with
    | none => .ok g
    | some tp => .ok { g with lexicon := g.lexicon.modifyProduction tp fun tp =>
        match tp.entries.findIdx? (·.pattern == pattern) with
        | some i => { tp with entries := tp.entries.modify i f }
        | none => tp }

/-- Sets the lexical state that the lexer goes to after a match of the pattern. -/
def setNextState (g : Grammar) (pattern : Nat) (state : String) : Except Fault Grammar :=
  g.modifyEntry pattern fun e => { e with nextState := some state }

/-- Sets the code to run after a match of the pattern. -/
def setAction (g : Grammar) (pattern : Nat) (action : String) : Except Fault Grammar :=
  g.modifyEntry pattern fun e => { e with action := some action }

/-- Adds an extra token, unless there is one with that name. -/
def addExtraToken (g : Grammar) (name : String) : Grammar :=
  { g with lexicon := g.lexicon.addExtraToken name }

/-! ### Nodes -/

/-- Sets what a node belongs to. -/
def setParent (g : Grammar) (e : Nat) (parent : Parent) : Grammar :=
  g.modifyNode e fun n => { n with parent := parent }

/-- Adds a node. Its operands have to exist, and belong to it from now on. -/
def addNode (g : Grammar) (shape : Shape) : Except Fault (Nat × Grammar) :=
  if shape.children.all (· < g.size) then
    let id := g.size
    let g := shape.children.foldl (fun g child => g.setParent child (.expansion id)) g
    .ok (id, { g with nodes := g.nodes.push { shape := shape } })
  else
    .error .index

/-- Adds a terminal for a pattern. -/
def addTerminal (g : Grammar) (pattern : Nat) : Except Fault (Nat × Grammar) :=
  g.addNode (.terminal pattern)

/-- Adds a terminal for a literal text. The text is declared in a token production of its own,
which is not explicit. -/
def addLiteral (g : Grammar) (image : String) : Except Fault (Nat × Grammar) := do
  let (tp, g) := g.addTokenProduction { kind := .token, explicit := false }
  let (pattern, g) ← g.addEntry tp "" false (some (.text image))
  g.addTerminal pattern

/-- Adds a terminal for a reference to a named token. -/
def addTokenReference (g : Grammar) (name : String) : Except Fault (Nat × Grammar) :=
  let (pattern, L) := g.lexicon.addPattern { givenLabel := "", tree := some (.reference name) }
  addTerminal { g with lexicon := L } pattern

/-- Gives a sequence a lookahead, whose parts belong to it from now on. -/
def setLookahead (g : Grammar) (e : Nat) (lookahead : Lookahead) : Except Fault Grammar := do
  g.requireNode e
  if !g.isSequence e then throw .lookaheadOffSequence
  let parts := lookahead.nested.toList ++ lookahead.upTo.toList
  parts.forM g.requireNode
  let g := parts.foldl (fun g part => g.setParent part (.lookahead e)) g
  return g.modifyNode e fun n => { n with lookahead := some lookahead }

/-- Ends lookaheads after a unit, or a number of tokens beyond it. -/
def setScanLimit (g : Grammar) (e plus : Nat) : Except Fault Grammar := do
  g.requireNode e
  return g.modifyNode e fun n => { n with scanLimit := true, scanLimitPlus := plus }

/-- Lets the parser recover from errors in an expansion, or not. -/
def setTolerant (g : Grammar) (e : Nat) (tolerant : Bool) : Except Fault Grammar := do
  g.requireNode e
  return g.modifyNode e fun n => { n with tolerant := tolerant }

/-! ### Productions -/

/-- Adds a production. Its name means this production from now on. -/
def addProduction (g : Grammar) (name : String) (root : Nat) : Except Fault (Nat × Grammar) := do
  g.requireNode root
  let id := g.productions.size
  let g := g.setParent root (.production id)
  return (id, { g with productions := g.productions.push { name := name, root := root } })

/-- Sets the lexical state for a production. -/
def setLexicalState (g : Grammar) (p : Nat) (state : String) : Except Fault Grammar := do
  g.requireProduction p
  return g.modifyProduction p fun production => { production with lexicalState := some state }

/-- Sets the name of the tree node of a production. -/
def setNodeLabel (g : Grammar) (p : Nat) (label : String) : Except Fault Grammar := do
  g.requireProduction p
  return g.modifyProduction p fun production => { production with nodeLabel := some label }

/-! ### Places -/

/-- There is a pattern at the position. -/
def requirePattern (g : Grammar) (id : Nat) : Except Fault Unit :=
  if id < g.lexicon.patterns.size then .ok () else .error .index

/-- There is a token production at the position. -/
def requireTokenProduction (g : Grammar) (id : Nat) : Except Fault Unit :=
  if id < g.lexicon.tokenProductions.size then .ok () else .error .index

/-- Sets the place of a part of the grammar in the source. Some parts have no place. -/
def setPosition (g : Grammar) (subject : Subject) (position : Position) :
    Except Fault Grammar := do
  match subject with
  | .grammar | .lexicalState _ => return g
  | .production id =>
    g.requireProduction id
    return g.modifyProduction id fun p => { p with position := position }
  | .expansion id =>
    g.requireNode id
    return g.modifyNode id fun n => { n with position := position }
  | .regex id =>
    g.requirePattern id
    return { g with lexicon := g.lexicon.modifyPattern id fun p => { p with position := position } }
  | .entry tp index =>
    g.requireTokenProduction tp
    return { g with lexicon := g.lexicon.modifyProduction tp fun tp =>
      { tp with entries := tp.entries.modify index fun e => { e with position := position } } }

/-- A part of the grammar in words, with its place in the source. -/
def describe (g : Grammar) (subject : Subject) : Except Fault String := do
  match subject with
  | .grammar => return "grammar"
  | .production id =>
    g.requireProduction id
    let p := g.production id
    return s!"production {p.name} on {p.position.render}"
  | .expansion id =>
    g.requireNode id
    let n := g.node id
    return s!"{n.shape.render} on {n.position.render}"
  | .regex id =>
    g.requirePattern id
    let p := g.lexicon.pattern id
    return s!"regular expression {p.label} on {p.position.render}"
  | .entry tp index =>
    g.requireTokenProduction tp
    match (g.lexicon.production tp).entries[index]? with
    | some entry =>
      return s!"regular expression {(g.lexicon.pattern entry.pattern).label} on {entry.position.render}"
    | none => return s!"token production #{tp}"
  | .lexicalState id =>
    match g.lexicon.lexicalStates[id]? with
    | some state => return s!"lexical state {state.name}"
    | none => throw .index

end Grammar

end GrammarAnalysis
