import GrammarAnalysis.Lexicon.Build

/-!
# Grammars

A grammar has a lexical part, the lexicon, and productions. The right-hand sides of the
productions are *expansions*: nodes of an arena that refer to the nodes below them by position.
An operand always exists before the node that it is an operand of, so the nodes below a node
come before it. A sequence can carry a *lookahead*, which the parser tries before it enters
the sequence.

## Main definitions

* `Shape`, `Parent`, `Lookahead`, `Node` — expansions;
* `Production`, `Options`, `Grammar` — grammars;
* `Memory` — what has been found out about a grammar and is kept;
* `Grammar.node`, `Grammar.productionNamed` — how nodes and productions are found.
-/

namespace GrammarAnalysis

/-! ### Expansions -/

/-- An expansion that consumes no token. -/
inductive EmptyShape where
  /-- Nothing at all. -/
  | plain
  /-- A code block, which may also run while the parser looks ahead. -/
  | code (inLookahead : Bool)
  /-- A failure of the parser. -/
  | failure
  /-- Tokens are activated or deactivated. -/
  | activation (tokens : List String)
  /-- The lexer goes to another lexical state. -/
  | stateSwitch (state : String)
deriving DecidableEq, Repr

/-- What an expansion is, with the nodes that it consists of. -/
inductive Shape where
  | sequence (units : List Nat)
  | choice (alternatives : List Nat)
  | zeroOrMore (body : Nat)
  | oneOrMore (body : Nat)
  | zeroOrOne (body : Nat)
  | parentheses (body : Nat)
  | nonTerminal (name : String)
  | terminal (pattern : Nat)
  | empty (shape : EmptyShape)
deriving DecidableEq, Repr

namespace Shape

instance : Inhabited Shape := ⟨.empty .plain⟩

/-- The operands, in order. -/
def children : Shape → List Nat
  | sequence units => units
  | choice alternatives => alternatives
  | zeroOrMore body | oneOrMore body | zeroOrOne body | parentheses body => [body]
  | nonTerminal _ | terminal _ | empty _ => []

/-- The expansion can be repeated. -/
def isLoop : Shape → Bool
  | zeroOrMore _ | oneOrMore _ => true
  | _ => false

/-- The expansion is a sequence. -/
def isSequence : Shape → Bool
  | sequence _ => true
  | _ => false

/-- The expansion is a non-terminal. -/
def isNonTerminal : Shape → Bool
  | nonTerminal _ => true
  | _ => false

/-- The expansion is a terminal. -/
def isTerminal : Shape → Bool
  | terminal _ => true
  | _ => false

/-- The expansion makes the parser fail. -/
def isFailure : Shape → Bool
  | empty .failure => true
  | _ => false

/-- The expansion activates or deactivates tokens. -/
def isActivation : Shape → Bool
  | empty (.activation _) => true
  | _ => false

/-- The expansion is a code block that also runs while the parser looks ahead. -/
def isLookaheadCode : Shape → Bool
  | empty (.code inLookahead) => inLookahead
  | _ => false

/-- The text of a shape, without its operands. -/
def render : Shape → String
  | sequence _ => "sequence"
  | choice _ => "choice"
  | zeroOrMore _ => "(...)*"
  | oneOrMore _ => "(...)+"
  | zeroOrOne _ => "(...)?"
  | parentheses _ => "(...)"
  | nonTerminal name => s!"non-terminal {name}"
  | terminal pattern => s!"terminal #{pattern}"
  | empty .plain => "\x7b\x7d"
  | empty (.code _) => "code block"
  | empty .failure => "FAIL"
  | empty (.activation tokens) => "token activation [" ++ ", ".intercalate tokens ++ "]"
  | empty (.stateSwitch state) => s!"LEXICAL_STATE {state}"

end Shape

/-- What an expansion belongs to. -/
inductive Parent where
  /-- Nothing. -/
  | none
  /-- The production that it is the root of. -/
  | production (id : Nat)
  /-- The expansion that it is an operand of. -/
  | expansion (id : Nat)
  /-- The sequence that carries the lookahead it is a part of. -/
  | lookahead (carrier : Nat)
deriving DecidableEq, Repr, Inhabited

/-- The expansion that this is the node of, if it is one. -/
def Parent.expansion? : Parent → Option Nat
  | expansion id => some id
  | _ => Option.none

/-- A predicate on the productions that the parser is in: their names, and wildcards. -/
structure LookBehind where
  path : List String := []
  negated : Bool := false
deriving DecidableEq, Repr

/-- What the parser tries before it enters a sequence. Without a nested expansion, it tries the
sequence itself. -/
structure Lookahead where
  /-- The number of tokens to look at. -/
  amount : Option Nat := none
  /-- The expansion to try. -/
  nested : Option Nat := none
  /-- A predicate to evaluate. -/
  semantic : Option String := none
  /-- The predicate is also evaluated inside of another lookahead. -/
  semanticNested : Bool := false
  negated : Bool := false
  lookBehind : Option LookBehind := none
  /-- The expansion to look up to, which has to be one token. -/
  upTo : Option Nat := none
  /-- A lookahead that consists of a predicate alone looks at no token. -/
  legacy : Bool := false
deriving DecidableEq, Repr

/-- A node of the expansions. -/
structure Node where
  shape : Shape := .empty .plain
  parent : Parent := .none
  lookahead : Option Lookahead := none
  /-- A lookahead ends after this unit. -/
  scanLimit : Bool := false
  /-- The number of tokens that a lookahead goes beyond the limit. -/
  scanLimitPlus : Nat := 0
  /-- The parser recovers from errors in this expansion. -/
  tolerant : Bool := false
  position : Position := {}
deriving DecidableEq, Repr, Inhabited

/-! ### Grammars -/

/-- A production: a name, and the expansion that it stands for. -/
structure Production where
  name : String
  root : Nat
  /-- The lexical state for the production. -/
  lexicalState : Option String := none
  /-- What was given for the name of the tree node. -/
  nodeLabel : Option String := none
  position : Position := {}
deriving DecidableEq, Repr, Inhabited

namespace Production

/-- The name of the tree node of the production: the name of the production, unless another
name was given. Some words in the place of the name have a meaning of their own. -/
def nodeName (p : Production) : String :=
  match p.nodeLabel with
  | some label =>
    if label ∈ ["abstract", "interface", "void", "scan"] then p.name else label
  | none => p.name

/-- The production is used in lookaheads only. -/
def onlyForLookahead (p : Production) : Bool := p.nodeLabel == some "scan"

/-- The name of the variable that holds the tokens the production can begin with. -/
def firstSetName (p : Production) : String := p.name ++ "_FIRST_SET"

end Production

/-- The options of a grammar. -/
structure Options where
  ignoreCase : Bool := false
  /-- What all generated identifiers begin with. -/
  identifierStart : String := ""
  legacyLookahead : Bool := false
deriving DecidableEq, Repr, Inhabited

/-- What has been found out about a grammar and is kept. A later answer is taken from here, even
if the grammar has changed since. -/
structure Memory where
  /-- The tokens that a node can begin with. -/
  first : List (Nat × TokenSet) := []
  /-- The tokens that a production can begin with. -/
  productionFirst : List (Nat × TokenSet) := []
  /-- The tokens that a production can end with. -/
  productionFinal : List (Nat × TokenSet) := []
  /-- The variable names of the first sets of nodes. -/
  firstSetNames : List (Nat × String) := []
  /-- The names of the routines that look ahead at nodes. -/
  scanRoutineNames : List (Nat × String) := []
  /-- The identifiers in use. -/
  identifiers : OrderedSet String := ∅
  /-- The non-terminals that were found to refer to a production they lead. -/
  leftRecursive : OrderedSet Nat := ∅
deriving DecidableEq, Repr, Inhabited

/-- A grammar. -/
structure Grammar where
  options : Options := {}
  lexicon : Lexicon
  nodes : Array Node := #[]
  productions : Array Production := #[]
  /-- The names of the declared tokens, by increasing ordinal. -/
  tokenNames : List (Nat × String) := []
  log : Log := {}
  memory : Memory := {}
deriving Repr

namespace Grammar

/-- A grammar without productions. Its lexicon has the default lexical state. -/
def new (options : Options) : Grammar :=
  { options := options
    lexicon := ((Lexicon.new options.ignoreCase).addLexicalState defaultLexicalState).2 }

instance : Inhabited Grammar := ⟨new {}⟩

/-- The number of nodes. -/
def size (g : Grammar) : Nat := g.nodes.size

/-- The node at a position. -/
def node (g : Grammar) (e : Nat) : Node := (g.nodes[e]?).getD {}

/-- The shape of a node. -/
def shape (g : Grammar) (e : Nat) : Shape := (g.node e).shape

/-- The operands of a node, in order. -/
def children (g : Grammar) (e : Nat) : List Nat := (g.shape e).children

/-- What a node belongs to. -/
def parent (g : Grammar) (e : Nat) : Parent := (g.node e).parent

/-- The node that a node is an operand of. -/
def parentNode (g : Grammar) (e : Nat) : Option Nat := (g.parent e).expansion?

/-- The node is a sequence. -/
def isSequence (g : Grammar) (e : Nat) : Bool := (g.shape e).isSequence

/-- The production at a position. -/
def production (g : Grammar) (p : Nat) : Production := (g.productions[p]?).getD default

/-- The position of the last production with a name. -/
def productionNamed (g : Grammar) (name : String) : Option Nat :=
  (g.productions.toList.reverse.findIdx? (·.name == name)).map fun i =>
    g.productions.size - 1 - i

/-- There is a node at the position. -/
def requireNode (g : Grammar) (e : Nat) : Except Fault Unit :=
  if e < g.size then .ok () else .error .index

/-- There is a production at the position. -/
def requireProduction (g : Grammar) (p : Nat) : Except Fault Unit :=
  if p < g.productions.size then .ok () else .error .index

/-- Changes a node. -/
def modifyNode (g : Grammar) (e : Nat) (f : Node → Node) : Grammar :=
  { g with nodes := g.nodes.modify e f }

/-- Changes a production. -/
def modifyProduction (g : Grammar) (p : Nat) (f : Production → Production) : Grammar :=
  { g with productions := g.productions.modify p f }

/-- Enough steps for a walk that visits no node twice. -/
def depth (g : Grammar) : Nat := g.size + 1

/-- Enough steps for a walk that goes through no non-terminal twice, and from one to the next
visits no node twice. -/
def budget (g : Grammar) : Nat := (g.size + 1) * (g.size + 1)

end Grammar

end GrammarAnalysis
