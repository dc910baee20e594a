import GrammarAnalysis.Grammar.Analysis
import GrammarAnalysis.Grammar.Builder
import Mathlib.Logic.Relation

/-!
# How Grammars Come About

A grammar starts out empty and grows by the steps of its builder; in between it can be checked
and analyzed. `BuilderStep` and `AnalysisStep` are these steps as relations, so that a statement
about every grammar is an induction over the steps that led to it.

What a step does to the expansions is said once: the analysis leaves them as they are
(`Grammar.Keeps`), and a step of the builder adds a node, a lookahead or a production, or nothing
(`Grammar.Grows`). Neither adds to the memory of a grammar.

## Main definitions

* `Grammar.BuilderStep`, `Grammar.AnalysisStep`: the steps;
* `Grammar.Built`, `Grammar.Developed`: the grammars that a builder makes, and those that it
  makes together with the analysis;
* `Grammar.tokenList`: a small recursive grammar.

## Main results

* `Grammar.BuilderStep.grows`, `Grammar.AnalysisStep.keeps`: what the steps do;
* `Grammar.Developed.memory_blank`: a grammar that was asked nothing remembers no set of tokens.
-/

namespace GrammarAnalysis

/-- No set of tokens is remembered. -/
structure Memory.Blank (m : Memory) : Prop where
  first : m.first = []
  productionFirst : m.productionFirst = []
  productionFinal : m.productionFinal = []

namespace Grammar

/-! ### Changes that leave the expansions alone -/

/-- The expansions and the remembered sets of tokens are the same in both grammars. -/
structure Keeps (g g' : Grammar) : Prop where
  nodes : g'.nodes = g.nodes
  productions : g'.productions = g.productions
  first : g'.memory.first = g.memory.first
  productionFirst : g'.memory.productionFirst = g.memory.productionFirst
  productionFinal : g'.memory.productionFinal = g.memory.productionFinal

namespace Keeps

variable {g g' g'' : Grammar}

/-- A grammar keeps its own expansions. -/
theorem refl (g : Grammar) : g.Keeps g :=
  ⟨rfl, rfl, rfl, rfl, rfl⟩

/-- What two changes keep, they keep one after the other. -/
theorem trans (h : g.Keeps g') (h' : g'.Keeps g'') : g.Keeps g'' :=
  ⟨h'.nodes.trans h.nodes, h'.productions.trans h.productions, h'.first.trans h.first,
    h'.productionFirst.trans h.productionFirst, h'.productionFinal.trans h.productionFinal⟩

/-- A series of changes keeps what each of them keeps. -/
theorem foldl {α : Type} {f : Grammar → α → Grammar} (hf : ∀ g a, Keeps g (f g a))
    (l : List α) (g : Grammar) : g.Keeps (l.foldl f g) := by
  induction l generalizing g with
  | nil => exact refl g
  | cons a l ih => exact (hf g a).trans (ih (f g a))

/-- Changes outside of the expansions and the memory. -/
theorem of_lexicon (g : Grammar) (L : Lexicon) (names : List (Nat × String)) (log : Log) :
    g.Keeps { g with lexicon := L, tokenNames := names, log := log } :=
  ⟨rfl, rfl, rfl, rfl, rfl⟩

end Keeps

/-! ### The analysis -/

/-- Recording findings keeps the expansions. -/
theorem keeps_record (g : Grammar) (findings : List Finding) : g.Keeps (g.record findings) :=
  .of_lexicon g g.lexicon g.tokenNames _

/-- Checking the productions keeps the expansions. -/
theorem keeps_checkProductions (g : Grammar) : g.Keeps g.checkProductions := by
  refine (keeps_record g _).trans (Keeps.foldl (fun g p => ?_) _ _)
  exact ⟨rfl, rfl, rfl, rfl, rfl⟩

/-- Registering the names of patterns keeps the expansions. -/
theorem keeps_registerNames (g : Grammar) : g.Keeps g.registerNames := by
  refine Keeps.foldl (fun g id => ?_) _ _
  unfold registerName
  simp only
  split
  · exact .refl g
  · split
    · exact keeps_record g _
    · exact .of_lexicon g _ g.tokenNames g.log

/-- Registering a literal in a lexical state keeps the expansions. -/
theorem keeps_literalIn (explicit : Bool) (id : Nat) (image : String) (r : Registration)
    (state : String) : r.grammar.Keeps (r.literalIn explicit id image state).grammar := by
  unfold Registration.literalIn
  simp only
  split
  · exact .refl _
  · split
    · exact .of_lexicon _ _ _ _
    · split
      · exact .refl _
      · split
        · exact keeps_record _ _
        · exact .of_lexicon _ _ _ _

/-- Naming a token keeps the expansions. -/
theorem keeps_nameToken (id : Nat) (r : Registration) :
    r.grammar.Keeps (r.nameToken id).grammar := by
  unfold Registration.nameToken
  simp only
  split
  · exact .of_lexicon _ _ _ _
  · exact .refl _

/-- Registering a literal in several lexical states keeps the expansions. -/
theorem keeps_literals (explicit : Bool) (id : Nat) (image : String) (states : List String)
    (r : Registration) :
    r.grammar.Keeps (states.foldl (Registration.literalIn explicit id image) r).grammar := by
  induction states generalizing r with
  | nil => exact .refl _
  | cons state states ih => exact (keeps_literalIn explicit id image r state).trans (ih _)

/-- Registering a pattern of a token production keeps the expansions. -/
theorem keeps_pattern (tp : TokenProduction) (r : Registration) (id : Nat) :
    r.grammar.Keeps (r.pattern tp id).grammar := by
  unfold Registration.pattern
  simp only
  split
  · exact .refl _
  · split
    · exact .refl _
    · split
      · exact (Keeps.of_lexicon r.grammar _ _ _).trans (keeps_nameToken id { r with grammar := _ })
      · exact (keeps_literals _ _ _ _ _).trans (keeps_nameToken id _)

/-- Registering several patterns of a token production keeps the expansions. -/
theorem keeps_patterns (tp : TokenProduction) (ids : List Nat) (r : Registration) :
    r.grammar.Keeps (ids.foldl (Registration.pattern tp) r).grammar := by
  induction ids generalizing r with
  | nil => exact .refl _
  | cons id ids ih => exact (keeps_pattern tp r id).trans (ih _)

/-- Registering all tokens keeps the expansions. -/
theorem keeps_registerTokens (g : Grammar) : g.Keeps g.registerTokens := by
  refine Keeps.foldl (fun g id => ?_) _ _
  exact (keeps_patterns _ _ { grammar := g }).trans (.of_lexicon _ _ _ _)

/-- Checking the references keeps the expansions. -/
theorem keeps_checkReferences (g : Grammar) : g.Keeps g.checkReferences :=
  ((keeps_record g _).trans (.of_lexicon _ _ _ _)).trans (keeps_record _ _)

/-- The checks leave the expansions as they are. -/
theorem keeps_check (g : Grammar) : g.Keeps g.check := by
  unfold check
  simp only
  split
  · exact keeps_record g _
  · have h := ((keeps_checkProductions g).trans (keeps_registerNames _)).trans
      (keeps_registerTokens _)
    split
    · exact h.trans (keeps_checkReferences _)
    · exact h

/-- The analysis leaves the expansions as they are. -/
theorem keeps_analyze {g g' : Grammar} {stage : Option Stage}
    (h : g.analyze = .ok (stage, g')) : g.Keeps g' := by
  unfold analyze at h
  simp only [bind, Except.bind, pure, Except.pure] at h
  have hcheck := keeps_check g
  split at h
  · cases h
    exact hcheck
  · split at h
    · cases h
    · split at h
      · cases h
        exact hcheck.trans (.of_lexicon _ _ _ _)
      · cases h
        exact hcheck.trans (.of_lexicon _ _ _ _)

/-! ### Nodes and their parents -/

/-- Setting a parent keeps the number of nodes. -/
@[simp] theorem size_setParent (g : Grammar) (e : Nat) (parent : Parent) :
    (g.setParent e parent).size = g.size := by
  simp [setParent, modifyNode, size]

/-- A change of a node is seen at this node only. -/
theorem node_modifyNode (g : Grammar) (e x : Nat) (f : Node → Node) :
    (g.modifyNode e f).node x = if e = x ∧ x < g.size then f (g.node x) else g.node x := by
  simp only [node, modifyNode, size, Array.getElem?_modify]
  by_cases h : e = x
  · subst h
    by_cases he : e < g.nodes.size
    · simp [he]
    · simp [he]
  · simp [h]

/-- A change that is of no account to a view of the nodes is not seen in it. -/
theorem view_modifyNode {α : Type} (view : Node → α) (g : Grammar) (e x : Nat) (f : Node → Node)
    (hf : ∀ n, view (f n) = view n) : view ((g.modifyNode e f).node x) = view (g.node x) := by
  rw [node_modifyNode]
  split
  · exact hf _
  · rfl

/-- Changing a node keeps the number of nodes. -/
@[simp] theorem size_modifyNode (g : Grammar) (e : Nat) (f : Node → Node) :
    (g.modifyNode e f).size = g.size := by
  simp [modifyNode, size]

/-- The parent that the nodes of a list are given in turn. -/
theorem node_adopt (cs : List Nat) (parent : Parent) (g : Grammar) (x : Nat) :
    (cs.foldl (fun g c => g.setParent c parent) g).node x =
      if x ∈ cs ∧ x < g.size then { g.node x with parent := parent } else g.node x := by
  induction cs generalizing g with
  | nil => simp
  | cons c cs ih =>
      rw [List.foldl_cons, ih, size_setParent, setParent, node_modifyNode]
      by_cases hx : x < g.size
      · by_cases hc : c = x
        · subst hc
          simp [hx]
        · have hne : x ≠ c := fun h => hc h.symm
          simp [hx, hc, hne]
      · simp [hx]

/-- Adopting children keeps the number of nodes. -/
@[simp] theorem size_adopt (cs : List Nat) (parent : Parent) (g : Grammar) :
    (cs.foldl (fun g c => g.setParent c parent) g).size = g.size := by
  induction cs generalizing g with
  | nil => rfl
  | cons c cs ih => rw [List.foldl_cons, ih, size_setParent]

/-- Giving nodes a parent changes nothing else. -/
theorem adopt_eq (cs : List Nat) (parent : Parent) (g : Grammar) :
    ∃ nodes, cs.foldl (fun g c => g.setParent c parent) g = { g with nodes := nodes } := by
  induction cs generalizing g with
  | nil => exact ⟨g.nodes, rfl⟩
  | cons c cs ih =>
      obtain ⟨nodes, h⟩ := ih (g.setParent c parent)
      exact ⟨nodes, h⟩

/-! ### The steps -/

/-- A step of the builder of a grammar. -/
inductive BuilderStep : Grammar → Grammar → Prop
  | addLexicalState (g : Grammar) (name : String) : BuilderStep g (g.addLexicalState name).2
  | addTokenProduction (g : Grammar) (tp : TokenProduction) :
      BuilderStep g (g.addTokenProduction tp).2
  | addEntry {g g' : Grammar} {tp id : Nat} {label : String} {isPrivate : Bool}
      {tree : Option Regex} :
      g.addEntry tp label isPrivate tree = .ok (id, g') → BuilderStep g g'
  | setNextState {g g' : Grammar} {pattern : Nat} {state : String} :
      g.setNextState pattern state = .ok g' → BuilderStep g g'
  | setAction {g g' : Grammar} {pattern : Nat} {action : String} :
      g.setAction pattern action = .ok g' → BuilderStep g g'
  | addExtraToken (g : Grammar) (name : String) : BuilderStep g (g.addExtraToken name)
  | addNode {g g' : Grammar} {id : Nat} (shape : Shape) :
      g.addNode shape = .ok (id, g') → BuilderStep g g'
  | addLiteral {g g' : Grammar} {id : Nat} (image : String) :
      g.addLiteral image = .ok (id, g') → BuilderStep g g'
  | addTokenReference {g g' : Grammar} {id : Nat} {name : String} :
      g.addTokenReference name = .ok (id, g') → BuilderStep g g'
  | setLookahead {g g' : Grammar} {e : Nat} {lookahead : Lookahead} :
      g.setLookahead e lookahead = .ok g' → BuilderStep g g'
  | setScanLimit {g g' : Grammar} {e plus : Nat} :
      g.setScanLimit e plus = .ok g' → BuilderStep g g'
  | setTolerant {g g' : Grammar} {e : Nat} {tolerant : Bool} :
      g.setTolerant e tolerant = .ok g' → BuilderStep g g'
  | addProduction {g g' : Grammar} {id : Nat} (name : String) (root : Nat) :
      g.addProduction name root = .ok (id, g') → BuilderStep g g'
  | setLexicalState {g g' : Grammar} {p : Nat} {state : String} :
      g.setLexicalState p state = .ok g' → BuilderStep g g'
  | setNodeLabel {g g' : Grammar} {p : Nat} {label : String} :
      g.setNodeLabel p label = .ok g' → BuilderStep g g'
  | setPosition {g g' : Grammar} {subject : Subject} {position : Position} :
      g.setPosition subject position = .ok g' → BuilderStep g g'

/-- A step of the analysis of a grammar. -/
inductive AnalysisStep : Grammar → Grammar → Prop
  | check (g : Grammar) : AnalysisStep g g.check
  | analyze {g g' : Grammar} {stage : Option Stage} :
      g.analyze = .ok (stage, g') → AnalysisStep g g'

/-- A grammar as a builder makes it. -/
def Built (g : Grammar) : Prop :=
  ∃ options, Relation.ReflTransGen BuilderStep (.new options) g

/-- A grammar as its builder and the analysis leave it, if no question is asked in between. -/
def Developed (g : Grammar) : Prop :=
  ∃ options, Relation.ReflTransGen (fun g g' => BuilderStep g g' ∨ AnalysisStep g g')
    (.new options) g

/-! ### What a step of the builder does to the expansions -/

/-- The nodes of both grammars have the same shapes, parents and lookaheads, and the productions
the same names and roots. -/
structure SameSkeleton (g g' : Grammar) : Prop where
  size : g'.size = g.size
  shape : ∀ x, g'.shape x = g.shape x
  parent : ∀ x, g'.parent x = g.parent x
  carried : ∀ x, g'.carried x = g.carried x
  productions : ∀ p : Nat,
    (g'.productions[p]?).map (fun q => (q.name, q.root))
      = (g.productions[p]?).map fun q => (q.name, q.root)
  memory : g'.memory = g.memory

/-- The second grammar has one node more, to which its operands belong. -/
structure AddsNode (g : Grammar) (shape : Shape) (g' : Grammar) : Prop where
  operands : ∀ c ∈ shape.children, c < g.size
  size : g'.size = g.size + 1
  node : ∀ x, g'.node x =
    if x = g.size then { shape := shape }
    else if x ∈ shape.children then { g.node x with parent := .expansion g.size }
    else g.node x
  productions : g'.productions = g.productions
  memory : g'.memory = g.memory

/-- In the second grammar, node `e` carries the lookahead, to which its parts belong. -/
structure AddsLookahead (g : Grammar) (e : Nat) (lookahead : Lookahead) (g' : Grammar) :
    Prop where
  carrier : e < g.size
  parts : ∀ c ∈ lookahead.nested.toList ++ lookahead.upTo.toList, c < g.size
  size : g'.size = g.size
  shape : ∀ x, g'.shape x = g.shape x
  parent : ∀ x, g'.parent x =
    if x ∈ lookahead.nested.toList ++ lookahead.upTo.toList then .lookahead e else g.parent x
  carried : ∀ x, g'.carried x = if x = e then some lookahead else g.carried x
  productions : g'.productions = g.productions
  memory : g'.memory = g.memory

/-- The second grammar has one production more, to which its root belongs. -/
structure AddsProduction (g : Grammar) (production : Production) (g' : Grammar) : Prop where
  root : production.root < g.size
  size : g'.size = g.size
  node : ∀ x, g'.node x =
    if x = production.root then { g.node x with parent := .production g.productions.size }
    else g.node x
  productions : g'.productions = g.productions.push production
  memory : g'.memory = g.memory

section

variable {g g' : Grammar}

/-! ### A new node -/

section

variable {shape : Shape} (h : g.AddsNode shape g')

include h

/-- The new node has its shape. -/
theorem AddsNode.shape_new : g'.shape g.size = shape := by
  rw [Grammar.shape, h.node, if_pos rfl]

/-- The older nodes keep their shapes. -/
theorem AddsNode.shape_of_ne {x : Nat} (hx : x ≠ g.size) : g'.shape x = g.shape x := by
  rw [Grammar.shape, Grammar.shape, h.node, if_neg hx]
  split <;> rfl

/-- The new node has no parent, and is the parent of its children; the others keep theirs. -/
theorem AddsNode.parent_eq (x : Nat) : g'.parent x =
    if x = g.size then .none
    else if x ∈ shape.children then .expansion g.size
    else g.parent x := by
  rw [Grammar.parent, h.node]
  split
  · rfl
  · split <;> rfl

/-- The older nodes keep their lookaheads. -/
theorem AddsNode.carried_of_ne {x : Nat} (hx : x ≠ g.size) : g'.carried x = g.carried x := by
  rw [Grammar.carried, Grammar.carried, h.node, if_neg hx]
  split <;> rfl

/-- The productions keep their roots when a node is added. -/
theorem AddsNode.root_eq (p : Nat) : g'.root p = g.root p := by
  rw [Grammar.root, Grammar.root, Grammar.production, Grammar.production, h.productions]

end

/-! ### A new lookahead -/

/-- The productions keep their roots when a lookahead is added. -/
theorem AddsLookahead.root_eq {e : Nat} {lookahead : Lookahead}
    (h : g.AddsLookahead e lookahead g') (p : Nat) : g'.root p = g.root p := by
  rw [Grammar.root, Grammar.root, Grammar.production, Grammar.production, h.productions]

/-! ### A new production -/

section

variable {production : Production} (h : g.AddsProduction production g')

include h

/-- The nodes keep their shapes when a production is added. -/
theorem AddsProduction.shape_eq (x : Nat) : g'.shape x = g.shape x := by
  rw [Grammar.shape, Grammar.shape, h.node]
  split <;> rfl

/-- The new production is the parent of its root; the other nodes keep theirs. -/
theorem AddsProduction.parent_eq (x : Nat) : g'.parent x =
    if x = production.root then .production g.productions.size else g.parent x := by
  rw [Grammar.parent, h.node]
  split <;> rfl

/-- The nodes keep their lookaheads when a production is added. -/
theorem AddsProduction.carried_eq (x : Nat) : g'.carried x = g.carried x := by
  rw [Grammar.carried, Grammar.carried, h.node]
  split <;> rfl

/-- The new production has its root. -/
theorem AddsProduction.root_new : g'.root g.productions.size = production.root := by
  rw [Grammar.root, Grammar.production, h.productions, Array.getElem?_push, if_pos rfl]
  rfl

/-- The older productions keep their roots. -/
theorem AddsProduction.root_of_lt {p : Nat} (hp : p < g.productions.size) :
    g'.root p = g.root p := by
  rw [Grammar.root, Grammar.root, Grammar.production, Grammar.production, h.productions,
    Array.getElem?_push, if_neg (Nat.ne_of_lt hp)]

/-- A production is the new one, or was there before. -/
theorem AddsProduction.lt_or_eq {p : Nat} (hp : p < g'.productions.size) :
    p < g.productions.size ∨ p = g.productions.size := by
  rw [h.productions, Array.size_push] at hp
  exact Nat.lt_succ_iff_lt_or_eq.mp hp

end

end

/-! ### The cases of a step -/

/-- What a step of the builder does to the expansions. -/
inductive Grows (g g' : Grammar) : Prop
  | skeleton (h : g.SameSkeleton g')
  | node (shape : Shape) (h : g.AddsNode shape g')
  | lookahead (e : Nat) (lookahead : Lookahead) (h : g.AddsLookahead e lookahead g')
  | production (production : Production) (h : g.AddsProduction production g')

/-- A change outside of the nodes, the productions and the memory keeps the skeleton. -/
theorem SameSkeleton.of_nodes {g g' : Grammar} (hn : g'.nodes = g.nodes)
    (hp : g'.productions = g.productions) (hm : g'.memory = g.memory) : g.SameSkeleton g' where
  size := by simp only [Grammar.size, hn]
  shape x := by simp only [Grammar.shape, node, hn]
  parent x := by simp only [Grammar.parent, node, hn]
  carried x := by simp only [Grammar.carried, node, hn]
  productions p := by rw [hp]
  memory := hm

/-- A change of a node that keeps its shape, parent and lookahead keeps the skeleton. -/
theorem SameSkeleton.of_modifyNode (g : Grammar) (e : Nat) (f : Node → Node)
    (hshape : ∀ n, (f n).shape = n.shape) (hparent : ∀ n, (f n).parent = n.parent)
    (hcarried : ∀ n, (f n).lookahead = n.lookahead) : g.SameSkeleton (g.modifyNode e f) where
  size := size_modifyNode g e f
  shape x := view_modifyNode (·.shape) g e x f hshape
  parent x := view_modifyNode (·.parent) g e x f hparent
  carried x := view_modifyNode (·.lookahead) g e x f hcarried
  productions _ := rfl
  memory := rfl

/-- A change of a production that keeps its name and root keeps the skeleton. -/
theorem SameSkeleton.of_modifyProduction (g : Grammar) (p : Nat) (f : Production → Production)
    (hf : ∀ q, ((f q).name, (f q).root) = (q.name, q.root)) :
    g.SameSkeleton (g.modifyProduction p f) where
  size := rfl
  shape _ := rfl
  parent _ := rfl
  carried _ := rfl
  productions q := by
    simp only [modifyProduction, Array.getElem?_modify]
    split
    · cases g.productions[q]? with
      | none => rfl
      | some production => simp only [Option.map_some, hf]
    · rfl
  memory := rfl

/-- A node is added only if its operands exist. -/
theorem grows_addNode {g g' : Grammar} {id : Nat} {shape : Shape}
    (h : g.addNode shape = .ok (id, g')) : g.Grows g' := by
  unfold addNode at h
  split at h
  · rename_i hc
    simp only [Except.ok.injEq, Prod.mk.injEq] at h
    obtain ⟨-, rfl⟩ := h
    have hlt : ∀ c ∈ shape.children, c < g.size := by
      simpa only [List.all_eq_true, decide_eq_true_eq] using hc
    obtain ⟨nodes, hnodes⟩ := adopt_eq shape.children (.expansion g.size) g
    have hsize : nodes.size = g.size := by
      have := size_adopt shape.children (.expansion g.size) g
      rwa [hnodes] at this
    refine .node shape ⟨hlt, ?_, fun x => ?_, ?_, ?_⟩
    · rw [hnodes]
      simp [size, hsize]
    · have hold := node_adopt shape.children (.expansion g.size) g x
      rw [hnodes] at hold ⊢
      simp only [node] at hold ⊢
      by_cases hx : x = g.size
      · subst hx
        simp [← hsize]
      · rw [Array.getElem?_push, if_neg (by omega), hold, if_neg hx]
        by_cases hm : x ∈ shape.children
        · rw [if_pos ⟨hm, hlt x hm⟩, if_pos hm]
        · rw [if_neg fun h => hm h.1, if_neg hm]
    · rw [hnodes]
    · rw [hnodes]
  · cases h

/-- A change outside of the expansions before a step is not seen in what the step does. -/
theorem Grows.of_nodes {g₀ g g' : Grammar} (hn : g.nodes = g₀.nodes)
    (hp : g.productions = g₀.productions) (hm : g.memory = g₀.memory) (h : g.Grows g') :
    g₀.Grows g' := by
  have hsize : g.size = g₀.size := by simp only [Grammar.size, hn]
  have hnode : g.node = g₀.node := by funext x; simp only [Grammar.node, hn]
  cases h with
  | skeleton h =>
      refine .skeleton ⟨h.size.trans hsize, fun x => ?_, fun x => ?_, fun x => ?_, fun p => ?_,
        h.memory.trans hm⟩
      · rw [h.shape, Grammar.shape, Grammar.shape, hnode]
      · rw [h.parent, Grammar.parent, Grammar.parent, hnode]
      · rw [h.carried, Grammar.carried, Grammar.carried, hnode]
      · rw [h.productions, hp]
  | node shape h =>
      obtain ⟨operands, size, node, productions, memory⟩ := h
      rw [hsize] at operands size
      rw [hsize, hnode] at node
      exact .node shape ⟨operands, size, node, productions.trans hp, memory.trans hm⟩
  | lookahead e lookahead h =>
      obtain ⟨carrier, parts, size, shape, parent, carried, productions, memory⟩ := h
      rw [hsize] at carrier size parts
      simp only [Grammar.shape, Grammar.parent, Grammar.carried, hnode] at shape parent carried
      exact .lookahead e lookahead ⟨carrier, parts, size, shape, parent, carried,
        productions.trans hp, memory.trans hm⟩
  | production production h =>
      obtain ⟨root, size, node, productions, memory⟩ := h
      rw [hsize] at root size
      rw [hp] at productions node
      rw [hnode] at node
      exact .production production ⟨root, size, node, productions, memory.trans hm⟩

/-- Where a part of the grammar is required, it is there if the step succeeds. -/
theorem bind_require {α : Type} {c : Prop} [Decidable c] {x : Except Fault α} {a : α}
    (h : ((if c then .ok () else .error .index : Except Fault Unit) >>= fun _ => x) = .ok a) :
    c ∧ x = .ok a := by
  by_cases hc : c
  · rw [if_pos hc] at h
    exact ⟨hc, h⟩
  · rw [if_neg hc] at h
    cases h

/-- What is required of each of several places holds if the requirement succeeds. -/
theorem forM_require {g : Grammar} {l : List Nat} {u : PUnit}
    (h : l.forM g.requireNode = .ok u) : ∀ c ∈ l, c < g.size := by
  induction l with
  | nil => exact fun c hc => absurd hc List.not_mem_nil
  | cons c l ih =>
      obtain ⟨hc, h⟩ := bind_require (x := l.forM g.requireNode) h
      intro d hd
      rcases List.mem_cons.mp hd with rfl | hd
      · exact hc
      · exact ih h d hd

/-- A lookahead is given to a sequence, and its parts, which exist, belong to it. -/
theorem setLookahead_cases {g g' : Grammar} {e : Nat} {lookahead : Lookahead}
    (h : g.setLookahead e lookahead = .ok g') :
    e < g.size ∧ (∀ c ∈ lookahead.nested.toList ++ lookahead.upTo.toList, c < g.size) ∧
      g' = ((lookahead.nested.toList ++ lookahead.upTo.toList).foldl
        (fun g c => g.setParent c (.lookahead e)) g).modifyNode e
          fun n => { n with lookahead := some lookahead } := by
  unfold setLookahead at h
  obtain ⟨he, h⟩ := bind_require h
  by_cases hs : g.isSequence e
  · simp only [hs, Bool.not_true, Bool.false_eq_true, if_false] at h
    obtain ⟨_, hparts, h⟩ := exists_of_bind_eq_ok h
    exact ⟨he, forM_require hparts, (Except.ok.inj h).symm⟩
  · simp only [hs] at h
    cases h

/-- Setting a lookahead adds it, and nothing else. -/
theorem grows_setLookahead {g g' : Grammar} {e : Nat} {lookahead : Lookahead}
    (h : g.setLookahead e lookahead = .ok g') : g.Grows g' := by
  obtain ⟨he, hparts, rfl⟩ := setLookahead_cases h
  generalize hl : lookahead.nested.toList ++ lookahead.upTo.toList = l at hparts ⊢
  obtain ⟨nodes, hnodes⟩ := adopt_eq l (.lookahead e) g
  have hadopt := node_adopt l (.lookahead e) g
  have hsize := size_adopt l (.lookahead e) g
  have hnode := fun x => node_modifyNode (l.foldl (fun g c => g.setParent c (.lookahead e)) g)
    e x fun n => { n with lookahead := some lookahead }
  refine .lookahead e lookahead ⟨he, hl ▸ hparts, ?_, fun x => ?_, fun x => ?_, fun x => ?_,
    ?_, ?_⟩
  · rw [size_modifyNode, hsize]
  · simp only [Grammar.shape, hnode, hadopt]
    split <;> split <;> rfl
  · simp only [Grammar.parent, hnode, hadopt, hl]
    by_cases hx : x ∈ l
    · simp only [hx, hparts x hx, and_self, if_true]
      split <;> rfl
    · simp only [hx, false_and, if_false]
      split <;> rfl
  · simp only [Grammar.carried, hnode, hadopt, hsize]
    by_cases hx : x = e
    · subst hx
      simp only [he, and_self, if_true]
    · rw [if_neg fun h => hx h.1.symm, if_neg hx]
      split <;> rfl
  · rw [hnodes]
    rfl
  · rw [hnodes]
    rfl

/-- Adding a production adds it, and nothing else. -/
theorem grows_addProduction {g g' : Grammar} {id root : Nat} {name : String}
    (h : g.addProduction name root = .ok (id, g')) : g.Grows g' := by
  unfold addProduction at h
  obtain ⟨hroot, h⟩ := bind_require h
  cases h
  refine .production { name := name, root := root }
    ⟨hroot, by simp [size, setParent, modifyNode], fun x => ?_, rfl, rfl⟩
  have hnode := node_modifyNode g root x
    fun n => { n with parent := .production g.productions.size }
  refine Eq.trans hnode ?_
  by_cases hx : x = root
  · subst hx
    rw [if_pos ⟨rfl, hroot⟩, if_pos rfl]
  · rw [if_neg fun h => hx h.1.symm, if_neg hx]

/-- Changing an entry of the lexicon keeps the skeleton. -/
theorem sameSkeleton_modifyEntry {g g' : Grammar} {pattern : Nat} {f : TokenEntry → TokenEntry}
    (h : g.modifyEntry pattern f = .ok g') : g.SameSkeleton g' := by
  unfold modifyEntry at h
  split at h
  · cases h
  · split at h
    · cases h
      exact .of_nodes rfl rfl rfl
    · cases h
      exact .of_nodes rfl rfl rfl

/-- An entry of a token production is outside of the expansions. -/
theorem addEntry_outside {g g' : Grammar} {tp id : Nat} {label : String} {isPrivate : Bool}
    {tree : Option Regex} (h : g.addEntry tp label isPrivate tree = .ok (id, g')) :
    g'.nodes = g.nodes ∧ g'.productions = g.productions ∧ g'.memory = g.memory := by
  unfold addEntry at h
  cases hL : g.lexicon.addEntry tp label isPrivate tree with
  | error fault =>
      rw [hL] at h
      cases h
  | ok result =>
      rw [hL] at h
      cases h
      exact ⟨rfl, rfl, rfl⟩

/-- Adding a terminal adds its node, and nothing else. -/
theorem grows_addTerminal {g g' : Grammar} {pattern id : Nat}
    (h : g.addTerminal pattern = .ok (id, g')) : g.Grows g' :=
  grows_addNode h

/-- A terminal for a literal is added to a grammar that differs in its lexical part only. -/
theorem addLiteral_inv {g g' : Grammar} {image : String} {id : Nat}
    (h : g.addLiteral image = .ok (id, g')) :
    ∃ (g₁ : Grammar) (pattern : Nat), g₁.nodes = g.nodes ∧ g₁.productions = g.productions ∧
      g₁.memory = g.memory ∧ g₁.addTerminal pattern = .ok (id, g') := by
  unfold addLiteral at h
  cases hentry : (g.addTokenProduction { kind := .token, explicit := false }).2.addEntry
      (g.addTokenProduction { kind := .token, explicit := false }).1 "" false
      (some (.text image)) with
  | error fault =>
      simp only [hentry] at h
      cases h
  | ok result =>
      obtain ⟨pattern, g₁⟩ := result
      simp only [hentry] at h
      obtain ⟨hn, hp, hm⟩ := addEntry_outside hentry
      exact ⟨g₁, pattern, hn, hp, hm, h⟩

/-- A position leaves the skeleton of the expansions as it is, whatever part of the grammar it is
the position of. -/
theorem sameSkeleton_setPosition {g g' : Grammar} {subject : Subject} {position : Position}
    (h : g.setPosition subject position = .ok g') : g.SameSkeleton g' := by
  cases subject with
  | grammar =>
      cases h
      exact .of_nodes rfl rfl rfl
  | lexicalState s =>
      cases h
      exact .of_nodes rfl rfl rfl
  | production id =>
      obtain ⟨-, h⟩ := bind_require h
      cases h
      exact .of_modifyProduction g id _ fun _ => rfl
  | expansion id =>
      obtain ⟨-, h⟩ := bind_require h
      cases h
      exact .of_modifyNode g id _ (fun _ => rfl) (fun _ => rfl) fun _ => rfl
  | regex id =>
      obtain ⟨-, h⟩ := bind_require h
      cases h
      exact .of_nodes rfl rfl rfl
  | entry tp index =>
      obtain ⟨-, h⟩ := bind_require h
      cases h
      exact .of_nodes rfl rfl rfl

/-- **What the builder does**: each of its steps leaves the skeleton of the expansions as it is,
or adds a node, a lookahead or a production. -/
theorem BuilderStep.grows {g g' : Grammar} (h : BuilderStep g g') : g.Grows g' := by
  cases h with
  | addLexicalState name => exact .skeleton (.of_nodes rfl rfl rfl)
  | addTokenProduction tp => exact .skeleton (.of_nodes rfl rfl rfl)
  | addEntry h =>
      obtain ⟨hn, hp, hm⟩ := addEntry_outside h
      exact .skeleton (.of_nodes hn hp hm)
  | setNextState h => exact .skeleton (sameSkeleton_modifyEntry h)
  | setAction h => exact .skeleton (sameSkeleton_modifyEntry h)
  | addExtraToken name => exact .skeleton (.of_nodes rfl rfl rfl)
  | addNode _ h => exact grows_addNode h
  | addLiteral _ h =>
      obtain ⟨g₁, pattern, hn, hp, hm, h⟩ := addLiteral_inv h
      exact .of_nodes hn hp hm (grows_addTerminal h)
  | addTokenReference h =>
      refine Grows.of_nodes ?_ ?_ ?_ (grows_addTerminal h)
      · rfl
      · rfl
      · rfl
  | setLookahead h => exact grows_setLookahead h
  | @setScanLimit g' e plus h =>
      obtain ⟨-, h⟩ := bind_require h
      cases h
      exact .skeleton (.of_modifyNode g e _ (fun _ => rfl) (fun _ => rfl) fun _ => rfl)
  | @setTolerant g' e tolerant h =>
      obtain ⟨-, h⟩ := bind_require h
      cases h
      exact .skeleton (.of_modifyNode g e _ (fun _ => rfl) (fun _ => rfl) fun _ => rfl)
  | addProduction _ _ h => exact grows_addProduction h
  | @setLexicalState g' p state h =>
      obtain ⟨-, h⟩ := bind_require h
      cases h
      exact .skeleton (.of_modifyProduction g p _ fun _ => rfl)
  | @setNodeLabel g' p label h =>
      obtain ⟨-, h⟩ := bind_require h
      cases h
      exact .skeleton (.of_modifyProduction g p _ fun _ => rfl)
  | setPosition h => exact .skeleton (sameSkeleton_setPosition h)

/-! ### What remains of the start -/

/-- The analysis keeps the skeleton. -/
theorem AnalysisStep.keeps {g g' : Grammar} (h : AnalysisStep g g') : g.Keeps g' := by
  cases h with
  | check => exact keeps_check g
  | analyze h => exact keeps_analyze h

/-- A step of the builder leaves the memory as it is. -/
theorem Grows.memory_eq {g g' : Grammar} (h : g.Grows g') : g'.memory = g.memory := by
  cases h with
  | skeleton h => exact h.memory
  | node shape h => exact h.memory
  | lookahead e lookahead h => exact h.memory
  | production production h => exact h.memory

/-- A grammar that was asked nothing remembers no set of tokens. -/
theorem Developed.memory_blank {g : Grammar} (h : g.Developed) : g.memory.Blank := by
  obtain ⟨options, h⟩ := h
  induction h with
  | refl => exact ⟨rfl, rfl, rfl⟩
  | tail _ hstep ih =>
      rcases hstep with hstep | hstep
      · rw [hstep.grows.memory_eq]
        exact ih
      · have hk := hstep.keeps
        exact ⟨hk.first.trans ih.first, hk.productionFirst.trans ih.productionFirst,
          hk.productionFinal.trans ih.productionFinal⟩

/-- What the builder makes without the analysis is made without it. -/
theorem Built.developed {g : Grammar} (h : g.Built) : g.Developed := by
  obtain ⟨options, h⟩ := h
  exact ⟨options, Relation.ReflTransGen.mono (fun _ _ => .inl) _ _ h⟩

/-! ### A recursive grammar -/

/-- The empty grammar is built. -/
theorem Built.new (options : Options) : (Grammar.new options).Built :=
  ⟨options, .refl⟩

/-- A step of the builder from a built grammar leads to a built one. -/
theorem Built.step {g g' : Grammar} (h : g.Built) (hstep : BuilderStep g g') : g'.Built := by
  obtain ⟨options, h⟩ := h
  exact ⟨options, h.tail hstep⟩

/-- A production that is a token, or a token followed by the production again. -/
def tokenList : Grammar :=
  { Grammar.new {} with
    nodes := #[{ shape := .terminal 0, parent := .expansion 2 },
      { shape := .nonTerminal "List", parent := .expansion 2 },
      { shape := .sequence [0, 1], parent := .expansion 4 },
      { shape := .terminal 0, parent := .expansion 4 },
      { shape := .choice [2, 3], parent := .production 0 }]
    productions := #[{ name := "List", root := 4 }] }

end Grammar

end GrammarAnalysis
