import GrammarAnalysis.Proofs.Grammar.Growth

/-!
# What the Memory Matters

The builder and the analysis of a grammar do not look at the sets and names that are kept in its
memory, and do not change them. All that the analysis takes from the memory, and adds to it, are
the marks of left recursion. So both go the same way with another memory: the builder with any
(`Grammar.withMemory`), and the analysis with any that has the same marks (`Grammar.recalling`).

## Main definitions

* `Grammar.withMemory`: the grammar with another memory;
* `Grammar.recalling`: the grammar with what another memory holds, but for the marks.

## Main results

* `Grammar.BuilderStep.withMemory`: the builder does not look at the memory;
* `Grammar.analyze_recalling`: the analysis is the same, whatever is remembered;
* `Grammar.firstWithin_withMemory`, `Grammar.finalWithin_withMemory`: the walks for first and final
  sets go by the memory that they are given, and not by that of the grammar.
-/

namespace GrammarAnalysis

namespace Grammar

/-- The grammar with another memory. -/
def withMemory (g : Grammar) (m : Memory) : Grammar := { g with memory := m }

/-- The grammar with what another memory holds. Only the marks of left recursion stay its own. -/
def recalling (g : Grammar) (m : Memory) : Grammar :=
  g.withMemory { m with leftRecursive := g.memory.leftRecursive }

variable (g : Grammar) (m : Memory)

/-! ### The builder -/

/-- Nodes are adopted alike with any memory. -/
theorem adopt_withMemory (cs : List Nat) (parent : Parent) :
    cs.foldl (fun g c => g.setParent c parent) (g.withMemory m) =
      (cs.foldl (fun g c => g.setParent c parent) g).withMemory m :=
  List.foldl_hom (withMemory · m) fun _ _ => rfl

/-- An entry is added alike with any memory. -/
theorem addEntry_withMemory (tp : Nat) (label : String) (isPrivate : Bool) (tree : Option Regex) :
    (g.withMemory m).addEntry tp label isPrivate tree =
      (g.addEntry tp label isPrivate tree).map (Prod.map id (withMemory · m)) := by
  unfold addEntry
  rw [show (g.withMemory m).lexicon = g.lexicon from rfl]
  cases g.lexicon.addEntry tp label isPrivate tree <;> rfl

/-- An entry is changed alike with any memory. -/
theorem modifyEntry_withMemory (pattern : Nat) (f : TokenEntry → TokenEntry) :
    (g.withMemory m).modifyEntry pattern f = (g.modifyEntry pattern f).map (withMemory · m) := by
  unfold modifyEntry
  rw [show (g.withMemory m).lexicon = g.lexicon from rfl]
  split
  · rfl
  · split <;> rfl

/-- A node is added alike with any memory. -/
theorem addNode_withMemory (shape : Shape) :
    (g.withMemory m).addNode shape = (g.addNode shape).map (Prod.map id (withMemory · m)) := by
  unfold addNode
  rw [show (g.withMemory m).size = g.size from rfl]
  simp only [adopt_withMemory]
  split <;> rfl

/-- A literal is added alike with any memory. -/
theorem addLiteral_withMemory (image : String) :
    (g.withMemory m).addLiteral image =
      (g.addLiteral image).map (Prod.map id (withMemory · m)) := by
  have hproduction : ∀ tp, (g.withMemory m).addTokenProduction tp =
      Prod.map id (withMemory · m) (g.addTokenProduction tp) := fun _ => rfl
  unfold addLiteral
  simp only [hproduction, Prod.map_fst, Prod.map_snd, addEntry_withMemory, id]
  cases (g.addTokenProduction { kind := .token, explicit := false }).2.addEntry
      (g.addTokenProduction { kind := .token, explicit := false }).1 "" false
      (some (.text image)) with
  | error fault => rfl
  | ok entry => exact addNode_withMemory entry.2 m (.terminal entry.1)

/-- A reference to a token is added alike with any memory. -/
theorem addTokenReference_withMemory (name : String) :
    (g.withMemory m).addTokenReference name =
      (g.addTokenReference name).map (Prod.map id (withMemory · m)) := by
  unfold addTokenReference
  exact addNode_withMemory { g with lexicon := _ } m _

/-- A lookahead is set alike with any memory. -/
theorem setLookahead_withMemory (e : Nat) (lookahead : Lookahead) :
    (g.withMemory m).setLookahead e lookahead =
      (g.setLookahead e lookahead).map (withMemory · m) := by
  unfold setLookahead
  rw [show (g.withMemory m).requireNode = g.requireNode from rfl,
    show (g.withMemory m).isSequence e = g.isSequence e from rfl]
  simp only [adopt_withMemory]
  cases g.requireNode e with
  | error fault => rfl
  | ok _ =>
      simp only [bind, Except.bind]
      split
      · rfl
      · cases (lookahead.nested.toList ++ lookahead.upTo.toList).forM g.requireNode <;> rfl

/-- What is required is there. -/
theorem bind_of_require {α : Type} {c : Prop} [Decidable c] {x : Except Fault α} (hc : c) :
    ((if c then .ok () else .error .index : Except Fault Unit) >>= fun _ => x) = x := by
  rw [if_pos hc]
  rfl

/-- A step that goes alike with any memory succeeds with any memory, once it succeeds with one. -/
theorem ok_withMemory {x y : Except Fault Grammar} (hx : x = y.map (withMemory · m))
    (hy : y = .ok g) : x = .ok (g.withMemory m) := by
  rw [hx, hy]
  rfl

/-- The same for a step that also returns the number of what it adds. -/
theorem ok_pair_withMemory {x y : Except Fault (Nat × Grammar)} {n : Nat}
    (hx : x = y.map (Prod.map id (withMemory · m))) (hy : y = .ok (n, g)) :
    x = .ok (n, g.withMemory m) := by
  rw [hx, hy]
  rfl

/-- **The builder does not look at the memory**: the same step can be made with another one. -/
theorem BuilderStep.withMemory {g g' : Grammar} (h : BuilderStep g g') (m : Memory) :
    BuilderStep (g.withMemory m) (g'.withMemory m) := by
  cases h with
  | addLexicalState name => exact .addLexicalState (g.withMemory m) name
  | addTokenProduction tp => exact .addTokenProduction (g.withMemory m) tp
  | addEntry h => exact .addEntry (ok_pair_withMemory g' m (addEntry_withMemory g m _ _ _ _) h)
  | setNextState h => exact .setNextState (ok_withMemory g' m (modifyEntry_withMemory g m _ _) h)
  | setAction h => exact .setAction (ok_withMemory g' m (modifyEntry_withMemory g m _ _) h)
  | addExtraToken name => exact .addExtraToken (g.withMemory m) name
  | addNode shape h =>
      exact .addNode shape (ok_pair_withMemory g' m (addNode_withMemory g m shape) h)
  | addLiteral image h =>
      exact .addLiteral image (ok_pair_withMemory g' m (addLiteral_withMemory g m image) h)
  | addTokenReference h =>
      exact .addTokenReference (ok_pair_withMemory g' m (addTokenReference_withMemory g m _) h)
  | setLookahead h => exact .setLookahead (ok_withMemory g' m (setLookahead_withMemory g m _ _) h)
  | @setScanLimit _ e plus h =>
      obtain ⟨hc, h⟩ := bind_require h
      cases h
      exact @BuilderStep.setScanLimit _ _ e plus (bind_of_require hc)
  | @setTolerant _ e tolerant h =>
      obtain ⟨hc, h⟩ := bind_require h
      cases h
      exact @BuilderStep.setTolerant _ _ e tolerant (bind_of_require hc)
  | addProduction name root h =>
      obtain ⟨hc, h⟩ := bind_require h
      cases h
      exact .addProduction name root (bind_of_require hc)
  | @setLexicalState _ p state h =>
      obtain ⟨hc, h⟩ := bind_require h
      cases h
      exact @BuilderStep.setLexicalState _ _ p state (bind_of_require hc)
  | @setNodeLabel _ p label h =>
      obtain ⟨hc, h⟩ := bind_require h
      cases h
      exact @BuilderStep.setNodeLabel _ _ p label (bind_of_require hc)
  | @setPosition _ subject position h =>
      refine @BuilderStep.setPosition _ _ subject position ?_
      cases subject with
      | grammar | lexicalState _ =>
          cases h
          rfl
      | production _ | expansion _ | regex _ | entry _ _ =>
          obtain ⟨hc, h⟩ := bind_require h
          cases h
          exact bind_of_require hc

/-! ### What can be found out about the expansions -/

/-- The walk for emptiness does not look at the memory. -/
theorem emptyWithin_withMemory : (g.withMemory m).emptyWithin = g.emptyWithin := by
  funext budget
  induction budget with
  | zero => rfl
  | succ budget ih =>
      funext inside e
      simp only [emptyWithin, ih]
      rfl

/-- Emptiness, and whether it was cut, do not depend on the memory. -/
@[simp] theorem emptyGuarded_withMemory : (g.withMemory m).emptyGuarded = g.emptyGuarded := by
  funext e
  rw [emptyGuarded, emptyWithin_withMemory]
  rfl

/-- Whether a node is possibly empty does not depend on the memory. -/
@[simp] theorem possiblyEmpty_withMemory : (g.withMemory m).possiblyEmpty = g.possiblyEmpty := by
  funext e
  rw [possiblyEmpty, emptyGuarded_withMemory]
  rfl

/-- The walk for maximum sizes does not look at the memory. -/
theorem maximumWithin_withMemory : (g.withMemory m).maximumWithin = g.maximumWithin := by
  funext budget
  induction budget with
  | zero => rfl
  | succ budget ih =>
      funext inside e
      simp only [maximumWithin, ih]
      rfl

/-- The maximum size, and whether it was cut, do not depend on the memory. -/
@[simp] theorem maximumGuarded_withMemory : (g.withMemory m).maximumGuarded = g.maximumGuarded := by
  funext e
  rw [maximumGuarded, maximumWithin_withMemory]
  rfl

/-- The maximum size of a node does not depend on the memory. -/
@[simp] theorem maximumSize_withMemory : (g.withMemory m).maximumSize = g.maximumSize := by
  funext e
  rw [maximumSize, maximumGuarded_withMemory]
  rfl

/-- The walk up to a choice point does not look at the memory. -/
theorem choicePointWithin_withMemory :
    (g.withMemory m).choicePointWithin = g.choicePointWithin := by
  funext budget
  induction budget with
  | zero => rfl
  | succ budget ih =>
      funext e
      simp only [choicePointWithin, ih, maximumSize_withMemory]
      rfl

/-- Whether a node is at a choice point does not depend on the memory. -/
@[simp] theorem isAtChoicePoint_withMemory :
    (g.withMemory m).isAtChoicePoint = g.isAtChoicePoint := by
  funext e
  rw [isAtChoicePoint, choicePointWithin_withMemory]
  rfl

/-- The search for an owner among leading units does not look at the memory. -/
theorem leadingOwner_withMemory : (g.withMemory m).leadingOwner = g.leadingOwner := by
  funext owner units
  induction units with
  | nil => rfl
  | cons unit rest ih =>
      simp only [leadingOwner, ih, maximumGuarded_withMemory]
      rfl

/-- The walk for the owner of a lookahead does not look at the memory. -/
theorem ownerWithin_withMemory : (g.withMemory m).ownerWithin = g.ownerWithin := by
  funext budget
  induction budget with
  | zero => rfl
  | succ budget ih =>
      funext inside e
      simp only [ownerWithin, ih, leadingOwner_withMemory]
      rfl

/-- The owner of a lookahead, and whether it was cut, do not depend on the memory. -/
@[simp] theorem ownerGuarded_withMemory : (g.withMemory m).ownerGuarded = g.ownerGuarded := by
  funext e
  rw [ownerGuarded, ownerWithin_withMemory]
  rfl

/-- The lookahead of a node does not depend on the memory. -/
@[simp] theorem lookaheadOf_withMemory : (g.withMemory m).lookaheadOf = g.lookaheadOf := by
  funext e
  rw [lookaheadOf, lookaheadOwner, ownerGuarded_withMemory]
  rfl

/-- Whether a node has an explicit lookahead does not depend on the memory. -/
@[simp] theorem hasExplicitLookahead_withMemory :
    (g.withMemory m).hasExplicitLookahead = g.hasExplicitLookahead := by
  funext e
  rw [hasExplicitLookahead, lookaheadOf_withMemory]
  rfl

/-- Whether the node itself can keep from matching does not depend on the memory. -/
@[simp] theorem succeedsItself_withMemory :
    (g.withMemory m).succeedsItself = g.succeedsItself := by
  funext e
  simp only [succeedsItself, hasSemanticLookahead, hasLookBehind, lookaheadOf_withMemory,
    possiblyEmpty_withMemory]
  rfl

/-- The walk for expansions that always succeed does not look at the memory. -/
theorem successWithin_withMemory : (g.withMemory m).successWithin = g.successWithin := by
  funext budget
  induction budget with
  | zero => rfl
  | succ budget ih =>
      funext inside e
      simp only [successWithin, ih, succeedsItself_withMemory]
      rfl

/-- Whether a node always succeeds does not depend on the memory. -/
@[simp] theorem isAlwaysSuccessful_withMemory :
    (g.withMemory m).isAlwaysSuccessful = g.isAlwaysSuccessful := by
  funext e
  rw [isAlwaysSuccessful, successWithin_withMemory]
  rfl

/-- The operands of a node do not depend on the memory. -/
theorem unitsWithin_withMemory : (g.withMemory m).unitsWithin = g.unitsWithin := by
  funext budget
  induction budget with
  | zero => rfl
  | succ budget ih =>
      funext e
      simp only [unitsWithin, ih]
      rfl

/-- The search for a limit among units does not look at the memory. -/
theorem limitAmong_withMemory : (g.withMemory m).limitAmong = g.limitAmong := by
  funext limited leading units
  induction units generalizing leading with
  | nil => rfl
  | cons unit rest ih =>
      simp only [limitAmong, ih, possiblyEmpty_withMemory]
      rfl

/-- The walk for limits of lookaheads does not look at the memory. -/
theorem scanLimitWithin_withMemory : (g.withMemory m).scanLimitWithin = g.scanLimitWithin := by
  funext budget
  induction budget with
  | zero => rfl
  | succ budget ih =>
      funext inside e
      simp only [scanLimitWithin, ih, limitAmong_withMemory, allUnits, unitsWithin_withMemory]
      rfl

/-- A test of leading units does not look at the memory. -/
theorem anyLeading_withMemory : (g.withMemory m).anyLeading = g.anyLeading := by
  funext p units
  induction units with
  | nil => rfl
  | cons unit rest ih => simp only [anyLeading, ih, possiblyEmpty_withMemory]

/-- The walk for changes of the lexical state does not look at the memory. -/
theorem switchWithin_withMemory : (g.withMemory m).switchWithin = g.switchWithin := by
  funext budget
  induction budget with
  | zero => rfl
  | succ budget ih =>
      funext inside e
      simp only [switchWithin, ih, anyLeading_withMemory]
      rfl

/-- The descendants of a node do not depend on the memory. -/
theorem descendantsWithin_withMemory :
    (g.withMemory m).descendantsWithin = g.descendantsWithin := by
  funext budget
  induction budget with
  | zero => rfl
  | succ budget ih =>
      funext e
      simp only [descendantsWithin, ih]
      rfl

/-- The test for a simple token does not look at the memory. -/
theorem isSimpleToken_withMemory : (g.withMemory m).isSimpleToken = g.isSimpleToken := by
  funext e
  simp only [isSimpleToken, hasScanLimit, switchesLexicalState, descendants, hasLookBehind,
    hasNestedSemanticLookahead, hasLookaheadCode, possiblyEmpty_withMemory, maximumSize_withMemory,
    lookaheadOf_withMemory, scanLimitWithin_withMemory, switchWithin_withMemory,
    descendantsWithin_withMemory]
  rfl

/-- The walk for single tokens does not look at the memory. -/
theorem singleTokenWithin_withMemory :
    (g.withMemory m).singleTokenWithin = g.singleTokenWithin := by
  funext budget
  induction budget with
  | zero => rfl
  | succ budget ih =>
      funext inside e
      simp only [singleTokenWithin, ih, isSimpleToken_withMemory]
      rfl

/-- Whether a node is a single token does not depend on the memory. -/
@[simp] theorem isSingleToken_withMemory : (g.withMemory m).isSingleToken = g.isSingleToken := by
  funext e
  rw [isSingleToken, singleTokenWithin_withMemory]
  rfl

/-! ### Left recursion -/

/-- The search for a production at the start of a sequence does not look at the memory. -/
theorem leadingStart_withMemory : (g.withMemory m).leadingStart = g.leadingStart := by
  funext starts units
  induction units with
  | nil => rfl
  | cons unit rest ih =>
      funext t
      simp only [leadingStart, ih, possiblyEmpty_withMemory]

/-- The walk for left recursion does not look at the memory. -/
theorem startsWithin_withMemory : (g.withMemory m).startsWithin = g.startsWithin := by
  funext target budget
  induction budget with
  | zero => rfl
  | succ budget ih =>
      funext e t
      simp only [startsWithin, ih, leadingStart_withMemory]
      rfl

/-- The marks are all that left recursion takes from the memory, and all that it adds. -/
theorem isLeftRecursive_recalling (p : Nat) : (g.recalling m).isLeftRecursive p =
    ((g.isLeftRecursive p).1, (g.isLeftRecursive p).2.recalling m) := by
  rw [isLeftRecursive, startsWith, recalling, startsWithin_withMemory]
  rfl

/-- The productions are marked alike, whatever is remembered. -/
theorem markLeftRecursion_recalling :
    (g.recalling m).markLeftRecursion = g.markLeftRecursion.recalling m := by
  rw [markLeftRecursion, markLeftRecursion]
  exact List.foldl_hom (recalling · m) fun g p => by rw [isLeftRecursive_recalling]

/-! ### The checks -/

/-- Findings are recorded alike, whatever is remembered. -/
theorem record_recalling (findings : List Finding) :
    (g.recalling m).record findings = (g.record findings).recalling m := rfl

/-- The findings about misplaced lookaheads do not depend on the memory. -/
theorem misplacedLookaheads_withMemory :
    (g.withMemory m).misplacedLookaheads = g.misplacedLookaheads := by
  rw [misplacedLookaheads, hasExplicitLookahead_withMemory, isAtChoicePoint_withMemory]
  rfl

/-- The undefined lexical states and the left recursions are found alike, whatever is remembered. -/
theorem lexicalStateFindings_recalling :
    (g.recalling m).lexicalStateFindings = g.lexicalStateFindings := by
  have hproduction : (g.recalling m).productionFindings = g.productionFindings := by
    funext p
    rw [productionFindings, isLeftRecursive_recalling]
    rfl
  rw [lexicalStateFindings, hproduction]
  rfl

/-- The alternatives that are never tried do not depend on the memory. -/
theorem hiddenAlternatives_withMemory :
    (g.withMemory m).hiddenAlternatives = g.hiddenAlternatives := by
  rw [hiddenAlternatives, isAlwaysSuccessful_withMemory]
  rfl

/-- The findings about loops and options with an empty body do not depend on the memory. -/
theorem emptyLoops_withMemory : (g.withMemory m).emptyLoops = g.emptyLoops := by
  have hfails : (g.withMemory m).alwaysFails = g.alwaysFails := by
    funext e
    rw [alwaysFails, possiblyEmpty_withMemory]
    rfl
  have hloop : (g.withMemory m).loopError? = g.loopError? := by
    funext e body
    rw [loopError?, hfails, isAlwaysSuccessful_withMemory]
    rfl
  have hoption : (g.withMemory m).optionWarning? = g.optionWarning? := by
    funext e body
    rw [optionWarning?, hfails, isAlwaysSuccessful_withMemory]
    rfl
  rw [emptyLoops, hloop, hoption]
  rfl

/-- The findings about predicates and limits of lookaheads do not depend on the memory. -/
theorem lookBehindErrors_withMemory : (g.withMemory m).lookBehindErrors = g.lookBehindErrors := by
  rw [lookBehindErrors, isSingleToken_withMemory]
  rfl

/-- The productions are checked alike, whatever is remembered. -/
theorem checkProductions_recalling :
    (g.recalling m).checkProductions = g.checkProductions.recalling m := by
  rw [checkProductions, lexicalStateFindings_recalling, recalling, misplacedLookaheads_withMemory,
    hiddenAlternatives_withMemory, emptyLoops_withMemory, lookBehindErrors_withMemory,
    ← recalling, show (g.recalling m).patternErrors = g.patternErrors from rfl, record_recalling,
    markLeftRecursion_recalling]
  rfl

/-! ### The tokens -/

/-- What is remembered is not in the lexicon. -/
theorem lexicon_recalling : (g.recalling m).lexicon = g.lexicon := rfl

/-- What is remembered is not in the log. -/
theorem log_recalling : (g.recalling m).log = g.log := rfl

/-- A name is registered alike, whatever is remembered. -/
theorem registerName_recalling (id : Nat) :
    (g.recalling m).registerName id = (g.registerName id).recalling m := by
  unfold registerName
  rw [lexicon_recalling]
  simp only
  split
  · rfl
  · split <;> rfl

/-- All names are registered alike, whatever is remembered. -/
theorem registerNames_recalling :
    (g.recalling m).registerNames = g.registerNames.recalling m :=
  List.foldl_hom (recalling · m) fun g id => registerName_recalling g m id

/-- A registration of the grammar with what another memory holds. -/
def Registration.recalling (r : Registration) (m : Memory) : Registration :=
  { r with grammar := r.grammar.recalling m }

/-- A literal is registered in a lexical state alike, whatever is remembered. -/
theorem literalIn_recalling (explicit : Bool) (id : Nat) (image : String) (r : Registration)
    (state : String) : (r.recalling m).literalIn explicit id image state =
      (r.literalIn explicit id image state).recalling m := by
  simp only [Registration.literalIn, Registration.recalling, lexicon_recalling]
  split
  · rfl
  · split
    · rfl
    · split
      · rfl
      · split <;> rfl

/-- A token gets its name alike, whatever is remembered. -/
theorem nameToken_recalling (id : Nat) (r : Registration) :
    (r.recalling m).nameToken id = (r.nameToken id).recalling m := by
  simp only [Registration.nameToken, Registration.recalling, lexicon_recalling]
  split <;> rfl

/-- A pattern of a token production is registered alike, whatever is remembered. -/
theorem pattern_recalling (tp : TokenProduction) (r : Registration) (id : Nat) :
    (r.recalling m).pattern tp id = (r.pattern tp id).recalling m := by
  have hliterals : ∀ image, tp.lexicalStates.foldl
      (Registration.literalIn tp.explicit id image) (r.recalling m) =
        (tp.lexicalStates.foldl (Registration.literalIn tp.explicit id image) r).recalling m :=
    fun image => List.foldl_hom (Registration.recalling · m) fun r state =>
      literalIn_recalling m tp.explicit id image r state
  unfold Registration.pattern
  rw [show (r.recalling m).grammar.lexicon = r.grammar.lexicon from rfl]
  simp only [hliterals]
  split
  · rfl
  · split
    · rfl
    · split
      · rw [← nameToken_recalling]
        rfl
      · rw [← nameToken_recalling]

/-- A token production is registered alike, whatever is remembered. -/
theorem registerProduction_recalling (id : Nat) :
    (g.recalling m).registerProduction id = (g.registerProduction id).recalling m := by
  have hpatterns : ∀ (tp : TokenProduction) (ids : List Nat),
      ids.foldl (Registration.pattern tp) (Registration.recalling { grammar := g } m) =
        (ids.foldl (Registration.pattern tp) { grammar := g }).recalling m := fun tp ids =>
    List.foldl_hom (Registration.recalling · m) fun r id => pattern_recalling m tp r id
  unfold registerProduction
  rw [lexicon_recalling]
  simp only [show Registration.mk (g.recalling m) [] [] =
    Registration.recalling { grammar := g } m from rfl, hpatterns]
  rfl

/-- All tokens are registered alike, whatever is remembered. -/
theorem registerTokens_recalling :
    (g.recalling m).registerTokens = g.registerTokens.recalling m :=
  List.foldl_hom (recalling · m) fun g id => registerProduction_recalling g m id

/-- References are checked alike, whatever is remembered. -/
theorem checkReferences_recalling :
    (g.recalling m).checkReferences = g.checkReferences.recalling m := rfl

/-! ### The analysis -/

/-- The check is the same, whatever is remembered. -/
theorem check_recalling : (g.recalling m).check = g.check.recalling m := by
  unfold check
  rw [show (g.recalling m).undefinedNonTerminals = g.undefinedNonTerminals from rfl,
    checkProductions_recalling, registerNames_recalling, registerTokens_recalling]
  simp only
  rw [log_recalling, checkReferences_recalling]
  split
  · rfl
  · split <;> rfl

/-- **The analysis is the same, whatever is remembered**: it has the same outcome and the same
result, but for what is remembered. -/
theorem analyze_recalling :
    (g.recalling m).analyze = g.analyze.map fun result => (result.1, result.2.recalling m) := by
  unfold analyze
  rw [check_recalling]
  simp only
  rw [lexicon_recalling, log_recalling]
  split
  · rfl
  · cases g.check.lexicon.build g.check.log with
    | error fault => rfl
    | ok result =>
        simp only [bind, Except.bind, pure, Except.pure]
        split <;> rfl

/-! ### The walks -/

/-- The union over leading units does not look at the memory of the grammar. -/
theorem unionOfLeading_withMemory : (g.withMemory m).unionOfLeading = g.unionOfLeading := by
  funext visit units
  induction units with
  | nil => rfl
  | cons unit rest ih =>
      funext m'
      simp only [unionOfLeading, ih, emptyGuarded_withMemory]

/-- The walk for first sets goes by the memory that it is given, not by that of the grammar. -/
theorem firstWithin_withMemory : (g.withMemory m).firstWithin = g.firstWithin := by
  funext budget
  induction budget with
  | zero => rfl
  | succ budget ih =>
      funext inside e m'
      simp only [firstWithin, ih, unionOfLeading_withMemory, ownerGuarded_withMemory]
      rfl

/-- The walk for final sets goes by the memory that it is given, not by that of the grammar. -/
theorem finalWithin_withMemory : (g.withMemory m).finalWithin = g.finalWithin := by
  funext budget
  induction budget with
  | zero => rfl
  | succ budget ih =>
      funext inside e m'
      simp only [finalWithin, ih, unionOfLeading_withMemory]
      rfl

end Grammar

end GrammarAnalysis
