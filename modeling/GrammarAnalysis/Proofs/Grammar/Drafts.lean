import GrammarAnalysis.Proofs.Grammar.Growth
import GrammarAnalysis.Proofs.Lexicon.Drafts

/-!
# Drafts

A draft is a grammar that its builder has made and that was never checked, with token productions
that began without entries. Its lexical part is fresh.

## Main definitions

* `Grammar.DraftStep`, `Grammar.Drafted`: drafts, and the steps that lead to them;
* `Grammar.DraftsLexicon`: what the steps do to the lexical part.

## Main results

* `Grammar.Drafted.fresh`: the lexical part of a draft is fresh;
* `Grammar.retains_of_draftSteps`: a draft retains the declarations of an earlier one.
-/

namespace GrammarAnalysis

namespace Grammar

open Relation

/-- A step of the builder that adds token productions without entries only. -/
def DraftStep (g g' : Grammar) : Prop :=
  BuilderStep g g' ∧ ∀ tp, g' = (g.addTokenProduction tp).2 → tp.entries = []

/-- A grammar as a builder makes it that adds the entries of token productions one by one. -/
def Drafted (g : Grammar) : Prop :=
  ∃ options, ReflTransGen DraftStep (.new options) g

/-- The lexical part of a grammar grows, and its options stay. -/
def DraftsLexicon (g g' : Grammar) : Prop :=
  ReflTransGen Lexicon.DraftStep g.lexicon g'.lexicon ∧ g'.options = g.options

/-- Changing an entry but for its pattern keeps the patterns of the entries. -/
theorem map_pattern_modify {f : TokenEntry → TokenEntry} (hf : ∀ e, (f e).pattern = e.pattern)
    (i : Nat) (entries : List TokenEntry) :
    (entries.modify i f).map TokenEntry.pattern = entries.map TokenEntry.pattern := by
  refine List.ext_getElem? fun j => ?_
  rw [List.getElem?_map, List.getElem?_map, List.getElem?_modify]
  split
  · cases entries[j]? with
    | none => rfl
    | some e => exact congrArg some (hf e)
  · simp

/-- The entry of a pattern is changed, and keeps the pattern. -/
theorem draftsLexicon_modifyEntry {g g' : Grammar} {pattern : Nat} {f : TokenEntry → TokenEntry}
    (hf : ∀ e, (f e).pattern = e.pattern) (h : g.modifyEntry pattern f = .ok g') :
    g.DraftsLexicon g' := by
  rw [modifyEntry] at h
  split at h
  · cases h
  · split at h
    · obtain rfl := Except.ok.inj h
      exact ⟨.refl, rfl⟩
    · obtain rfl := Except.ok.inj h
      refine ⟨.single (.modifyEntries g.lexicon _ _ fun tp => ?_), rfl⟩
      split
      · exact ⟨_, rfl, map_pattern_modify hf _ _⟩
      · exact ⟨tp.entries, rfl, rfl⟩

/-- Giving a sequence a lookahead changes the nodes only. -/
theorem setLookahead_eq {g g' : Grammar} {e : Nat} {lookahead : Lookahead}
    (h : g.setLookahead e lookahead = .ok g') : ∃ nodes, g' = { g with nodes := nodes } := by
  obtain ⟨-, -, rfl⟩ := setLookahead_cases h
  obtain ⟨nodes, hnodes⟩ :=
    adopt_eq (lookahead.nested.toList ++ lookahead.upTo.toList) (.lookahead e) g
  exact ⟨_, by rw [hnodes]; rfl⟩

/-- Adding an entry changes the lexicon, and nothing else. -/
theorem draftsLexicon_addEntry {g g' : Grammar} {tp id : Nat} {label : String} {isPrivate : Bool}
    {tree : Option Regex} (h : g.addEntry tp label isPrivate tree = .ok (id, g')) :
    ∃ L, g.lexicon.addEntry tp label isPrivate tree = .ok (id, L) ∧
      g' = { g with lexicon := L } := by
  obtain ⟨⟨id', L⟩, hL, h⟩ := exists_of_bind_eq_ok h
  obtain ⟨rfl, rfl⟩ := Prod.mk.inj (Except.ok.inj h)
  exact ⟨L, hL, rfl⟩

/-- Adding a node changes the nodes only. -/
theorem addNode_eq {g g' : Grammar} {id : Nat} {shape : Shape}
    (h : g.addNode shape = .ok (id, g')) :
    id = g.size ∧ ∃ nodes, g' = { g with nodes := nodes } := by
  rw [addNode] at h
  split at h
  · obtain ⟨rfl, rfl⟩ := Prod.mk.inj (Except.ok.inj h)
    obtain ⟨nodes, hnodes⟩ := adopt_eq shape.children (.expansion g.size) g
    exact ⟨rfl, _, by rw [hnodes]⟩
  · cases h

/-- The declaration of a literal text that is used as a terminal. -/
def literalProduction (g : Grammar) : TokenProduction :=
  { kind := .token, lexicalStates := [defaultLexicalState], ignoreCase := g.options.ignoreCase,
    explicit := false }

/-- A terminal for a literal text has a pattern in a token production of its own. -/
theorem addLiteral_cases {g g' : Grammar} {image : String} {e : Nat}
    (h : g.addLiteral image = .ok (e, g')) :
    ∃ pattern L nodes,
      (g.lexicon.addTokenProduction g.literalProduction).2.addEntry g.lexicon.tokenProductions.size
        "" false (some (.text image)) = .ok (pattern, L) ∧
      addTerminal { g with lexicon := L } pattern = .ok (e, g') ∧
      g' = { g with lexicon := L, nodes := nodes } := by
  obtain ⟨⟨pattern, g₁⟩, hentry, h⟩ := exists_of_bind_eq_ok h
  obtain ⟨L, hL, rfl⟩ := draftsLexicon_addEntry hentry
  obtain ⟨-, nodes, hnodes⟩ := addNode_eq h
  exact ⟨pattern, L, nodes, hL, h, hnodes⟩

/-- A position changes the lexical part only where it is that of a pattern or of an entry. -/
theorem draftsLexicon_setPosition {g g' : Grammar} {subject : Subject} {position : Position}
    (h : g.setPosition subject position = .ok g') : g.DraftsLexicon g' := by
  cases subject with
  | grammar | lexicalState _ =>
      obtain rfl := Except.ok.inj h
      exact ⟨.refl, rfl⟩
  | production id | expansion id =>
      obtain ⟨-, h⟩ := bind_require h
      obtain rfl := Except.ok.inj h
      exact ⟨.refl, rfl⟩
  | regex id =>
      obtain ⟨-, h⟩ := bind_require h
      obtain rfl := Except.ok.inj h
      exact ⟨.single (.position g.lexicon id position), rfl⟩
  | entry tp index =>
      obtain ⟨-, h⟩ := bind_require h
      obtain rfl := Except.ok.inj h
      exact ⟨.single (.modifyEntries g.lexicon tp _ fun tp =>
        ⟨_, rfl, map_pattern_modify (fun _ => by rfl) index tp.entries⟩), rfl⟩

/-- What a step of the builder does to the lexical part. -/
theorem DraftStep.lexicon {g g' : Grammar} (h : DraftStep g g')
    (hcase : g.lexicon.ignoreCase = g.options.ignoreCase) : g.DraftsLexicon g' := by
  obtain ⟨h, hentries⟩ := h
  cases h with
  | addLexicalState name => exact ⟨.single (.state g.lexicon name), rfl⟩
  | addTokenProduction tp =>
      refine ⟨.single (.production g.lexicon _ (hentries tp rfl) fun hfold => ?_), rfl⟩
      rw [← hcase, hfold, Bool.or_true]
  | addEntry h =>
      obtain ⟨L, hL, rfl⟩ := draftsLexicon_addEntry h
      exact ⟨.single (.entry hL), rfl⟩
  | setNextState h => exact draftsLexicon_modifyEntry (fun _ => by rfl) h
  | setAction h => exact draftsLexicon_modifyEntry (fun _ => by rfl) h
  | addExtraToken name => exact ⟨.single (.extraToken g.lexicon name), rfl⟩
  | addNode shape h =>
      obtain ⟨-, nodes, rfl⟩ := addNode_eq h
      exact ⟨.refl, rfl⟩
  | addLiteral image h =>
      obtain ⟨pattern, L, nodes, hL, -, rfl⟩ := addLiteral_cases h
      refine ⟨.tail (.single (.production g.lexicon g.literalProduction rfl fun hfold => ?_))
        (.entry hL), rfl⟩
      rw [literalProduction, ← hcase, hfold]
  | @addTokenReference _ id name h =>
      rw [addTokenReference] at h
      obtain ⟨-, nodes, rfl⟩ := addNode_eq h
      exact ⟨.single (.reference g.lexicon name), rfl⟩
  | setLookahead h =>
      obtain ⟨nodes, rfl⟩ := setLookahead_eq h
      exact ⟨.refl, rfl⟩
  | setScanLimit h =>
      obtain ⟨-, h⟩ := bind_require h
      obtain rfl := Except.ok.inj h
      exact ⟨.refl, rfl⟩
  | setTolerant h =>
      obtain ⟨-, h⟩ := bind_require h
      obtain rfl := Except.ok.inj h
      exact ⟨.refl, rfl⟩
  | addProduction name root h =>
      obtain ⟨-, h⟩ := bind_require h
      obtain ⟨-, rfl⟩ := Prod.mk.inj (Except.ok.inj h)
      exact ⟨.refl, rfl⟩
  | setLexicalState h =>
      obtain ⟨-, h⟩ := bind_require h
      obtain rfl := Except.ok.inj h
      exact ⟨.refl, rfl⟩
  | setNodeLabel h =>
      obtain ⟨-, h⟩ := bind_require h
      obtain rfl := Except.ok.inj h
      exact ⟨.refl, rfl⟩
  | setPosition h => exact draftsLexicon_setPosition h

/-- What the builder does to the lexical part in any number of steps. -/
theorem draftsLexicon_of_draftSteps {g g' : Grammar} (h : ReflTransGen DraftStep g g')
    (hcase : g.lexicon.ignoreCase = g.options.ignoreCase) :
    g.DraftsLexicon g' ∧ g'.lexicon.ignoreCase = g'.options.ignoreCase := by
  induction h with
  | refl => exact ⟨⟨.refl, rfl⟩, hcase⟩
  | tail _ hstep ih =>
      obtain ⟨⟨hsteps, hoptions⟩, hcase'⟩ := ih
      obtain ⟨hnext, hoptions'⟩ := hstep.lexicon hcase'
      refine ⟨⟨hsteps.trans hnext, hoptions'.trans hoptions⟩, ?_⟩
      rw [hoptions', ← hcase']
      exact (Lexicon.flags_eq_of_draftSteps hnext).1

/-- The case flag of the lexical part of a draft is that of its options. -/
theorem Drafted.ignoreCase_eq {g : Grammar} (h : g.Drafted) :
    g.lexicon.ignoreCase = g.options.ignoreCase := by
  obtain ⟨options, h⟩ := h
  exact (draftsLexicon_of_draftSteps h rfl).2

/-- No name refers to a pattern of a draft. -/
theorem Drafted.namedTokens_eq {g : Grammar} (h : g.Drafted) : g.lexicon.namedTokens = [] := by
  obtain ⟨options, h⟩ := h
  exact (Lexicon.flags_eq_of_draftSteps (draftsLexicon_of_draftSteps h rfl).1.1).2

/-- **Nothing has been registered in the lexical part of a draft.** -/
theorem Drafted.fresh {g : Grammar} (h : g.Drafted) : g.lexicon.Fresh := by
  obtain ⟨options, h⟩ := h
  have hsteps := (draftsLexicon_of_draftSteps h rfl).1.1
  generalize g.lexicon = L at hsteps
  induction hsteps with
  | refl => exact Lexicon.fresh_new options.ignoreCase
  | tail _ hstep ih => exact hstep.fresh ih

/-- **A draft retains the declarations** of a draft that it was made from. -/
theorem retains_of_draftSteps {g g' : Grammar} (hg : g.Drafted)
    (h : ReflTransGen DraftStep g g') : g.lexicon.Retains g'.lexicon := by
  have hsteps := (draftsLexicon_of_draftSteps h hg.ignoreCase_eq).1.1
  generalize g'.lexicon = L at hsteps
  induction hsteps with
  | refl => exact .refl _
  | tail _ hstep ih => exact ih.trans hstep.retains

/-- Further steps lead from a draft to a draft. -/
theorem Drafted.tail {g g' : Grammar} (hg : g.Drafted) (h : ReflTransGen DraftStep g g') :
    g'.Drafted := by
  obtain ⟨options, hg⟩ := hg
  exact ⟨options, hg.trans h⟩

/-- A draft is made by a builder. -/
theorem Drafted.built {g : Grammar} (h : g.Drafted) : g.Built := by
  obtain ⟨options, h⟩ := h
  exact ⟨options, ReflTransGen.mono (fun _ _ hstep => hstep.1) _ _ h⟩

/-! ### Steps of a draft -/

/-- The empty grammar is a draft. -/
theorem Drafted.new (options : Options) : (Grammar.new options).Drafted :=
  ⟨options, .refl⟩

/-- A token production is added without entries. -/
theorem Drafted.addTokenProduction {g : Grammar} (h : g.Drafted) (tp : TokenProduction)
    (htp : tp.entries = []) : (g.addTokenProduction tp).2.Drafted := by
  refine h.tail (.single ⟨.addTokenProduction g tp, fun tp' heq => ?_⟩)
  have hpush := congrArg (fun g : Grammar => g.lexicon.tokenProductions) heq
  have hentries := congrArg TokenProduction.entries (Array.push_eq_push.mp hpush).1
  exact hentries.symm.trans htp

/-- A step that adds a pattern, or no token production, is one of a draft. -/
theorem draftStep_of_size {g g' : Grammar} (hstep : BuilderStep g g')
    (hsize : g'.lexicon.tokenProductions.size = g.lexicon.tokenProductions.size ∨
      g'.lexicon.patterns.size ≠ g.lexicon.patterns.size) : DraftStep g g' := by
  refine ⟨hstep, fun tp heq => ?_⟩
  rw [heq] at hsize
  rcases hsize with hsize | hsize
  · exact absurd (Array.size_push ..|>.symm.trans hsize) (Nat.succ_ne_self _)
  · exact absurd rfl hsize

/-- A step of the builder leads from a draft to a draft, unless it adds a token production without
a pattern. -/
theorem Drafted.step {g g' : Grammar} (h : g.Drafted) (hstep : BuilderStep g g')
    (hsize : g'.lexicon.tokenProductions.size = g.lexicon.tokenProductions.size ∨
      g'.lexicon.patterns.size ≠ g.lexicon.patterns.size) : g'.Drafted :=
  h.tail (.single (draftStep_of_size hstep hsize))

/-- A pattern is added to a token production. -/
theorem Drafted.addEntry {g g' : Grammar} {id : Nat} (h : g.Drafted) (tp : Nat) (label : String)
    (isPrivate : Bool) (tree : Option Regex)
    (hentry : g.addEntry tp label isPrivate tree = .ok (id, g')) : g'.Drafted := by
  refine h.step (.addEntry hentry) (.inl ?_)
  obtain ⟨L, hL, rfl⟩ := draftsLexicon_addEntry hentry
  obtain ⟨-, -, p, -, -, -, -, rfl⟩ := Lexicon.addEntry_cases hL
  exact Array.size_modify

end Grammar

end GrammarAnalysis
