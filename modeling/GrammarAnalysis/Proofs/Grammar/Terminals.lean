import GrammarAnalysis.Proofs.Grammar.Literals
import GrammarAnalysis.Proofs.Grammar.Merging

/-!
# The Tokens of the Terminals

A terminal stands for a token: the one of its literal text, or the one that it refers to by name.
The first has a token after every analysis without an error. The second has the token of the pattern
with that name, or else the extra token. But a pattern with a name can be without a token: a private
one always is, and a literal of an explicit token production if each of its lexical states has
another literal for the text. Nothing is reported then, unless the pattern is private and there is
no extra token with the name; the terminal has the empty first set, and nothing can match it.

## Main definitions

* `Lexicon.Displaced`: a literal whose place is taken in each of its lexical states;
* `Lexicon.Lost`: a name that refers to no token;
* `Grammar.Outcome`: what the registration comes to for a pattern;
* `Grammar.DenotesToken`: a terminal that stands for one token.

## Main results

* `Grammar.registerTokens_outcome`: the registration of a pattern;
* `Grammar.ordinal_resolveReferences`: the ordinal of a reference;
* `Grammar.analyze_denotesToken`: the terminals that stand for a token.
-/

namespace GrammarAnalysis

namespace Lexicon

variable {L L' L'' : Lexicon} {id : Nat} {image : String}

/-- Lexical state `i` has pattern `q` for the text. -/
def HasLiteral (L : Lexicon) (i : Nat) (image : String) (q : Nat) : Prop :=
  (L.lexicalStates[i]?).bind (·.findLiteral image) = some q

/-- The pattern is a literal of an explicit token production, and each lexical state of the token
production has another literal for the text. -/
def Displaced (L : Lexicon) (p : Nat) : Prop :=
  ∃ image tp, (L.pattern p).literal? = some image ∧ (L.pattern p).production = some tp ∧
    ∀ name ∈ (L.production tp).lexicalStates, ∀ i, L.stateIndex name = some i →
      (L.production tp).explicit ∧ ∃ q, q ≠ p ∧ L.HasLiteral i image q

/-- The name refers to a pattern that is no token: a private one, or a literal whose place is
taken. -/
def Lost (L : Lexicon) (name : String) : Prop :=
  ∃ p, L.namedToken name = some p ∧ ((L.pattern p).isPrivate ∨ L.Displaced p)

/-- The literals of the lexical states have ordinals. -/
def Tabled (L : Lexicon) : Prop :=
  ∀ i image q, L.HasLiteral i image q → (L.pattern q).ordinal.isSome

/-- Each ordinal of a pattern is that of a registered pattern. -/
def Bounded (L : Lexicon) : Prop :=
  ∀ x o, (L.pattern x).ordinal = some o → o < L.ordinals.size

/-- The ordinal of what a name refers to. -/
def referredOrdinal (L : Lexicon) (name : String) : Option Nat :=
  match L.namedToken name with
  | some target => (L.pattern target).ordinal
  | none => L.extraTokenOrdinal name

/-- A lexical state has a literal if its table of literals has it. -/
theorem hasLiteral_iff {i q : Nat} : L.HasLiteral i image q ↔
    ∃ s, L.lexicalStates[i]? = some s ∧ s.findLiteral image = some q :=
  Option.bind_eq_some_iff

/-! ### The registration of a literal -/

/-- A literal that is declared has an ordinal. -/
theorem isSome_declareLiteral (i : Nat) (image : String) (hid : id < L.patterns.size) :
    ((Grammar.declareLiteral L i id image).pattern id).ordinal.isSome := by
  rw [Grammar.declareLiteral]
  cases hordinal : (L.pattern id).ordinal with
  | none => exact (congrArg Option.isSome (ordinal_register hid)).trans rfl
  | some o => exact (congrArg Option.isSome hordinal).trans rfl

/-- The literals of the lexical states have ordinals, also after one more is declared. -/
theorem Tabled.declareLiteral (h : L.Tabled) (i : Nat) (image : String)
    (hid : id < L.patterns.size) : (Grammar.declareLiteral L i id image).Tabled := by
  intro j image' q hq
  by_cases heq : q = id
  · rw [heq]
    exact isSome_declareLiteral i image hid
  · obtain ⟨hpattern, ignoreCase, hstates⟩ := Grammar.declareLiteral_spec L i id image
    rw [hpattern q heq]
    obtain ⟨s, hs, hfind⟩ := hasLiteral_iff.mp hq
    rw [hstates, Array.getElem?_modify] at hs
    split at hs
    · obtain ⟨s₀, hs₀, rfl⟩ := Option.map_eq_some_iff.mp hs
      rcases LexicalState.findLiteral_addLiteral_cases hfind with hold | ⟨hself, -⟩
      · exact h j image' q (hasLiteral_iff.mpr ⟨s₀, hs₀, hold⟩)
      · exact absurd hself heq
    · exact h j image' q (hasLiteral_iff.mpr ⟨s, hs, hfind⟩)

/-- Sharing an ordinal keeps the ordinals of the literals of the lexical states. -/
theorem Tabled.shareOrdinal (h : L.Tabled) (id : Nat) {present : Nat}
    (hpresent : (L.pattern present).ordinal.isSome) :
    (Grammar.shareOrdinal L id present).Tabled := by
  intro i image q hq
  rw [ordinal_shareOrdinal]
  split
  · exact hpresent
  · exact h i image q hq

/-- A literal that is declared in a lexical state is there. -/
theorem hasLiteral_declareLiteral {i : Nat} {name : String} (hi : L.stateIndex name = some i)
    (hnone : (L.lexicalStates[i]?).bind (·.findLiteral image) = none) :
    (Grammar.declareLiteral L i id image).HasLiteral i image id := by
  obtain ⟨s, hs, -⟩ := exists_of_stateIndex hi
  obtain ⟨-, ignoreCase, hstates⟩ := Grammar.declareLiteral_spec L i id image
  rw [hs] at hnone
  refine hasLiteral_iff.mpr ⟨s.addLiteral image id ignoreCase, ?_,
    LexicalState.findLiteral_addLiteral_self hnone⟩
  rw [hstates, Array.getElem?_modify, if_pos rfl, hs]
  rfl

/-- Declaring a literal changes ordinals and tables only. -/
theorem registers_declareLiteral (L : Lexicon) (i id : Nat) (image : String) :
    L.Registers (Grammar.declareLiteral L i id image) := by
  rw [Grammar.declareLiteral]
  split
  · exact (registers_register L id).trans (registers_addLiteral _ i id image _)
  · exact registers_addLiteral L i id image _

/-! ### What references and labels leave alone -/

/-- Resolving references keeps the ordinal of what a name refers to, unless this is a reference.
-/
theorem Resolves.referredOrdinal_eq (h : L.Resolves L') {name : String}
    (hnamed : ∀ target, L.namedToken name = some target →
      (L.pattern target).isReference = false) :
    L'.referredOrdinal name = L.referredOrdinal name := by
  have hname : L'.namedToken name = L.namedToken name := by
    rw [namedToken, h.registers.namedTokens_eq, namedToken]
  rw [referredOrdinal, referredOrdinal, hname, extraTokenOrdinal, h.registers.extraTokens_eq,
    h.ordinals_eq, extraTokenOrdinal]
  cases htarget : L.namedToken name with
  | none => rfl
  | some target => exact congrArg Pattern.ordinal (h.pattern_eq target (hnamed target htarget))

/-- The patterns keep their ordinals. -/
theorem KeepsTokens.ordinal_eq (h : L.KeepsTokens L') (x : Nat) :
    (L'.pattern x).ordinal = (L.pattern x).ordinal := by
  obtain ⟨_, _, _, hx⟩ := h.pattern x
  rw [hx]

/-- The number of tokens is kept. -/
theorem KeepsTokens.tokenCount_eq (h : L.KeepsTokens L') : L'.tokenCount = L.tokenCount := by
  rw [tokenCount, h.ordinals_eq, h.extraTokens_eq, tokenCount]

/-- The same literals are displaced. -/
theorem KeepsTokens.displaced_iff (h : L.KeepsTokens L') (p : Nat) :
    L'.Displaced p ↔ L.Displaced p := by
  obtain ⟨_, _, _, hp⟩ := h.pattern p
  have hliteral : ∀ i image q, L'.HasLiteral i image q ↔ L.HasLiteral i image q :=
    fun i image q => by
      have hstate := congrArg (Option.bind · fun s => s.2 image) (h.state i)
      simp only [Option.bind_map] at hstate
      exact (congrArg (· = some q) hstate).to_iff
  simp only [Displaced, Pattern.literal?, hp, production, h.tokenProductions_eq, h.stateIndex_eq,
    hliteral]

/-- The same names are lost. -/
theorem KeepsTokens.lost_iff (h : L.KeepsTokens L') (name : String) :
    L'.Lost name ↔ L.Lost name := by
  have hprivate : ∀ p, (L'.pattern p).isPrivate = (L.pattern p).isPrivate := fun p => by
    obtain ⟨_, _, _, hp⟩ := h.pattern p
    rw [hp]
  simp only [Lost, namedToken, h.namedTokens_eq, hprivate, h.displaced_iff]

end Lexicon

namespace Grammar

open Lexicon

variable {L₀ L L' : Lexicon} {tp : TokenProduction} {k p : Nat} {image : String}

/-- The registration of patterns changes ordinals and tables only. -/
theorem RegistrationSteps.registers {ids : List Nat} {r r' : Registration}
    (h : RegistrationSteps ids r r') : r.grammar.lexicon.Registers r'.grammar.lexicon := by
  refine h.preserves (P := fun r' => r.grammar.lexicon.Registers r'.grammar.lexicon)
    (fun id _ r₁ r₂ hstep ih => ?_) (.refl _)
  cases hstep with
  | registered => exact ih.trans (registers_register _ id)
  | declared _ => exact ih.trans (registers_declareLiteral _ _ id _)
  | shared => exact ih.trans (registers_modifyPattern _ id _)
  | _ => exact ih

/-- Each of the lexical states has another literal for the text, and the token production is
explicit. -/
def Missed (L₀ L : Lexicon) (explicit : Bool) (p : Nat) (image : String) (names : List String) :
    Prop :=
  ∀ name ∈ names, ∀ i, L₀.stateIndex name = some i →
    explicit ∧ ∃ q, q ≠ p ∧ L.HasLiteral i image q

/-- One of the lexical states has the literal, or the token production is not explicit. -/
def Entered (L₀ L : Lexicon) (explicit : Bool) (p : Nat) (image : String) (names : List String) :
    Prop :=
  ∃ name ∈ names, ∃ i, L₀.stateIndex name = some i ∧
    (explicit = false ∨ L.HasLiteral i image p)

/-- What these lexical states come to for a literal: it has an ordinal once one of them has
entered it. -/
def LiteralOutcome (L₀ L : Lexicon) (explicit : Bool) (p : Nat) (image : String)
    (names : List String) : Prop :=
  (L.pattern p).ordinal = none ∧ Missed L₀ L explicit p image names ∨
    (L.pattern p).ordinal.isSome ∧ Entered L₀ L explicit p image names

/-- A literal that is missed by one more lexical state is missed by all of them. -/
theorem Missed.concat {explicit : Bool} {names : List String} {name : String}
    (h : Missed L₀ L explicit p image names) (hlast : ∀ i, L₀.stateIndex name = some i →
      explicit ∧ ∃ q, q ≠ p ∧ L.HasLiteral i image q) :
    Missed L₀ L explicit p image (names ++ [name]) :=
  List.forall_mem_append.mpr ⟨h, List.forall_mem_singleton.mpr hlast⟩

/-- A literal that is entered stays so with one more lexical state. -/
theorem Entered.concat {explicit : Bool} {names : List String}
    (h : Entered L₀ L explicit p image names) (name : String) :
    Entered L₀ L explicit p image (names ++ [name]) := by
  obtain ⟨name', hname', hentered⟩ := h
  exact ⟨name', List.mem_append_left _ hname', hentered⟩

/-- A literal can be entered by the last lexical state. -/
theorem Entered.last {explicit : Bool} {i : Nat} {name : String} (names : List String)
    (hi : L₀.stateIndex name = some i) (h : explicit = false ∨ L.HasLiteral i image p) :
    Entered L₀ L explicit p image (names ++ [name]) :=
  ⟨name, List.mem_append_right _ (List.mem_singleton_self name), i, hi, h⟩

/-- What the registration comes to for a pattern that is no reference. -/
inductive Outcome (L₀ L : Lexicon) (tp : TokenProduction) (p : Nat) : Prop
  | hidden : (L₀.pattern p).isPrivate → (L.pattern p).ordinal = none → Outcome L₀ L tp p
  | token : (L₀.pattern p).isPrivate = false → (L₀.pattern p).literal? = none →
      (L.pattern p).ordinal.isSome → Outcome L₀ L tp p
  | missed {image : String} : (L₀.pattern p).isPrivate = false →
      (L₀.pattern p).literal? = some image → (L.pattern p).ordinal = none →
      Missed L₀ L tp.explicit p image tp.lexicalStates → Outcome L₀ L tp p
  | entered {image : String} : (L₀.pattern p).isPrivate = false →
      (L₀.pattern p).literal? = some image → (L.pattern p).ordinal.isSome →
      Entered L₀ L tp.explicit p image tp.lexicalStates → Outcome L₀ L tp p

/-- Registering a literal in a lexical state takes no error back. -/
theorem quieter_literalIn (explicit : Bool) (id : Nat) (image name : String) (r : Registration) :
    Quieter r.grammar (r.literalIn explicit id image name).grammar := by
  have hstep := literalStep_literalIn explicit id image name r
  generalize r.literalIn explicit id image name = r' at hstep ⊢
  cases hstep with
  | conflict => exact quieter_record _ _
  | _ => exact fun h => h

/-- One lexical state, after some others: the literal has no ordinal as long as it is missed. -/
theorem literalIn_outcome {r : Registration} {explicit : Bool} {names : List String}
    {name : String} (hregisters : L₀.Registers r.grammar.lexicon)
    (htabled : r.grammar.lexicon.Tabled) (hp : p < L₀.patterns.size)
    (h : LiteralOutcome L₀ r.grammar.lexicon explicit p image names)
    (hsilent : (r.literalIn explicit p image name).grammar.log.hasNoErrors) :
    (r.literalIn explicit p image name).grammar.lexicon.Tabled ∧
      LiteralOutcome L₀ (r.literalIn explicit p image name).grammar.lexicon explicit p image
        (names ++ [name]) := by
  have hlt : p < r.grammar.lexicon.patterns.size := hregisters.size_eq ▸ hp
  have hindex := hregisters.stateIndex_eq name
  have hstep := literalStep_literalIn explicit p image name r
  generalize r.literalIn explicit p image name = r' at hstep hsilent ⊢
  cases hstep with
  | undefined hnone =>
      refine ⟨htabled, h.imp (And.imp_right fun hmissed => hmissed.concat fun i hi => ?_)
        (And.imp_right fun hentered => hentered.concat name)⟩
      rw [← hindex, hnone] at hi
      cases hi
  | @repeated i present hexplicit hi hpresent =>
      refine ⟨htabled, h.imp
        (fun ⟨hordinal, hmissed⟩ => ⟨hordinal, hmissed.concat fun j hj => ?_⟩)
        (And.imp_right fun hentered => hentered.concat name)⟩
      rw [← hindex, hi] at hj
      obtain rfl := Option.some.inj hj
      -- a pattern in a table has an ordinal, so the one that is present is another one
      refine ⟨hexplicit, present, ?_, hpresent⟩
      rintro rfl
      have hsome := htabled i image present hpresent
      rw [hordinal] at hsome
      cases hsome
  | conflict =>
      have herror := (hasNoErrors_record.mp hsilent).2 _ (List.mem_singleton_self _)
      cases herror
  | declared hi hnone =>
      exact ⟨htabled.declareLiteral _ image hlt, .inr ⟨isSome_declareLiteral _ image hlt,
        .last names (hindex ▸ hi) (.inr (hasLiteral_declareLiteral hi hnone))⟩⟩
  | @shared i present hexplicit hi hpresent =>
      have hsome := htabled i image present hpresent
      refine ⟨htabled.shareOrdinal p hsome, .inr ⟨?_, .last names (hindex ▸ hi) (.inl hexplicit)⟩⟩
      rw [ordinal_shareOrdinal, if_pos ⟨rfl, hlt⟩]
      exact hsome

/-- The lexical states of a literal, in turn. -/
theorem literals_outcome {r : Registration} {explicit : Bool} (names : List String)
    (hregisters : L₀.Registers r.grammar.lexicon) (htabled : r.grammar.lexicon.Tabled)
    (hp : p < L₀.patterns.size) (hnone : (r.grammar.lexicon.pattern p).ordinal = none)
    (himage : (r.grammar.lexicon.pattern p).literal? = some image)
    (hsilent : (names.foldl (Registration.literalIn explicit p image) r).grammar.log.hasNoErrors) :
    (names.foldl (Registration.literalIn explicit p image) r).grammar.lexicon.Tabled ∧
      LiteralOutcome L₀ (names.foldl (Registration.literalIn explicit p image) r).grammar.lexicon
        explicit p image names := by
  induction names using List.reverseRecOn with
  | nil => exact ⟨htabled, .inl ⟨hnone, fun _ h => absurd h List.not_mem_nil⟩⟩
  | append_singleton names name ih =>
      rw [List.foldl_append, List.foldl_cons, List.foldl_nil] at hsilent ⊢
      obtain ⟨htabled', h⟩ := ih (quieter_literalIn _ _ _ _ _ hsilent)
      have hsteps := literals_steps (List.mem_singleton_self p) explicit names himage
      exact literalIn_outcome (hregisters.trans hsteps.registers) htabled' hp h hsilent

/-! ### The registration of a pattern -/

/-- A pattern that a token production declares exists, and is not registered yet. -/
theorem unregistered_of_mem (hL : L₀.Fresh)
    (hentry : p ∈ (L₀.production k).entries.map TokenEntry.pattern) :
    p < L₀.patterns.size ∧ (L₀.pattern p).production = some k ∧
      (L₀.pattern p).ordinal = none := by
  obtain ⟨e, he, rfl⟩ := List.mem_map.mp hentry
  obtain ⟨hlt, hproduction⟩ := hL.declared k e he
  refine ⟨hlt, hproduction, hL.unregistered _ fun heq => ?_⟩
  rw [heq, hL.endOfInput.2.2] at hproduction
  cases hproduction

/-- The registration of one pattern, if it reports no error, has the outcome for its kind. -/
theorem pattern_outcome {r : Registration} {visited gone : Nat → Prop} (hL : L₀.Fresh)
    (h : Ledger L₀ visited gone r.grammar.lexicon) (hvisited : ¬ visited p)
    (hentry : p ∈ (L₀.production k).entries.map TokenEntry.pattern)
    (href : (L₀.pattern p).isReference = false)
    (hsilent : (r.pattern (L₀.production k) p).grammar.log.hasNoErrors) :
    Outcome L₀ (r.pattern (L₀.production k) p).grammar.lexicon (L₀.production k) p := by
  obtain ⟨hlt, -, hnone⟩ := unregistered_of_mem hL hentry
  have hordinal := (h.untouched p hvisited).trans hnone
  obtain ⟨o, hpattern⟩ := h.registers.pattern p
  have hstep := patternStep_pattern (L₀.production k) p r
  generalize r.pattern (L₀.production k) p = r' at hstep hsilent ⊢
  cases hstep with
  | reference href' =>
      rw [h.registers.isReference_eq, href] at href'
      cases href'
  | hidden _ hprivate =>
      rw [hpattern] at hprivate
      exact .hidden hprivate hordinal
  | token _ hprivate hliteral =>
      rw [hpattern] at hprivate hliteral
      obtain ⟨names, hnames⟩ := nameToken_eq p { r with grammar :=
        { r.grammar with lexicon := (r.grammar.lexicon.register p).2 } }
      rw [hnames]
      refine .token hprivate hliteral ?_
      exact (congrArg Option.isSome (ordinal_register (h.registers.size_eq ▸ hlt))).trans rfl
  | @literal image _ hprivate hliteral =>
      have himage := hliteral
      rw [hpattern] at hprivate hliteral
      obtain ⟨names, hnames⟩ := nameToken_eq p
        ((L₀.production k).lexicalStates.foldl
          (Registration.literalIn (L₀.production k).explicit p image) r)
      rw [hnames] at hsilent ⊢
      have htabled : r.grammar.lexicon.Tabled := fun i image q hq => by
        obtain ⟨s, hs, hfind⟩ := hasLiteral_iff.mp hq
        exact (h.tabled i s image q hs hfind).2.1
      rcases (literals_outcome _ h.registers htabled hlt hordinal himage hsilent).2 with
        ⟨hordinal, hmissed⟩ | ⟨hordinal, hentered⟩
      · exact .missed hprivate hliteral hordinal hmissed
      · exact .entered hprivate hliteral hordinal hentered

/-- The outcome stays while other patterns are registered. -/
theorem Outcome.of_sustains {settled : Nat → Prop} (h : Outcome L₀ L tp p) (hp : settled p)
    (hsustains : Sustains settled L L') : Outcome L₀ L' tp p := by
  have hordinal := hsustains.ordinal_eq p hp
  have hkept : ∀ {i : Nat} {image : String} {q : Nat}, L.HasLiteral i image q →
      L'.HasLiteral i image q := fun {i image q} hq => by
    obtain ⟨s, hs, hfind⟩ := hasLiteral_iff.mp hq
    exact hasLiteral_iff.mpr (hsustains.found i s image q hs hfind)
  cases h with
  | hidden hprivate hnone => exact .hidden hprivate (hordinal.trans hnone)
  | token hprivate hliteral hsome => exact .token hprivate hliteral (hordinal ▸ hsome)
  | missed hprivate hliteral hnone hmissed =>
      refine .missed hprivate hliteral (hordinal.trans hnone) fun name hname i hi => ?_
      obtain ⟨hexplicit, q, hne, hq⟩ := hmissed name hname i hi
      exact ⟨hexplicit, q, hne, hkept hq⟩
  | entered hprivate hliteral hsome hentered =>
      obtain ⟨name, hname, i, hi, hentered⟩ := hentered
      exact .entered hprivate hliteral (hordinal ▸ hsome)
        ⟨name, hname, i, hi, hentered.imp_right hkept⟩

/-- **The registration of a pattern** that a token production declares, if no error was recorded. -/
theorem registerTokens_outcome {g : Grammar} (hL : g.lexicon.Fresh)
    (hk : k < g.lexicon.tokenProductions.size)
    (hentry : p ∈ (g.lexicon.production k).entries.map TokenEntry.pattern)
    (href : (g.lexicon.pattern p).isReference = false)
    (hsilent : g.registerTokens.log.hasNoErrors) :
    Outcome g.lexicon g.registerTokens.lexicon (g.lexicon.production k) p :=
  registerTokens_of_pattern
    (P := fun L => Outcome g.lexicon L (g.lexicon.production k) p) hL hk hentry
    (fun hledger hvisited hsilent => pattern_outcome hL hledger hvisited hentry href hsilent)
    (fun hp _ hsustains h => h.of_sustains hp hsustains) hsilent

/-- A pattern is without an ordinal if it is private, or a literal whose place is taken. -/
theorem Outcome.ordinal_eq_none_iff (h : Outcome L₀ L (L₀.production k) p)
    (hproduction : (L₀.pattern p).production = some k) (hregisters : L₀.Registers L) :
    (L.pattern p).ordinal = none ↔ (L.pattern p).isPrivate ∨ L.Displaced p := by
  obtain ⟨o, hpattern⟩ := hregisters.pattern p
  obtain ⟨entries, htp⟩ := hregisters.production k
  have hprivate_eq : (L.pattern p).isPrivate = (L₀.pattern p).isPrivate := by rw [hpattern]
  -- the place of a literal is taken if the literal is missed
  have hdisplaced : L.Displaced p ↔ ∃ image, (L₀.pattern p).literal? = some image ∧
      Missed L₀ L (L₀.production k).explicit p image (L₀.production k).lexicalStates := by
    simp only [Displaced, Missed, hregisters.literal?_eq, hregisters.stateIndex_eq]
    constructor
    · rintro ⟨image, tp, hliteral, htp', hmissed⟩
      rw [hpattern] at htp'
      obtain rfl := Option.some.inj (hproduction.symm.trans htp')
      rw [htp] at hmissed
      exact ⟨image, hliteral, hmissed⟩
    · rintro ⟨image, hliteral, hmissed⟩
      refine ⟨image, k, hliteral, by rw [hpattern]; exact hproduction, ?_⟩
      rw [htp]
      exact hmissed
  rw [hprivate_eq, hdisplaced]
  cases h with
  | hidden hprivate hnone => exact iff_of_true hnone (.inl hprivate)
  | token hprivate hliteral hsome =>
      refine iff_of_false (fun hnone => by rw [hnone] at hsome; cases hsome) ?_
      rintro (hprivate' | ⟨image, hliteral', -⟩)
      · exact absurd (hprivate.symm.trans hprivate') nofun
      · exact absurd (hliteral.symm.trans hliteral') nofun
  | missed _ hliteral hnone hmissed => exact iff_of_true hnone (.inr ⟨_, hliteral, hmissed⟩)
  | entered hprivate hliteral hsome hentered =>
      refine iff_of_false (fun hnone => by rw [hnone] at hsome; cases hsome) ?_
      rintro (hprivate' | ⟨image, hliteral', hmissed⟩)
      · exact absurd (hprivate.symm.trans hprivate') nofun
      · obtain rfl := Option.some.inj (hliteral.symm.trans hliteral')
        obtain ⟨name, hname, i, hi, hentered⟩ := hentered
        obtain ⟨hexplicit, q, hne, hq⟩ := hmissed name hname i hi
        rcases hentered with hexplicit' | hself
        · exact absurd (hexplicit.symm.trans hexplicit') nofun
        · exact hne (Option.some.inj (hq.symm.trans hself))

/-! ### The ordinals -/

/-- The registration of patterns gives them ordinals of the table. -/
theorem RegistrationSteps.bounded {ids : List Nat} {r r' : Registration}
    (h : RegistrationSteps ids r r') (hr : r.grammar.lexicon.Bounded) :
    r'.grammar.lexicon.Bounded := by
  have hregister : ∀ {L : Lexicon} (id : Nat), L.Bounded → (L.register id).2.Bounded :=
    fun {L} id hL x o ho => by
      have hsize : (L.register id).2.ordinals.size = L.ordinals.size + 1 := Array.size_push ..
      rw [pattern_register] at ho
      rw [hsize]
      split at ho
      · exact Option.some.inj ho ▸ Nat.lt_succ_self _
      · exact Nat.lt_succ_of_lt (hL x o ho)
  refine h.preserves (P := fun r' => r'.grammar.lexicon.Bounded)
    (fun id _ r₁ r₂ hstep ih => ?_) hr
  cases hstep with
  | registered => exact hregister id ih
  | declared _ =>
      simp only [declareLiteral]
      split
      · exact hregister id ih
      · exact ih
  | shared =>
      intro x o ho
      rw [ordinal_shareOrdinal] at ho
      split at ho
      · exact ih _ o ho
      · exact ih x o ho
  | _ => exact ih

/-- The ordinals are in bounds after the registration. -/
theorem bounded_registerTokens {g : Grammar} (hL : g.lexicon.Fresh) :
    g.registerTokens.lexicon.Bounded := by
  refine List.foldlRecOn (motive := fun g' : Grammar => g'.lexicon.Bounded) _ _ (fun x o ho => ?_)
    fun g' h id _ => (patterns_steps _ _ { grammar := g' }).bounded h
  rw [hL.ordinals_eq]
  by_cases hx : x = 0
  · rw [hx, hL.endOfInput.2.1] at ho
    exact Option.some.inj ho ▸ Nat.one_pos
  · rw [hL.unregistered x hx] at ho
    cases ho

/-- A reference gets the ordinal of what it refers to. -/
theorem ordinal_resolveReference {id : Nat} {name : String} (hid : id < L.patterns.size)
    (hname : (L.pattern id).reference? = some name) :
    ((resolveReference L id).pattern id).ordinal = L.referredOrdinal name := by
  rw [resolveReference, hname]
  simp only
  rw [pattern_modifyPattern, if_pos ⟨rfl, hid⟩]
  rfl

/-- The other patterns are left alone. -/
theorem pattern_resolveReference {id x : Nat} (hx : id ≠ x) :
    (resolveReference L id).pattern x = L.pattern x := by
  rw [resolveReference]
  split
  · rfl
  · rw [pattern_modifyPattern, if_neg fun heq => hx heq.1]

/-- **A reference has the ordinal of what it refers to**: that of the pattern with the name, or else
that of the extra token. -/
theorem ordinal_resolveReferences {g : Grammar} {name : String} (hp : p < g.lexicon.patterns.size)
    (hname : (g.lexicon.pattern p).reference? = some name)
    (hnamed : ∀ target, g.lexicon.namedToken name = some target →
      (g.lexicon.pattern target).isReference = false) :
    (g.resolveReferences.lexicon.pattern p).ordinal = g.lexicon.referredOrdinal name := by
  have hfold : ∀ n, g.lexicon.Resolves ((List.range n).foldl resolveReference g.lexicon) ∧
      (p < n → (((List.range n).foldl resolveReference g.lexicon).pattern p).ordinal
        = g.lexicon.referredOrdinal name) := fun n => by
    induction n with
    | zero => exact ⟨.refl _, fun h => absurd h (Nat.not_lt_zero p)⟩
    | succ n ih =>
        obtain ⟨hresolves, hdone⟩ := ih
        rw [List.range_succ, List.foldl_append, List.foldl_cons, List.foldl_nil]
        generalize (List.range n).foldl resolveReference g.lexicon = L at hresolves hdone ⊢
        refine ⟨hresolves.trans (resolves_resolveReference L n), fun hlt => ?_⟩
        obtain ⟨o, hpattern⟩ := hresolves.registers.pattern p
        by_cases heq : n = p
        · have hself := ordinal_resolveReference (by rw [hresolves.registers.size_eq]; exact hp)
            (by rw [hpattern]; exact hname)
          rw [heq, hself, hresolves.referredOrdinal_eq hnamed]
        · rw [pattern_resolveReference heq]
          exact hdone (by omega)
  exact (hfold g.lexicon.patterns.size).2 hp

/-- After the check of the references, a reference has the ordinal of what it refers to. -/
theorem ordinal_checkReferences {g : Grammar} {name : String} (hp : p < g.lexicon.patterns.size)
    (hname : (g.lexicon.pattern p).reference? = some name)
    (hnamed : ∀ target, g.lexicon.namedToken name = some target →
      (g.lexicon.pattern target).isReference = false) :
    (g.checkReferences.lexicon.pattern p).ordinal = g.lexicon.referredOrdinal name :=
  ordinal_resolveReferences (g := g.record g.referenceErrors) hp hname hnamed

/-! ### After the checks -/

section Checked

variable {g : Grammar}

/-- The course of the checks: tokens with a name are named; then the tokens are registered, and the
references may be resolved. -/
theorem exists_registered (hg : g.Drafted) :
    ∃ names : List (String × Nat),
      (∀ n ∈ names, g.NamedToken n.2 ∧ (g.lexicon.pattern n.2).givenLabel = n.1) ∧
      g.checkProductions.registerNames.lexicon = { g.lexicon with namedTokens := names } ∧
      ({ g.lexicon with namedTokens := names } : Lexicon).Registers g.tokensRegistered.lexicon ∧
      g.tokensRegistered.lexicon.Resolves g.tokensRegistered.checkReferences.lexicon := by
  obtain ⟨names, hnames, hfresh, hnamed⟩ := exists_named hg.fresh
  obtain ⟨gone, hregistered⟩ := registerTokens_registered hfresh
  have hregisters := hregistered.ledger.registers
  rw [hnames] at hregisters
  rw [hg.namedTokens_eq] at hnamed
  exact ⟨names, fun n hn => (hnamed n hn).resolve_left List.not_mem_nil, hnames, hregisters,
    resolves_checkReferences g.tokensRegistered⟩

/-- In the course of checks without an error, the references are resolved. -/
theorem exists_checked (hg : g.Drafted) (hsilent : g.check.log.hasNoErrors) :
    ∃ names : List (String × Nat),
      (∀ n ∈ names, g.NamedToken n.2 ∧ (g.lexicon.pattern n.2).givenLabel = n.1) ∧
      g.checkProductions.registerNames.lexicon = { g.lexicon with namedTokens := names } ∧
      ({ g.lexicon with namedTokens := names } : Lexicon).Registers g.tokensRegistered.lexicon ∧
      g.tokensRegistered.lexicon.Resolves g.check.lexicon := by
  obtain ⟨-, hcheck, -⟩ := check_silent hsilent
  rw [hcheck]
  exact exists_registered hg

/-- A name refers to a pattern that a token production declares, and that is no reference. -/
theorem mem_of_namedToken (hg : g.Drafted) (hsilent : g.check.log.hasNoErrors) {name : String}
    (h : g.check.lexicon.namedToken name = some p) :
    (g.lexicon.pattern p).isReference = false ∧
      ∃ k, p ∈ (g.lexicon.production k).entries.map TokenEntry.pattern := by
  obtain ⟨names, hnamed, -, hregisters, hresolves⟩ := exists_checked hg hsilent
  rw [namedToken, hresolves.registers.namedTokens_eq, hregisters.namedTokens_eq] at h
  obtain ⟨hp, -⟩ := hnamed _ (Automaton.mem_of_lookup h)
  obtain ⟨k, e, he, rfl⟩ := mem_declaredPatterns.mp hp.declared
  exact ⟨hp.isReference_eq, k, List.mem_map_of_mem he⟩

/-- **The patterns without an ordinal**: a pattern that a token production declares has none if and
only if it is private, or a literal whose place is taken. -/
theorem ordinal_check_eq_none_iff (hg : g.Drafted) (hsilent : g.check.log.hasNoErrors)
    (hentry : p ∈ (g.lexicon.production k).entries.map TokenEntry.pattern)
    (href : (g.lexicon.pattern p).isReference = false) :
    (g.check.lexicon.pattern p).ordinal = none ↔
      (g.check.lexicon.pattern p).isPrivate ∨ g.check.lexicon.Displaced p := by
  obtain ⟨-, -, hregistered, -⟩ := check_silent hsilent
  obtain ⟨names, -, hnames, hregisters, hresolves⟩ := exists_checked hg hsilent
  have hfresh : g.checkProductions.registerNames.lexicon.Fresh := by
    rw [hnames]
    exact { hg.fresh with }
  have hk : k < g.lexicon.tokenProductions.size := by
    by_contra hge
    rw [production_of_size_le (Nat.le_of_not_lt hge)] at hentry
    exact absurd hentry List.not_mem_nil
  have houtcome := registerTokens_outcome hfresh (by rw [hnames]; exact hk)
    (by rw [hnames]; exact hentry) (by rw [hnames]; exact href) hregistered
  rw [hnames] at houtcome
  have hsustains : Sustains (p = ·) g.tokensRegistered.lexicon g.check.lexicon :=
    { ordinal_eq := fun x hx => by
        rw [← hx, hresolves.pattern_eq p]
        rw [hregisters.isReference_eq]
        exact href
      found := fun i s image q hs hq => ⟨s, by rw [hresolves.lexicalStates_eq, hs], hq⟩ }
  exact (houtcome.of_sustains rfl hsustains).ordinal_eq_none_iff
    (unregistered_of_mem hg.fresh hentry).2.1 (hregisters.trans hresolves.registers)

/-- After the checks, a reference has the ordinal of what it refers to. -/
theorem ordinal_check_reference (hg : g.Drafted) (hsilent : g.check.log.hasNoErrors)
    {name : String} (hp : p < g.lexicon.patterns.size)
    (hname : (g.lexicon.pattern p).reference? = some name) :
    (g.check.lexicon.pattern p).ordinal = g.check.lexicon.referredOrdinal name := by
  obtain ⟨-, hcheck, -⟩ := check_silent hsilent
  obtain ⟨names, -, -, hregisters, hresolves⟩ := exists_checked hg hsilent
  have hnamed : ∀ target, g.tokensRegistered.lexicon.namedToken name = some target →
      (g.tokensRegistered.lexicon.pattern target).isReference = false := fun target htarget => by
    rw [namedToken, ← hresolves.registers.namedTokens_eq] at htarget
    rw [hregisters.isReference_eq]
    exact (mem_of_namedToken hg hsilent htarget).1
  obtain ⟨o, hpattern⟩ := hregisters.pattern p
  rw [hresolves.referredOrdinal_eq hnamed, hcheck]
  refine ordinal_checkReferences ?_ ?_ hnamed
  · rw [hregisters.size_eq]
    exact hp
  · rw [hpattern]
    exact hname

/-- After the checks, the ordinals of the patterns are those of tokens. -/
theorem ordinal_check_lt (hg : g.Drafted) (hsilent : g.check.log.hasNoErrors) {o : Nat}
    (href : (g.lexicon.pattern p).isReference = false)
    (ho : (g.check.lexicon.pattern p).ordinal = some o) : o < g.check.lexicon.tokenCount := by
  obtain ⟨names, -, hnames, hregisters, hresolves⟩ := exists_checked hg hsilent
  have hbounded : g.tokensRegistered.lexicon.Bounded := bounded_registerTokens (by
    rw [hnames]
    exact { hg.fresh with })
  rw [hresolves.pattern_eq p (by rw [hregisters.isReference_eq]; exact href)] at ho
  rw [tokenCount, hresolves.ordinals_eq]
  exact Nat.lt_add_right _ (hbounded p o ho)

/-- **A reference has the ordinal of a token**, unless its name is lost. -/
theorem check_reference (hg : g.Drafted) (hsilent : g.check.log.hasNoErrors) {name : String}
    (hp : p < g.lexicon.patterns.size)
    (htree : (g.lexicon.pattern p).tree = some (.reference name)) :
    (¬ g.check.lexicon.Lost name → ∃ o, (g.check.lexicon.pattern p).ordinal = some o ∧
        o < g.check.lexicon.tokenCount) ∧
      (g.check.lexicon.Lost name → (g.check.lexicon.pattern p).ordinal = none) := by
  have hname : (g.lexicon.pattern p).reference? = some name := by
    rw [Pattern.reference?, htree]
    rfl
  rw [ordinal_check_reference hg hsilent hp hname, referredOrdinal]
  cases htarget : g.check.lexicon.namedToken name with
  | some target =>
      obtain ⟨href, k, hentry⟩ := mem_of_namedToken hg hsilent htarget
      have hlost : g.check.lexicon.Lost name ↔
          (g.check.lexicon.pattern target).ordinal = none := by
        rw [ordinal_check_eq_none_iff hg hsilent hentry href]
        constructor
        · rintro ⟨target', htarget', h⟩
          obtain rfl := Option.some.inj (htarget.symm.trans htarget')
          exact h
        · exact fun h => ⟨target, htarget, h⟩
      refine ⟨fun hkept => ?_, hlost.mp⟩
      obtain ⟨o, ho⟩ := Option.ne_none_iff_exists'.mp (mt hlost.mpr hkept)
      exact ⟨o, ho, ordinal_check_lt hg hsilent href ho⟩
  | none =>
      obtain ⟨names, -, -, hregisters, hresolves⟩ := exists_checked hg hsilent
      obtain ⟨o, hpattern⟩ := (hregisters.trans hresolves.registers).pattern p
      have hextra : name ∈ g.check.lexicon.extraTokens :=
        resolved_check hsilent p _ name (by rw [hpattern]; exact htree) .self htarget
      have hlost : ¬ g.check.lexicon.Lost name := by
        rintro ⟨target, htarget', -⟩
        rw [htarget] at htarget'
        cases htarget'
      refine ⟨fun _ => ?_, fun h => absurd h hlost⟩
      have hsome : (g.check.lexicon.extraTokens.findIdx? (· == name)).isSome :=
        List.findIdx?_isSome.trans (List.any_eq_true.mpr ⟨name, hextra, beq_self_eq_true name⟩)
      obtain ⟨i, hi⟩ := Option.isSome_iff_exists.mp hsome
      refine ⟨g.check.lexicon.ordinals.size + i, by rw [extraTokenOrdinal, hi]; rfl, ?_⟩
      obtain ⟨hlt, -⟩ := List.findIdx?_eq_some_iff_getElem.mp hi
      exact Nat.add_lt_add_left hlt _

/-- **A literal terminal has the ordinal of a token.** -/
theorem LiteralTerminal.ordinal {e : Nat} (h : g.LiteralTerminal e k p image) (hg : g.Drafted)
    (hsilent : g.check.log.hasNoErrors) : ∃ o, (g.check.lexicon.pattern p).ordinal = some o ∧
      o < g.check.lexicon.tokenCount := by
  obtain ⟨names, -, -, hregisters, hresolves⟩ := exists_checked hg hsilent
  have hall := hregisters.trans hresolves.registers
  obtain ⟨o, hpattern⟩ := hall.pattern p
  obtain ⟨entries, hproduction⟩ := hall.production k
  have href := h.spells.isReference_eq
  have hsome : (g.check.lexicon.pattern p).ordinal ≠ none := by
    rw [Ne, ordinal_check_eq_none_iff hg hsilent h.mem_entries href]
    rintro (hprivate | ⟨image', tp, -, htp, hmissed⟩)
    · rw [hpattern] at hprivate
      exact absurd (h.spells.isPrivate_eq.symm.trans hprivate) nofun
    · rw [hpattern] at htp
      obtain rfl := Option.some.inj (h.spells.production_eq.symm.trans htp)
      rw [hproduction] at hmissed
      obtain ⟨hexplicit, -⟩ := hmissed defaultLexicalState
        (h.lexicalStates_eq ▸ List.mem_singleton_self defaultLexicalState) 0
        (by rw [hall.stateIndex_eq]; exact hg.fresh.stateIndex_default)
      exact absurd (h.explicit_eq.symm.trans hexplicit) nofun
  obtain ⟨o, ho⟩ := Option.ne_none_iff_exists'.mp hsome
  exact ⟨o, ho, ordinal_check_lt hg hsilent href ho⟩

end Checked

/-! ### Terminals -/

/-- A draft with one more literal is a draft. -/
theorem Drafted.addLiteral {g g' : Grammar} {e : Nat} (h : g.Drafted)
    (hliteral : g.addLiteral image = .ok (e, g')) : g'.Drafted := by
  obtain ⟨p, L, nodes, hL, -, rfl⟩ := addLiteral_cases hliteral
  obtain ⟨-, rfl, -⟩ := addEntry_cases hL
  exact h.step (.addLiteral image hliteral) (.inr (Nat.ne_of_gt (addEntry_spec hL).2.1))

/-- A draft with one more reference to a token is a draft. -/
theorem Drafted.addTokenReference {g g' : Grammar} {name : String} {e : Nat} (h : g.Drafted)
    (hreference : g.addTokenReference name = .ok (e, g')) : g'.Drafted := by
  refine h.step (.addTokenReference hreference) (.inl ?_)
  obtain ⟨-, rfl⟩ := addTerminal_eq hreference
  rfl

/-- Node `e` is a terminal for pattern `p`, which refers to a token by name. -/
structure ReferenceTerminal (g : Grammar) (e p : Nat) (name : String) : Prop where
  lt_size : e < g.size
  shape_eq : g.shape e = .terminal p
  pattern_lt : p < g.lexicon.patterns.size
  tree_eq : (g.lexicon.pattern p).tree = some (.reference name)

/-- The builder makes such terminals. -/
theorem referenceTerminal_addTokenReference {g g' : Grammar} {name : String} {e : Nat}
    (h : g.addTokenReference name = .ok (e, g')) : ∃ p, g'.ReferenceTerminal e p name := by
  obtain ⟨rfl, rfl⟩ := addTerminal_eq h
  refine ⟨g.lexicon.patterns.size, ?_, ?_, ?_, ?_⟩
  · simp [size]
  · simp [shape, node, size]
  · simp
  · exact congrArg Pattern.tree ((pattern_addPattern _ _ _).trans (if_pos rfl))

/-- A draft keeps its terminals that refer to tokens. -/
theorem ReferenceTerminal.of_draftSteps {g g' : Grammar} {e : Nat} {name : String}
    (h : g.ReferenceTerminal e p name) (hg : g.Drafted)
    (hsteps : Relation.ReflTransGen DraftStep g g') : g'.ReferenceTerminal e p name := by
  have hretains := retains_of_draftSteps hg hsteps
  obtain ⟨position, hpattern⟩ := hretains.pattern p h.pattern_lt
  obtain ⟨hlt, hshape⟩ := shape_eq_of_draftSteps hsteps h.lt_size
  exact ⟨hlt, hshape.trans h.shape_eq, Nat.lt_of_lt_of_le h.pattern_lt hretains.size_le,
    by rw [hpattern]; exact h.tree_eq⟩

/-- The first set of the node is that of one token, if the question is asked with this memory. -/
def DenotesToken (g : Grammar) (e : Nat) (m : Memory) : Prop :=
  ∃ o m', g.firstSet e m = .ok (.ofToken o, m') ∧ o < g.lexicon.tokenCount

/-- A node with an empty first set does not stand for a token. -/
theorem not_denotesToken {g : Grammar} {e : Nat} {m m' : Memory}
    (h : g.firstSet e m = .ok (∅, m')) : ¬ g.DenotesToken e m := by
  rintro ⟨o, m'', htoken, -⟩
  obtain ⟨hempty, -⟩ := Prod.mk.inj (Except.ok.inj (h.symm.trans htoken))
  have hmem : o ∈ TokenSet.ofToken o := TokenSet.mem_ofToken.mpr rfl
  rw [← hempty] at hmem
  exact TokenSet.not_mem_empty hmem

/-- **The terminals that stand for a token**, after the analysis of a draft without an error. A
terminal for a literal text stands for one token. So does a terminal that refers to a token by name,
if and only if the name is not lost; a terminal with a lost name has the empty first set. -/
theorem analyze_denotesToken {g₁ g₂ g g' : Grammar} {e : Nat} {m : Memory} (h₁ : g₁.Drafted)
    (hsteps : Relation.ReflTransGen DraftStep g₂ g) (h : g.analyze = .ok (none, g'))
    (hm : m.first.lookup e = none) :
    (∀ image, g₁.addLiteral image = .ok (e, g₂) → g'.DenotesToken e m) ∧
      ∀ name, g₁.addTokenReference name = .ok (e, g₂) →
        (¬ g'.lexicon.Lost name → g'.DenotesToken e m) ∧
        (g'.lexicon.Lost name → ∃ m', g'.firstSet e m = .ok (∅, m')) := by
  have hnodes := (keeps_analyze h).nodes
  obtain ⟨hsilent, L, log, hbuild, rfl⟩ := analyze_eq_ok h
  have hkeeps : g.check.lexicon.KeepsTokens L.ensureLabels :=
    (keepsTokens_build hbuild).trans (keepsTokens_ensureLabels L)
  -- the first set of a terminal is that of the ordinal which the checks have given its pattern
  have hset : ∀ p, g.shape e = .terminal p → p < g.check.lexicon.patterns.size →
      ∃ m', ({ g.check with lexicon := L.ensureLabels, log := log } : Grammar).firstSet e m
        = .ok ((g.check.lexicon.pattern p).ordinal.elim ∅ .ofToken, m') := fun p hshape hp => by
    refine firstSet_of_lookup (p := p) ?_ ?_ hm
    · rw [shape, node, hnodes]
      exact hshape
    · rw [terminalSet_eq (hkeeps.patterns_size_eq ▸ hp), hkeeps.ordinal_eq]
  have hdenotes : ∀ p, g.shape e = .terminal p → p < g.check.lexicon.patterns.size →
      (∃ o, (g.check.lexicon.pattern p).ordinal = some o ∧ o < g.check.lexicon.tokenCount) →
      DenotesToken { g.check with lexicon := L.ensureLabels, log := log } e m := by
    rintro p hshape hp ⟨o, ho, hlt⟩
    obtain ⟨m', hset⟩ := hset p hshape hp
    rw [ho] at hset
    exact ⟨o, m', hset, hkeeps.tokenCount_eq ▸ hlt⟩
  have hsize : ∀ {p}, g.Drafted → p < g.lexicon.patterns.size →
      p < g.check.lexicon.patterns.size := fun hg hp => by
    obtain ⟨names, -, -, hregisters, hresolves⟩ := exists_checked hg hsilent
    rw [(hregisters.trans hresolves.registers).size_eq]
    exact hp
  constructor
  · intro image hliteral
    have hg₂ := h₁.addLiteral hliteral
    obtain ⟨k, p, hterminal⟩ := literalTerminal_addLiteral hliteral
    replace hterminal := hterminal.of_draftSteps hg₂ hsteps
    have hg := hg₂.tail hsteps
    exact hdenotes p hterminal.shape_eq (hsize hg hterminal.spells.lt_size)
      (hterminal.ordinal hg hsilent)
  · intro name hreference
    have hg₂ := h₁.addTokenReference hreference
    obtain ⟨p, hterminal⟩ := referenceTerminal_addTokenReference hreference
    replace hterminal := hterminal.of_draftSteps hg₂ hsteps
    have hg := hg₂.tail hsteps
    have hp := hsize hg hterminal.pattern_lt
    obtain ⟨hkept, hlost⟩ := check_reference hg hsilent hterminal.pattern_lt hterminal.tree_eq
    rw [hkeeps.lost_iff]
    refine ⟨fun h => hdenotes p hterminal.shape_eq hp (hkept h), fun h => ?_⟩
    have hnone := hset p hterminal.shape_eq hp
    rwa [hlost h] at hnone

/-- A grammar with one explicit token production. -/
def withTokens (patterns : List Pattern) (extraTokens : List String) : Grammar :=
  { Grammar.new {} with
    lexicon :=
      { patterns := #[{ givenLabel := "EOF", ordinal := some 0, tree := some .endOfInput }]
          ++ patterns.toArray
        ordinals := #[0]
        tokenProductions := #[
          { lexicalStates := [defaultLexicalState]
            entries := (List.range patterns.length).map fun i => { pattern := i + 1 } }]
        lexicalStates := #[{ name := defaultLexicalState }]
        extraTokens := extraTokens } }

/-- A grammar with a token that is a row of the letter `x`. -/
def namedRow : Grammar :=
  withTokens [{ givenLabel := "ROW", tree := some (.quantified .plus (.text "x"))
                production := some 0 }] []

/-- A grammar with two names for one text. -/
def twoNames : Grammar :=
  withTokens [{ givenLabel := "A", tree := some (.text "x"), production := some 0 },
    { givenLabel := "B", tree := some (.text "x"), production := some 0 }] []

/-- A grammar with an extra token and a private pattern of one name. -/
def hiddenExtra : Grammar :=
  withTokens [{ givenLabel := "A", tree := some (.text "x"), production := some 0 },
    { givenLabel := "T", tree := some (.text "y"), isPrivate := true, production := some 0 }] ["T"]

/-- The grammar without nodes, with a terminal that refers to a token by name. -/
def withReference (g : Grammar) (name : String) : Grammar :=
  { g with
    lexicon := (g.lexicon.addPattern { givenLabel := "", tree := some (.reference name) }).2
    nodes := #[{ shape := .terminal g.lexicon.patterns.size }] }

/-- The builder makes `namedRow`. -/
theorem drafted_namedRow : namedRow.Drafted :=
  ((Drafted.new {}).addTokenProduction {} rfl).addEntry 0 "ROW" false
    (some (.quantified .plus (.text "x"))) rfl

/-- The builder makes `twoNames`. -/
theorem drafted_twoNames : twoNames.Drafted :=
  (Drafted.new {}).addTokenProduction {} rfl
    |>.addEntry 0 "A" false (some (.text "x")) rfl
    |>.addEntry 0 "B" false (some (.text "x")) rfl

/-- The builder makes `hiddenExtra`. -/
theorem drafted_hiddenExtra : hiddenExtra.Drafted :=
  (Drafted.new {}).step (.addExtraToken _ "T") (.inl rfl)
    |>.addTokenProduction {} rfl
    |>.addEntry 0 "A" false (some (.text "x")) rfl
    |>.addEntry 0 "T" true (some (.text "y")) rfl

/-- The name of a token that is no literal is not lost, and a terminal that refers to it stands for
the token. -/
theorem analyze_denotesToken_namedRow :
    let g := namedRow.withReference "ROW"
    namedRow.Drafted ∧ namedRow.addTokenReference "ROW" = .ok (0, g) ∧
      ∃ g', g.analyze = .ok (none, g') ∧ g'.memory.first.lookup 0 = none ∧
        ¬ g'.lexicon.Lost "ROW" ∧ g'.DenotesToken 0 g'.memory := by
  intro g
  have hadd : namedRow.addTokenReference "ROW" = .ok (0, g) := rfl
  have htest : (g.analyze.toOption.map fun r => decide (r.1 = none ∧
      r.2.memory.first.lookup 0 = none ∧ r.2.lexicon.namedToken "ROW" = some 1 ∧
      (r.2.lexicon.pattern 1).isPrivate = false ∧ (r.2.lexicon.pattern 1).literal? = none)) =
        some true := by
    decide +kernel
  clear_value g
  obtain ⟨⟨stage, g'⟩, hanalyze, rfl, hmemory, hnamed, hprivate, hliteral⟩ :=
    exists_eq_ok_of_decide (P := fun r : Option Stage × Grammar => r.1 = none ∧
      r.2.memory.first.lookup 0 = none ∧ r.2.lexicon.namedToken "ROW" = some 1 ∧
      (r.2.lexicon.pattern 1).isPrivate = false ∧ (r.2.lexicon.pattern 1).literal? = none) htest
  have hkept : ¬ g'.lexicon.Lost "ROW" := by
    rintro ⟨p, hp, hlost⟩
    obtain rfl := Option.some.inj (hnamed.symm.trans hp)
    rcases hlost with hprivate' | ⟨image, -, hliteral', -⟩
    · exact absurd (hprivate.symm.trans hprivate') nofun
    · exact absurd (hliteral.symm.trans hliteral') nofun
  exact ⟨drafted_namedRow, hadd, g', hanalyze, hmemory, hkept,
    ((analyze_denotesToken drafted_namedRow .refl hanalyze hmemory).2 "ROW" hadd).1 hkept⟩

/-- After an analysis without an error, a first node with the empty first set stands for no
token. -/
theorem exists_not_denotesToken {g : Grammar} (h : (g.analyze.toOption.map fun r =>
    decide (r.1 = none ∧ r.2.memory.first.lookup 0 = none ∧
      (r.2.firstSet 0 r.2.memory).toOption.map Prod.fst = some ∅)) = some true) :
    ∃ g', g.analyze = .ok (none, g') ∧ g'.memory.first.lookup 0 = none ∧
      ¬ g'.DenotesToken 0 g'.memory := by
  obtain ⟨⟨stage, g'⟩, hanalyze, rfl, hmemory, hempty⟩ :=
    exists_eq_ok_of_decide (P := fun r : Option Stage × Grammar => r.1 = none ∧
      r.2.memory.first.lookup 0 = none ∧
      (r.2.firstSet 0 r.2.memory).toOption.map Prod.fst = some ∅) h
  refine ⟨g', hanalyze, hmemory, ?_⟩
  obtain ⟨⟨s, m'⟩, hs, rfl⟩ := Option.map_eq_some_iff.mp hempty
  have hanswer : g'.firstSet 0 g'.memory = .ok (∅, m') := by
    cases hanswer : g'.firstSet 0 g'.memory with
    | ok answer =>
        rw [hanswer] at hs
        exact congrArg _ (Option.some.inj hs)
    | error fault =>
        rw [hanswer] at hs
        cases hs
  exact not_denotesToken hanswer

/-- Of two names for one text, the second one is lost: no error is recorded, and a terminal that
refers to it has the empty first set. So has a terminal that refers to an extra token, if a private
pattern has the same name. -/
theorem analyze_lost :
    (twoNames.Drafted ∧
      twoNames.addTokenReference "B" = .ok (0, twoNames.withReference "B") ∧
      ∃ g', (twoNames.withReference "B").analyze = .ok (none, g') ∧
        g'.memory.first.lookup 0 = none ∧ ¬ g'.DenotesToken 0 g'.memory) ∧
    hiddenExtra.Drafted ∧
      hiddenExtra.addTokenReference "T" = .ok (0, hiddenExtra.withReference "T") ∧
      ∃ g', (hiddenExtra.withReference "T").analyze = .ok (none, g') ∧
        g'.memory.first.lookup 0 = none ∧ ¬ g'.DenotesToken 0 g'.memory :=
  ⟨⟨drafted_twoNames, rfl, exists_not_denotesToken (by decide +kernel)⟩, drafted_hiddenExtra, rfl,
    exists_not_denotesToken (by decide +kernel)⟩

end Grammar

end GrammarAnalysis
