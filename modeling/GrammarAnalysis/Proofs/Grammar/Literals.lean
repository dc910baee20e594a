import GrammarAnalysis.Proofs.Grammar.FirstFinal
import GrammarAnalysis.Proofs.Grammar.Settling
import GrammarAnalysis.Proofs.Lexicon.Literals

/-!
# The Literals of the Grammar

A terminal for a literal text gets its token in the checks: its own, or that of the literal which
the default lexical state finds for the text. What the lexical state finds stays found, with the
same ordinals, while the other patterns are registered. In the end the patterns that still have a
place in a token production have their ordinals for themselves, and the lexer reads the text as the
token of the terminal if and only if the automaton matches the literal that was found.

Without regard to case, the literal is found by the upper-case form of the whole text, but matched
by the simple case variants of its characters. The two differ: `σ` and `ς` have the same upper-case
form, and neither is a simple variant of the other.

## Main definitions

* `Lexicon.Sustains`, `Lexicon.Finds`: what stays, and what is found;
* `Grammar.LiteralTerminal`: a terminal for a literal text.

## Main results

* `Grammar.registerTokens_finds`: a literal with one lexical state is found there in the end;
* `Grammar.Settled.accepts_iff`: the texts that are accepted with the token of a literal;
* `Grammar.analyze_literal`: when the lexer reads the text of a terminal as its token.
-/

namespace GrammarAnalysis

namespace Lexicon

/-- The ordinals of the settled patterns stay, and what a lexical state finds is found again. -/
structure Sustains (settled : Nat → Prop) (L L' : Lexicon) : Prop where
  ordinal_eq : ∀ x, settled x → (L'.pattern x).ordinal = (L.pattern x).ordinal
  found : ∀ (i : Nat) s image q, L.lexicalStates[i]? = some s → s.findLiteral image = some q →
    ∃ s', L'.lexicalStates[i]? = some s' ∧ s'.findLiteral image = some q

/-- Lexical state `i` finds the text, as a literal with the ordinal of pattern `p`. -/
def Finds (L : Lexicon) (i p : Nat) (image : String) : Prop :=
  ∃ s q, L.lexicalStates[i]? = some s ∧ s.findLiteral image = some q ∧
    (L.pattern p).ordinal = (L.pattern q).ordinal

variable {settled : Nat → Prop} {L L' L'' : Lexicon}

/-- A lexicon sustains its own ordinals and literals. -/
theorem Sustains.refl (settled : Nat → Prop) (L : Lexicon) : Sustains settled L L :=
  ⟨fun _ _ => rfl, fun _ s _ _ hs hq => ⟨s, hs, hq⟩⟩

/-- Sustaining ordinals and literals is transitive. -/
theorem Sustains.trans (h : Sustains settled L L') (h' : Sustains settled L' L'') :
    Sustains settled L L'' where
  ordinal_eq := fun x hx => (h'.ordinal_eq x hx).trans (h.ordinal_eq x hx)
  found := fun i s image q hs hq => by
    obtain ⟨s', hs', hq'⟩ := h.found i s image q hs hq
    exact h'.found i s' image q hs' hq'

end Lexicon

namespace Grammar

open Lexicon

variable {settled : Nat → Prop} {L₀ : Lexicon} {gone : Nat → Prop} {id tp : Nat} {image : String}

/-! ### What is settled stays -/

/-- A literal that is declared is entered into the lexical state, and may get its ordinal. -/
theorem declareLiteral_spec (L : Lexicon) (i id : Nat) (image : String) :
    (∀ x, x ≠ id → (declareLiteral L i id image).pattern x = L.pattern x) ∧
      ∃ ignoreCase, (declareLiteral L i id image).lexicalStates
        = L.lexicalStates.modify i fun s => s.addLiteral image id ignoreCase := by
  rw [declareLiteral]
  split
  · exact ⟨fun x hx => (pattern_register L id x).trans (if_neg fun heq => hx heq.1.symm), _, rfl⟩
  · exact ⟨fun _ _ => rfl, _, rfl⟩

/-- Declaring a literal that is not there yet, of a pattern that is not settled, takes nothing
back. -/
theorem sustains_declareLiteral {L : Lexicon} (hid : ¬ settled id) {i : Nat}
    (hnone : (L.lexicalStates[i]?).bind (·.findLiteral image) = none) :
    Sustains settled L (declareLiteral L i id image) := by
  obtain ⟨hpattern, ignoreCase, hstates⟩ := declareLiteral_spec L i id image
  refine ⟨fun x hx => by rw [hpattern x fun heq => hid (heq ▸ hx)], fun j s image' q hs hq => ?_⟩
  rw [hstates, Array.getElem?_modify, hs]
  split
  · rename_i hij
    subst hij
    rw [hs] at hnone
    exact ⟨_, rfl, LexicalState.findLiteral_addLiteral_of_some hnone hq⟩
  · exact ⟨s, rfl, hq⟩

/-- Patterns leave alone what was settled before. -/
theorem RegistrationSteps.sustains {ids : List Nat} (hids : ∀ id ∈ ids, ¬ settled id)
    {r r' : Registration} (h : RegistrationSteps ids r r') :
    Sustains settled r.grammar.lexicon r'.grammar.lexicon := by
  refine h.preserves (P := fun r' => Sustains settled r.grammar.lexicon r'.grammar.lexicon)
    (fun id hid r₁ r₂ hstep ih => ?_) (.refl settled _)
  have hne : ∀ x, settled x → x ≠ id := fun x hx heq => hids id hid (heq ▸ hx)
  cases hstep with
  | registered =>
      refine ih.trans ⟨fun x hx => ?_, fun _ s _ _ hs hq => ⟨s, hs, hq⟩⟩
      rw [pattern_register, if_neg fun heq => hne x hx heq.1.symm]
  | declared hnone => exact ih.trans (sustains_declareLiteral (hids id hid) hnone)
  | shared =>
      refine ih.trans ⟨fun x hx => ?_, fun _ s _ _ hs hq => ⟨s, hs, hq⟩⟩
      rw [ordinal_shareOrdinal, if_neg fun heq => hne x hx heq.1.symm]
  | _ => exact ih

/-- A change of a token production takes no ordinal and no literal back. -/
theorem sustains_modifyProduction (L : Lexicon) (tp : Nat)
    (f : TokenProduction → TokenProduction) : Sustains settled L (L.modifyProduction tp f) :=
  ⟨fun _ _ => rfl, fun _ s _ _ hs hq => ⟨s, hs, hq⟩⟩

/-- What is settled after some of the token productions stays so to the end. -/
theorem sustains_registerProductions {g : Grammar} (hL : g.lexicon.Fresh) {m n : Nat}
    (hmn : m ≤ n) :
    Sustains (DeclaredBelow g.lexicon m) ((List.range m).foldl registerProduction g).lexicon
      ((List.range n).foldl registerProduction g).lexicon := by
  induction n, hmn using Nat.le_induction with
  | base => exact .refl _ _
  | succ n hmn ih =>
      obtain ⟨gone, hregistered⟩ := registered_foldl hL n
      rw [List.range_succ, List.foldl_append]
      refine ih.trans ?_
      rw [List.foldl_cons, List.foldl_nil, registerProduction,
        hregistered.pending n (Nat.le_refl n)]
      refine Sustains.trans (RegistrationSteps.sustains ?_ (patterns_steps _ _ { grammar := _ }))
        (sustains_modifyProduction _ n _)
      rintro id hid ⟨tp, htp, hmem⟩
      exact absurd (production_eq_of_mem hL hmem hid) (by omega)

/-! ### A literal of one lexical state -/

/-- The only lexical state of a literal that is not explicit finds it afterwards. -/
theorem literalIn_finds {r : Registration} {visited : Nat → Prop} {p i : Nat} {name : String}
    (h : Ledger L₀ visited gone r.grammar.lexicon) (hi : L₀.stateIndex name = some i)
    (hp : p < L₀.patterns.size)
    (hsilent : (r.literalIn false p image name).grammar.log.hasNoErrors) :
    (r.literalIn false p image name).grammar.lexicon.Finds i p image := by
  have hindex := h.registers.stateIndex_eq name
  have hstep := literalStep_literalIn false p image name r
  generalize r.literalIn false p image name = r' at hstep hsilent ⊢
  cases hstep with
  | undefined hnone =>
      rw [hindex, hi] at hnone
      cases hnone
  | repeated hexplicit _ _ => cases hexplicit
  | conflict =>
      have herror := (hasNoErrors_record.mp hsilent).2 _ (List.mem_singleton_self _)
      cases herror
  | declared hi' hnone =>
      obtain ⟨s, hs, -⟩ := exists_of_stateIndex hi'
      rw [hindex, hi] at hi'
      obtain rfl := Option.some.inj hi'
      rw [hs] at hnone
      obtain ⟨-, ignoreCase, hstates⟩ := declareLiteral_spec r.grammar.lexicon i p image
      refine ⟨s.addLiteral image p ignoreCase, p, ?_,
        LexicalState.findLiteral_addLiteral_self hnone, rfl⟩
      rw [hstates, Array.getElem?_modify, if_pos rfl, hs]
      rfl
  | @shared _ present _ hi' hpresent =>
      rw [hindex, hi] at hi'
      obtain rfl := Option.some.inj hi'
      obtain ⟨s, hs, hpresent⟩ := Option.bind_eq_some_iff.mp hpresent
      refine ⟨s, present, hs, hpresent, ?_⟩
      rw [ordinal_shareOrdinal, ordinal_shareOrdinal,
        if_pos ⟨rfl, h.registers.size_eq ▸ hp⟩, ite_self]

/-- The pattern of a literal with one lexical state is registered there. -/
theorem pattern_finds {r : Registration} {visited : Nat → Prop} {k p i : Nat} {name : String}
    (h : Ledger L₀ visited gone r.grammar.lexicon) (hspells : L₀.Spells k p image)
    (hexplicit : (L₀.production k).explicit = false)
    (hname : (L₀.production k).lexicalStates = [name]) (hi : L₀.stateIndex name = some i)
    (hsilent : (r.pattern (L₀.production k) p).grammar.log.hasNoErrors) :
    (r.pattern (L₀.production k) p).grammar.lexicon.Finds i p image := by
  obtain ⟨o, hpattern⟩ := h.registers.pattern p
  have hstep := patternStep_pattern (L₀.production k) p r
  generalize r.pattern (L₀.production k) p = r' at hstep hsilent ⊢
  cases hstep with
  | reference href =>
      rw [h.registers.isReference_eq, hspells.isReference_eq] at href
      cases href
  | hidden _ hprivate =>
      rw [hpattern] at hprivate
      exact absurd (hprivate.symm.trans hspells.isPrivate_eq) nofun
  | token _ _ hnone =>
      rw [h.registers.literal?_eq, hspells.literal?_eq] at hnone
      cases hnone
  | literal _ _ himage =>
      rw [h.registers.literal?_eq, hspells.literal?_eq] at himage
      obtain rfl := Option.some.inj himage
      obtain ⟨names, hnames⟩ := nameToken_eq p
        ((L₀.production k).lexicalStates.foldl
          (Registration.literalIn (L₀.production k).explicit p image) r)
      rw [hnames] at hsilent ⊢
      rw [hname, hexplicit] at hsilent ⊢
      exact literalIn_finds h hi hspells.lt_size hsilent

/-- What was found with settled patterns is found with the same ordinals. -/
theorem finds_of_sustains {L L' : Lexicon} {i p : Nat} (h : Sustains settled L L')
    (hp : settled p)
    (hq : ∀ s q, L.lexicalStates[i]? = some s → s.findLiteral image = some q → settled q)
    (hfinds : L.Finds i p image) : L'.Finds i p image := by
  obtain ⟨s, q, hs, hfound, hordinal⟩ := hfinds
  obtain ⟨s', hs', hfound'⟩ := h.found i s image q hs hfound
  refine ⟨s', q, hs', hfound', ?_⟩
  rw [h.ordinal_eq p hp, h.ordinal_eq q (hq s q hs hfound), hordinal]

/-! ### A pattern in the course of the registration -/

section Course

variable {k p : Nat} {P : Lexicon → Prop}

/-- What is true of a pattern when its turn is over is true after its token production, if it stays
so while other patterns are registered. -/
theorem registerProduction_of_pattern {g : Grammar} (hL : L₀.Fresh)
    (h : RegisteredBelow L₀ k gone g.lexicon)
    (hentry : p ∈ (L₀.production k).entries.map TokenEntry.pattern)
    (hpattern : ∀ {r : Registration} {visited gone : Nat → Prop},
      Ledger L₀ visited gone r.grammar.lexicon → ¬ visited p →
      (r.pattern (L₀.production k) p).grammar.log.hasNoErrors →
      P (r.pattern (L₀.production k) p).grammar.lexicon)
    (hstays : ∀ {settled : Nat → Prop} {L L' : Lexicon}, settled p →
      (∀ (i : Nat) s image q, L.lexicalStates[i]? = some s → s.findLiteral image = some q →
        settled q) → Sustains settled L L' → P L → P L')
    (hsilent : (g.registerProduction k).log.hasNoErrors) :
    P (g.registerProduction k).lexicon := by
  obtain ⟨before, after, hids⟩ := List.append_of_mem hentry
  have hnodup := hL.entries_nodup k
  have hmem : ∀ id ∈ before ++ p :: after, id ∈ (L₀.production k).entries.map TokenEntry.pattern :=
    fun id hid => hids ▸ hid
  rw [registerProduction, h.pending k (Nat.le_refl k)] at hsilent ⊢
  rw [hids] at hsilent hnodup ⊢
  rw [List.foldl_append, List.foldl_cons] at hsilent ⊢
  obtain ⟨hbefore, hafter, hdisjoint⟩ := List.nodup_append.mp hnodup
  obtain ⟨hp, -⟩ := List.nodup_cons.mp hafter
  have hledger := h.patterns hL hbefore fun id hid => hmem id (List.mem_append_left _ hid)
  have hremoved := (patterns_steps (L₀.production k) before { grammar := g }).removed
  generalize before.foldl (Registration.pattern (L₀.production k)) { grammar := g } = r
    at hledger hremoved hsilent ⊢
  have hpbefore : p ∉ before := fun hmem => hdisjoint p hmem p List.mem_cons_self rfl
  have hnew : ¬ (p ∈ before ∨ DeclaredBelow L₀ k p) :=
    fun hvisited => hvisited.elim hpbefore (not_declaredBelow hL hentry)
  have hledger' := pattern_ledger hL hledger hentry hnew
    fun hgone => hgone.elim (h.not_gone hL hentry) fun hgone =>
      (hremoved p hgone).elim List.not_mem_nil hpbefore
  -- the patterns after this one leave it alone
  have hfree : ∀ id ∈ after, ¬ (id = p ∨ id ∈ before ∨ DeclaredBelow L₀ k id) := by
    rintro id hid (rfl | hmem | hbelow)
    · exact hp hid
    · exact hdisjoint id hmem id (List.mem_cons_of_mem p hid) rfl
    · exact not_declaredBelow hL
        (hmem id (List.mem_append_right _ (List.mem_cons_of_mem p hid))) hbelow
  exact hstays (.inl rfl) (fun i s image q hs hq => (hledger'.tabled i s image q hs hq).1)
    ((RegistrationSteps.sustains hfree (patterns_steps _ after _)).trans
      (sustains_modifyProduction _ k _))
    (hpattern hledger hnew (quieter_patterns (L₀.production k) after _ hsilent))

/-- **One pattern in the course of the registration**: what is true of it when its turn is over,
without an error, is true in the end, if it stays so while other patterns are registered. -/
theorem registerTokens_of_pattern {g : Grammar} (hL : g.lexicon.Fresh)
    (hk : k < g.lexicon.tokenProductions.size)
    (hentry : p ∈ (g.lexicon.production k).entries.map TokenEntry.pattern)
    (hpattern : ∀ {r : Registration} {visited gone : Nat → Prop},
      Ledger g.lexicon visited gone r.grammar.lexicon → ¬ visited p →
      (r.pattern (g.lexicon.production k) p).grammar.log.hasNoErrors →
      P (r.pattern (g.lexicon.production k) p).grammar.lexicon)
    (hstays : ∀ {settled : Nat → Prop} {L L' : Lexicon}, settled p →
      (∀ (i : Nat) s image q, L.lexicalStates[i]? = some s → s.findLiteral image = some q →
        settled q) → Sustains settled L L' → P L → P L')
    (hsilent : g.registerTokens.log.hasNoErrors) : P g.registerTokens.lexicon := by
  obtain ⟨gone, hregistered⟩ := registered_foldl hL k
  obtain ⟨gone', hregistered'⟩ := registered_foldl hL (k + 1)
  have hsucc : (List.range (k + 1)).foldl registerProduction g
      = ((List.range k).foldl registerProduction g).registerProduction k := by
    rw [List.range_succ, List.foldl_append]
    rfl
  have hsilent' := quieter_registerProductions g hk hsilent
  rw [hsucc] at hsilent'
  have hturn := registerProduction_of_pattern hL hregistered hentry hpattern hstays hsilent'
  rw [← hsucc] at hturn
  exact hstays ⟨k, Nat.lt_succ_self k, hentry⟩
    (fun i s image q hs hq => (hregistered'.ledger.tabled i s image q hs hq).1)
    (sustains_registerProductions hL hk) hturn

end Course

/-- **A literal with one lexical state is registered there**: in the end, the lexical state finds
its text with its ordinal, unless an error was recorded. -/
theorem registerTokens_finds {g : Grammar} {k p i : Nat} {name : String} (hL : g.lexicon.Fresh)
    (hk : k < g.lexicon.tokenProductions.size) (hspells : g.lexicon.Spells k p image)
    (hentry : p ∈ (g.lexicon.production k).entries.map TokenEntry.pattern)
    (hexplicit : (g.lexicon.production k).explicit = false)
    (hname : (g.lexicon.production k).lexicalStates = [name])
    (hi : g.lexicon.stateIndex name = some i) (hsilent : g.registerTokens.log.hasNoErrors) :
    g.registerTokens.lexicon.Finds i p image :=
  registerTokens_of_pattern (P := fun L => L.Finds i p image) hL hk hentry
    (fun hledger _ hsilent => pattern_finds hledger hspells hexplicit hname hi hsilent)
    (fun hp hq hsustains hfinds => finds_of_sustains hsustains hp (hq i · image) hfinds) hsilent

/-! ### The literals of a draft after its checks -/

section Settled

variable {M : Lexicon}

/-- A literal that a lexical state finds is declared for it, unless it straddles. -/
theorem Settled.declares (h : Settled L₀ M gone) (hL : L₀.Fresh) {i q : Nat} {s : LexicalState}
    (hs : M.lexicalStates[i]? = some s) (hq : s.findLiteral image = some q) :
    ∃ text, (L₀.pattern q).literal? = some text ∧ (M.pattern q).tree = some (.text text) ∧
      (M.pattern q).ordinal.isSome ∧
      (text = image ∨ L₀.ignoresCase q ∧ CaseMap.upperText text = CaseMap.upperText image) ∧
      (¬ L₀.Straddles q → ∃ tp, M.Declares i tp q) := by
  obtain ⟨L, hregistered, hresolves⟩ := h.exists_registered
  have hregisters := h.registers
  rw [hresolves.lexicalStates_eq] at hs
  obtain ⟨⟨tp, htp, hentry⟩, hordinal, ⟨text, tp', hspells, ⟨name, hname, hi⟩, himage⟩, hkept⟩ :=
    hregistered.ledger.tabled i s image q hs hq
  obtain ⟨e, he, rfl⟩ := List.mem_map.mp hentry
  obtain rfl : tp = tp' :=
    Option.some.inj ((hL.declared tp e he).2.symm.trans hspells.production_eq)
  obtain ⟨o, hpattern⟩ := hregisters.pattern e.pattern
  obtain ⟨entries, hproduction⟩ := hregisters.production tp
  have href := hspells.isReference_eq
  rw [← hregistered.ledger.registers.isReference_eq] at href
  have htree : (M.pattern e.pattern).tree = some (.text text) := by
    obtain ⟨tree, htree, hliteral⟩ := Option.bind_eq_some_iff.mp hspells.literal?_eq
    rw [hpattern]
    cases tree with
    | text _ => exact htree.trans (congrArg _ (congrArg _ (Option.some.inj hliteral)))
    | _ => cases hliteral
  refine ⟨text, hspells.literal?_eq, htree, ?_, ?_,
    fun hstays => ⟨tp, ?_, ⟨name, ?_, ?_⟩, ⟨e, ?_, rfl⟩, ?_⟩⟩
  · rw [hresolves.pattern_eq _ href]
    exact hordinal
  · rwa [(Registers.refl L₀).ignoresCase_eq hspells.production_eq]
  · rwa [hregisters.productions_eq]
  · rwa [hproduction]
  · rwa [hregisters.stateIndex_eq]
  · exact hresolves.mem tp e ((hregistered.entries tp e).mpr ⟨he, hkept hstays⟩) href
  · rw [hpattern]
    exact hspells.isPrivate_eq

/-- The case flag of a pattern that is declared for a lexical state. -/
theorem Settled.foldsCase_eq (h : Settled L₀ M gone) (hL : L₀.Fresh) {i q : Nat}
    (hdeclares : M.Declares i tp q) : M.foldsCase tp = L₀.ignoresCase q := by
  obtain ⟨htp, -, ⟨e, he, rfl⟩, -⟩ := hdeclares
  have hregisters := h.registers
  rw [hregisters.productions_eq] at htp
  obtain ⟨entries, hproduction⟩ := hregisters.production tp
  rw [(Registers.refl L₀).ignoresCase_eq (hL.declared tp e (h.mem_entries he)).2, foldsCase,
    hproduction, hregisters.ignoreCase_eq]
  cases hfold : L₀.ignoreCase with
  | false => exact Bool.or_false _
  | true => exact (Bool.or_true _).trans (hL.folds tp htp hfold).symm

/-- The default lexical state of the lexer that is built finds the same literals as before, and the
patterns have their ordinals. -/
theorem Settled.exists_default (h : Settled L₀ M gone) (hL : L₀.Fresh) {log log' : Log}
    {L : Lexicon} (hbuild : M.build log = .ok (L, log')) {s : LexicalState}
    (hs : M.lexicalStates[0]? = some s) :
    ∃ states S, L.ensureLabels.lexicalState defaultLexicalState = some S ∧
      (∀ image, S.findLiteral image = s.findLiteral image) ∧
      (M.entered M.uses 0 s).build { M with lexicalStates := states } = .ok S ∧
      ∀ x, (L.ensureLabels.pattern x).ordinal = (M.pattern x).ordinal := by
  obtain ⟨⟨states, S, hS, hname, hfind, hbuilt⟩, hpatterns⟩ := exists_build hbuild hs
  obtain ⟨hstates, hlabels⟩ := L.ensureLabels_spec
  have hSname : S.name = defaultLexicalState := by
    obtain ⟨exact, folded, hstate⟩ := h.registers.state 0
    obtain ⟨s₀, hs₀, hname₀⟩ := Option.map_eq_some_iff.mp hL.default
    rw [hs, hs₀] at hstate
    rw [hname, Option.some.inj hstate]
    exact hname₀
  refine ⟨states, S, ?_, hfind, hbuilt, fun x => ?_⟩
  · rw [← hSname]
    exact lexicalState_of_first (by rw [hstates, hS])
  · obtain ⟨label, hlabel⟩ := hlabels x
    obtain ⟨nextState, action, hpattern⟩ := hpatterns x
    rw [hlabel, hpattern]

/-- The texts that a lexical state accepts with the token of a literal: the variants of the
literal. -/
theorem Settled.accepts_iff (h : Settled L₀ M gone) (hL : L₀.Fresh) {i q o : Nat}
    {s S : LexicalState} (hs : M.lexicalStates[i]? = some s) {states : Array LexicalState}
    (hbuild : (M.entered M.uses i s).build { M with lexicalStates := states } = .ok S)
    (hdeclares : ∃ tp, M.Declares i tp q) {text : String}
    (htree : (M.pattern q).tree = some (.text text)) (ho : (M.pattern q).ordinal = some o)
    {w : List Nat} (hw : w ≠ []) :
    (∃ r, S.automaton.accepts r w ∧ (M.pattern r).ordinal = some o) ↔
      Regex.TextVariant (L₀.ignoresCase q) text w := by
  have hM := h.unbuilt hL
  have hholds : ∀ {r tp : Nat}, M.Declares i tp r → (M.pattern r).ordinal = some o →
      M.ordinals[o]? = some r := by
    rintro r tp ⟨-, -, ⟨e, he, rfl⟩, -⟩ ho
    exact h.ordinals_eq he ho
  obtain ⟨tp, hdeclares⟩ := hdeclares
  constructor
  · rintro ⟨r, haccepts, hr⟩
    -- the tokens have their ordinals for themselves
    obtain ⟨tp', hdeclares'⟩ := declares_of_accepts hM hs hbuild haccepts
    obtain rfl : r = q :=
      Option.some.inj ((hholds hdeclares' hr).symm.trans (hholds hdeclares ho))
    obtain ⟨tp'', hdeclares'', hvariant⟩ := (accepts_literal_iff hM hs hbuild htree hw).mp haccepts
    rwa [h.foldsCase_eq hL hdeclares''] at hvariant
  · intro hvariant
    rw [← h.foldsCase_eq hL hdeclares] at hvariant
    exact ⟨q, (accepts_literal_iff hM hs hbuild htree hw).mpr ⟨tp, hdeclares, hvariant⟩, ho⟩

end Settled

/-! ### Terminals for literal texts -/

/-- Node `e` is a terminal for pattern `p`, which token production `k` declares as a literal of
the default lexical state. -/
structure LiteralTerminal (g : Grammar) (e k p : Nat) (image : String) : Prop where
  lt_size : e < g.size
  shape_eq : g.shape e = .terminal p
  production_lt : k < g.lexicon.tokenProductions.size
  spells : g.lexicon.Spells k p image
  mem_entries : p ∈ (g.lexicon.production k).entries.map TokenEntry.pattern
  explicit_eq : (g.lexicon.production k).explicit = false
  lexicalStates_eq : (g.lexicon.production k).lexicalStates = [defaultLexicalState]

/-- An entry is added with its pattern, behind the entries that are there. -/
theorem addEntry_spec {L L' : Lexicon} {label : String} {isPrivate : Bool} {tree : Option Regex}
    (h : L.addEntry tp label isPrivate tree = .ok (id, L')) :
    tp < L'.tokenProductions.size ∧ id < L'.patterns.size ∧
      L'.production tp = { L.production tp with
        entries := (L.production tp).entries ++ [{ pattern := id }] } ∧
      (L'.pattern id).tree = tree ∧ (L'.pattern id).production = some tp ∧
      (L'.pattern id).isPrivate = isPrivate := by
  obtain ⟨htp, rfl, p, -, hprivate, htree, hproduction, rfl⟩ := addEntry_cases h
  have hpattern : ∀ f, ((L.addPattern p).2.modifyProduction tp f).pattern L.patterns.size = p :=
    fun f => (pattern_addPattern L p L.patterns.size).trans (if_pos rfl)
  rw [hpattern]
  refine ⟨?_, ?_, ?_, htree, hproduction, hprivate⟩
  · simpa [Lexicon.modifyProduction, Lexicon.addPattern] using htp
  · simp [Lexicon.modifyProduction, Lexicon.addPattern]
  · rw [production_modifyProduction, if_pos ⟨rfl, htp⟩]
    rfl

/-- A terminal is added behind the nodes that are there. -/
theorem addTerminal_eq {g g' : Grammar} {pattern : Nat}
    (h : g.addTerminal pattern = .ok (id, g')) :
    id = g.size ∧ g' = { g with nodes := g.nodes.push { shape := .terminal pattern } } := by
  obtain ⟨rfl, rfl⟩ := Prod.mk.inj (Except.ok.inj h)
  exact ⟨rfl, rfl⟩

/-- The builder makes such terminals. -/
theorem literalTerminal_addLiteral {g g' : Grammar} {e : Nat}
    (h : g.addLiteral image = .ok (e, g')) : ∃ k p, g'.LiteralTerminal e k p image := by
  obtain ⟨p, L, nodes, hL, hterminal, -⟩ := addLiteral_cases h
  obtain ⟨rfl, rfl⟩ := addTerminal_eq hterminal
  obtain ⟨hk, hp, hproduction, htree, hof, hprivate⟩ := addEntry_spec hL
  have hdeclared : (g.lexicon.addTokenProduction g.literalProduction).2.production
      g.lexicon.tokenProductions.size = g.literalProduction := by
    rw [production_addTokenProduction, if_pos rfl]
  rw [hdeclared] at hproduction
  refine ⟨_, p, ?_, ?_, hk, ⟨hp, ?_, hof, hprivate⟩, ?_, ?_, ?_⟩
  · simp [size]
  · simp [shape, node, size]
  · simp only [Pattern.literal?, htree]
    rfl
  · simp only [hproduction]
    exact List.mem_map_of_mem (List.mem_append_right _ (List.mem_singleton_self _))
  · simp only [hproduction]
    rfl
  · simp only [hproduction]
    rfl

/-- The older nodes keep their shapes in a step of the builder. -/
theorem Grows.shape_eq {g g' : Grammar} (h : g.Grows g') {x : Nat} (hx : x < g.size) :
    x < g'.size ∧ g'.shape x = g.shape x := by
  cases h with
  | skeleton h => exact ⟨h.size ▸ hx, h.shape x⟩
  | node shape h => exact ⟨h.size ▸ Nat.lt_succ_of_lt hx, h.shape_of_ne (Nat.ne_of_lt hx)⟩
  | lookahead e lookahead h => exact ⟨h.size ▸ hx, h.shape x⟩
  | production production h => exact ⟨h.size ▸ hx, h.shape_eq x⟩

/-- A draft keeps the shapes of its nodes. -/
theorem shape_eq_of_draftSteps {g g' : Grammar} (hsteps : Relation.ReflTransGen DraftStep g g')
    {x : Nat} (hx : x < g.size) : x < g'.size ∧ g'.shape x = g.shape x := by
  induction hsteps with
  | refl => exact ⟨hx, rfl⟩
  | tail _ hstep ih =>
      obtain ⟨hlt, hshape⟩ := hstep.1.grows.shape_eq ih.1
      exact ⟨hlt, hshape.trans ih.2⟩

/-- A draft keeps its terminals for literal texts. -/
theorem LiteralTerminal.of_draftSteps {g g' : Grammar} {e k p : Nat} (hg : g.Drafted)
    (h : g.LiteralTerminal e k p image) (hsteps : Relation.ReflTransGen DraftStep g g') :
    g'.LiteralTerminal e k p image := by
  have hretains := retains_of_draftSteps hg hsteps
  obtain ⟨position, hpattern⟩ := hretains.pattern p h.spells.lt_size
  have hproduction := hretains.production k h.production_lt
  have hshape : e < g'.size ∧ g'.shape e = .terminal p := by
    rw [← h.shape_eq]
    exact shape_eq_of_draftSteps hsteps h.lt_size
  refine ⟨hshape.1, hshape.2, Nat.lt_of_lt_of_le h.production_lt hretains.productions_le,
    ⟨Nat.lt_of_lt_of_le h.spells.lt_size hretains.size_le, ?_, ?_, ?_⟩,
    hproduction.entries p h.mem_entries, hproduction.explicit.trans h.explicit_eq,
    hproduction.lexicalStates.trans h.lexicalStates_eq⟩
  · rw [hpattern]
    exact h.spells.literal?_eq
  · rw [hpattern]
    exact h.spells.production_eq
  · rw [hpattern]
    exact h.spells.isPrivate_eq

/-- The first set of a terminal of which nothing is remembered. -/
theorem firstSet_of_lookup {g : Grammar} {e p : Nat} {s : TokenSet} {m : Memory}
    (hshape : g.shape e = .terminal p) (hset : g.terminalSet p = .ok s)
    (hm : m.first.lookup e = none) : ∃ m', g.firstSet e m = .ok (s, m') := by
  obtain ⟨budget, hbudget⟩ := g.budget_pos
  refine ⟨m.keepFirst e (pure s), ?_⟩
  rw [firstSet, hbudget, firstWithin, hm, hshape]
  simp only [hset]
  rfl

/-- A terminal of which nothing is remembered has its own token for its first set. -/
theorem firstSet_terminal {g : Grammar} {e p o : Nat} (hshape : g.shape e = .terminal p)
    (ho : (g.lexicon.pattern p).ordinal = some o) (hblank : g.memory.Blank) :
    ∃ m, g.firstSet e g.memory = .ok (.ofToken o, m) := by
  refine firstSet_of_lookup hshape ?_ (by rw [hblank.first]; rfl)
  rw [terminalSet_eq (lt_size_of_ordinal ho), ho, Option.elim_some]

/-! ### The analysis -/

/-- A literal text that is declared without an error has a character. -/
theorem LiteralTerminal.codePoints_ne_nil {g : Grammar} {e k p : Nat}
    (h : g.LiteralTerminal e k p image)
    (herrors : ∀ f ∈ g.patternErrors, f.message.isError = false) :
    image.toList.map Char.toNat ≠ [] := by
  obtain ⟨entry, hentry, rfl⟩ := List.mem_map.mp h.mem_entries
  have hempty := matchesEmpty_eq_false herrors hentry
  obtain ⟨tree, htree, hliteral⟩ := Option.bind_eq_some_iff.mp h.spells.literal?_eq
  cases tree with
  | text text =>
      obtain rfl := Option.some.inj hliteral
      rw [matchesEmpty, matchesEmptyWithin, htree] at hempty
      simpa [Regex.nullableWith] using hempty
  | _ => cases hliteral

/-- After checks without an error, the default lexical state finds the text of a terminal, as a
literal with the ordinal of the terminal. -/
theorem LiteralTerminal.finds {g : Grammar} {e k p : Nat} (hg : g.Drafted)
    (h : g.LiteralTerminal e k p image) (hsilent : g.check.log.hasNoErrors) :
    g.check.lexicon.Finds 0 p image := by
  obtain ⟨-, hcheck, hregistered, -⟩ := check_silent hsilent
  obtain ⟨names, hnames, hfresh, -⟩ := exists_named hg.fresh
  have hdefault := hg.fresh.stateIndex_default
  have hfinds : g.tokensRegistered.lexicon.Finds 0 p image :=
    registerTokens_finds hfresh (by rw [hnames]; exact h.production_lt)
      (by rw [hnames]; exact ⟨h.spells.lt_size, h.spells.literal?_eq, h.spells.production_eq,
        h.spells.isPrivate_eq⟩)
      (by rw [hnames]; exact h.mem_entries) (by rw [hnames]; exact h.explicit_eq)
      (by rw [hnames]; exact h.lexicalStates_eq) (by rw [hnames]; exact hdefault) hregistered
  obtain ⟨names', gone, -, hledger, -⟩ := tokensRegistered_registered hg
  have hregisters := hledger.registers
  have hresolves : g.tokensRegistered.lexicon.Resolves g.check.lexicon := by
    rw [hcheck]
    exact resolves_checkReferences g.tokensRegistered
  obtain ⟨s, q, hs, hq, hordinal⟩ := hfinds
  obtain ⟨-, -, ⟨text, tp, hspells, -⟩, -⟩ := hledger.tabled 0 s image q hs hq
  refine ⟨s, q, by rw [hresolves.lexicalStates_eq]; exact hs, hq, ?_⟩
  rw [hresolves.pattern_eq p (by rw [hregisters.isReference_eq]; exact h.spells.isReference_eq),
    hresolves.pattern_eq q (by rw [hregisters.isReference_eq]; exact hspells.isReference_eq)]
  exact hordinal

/-- **A terminal for a literal text has a token**, after an analysis without an error: that of the
literal which the default lexical state finds for the text. This literal has the same text, or the
same upper-case form if case is ignored. The lexer reads the text as the token if and only if the
literal has the same text, or case is ignored and each character of the text is a simple case
variant of that of the literal. -/
theorem analyze_literal {g₁ g₂ g g' : Grammar} {e : Nat} (h₁ : g₁.Drafted)
    (hliteral : g₁.addLiteral image = .ok (e, g₂)) (hsteps : Relation.ReflTransGen DraftStep g₂ g)
    (h : g.analyze = .ok (none, g')) :
    ∃ p o S q text, g'.shape e = .terminal p ∧ (g'.lexicon.pattern p).ordinal = some o ∧
      (∃ m, g'.firstSet e g'.memory = .ok (.ofToken o, m)) ∧
      g'.lexicon.lexicalState defaultLexicalState = some S ∧ S.findLiteral image = some q ∧
      (g'.lexicon.pattern q).ordinal = some o ∧ (g.lexicon.pattern q).literal? = some text ∧
      (text = image ∨
        g.lexicon.ignoresCase q ∧ CaseMap.upperText text = CaseMap.upperText image) ∧
      (¬ g.lexicon.Straddles q → (g'.lexicon.Reads image o ↔
        text = image ∨ g.lexicon.ignoresCase q ∧
          Regex.TextVariant true text (image.toList.map Char.toNat))) := by
  have hkeeps := keeps_analyze h
  obtain ⟨hsilent, L, log, hbuild, rfl⟩ := analyze_eq_ok h
  obtain ⟨k, p, hterminal⟩ := literalTerminal_addLiteral hliteral
  have hg₂ : g₂.Drafted := by
    obtain ⟨p, L, nodes, hL, -, rfl⟩ := addLiteral_cases hliteral
    obtain ⟨-, rfl, -⟩ := addEntry_cases hL
    refine h₁.step (.addLiteral image hliteral) (.inr ?_)
    exact Nat.ne_of_gt (addEntry_spec hL).2.1
  have hg := hg₂.tail hsteps
  replace hterminal := hterminal.of_draftSteps hg₂ hsteps
  obtain ⟨s, q, hs, hq, hordinal⟩ := hterminal.finds hg hsilent
  obtain ⟨names, gone, -, hsettled⟩ := check_settled hg hsilent
  have hfresh : ({ g.lexicon with namedTokens := names } : Lexicon).Fresh := { hg.fresh with }
  obtain ⟨text, htext, htree, hsome, himage, hdeclares⟩ := hsettled.declares hfresh hs hq
  obtain ⟨o, ho⟩ := Option.isSome_iff_exists.mp hsome
  obtain ⟨states, S, hdefault, hfind, hbuilt, hkept⟩ := hsettled.exists_default hfresh hbuild hs
  have hreads : ∀ o, L.ensureLabels.Reads image o ↔
      ∃ r, S.automaton.accepts r (image.toList.map Char.toNat) ∧
        (g.check.lexicon.pattern r).ordinal = some o := fun o => by
    simp only [Reads, hdefault, Option.some.injEq, hkept, exists_and_left, exists_eq_left']
  have hblank :
      ({ g.check with lexicon := L.ensureLabels, log := log } : Grammar).memory.Blank := by
    obtain ⟨hfirst, hproductionFirst, hproductionFinal⟩ := hg.built.developed.memory_blank
    exact ⟨hkeeps.first.trans hfirst, hkeeps.productionFirst.trans hproductionFirst,
      hkeeps.productionFinal.trans hproductionFinal⟩
  have hshape : ({ g.check with lexicon := L.ensureLabels, log := log } : Grammar).shape e
      = .terminal p := by
    rw [shape, node, hkeeps.nodes]
    exact hterminal.shape_eq
  have hp : (L.ensureLabels.pattern p).ordinal = some o := by rw [hkept, hordinal, ho]
  refine ⟨p, o, S, q, text, hshape, hp, firstSet_terminal hshape hp hblank, hdefault,
    (hfind image).trans hq, by rw [hkept, ho], htext, himage, fun hstays => ?_⟩
  rw [hreads, ← Regex.textVariant_iff]
  exact hsettled.accepts_iff hfresh hs hbuilt (hdeclares hstays) htree ho
    (hterminal.codePoints_ne_nil (check_silent hsilent).2.2.2.1)

/-- A grammar that ignores case, of one literal text. -/
def oneLiteral (first : String) : Grammar :=
  { Grammar.new { ignoreCase := true } with
    lexicon :=
      { patterns := #[{ givenLabel := "EOF", ordinal := some 0, tree := some .endOfInput },
          { givenLabel := "", tree := some (.text first), production := some 0 }]
        ordinals := #[0]
        tokenProductions := #[
          { lexicalStates := [defaultLexicalState], ignoreCase := true, explicit := false,
            entries := [{ pattern := 1 }] }]
        lexicalStates := #[{ name := defaultLexicalState }]
        ignoreCase := true }
    nodes := #[{ shape := .terminal 1 }] }

/-- A grammar that ignores case, of two literal texts. -/
def twoLiterals (first second : String) : Grammar :=
  { oneLiteral first with
    lexicon := { (oneLiteral first).lexicon with
      patterns := (oneLiteral first).lexicon.patterns.push
        { givenLabel := "", tree := some (.text second), production := some 1 }
      tokenProductions := (oneLiteral first).lexicon.tokenProductions.push
        { lexicalStates := [defaultLexicalState], ignoreCase := true, explicit := false,
          entries := [{ pattern := 2 }] } }
    nodes := #[{ shape := .terminal 1 }, { shape := .terminal 2 }] }

/-- The second literal is added to the first one. -/
theorem oneLiteral_addLiteral (first second : String) :
    (oneLiteral first).addLiteral second = .ok (1, twoLiterals first second) := rfl

/-- The builder makes `oneLiteral`. -/
theorem drafted_oneLiteral (first : String) : (oneLiteral first).Drafted :=
  (Drafted.new { ignoreCase := true }).step (.addLiteral first rfl) (.inr (Nat.succ_ne_self 1))

/-- The literals `a` and `A` are one token if case is ignored, and the lexer reads `A` as this
token. -/
theorem analyze_literal_upper :
    let g := twoLiterals "a" "A"
    (oneLiteral "a").Drafted ∧ (oneLiteral "a").addLiteral "A" = .ok (1, g) ∧
      ∃ g', g.analyze = .ok (none, g') ∧ g'.lexicon.Reads "A" 1 ∧
        ∃ p o S q text, g'.shape 1 = .terminal p ∧ (g'.lexicon.pattern p).ordinal = some o ∧
          (∃ m, g'.firstSet 1 g'.memory = .ok (.ofToken o, m)) ∧
          g'.lexicon.lexicalState defaultLexicalState = some S ∧ S.findLiteral "A" = some q ∧
          (g'.lexicon.pattern q).ordinal = some o ∧ (g.lexicon.pattern q).literal? = some text ∧
          (text = "A" ∨
            g.lexicon.ignoresCase q ∧ CaseMap.upperText text = CaseMap.upperText "A") ∧
          (¬ g.lexicon.Straddles q → (g'.lexicon.Reads "A" o ↔
            text = "A" ∨ g.lexicon.ignoresCase q ∧
              Regex.TextVariant true text ("A".toList.map Char.toNat))) := by
  intro g
  have htest : (g.analyze.toOption.map fun r =>
      decide (r.1 = none ∧ r.2.lexicon.Reads "A" 1)) = some true := by decide +kernel
  have hadd : (oneLiteral "a").addLiteral "A" = .ok (1, g) := oneLiteral_addLiteral "a" "A"
  clear_value g
  obtain ⟨⟨stage, g'⟩, hanalyze, rfl, hreads⟩ := exists_eq_ok_of_decide
    (P := fun r : Option Stage × Grammar => r.1 = none ∧ r.2.lexicon.Reads "A" 1) htest
  exact ⟨drafted_oneLiteral "a", hadd, g', hanalyze, hreads,
    analyze_literal (drafted_oneLiteral "a") hadd .refl hanalyze⟩

/-- The literals `σ` and `ς` are one token if case is ignored, since both have the upper-case form
`Σ`. But the automaton is made for `σ`, of which `ς` is no variant, and the lexer does not read `ς`
as this token. -/
theorem analyze_literal_finalSigma :
    let g := twoLiterals "σ" "ς"
    (oneLiteral "σ").Drafted ∧ (oneLiteral "σ").addLiteral "ς" = .ok (1, g) ∧
      ∃ g', g.analyze = .ok (none, g') ∧ g'.shape 1 = .terminal 2 ∧
        (g'.lexicon.pattern 2).ordinal = some 1 ∧ ¬ g'.lexicon.Reads "ς" 1 := by
  intro g
  have htest : (g.analyze.toOption.map fun r => decide (r.1 = none ∧ r.2.shape 1 = .terminal 2 ∧
      (r.2.lexicon.pattern 2).ordinal = some 1 ∧ ¬ r.2.lexicon.Reads "ς" 1)) = some true := by
    decide +kernel
  obtain ⟨⟨stage, g'⟩, hanalyze, rfl, hresult⟩ := exists_eq_ok_of_decide htest
  exact ⟨drafted_oneLiteral "σ", oneLiteral_addLiteral "σ" "ς", g', hanalyze, hresult⟩

end Grammar

end GrammarAnalysis
