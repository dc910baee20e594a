import GrammarAnalysis.Proofs.Grammar.Registration

/-!
# After the Checks

When the checks of a draft end without an error, its patterns are named and registered, and its
references are resolved and have lost their places in the token productions. The lexical states can
then be built.

## Main definitions

* `Grammar.Settled`: the lexical part of a draft after its checks;
* `Grammar.Analyzed`: the outcomes of an analysis.

## Main results

* `Grammar.check_settled`: checks without an error settle a draft;
* `Grammar.Settled.ordinals_eq`: the patterns that have a place have their ordinals for themselves;
* `Grammar.analyzed`: what an analysis comes to.
-/

namespace GrammarAnalysis

namespace Grammar

open Lexicon

variable {L₀ : Lexicon} {gone : Nat → Prop} {id tp : Nat}

/-- A token production that lost its references has none. -/
theorem isReference_of_mem_entries {g : Grammar} {e : TokenEntry}
    (he : e ∈ (g.resolveReferences.lexicon.production tp).entries) :
    (g.resolveReferences.lexicon.pattern e.pattern).isReference = false := by
  rw [resolveReferences] at he ⊢
  generalize (List.range g.lexicon.patterns.size).foldl resolveReference g.lexicon = L at he ⊢
  simp only [Lexicon.production, Array.getElem?_map] at he
  cases htp : L.tokenProductions[tp]? with
  | none =>
      rw [htp] at he
      exact absurd he List.not_mem_nil
  | some production =>
      rw [htp] at he
      have hkept : (L.pattern e.pattern).isReference = false := by
        simpa using (List.mem_filter.mp he).2
      exact hkept

/-- The check of the references reports errors, and resolves the references. -/
theorem lexicon_checkReferences (g : Grammar) :
    g.checkReferences.lexicon = (g.record g.referenceErrors).resolveReferences.lexicon := rfl

/-- The lexical part of a draft whose checks have found no error: the patterns are named and
registered, and the references are resolved. -/
structure Settled (L₀ M : Lexicon) (gone : Nat → Prop) : Prop where
  exists_registered : ∃ L, RegisteredBelow L₀ L₀.tokenProductions.size gone L ∧ L.Resolves M
  isReference_eq : ∀ tp, ∀ e ∈ (M.production tp).entries, (M.pattern e.pattern).isReference = false

/-- The checks name patterns that a draft declares, and register them. -/
theorem tokensRegistered_registered {g : Grammar} (hg : g.Drafted) :
    ∃ names gone, (∀ n ∈ names, n.2 ∈ g.declaredPatterns) ∧
      RegisteredBelow { g.lexicon with namedTokens := names }
        g.lexicon.tokenProductions.size gone g.tokensRegistered.lexicon := by
  obtain ⟨names, hnames, hfresh, hnamed⟩ := exists_named hg.fresh
  obtain ⟨gone, hregistered⟩ := registerTokens_registered hfresh
  rw [hnames] at hregistered
  refine ⟨names, gone, fun n hn => ((hnamed n hn).resolve_left fun hn => ?_).1.declared,
    hregistered⟩
  rw [hg.namedTokens_eq] at hn
  exact absurd hn List.not_mem_nil

/-- The checks of a draft, if they find no error, leave its lexical part settled. -/
theorem check_settled {g : Grammar} (hg : g.Drafted) (h : g.check.log.hasNoErrors) :
    ∃ names gone, (∀ n ∈ names, n.2 ∈ g.declaredPatterns) ∧
      Settled { g.lexicon with namedTokens := names } g.check.lexicon gone := by
  obtain ⟨-, hcheck, -⟩ := check_silent h
  obtain ⟨names, gone, hdeclared, hregistered⟩ := tokensRegistered_registered hg
  refine ⟨names, gone, hdeclared, ⟨g.tokensRegistered.lexicon, hregistered, ?_⟩, ?_⟩
  · rw [hcheck]
    exact resolves_checkReferences g.tokensRegistered
  · rw [hcheck, lexicon_checkReferences]
    exact fun tp e he => isReference_of_mem_entries he

section Settled

variable {M : Lexicon}

/-- Settling changes ordinals, entries and literals only. -/
theorem Settled.registers (h : Settled L₀ M gone) : L₀.Registers M := by
  obtain ⟨L, hregistered, hresolves⟩ := h.exists_registered
  exact hregistered.ledger.registers.trans hresolves.registers

/-- The checks add no entry. -/
theorem Settled.mem_entries (h : Settled L₀ M gone) {e : TokenEntry}
    (he : e ∈ (M.production tp).entries) : e ∈ (L₀.production tp).entries := by
  obtain ⟨L, hregistered, hresolves⟩ := h.exists_registered
  exact ((hregistered.entries tp e).mp (hresolves.mem_of_mem tp e he)).1

/-- A pattern that has a place in a token production is registered at its ordinal. -/
theorem Settled.ordinals_eq (h : Settled L₀ M gone) {e : TokenEntry}
    (he : e ∈ (M.production tp).entries) {o : Nat}
    (ho : (M.pattern e.pattern).ordinal = some o) : M.ordinals[o]? = some e.pattern := by
  have hreference := h.isReference_eq tp e he
  have hlt : tp < M.tokenProductions.size := by
    by_contra hge
    rw [production_of_size_le (Nat.le_of_not_lt hge)] at he
    exact absurd he List.not_mem_nil
  rw [h.registers.productions_eq] at hlt
  obtain ⟨L, hregistered, hresolves⟩ := h.exists_registered
  obtain ⟨hmem, hgone⟩ := (hregistered.entries tp e).mp (hresolves.mem_of_mem tp e he)
  rw [hresolves.registers.isReference_eq] at hreference
  rw [hresolves.pattern_eq _ hreference] at ho
  rw [hresolves.ordinals_eq]
  exact hregistered.ledger.holder _ ⟨tp, hlt, List.mem_map_of_mem hmem⟩ hgone o ho

/-- The checks only add literals to the lexical states. -/
theorem Settled.exists_state (h : Settled L₀ M gone) (hL : L₀.Fresh) {s : LexicalState}
    (hs : s ∈ M.lexicalStates.toList) : ∃ exact folded,
      s = { name := s.name, exactLiterals := exact, foldedLiterals := folded } := by
  obtain ⟨i, hi⟩ := List.mem_iff_getElem?.mp hs
  rw [Array.getElem?_toList] at hi
  obtain ⟨exact, folded, hstate⟩ := h.registers.state i
  rw [hi] at hstate
  obtain ⟨s₀, hs₀, rfl⟩ := Option.map_eq_some_iff.mp hstate.symm
  rw [hL.states s₀ (List.mem_of_getElem? (by rwa [Array.getElem?_toList]))]
  exact ⟨exact, folded, rfl⟩

/-- The lexical states have not been built. -/
theorem Settled.unbuilt (h : Settled L₀ M gone) (hL : L₀.Fresh) : M.Unbuilt := by
  intro s hs
  obtain ⟨exact, folded, heq⟩ := h.exists_state hL hs
  rw [heq]
  exact ⟨rfl, rfl⟩

/-- No lexical state has got a pattern yet. -/
theorem Settled.patterns_eq (h : Settled L₀ M gone) (hL : L₀.Fresh) :
    ∀ s ∈ M.lexicalStates.toList, s.patterns = ∅ := by
  intro s hs
  obtain ⟨exact, folded, heq⟩ := h.exists_state hL hs
  rw [heq]

end Settled

/-! ### The patterns of a draft -/

/-- The entries that are checked are those of the token productions. -/
theorem mem_tokenEntries {g : Grammar} {e : TokenEntry} :
    (∃ subject, (subject, e) ∈ g.tokenEntries) ↔ ∃ tp, e ∈ (g.lexicon.production tp).entries := by
  simp only [tokenEntries, List.mem_flatMap, List.mem_map, Prod.exists, Prod.mk.injEq,
    List.mem_zipIdx_iff_getElem?, Array.getElem?_toList]
  constructor
  · rintro ⟨subject, production, tp, htp, _, index, hindex, rfl, rfl⟩
    refine ⟨tp, ?_⟩
    rw [Lexicon.production, htp]
    exact List.mem_of_getElem? hindex
  · rintro ⟨tp, he⟩
    rw [Lexicon.production] at he
    cases htp : g.lexicon.tokenProductions[tp]? with
    | none =>
        rw [htp] at he
        exact absurd he List.not_mem_nil
    | some production =>
        rw [htp] at he
        obtain ⟨index, hindex⟩ := List.mem_iff_getElem?.mp he
        exact ⟨_, production, tp, htp, e, index, hindex, rfl, rfl⟩

/-- The patterns that are declared are those of the entries. -/
theorem mem_declaredPatterns {g : Grammar} :
    id ∈ g.declaredPatterns ↔ ∃ tp, ∃ e ∈ (g.lexicon.production tp).entries, e.pattern = id := by
  rw [declaredPatterns, List.mem_map]
  constructor
  · rintro ⟨⟨subject, e⟩, he, rfl⟩
    obtain ⟨tp, he⟩ := mem_tokenEntries.mp ⟨subject, he⟩
    exact ⟨tp, e, he, rfl⟩
  · rintro ⟨tp, e, he, rfl⟩
    obtain ⟨subject, he⟩ := mem_tokenEntries.mpr ⟨tp, he⟩
    exact ⟨(subject, e), he, rfl⟩

/-- The patterns that a draft declares are in its lexicon. -/
theorem Drafted.lt_size_of_declared {g : Grammar} (hg : g.Drafted) (hid : id ∈ g.declaredPatterns) :
    id < g.lexicon.patterns.size := by
  obtain ⟨tp, e, he, rfl⟩ := mem_declaredPatterns.mp hid
  exact (hg.fresh.declared tp e he).1

/-- Without an error in the patterns, none that a token production declares matches the empty
text. -/
theorem matchesEmpty_eq_false {g : Grammar} (h : ∀ f ∈ g.patternErrors, f.message.isError = false)
    {e : TokenEntry} (he : e ∈ (g.lexicon.production tp).entries) :
    g.lexicon.matchesEmpty e.pattern = false := by
  by_contra hempty
  obtain ⟨subject, hmem⟩ := mem_tokenEntries.mpr ⟨tp, he⟩
  have herror := h _ (List.mem_append_right _ (List.mem_map_of_mem
    (List.mem_filter.mpr ⟨hmem, by simpa using hempty⟩)))
  cases herror

/-- The checks look at the patterns before any is named, when no reference matches anything. -/
theorem nullableWith_eq_false {g : Grammar} (hg : g.Drafted)
    (h : ∀ f ∈ g.patternErrors, f.message.isError = false) {e : TokenEntry}
    (he : e ∈ (g.lexicon.production tp).entries) {tree : Regex}
    (htree : (g.lexicon.pattern e.pattern).tree = some tree) :
    tree.nullableWith (fun _ => false) = false := by
  have hempty := matchesEmpty_eq_false h he
  rw [matchesEmpty, matchesEmptyWithin, htree] at hempty
  simpa only [namedToken, hg.namedTokens_eq, List.lookup_nil] using hempty

/-! ### The analysis -/

/-- What an analysis comes to: it ends after the checks, fails or ends where the lexer is built, or
has no error. -/
inductive Analyzed (g : Grammar) : Except Fault (Option Stage × Grammar) → Prop
  | checks : g.check.log.hasNoErrors = false → Analyzed g (.ok (some .checks, g.check))
  | fault {fault : Fault} : g.check.log.hasNoErrors →
      g.check.lexicon.build g.check.log = .error fault → Analyzed g (.error fault)
  | lexer {L : Lexicon} {log : Log} : g.check.log.hasNoErrors →
      g.check.lexicon.build g.check.log = .ok (L, log) → log.hasNoErrors = false →
      Analyzed g (.ok (some .lexer, { g.check with lexicon := L, log := log }))
  | done {L : Lexicon} {log : Log} : g.check.log.hasNoErrors →
      g.check.lexicon.build g.check.log = .ok (L, log) → log.hasNoErrors →
      Analyzed g (.ok (none, { g.check with lexicon := L.ensureLabels, log := log }))

/-- An analysis comes to one of its four ends. -/
theorem analyzed (g : Grammar) : g.Analyzed g.analyze := by
  rw [analyze]
  cases hsilent : g.check.log.hasNoErrors with
  | false =>
      simp only
      exact .checks hsilent
  | true =>
      simp only
      cases hbuild : g.check.lexicon.build g.check.log with
      | error fault => exact .fault hsilent hbuild
      | ok built =>
          obtain ⟨L, log⟩ := built
          cases hlog : log.hasNoErrors with
          | false =>
              simp only [bind, Except.bind, hlog]
              exact .lexer hsilent hbuild hlog
          | true =>
              simp only [bind, Except.bind, hlog]
              exact .done hsilent hbuild hlog

/-- An analysis without an error has checked the grammar and built the lexer. -/
theorem analyze_eq_ok {g g' : Grammar} (h : g.analyze = .ok (none, g')) :
    g.check.log.hasNoErrors ∧ ∃ L log, g.check.lexicon.build g.check.log = .ok (L, log) ∧
      g' = { g.check with lexicon := L.ensureLabels, log := log } := by
  have hanalyzed := analyzed g
  rw [h] at hanalyzed
  cases hanalyzed with
  | done hsilent hbuild _ => exact ⟨hsilent, _, _, hbuild, rfl⟩

end Grammar

end GrammarAnalysis
