import GrammarAnalysis.Proofs.Grammar.Settling
import GrammarAnalysis.Proofs.Lexicon.Merging

/-!
# Analyses That Merge Acceptances

The closure of an automaton is abandoned where it merges two acceptances. In the analysis of a
draft this happens in the initial state only, and only for two patterns of one lexical state that
are hollow: the checks have let them pass as patterns that do not match the empty text, and their
fragments match it nonetheless. Every other pattern that matches the empty text is an error of the
checks, which end the analysis.

## Main results

* `Grammar.resolved_check`: the names that the checks accept;
* `Grammar.hollow_of_declaresBlank`: only hollow patterns pass the checks and match the empty text;
* `Grammar.analyze_merges`: where the closure is abandoned.
-/

namespace GrammarAnalysis

namespace Grammar

open Lexicon

variable {g : Grammar} {id p q s : Nat}

/-- Without an error in the references, each name refers to a pattern or to an extra token. -/
theorem resolved_of_referenceErrors (h : ∀ f ∈ g.referenceErrors, f.message.isError = false) :
    g.lexicon.Resolved := by
  intro id tree name htree hname hnone
  by_contra hextra
  have hid : g.lexicon.patterns[id]? = some (g.lexicon.pattern id) := by
    have hlt := lt_size_of_tree htree
    rw [pattern, pattern?, Array.getElem?_eq_getElem hlt]
    rfl
  have hmem : name ∈ (g.lexicon.pattern id).references := by
    rw [Pattern.references, htree]
    exact hname.mem_references
  have herror := h (.error (.regex id) ("Undefined lexical token name \"" ++ name ++ "\"."))
    (List.mem_flatMap.mpr ⟨(g.lexicon.pattern id, id), ?_, List.mem_map_of_mem
      (List.mem_filterMap.mpr ⟨name, hmem, ?_⟩)⟩)
  · cases herror
  · rw [List.mem_zipIdx_iff_getElem?, Array.getElem?_toList]
    exact hid
  · rw [referenceError?, if_neg hextra, hnone]

/-- References that are resolved stay so when ordinals and entries change. -/
theorem resolved_of_registers {L L' : Lexicon} (h : L.Resolved) (hL : L.Registers L') :
    L'.Resolved := by
  intro id tree name htree hname hnone
  obtain ⟨o, hpattern⟩ := hL.pattern id
  rw [hpattern] at htree
  rw [namedToken, hL.namedTokens_eq] at hnone
  rw [hL.extraTokens_eq]
  exact h id tree name htree hname hnone

/-- After checks without an error, each name refers to a pattern or to an extra token. -/
theorem resolved_check (hsilent : g.check.log.hasNoErrors) : g.check.lexicon.Resolved := by
  obtain ⟨-, hcheck, -, -, hreferences, -⟩ := check_silent hsilent
  have hresolves := resolves_checkReferences g.tokensRegistered
  rw [← hcheck] at hresolves
  exact resolved_of_registers (resolved_of_referenceErrors hreferences) hresolves.registers

/-- **Only hollow patterns pass the checks and match the empty text.** -/
theorem hollow_of_declaresBlank (hg : g.Drafted) (hsilent : g.check.log.hasNoErrors) {i tp : Nat}
    (h : g.check.lexicon.DeclaresBlank i tp id) : g.check.lexicon.Hollow id := by
  obtain ⟨-, -, -, hpatterns, -, hloops⟩ := check_silent hsilent
  obtain ⟨names, gone, hnames, hsettled⟩ := check_settled hg hsilent
  have hregisters := hsettled.registers
  obtain ⟨⟨-, -, ⟨e, he, rfl⟩, -⟩, hblank⟩ := h
  -- a name refers to a pattern that the draft declares
  have hnamed : ∀ name target, g.check.lexicon.namedToken name = some target →
      target ∈ g.declaredPatterns := fun name target htarget => by
    rw [namedToken, hregisters.namedTokens_eq] at htarget
    exact hnames _ (Automaton.mem_of_lookup htarget)
  have hlt : ∀ name target, g.check.lexicon.namedToken name = some target →
      target < g.check.lexicon.patterns.size := fun name target htarget => by
    rw [hregisters.size_eq]
    exact hg.lt_size_of_declared (hnamed name target htarget)
  have hacc := acc_of_loops_eq_nil hlt hloops e.pattern (mem_declaredPatterns.mpr ⟨tp, e, he, rfl⟩)
  have hcheck : ∀ target tree, Relation.ReflTransGen g.check.lexicon.Mentions e.pattern target →
      (g.check.lexicon.pattern target).tree = some tree →
      tree.nullableWith (fun _ => false) = false := fun target tree hreach htree => by
    have hdeclared : target ∈ g.declaredPatterns := by
      rcases Relation.ReflTransGen.cases_tail hreach with rfl | ⟨x, -, name, -, hname⟩
      · exact mem_declaredPatterns.mpr ⟨tp, e, hsettled.mem_entries he, rfl⟩
      · exact hnamed name target hname
    obtain ⟨tp', e', he', rfl⟩ := mem_declaredPatterns.mp hdeclared
    obtain ⟨o, hpattern⟩ := hregisters.pattern e'.pattern
    rw [hpattern] at htree
    exact nullableWith_eq_false hg hpatterns he' htree
  by_contra hsolid
  obtain ⟨tree, htree, hexp, hnot⟩ := not_nullable (resolved_check hsilent) hacc hsolid hcheck
  exact hnot _ (hblank tree htree hexp)

/-- **Where an analysis merges acceptances**: in the initial state, for two patterns of one lexical
state that both match the empty word, and are both hollow. -/
theorem analyze_merges (hg : g.Drafted) (h : g.analyze = .error (.mergedAcceptance s p q)) :
    s = 0 ∧ p ≠ q ∧ g.check.lexicon.Hollow p ∧ g.check.lexicon.Hollow q ∧
      ∃ i, (∃ tp, g.check.lexicon.DeclaresBlank i tp p) ∧
        ∃ tp, g.check.lexicon.DeclaresBlank i tp q := by
  have hanalyzed := analyzed g
  rw [h] at hanalyzed
  cases hanalyzed with
  | fault hsilent hbuild =>
      obtain ⟨names, gone, -, hsettled⟩ := check_settled hg hsilent
      obtain ⟨hs, hne, i, ⟨tp, hp⟩, tp', hq⟩ :=
        build_merges (hsettled.unbuilt { hg.fresh with }) hbuild
      exact ⟨hs, hne, hollow_of_declaresBlank hg hsilent hp, hollow_of_declaresBlank hg hsilent hq,
        i, ⟨tp, hp⟩, tp', hq⟩

/-- A grammar of two tokens that are both the end of the input. -/
def twoEnds : Grammar :=
  { Grammar.new {} with
    lexicon :=
      { patterns := #[{ givenLabel := "EOF", ordinal := some 0, tree := some .endOfInput },
          { givenLabel := "A", tree := some .endOfInput, production := some 0 },
          { givenLabel := "B", tree := some .endOfInput, production := some 0 }]
        ordinals := #[0]
        tokenProductions := #[{ lexicalStates := [defaultLexicalState],
                                entries := [{ pattern := 1 }, { pattern := 2 }] }]
        lexicalStates := #[{ name := defaultLexicalState }] } }

/-- The builder makes `twoEnds`. -/
theorem drafted_twoEnds : twoEnds.Drafted :=
  (Drafted.new {}).addTokenProduction { lexicalStates := [defaultLexicalState] } rfl
    |>.addEntry 0 "A" false (some .endOfInput) rfl
    |>.addEntry 0 "B" false (some .endOfInput) rfl

/-- The analysis of `twoEnds` fails. -/
theorem twoEnds_fault : twoEnds.analyze = .error (.mergedAcceptance 0 1 2) := by
  have htest : (match twoEnds.analyze with
      | .error fault => some fault
      | .ok _ => none) = some (.mergedAcceptance 0 1 2) := by decide +kernel
  split at htest
  · rename_i fault hfault
    rw [hfault, Option.some.inj htest]
  · cases htest

/-- Both tokens are hollow. -/
theorem analyze_merges_twoEnds :
    twoEnds.Drafted ∧ twoEnds.analyze = .error (.mergedAcceptance 0 1 2) ∧
      0 = 0 ∧ 1 ≠ 2 ∧ twoEnds.check.lexicon.Hollow 1 ∧ twoEnds.check.lexicon.Hollow 2 ∧
      ∃ i, (∃ tp, twoEnds.check.lexicon.DeclaresBlank i tp 1) ∧
        ∃ tp, twoEnds.check.lexicon.DeclaresBlank i tp 2 :=
  ⟨drafted_twoEnds, twoEnds_fault, analyze_merges drafted_twoEnds twoEnds_fault⟩

/-- The checks find no error in the two tokens, and the analysis is abandoned where the closure of
the initial state merges them. -/
theorem analyze_twoEnds :
    twoEnds.Drafted ∧ twoEnds.check.log.hasNoErrors ∧
      twoEnds.analyze = .error (.mergedAcceptance 0 1 2) :=
  ⟨drafted_twoEnds, by decide +kernel, twoEnds_fault⟩

end Grammar

end GrammarAnalysis
