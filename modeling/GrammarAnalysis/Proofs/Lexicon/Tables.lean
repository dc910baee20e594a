import GrammarAnalysis.Proofs.Automaton.Tables
import GrammarAnalysis.Proofs.Lexicon.Recognition

/-!
# The Tables of a Lexer

The automaton of the patterns of a lexical state keeps moves and steps that consume nothing apart:
no state has both. So a state with moves is alone in its closure, and the tables of the lexical
state lose nothing.

## Main results

* `Lexicon.Sprouted.unnumbered`: what closing the automaton of a lexical state leads to;
* `Lexicon.build_acceptsByTables`: the run through the tables of a lexical state accepts what the
  run through the closures does.
-/

namespace GrammarAnalysis

namespace Lexicon

open Automaton

variable {L : Lexicon} {patterns : List (Nat × Bool)} {A C : Automaton}

/-- A state either consumes code points or goes on without. -/
theorem Sprouted.apart (h : L.Sprouted patterns A) {x : Nat} (hmoves : (A.state x).hasMoves)
    (y : Nat) : ¬ A.Slips x y := by
  intro hy
  rcases Nat.eq_zero_or_pos x with rfl | hpos
  · rw [State.hasMoves, h.root.1] at hmoves
    cases hmoves
  · obtain ⟨p, -, lo, hi, f, hf, hlo, hhi⟩ := h.covered x hpos (lt_size_of_hasMoves hmoves)
    by_cases hx : x = f.finish
    · rw [hx, hf.finish_eq] at hmoves
      cases hmoves
    · obtain ⟨ℓ, hℓ⟩ := hf.embeds
      exact (hℓ.stays hlo hhi hx).apart hmoves y hy

/-- The states that a state goes to are states of the automaton. -/
theorem Sprouted.slips_lt (h : L.Sprouted patterns A) {x y : Nat} (hy : A.Slips x y) :
    y < A.size := by
  rcases Nat.eq_zero_or_pos x with rfl | hpos
  · exact h.reaches_lt (.single hy)
  · obtain ⟨p, -, lo, hi, f, hf, hlo, hhi⟩ := h.covered x hpos hy.lt_size
    exact Nat.lt_of_lt_of_le ((hf.stays hlo hhi).1 y hy).2 hf.le_size

/-- The moves of planted patterns lead to states of the automaton. -/
theorem Sprouted.enters_lt (h : L.Sprouted patterns A) {x c y : Nat}
    (hy : A.enters x c = some y) : y < A.size := by
  rcases Nat.eq_zero_or_pos x with rfl | hpos
  · rw [enters, State.consumes, h.root.1] at hy
    cases hy
  · obtain ⟨p, -, lo, hi, f, hf, hlo, hhi⟩ := h.covered x hpos (lt_size_of_enters hy)
    exact Nat.lt_of_lt_of_le ((hf.stays hlo hhi).2 c y hy).2 hf.le_size

/-- A state with moves is alone in its closure: it goes nowhere without consuming a code point. -/
theorem Sprouted.alone (h : L.Sprouted patterns A) (hC : A.closeAll = .ok C) {x : Nat}
    (hmoves : (A.state x).hasMoves) : (C.state x).epsilon = .singleton x := by
  have hreaches : ∀ y, A.Reaches x y → y = x := fun y hy => by
    rcases Relation.ReflTransGen.cases_head hy with heq | ⟨z, hz, -⟩
    · exact heq.symm
    · exact absurd hz (h.apart hmoves z)
  have hlt := lt_size_of_hasMoves hmoves
  have huntangled : A.Untangled fun y => y = x :=
    { lt_size := fun y hy => hy ▸ hlt
      slips := fun y z hy hz => absurd hz (h.apart (hy ▸ hmoves) z)
      antisymm := fun y z hy hz _ => by
        rw [hy] at hz ⊢
        exact hreaches z hz }
  have hgathers := closeAll_gathers huntangled h.unprepared.unclosed hC x (h.mem_live x hlt) hlt
  refine OrderedSet.ext fun y => ?_
  rw [OrderedSet.mem_singleton]
  constructor
  · exact fun hy => hreaches y (((closeAll_tracks hC).state x).slips y hy)
  · rintro rfl
    exact hgathers.self hmoves

/-- The closed automaton of a lexical state is ready for its states to be replaced and numbered. -/
theorem Sprouted.unnumbered (h : L.Sprouted patterns A) (hC : A.closeAll = .ok C) :
    C.Unnumbered := by
  have htracks := closeAll_tracks hC
  have hmoves : ∀ x, (C.state x).hasMoves = (A.state x).hasMoves := fun x => by
    rw [State.hasMoves, State.hasMoves, (htracks.state x).moves_eq]
  refine ⟨htracks.composites_eq.trans h.composites_eq,
    fun x => (htracks.state x).members_eq.trans (h.plain x).1,
    fun x => (htracks.state x).index_eq.trans (h.plain x).2.2, fun x hx => ?_, ?_,
    fun x y hy => ?_, fun x c y hy => ?_, fun x hx => h.alone hC (by rwa [← hmoves])⟩
  · rw [htracks.live_eq]
    exact h.mem_live x (htracks.size_eq ▸ hx)
  · rw [htracks.initial_eq, h.initial_eq, htracks.size_eq]
    exact h.size_pos
  · rcases Relation.ReflTransGen.cases_tail ((htracks.state x).slips y hy) with rfl | ⟨z, -, hz⟩
    · exact hy.lt_size
    · exact htracks.size_eq ▸ h.slips_lt hz
  · rw [htracks.enters_eq] at hy
    rw [htracks.size_eq]
    exact h.enters_lt hy

section Build

variable {L' : Lexicon} {log log' : Log}

/-- **The tables of a lexical state lose nothing.** The run of the generated lexer begins in the
state with index 0 and goes on in states with an index only. It accepts the same words with the
same patterns as the run through the closures from the initial state of the automaton on, as that
was before the lexical state was built. -/
theorem build_acceptsByTables (hL : L.Unbuilt) (h : L.build log = .ok (L', log')) {i : Nat}
    {S : LexicalState} (hS : L'.lexicalStates[i]? = some S) :
    (∀ x, (S.automaton.state x).index = some 0 ↔ x = S.automaton.initial) ∧
      ∃ s, L.lexicalStates[i]? = some s ∧ ∀ pattern w,
        S.automaton.acceptsByTables pattern w
          = S.automaton.acceptsFrom s.automaton.initial pattern w := by
  obtain ⟨states, s, hs, hbuild⟩ := exists_of_build h hS
  have hstart := (hL s (List.mem_of_getElem? (by rwa [Array.getElem?_toList]))).1
  obtain ⟨A, hA, hprepare⟩ := sprouted_build (s := L.entered L.uses i s) hstart hbuild
  obtain ⟨C, hC, hB⟩ := prepare_cases hprepare
  obtain ⟨hfirst, hruns⟩ := acceptsByTables_eq (hA.unnumbered hC) hB
  refine ⟨hfirst, s, hs, fun pattern w => ?_⟩
  rw [hruns, (closeAll_tracks hC).initial_eq, hA.initial_eq, hstart]
  rfl

end Build

/-- The tables of the token `ab | a` accept the text `ab`: the run begins in a composite state. -/
theorem build_acceptsByTables_choice :
    let L := oneToken (.choice [.text "ab", .text "a"])
    L.Unbuilt ∧ ∃ L' log S, L.build {} = .ok (L', log) ∧ L'.lexicalStates[0]? = some S ∧
      S.automaton.acceptsByTables 1 [97, 98] ∧
      (∀ x, (S.automaton.state x).index = some 0 ↔ x = S.automaton.initial) ∧
      ∃ s, L.lexicalStates[0]? = some s ∧ ∀ pattern w,
        S.automaton.acceptsByTables pattern w
          = S.automaton.acceptsFrom s.automaton.initial pattern w := by
  intro L
  have htest : ((L.build {}).toOption.map fun built => decide ((built.1.lexicalStates[0]?).map
      (·.automaton.acceptsByTables 1 [97, 98]) = some true)) = some true := by decide +kernel
  obtain ⟨⟨L', log⟩, hbuild, hstate⟩ := exists_eq_ok_of_decide htest
  obtain ⟨S, hS, haccepts⟩ := Option.map_eq_some_iff.mp hstate
  have hL := unbuilt_oneToken (.choice [.text "ab", .text "a"])
  exact ⟨hL, L', log, S, hbuild, hS, haccepts, build_acceptsByTables hL hbuild hS⟩

end Lexicon

end GrammarAnalysis
