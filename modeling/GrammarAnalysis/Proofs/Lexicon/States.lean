import GrammarAnalysis.Proofs.Automaton.Exactness
import GrammarAnalysis.Proofs.Lexicon.Tables

/-!
# The States of a Lexer

When a lexical state is built, the closures of its automaton are final before the first composite
state is made, and a state with moves is alone in its closure. So each closure of several states has
one composite, and the states that are left get the indices from 0 on without a gap.

## Main results

* `Lexicon.build_composites`: the composite states of a lexical state;
* `Lexicon.build_indices`: the indices of its states.
-/

namespace GrammarAnalysis

namespace Lexicon

open Automaton

variable {L L' : Lexicon} {patterns : List (Nat × Bool)} {A C : Automaton} {log log' : Log}

/-- After closing, the states of a closure have moves. -/
theorem Sprouted.hasMoves (h : L.Sprouted patterns A) (hC : A.closeAll = .ok C) (x y : Nat)
    (hy : C.Slips x y) : (C.state y).hasMoves := by
  have hmoves := closeAll_hasMoves (fun x => (h.plain x).2.1) (fun _ _ => h.slips_lt) h.mem_live
    hC hy
  rw [State.hasMoves, ((closeAll_tracks hC).state y).moves_eq]
  exact hmoves

/-- What a lexical state is built from: a closed automaton. -/
theorem exists_unnumbered_of_build (hL : L.Unbuilt) (h : L.build log = .ok (L', log')) {i : Nat}
    {S : LexicalState} (hS : L'.lexicalStates[i]? = some S) :
    ∃ C : Automaton, C.Unnumbered ∧ (∀ x y, C.Slips x y → (C.state y).hasMoves) ∧
      C.addComposites.assignIndices = S.automaton := by
  obtain ⟨states, s, hs, hbuild⟩ := exists_of_build h hS
  obtain ⟨A, hA, hprepare⟩ := sprouted_build (s := L.entered L.uses i s) (hL.state hs).1 hbuild
  obtain ⟨C, hC, hB⟩ := prepare_cases hprepare
  exact ⟨C, hA.unnumbered hC, hA.hasMoves hC, hB⟩

/-- **Composite states are canonical.** After a lexical state was built, each state whose closure
has several states is represented by a composite state with just these members; two such states
have the same one exactly if their closures are equal; and no two composites have the same
members. -/
theorem build_composites (hL : L.Unbuilt) (h : L.build log = .ok (L', log')) {i : Nat}
    {S : LexicalState} (hS : L'.lexicalStates[i]? = some S) : S.automaton.Interned := by
  obtain ⟨C, hC, -, hB⟩ := exists_unnumbered_of_build hL h hS
  rw [← hB]
  exact interned_of_unnumbered hC

/-- **The indices of the states.** After a lexical state was built, the live states have the indices
from 0 on, each used once, and no other state has one. The initial state comes first, then the other
composites, then states that need code for their moves, and last the members of those composites. -/
theorem build_indices (hL : L.Unbuilt) (h : L.build log = .ok (L', log')) {i : Nat}
    {S : LexicalState} (hS : L'.lexicalStates[i]? = some S) : S.automaton.Dense := by
  obtain ⟨C, hC, hmoves, hB⟩ := exists_unnumbered_of_build hL h hS
  rw [← hB]
  exact dense_of_unnumbered hC hmoves

/-- After the first letter of `a(b|cd)`, two letters are possible: two states have this closure,
and are represented by the same composite. -/
theorem build_composites_choice :
    let L := oneToken (.concat [.text "a", .choice [.text "b", .text "cd"]])
    L.Unbuilt ∧ ∃ L' log S, L.build {} = .ok (L', log) ∧ L'.lexicalStates[0]? = some S ∧
      (S.automaton.canonical 2 = 12 ∧ S.automaton.canonical 3 = 12 ∧
        (S.automaton.state 12).members = some (.ofList [5, 7])) ∧
      S.automaton.Interned := by
  intro L
  have htest : ((L.build {}).toOption.map fun built => decide ((built.1.lexicalStates[0]?).map
      (fun S => (S.automaton.canonical 2, S.automaton.canonical 3,
        (S.automaton.state 12).members)) = some (12, 12, some (.ofList [5, 7])))) = some true := by
    decide +kernel
  obtain ⟨⟨L', log⟩, hbuild, hstate⟩ := exists_eq_ok_of_decide htest
  obtain ⟨S, hS, hvalues⟩ := Option.map_eq_some_iff.mp hstate
  simp only [Prod.mk.injEq] at hvalues
  have hL := unbuilt_oneToken (.concat [.text "a", .choice [.text "b", .text "cd"]])
  exact ⟨hL, L', log, S, hbuild, hS, hvalues, build_composites hL hbuild hS⟩

/-- The five states of `a(b|cd)` that are left: the initial one, the composite after the first
letter, the state after `ac`, and the two members of the composite. -/
theorem build_indices_choice :
    let L := oneToken (.concat [.text "a", .choice [.text "b", .text "cd"]])
    L.Unbuilt ∧ ∃ L' log S, L.build {} = .ok (L', log) ∧ L'.lexicalStates[0]? = some S ∧
      (S.automaton.initial = 1 ∧ S.automaton.liveByIndex = [1, 12, 8, 5, 7]) ∧
      S.automaton.Dense := by
  intro L
  let indices : LexicalState → Nat × Bool × List (Option Nat) := fun S =>
    (S.automaton.initial, decide ([1, 12, 8, 5, 7].Perm S.automaton.live.toList),
      [1, 12, 8, 5, 7].map fun x => (S.automaton.state x).index)
  have htest : ((L.build {}).toOption.map fun built =>
      decide ((built.1.lexicalStates[0]?).map indices
        = some (1, true, (List.range 5).map some))) = some true := by decide +kernel
  obtain ⟨⟨L', log⟩, hbuild, hstate⟩ := exists_eq_ok_of_decide htest
  obtain ⟨S, hS, hvalues⟩ := Option.map_eq_some_iff.mp hstate
  simp only [indices, Prod.mk.injEq, decide_eq_true_eq] at hvalues
  obtain ⟨hinitial, hperm, hindex⟩ := hvalues
  have hL := unbuilt_oneToken (.concat [.text "a", .choice [.text "b", .text "cd"]])
  exact ⟨hL, L', log, S, hbuild, hS, ⟨hinitial, liveByIndex_eq hperm hindex⟩,
    build_indices hL hbuild hS⟩

end Lexicon

end GrammarAnalysis
