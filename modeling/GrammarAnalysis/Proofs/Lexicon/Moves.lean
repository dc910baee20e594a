import GrammarAnalysis.Proofs.Automaton.Moves
import GrammarAnalysis.Proofs.Lexicon.Recognition

/-!
# The Moves of a Lexer

Each pattern of a lexical state adds states of its own, and gives each of them its moves once. So
after a lexical state was built, the moves of its states are in order, and they can be cut in two at
128 by a look at one range after the other.

## Main results

* `Lexicon.keepsOrder_expand`: the construction of a pattern keeps the moves in order;
* `Lexicon.inOrder_build`: the moves of a lexical state are in order;
* `Lexicon.build_moves_split`: they are, and the two parts are those below 128 and from 128 on.
-/

namespace GrammarAnalysis

namespace Lexicon

open Automaton CharSet

variable {L L' : Lexicon} {A B : Automaton} {log log' : Log}

/-- Wherever the expansion of a pattern stops, the moves are kept in order. -/
theorem keepsOrder_expand (L : Lexicon) (ignoreCase : Bool) (id : Nat) :
    Assembly.KeepsOrder (L.expand ignoreCase id) :=
  expandWithin_induction Assembly.keepsOrder_addPoint
    (fun tree _ hexpand => Regex.keepsOrder_assemble hexpand tree) _ [] id

/-- One more pattern is added. -/
theorem inOrder_addToAutomaton (hA : A.InOrder) {ignoreCase : Bool} {id : Nat}
    (hB : L.addToAutomaton ignoreCase id A = .ok B) : B.InOrder := by
  obtain ⟨⟨f, C⟩, hC, hB⟩ := exists_of_bind_eq_ok (x := L.expand ignoreCase id A) hB
  obtain rfl := Except.ok.inj hB
  have hexpanded : C.InOrder := L.keepsOrder_expand ignoreCase id A (f, C) hC hA
  have haccepts : (C.modify f.finish fun s => { s with accepts := some id }).InOrder :=
    hexpanded.modify fun _ hs => hs
  exact haccepts.addEpsilon C.initial f.start

/-- The automaton at the start has no moves that could be out of order. -/
theorem inOrder_start : Automaton.start.InOrder := fun x => by
  rw [state_start]
  exact .nil

/-- **After a lexical state was built**, the moves of its states are in order. -/
theorem inOrder_build {s S : LexicalState} (hs : s.automaton = .start) (h : s.build L = .ok S) :
    S.automaton.InOrder := by
  obtain ⟨A, hA, h⟩ := exists_of_bind_eq_ok h
  obtain ⟨B, hB, h⟩ := exists_of_bind_eq_ok h
  obtain rfl := Except.ok.inj h
  rw [hs] at hA
  have hunprepared := ((sprouted_start L).addAll hA).unprepared
  have horder : A.InOrder := (foldlM_induction (P := InOrder) (Q := fun _ _ => True)
    (fun _ _ _ _ hA hB => ⟨inOrder_addToAutomaton hA hB, trivial, fun _ h => h⟩)
    inOrder_start hA).1
  exact horder.prepare hunprepared hB

/-- **The moves of a lexical state.** After a lexical state was built, the moves of every state are
ranges in order that have nothing in common. They are cut in two: the characters below 128 among
them are those of the first part, and every range of the second part begins at 128 or above. The
first range tells whether there is a character below 128, and the last whether there is one of 128
or above. -/
theorem build_moves_split (hL : L.Unbuilt) (h : L.build log = .ok (L', log')) {i : Nat}
    {S : LexicalState} (hS : L'.lexicalStates[i]? = some S) (x : Nat) :
    let s := S.automaton.state x
    (∀ r ∈ s.moves, r.first ≤ r.last) ∧
      s.moves.Pairwise (fun r r' => r.last < r'.first) ∧
      s.asciiMoves ++ s.nonAsciiMoves = s.moves ∧
      (∀ c < 128, Covers s.moves c ↔ Covers s.asciiMoves c) ∧
      (∀ r ∈ s.nonAsciiMoves, 128 ≤ r.first) ∧
      (s.hasAsciiMoves = true ↔ ∃ c < 128, Covers s.moves c) ∧
      (s.hasNonAsciiMoves = true ↔ ∃ c, 128 ≤ c ∧ Covers s.moves c) := by
  intro s
  obtain ⟨states, s₀, hs₀, hbuild⟩ := exists_of_build h hS
  have horder : s.moves.Pairwise CharRange.Precedes :=
    inOrder_build (s := L.entered L.uses i s₀) (hL.state hs₀).1 hbuild x
  exact ⟨fun r _ => r.first_le_last, horder, s.asciiMoves_append_nonAsciiMoves,
    fun c hc => State.covers_asciiMoves_iff horder hc,
    fun r hr => State.le_first_of_mem_nonAsciiMoves horder hr,
    State.hasAsciiMoves_iff horder, State.hasNonAsciiMoves_iff horder⟩

/-- A lexicon in which case is ignored, with one token: a character other than the letters `a` to
`z`, or a letter of which there are a capital and a small form, and which is neither. -/
def titleLexicon : Lexicon :=
  { oneToken (.choice [.chars (ofBounds [(0x61, 0x7A)]) true, .text "\u01C5"]) with
    ignoreCase := true }

/-- The complement has a range that goes from below 128 to the end of the code space, so all its
ranges are in the first part, and yet there are characters of 128 or above. The three forms of the
letter are in order, and all in the second part. -/
theorem build_moves_split_title :
    titleLexicon.Unbuilt ∧ ∃ L' log S, titleLexicon.build {} = .ok (L', log) ∧
      L'.lexicalStates[0]? = some S ∧
      ((S.automaton.state 3).asciiMoves.map (fun r => (r.first, r.last))
          = [(0, 0x40), (0x5B, 0x60), (0x7B, 0x10FFFF)] ∧
        ∃ c, 128 ≤ c ∧ Covers (S.automaton.state 3).moves c) ∧
      (S.automaton.state 5).nonAsciiMoves.map (fun r => (r.first, r.last))
          = [(0x1C4, 0x1C4), (0x1C5, 0x1C5), (0x1C6, 0x1C6)] ∧
        ¬ ∃ c < 128, Covers (S.automaton.state 5).moves c := by
  have htest : ((titleLexicon.build {}).toOption.map fun built => decide
      ((built.1.lexicalStates[0]?).map (fun S =>
        ([(S.automaton.state 3).asciiMoves.map (fun r => (r.first, r.last)),
            (S.automaton.state 5).nonAsciiMoves.map (fun r => (r.first, r.last))],
          [(S.automaton.state 3).hasNonAsciiMoves, (S.automaton.state 5).hasAsciiMoves]))
        = some ([[(0, 0x40), (0x5B, 0x60), (0x7B, 0x10FFFF)],
            [(0x1C4, 0x1C4), (0x1C5, 0x1C5), (0x1C6, 0x1C6)]], [true, false]))) = some true := by
    decide +kernel
  obtain ⟨⟨L', log⟩, hbuild, hstate⟩ := exists_eq_ok_of_decide htest
  obtain ⟨S, hS, hvalues⟩ := Option.map_eq_some_iff.mp hstate
  simp only [Prod.mk.injEq, List.cons.injEq] at hvalues
  obtain ⟨⟨hfirst, hsecond, -⟩, hbeyond, hbelow, -⟩ := hvalues
  have hL : titleLexicon.Unbuilt := unbuilt_oneToken (.choice [])
  obtain ⟨-, -, -, -, -, -, hs⟩ := build_moves_split hL hbuild hS 3
  obtain ⟨-, -, -, -, -, ht, -⟩ := build_moves_split hL hbuild hS 5
  refine ⟨hL, L', log, S, hbuild, hS, ⟨hfirst, hs.mp hbeyond⟩, hsecond, fun hc => ?_⟩
  rw [ht.mpr hc] at hbelow
  cases hbelow

end Lexicon

end GrammarAnalysis
