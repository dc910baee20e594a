import GrammarAnalysis.Automaton.Basic

/-!
# Closure

Closing a state replaces its immediate successors by all the states with moves that it reaches
without consuming anything, itself included, and lets it accept what one of the states on the
way accepts. Two different patterns cannot be accepted in this way by one state: that is a
fault.

States are closed depth first, and a state that is closed already, or is being closed, is not
entered again. The recursion is on a budget, which every entered state takes one from; the
number of states is enough.

## Main definitions

* `Automaton.inherit` — a state takes over what another accepts;
* `Automaton.closeWithin` — closes a state and those that it reaches;
* `Automaton.closeAll` — closes every live state, in the order of their creation.
-/

namespace GrammarAnalysis

namespace Automaton

/-- Lets state `id` accept what state `reached` accepts, if it accepts nothing yet. -/
def inherit (A : Automaton) (id reached : Nat) : Except Fault Automaton :=
  match (A.state id).accepts, (A.state reached).accepts with
  | none, p => .ok (A.modify id fun s => { s with accepts := p })
  | some _, none => .ok A
  | some p, some q => if p = q then .ok A else .error (.mergedAcceptance id p q)

/-- Adds `other` to the closure of state `id`. -/
def absorb (A : Automaton) (id other : Nat) : Automaton :=
  A.modify id fun s => { s with epsilon := s.epsilon.insert other }

/-- Completes the closure of state `id`: of the states reached, and itself, those with moves
are kept. -/
def settle (A : Automaton) (id : Nat) : Automaton :=
  A.modify id fun s =>
    { s with epsilon := (s.epsilon.insert id).filter fun other => (A.state other).hasMoves }

/-- Closes state `id`, unless it is closed, and the states that it reaches. -/
def closeWithin : (budget : Nat) → (id : Nat) → Automaton → Except Fault Automaton
  | 0, _, A => .ok A
  | budget + 1, id, A =>
    if (A.state id).closed then
      .ok A
    else do
      let A := A.modify id fun s => { s with closed := true }
      let A ← (A.state id).epsilon.toList.foldlM (fun A successor => do
        let A ← closeWithin budget successor A
        let A ← A.inherit id successor
        (A.state successor).epsilon.toList.foldlM (fun A other =>
          closeWithin budget other (A.absorb id other)) A) A
      return A.settle id

/-- Closes state `id` and the states that it reaches. -/
def close (A : Automaton) (id : Nat) : Except Fault Automaton :=
  closeWithin (A.size + 1) id A

/-- Closes the live states, in the order of their creation. -/
def closeAll (A : Automaton) : Except Fault Automaton :=
  A.live.toList.foldlM (fun A id => A.close id) A

end Automaton

end GrammarAnalysis
