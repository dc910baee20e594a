import GrammarAnalysis.Automaton.Closure

/-!
# Canonical States and Indices

Once an automaton is closed, a state matters only through its closure: a state whose closure is
one state is replaced by that state, and one whose closure has several states by the composite
state of that set. There is one composite for each set.

The states that remain are then numbered for the tables of the generated lexer: the initial
state first, then the composites, then the states that need code of their own, and last the
members of the composites. A state that gets no number is dropped.

## Main definitions

* `Automaton.canonical` — the state that stands for a state;
* `Automaton.makeCanonical` — the same, with the composite created if there is none;
* `Automaton.addComposites`, `Automaton.assignIndices` — the two passes;
* `Automaton.prepare` — closure and both passes.
-/

namespace GrammarAnalysis

namespace Automaton

/-! ### Canonical states -/

/-- The state that stands for `id` in a closed automaton: itself, the only state of its
closure, or the composite of its closure. -/
def canonical (A : Automaton) (id : Nat) : Nat :=
  let s := A.state id
  if s.isComposite then id
  else match s.epsilon.toList with
    | [] => id
    | [only] => only
    | _ => (A.composites.lookup s.epsilon).getD id

/-- The composite state of a set, created if there is none yet. -/
def compositeOf (A : Automaton) (set : OrderedSet Nat) : Nat × Automaton :=
  match A.composites.lookup set with
  | some id => (id, A)
  | none =>
    let (id, A) := A.addState { members := some set }
    (id, { A with composites := (set, id) :: A.composites })

/-- The state that stands for `id`; its composite is created if there is none yet. -/
def makeCanonical (A : Automaton) (id : Nat) : Nat × Automaton :=
  let s := A.state id
  if s.isComposite || decide (s.epsilon.size ≤ 1) then (A.canonical id, A)
  else A.compositeOf s.epsilon

/-- Replaces a live state by the one that stands for it. -/
def replaceByCanonical (A : Automaton) (id : Nat) : Automaton :=
  let (target, A) := A.makeCanonical id
  if target = id then A
  else { A with live := (A.live.insert target).erase id }

/-- Replaces each live state by the one that stands for it. -/
def addComposites (A : Automaton) : Automaton :=
  A.live.toList.foldl replaceByCanonical A

/-! ### Indices -/

/-- The moves of the state need code: it is composite, or it is not represented by a composite
and leads to a state that accepts or goes on. -/
def needsMoveCode (A : Automaton) (id : Nat) : Bool :=
  let s := A.state id
  if s.isComposite then true
  else if (A.state (A.canonical id)).isComposite then false
  else match s.next with
    | none => false
    | some n => (A.state n).accepts.isSome || !(A.state n).epsilon.isEmpty

/-- The state has index 0. -/
def isFirst (A : Automaton) (id : Nat) : Bool := (A.state id).index == some 0

/-- Numbers the states of a list that satisfy a condition, from `counter` on. The result holds
the next number. -/
def number (eligible : Automaton → Nat → Bool) :
    List Nat → (counter : Nat) → Automaton → Nat × Automaton
  | [], counter, A => (counter, A)
  | id :: rest, counter, A =>
    if !A.isFirst id && eligible A id then
      number eligible rest (counter + 1) (A.modify id fun s => { s with index := some counter })
    else
      number eligible rest counter A

/-- The members of the composite states of a list, other than the first state. -/
def membersOf (A : Automaton) (ids : List Nat) : OrderedSet Nat :=
  ids.foldl (fun acc id =>
    if A.isFirst id then acc
    else match (A.state id).members with
      | some members => acc.union members
      | none => acc) ∅

/-- Replaces the initial state by its canonical form, which becomes the first state. -/
def settleInitial (A : Automaton) : Automaton :=
  let (first, A) := A.makeCanonical A.initial
  ({ A with initial := first } : Automaton).modify first fun s => { s with index := some 0 }

/-- Numbers the states, and drops those that get no number. -/
def assignIndices (A : Automaton) : Automaton :=
  let A := A.settleInitial
  let live := A.live.toList
  let inner := A.membersOf live
  let (counter, A) := number (fun A id => (A.state id).isComposite) live 1 A
  let (counter, A) := number (fun A id =>
    !(A.state id).isComposite && A.needsMoveCode id && !decide (id ∈ inner)) live counter A
  let (_, A) := number (fun _ _ => true) inner.toList counter A
  { A with live := A.live.filter fun id => (A.state id).index.isSome }

/-- Closes the automaton, then replaces and numbers its states. -/
def prepare (A : Automaton) : Except Fault Automaton := do
  let A ← A.closeAll
  return A.addComposites.assignIndices

/-! ### Views of a prepared automaton -/

/-- The index of the state that stands for the next state. -/
def nextIndex (A : Automaton) (id : Nat) : Option Nat :=
  (A.state id).next.bind fun n => (A.state (A.canonical n)).index

/-- The live states, by index. -/
def liveByIndex (A : Automaton) : List Nat :=
  A.live.toList.mergeSort fun s t => (compare (A.state s).index (A.state t).index).isLE

/-- A state has a move in common with one of the others, or is one of them. -/
def overlaps (A : Automaton) (id : Nat) (others : List Nat) : Bool :=
  others.any fun other => other == id || (A.state id).intersects (A.state other)

/-- The state at a position, if there is one. -/
def state? (A : Automaton) (id : Nat) : Except Fault State :=
  match A.states[id]? with
  | some s => .ok s
  | none => .error .index

/-- `overlaps` for positions where there may be no state. The others are tried in turn, and the
states are looked up only for one that is different from `id`. -/
def overlaps? (A : Automaton) (id : Nat) : List Nat → Except Fault Bool
  | [] => .ok false
  | other :: rest => do
    if other = id then return true
    let s ← A.state? id
    let t ← A.state? other
    if s.intersects t then return true else overlaps? A id rest

/-- The states that a state mentions. -/
def mentions (s : State) : List Nat :=
  s.next.toList ++ s.epsilon.toList ++ (match s.members with | some m => m.toList | none => [])

/-- The states mentioned, in any number of steps, by those of `frontier`, and those of `seen`. -/
def reachWithin (A : Automaton) : (budget : Nat) → (frontier : List Nat) → OrderedSet Nat →
    OrderedSet Nat
  | 0, _, seen => seen
  | budget + 1, frontier, seen =>
    let fresh := ((OrderedSet.ofList (frontier.flatMap fun id => mentions (A.state id))).filter
      fun id => decide (id ∉ seen)).toList
    if fresh.isEmpty then seen else reachWithin A budget fresh (seen.insertAll fresh)

/-- The live states, the initial state, and all the states that they mention, in the order of
their creation. -/
def relevant (A : Automaton) : List Nat :=
  let first := A.live.insert A.initial
  (A.reachWithin (A.size + 1) first.toList first).toList

end Automaton

end GrammarAnalysis
