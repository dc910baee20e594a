import GrammarAnalysis.CharSet

/-!
# Automata

The automaton of a lexical state is an array of states, identified by their positions. A state
consumes a code point of its `moves` to go to `next`, or goes to a state of `epsilon` without
consuming anything. States are only ever added.

Some states are *composite*: such a state stands for a set of other states, its `members`, and
has no moves of its own.

## Main definitions

* `State`, `Automaton` — states, and the automaton that they make up;
* `Automaton.addState`, `addEpsilon`, `modify` — how an automaton grows;
* `Automaton.enters` — what a state does on a code point.
-/

namespace GrammarAnalysis

/-- A state of the automaton of a lexical state. -/
structure State where
  /-- The code points that lead to `next`, as increasing ranges. -/
  moves : List CharRange := []
  /-- The state after a move. -/
  next : Option Nat := none
  /-- The states reached without consuming anything. Once the state is closed, the states with
  moves that are reached in any number of such steps. -/
  epsilon : OrderedSet Nat := ∅
  /-- The pattern that is matched when this state is reached. -/
  accepts : Option Nat := none
  /-- The position of the state in the tables of the generated lexer. -/
  index : Option Nat := none
  /-- The closure of the state has been computed, or is being computed. -/
  closed : Bool := false
  /-- The states that a composite state stands for. -/
  members : Option (OrderedSet Nat) := none
deriving Repr, Inhabited

namespace State

/-- The state stands for a set of other states. -/
def isComposite (s : State) : Bool := s.members.isSome

/-- The state can consume a code point. -/
def hasMoves (s : State) : Bool := !s.moves.isEmpty

/-- The code point is one of the moves. -/
def consumes (s : State) (c : Nat) : Bool := s.moves.any (·.contains c)

/-- The leading moves that begin below 128, up to the first that goes beyond. -/
def asciiMoves (s : State) : List CharRange := go s.moves
where
  go : List CharRange → List CharRange
    | [] => []
    | r :: rest => if 128 ≤ r.first then [] else if 128 ≤ r.last then [r] else r :: go rest

/-- The moves after the ASCII moves. -/
def nonAsciiMoves (s : State) : List CharRange := s.moves.drop s.asciiMoves.length

/-- The first move begins below 128. -/
def hasAsciiMoves (s : State) : Bool := s.moves.head?.any (·.first < 128)

/-- The last move ends at 128 or above. -/
def hasNonAsciiMoves (s : State) : Bool := s.moves.getLast?.any (128 ≤ ·.last)

/-- Two states have a move in common. -/
def intersects (s t : State) : Bool := s.moves.any fun r => t.moves.any (r.intersects ·)

/-- The ASCII moves and the other moves are all the moves. -/
theorem asciiMoves_append_nonAsciiMoves (s : State) :
    s.asciiMoves ++ s.nonAsciiMoves = s.moves := by
  have h : ∀ l : List CharRange, asciiMoves.go l ++ l.drop (asciiMoves.go l).length = l := by
    intro l
    induction l with
    | nil => rfl
    | cons r rest ih =>
      simp only [asciiMoves.go]
      split
      · rfl
      · split
        · rfl
        · simpa using ih
  exact h s.moves

/-- The numbers of a set of states, between braces. -/
def renderIds (s : OrderedSet Nat) : String :=
  "\x7b" ++ ", ".intercalate (s.toList.map toString) ++ "\x7d"

/-- The text of a state: its members if it is composite, and otherwise its moves and the states
that it leads to; then the pattern that it accepts. -/
def render (s : State) : String :=
  let transitions := match s.members with
    | some members => "composite " ++ renderIds members
    | none =>
      ", ".intercalate (s.moves.map (·.render))
        ++ (match s.next with | some n => " -> " ++ toString n | none => "")
        ++ (if s.epsilon.isEmpty then "" else ", eps " ++ renderIds s.epsilon)
  transitions ++ (match s.accepts with | some p => " <regex " ++ toString p ++ ">" | none => "")

end State

/-- The automaton of a lexical state. -/
structure Automaton where
  /-- All the states, in the order of their creation. -/
  states : Array State := #[{}]
  /-- The states that have not been replaced by another. -/
  live : OrderedSet Nat := .singleton 0
  /-- The state to begin in. -/
  initial : Nat := 0
  /-- The composite states, with the sets that they stand for. -/
  composites : List (OrderedSet Nat × Nat) := []
deriving Repr

namespace Automaton

/-- An automaton of one state. -/
def start : Automaton := {}

instance : Inhabited Automaton := ⟨start⟩

/-- The number of states, replaced ones included. -/
def size (A : Automaton) : Nat := A.states.size

/-- The state at a position. -/
def state (A : Automaton) (id : Nat) : State := (A.states[id]?).getD {}

/-- Adds a state, which gets the next position. -/
def addState (A : Automaton) (s : State) : Nat × Automaton :=
  (A.size, { A with states := A.states.push s, live := A.live.insert A.size })

/-- Changes a state. -/
def modify (A : Automaton) (id : Nat) (f : State → State) : Automaton :=
  { A with states := A.states.modify id f }

/-- Lets a state go to another without consuming anything. -/
def addEpsilon (A : Automaton) (source target : Nat) : Automaton :=
  A.modify source fun s => { s with epsilon := s.epsilon.insert target }

/-- The number of states that have not been replaced. -/
def liveCount (A : Automaton) : Nat := A.live.size

/-- The state that a state goes to on a code point. -/
def enters (A : Automaton) (id c : Nat) : Option Nat :=
  if (A.state id).consumes c then (A.state id).next else none

@[simp] theorem addState_fst (A : Automaton) (s : State) : (A.addState s).1 = A.size := rfl

/-- A new state is one more state. -/
@[simp] theorem size_addState (A : Automaton) (s : State) :
    (A.addState s).2.size = A.size + 1 := by
  simp [addState, size]

/-- Changing a state adds none. -/
@[simp] theorem size_modify (A : Automaton) (id : Nat) (f : State → State) :
    (A.modify id f).size = A.size := by
  simp [modify, size]

/-- An edge adds no state. -/
@[simp] theorem size_addEpsilon (A : Automaton) (source target : Nat) :
    (A.addEpsilon source target).size = A.size := by
  simp [addEpsilon]

/-- A position where there is nothing has a state that does nothing. -/
theorem state_of_size_le {A : Automaton} {x : Nat} (hx : A.size ≤ x) : A.state x = {} := by
  rw [state, Array.getElem?_eq_none hx]
  rfl

/-- A new state is seen at its position only. -/
theorem state_addState (A : Automaton) (s : State) (x : Nat) :
    (A.addState s).2.state x = if x = A.size then s else A.state x := by
  simp only [state, addState, size, Array.getElem?_push]
  by_cases h : x = A.states.size <;> simp [h]

/-- A change is seen at its position only. -/
theorem state_modify (A : Automaton) (i j : Nat) (f : State → State) :
    (A.modify i f).state j = if i = j ∧ j < A.size then f (A.state j) else A.state j := by
  simp only [state, modify, size, Array.getElem?_modify]
  by_cases h : i = j
  · subst h
    by_cases hj : i < A.states.size
    · simp [hj]
    · simp [hj]
  · simp [h]

end Automaton

end GrammarAnalysis
