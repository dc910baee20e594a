/-!
# Faults

A fault ends the computation that meets it: the request was not one that the analysis can
answer. A fault is different from a diagnostic of the analyzed grammar, which is recorded in
the log and leaves the analysis running.
-/

namespace GrammarAnalysis

/-- Why a computation had to be abandoned. -/
inductive Fault where
  /-- An identifier or an ordinal refers to nothing, or a repetition has no operand. -/
  | index
  /-- A number is beyond its range: the successor of the end of a code point range, or a token count
  that is rounded up to whole words. -/
  | overflow
  /-- A lookahead was given to an expansion that is not a sequence. -/
  | lookaheadOffSequence
  /-- The ordinal of a composite automaton state was requested. -/
  | compositeOrdinal
  /-- The closure of automaton state `state` reaches two different accepting expressions: `own`
  is the one that the state accepts already, `reached` the one found next. -/
  | mergedAcceptance (state own reached : Nat)
deriving DecidableEq, Repr

/-- The condition that was violated, for the faults that state one. -/
def Fault.message? : Fault → Option String
  | .index | .overflow => none
  | .lookaheadOffSequence => some "a lookahead can only be attached to a sequence"
  | .compositeOrdinal => some "a composite state has no ordinal"
  | .mergedAcceptance state own reached =>
    some s!"epsilon closure of state {state} merges two accepting types: Some({own}) and Some({reached})"

/-- A computation in two steps succeeds if both do. -/
theorem exists_of_bind_eq_ok {α β : Type} {x : Except Fault α} {f : α → Except Fault β} {b : β}
    (h : (x >>= f) = .ok b) : ∃ a, x = .ok a ∧ f a = .ok b := by
  cases x with
  | error e => cases h
  | ok a => exact ⟨a, rfl, h⟩

end GrammarAnalysis
