/-!
# Guarded Answers

A question about a non-terminal is answered through the production that it refers to, which may
lead back to the same non-terminal. Such a walk carries the non-terminals that it is inside of;
where it meets one of them again, it does not enter it, but goes on with a fallback value. An
answer that was found in this way is *cut*: it can depend on where the walk began, so it is not
kept for later.

## Main definitions

* `Guarded` — an answer, and whether it is cut;
* `Guarded.all`, `Guarded.any` — the first failure, or success, in a list decides.

## Main results

* `Guarded.value_all`, `Guarded.value_any` — the answers are those of `List.all` and `List.any`.
-/

namespace GrammarAnalysis

/-- An answer, and whether a guard was met in finding it. -/
structure Guarded (α : Type) where
  value : α
  cut : Bool := false
deriving Repr, DecidableEq

namespace Guarded

instance {α : Type} [Inhabited α] : Inhabited (Guarded α) := ⟨⟨default, false⟩⟩

/-- The fallback value at a guard. -/
def fallback {α : Type} (a : α) : Guarded α := ⟨a, true⟩

instance : Monad Guarded where
  pure a := ⟨a, false⟩
  bind x f :=
    let y := f x.value
    ⟨y.value, x.cut || y.cut⟩

variable {α β : Type}

@[simp] theorem value_pure (a : α) : (pure a : Guarded α).value = a := rfl

@[simp] theorem value_bind (x : Guarded α) (f : α → Guarded β) :
    (x >>= f).value = (f x.value).value := rfl

/-- Every element satisfies the condition; the elements after the first failure do not count. -/
def all (p : α → Guarded Bool) : List α → Guarded Bool
  | [] => pure true
  | a :: rest => do if ← p a then all p rest else pure false

/-- Some element satisfies the condition; the elements after the first success do not count. -/
def any (p : α → Guarded Bool) : List α → Guarded Bool
  | [] => pure false
  | a :: rest => do if ← p a then pure true else any p rest

/-- Whether a guarded condition holds of all elements, but for the cuts, is asked as without
guards. -/
theorem value_all (p : α → Guarded Bool) (l : List α) :
    (all p l).value = l.all fun a => (p a).value := by
  induction l with
  | nil => rfl
  | cons a rest ih =>
    simp only [all, value_bind, List.all_cons]
    cases (p a).value <;> simp [ih]

/-- Whether a guarded condition holds of some element, but for the cuts, is asked as without
guards. -/
theorem value_any (p : α → Guarded Bool) (l : List α) :
    (any p l).value = l.any fun a => (p a).value := by
  induction l with
  | nil => rfl
  | cons a rest ih =>
    simp only [any, value_bind, List.any_cons]
    cases (p a).value <;> simp [ih]

end Guarded

end GrammarAnalysis
