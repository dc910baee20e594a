/-!
# Range Tables

A character property is stored as the increasing list of the code point ranges that have it.
`RangeTable.contains` looks a code point up; the search stops at the first range that begins
after it, which is what makes the common case (a small code point) short.

## Main definitions

* `ascends` — a list of ranges is in order, which one pass over it finds out;
* `RangeTable` — a list of ranges that is in order.

## Main results

* `RangeTable.contains_eq_true_iff` — the search finds exactly the code points of the ranges.
-/

namespace GrammarAnalysis

/-- The ranges are non-empty, each ends before the next begins, and none begins before `bound`. -/
def ascends : (bound : Nat) → List (Nat × Nat) → Bool
  | _, [] => true
  | bound, (first, last) :: rest =>
    decide (bound ≤ first) && decide (first ≤ last) && ascends (last + 1) rest

/-- Inclusive ranges of code points, one after the other. -/
structure RangeTable where
  ranges : List (Nat × Nat)
  inOrder : ascends 0 ranges = true

/-- Looks a code point up in a list of ranges, giving up at the first one that begins after it. -/
def findRange : List (Nat × Nat) → Nat → Bool
  | [], _ => false
  | (first, last) :: rest, c =>
    if c < first then false else if c ≤ last then true else findRange rest c

/-- No range of an ascending list begins before the bound. -/
theorem le_of_ascends {bound : Nat} {l : List (Nat × Nat)} (h : ascends bound l = true) :
    ∀ r ∈ l, bound ≤ r.1 := by
  induction l generalizing bound with
  | nil => exact fun r hr => absurd hr List.not_mem_nil
  | cons r rest ih =>
    simp only [ascends, Bool.and_eq_true, decide_eq_true_eq] at h
    refine List.forall_mem_cons.mpr ⟨h.1.1, fun s hs => ?_⟩
    have := ih h.2 s hs
    omega

/-- What is found in an ascending list is in one of its ranges. -/
theorem findRange_iff {bound : Nat} {l : List (Nat × Nat)} (h : ascends bound l = true) (c : Nat) :
    findRange l c = true ↔ ∃ r ∈ l, r.1 ≤ c ∧ c ≤ r.2 := by
  induction l generalizing bound with
  | nil => simp [findRange]
  | cons r rest ih =>
    simp only [ascends, Bool.and_eq_true, decide_eq_true_eq] at h
    obtain ⟨⟨-, hr⟩, hrest⟩ := h
    have hafter := le_of_ascends hrest
    simp only [findRange]
    split
    · rename_i hlow
      simp only [List.mem_cons, Bool.false_eq_true, false_iff, not_exists, not_and]
      rintro s (rfl | hs) hle
      · omega
      · have := hafter s hs
        omega
    · split
      · exact iff_of_true rfl ⟨r, List.mem_cons_self, by omega, by omega⟩
      · rw [ih hrest]
        constructor
        · rintro ⟨s, hs, hb⟩
          exact ⟨s, List.mem_cons_of_mem r hs, hb⟩
        · rintro ⟨s, hs, hb⟩
          rcases List.mem_cons.mp hs with rfl | hs
          · omega
          · exact ⟨s, hs, hb⟩

namespace RangeTable

/-- Looks a code point up. -/
def contains (t : RangeTable) (c : Nat) : Bool := findRange t.ranges c

/-- **Lookup is membership** in one of the ranges. -/
theorem contains_eq_true_iff (t : RangeTable) (c : Nat) :
    t.contains c = true ↔ ∃ r ∈ t.ranges, r.1 ≤ c ∧ c ≤ r.2 :=
  findRange_iff t.inOrder c

end RangeTable

end GrammarAnalysis
