import GrammarAnalysis.Text.CaseTable

/-!
# Case Mapping

Two mappings are derived from the case data. The *simple* mappings `simpleUpper` and
`simpleLower` send a code point to another single code point; they are undefined when the code
point is its own image and when its image has several code points. The *full* mapping
`upperText` is defined on every text and may lengthen it.

The simple mappings are also available as finite lists of pairs (`upperPairs`, `lowerPairs`),
so that a set of code points can be closed under them without trying every code point.

## Main results

* `CaseRun.mem_pairs_iff` — the pairs of a well-formed run are exactly the graph of its map;
* `simpleUpper_mem`, `simpleLower_mem` — the simple mappings stay within their lists of pairs.
-/

namespace GrammarAnalysis

namespace CaseRun

/-- The image of `c`, when the run moves `c`. -/
def image? (r : CaseRun) (c : Nat) : Option Nat :=
  if r.first ≤ c ∧ c ≤ r.last ∧ (c - r.first) % r.step = 0 then
    some (r.image + (c - r.first))
  else
    none

/-- Each code point of the run, with its image. -/
def pairs (r : CaseRun) : List (Nat × Nat) :=
  (List.range ((r.last - r.first) / r.step + 1)).map fun k =>
    (r.first + r.step * k, r.image + r.step * k)

/-- The progression is not empty, and advances. -/
def WellFormed (r : CaseRun) : Prop :=
  r.first ≤ r.last ∧ 0 < r.step

instance (r : CaseRun) : Decidable r.WellFormed :=
  inferInstanceAs (Decidable (_ ∧ _))

/-- **The pairs are the graph of the map.** -/
theorem mem_pairs_iff {r : CaseRun} (h : r.WellFormed) (c d : Nat) :
    (c, d) ∈ r.pairs ↔ r.image? c = some d := by
  obtain ⟨hle, hpos⟩ := h
  simp only [pairs, image?, List.mem_map, List.mem_range, Prod.mk.injEq,
    Option.ite_none_right_eq_some, Option.some.injEq]
  constructor
  · rintro ⟨k, hk, rfl, rfl⟩
    have hk' : r.step * k ≤ r.last - r.first := by
      have := Nat.mul_le_of_le_div r.step k (r.last - r.first) (by omega)
      rwa [Nat.mul_comm] at this
    refine ⟨⟨by omega, by omega, ?_⟩, by omega⟩
    rw [Nat.add_sub_cancel_left, Nat.mul_mod_right]
  · rintro ⟨⟨h1, h2, h3⟩, rfl⟩
    refine ⟨(c - r.first) / r.step, ?_, ?_, ?_⟩
    · have := Nat.div_le_div_right (c := r.step) (show c - r.first ≤ r.last - r.first by omega)
      omega
    · rw [Nat.mul_div_cancel' (Nat.dvd_of_mod_eq_zero h3)]; omega
    · rw [Nat.mul_div_cancel' (Nat.dvd_of_mod_eq_zero h3)]

end CaseRun

namespace CaseMap

/-- The upper-case form of a code point, if it is one code point and a different one. -/
def simpleUpper (c : Nat) : Option Nat :=
  CaseTable.upperRuns.findSome? (·.image? c)

/-- The lower-case form of a code point, if it is one code point and a different one. -/
def simpleLower (c : Nat) : Option Nat :=
  CaseTable.lowerRuns.findSome? (·.image? c)

/-- The code points that have a simple upper-case form, with that form. -/
def upperPairs : List (Nat × Nat) :=
  CaseTable.upperRuns.flatMap CaseRun.pairs

/-- The code points that have a simple lower-case form, with that form. -/
def lowerPairs : List (Nat × Nat) :=
  CaseTable.lowerRuns.flatMap CaseRun.pairs

/-- The full upper-case form of a code point. -/
def fullUpper (c : Nat) : List Nat :=
  match CaseTable.upperExpansions.lookup c with
  | some image => image
  | none => [(simpleUpper c).getD c]

/-- The full upper-case form of a text, character by character. -/
def upperText (s : String) : String :=
  String.ofList (s.toList.flatMap fun c => (fullUpper c.toNat).map Char.ofNat)

/-! ### The mappings and their lists of pairs -/

/-- Every run of the upper-case data is well formed. -/
theorem upperRuns_wellFormed : ∀ r ∈ CaseTable.upperRuns, r.WellFormed := by
  decide +kernel

/-- Every run of the lower-case data is well formed. -/
theorem lowerRuns_wellFormed : ∀ r ∈ CaseTable.lowerRuns, r.WellFormed := by
  decide +kernel

/-- A simple upper-case form is listed. -/
theorem simpleUpper_mem {c d : Nat} (h : simpleUpper c = some d) : (c, d) ∈ upperPairs := by
  obtain ⟨r, hr, hc⟩ := List.exists_of_findSome?_eq_some h
  exact List.mem_flatMap.mpr ⟨r, hr, (CaseRun.mem_pairs_iff (upperRuns_wellFormed r hr) c d).mpr hc⟩

/-- A simple lower-case form is listed. -/
theorem simpleLower_mem {c d : Nat} (h : simpleLower c = some d) : (c, d) ∈ lowerPairs := by
  obtain ⟨r, hr, hc⟩ := List.exists_of_findSome?_eq_some h
  exact List.mem_flatMap.mpr ⟨r, hr, (CaseRun.mem_pairs_iff (lowerRuns_wellFormed r hr) c d).mpr hc⟩

end CaseMap

end GrammarAnalysis
