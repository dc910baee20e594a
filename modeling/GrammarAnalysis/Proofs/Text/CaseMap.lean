import GrammarAnalysis.Text.CaseMap
import Mathlib.Data.List.Chain

/-!
# The Simple Case Maps as Lists of Pairs

The simple case maps look for the first run that moves a code point, and the lists of pairs have
the pairs of all runs. As the runs come one after another, no code point is in two of them, so the
lists are the graphs of the maps. No run maps a code point to itself.

## Main results

* `CaseMap.mem_upperPairs_iff`, `CaseMap.mem_lowerPairs_iff`: the lists are the graphs of the
  maps;
* `CaseMap.simpleUpper_ne`, `CaseMap.simpleLower_ne`: the maps have no fixed point.
-/

namespace GrammarAnalysis

namespace CaseRun

/-- The run ends before another one begins, which is not empty. -/
def Before (r s : CaseRun) : Prop := r.last < s.first ∧ s.first ≤ s.last

instance (r s : CaseRun) : Decidable (r.Before s) := inferInstanceAs (Decidable (_ ∧ _))

instance : Trans Before Before Before where
  trans h h' := ⟨Nat.lt_trans h.1 (Nat.lt_of_le_of_lt h.2 h'.1), h'.2⟩

variable {runs : List CaseRun} {r : CaseRun} {c d : Nat}

/-- A run moves the code points between its ends only. -/
theorem bounds_of_image?_eq_some (h : r.image? c = some d) : r.first ≤ c ∧ c ≤ r.last := by
  rw [image?, Option.ite_none_right_eq_some] at h
  exact ⟨h.1.1, h.1.2.1⟩

/-- Of runs that come one after another, the first one that moves a code point is the one that
has a pair for it. -/
theorem findSome?_eq_some_of_mem (hruns : runs.Pairwise Before)
    (hwf : ∀ r ∈ runs, r.WellFormed) (h : (c, d) ∈ runs.flatMap pairs) :
    runs.findSome? (·.image? c) = some d := by
  induction runs with
  | nil => exact absurd h List.not_mem_nil
  | cons r rest ih =>
      obtain ⟨hbefore, hrest⟩ := List.pairwise_cons.mp hruns
      have hwf' : ∀ s ∈ rest, s.WellFormed := fun s hs => hwf s (List.mem_cons_of_mem r hs)
      rw [List.flatMap_cons, List.mem_append, mem_pairs_iff (hwf r List.mem_cons_self)] at h
      rw [List.findSome?_cons]
      cases himage : r.image? c with
      | none => exact ih hrest hwf' (h.resolve_left fun h => nomatch himage.symm.trans h)
      | some e =>
          rcases h with h | h
          · exact himage.symm.trans h
          · obtain ⟨s, hs, hpair⟩ := List.mem_flatMap.mp h
            have hc := bounds_of_image?_eq_some himage
            have hc' := bounds_of_image?_eq_some ((mem_pairs_iff (hwf' s hs) c d).mp hpair)
            have hlt : r.last < s.first := (hbefore s hs).1
            omega

/-- Runs that shift their code points do not map any of them to itself. -/
theorem findSome?_ne_self (hruns : ∀ r ∈ runs, r.image ≠ r.first) :
    runs.findSome? (·.image? c) ≠ some c := by
  intro h
  obtain ⟨r, hr, himage⟩ := List.exists_of_findSome?_eq_some h
  have hfirst := (bounds_of_image?_eq_some himage).1
  have hshift := hruns r hr
  rw [image?, Option.ite_none_right_eq_some, Option.some.injEq] at himage
  omega

end CaseRun

namespace CaseMap

variable {c d : Nat}

/-- The runs of the upper cases are in order. -/
theorem upperRuns_before : CaseTable.upperRuns.Pairwise CaseRun.Before :=
  List.isChain_iff_pairwise.mp (by decide +kernel)

/-- The runs of the lower cases are in order. -/
theorem lowerRuns_before : CaseTable.lowerRuns.Pairwise CaseRun.Before :=
  List.isChain_iff_pairwise.mp (by decide +kernel)

/-- **The pairs of the upper-case runs are the graph of the upper-case map.** -/
theorem mem_upperPairs_iff : (c, d) ∈ upperPairs ↔ simpleUpper c = some d :=
  ⟨CaseRun.findSome?_eq_some_of_mem upperRuns_before upperRuns_wellFormed, simpleUpper_mem⟩

/-- **The pairs of the lower-case runs are the graph of the lower-case map.** -/
theorem mem_lowerPairs_iff : (c, d) ∈ lowerPairs ↔ simpleLower c = some d :=
  ⟨CaseRun.findSome?_eq_some_of_mem lowerRuns_before lowerRuns_wellFormed, simpleLower_mem⟩

/-- No code point is its own upper case in the table. -/
theorem simpleUpper_ne : simpleUpper c ≠ some c :=
  have hruns : ∀ r ∈ CaseTable.upperRuns, r.image ≠ r.first := by decide +kernel
  CaseRun.findSome?_ne_self hruns

/-- No code point is its own lower case in the table. -/
theorem simpleLower_ne : simpleLower c ≠ some c :=
  have hruns : ∀ r ∈ CaseTable.lowerRuns, r.image ≠ r.first := by decide +kernel
  CaseRun.findSome?_ne_self hruns

end CaseMap

end GrammarAnalysis
