import GrammarAnalysis.Proofs.CharSet.NormalForm
import GrammarAnalysis.Proofs.Text.CaseMap

/-!
# Case Folding of a Character Class

To fold a class is to add the simple case variants of its code points, as far as these are not
beyond a limit. The variants are looked up in the list of all pairs of a code point and a variant.
They can as well be found range by range, by the part of an increasing list of points that is in
the range; this works for any two maps, and comes to the same for the case maps.

## Main definitions

* `CharSet.slice`: the part of an increasing list that is in a range;
* `CharSet.foldedBy`: folding by any two maps, range by range.

## Main results

* `CharSet.mem_slice`: a slice has the points that are in the range;
* `CharSet.contains_foldedBy`: what folding by two maps adds;
* `CharSet.caseFolded_isFolded`: what case folding adds, either way.
-/

namespace GrammarAnalysis

namespace CharSet

open CaseMap

/-- The code points up to the limit that a map is defined on, in increasing order. -/
def domainPoints (map : Nat → Option Nat) : List Nat :=
  (List.range (caseFoldingLimit + 1)).filter fun c => (map c).isSome

/-- The part of an increasing list of points that is in a range: the points before the range are
left out, and then the points are taken for as long as they are in the range. -/
def slice (points : List Nat) (r : CharRange) : List Nat :=
  (points.dropWhile (· < r.first)).takeWhile (· ≤ r.last)

/-- The images of the code points of a range, up to the limit. -/
def imagesIn (map : Nat → Option Nat) (r : CharRange) : List Nat :=
  (slice (domainPoints map) r).filterMap map

/-- The canonical form of the set together with the images under two maps of its elements, which
are found range by range. -/
def foldedBy (upper lower : Nat → Option Nat) (s : CharSet) : CharSet :=
  let images := s.toList.flatMap fun r => imagesIn upper r ++ imagesIn lower r
  CharSet.normalized (s.normalized.insertAll (images.map .point))

variable {s : CharSet} {points : List Nat} {r : CharRange} {map upper lower : Nat → Option Nat}
  {a c d : Nat}

/-! ### Slices -/

/-- Dropping the points below a bound leaves those from the bound on. -/
theorem mem_dropWhile_lt (h : points.Pairwise (· < ·)) :
    c ∈ points.dropWhile (· < a) ↔ c ∈ points ∧ a ≤ c := by
  induction points with
  | nil => simp
  | cons b rest ih =>
      obtain ⟨hb, hrest⟩ := List.pairwise_cons.mp h
      rw [List.dropWhile_cons]
      split
      · next hlt =>
        have hlt : b < a := of_decide_eq_true hlt
        rw [ih hrest, List.mem_cons]
        refine and_congr_left fun hac => (or_iff_right ?_).symm
        rintro rfl
        exact Nat.not_le_of_lt hlt hac
      · next hge =>
        have hge : a ≤ b := Nat.le_of_not_lt fun hlt => hge (decide_eq_true hlt)
        refine (and_iff_left_of_imp fun hc => ?_).symm
        rcases List.mem_cons.mp hc with rfl | hc
        · exact hge
        · exact Nat.le_trans hge (Nat.le_of_lt (hb c hc))

/-- Taking the points up to a bound leaves out those behind the bound. -/
theorem mem_takeWhile_le (h : points.Pairwise (· < ·)) :
    c ∈ points.takeWhile (· ≤ a) ↔ c ∈ points ∧ c ≤ a := by
  induction points with
  | nil => simp
  | cons b rest ih =>
      obtain ⟨hb, hrest⟩ := List.pairwise_cons.mp h
      rw [List.takeWhile_cons]
      split
      · next hle =>
        have hle : b ≤ a := of_decide_eq_true hle
        rw [List.mem_cons, List.mem_cons, ih hrest, or_and_right]
        refine or_congr_left (and_iff_left_of_imp ?_).symm
        rintro rfl
        exact hle
      · next hgt =>
        have hgt : a < b := Nat.lt_of_not_le fun hle => hgt (decide_eq_true hle)
        refine iff_of_false List.not_mem_nil fun ⟨hc, hca⟩ => ?_
        rcases List.mem_cons.mp hc with rfl | hc
        · exact Nat.not_le_of_lt hgt hca
        · exact Nat.not_le_of_lt (Nat.lt_trans hgt (hb c hc)) hca

/-- **A slice of an increasing list** has the points of the list that are in the range. -/
theorem mem_slice (h : points.Pairwise (· < ·)) :
    c ∈ slice points r ↔ c ∈ points ∧ r.contains c = true := by
  rw [slice, mem_takeWhile_le (h.sublist (List.dropWhile_sublist _)), mem_dropWhile_lt h,
    CharRange.contains_iff, and_assoc]

/-- The points of a map are in increasing order. -/
theorem domainPoints_increasing (map : Nat → Option Nat) :
    (domainPoints map).Pairwise (· < ·) :=
  List.pairwise_lt_range.filter _

/-- The points of a map are those up to the limit that it maps. -/
theorem mem_domainPoints :
    c ∈ domainPoints map ↔ c ≤ caseFoldingLimit ∧ (map c).isSome = true := by
  rw [domainPoints, List.mem_filter, List.mem_range, Nat.lt_succ_iff]

/-- The images in a range are those of its code points up to the limit. -/
theorem mem_imagesIn :
    d ∈ imagesIn map r ↔ ∃ c, r.contains c = true ∧ c ≤ caseFoldingLimit ∧ map c = some d := by
  rw [imagesIn, List.mem_filterMap]
  simp only [mem_slice (domainPoints_increasing map), mem_domainPoints]
  constructor
  · rintro ⟨c, ⟨⟨hle, -⟩, hc⟩, hd⟩
    exact ⟨c, hc, hle, hd⟩
  · rintro ⟨c, hc, hle, hd⟩
    exact ⟨c, ⟨⟨hle, Option.isSome_of_eq_some hd⟩, hc⟩, hd⟩

/-! ### Folding -/

/-- Adding points to a class and merging gives the class with the points. -/
theorem contains_normalized_insertAll :
    CharSet.contains (CharSet.normalized (s.normalized.insertAll (points.map .point))) c = true ↔
      s.contains c = true ∨ c ∈ points := by
  rw [contains_normalized, contains_insertAll, contains_normalized, or_comm]
  refine or_congr_right ⟨?_, fun hc => ?_⟩
  · rintro ⟨r, hr, hc⟩
    obtain ⟨d, hd, rfl⟩ := List.mem_map.mp hr
    rwa [CharRange.contains_point.mp hc]
  · exact ⟨.point c, List.mem_map_of_mem hc, CharRange.contains_point.mpr rfl⟩

/-- **Folding by two maps**, range by range, adds the images of the code points of the class that
are not beyond the limit. -/
theorem contains_foldedBy :
    (s.foldedBy upper lower).contains c = true ↔ s.contains c = true ∨
      ∃ d, s.contains d = true ∧ d ≤ caseFoldingLimit ∧ (upper d = some c ∨ lower d = some c) := by
  have himages : c ∈ s.toList.flatMap (fun r => imagesIn upper r ++ imagesIn lower r) ↔
      ∃ d, s.contains d = true ∧ d ≤ caseFoldingLimit ∧ (upper d = some c ∨ lower d = some c) := by
    simp only [List.mem_flatMap, List.mem_append, mem_imagesIn, contains, List.any_eq_true]
    constructor
    · rintro ⟨r, hr, ⟨d, hd, hle, hmap⟩ | ⟨d, hd, hle, hmap⟩⟩
      · exact ⟨d, ⟨r, hr, hd⟩, hle, .inl hmap⟩
      · exact ⟨d, ⟨r, hr, hd⟩, hle, .inr hmap⟩
    · rintro ⟨d, ⟨r, hr, hd⟩, hle, hmap | hmap⟩
      · exact ⟨r, hr, .inl ⟨d, hd, hle, hmap⟩⟩
      · exact ⟨r, hr, .inr ⟨d, hd, hle, hmap⟩⟩
  rw [foldedBy, contains_normalized_insertAll, himages]

/-- The pairs of the table are the code points up to the limit with their upper and lower cases.
-/
theorem mem_caseVariants :
    (d, c) ∈ caseVariants ↔
      d ≤ caseFoldingLimit ∧ (simpleUpper d = some c ∨ simpleLower d = some c) := by
  rw [caseVariants, List.mem_filter, List.mem_append, mem_upperPairs_iff, mem_lowerPairs_iff,
    decide_eq_true_iff, and_comm]

/-- **Case folding** adds the simple case variants of the code points of the class that are not
beyond the limit. -/
theorem contains_caseFolded :
    s.caseFolded.contains c = true ↔ s.contains c = true ∨
      ∃ d, s.contains d = true ∧ d ≤ caseFoldingLimit ∧
        (simpleUpper d = some c ∨ simpleLower d = some c) := by
  -- The variants that are in the class already are left out, which makes no difference.
  have hadded : c ∈ (caseVariants.filter fun p => s.contains p.1 && !s.contains p.2).map Prod.snd ↔
      s.contains c = false ∧ ∃ d, s.contains d = true ∧ (d, c) ∈ caseVariants := by
    simp only [List.mem_map, List.mem_filter, Bool.and_eq_true, Bool.not_eq_true', Prod.exists,
      exists_eq_right]
    exact ⟨fun ⟨d, hmem, hd, hc⟩ => ⟨hc, d, hd, hmem⟩, fun ⟨hc, d, hd, hmem⟩ => ⟨d, hmem, hd, hc⟩⟩
  have hfolded : s.caseFolded.contains c = true ↔ s.contains c = true ∨
      c ∈ (caseVariants.filter fun p => s.contains p.1 && !s.contains p.2).map Prod.snd := by
    rw [← contains_normalized_insertAll, List.map_map]
    rfl
  rw [hfolded, hadded]
  simp only [mem_caseVariants]
  cases s.contains c <;> simp

/-- Case folding is folding by the two case maps, range by range. -/
theorem caseFolded_eq_foldedBy (s : CharSet) :
    s.caseFolded = s.foldedBy simpleUpper simpleLower :=
  (canonical_normalized _).ext (canonical_normalized _) fun _ => by
    rw [Bool.eq_iff_iff]
    exact contains_caseFolded.trans contains_foldedBy.symm

/-- **Case folding of a class** gives a canonical class. It has the code points of the class and
the simple case variants of those that are not beyond the limit, and nothing else. It is what
folding range by range gives, which does the same for any two maps. -/
theorem caseFolded_isFolded (s : CharSet) :
    s.caseFolded.toList.Pairwise (fun r r' => r.last + 1 < r'.first) ∧
      s.caseFolded.normalized = s.caseFolded ∧
      (∀ c, s.caseFolded.contains c = true ↔ s.contains c = true ∨
        ∃ d, s.contains d = true ∧ d ≤ 0x16E7F ∧
          (simpleUpper d = some c ∨ simpleLower d = some c)) ∧
      s.caseFolded = s.foldedBy simpleUpper simpleLower ∧
      ∀ (upper lower : Nat → Option Nat) (c : Nat),
        (s.foldedBy upper lower).contains c = true ↔ s.contains c = true ∨
          ∃ d, s.contains d = true ∧ d ≤ 0x16E7F ∧ (upper d = some c ∨ lower d = some c) :=
  ⟨canonical_normalized _, (canonical_normalized _).normalized_eq, fun _ => contains_caseFolded,
    caseFolded_eq_foldedBy s, fun _ _ _ => contains_foldedBy⟩

end CharSet

end GrammarAnalysis
