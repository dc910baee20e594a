import GrammarAnalysis.CharSet

/-!
# The Normal Form of a Character Class

The same code points can be given by ranges in many ways. The canonical form of a class has the
code points of the class, in ranges that are in order and leave a gap between them, and there is
only one set of such ranges: a range begins at the least code point that is not in an earlier one
and ends before the next gap. So two classes have the same canonical form exactly if they have the
same code points.

A code point is a number of 32 bits. `CharSet.Coded` says so of a class that was built from such
numbers; what depends on the code points only holds of all numbers.

## Main definitions

* `CharSet.Covers`: a code point is in one of the ranges of a list;
* `CharSet.Canonical`: the ranges of a class leave a gap between them;
* `CharSet.Coded`: no range of a class goes beyond the largest code point.

## Main results

* `CharSet.coded_ofBounds`: what is built from code points is a class of them;
* `CharSet.separated_iff_saturated`: the gap between two ranges, where the successor is cut down;
* `CharSet.covers_coalesce`: merging ranges keeps their code points;
* `CharSet.Canonical.ext`: canonical classes with the same code points are equal;
* `CharSet.normalized_isCanonicalForm`: the canonical form is one.
-/

namespace GrammarAnalysis

namespace CharRange

/-- A range contains what lies between its bounds. -/
theorem contains_iff {r : CharRange} {c : Nat} :
    r.contains c = true ↔ r.first ≤ c ∧ c ≤ r.last := by
  rw [contains, Bool.and_eq_true, decide_eq_true_iff, decide_eq_true_iff]

/-- The range of one code point contains this code point only. -/
theorem contains_point {c d : Nat} : (point c).contains d = true ↔ d = c := by
  rw [contains_iff]
  exact ⟨fun h => Nat.le_antisymm h.2 h.1, fun h => ⟨Nat.le_of_eq h.symm, Nat.le_of_eq h⟩⟩

/-- A range is determined by its bounds. -/
theorem eq_of_bounds {r s : CharRange} (hfirst : r.first = s.first) (hlast : r.last = s.last) :
    r = s := by
  cases r
  cases s
  subst hfirst hlast
  rfl

end CharRange

namespace CharSet

/-- The code point is in one of the ranges. -/
def Covers (l : List CharRange) (c : Nat) : Prop := ∃ r ∈ l, r.first ≤ c ∧ c ≤ r.last

/-- The ranges are in order, and leave a gap between them. -/
def Canonical (s : CharSet) : Prop := s.toList.Pairwise Separated

/-- No range goes beyond the largest number that a code point can be. -/
def Coded (s : CharSet) : Prop := ∀ r ∈ s, r.last ≤ codePointMax

variable {s t : CharSet} {l m : List CharRange} {a b : CharRange} {c : Nat}

/-- The empty list covers nothing. -/
@[simp] theorem not_covers_nil : ¬ Covers [] c := fun ⟨_, hr, _⟩ => nomatch hr

/-- A list covers what its first range and its rest cover. -/
@[simp] theorem covers_cons :
    Covers (a :: l) c ↔ (a.first ≤ c ∧ c ≤ a.last) ∨ Covers l c := by
  simp only [Covers, List.mem_cons, or_and_right, exists_or, exists_eq_left]

/-- A list covers the first code point of its first range. -/
theorem covers_first (a : CharRange) (l : List CharRange) : Covers (a :: l) a.first :=
  covers_cons.mpr (.inl ⟨Nat.le_refl _, a.first_le_last⟩)

/-- A set contains what its ranges cover. -/
theorem contains_iff_covers : s.contains c = true ↔ Covers s.toList c := by
  simp only [contains, List.any_eq_true, CharRange.contains_iff, Covers]

/-- A code point is in the class if a range that was inserted has it, or it was there before. -/
theorem contains_insertAll {ranges : List CharRange} :
    CharSet.contains (s.insertAll ranges) c = true ↔
      (∃ r ∈ ranges, r.contains c = true) ∨ s.contains c = true := by
  simp only [contains, List.any_eq_true, OrderedSet.mem_toList, OrderedSet.mem_insertAll,
    or_and_right, exists_or]

/-- Some range goes as far as `c` if and only if some code point is that large. -/
theorem exists_le_last_iff : (∃ r ∈ l, c ≤ r.last) ↔ ∃ d, Covers l d ∧ c ≤ d := by
  constructor
  · rintro ⟨r, hr, hc⟩
    exact ⟨r.last, ⟨r, hr, r.first_le_last, Nat.le_refl _⟩, hc⟩
  · rintro ⟨d, ⟨r, hr, -, hd⟩, hcd⟩
    exact ⟨r, hr, Nat.le_trans hcd hd⟩

/-- A set has a range that ends behind each code point in it. -/
theorem exists_le_last_of_contains (h : s.contains c = true) : ∃ r ∈ s, c ≤ r.last :=
  exists_le_last_iff.mpr ⟨c, contains_iff_covers.mp h, Nat.le_refl c⟩

/-! ### Classes of code points -/

/-- A class of code points has no larger number. -/
theorem Coded.le (h : s.Coded) (hc : s.contains c = true) : c ≤ codePointMax :=
  have ⟨r, hr, hlast⟩ := exists_le_last_of_contains hc
  Nat.le_trans hlast (h r hr)

/-- A set stays coded when a range is inserted that does not go beyond the largest number. -/
theorem Coded.insertRange {first last : Nat} (h : s.Coded) (hlast : last ≤ codePointMax) :
    (s.insertRange first last).Coded := by
  unfold CharSet.insertRange
  split
  · intro r hr
    rcases OrderedSet.mem_insert.mp hr with rfl | hr
    · exact hlast
    · exact h r hr
  · exact h

/-- A class that is given by code points has no larger number. -/
theorem coded_ofBounds {bounds : List (Nat × Nat)} (h : ∀ b ∈ bounds, b.2 ≤ codePointMax) :
    (ofBounds bounds).Coded := by
  unfold ofBounds
  have hempty : Coded ∅ := fun r hr => absurd hr OrderedSet.not_mem_empty
  generalize (∅ : CharSet) = s at hempty
  induction bounds generalizing s with
  | nil => exact hempty
  | cons b rest ih =>
      obtain ⟨hb, hrest⟩ := List.forall_mem_cons.mp h
      exact ih hrest _ (hempty.insertRange hb)

/-- Of ranges of code points, two leave a gap if and only if the second begins after the
successor of the first, where the largest code point counts as its own successor. -/
theorem separated_iff_saturated (hb : b.last ≤ codePointMax) :
    Separated a b ↔ min (a.last + 1) codePointMax < b.first := by
  have := b.first_le_last
  unfold Separated
  omega

/-! ### Merging -/

/-- **Merging ranges keeps their code points**, if the ranges begin in order. -/
theorem covers_coalesce (a : CharRange) (hl : (a :: l).Pairwise fun r r' => r.first ≤ r'.first) :
    Covers (coalesce a l) c ↔ Covers (a :: l) c := by
  induction l generalizing a with
  | nil => rfl
  | cons r rest ih =>
      obtain ⟨ha, htail⟩ := List.pairwise_cons.mp hl
      simp only [coalesce]
      split
      · rw [covers_cons, ih r htail, ← covers_cons]
      · next htouch =>
        have hfirst : a.first ≤ r.first := ha r List.mem_cons_self
        have hextend : (a.extend r.last :: rest).Pairwise fun r r' => r.first ≤ r'.first :=
          List.pairwise_cons.mpr
            ⟨fun r' hr' => ha r' (List.mem_cons_of_mem r hr'), (List.pairwise_cons.mp htail).2⟩
        have hmerged : (a.first ≤ c ∧ c ≤ max a.last r.last) ↔
            (a.first ≤ c ∧ c ≤ a.last) ∨ (r.first ≤ c ∧ c ≤ r.last) := by
          omega
        rw [ih (a.extend r.last) hextend, covers_cons, covers_cons, covers_cons, ← or_assoc,
          ← hmerged]
        rfl

/-- The normal form of a set is canonical. -/
theorem canonical_normalized (s : CharSet) : s.normalized.Canonical := s.normalRanges_separated

/-- The normal form covers what the set covers. -/
theorem covers_normalRanges (s : CharSet) : Covers s.normalRanges c ↔ Covers s.toList c := by
  have h := s.firsts_increasing
  unfold normalRanges
  split
  · next hnil => rw [hnil]
  · next r rest hcons =>
    rw [hcons] at h ⊢
    exact covers_coalesce r h

/-- The canonical form has the code points of the class. -/
theorem contains_normalized (s : CharSet) (c : Nat) : s.normalized.contains c = s.contains c :=
  Bool.eq_iff_iff.mpr <|
    contains_iff_covers.trans ((covers_normalRanges s).trans contains_iff_covers.symm)

/-! ### Uniqueness -/

/-- Behind the first range comes a gap. -/
theorem lt_of_covers_tail (h : (a :: l).Pairwise Separated) (hc : Covers l c) :
    a.last + 1 < c := by
  obtain ⟨r, hr, hfirst, -⟩ := hc
  exact Nat.lt_of_lt_of_le ((List.pairwise_cons.mp h).1 r hr) hfirst

/-- The rest of a list covers what the list covers behind the first range. -/
theorem covers_tail_iff (h : (a :: l).Pairwise Separated) :
    Covers l c ↔ Covers (a :: l) c ∧ a.last < c := by
  constructor
  · intro hc
    exact ⟨covers_cons.mpr (.inr hc), Nat.lt_of_succ_lt (lt_of_covers_tail h hc)⟩
  · rintro ⟨hc, hlast⟩
    exact (covers_cons.mp hc).resolve_left fun hc => Nat.not_le_of_lt hlast hc.2

/-- The first range has the least of the code points. -/
theorem first_le_of_covers (h : (a :: l).Pairwise Separated) (hc : Covers (a :: l) c) :
    a.first ≤ c := by
  rcases covers_cons.mp hc with hc | hc
  · exact hc.1
  · have := lt_of_covers_tail h hc
    have := a.first_le_last
    omega

/-- If all code points of separated ranges are in others, and both begin with the same one, then
the first range of the others goes at least as far. -/
theorem last_le_of_covers (hm : (b :: m).Pairwise Separated) (hfirst : a.first = b.first)
    (h : ∀ c, Covers (a :: l) c → Covers (b :: m) c) : a.last ≤ b.last := by
  refine Nat.le_of_not_lt fun hlast => ?_
  have hb := b.first_le_last
  have hgap : Covers (b :: m) (b.last + 1) := h _ (covers_cons.mpr (.inl ⟨by omega, by omega⟩))
  rcases covers_cons.mp hgap with hc | hc
  · exact absurd hc.2 (Nat.not_succ_le_self _)
  · exact absurd (lt_of_covers_tail hm hc) (Nat.lt_irrefl _)

/-- Separated ranges with the same code points are the same ranges. -/
theorem eq_of_covers_iff (hl : l.Pairwise Separated) (hm : m.Pairwise Separated)
    (h : ∀ c, Covers l c ↔ Covers m c) : l = m := by
  induction l generalizing m with
  | nil =>
      cases m with
      | nil => rfl
      | cons b m => exact absurd ((h b.first).mpr (covers_first b m)) not_covers_nil
  | cons a l ih =>
      cases m with
      | nil => exact absurd ((h a.first).mp (covers_first a l)) not_covers_nil
      | cons b m =>
          have hfirst : a.first = b.first :=
            Nat.le_antisymm (first_le_of_covers hl ((h _).mpr (covers_first b m)))
              (first_le_of_covers hm ((h _).mp (covers_first a l)))
          have hlast : a.last = b.last :=
            Nat.le_antisymm (last_le_of_covers hm hfirst fun c => (h c).mp)
              (last_le_of_covers hl hfirst.symm fun c => (h c).mpr)
          obtain rfl : a = b := CharRange.eq_of_bounds hfirst hlast
          refine congrArg (a :: ·) (ih (List.pairwise_cons.mp hl).2 (List.pairwise_cons.mp hm).2 ?_)
          intro c
          rw [covers_tail_iff hl, covers_tail_iff hm, h c]

/-- **Canonical classes with the same code points are equal.** -/
theorem Canonical.ext (hs : s.Canonical) (ht : t.Canonical)
    (h : ∀ c, s.contains c = t.contains c) : s = t := by
  have hlist : s.toList = t.toList := eq_of_covers_iff hs ht fun c => by
    rw [← contains_iff_covers, ← contains_iff_covers, h c]
  exact OrderedSet.ext fun r => by rw [← OrderedSet.mem_toList, hlist, OrderedSet.mem_toList]

/-- Classes have the same canonical form if and only if they have the same code points. -/
theorem normalized_eq_iff : s.normalized = t.normalized ↔ ∀ c, s.contains c = t.contains c := by
  constructor
  · intro h c
    rw [← contains_normalized, h, contains_normalized]
  · intro h
    refine (canonical_normalized s).ext (canonical_normalized t) fun c => ?_
    rw [contains_normalized, contains_normalized, h c]

/-- A canonical set is its own normal form. -/
theorem Canonical.normalized_eq (h : s.Canonical) : s.normalized = s :=
  (canonical_normalized s).ext h (contains_normalized s)

/-- **The canonical form**: it has the code points of the class, in ranges that are in order and
leave a gap between any two of them, and it is the same for two classes if and only if these have
the same code points. -/
theorem normalized_isCanonicalForm (hs : s.Coded) (ht : t.Coded) :
    (∀ c, s.normalized.contains c = s.contains c) ∧
      (∀ r ∈ s.normalized, r.first ≤ r.last) ∧
      s.normalized.toList.Pairwise (fun r r' => r.last + 1 < r'.first) ∧
      ((∀ c ≤ codePointMax, s.contains c = t.contains c) ↔ s.normalized = t.normalized) ∧
      s.normalized.normalized = s.normalized := by
  refine ⟨contains_normalized s, fun r _ => r.first_le_last, canonical_normalized s, ?_,
    (canonical_normalized s).normalized_eq⟩
  rw [normalized_eq_iff]
  refine ⟨fun h c => ?_, fun h c _ => h c⟩
  by_cases hc : c ≤ codePointMax
  · exact h c hc
  · have hsc : s.contains c = false := Bool.eq_false_iff.mpr fun hsc => hc (hs.le hsc)
    have htc : t.contains c = false := Bool.eq_false_iff.mpr fun htc => hc (ht.le htc)
    rw [hsc, htc]

/-- Ranges that are nested, overlap, touch or begin alike, up to the largest code point, and the
two ranges that they come to. -/
theorem normalized_isCanonicalForm_overlaps :
    let s := ofBounds [(0x61, 0x7A), (0x63, 0x64), (0x61, 0x62), (0x7B, 0x7D), (0x7C, 0x7E),
      (0xFFFFFFF0, 0xFFFFFFFF), (0xFFFFFFFF, 0xFFFFFFFF), (0x7A, 0x61)]
    let t := ofBounds [(0x61, 0x7E), (0xFFFFFFF0, 0xFFFFFFFF)]
    s.Coded ∧ t.Coded ∧ s ≠ t ∧ s.normalized = t ∧ s.normalized = t.normalized ∧
      (∀ c ≤ codePointMax, s.contains c = t.contains c) ∧
      ∀ c, s.normalized.contains c = s.contains c := by
  intro s t
  have hs : s.Coded := coded_ofBounds (by decide)
  have ht : t.Coded := coded_ofBounds (by decide)
  have hst : s.normalized = t.normalized := by decide +kernel
  obtain ⟨hcontains, -, -, hiff, -⟩ := normalized_isCanonicalForm hs ht
  exact ⟨hs, ht, by decide +kernel, by decide +kernel, hst, hiff.mpr hst, hcontains⟩

end CharSet

end GrammarAnalysis
