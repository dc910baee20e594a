import GrammarAnalysis.Proofs.CharSet.NormalForm

/-!
# The Complement of a Character Class

The complement of a class is made of the gaps in its canonical form: those before, between and
after its ranges, up to the end of the code space. A range beyond the code space is not left out,
so what lies below it counts as a gap as well. The complement therefore has the code points that
are not in the class and are in the code space, or below the largest code point of the class.

After a range that ends at the largest number that a code point can be no gap can begin, and there
the complement fails.

## Main results

* `CharSet.Behind.covers_gaps`: the code points in the gaps between ranges;
* `CharSet.negate_eq_error_iff`, `CharSet.exists_negate_eq_ok`: when the complement fails, and
  what it has if it does not;
* `CharSet.exists_negate_of_lt`, `CharSet.negate_negate`: the complement within the code space;
* `CharSet.negate_isComplement`: the complement, and the complement of the complement.
-/

namespace GrammarAnalysis

namespace CharSet

variable {s t : CharSet} {l : List CharRange} {start c : Nat}

/-! ### Gaps -/

/-- The ranges begin at `start` at the earliest, and leave a gap between them. -/
def Behind (start : Nat) (l : List CharRange) : Prop :=
  (∀ r ∈ l, start ≤ r.first) ∧ l.Pairwise Separated

/-- The rest of the ranges begins behind the first one. -/
theorem Behind.tail {r : CharRange} (h : Behind start (r :: l)) : Behind (r.last + 1) l :=
  have ⟨hr, hl⟩ := List.pairwise_cons.mp h.2
  ⟨fun s hs => Nat.le_of_lt (hr s hs), hl⟩

/-- The gaps between ranges are separated by the ranges. -/
theorem Behind.separated_gaps (h : Behind start l) : (gaps start l).Pairwise Separated := by
  induction l generalizing start with
  | nil =>
      simp only [gaps]
      split
      · exact List.pairwise_singleton _ _
      · exact .nil
  | cons r rest ih =>
      simp only [gaps]
      split
      · refine List.pairwise_cons.mpr ⟨fun g hg => ?_, ih h.tail⟩
        have hg : r.last + 1 ≤ g.first := le_first_of_mem_gaps h.tail hg
        have hr := r.first_le_last
        show r.first - 1 + 1 < g.first
        omega
      · exact ih h.tail

/-- **The gaps** have the code points from `start` on that are in no range, and are in the code
space or below the end of some range. -/
theorem Behind.covers_gaps (h : Behind start l) :
    Covers (gaps start l) c ↔
      start ≤ c ∧ ¬ Covers l c ∧ (c < codePointEnd ∨ ∃ r ∈ l, c < r.last) := by
  induction l generalizing start with
  | nil =>
      simp only [gaps]
      split <;> simp only [covers_cons, not_covers_nil, or_false, not_false_eq_true, true_and,
        List.not_mem_nil, false_and, exists_false, false_iff] <;> omega
  | cons r rest ih =>
      have hr := r.first_le_last
      have hstart : start ≤ r.first := h.1 r List.mem_cons_self
      -- Either the code point is before the range, where the only gap is the one that begins at
      -- `start`, or it is in the range, or it is behind it.
      have hgap : Covers (gaps start (r :: rest)) c ↔
          (start ≤ c ∧ c < r.first) ∨ Covers (gaps (r.last + 1) rest) c := by
        simp only [gaps]
        split
        · rw [covers_cons]
          refine or_congr_left ⟨fun hc => ⟨hc.1, ?_⟩, fun hc => ⟨hc.1, ?_⟩⟩
          · have : c ≤ r.first - 1 := hc.2
            omega
          · show c ≤ r.first - 1
            omega
        · rw [or_iff_right (by omega)]
      have hbehind : Covers rest c → r.last + 1 < c := lt_of_covers_tail h.2
      rw [hgap, ih h.tail, covers_cons]
      simp only [List.mem_cons, or_and_right, exists_or, exists_eq_left]
      by_cases hrest : Covers rest c
      · have := hbehind hrest
        simp only [hrest, not_true_eq_false, false_and, and_false, or_true, or_false, iff_false]
        omega
      · simp only [hrest, not_false_eq_true, true_and, or_false]
        by_cases hlarger : ∃ r' ∈ rest, c < r'.last
        · simp only [hlarger, or_true, and_true]
          omega
        · simp only [hlarger, or_false]
          omega

/-! ### Complement -/

/-- The ranges of the normal form begin at zero at the earliest. -/
theorem behind_normalRanges (s : CharSet) : Behind 0 s.normalRanges :=
  ⟨fun _ _ => Nat.zero_le _, s.normalRanges_separated⟩

/-- The canonical form goes as far as the class. -/
theorem exists_normalRanges_le_last_iff :
    (∃ r ∈ s.normalRanges, c ≤ r.last) ↔ ∃ r ∈ s, c ≤ r.last := by
  rw [exists_le_last_iff, show (∃ r ∈ s, c ≤ r.last) ↔ _ from exists_le_last_iff]
  simp only [covers_normalRanges]

/-- **The complement fails** if and only if a range ends at the largest number that a code point
can be. -/
theorem negate_eq_error_iff {fault : Fault} :
    s.negate = .error fault ↔ fault = .overflow ∧ ∃ r ∈ s, codePointMax ≤ r.last := by
  rw [← exists_normalRanges_le_last_iff, negate]
  split
  · next h =>
    simp only [List.any_eq_true, decide_eq_true_iff] at h
    rw [and_iff_left h, Except.error.injEq]
    exact eq_comm
  · next h =>
    simp only [List.any_eq_true, decide_eq_true_iff] at h
    simp only [h, and_false, reduceCtorEq]

/-- **The complement** is canonical. It has the code points that are not in the class and are in
the code space, or below some code point of the class. -/
theorem exists_negate_eq_ok (h : ∀ r ∈ s, r.last < codePointMax) :
    ∃ t, s.negate = .ok t ∧ t.Canonical ∧ ∀ c, t.contains c = true ↔
      s.contains c = false ∧ (c < codePointEnd ∨ ∃ d, s.contains d = true ∧ c < d) := by
  have hok : ¬ s.normalRanges.any (fun r => codePointMax ≤ r.last) = true := by
    simp only [List.any_eq_true, decide_eq_true_iff, exists_normalRanges_le_last_iff]
    rintro ⟨r, hr, hlast⟩
    exact Nat.not_le_of_lt (h r hr) hlast
  refine ⟨_, if_neg hok, s.behind_normalRanges.separated_gaps, fun c => ?_⟩
  have hbelow : (∃ r ∈ s.normalRanges, c < r.last) ↔ ∃ d, s.contains d = true ∧ c < d :=
    exists_le_last_iff.trans <| exists_congr fun d => and_congr_left fun _ =>
      (covers_normalRanges s).trans contains_iff_covers.symm
  rw [contains_iff_covers, s.behind_normalRanges.covers_gaps, covers_normalRanges,
    ← contains_iff_covers, Bool.not_eq_true, hbelow]
  exact and_iff_right (Nat.zero_le c)

/-- The complement of a class within the code space has the other code points of that space. -/
theorem exists_negate_of_lt (h : ∀ r ∈ s, r.last < codePointEnd) :
    ∃ t, s.negate = .ok t ∧ t.Canonical ∧ (∀ r ∈ t, r.last < codePointEnd) ∧
      ∀ c, t.contains c = true ↔ c < codePointEnd ∧ s.contains c = false := by
  obtain ⟨t, ht, hcanonical, hiff⟩ :=
    exists_negate_eq_ok (s := s) fun r hr => Nat.lt_trans (h r hr) (by decide)
  have htc : ∀ c, t.contains c = true ↔ c < codePointEnd ∧ s.contains c = false := by
    intro c
    rw [hiff, and_comm]
    refine and_congr_left fun _ => or_iff_left_of_imp ?_
    rintro ⟨d, hd, hcd⟩
    obtain ⟨r, hr, hlast⟩ := exists_le_last_of_contains hd
    exact Nat.lt_of_lt_of_le hcd (Nat.le_of_lt (Nat.lt_of_le_of_lt hlast (h r hr)))
  refine ⟨t, ht, hcanonical, fun r hr => ?_, htc⟩
  exact ((htc r.last).mp (contains_iff_covers.mpr ⟨r, hr, r.first_le_last, Nat.le_refl _⟩)).1

/-- Within the code space, the complement of the complement is the canonical form. -/
theorem negate_negate (h : ∀ r ∈ s, r.last < codePointEnd) :
    ∃ t, s.negate = .ok t ∧ (∀ c, t.contains c = true ↔ c < codePointEnd ∧ s.contains c = false) ∧
      t.negate = .ok s.normalized := by
  obtain ⟨t, ht, -, htlast, htc⟩ := exists_negate_of_lt h
  obtain ⟨u, hu, hcanonical, -, huc⟩ := exists_negate_of_lt htlast
  refine ⟨t, ht, htc, ?_⟩
  rw [hu]
  refine congrArg Except.ok (hcanonical.ext (canonical_normalized s) fun c => ?_)
  rw [contains_normalized, Bool.eq_iff_iff, huc, ← Bool.not_eq_true, htc]
  constructor
  · rintro ⟨hlt, hc⟩
    exact Bool.of_not_eq_false fun hsc => hc ⟨hlt, hsc⟩
  · intro hsc
    obtain ⟨r, hr, hlast⟩ := exists_le_last_of_contains hsc
    refine ⟨Nat.lt_of_le_of_lt hlast (h r hr), fun hc => ?_⟩
    rw [hsc] at hc
    exact nomatch hc.2

/-- **The complement of a class.** It fails, for want of a successor, if and only if a range ends
at the largest number that a code point can be. Otherwise it is canonical, and has the code points
that are not in the class and are in the code space or below the largest code point of the class.
If the class is within the code space, these are the other code points of the code space, and the
complement of the complement is the canonical form of the class. -/
theorem negate_isComplement (hs : s.Coded) :
    (s.negate = .error .overflow ↔ ∃ r ∈ s, r.last = codePointMax) ∧
      ((∀ r ∈ s, r.last ≠ codePointMax) → ∃ t, s.negate = .ok t ∧
        t.toList.Pairwise (fun r r' => r.last + 1 < r'.first) ∧ t.normalized = t ∧
        ∀ c, t.contains c = true ↔
          s.contains c = false ∧ (c < codePointEnd ∨ ∃ d, s.contains d = true ∧ c < d)) ∧
      ((∀ r ∈ s, r.last < codePointEnd) → ∃ t, s.negate = .ok t ∧
        (∀ c, t.contains c = true ↔ c < codePointEnd ∧ s.contains c = false) ∧
        t.negate = .ok s.normalized) := by
  refine ⟨?_, fun h => ?_, negate_negate⟩
  · rw [negate_eq_error_iff, and_iff_right rfl]
    exact exists_congr fun r => and_congr_right fun hr =>
      ⟨Nat.le_antisymm (hs r hr), fun h => Nat.le_of_eq h.symm⟩
  · obtain ⟨t, ht, hcanonical, hiff⟩ :=
      exists_negate_eq_ok fun r hr => Nat.lt_of_le_of_ne (hs r hr) (h r hr)
    exact ⟨t, ht, hcanonical, hcanonical.normalized_eq, hiff⟩

/-- The complement of a class that reaches beyond the code space has what is between the two. -/
theorem negate_isComplement_beyond :
    let s := ofBounds [(0x62, 0x79), (0x110005, 0x110006)]
    s.Coded ∧ (∀ r ∈ s, r.last ≠ codePointMax) ∧
      s.negate = .ok (ofBounds [(0, 0x61), (0x7A, 0x110004)]) ∧
      ∃ t, s.negate = .ok t ∧ t.normalized = t ∧ t.contains 0x110002 = true ∧
        t.contains 0x110007 = false := by
  intro s
  have hs : s.Coded := coded_ofBounds (by decide)
  have hlast : ∀ r ∈ s, r.last ≠ codePointMax := by
    show ∀ r ∈ s.toList, r.last ≠ codePointMax
    decide +kernel
  obtain ⟨-, hok, -⟩ := negate_isComplement hs
  obtain ⟨t, ht, -, hnormal, hiff⟩ := hok hlast
  refine ⟨hs, hlast, rfl, t, ht, hnormal, (hiff _).mpr ⟨by decide, .inr ⟨0x110005, by decide⟩⟩, ?_⟩
  refine Bool.eq_false_iff.mpr fun h => ?_
  obtain ⟨-, hend | ⟨d, hd, hlt⟩⟩ := (hiff _).mp h
  · exact absurd hend (by decide)
  · obtain ⟨r, hr, hd⟩ := exists_le_last_of_contains hd
    have hmax : ∀ r ∈ s.toList, r.last ≤ 0x110006 := by decide +kernel
    have := hmax r hr
    omega

end CharSet

end GrammarAnalysis
