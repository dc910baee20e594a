import GrammarAnalysis.Fault
import GrammarAnalysis.OrderedSet
import GrammarAnalysis.Text.CaseMap
import GrammarAnalysis.Text.CodePoint

/-!
# Sets of Code Points

A character class is given by ranges of code points that may overlap and touch. `CharSet`
keeps the ranges as they were given, in increasing order; `normalized` is the canonical form,
in which the ranges are disjoint and no two of them touch. The complement of a class and its
closure under case are always in canonical form.

## Main definitions

* `CharRange`, `CharSet` — ranges and sets of them;
* `CharSet.normalized` — merges the ranges that overlap or touch;
* `CharSet.negate` — the complement in the code space;
* `CharSet.caseFolded` — adds the simple case variants;
* `CharSet.orderedRanges` — the ranges that a character class of a lexer matches.

## Main results

* `coalesce_separated` — canonical forms leave a gap between two ranges;
* `gaps_increasing` — the gaps between the ranges of a canonical form are in order.
-/

namespace GrammarAnalysis

/-- An inclusive range of code points. -/
structure CharRange where
  first : Nat
  last : Nat
  first_le_last : first ≤ last
deriving DecidableEq, Repr

namespace CharRange

/-- Ranges are ordered by their first code point, then by their last. -/
instance : Ord CharRange := ⟨compareLex (compareOn first) (compareOn last)⟩

instance : Std.TransOrd CharRange :=
  inferInstanceAs (Std.TransCmp (compareLex (compareOn CharRange.first) (compareOn CharRange.last)))

instance : Std.LawfulEqOrd CharRange where
  eq_of_compare {a b} h := by
    have h' := compareLex_eq_eq.mp h
    have h1 : a.first = b.first := Std.LawfulEqOrd.eq_of_compare h'.1
    have h2 : a.last = b.last := Std.LawfulEqOrd.eq_of_compare h'.2
    cases a; cases b; simp_all

/-- The range of one code point. -/
def point (c : Nat) : CharRange := ⟨c, c, Nat.le_refl c⟩

/-- The code point is in the range. -/
def contains (r : CharRange) (c : Nat) : Bool :=
  decide (r.first ≤ c) && decide (c ≤ r.last)

/-- The two ranges have a code point in common. -/
def intersects (r s : CharRange) : Bool :=
  decide (r.first ≤ s.last) && decide (s.first ≤ r.last)

/-- The range, made long enough to reach `c`. -/
def extend (r : CharRange) (c : Nat) : CharRange :=
  ⟨r.first, max r.last c, Nat.le_trans r.first_le_last (Nat.le_max_left ..)⟩

/-- The text of a range in a character class: one quoted code point, or two with a dash. -/
def render (r : CharRange) : String :=
  if r.first = r.last then
    "'" ++ CodePoint.classText r.first ++ "'"
  else
    "'" ++ CodePoint.classText r.first ++ "'-'" ++ CodePoint.classText r.last ++ "'"

/-- A range that begins later comes later. -/
theorem compare_eq_lt_of_first_lt {r s : CharRange} (h : r.first < s.first) :
    compare r s = .lt := by
  show compareLex (compareOn first) (compareOn last) r s = .lt
  have : compare r.first s.first = .lt := Nat.compare_eq_lt.mpr h
  simp [compareLex, compareOn, this]

/-- A range that comes earlier does not begin later. -/
theorem first_le_of_compare_eq_lt {r s : CharRange} (h : compare r s = .lt) :
    r.first ≤ s.first := by
  refine Nat.le_of_not_lt fun hlt => ?_
  have : compare r s = .gt := Std.OrientedCmp.gt_of_lt (compare_eq_lt_of_first_lt hlt)
  rw [h] at this
  exact absurd this (by decide)

end CharRange

/-- A set of code points, as the increasing list of the ranges it was given by. -/
abbrev CharSet := OrderedSet CharRange

namespace CharSet

/-- Adds the range from `first` to `last`, if there is one. -/
def insertRange (s : CharSet) (first last : Nat) : CharSet :=
  if h : first ≤ last then s.insert ⟨first, last, h⟩ else s

/-- The set of the code points from `first` to `last`. -/
def range (first last : Nat) : CharSet := insertRange ∅ first last

/-- The set of one code point. -/
def point (c : Nat) : CharSet := OrderedSet.singleton (.point c)

/-- The set given by a list of bounds. -/
def ofBounds (bounds : List (Nat × Nat)) : CharSet :=
  bounds.foldl (fun s b => s.insertRange b.1 b.2) ∅

/-- The code point is in the set. -/
def contains (s : CharSet) (c : Nat) : Bool :=
  s.toList.any (·.contains c)

/-! ### Canonical form -/

/-- Merges `current` with the ranges after it, for as long as they overlap or touch it. -/
def coalesce (current : CharRange) : List CharRange → List CharRange
  | [] => [current]
  | r :: rest =>
    if current.last + 1 < r.first then current :: coalesce r rest
    else coalesce (current.extend r.last) rest

/-- Two ranges in order, with a gap between them. -/
def Separated (r s : CharRange) : Prop := r.last + 1 < s.first

/-- A range comes before one that it is separated from. -/
theorem Separated.compare_eq_lt {r s : CharRange} (h : Separated r s) : compare r s = .lt := by
  have := r.first_le_last
  exact CharRange.compare_eq_lt_of_first_lt (by unfold Separated at h; omega)

/-- Coalescing does not move the beginning. -/
theorem first_le_of_mem_coalesce {r : CharRange} (current : CharRange) {l : List CharRange}
    (hl : (current :: l).Pairwise fun a b => a.first ≤ b.first) (h : r ∈ coalesce current l) :
    current.first ≤ r.first := by
  induction l generalizing current with
  | nil => simp_all [coalesce]
  | cons s rest ih =>
    rw [List.pairwise_cons, List.pairwise_cons] at hl
    have hs := hl.1 s (by simp)
    simp only [coalesce] at h
    split at h
    · rcases List.mem_cons.mp h with rfl | h
      · exact Nat.le_refl _
      · exact Nat.le_trans hs (ih s (List.pairwise_cons.mpr hl.2) h)
    · refine ih (current.extend s.last) (List.pairwise_cons.mpr ⟨?_, hl.2.2⟩) h
      exact fun t ht => hl.1 t (by simp [ht])

/-- **Canonical forms are separated**: coalescing ranges that begin in order leaves a gap
between any two of the results. -/
theorem coalesce_separated (current : CharRange) {l : List CharRange}
    (hl : (current :: l).Pairwise fun a b => a.first ≤ b.first) :
    (coalesce current l).Pairwise Separated := by
  induction l generalizing current with
  | nil => exact List.pairwise_singleton _ _
  | cons s rest ih =>
    rw [List.pairwise_cons, List.pairwise_cons] at hl
    have htail : (s :: rest).Pairwise fun a b => a.first ≤ b.first := List.pairwise_cons.mpr hl.2
    simp only [coalesce]
    split
    · rename_i hgap
      refine List.pairwise_cons.mpr ⟨fun r hr => ?_, ih s htail⟩
      exact Nat.lt_of_lt_of_le hgap (first_le_of_mem_coalesce s htail hr)
    · exact ih (current.extend s.last)
        (List.pairwise_cons.mpr ⟨fun t ht => hl.1 t (by simp [ht]), hl.2.2⟩)

/-- The ranges of a set begin in order. -/
theorem firsts_increasing (s : CharSet) : s.toList.Pairwise fun a b => a.first ≤ b.first :=
  s.increasing.imp CharRange.first_le_of_compare_eq_lt

/-- The ranges of the canonical form. -/
def normalRanges (s : CharSet) : List CharRange :=
  match s.toList with
  | [] => []
  | r :: rest => coalesce r rest

/-- The ranges of the normal form are separated. -/
theorem normalRanges_separated (s : CharSet) : s.normalRanges.Pairwise Separated := by
  have h := s.firsts_increasing
  unfold normalRanges
  split
  · exact .nil
  · simp_all only
    exact coalesce_separated _ h

/-- The canonical form: the same code points, in ranges that leave a gap between them. -/
def normalized (s : CharSet) : CharSet :=
  ⟨s.normalRanges, s.normalRanges_separated.imp Separated.compare_eq_lt⟩

/-! ### Complement -/

/-- The gaps before, between and after ranges in increasing order, from `start` to the end of
the code space. Ranges beyond the code space still have gaps between them. -/
def gaps (start : Nat) : List CharRange → List CharRange
  | [] => if h : start < codePointEnd then [⟨start, codePointEnd - 1, by omega⟩] else []
  | r :: rest =>
    if h : start < r.first then ⟨start, r.first - 1, by omega⟩ :: gaps (r.last + 1) rest
    else gaps (r.last + 1) rest

/-- No gap begins before the start. -/
theorem le_first_of_mem_gaps {start : Nat} {l : List CharRange} {g : CharRange}
    (hl : (∀ r ∈ l, start ≤ r.first) ∧ l.Pairwise Separated) (h : g ∈ gaps start l) :
    start ≤ g.first := by
  induction l generalizing start with
  | nil =>
    simp only [gaps] at h
    split at h
    · simp_all
    · simp at h
  | cons r rest ih =>
    obtain ⟨hstart, hsep⟩ := hl
    rw [List.pairwise_cons] at hsep
    have hr := hstart r (by simp)
    have hle := r.first_le_last
    have hrest : (∀ s ∈ rest, r.last + 1 ≤ s.first) ∧ rest.Pairwise Separated :=
      ⟨fun s hs => Nat.le_of_lt (hsep.1 s hs), hsep.2⟩
    simp only [gaps] at h
    split at h
    · rcases List.mem_cons.mp h with rfl | h
      · exact Nat.le_refl _
      · have := ih hrest h
        omega
    · have := ih hrest h
      omega

/-- **The gaps are in order.** -/
theorem gaps_increasing {start : Nat} {l : List CharRange}
    (hl : (∀ r ∈ l, start ≤ r.first) ∧ l.Pairwise Separated) :
    (gaps start l).Pairwise fun a b => compare a b = .lt := by
  induction l generalizing start with
  | nil =>
    simp only [gaps]
    split
    · exact List.pairwise_singleton _ _
    · exact .nil
  | cons r rest ih =>
    obtain ⟨hstart, hsep⟩ := hl
    rw [List.pairwise_cons] at hsep
    have hle := r.first_le_last
    have hrest : (∀ s ∈ rest, r.last + 1 ≤ s.first) ∧ rest.Pairwise Separated :=
      ⟨fun s hs => Nat.le_of_lt (hsep.1 s hs), hsep.2⟩
    simp only [gaps]
    split
    · refine List.pairwise_cons.mpr ⟨fun g hg => ?_, ih hrest⟩
      have := le_first_of_mem_gaps hrest hg
      exact CharRange.compare_eq_lt_of_first_lt (show start < g.first by omega)
    · exact ih hrest

/-- The complement in the code space. A range that ends at the largest code point has no
successor to begin the next gap with, and is refused. -/
def negate (s : CharSet) : Except Fault CharSet :=
  if s.normalRanges.any fun r => codePointMax ≤ r.last then
    .error .overflow
  else
    .ok ⟨gaps 0 s.normalRanges,
      gaps_increasing ⟨fun _ _ => Nat.zero_le _, s.normalRanges_separated⟩⟩

/-! ### Case variants -/

/-- The last code point whose case variants are added to a class. -/
def caseFoldingLimit : Nat := 0x16E7F

/-- The pairs of a code point and one of its simple case variants, as far as classes go. -/
def caseVariants : List (Nat × Nat) :=
  (CaseMap.upperPairs ++ CaseMap.lowerPairs).filter fun p => p.1 ≤ caseFoldingLimit

/-- The canonical form of the set together with the simple case variants of its elements. -/
def caseFolded (s : CharSet) : CharSet :=
  let variants := caseVariants.filter fun p => s.contains p.1 && !s.contains p.2
  CharSet.normalized (s.normalized.insertAll (variants.map fun p => .point p.2))

/-! ### Classes -/

/-- The ranges that a class matches: the class is closed under case if requested, then
complemented if requested. -/
def orderedRanges (s : CharSet) (ignoreCase negated : Bool) : Except Fault (List CharRange) := do
  let base := if ignoreCase then s.caseFolded else s.normalized
  let set ← if negated then base.negate else .ok base
  return set.toList

/-- The text of a class: its ranges between brackets. -/
def render (s : CharSet) : String :=
  "[" ++ ", ".intercalate (s.toList.map (·.render)) ++ "]"

/-- The hexadecimal text of a number. -/
def hexText (n : Nat) : String := "0x" ++ String.ofList (Nat.toDigits 16 n)

/-- The text of a set that shows the bounds of its ranges as numbers. -/
def inspect (s : CharSet) : String :=
  "Segments(" ++ ", ".intercalate
    (s.toList.map fun r => "Seg(" ++ hexText r.first ++ ", " ++ hexText r.last ++ ")") ++ ")"

end CharSet

end GrammarAnalysis
