import GrammarAnalysis.Proofs.Automaton.Recognition
import GrammarAnalysis.Proofs.CharSet.Complement

/-!
# The Moves of a State

The generated lexer looks up a character below 128 in another table than the other characters, so
the moves of a state are cut in two. The cut is made at the first range that begins at 128 or goes
as far, without a look at the ranges after it, and whether there is something on either side of 128
is read off the first range and the last. This is right if the ranges are in order and have nothing
in common.

They are: a class becomes separated ranges, a character its case variants in order, and a state gets
its moves only once. Nothing else in the construction, and nothing in the preparation of an
automaton, touches the moves.

## Main definitions

* `CharRange.Precedes`: a range ends before another one begins;
* `Automaton.InOrder`: the moves of every state are in order;
* `Assembly.KeepsOrder`: a construction step that keeps them so.

## Main results

* `State.le_first_of_mem_nonAsciiMoves`, `State.covers_asciiMoves_iff`: the two parts of the moves;
* `State.hasAsciiMoves_iff`, `State.hasNonAsciiMoves_iff`: what the first and the last range tell;
* `Regex.keepsOrder_assemble`: the construction of a tree keeps the moves in order;
* `Automaton.InOrder.prepare`: so does the preparation of an automaton.
-/

namespace GrammarAnalysis

namespace CharRange

/-- The first range ends before the second one begins. -/
def Precedes (r s : CharRange) : Prop := r.last < s.first

variable {r s : CharRange} {l : List CharRange}

/-- In a list in order, the first range begins first. -/
theorem first_le_of_pairwise (h : (r :: l).Pairwise Precedes) (hs : s ∈ r :: l) :
    r.first ≤ s.first := by
  rcases List.mem_cons.mp hs with rfl | hs
  · exact Nat.le_refl _
  · exact Nat.le_of_lt (Nat.lt_of_le_of_lt r.first_le_last ((List.pairwise_cons.mp h).1 s hs))

/-- In a list in order, the last range ends last. -/
theorem last_le_of_pairwise (h : (l ++ [r]).Pairwise Precedes) (hs : s ∈ l ++ [r]) :
    s.last ≤ r.last := by
  rcases List.mem_append.mp hs with hs | hs
  · have hlt : s.last < r.first :=
      (List.pairwise_append.mp h).2.2 s hs r (List.mem_singleton_self r)
    exact Nat.le_of_lt (Nat.lt_of_lt_of_le hlt r.first_le_last)
  · rw [List.mem_singleton.mp hs]

/-- Of two points, the one that comes earlier is smaller. -/
theorem precedes_point {c d : Nat} (h : compare (point c) (point d) = .lt) :
    (point c).Precedes (point d) := by
  refine Nat.lt_of_le_of_ne (first_le_of_compare_eq_lt h) ?_
  rintro (rfl : c = d)
  exact OrderedSet.not_compare_self (point c) h

end CharRange

namespace CharSet

/-- Two lists cover what either of them covers. -/
theorem covers_append {l m : List CharRange} {c : Nat} :
    Covers (l ++ m) c ↔ Covers l c ∨ Covers m c := by
  simp only [Covers, List.mem_append, or_and_right, exists_or]

/-- A complement is canonical. -/
theorem canonical_of_negate_eq_ok {s t : CharSet} (h : s.negate = .ok t) : t.Canonical := by
  rw [negate] at h
  split at h
  · cases h
  · obtain rfl := Except.ok.inj h
    exact s.behind_normalRanges.separated_gaps

/-- **The ranges of a class** leave a gap between any two of them, whether or not the class is
folded or complemented. -/
theorem separated_orderedRanges {s : CharSet} {ignoreCase negated : Bool} {ranges : List CharRange}
    (h : s.orderedRanges ignoreCase negated = .ok ranges) : ranges.Pairwise Separated := by
  have hbase : (if ignoreCase then s.caseFolded else s.normalized).Canonical := by
    split <;> exact canonical_normalized _
  cases negated with
  | false =>
      obtain rfl := Except.ok.inj h
      exact hbase
  | true =>
      obtain ⟨t, ht, h⟩ := exists_of_bind_eq_ok h
      obtain rfl := Except.ok.inj h
      exact canonical_of_negate_eq_ok ht

end CharSet

/-! ### The two parts of the moves -/

namespace State

open CharRange CharSet

variable {s : State} {c : Nat}

/-- The moves after the cut begin at 128 or above. -/
theorem le_first_of_mem_nonAsciiMoves (h : s.moves.Pairwise Precedes) {r : CharRange}
    (hr : r ∈ s.nonAsciiMoves) : 128 ≤ r.first := by
  rw [nonAsciiMoves, asciiMoves] at hr
  generalize s.moves = l at h hr
  induction l with
  | nil => cases hr
  | cons a rest ih =>
      simp only [asciiMoves.go] at hr
      split at hr
      · next hfirst => exact Nat.le_trans hfirst (first_le_of_pairwise h hr)
      · split at hr
        · next hlast =>
          exact Nat.le_trans hlast (Nat.le_of_lt ((List.pairwise_cons.mp h).1 r hr))
        · exact ih (List.pairwise_cons.mp h).2 hr

/-- **A character below 128** is among the moves exactly if it is among those before the cut. -/
theorem covers_asciiMoves_iff (h : s.moves.Pairwise Precedes) (hc : c < 128) :
    Covers s.moves c ↔ Covers s.asciiMoves c := by
  have hnone : ¬ Covers s.nonAsciiMoves c := by
    rintro ⟨r, hr, hfirst, -⟩
    have := le_first_of_mem_nonAsciiMoves h hr
    omega
  rw [← s.asciiMoves_append_nonAsciiMoves, covers_append, or_iff_left hnone]

/-- The first range tells whether there is a character below 128. -/
theorem hasAsciiMoves_iff (h : s.moves.Pairwise Precedes) :
    s.hasAsciiMoves = true ↔ ∃ c < 128, Covers s.moves c := by
  rw [hasAsciiMoves]
  cases hmoves : s.moves with
  | nil => simp
  | cons a rest =>
      rw [List.head?_cons, Option.any_some, decide_eq_true_iff]
      constructor
      · exact fun hfirst => ⟨a.first, hfirst, covers_first a rest⟩
      · rintro ⟨c, hc, r, hr, hfirst, -⟩
        have := first_le_of_pairwise (hmoves ▸ h) hr
        omega

/-- The last range tells whether there is a character of 128 or above. -/
theorem hasNonAsciiMoves_iff (h : s.moves.Pairwise Precedes) :
    s.hasNonAsciiMoves = true ↔ ∃ c, 128 ≤ c ∧ Covers s.moves c := by
  rw [hasNonAsciiMoves]
  rcases List.eq_nil_or_concat s.moves with hmoves | ⟨init, a, hmoves⟩
  · rw [hmoves]
    simp
  · rw [List.concat_eq_append] at hmoves
    rw [hmoves, List.getLast?_concat, Option.any_some, decide_eq_true_iff]
    constructor
    · exact fun hlast => ⟨a.last, hlast, a, List.mem_append_right init (List.mem_singleton_self a),
        a.first_le_last, Nat.le_refl _⟩
    · rintro ⟨c, hc, r, hr, -, hlast⟩
      have := last_le_of_pairwise (hmoves ▸ h) hr
      omega

end State

namespace Automaton

open CharRange

variable {A B C : Automaton}

/-- In every state, the moves are in order and have nothing in common. -/
def InOrder (A : Automaton) : Prop := ∀ x, (A.state x).moves.Pairwise Precedes

/-! ### Where moves come from -/

/-- The case variants of a character are in order. -/
theorem pairwise_characterMoves (ignoreCase : Bool) (c : Nat) :
    (characterMoves ignoreCase c).Pairwise Precedes := by
  rw [characterMoves]
  split
  · refine (OrderedSet.increasing _).imp_of_mem fun {r s} hr hs hlt => ?_
    have hpoint : ∀ {t}, t ∈ OrderedSet.ofList [CharRange.point ((CaseMap.simpleUpper c).getD c),
        .point ((CaseMap.simpleLower c).getD c), .point c] → ∃ d, t = .point d := by
      intro t ht
      simp only [OrderedSet.mem_ofList, List.mem_cons, List.not_mem_nil, or_false] at ht
      rcases ht with rfl | rfl | rfl <;> exact ⟨_, rfl⟩
    obtain ⟨d, rfl⟩ := hpoint hr
    obtain ⟨e, rfl⟩ := hpoint hs
    exact precedes_point hlt
  · exact List.pairwise_singleton _ _

/-! ### Construction steps -/

/-- A fresh state has no moves that could be out of order. -/
theorem InOrder.addState (h : A.InOrder) : (A.addState {}).2.InOrder := fun x => by
  rw [state_addState]
  split
  · exact .nil
  · exact h x

/-- The moves stay in order if those of the changed state do. -/
theorem InOrder.modify (h : A.InOrder) {id : Nat} {f : State → State}
    (hf : ∀ s, s.moves.Pairwise Precedes → (f s).moves.Pairwise Precedes) :
    (A.modify id f).InOrder := fun x => by
  rw [state_modify]
  split
  · exact hf _ (h x)
  · exact h x

/-- An edge does not touch the moves. -/
theorem InOrder.addEpsilon (h : A.InOrder) (x y : Nat) : (A.addEpsilon x y).InOrder :=
  h.modify fun _ hs => hs

/-- Fresh states have no moves that could be out of order. -/
theorem InOrder.addPair (h : A.InOrder) : A.addPair.2.InOrder := h.addState.addState

/-- A class whose ranges are in order adds moves in order. -/
theorem InOrder.addClass (h : A.InOrder) {ranges : List CharRange}
    (hranges : ranges.Pairwise Precedes) : (A.addClass ranges).2.InOrder :=
  h.addPair.modify fun _ _ => hranges

/-- The characters of a text add moves in order. -/
theorem InOrder.addCharacters (h : A.InOrder) (ignoreCase : Bool) (cs : List Nat) (source : Nat) :
    (addCharacters ignoreCase cs source A).2.InOrder := by
  induction cs generalizing source A with
  | nil => exact h
  | cons c rest ih =>
      exact ih (h.addState.modify fun _ _ => pairwise_characterMoves ignoreCase c) _

/-- A text adds moves in order. -/
theorem InOrder.addText (h : A.InOrder) (ignoreCase : Bool) (image : String) :
    (A.addText ignoreCase image).2.InOrder :=
  h.addState.addCharacters ignoreCase _ _

/-- Connecting fragments does not touch the moves. -/
theorem InOrder.connect (h : A.InOrder) (fragments : List Fragment) (source target : Nat) :
    (connect source fragments target A).InOrder := by
  induction fragments generalizing source A with
  | nil => exact h.addEpsilon source target
  | cons f rest ih => exact ih (h.addEpsilon source f.start) f.finish

/-- A chain of fragments does not touch the moves. -/
theorem InOrder.chain (h : A.InOrder) (fragments : List Fragment) :
    (A.chain fragments).2.InOrder := by
  rw [Automaton.chain.eq_def]
  split
  · exact h
  · exact h.addPair.connect _ _ _

/-- Enclosing a fragment does not touch the moves. -/
theorem InOrder.enclose (h : A.InOrder) (outer inner : Fragment) (skip again : Bool) :
    (A.enclose outer inner skip again).InOrder := by
  have hthrough := (h.addEpsilon outer.start inner.start).addEpsilon inner.finish outer.finish
  cases skip <;> cases again
  · exact hthrough
  · exact hthrough.addEpsilon _ _
  · exact hthrough.addEpsilon _ _
  · exact (hthrough.addEpsilon _ _).addEpsilon _ _

end Automaton

/-! ### Trees -/

/-- The construction step keeps the moves in order. -/
def Assembly.KeepsOrder (a : Assembly) : Prop :=
  ∀ A made, a A = .ok made → A.InOrder → made.2.InOrder

/-- A point keeps the moves in order. -/
theorem Assembly.keepsOrder_addPoint : Assembly.KeepsOrder fun A => .ok A.addPoint := by
  intro A made h hA
  obtain rfl := Except.ok.inj h
  exact hA.addState

/-- A copy keeps the moves in order if its operand does. -/
theorem Copy.keepsOrder_assemble {operand : Assembly} (h : operand.KeepsOrder) (copy : Copy) :
    (copy.assemble operand).KeepsOrder := by
  intro A made hmade hA
  cases copy with
  | plain => exact h A made hmade hA
  | enclosed skip again =>
      obtain ⟨⟨inner, B⟩, hB, hmade⟩ := exists_of_bind_eq_ok (x := operand A.addPair.2) hmade
      obtain rfl := Except.ok.inj hmade
      exact (h _ _ hB hA.addPair).enclose A.addPair.1 inner skip again

/-- Copies of an operand keep the moves in order if the operand does. -/
theorem keepsOrder_assembleCopies {operand : Assembly} (h : operand.KeepsOrder)
    (copies : List Copy) : ∀ A made, assembleCopies operand copies A = .ok made → A.InOrder →
      made.2.InOrder := by
  induction copies with
  | nil =>
      intro A made hmade hA
      obtain rfl := Except.ok.inj hmade
      exact hA
  | cons copy rest ih =>
      intro A made hmade hA
      obtain ⟨⟨f, B⟩, hB, hmade⟩ := exists_of_bind_eq_ok (x := copy.assemble operand A) hmade
      obtain ⟨⟨fs, C⟩, hC, hmade⟩ := exists_of_bind_eq_ok (x := assembleCopies operand rest B) hmade
      obtain rfl := Except.ok.inj hmade
      exact ih B (fs, C) hC (copy.keepsOrder_assemble h A _ hB hA)

namespace Regex

variable {folding : CaseFolding} {expand : String → Assembly}

mutual

/-- **The construction of a tree** keeps the moves in order, if that of its names does. -/
theorem keepsOrder_assemble (hname : ∀ name, (expand name).KeepsOrder) : (r : Regex) →
    Assembly.KeepsOrder (r.assemble folding expand)
  | chars set negated => by
    intro A made h hA
    obtain ⟨ranges, hranges, h⟩ :=
      exists_of_bind_eq_ok (x := set.orderedRanges folding.classes negated) h
    obtain rfl := Except.ok.inj h
    exact hA.addClass ((CharSet.separated_orderedRanges hranges).imp Nat.lt_of_succ_lt)
  | text image => by
    intro A made h hA
    obtain rfl := Except.ok.inj h
    exact hA.addText folding.texts image
  | concat parts => by
    intro A made h hA
    obtain ⟨⟨fs, C⟩, hC, h⟩ := exists_of_bind_eq_ok (x := assembleAll folding expand parts A) h
    obtain rfl := Except.ok.inj h
    exact (keepsOrder_assembleAll hname parts A _ hC hA).chain fs
  | choice [] => by
    intro A made h hA
    obtain rfl := Except.ok.inj h
    exact hA.addPair
  | choice [alternative] => keepsOrder_assemble hname alternative
  | choice (first :: second :: rest) => by
    intro A made h hA
    obtain ⟨C, hC, h⟩ := exists_of_bind_eq_ok (x := assembleBetween folding expand A.addPair.1
      (first :: second :: rest) A.addPair.2) h
    obtain rfl := Except.ok.inj h
    exact keepsOrder_assembleBetween hname (first :: second :: rest) _ _ C hC hA.addPair
  | repeated q (body :: _) => by
    intro A made h hA
    obtain ⟨⟨fs, C⟩, hC, h⟩ := exists_of_bind_eq_ok
      (x := assembleCopies (body.assemble folding expand) q.copies A) h
    obtain rfl := Except.ok.inj h
    exact (keepsOrder_assembleCopies (keepsOrder_assemble hname body) q.copies A _ hC hA).chain fs
  | repeated q [] => by
    intro A made h hA
    rw [assemble] at h
    split at h
    · obtain rfl := Except.ok.inj h
      exact hA.chain []
    · cases h
  | reference name => hname name
  | endOfInput => Assembly.keepsOrder_addPoint

/-- A list of trees keeps the moves in order if the names do. -/
theorem keepsOrder_assembleAll (hname : ∀ name, (expand name).KeepsOrder) : (rs : List Regex) →
    ∀ A made, assembleAll folding expand rs A = .ok made → A.InOrder → made.2.InOrder
  | [] => by
    intro A made h hA
    obtain rfl := Except.ok.inj h
    exact hA
  | r :: rest => by
    intro A made h hA
    obtain ⟨⟨f, B⟩, hB, h⟩ := exists_of_bind_eq_ok (x := r.assemble folding expand A) h
    obtain ⟨⟨fs, C⟩, hC, h⟩ := exists_of_bind_eq_ok (x := assembleAll folding expand rest B) h
    obtain rfl := Except.ok.inj h
    exact keepsOrder_assembleAll hname rest B (fs, C) hC (keepsOrder_assemble hname r A _ hB hA)

/-- Alternatives keep the moves in order if the names do. -/
theorem keepsOrder_assembleBetween (hname : ∀ name, (expand name).KeepsOrder) :
    (rs : List Regex) → ∀ (outer : Fragment) (A B : Automaton),
      assembleBetween folding expand outer rs A = .ok B → A.InOrder → B.InOrder
  | [] => by
    intro outer A B h hA
    obtain rfl := Except.ok.inj h
    exact hA
  | r :: rest => by
    intro outer A B h hA
    obtain ⟨⟨inner, C⟩, hC, h⟩ := exists_of_bind_eq_ok (x := r.assemble folding expand A) h
    exact keepsOrder_assembleBetween hname rest outer _ B h
      ((keepsOrder_assemble hname r A _ hC hA).enclose outer inner false false)

end

end Regex

/-! ### Preparation -/

namespace Automaton

variable {A B : Automaton}

/-- **The preparation of an automaton** keeps the moves in order: it does not touch them. -/
theorem InOrder.prepare (h : A.InOrder) (hA : A.Unprepared) (hB : A.prepare = .ok B) :
    B.InOrder := fun x => by
  obtain ⟨C, -, htracks, hkeeps, -⟩ := prepare_keeps hA hB
  rw [hkeeps.moves_eq, (htracks.state x).moves_eq]
  exact h x

end Automaton

end GrammarAnalysis
