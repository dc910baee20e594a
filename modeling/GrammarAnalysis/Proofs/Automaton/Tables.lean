import GrammarAnalysis.Proofs.Automaton.Numbering

/-!
# Runs Through the Tables

The generated lexer does not know the closures of the states. It knows the states that were given
an index, and goes on only in these: after a move, the state that stands for the closure is looked
up, and the run ends there if this state has no index.

Nothing is lost in this way. A closure of several states has its composite, and every composite is
numbered. A closure of one state is that state itself; it has no index only if its moves lead to
states that accept nothing and go nowhere.

## Main definitions

* `Automaton.standsFor`: the states with moves that a state of the tables stands for;
* `Automaton.acceptsByTables`: the run that goes on in numbered states only;
* `Automaton.acceptsFrom`: the run through the closures, from those of a state on;
* `Automaton.Indexes`: an automaton, and the same with the states numbered that a run needs.

## Main results

* `Automaton.Indexes.isSome_or_idle`: a member of a closure that was not numbered is idle;
* `Automaton.acceptsByTables_eq`: the two runs accept the same words.
-/

namespace GrammarAnalysis

namespace Automaton

/-! ### The two runs -/

/-- The states that a state stands for: the members of a composite state, and otherwise the state
itself if it has moves. -/
def standsFor (A : Automaton) (id : Nat) : List Nat :=
  match (A.state id).members with
  | some members => members.toList
  | none => if (A.state id).hasMoves then [id] else []

/-- Where a run through the tables goes on after it has entered state `t`: in the states that the
canonical form of `t` stands for, if that has an index. -/
def continued (A : Automaton) (t : Nat) : List Nat :=
  if (A.state (A.canonical t)).index.isSome then A.standsFor (A.canonical t) else []

/-- The states that the last code point of a word leads to, from the states `current` on, if the
run goes on in numbered states only. -/
def lastByTables (A : Automaton) : (current : List Nat) → (word : List Nat) → List Nat
  | _, [] => []
  | current, [c] => A.enteredBy current c
  | current, c :: d :: rest =>
      A.lastByTables ((A.enteredBy current c).flatMap A.continued) (d :: rest)

/-- The run through the tables, which begins in the initial state, accepts the word with this
pattern. -/
def acceptsByTables (A : Automaton) (pattern : Nat) (word : List Nat) : Bool :=
  (A.lastByTables (A.standsFor A.initial) word).any fun t => (A.state t).accepts == some pattern

/-- The run through the closures, which begins in that of state `x`, accepts the word with this
pattern. -/
def acceptsFrom (A : Automaton) (x pattern : Nat) (word : List Nat) : Bool :=
  (A.lastEntered (A.state x).epsilon.toList word).any fun t => (A.state t).accepts == some pattern

/-- The moves of the state, if it has any, lead to states that accept nothing and go nowhere. -/
def Idle (A : Automaton) (m : Nat) : Prop :=
  ∀ c t, A.enters m c = some t → (A.state t).accepts = none ∧ (A.state t).epsilon = ∅

variable {A B C : Automaton}

/-! ### The states with an index -/

/-- `B` is `A` with its states numbered: `first` is the first one, and each live state whose moves
need code has an index. -/
structure Indexes (A B : Automaton) (first : Nat) : Prop where
  keeps : A.Keeps B
  initial_eq : B.initial = first
  canonical_eq : ∀ x, B.canonical x = A.canonical x
  index_eq_zero_iff : ∀ x, (B.state x).index = some 0 ↔ x = first
  isSome : ∀ x ∈ A.live, x < A.size → A.needsMoveCode x → (B.state x).index.isSome

/-- The indices of a numbered automaton are those of its live states. -/
theorem Tabulates.indexes {first : Nat} {composites others inner : List Nat}
    (h : A.Tabulates B first composites others inner) (live : OrderedSet Nat) :
    A.Indexes { B with live := live } first where
  keeps := ⟨h.relabels.keeps.size_le, h.relabels.keeps.state⟩
  initial_eq := h.initial_eq
  canonical_eq := h.relabels.canonical_eq
  index_eq_zero_iff := fun x => by
    rw [← h.numbered.isFirst_iff, isFirst, beq_iff_eq]
    rfl
  isSome := fun x hx _ hneeds => by
    refine h.numbered.isSome_iff.mpr ?_
    simp only [List.mem_cons, List.mem_append, h.mem_composites, h.mem_others, h.mem_inner]
    by_cases hfirst : x = first
    · exact .inl hfirst
    · refine .inr ?_
      by_cases hcomposite : (A.state x).isComposite
      · exact .inl ⟨hx, hfirst, hcomposite⟩
      · by_cases hinner : A.Inner first x
        · exact .inr (.inr hinner)
        · exact .inr (.inl ⟨hx, hfirst, Bool.eq_false_iff.mpr hcomposite, hneeds, hinner⟩)

/-- The canonical form of the initial state is the first state. -/
theorem indexes_of_unnumbered (hA : A.Unnumbered) :
    A.addComposites.Indexes A.addComposites.assignIndices
      (A.addComposites.canonical A.initial) := by
  obtain ⟨B, composites, others, inner, hB, heq⟩ := tabulates_of_unnumbered hA
  rw [heq]
  exact hB.indexes _

/-! ### The states of a run -/

/-- The same states have moves. -/
theorem Keeps.hasMoves_eq (h : A.Keeps B) (x : Nat) :
    (B.state x).hasMoves = (A.state x).hasMoves := by
  rw [State.hasMoves, State.hasMoves, h.moves_eq]

/-- A state without moves is idle. -/
theorem idle_of_not_hasMoves {m : Nat} (h : ¬ (A.state m).hasMoves) : A.Idle m :=
  fun _ _ hm => absurd (hasMoves_of_enters hm) h

/-- A state that is alone in its closure is its own canonical form. -/
theorem canonical_of_alone {m : Nat} (h : (A.state m).epsilon = .singleton m) :
    A.canonical m = m := by
  have hlist : (A.state m).epsilon.toList = [m] := by rw [h]; rfl
  rw [canonical, hlist]
  simp only [ite_self]

/-- **A state that is alone in its closure is numbered, or idle.** -/
theorem Indexes.isSome_or_idle {first m : Nat} (h : A.Indexes B first) (hlive : m ∈ A.live)
    (hm : m < A.size) (hplain : (A.state m).members = none)
    (halone : (A.state m).epsilon = .singleton m) :
    (B.state m).index.isSome ∨ B.Idle m := by
  by_cases hneeds : A.needsMoveCode m
  · exact .inl (h.isSome m hlive hm hneeds)
  · refine .inr fun c t ht => ?_
    have hsingle : (A.state m).isComposite = false := by rw [State.isComposite, hplain]; rfl
    rw [h.keeps.enters_eq, enters] at ht
    rw [needsMoveCode, canonical_of_alone halone, hsingle] at hneeds
    split at ht
    · rw [ht] at hneeds
      simp only [Bool.false_eq_true, if_false, Bool.or_eq_true, not_or, Option.isSome_iff_ne_none,
        ne_eq, not_not, Bool.not_eq_true', Bool.not_eq_false] at hneeds
      rw [h.keeps.accepts_eq, h.keeps.epsilon_eq]
      refine ⟨hneeds.1, OrderedSet.ext fun y => ?_⟩
      rw [← OrderedSet.mem_toList, List.isEmpty_iff.mp hneeds.2]
      simp
    · cases ht

/-- Where the run through the tables goes on is in the closure, and what is missing is idle. -/
theorem continued_spec (hA : A.Unnumbered) {first : Nat} (hB : A.addComposites.Indexes B first)
    {t : Nat} (ht : t < A.size) :
    (∀ m ∈ B.continued t, B.Slips t m) ∧ ∀ m, B.Slips t m → m ∈ B.continued t ∨ B.Idle m := by
  obtain ⟨hcondenses, hhoused, -, hrepresented, hplain⟩ := hA.condensed
  have hkeeps := hcondenses.keeps.trans hB.keeps
  have hnone : ∀ x, x < A.size → (B.state x).members = none := fun x hx =>
    (hkeeps.members_eq hx).trans (hA.plain x)
  have hslips : ∀ m, B.Slips t m ↔ m ∈ (A.addComposites.state t).epsilon.toList := fun m => by
    rw [Slips, hB.keeps.epsilon_eq, OrderedSet.mem_toList]
  have hlt : ∀ m, B.Slips t m → m < A.size := fun m hm =>
    hA.slips_lt t m (by rwa [Slips, hkeeps.epsilon_eq] at hm)
  simp only [continued, hB.canonical_eq]
  rcases canonical_cases (hplain t ht) (hrepresented t ht) with
    ⟨hself, hempty⟩ | honly | hlookup
  · -- the closure is empty, so the state has no moves
    have hmoves : ¬ (B.state t).hasMoves := fun hmoves => by
      rw [hkeeps.hasMoves_eq] at hmoves
      rw [hcondenses.keeps.epsilon_eq, hA.alone t hmoves] at hempty
      cases hempty
    rw [hself, standsFor, hnone t ht]
    simp [hmoves, hslips, hempty]
  · -- the closure is one state
    generalize A.addComposites.canonical t = m at honly ⊢
    have hmem : ∀ y, B.Slips t y ↔ y = m := fun y => by rw [hslips, honly, List.mem_singleton]
    have hmlt := hlt m ((hmem m).mpr rfl)
    rw [standsFor, hnone m hmlt]
    simp only [hmem]
    constructor
    · intro y hy
      by_cases hmoves : (B.state m).hasMoves <;> simp [hmoves] at hy
      exact hy.2
    · rintro y rfl
      by_cases hmoves : (B.state y).hasMoves
      · have halone : (A.state y).epsilon = .singleton y :=
          hA.alone y (by rwa [hkeeps.hasMoves_eq] at hmoves)
        refine (hB.isSome_or_idle (hcondenses.live y (hA.mem_live y hmlt) (.inr halone))
          (Nat.lt_of_lt_of_le hmlt hcondenses.keeps.size_le) (hplain y hmlt)
          (by rw [hcondenses.keeps.epsilon_eq, halone])).imp_left fun hsome => ?_
        simp [hsome, hmoves]
      · exact .inr (idle_of_not_hasMoves hmoves)
  · -- the closure has a composite
    generalize A.addComposites.canonical t = k at hlookup ⊢
    obtain ⟨hk, hmembers⟩ := hhoused.composed _ k (mem_of_lookup hlookup)
    have hcomposite : (A.addComposites.state k).isComposite := by
      rw [State.isComposite, hmembers]
      rfl
    have hsome := hB.isSome k (hhoused.live _ k (mem_of_lookup hlookup)) hk
      (by rw [needsMoveCode, hcomposite]; rfl)
    rw [if_pos hsome, standsFor, hB.keeps.members_eq hk, hmembers]
    exact ⟨fun m hm => (hslips m).mpr hm, fun m hm => .inl ((hslips m).mp hm)⟩

/-! ### The words -/

/-- **The run through the tables** enters the same states as the one through the closures, up to
states that accept nothing and go nowhere. -/
theorem exists_lastByTables_iff (hlt : ∀ x c y, B.enters x c = some y → y < A.size)
    (hcontinued : ∀ t, t < A.size →
      (∀ m ∈ B.continued t, B.Slips t m) ∧ ∀ m, B.Slips t m → m ∈ B.continued t ∨ B.Idle m)
    (pattern : Nat) (w : List Nat) :
    ∀ {closed tabled : List Nat}, (∀ m ∈ tabled, m ∈ closed) →
      (∀ m ∈ closed, m ∈ tabled ∨ B.Idle m) →
      ((∃ t ∈ B.lastByTables tabled w, (B.state t).accepts = some pattern) ↔
        ∃ t ∈ B.lastEntered closed w, (B.state t).accepts = some pattern) := by
  induction w with
  | nil => exact fun _ _ => Iff.rfl
  | cons c w ih =>
      intro closed tabled hsub hidle
      have hentered : ∀ t ∈ B.enteredBy tabled c, t ∈ B.enteredBy closed c := fun t ht => by
        obtain ⟨m, hm, hmove⟩ := mem_enteredBy.mp ht
        exact mem_enteredBy.mpr ⟨m, hsub m hm, hmove⟩
      have hmissing : ∀ t ∈ B.enteredBy closed c, t ∈ B.enteredBy tabled c ∨
          (B.state t).accepts = none ∧ (B.state t).epsilon = ∅ := fun t ht => by
        obtain ⟨m, hm, hmove⟩ := mem_enteredBy.mp ht
        exact (hidle m hm).imp (fun hm => mem_enteredBy.mpr ⟨m, hm, hmove⟩) fun h => h c t hmove
      cases w with
      | nil =>
          constructor
          · rintro ⟨t, ht, hp⟩
            exact ⟨t, hentered t ht, hp⟩
          · rintro ⟨t, ht, hp⟩
            rcases hmissing t ht with ht | ⟨hnone, -⟩
            · exact ⟨t, ht, hp⟩
            · rw [hnone] at hp
              cases hp
      | cons d w =>
          refine ih (fun m hm => ?_) fun m hm => ?_
          · obtain ⟨t, ht, hm⟩ := List.mem_flatMap.mp hm
            obtain ⟨x, -, hmove⟩ := mem_enteredBy.mp ht
            exact List.mem_flatMap.mpr ⟨t, hentered t ht, (hcontinued t (hlt x c t hmove)).1 m hm⟩
          · obtain ⟨t, ht, hm⟩ := List.mem_flatMap.mp hm
            obtain ⟨x, -, hmove⟩ := mem_enteredBy.mp ht
            rcases hmissing t ht with ht | ⟨-, hempty⟩
            · exact ((hcontinued t (hlt x c t hmove)).2 m hm).imp_left fun hm =>
                List.mem_flatMap.mpr ⟨t, ht, hm⟩
            · rw [hempty] at hm
              exact absurd hm List.not_mem_nil

/-- **The tables lose nothing**: after the states of a closed automaton were replaced and numbered,
the run in numbered states accepts what the run through the closures does. -/
theorem acceptsByTables_eq (hA : A.Unnumbered) (hB : A.addComposites.assignIndices = B) :
    (∀ x, (B.state x).index = some 0 ↔ x = B.initial) ∧
      ∀ pattern w, B.acceptsByTables pattern w = B.acceptsFrom A.initial pattern w := by
  have hindexes := indexes_of_unnumbered hA
  rw [hB] at hindexes
  have hcontinued := fun t (ht : t < A.size) => continued_spec hA hindexes ht
  have hkeeps := (addComposites_spec (composed_of_nil hA.composites_eq)).1.trans hindexes.keeps
  have hstart : B.standsFor B.initial = B.continued A.initial := by
    have hzero := (hindexes.index_eq_zero_iff _).mpr rfl
    rw [continued, hindexes.canonical_eq, hzero, hindexes.initial_eq]
    rfl
  refine ⟨fun x => by rw [hindexes.index_eq_zero_iff, hindexes.initial_eq], fun pattern w => ?_⟩
  obtain ⟨hsub, hidle⟩ := hcontinued A.initial hA.initial_lt
  have hrun := exists_lastByTables_iff (A := A)
    (fun x c y hmove => hA.enters_lt x c y (by rwa [hkeeps.enters_eq] at hmove)) hcontinued
    pattern w hsub (fun m hm => hidle m (OrderedSet.mem_toList.mp hm))
  rw [Bool.eq_iff_iff, acceptsByTables, acceptsFrom, hstart]
  simp only [List.any_eq_true, beq_iff_eq]
  exact hrun

end Automaton

end GrammarAnalysis
