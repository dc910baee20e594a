import GrammarAnalysis.Automaton.Construction

/-!
# Paths

A path through an automaton spells the word that its moves consume. A fragment is *sealed* when
no edge leaves its region of states and nothing leaves its finish, so that later additions can
only go on from there. A path from its start to a state outside then splits at the finish, into
a path inside of the fragment and one of what was added.

## Main definitions

* `Automaton.Spells`, `Automaton.Leads`: paths, with the number of steps and without;
* `Automaton.Sealed`: a fragment that can only be left from its finish;
* `Automaton.SameInside`: a later automaton, in which edges may go on from the finish.

## Main results

* `Automaton.Sealed.split`, `Automaton.Sealed.join`: paths through a fragment in a later
  automaton;
* `Automaton.Sealed.settles`, `Automaton.Sealed.settles_of_not_leads`: whether one can go on
  forever without consuming anything.
-/

namespace GrammarAnalysis

namespace Automaton

/-- State `x` goes to state `y` without consuming anything. -/
def Slips (A : Automaton) (x y : Nat) : Prop := y ∈ (A.state x).epsilon

/-- `A.Spells t k x w`: a path of `k` steps from `x` to `t` spells `w`. -/
inductive Spells (A : Automaton) (t : Nat) : Nat → Nat → List Nat → Prop
  | done : Spells A t 0 t []
  | slip {k x y : Nat} {w : List Nat} : A.Slips x y → Spells A t k y w → Spells A t (k + 1) x w
  | move {k x y c : Nat} {w : List Nat} : A.enters x c = some y → Spells A t k y w →
      Spells A t (k + 1) x (c :: w)

/-- Some path from `x` to `t` spells `w`. -/
def Leads (A : Automaton) (x t : Nat) (w : List Nat) : Prop := ∃ k, A.Spells t k x w

/-- From `x` one cannot go on forever without consuming anything. -/
def Settles (A : Automaton) (x : Nat) : Prop := Acc (fun y x => A.Slips x y) x

/-- A state from which the construction may still go on: all that it does is to go to the states
of `targets` without consuming anything. -/
structure Forks (A : Automaton) (x : Nat) (targets : List Nat) : Prop where
  plain : A.state x = { epsilon := (A.state x).epsilon }
  slips_iff : ∀ y, A.Slips x y ↔ y ∈ targets

variable {A B : Automaton}

/-- A state with a property that a blank state does not have is one of the automaton. -/
theorem lt_size_of_state {P : State → Prop} {x : Nat} (h : P (A.state x)) (hblank : ¬ P {}) :
    x < A.size := by
  refine Nat.lt_of_not_le fun hx => ?_
  rw [state_of_size_le hx] at h
  exact hblank h

/-- Only states of the automaton go on without consuming anything. -/
theorem Slips.lt_size {x y : Nat} (h : A.Slips x y) : x < A.size :=
  lt_size_of_state (P := fun s => y ∈ s.epsilon) h OrderedSet.not_mem_empty

/-- Only states of the automaton have moves. -/
theorem lt_size_of_hasMoves {x : Nat} (h : (A.state x).hasMoves) : x < A.size :=
  lt_size_of_state (P := fun s => s.hasMoves) h Bool.false_ne_true

/-- Only states of the automaton can be left by a move. -/
theorem lt_size_of_enters {x c y : Nat} (h : A.enters x c = some y) : x < A.size :=
  lt_size_of_state (P := fun s => (if s.consumes c then s.next else none) = some y) h nofun

/-- Only states of the automaton accept a pattern. -/
theorem lt_size_of_accepts {x pattern : Nat} (h : (A.state x).accepts = some pattern) :
    x < A.size :=
  lt_size_of_state (P := fun s => s.accepts = some pattern) h nofun

/-! ### Paths -/

/-- A state leads to itself with the empty word. -/
theorem Leads.refl (t : Nat) : A.Leads t t [] := ⟨0, .done⟩

/-- A path of some number of steps is a path. -/
theorem Spells.leads {t k x : Nat} {w : List Nat} (h : A.Spells t k x w) : A.Leads x t w := ⟨k, h⟩

/-- A path may begin with a step that consumes nothing. -/
theorem Leads.slip {x y t : Nat} {w : List Nat} (h : A.Slips x y) (hl : A.Leads y t w) :
    A.Leads x t w := by
  obtain ⟨k, hk⟩ := hl
  exact ⟨k + 1, .slip h hk⟩

/-- A path may begin with a move, which spells its code point. -/
theorem Leads.move {x y t c : Nat} {w : List Nat} (h : A.enters x c = some y)
    (hl : A.Leads y t w) : A.Leads x t (c :: w) := by
  obtain ⟨k, hk⟩ := hl
  exact ⟨k + 1, .move h hk⟩

/-- Two paths make one, which spells both words. -/
theorem Leads.trans {x y t : Nat} {u v : List Nat} (h : A.Leads x y u) (hl : A.Leads y t v) :
    A.Leads x t (u ++ v) := by
  obtain ⟨k, hk⟩ := h
  induction hk with
  | done => exact hl
  | slip hs _ ih => exact (ih).slip hs
  | move hm _ ih => exact (ih).move hm

/-- Where a state enters depends on the state only. -/
theorem enters_congr {x c : Nat} (h : B.state x = A.state x) : B.enters x c = A.enters x c := by
  simp only [enters, h]

/-- Where a state slips to depends on the state only. -/
theorem slips_congr {x y : Nat} (h : B.state x = A.state x) : B.Slips x y ↔ A.Slips x y := by
  simp only [Slips, h]

/-! ### States that fork -/

/-- A state that forks has no moves. -/
theorem Forks.not_enters {x c : Nat} {targets : List Nat} (h : A.Forks x targets) :
    A.enters x c = none := by
  simp only [enters, State.consumes]
  rw [h.plain]
  rfl

/-- Whether a state forks depends on the state only. -/
theorem Forks.congr {x : Nat} {targets : List Nat} (h : A.Forks x targets)
    (hx : B.state x = A.state x) : B.Forks x targets where
  plain := by rw [hx]; exact h.plain
  slips_iff := fun y => (slips_congr hx).trans (h.slips_iff y)

/-- A fresh state does nothing. -/
theorem forks_nil_iff {x : Nat} : A.Forks x [] ↔ A.state x = {} := by
  constructor
  · intro h
    have hempty : (A.state x).epsilon = ∅ := OrderedSet.ext fun y =>
      ⟨fun hy => absurd ((h.slips_iff y).mp hy) List.not_mem_nil,
        fun hy => absurd hy OrderedSet.not_mem_empty⟩
    rw [h.plain, hempty]
  · intro h
    refine ⟨by rw [h], fun y => ?_⟩
    rw [Slips, h]
    simp

/-- Where a path from a forking state leads to in its first step. -/
theorem Forks.spells_iff {x t k : Nat} {w : List Nat} {targets : List Nat}
    (h : A.Forks x targets) (ht : x ≠ t) :
    A.Spells t k x w ↔ ∃ y ∈ targets, ∃ j, k = j + 1 ∧ A.Spells t j y w := by
  constructor
  · intro hs
    cases hs with
    | done => exact absurd rfl ht
    | @slip j _ y _ hxy hrest => exact ⟨y, (h.slips_iff y).mp hxy, j, rfl, hrest⟩
    | move hm _ =>
        rw [h.not_enters] at hm
        cases hm
  · rintro ⟨y, hy, j, rfl, hrest⟩
    exact .slip ((h.slips_iff y).mpr hy) hrest

/-- A path from a state that forks begins with a step to one of its targets. -/
theorem Forks.leads_iff {x t : Nat} {w : List Nat} {targets : List Nat} (h : A.Forks x targets)
    (ht : x ≠ t) : A.Leads x t w ↔ ∃ y ∈ targets, A.Leads y t w := by
  constructor
  · rintro ⟨k, hk⟩
    obtain ⟨y, hy, j, -, hj⟩ := (h.spells_iff ht).mp hk
    exact ⟨y, hy, j, hj⟩
  · rintro ⟨y, hy, j, hj⟩
    exact ⟨j + 1, (h.spells_iff ht).mpr ⟨y, hy, j, rfl, hj⟩⟩

/-- A path from a fresh state ends there. -/
theorem Forks.spells_nil {x t k : Nat} {w : List Nat} (h : A.Forks x [])
    (hs : A.Spells t k x w) : x = t ∧ w = [] := by
  by_cases ht : x = t
  · subst ht
    cases hs with
    | done => exact ⟨rfl, rfl⟩
    | slip hxy _ => exact absurd ((h.slips_iff _).mp hxy) List.not_mem_nil
    | move hm _ =>
        rw [h.not_enters] at hm
        cases hm
  · obtain ⟨y, hy, -⟩ := (h.spells_iff ht).mp hs
    exact absurd hy List.not_mem_nil

/-- A state without edges leads to itself with the empty word only. -/
theorem Forks.leads_self_iff {t : Nat} {w : List Nat} (h : A.Forks t []) :
    A.Leads t t w ↔ w = [] := by
  constructor
  · rintro ⟨k, hk⟩
    exact (h.spells_nil hk).2
  · rintro rfl
    exact .refl t

/-- Where a path from a state leads to that only goes on to its target. -/
theorem Forks.leads_target_iff {x t : Nat} {w : List Nat} (h : A.Forks x [t])
    (hfresh : A.Forks t []) (ht : x ≠ t) : A.Leads x t w ↔ w = [] := by
  rw [h.leads_iff ht, ← hfresh.leads_self_iff]
  simp only [List.mem_singleton, exists_eq_left]

/-- A state without edges settles. -/
theorem Forks.settles_nil {x : Nat} (h : A.Forks x []) : A.Settles x :=
  Acc.intro x fun y hy => absurd ((h.slips_iff y).mp hy) List.not_mem_nil

/-- A state that forks settles if its targets do. -/
theorem Forks.settles {x : Nat} {targets : List Nat} (h : A.Forks x targets)
    (hs : ∀ y ∈ targets, A.Settles y) : A.Settles x :=
  Acc.intro x fun y hy => hs y ((h.slips_iff y).mp hy)

/-! ### Sealed fragments -/

/-- The state has no edge out of the region, and nothing but edges yet. It has moves, or goes on
without consuming anything, but not both. -/
structure Stays (A : Automaton) (lo hi x : Nat) : Prop where
  slips : ∀ y, A.Slips x y → lo ≤ y ∧ y < hi
  enters : ∀ c y, A.enters x c = some y → lo ≤ y ∧ y < hi
  apart : (A.state x).hasMoves → ∀ y, ¬ A.Slips x y
  accepts : (A.state x).accepts = none
  closed : (A.state x).closed = false
  members : (A.state x).members = none
  index : (A.state x).index = none

/-- A fragment in the region of states from `lo` on and below `hi`: it can be left from its
finish only, from where nothing leads on yet. -/
structure Sealed (A : Automaton) (lo hi : Nat) (f : Fragment) : Prop where
  start_mem : lo ≤ f.start ∧ f.start < hi
  finish_mem : lo ≤ f.finish ∧ f.finish < hi
  fresh : A.Forks f.finish []
  stays : ∀ x, lo ≤ x → x < hi → A.Stays lo hi x

/-- In the region, `B` has the same states as `A`, other than `finish`. -/
def SameInside (A B : Automaton) (lo hi finish : Nat) : Prop :=
  ∀ x, lo ≤ x → x < hi → x ≠ finish → B.state x = A.state x

/-- Whether a state stays in a region depends on the state only. -/
theorem Stays.congr {lo hi x : Nat} (h : A.Stays lo hi x) (hx : B.state x = A.state x) :
    B.Stays lo hi x where
  slips := fun y hy => h.slips y ((slips_congr hx).mp hy)
  enters := fun c y hy => h.enters c y (by rwa [enters_congr hx] at hy)
  apart := fun hmoves y hy => h.apart (by rwa [← hx]) y ((slips_congr hx).mp hy)
  accepts := by rw [hx]; exact h.accepts
  closed := by rw [hx]; exact h.closed
  members := by rw [hx]; exact h.members
  index := by rw [hx]; exact h.index

/-- A state that stays in a region stays in a larger one. -/
theorem Stays.mono {lo hi lo' hi' x : Nat} (h : A.Stays lo hi x) (hlo : lo' ≤ lo)
    (hhi : hi ≤ hi') : A.Stays lo' hi' x where
  slips := fun y hy => ⟨Nat.le_trans hlo (h.slips y hy).1, Nat.lt_of_lt_of_le (h.slips y hy).2 hhi⟩
  enters := fun c y hy =>
    ⟨Nat.le_trans hlo (h.enters c y hy).1, Nat.lt_of_lt_of_le (h.enters c y hy).2 hhi⟩
  apart := h.apart
  accepts := h.accepts
  closed := h.closed
  members := h.members
  index := h.index

/-- A state that forks stays in a region that has its targets. -/
theorem Forks.stays {lo hi x : Nat} {targets : List Nat} (h : A.Forks x targets)
    (ht : ∀ y ∈ targets, lo ≤ y ∧ y < hi) : A.Stays lo hi x where
  slips := fun y hy => ht y ((h.slips_iff y).mp hy)
  enters := fun c y hy => by
    rw [h.not_enters] at hy
    cases hy
  apart := fun hmoves => by
    rw [h.plain] at hmoves
    cases hmoves
  accepts := by rw [h.plain]
  closed := by rw [h.plain]
  members := by rw [h.plain]
  index := by rw [h.plain]

section Sealed

variable {lo hi t : Nat} {f : Fragment}

/-- **Splitting**: in a later automaton, a path that starts in the fragment and ends outside, or
at the finish, comes by the finish. -/
theorem Sealed.split (hf : A.Sealed lo hi f) (hB : SameInside A B lo hi f.finish)
    (ht : t < lo ∨ hi ≤ t ∨ t = f.finish) {k x : Nat} {w : List Nat} (hs : B.Spells t k x w)
    (hlo : lo ≤ x) (hhi : x < hi) :
    ∃ u v i j, i + j = k ∧ w = u ++ v ∧ A.Spells f.finish i x u ∧ B.Spells t j f.finish v := by
  induction hs with
  | done =>
      obtain rfl : t = f.finish := by omega
      exact ⟨[], [], 0, 0, rfl, rfl, .done, .done⟩
  | @slip k x y w hxy hrest ih =>
      by_cases hx : x = f.finish
      · subst hx
        exact ⟨[], w, 0, k + 1, Nat.zero_add _, rfl, .done, .slip hxy hrest⟩
      · have hxy' : A.Slips x y := (slips_congr (hB x hlo hhi hx)).mp hxy
        obtain ⟨hylo, hyhi⟩ := (hf.stays x hlo hhi).slips y hxy'
        obtain ⟨u, v, i, j, hk, hw, hu, hv⟩ := ih hylo hyhi
        exact ⟨u, v, i + 1, j, by omega, hw, .slip hxy' hu, hv⟩
  | @move k x y c w hxy hrest ih =>
      by_cases hx : x = f.finish
      · subst hx
        exact ⟨[], c :: w, 0, k + 1, Nat.zero_add _, rfl, .done, .move hxy hrest⟩
      · have hxy' : A.enters x c = some y := by rwa [enters_congr (hB x hlo hhi hx)] at hxy
        obtain ⟨hylo, hyhi⟩ := (hf.stays x hlo hhi).enters c y hxy'
        obtain ⟨u, v, i, j, hk, hw, hu, hv⟩ := ih hylo hyhi
        exact ⟨c :: u, v, i + 1, j, by omega, by rw [hw, List.cons_append],
          .move hxy' hu, hv⟩

/-- **Joining**: a path inside of the fragment is one in a later automaton. -/
theorem Sealed.join (hf : A.Sealed lo hi f) (hB : SameInside A B lo hi f.finish) {x : Nat}
    {u v : List Nat} (hu : A.Leads x f.finish u) (hlo : lo ≤ x) (hhi : x < hi)
    (hv : B.Leads f.finish t v) : B.Leads x t (u ++ v) := by
  obtain ⟨k, hk⟩ := hu
  induction hk with
  | done => exact hv
  | @slip k x y w hxy _ ih =>
      have hx : x ≠ f.finish := by
        rintro rfl
        exact absurd ((hf.fresh.slips_iff y).mp hxy) List.not_mem_nil
      obtain ⟨hylo, hyhi⟩ := (hf.stays x hlo hhi).slips y hxy
      exact (ih hylo hyhi).slip ((slips_congr (hB x hlo hhi hx)).mpr hxy)
  | @move k x y c w hxy _ ih =>
      have hx : x ≠ f.finish := by
        rintro rfl
        rw [hf.fresh.not_enters] at hxy
        cases hxy
      obtain ⟨hylo, hyhi⟩ := (hf.stays x hlo hhi).enters c y hxy
      exact (ih hylo hyhi).move (by rwa [enters_congr (hB x hlo hhi hx)])

/-- If one cannot go on forever inside of the fragment, and not after it, then one cannot in the
later automaton. -/
theorem Sealed.settles (hf : A.Sealed lo hi f) (hB : SameInside A B lo hi f.finish)
    (hfinish : B.Settles f.finish) {x : Nat} (hx : A.Settles x) (hlo : lo ≤ x) (hhi : x < hi) :
    B.Settles x := by
  induction hx with
  | intro x _ ih =>
      by_cases hxf : x = f.finish
      · rw [hxf]
        exact hfinish
      · refine Acc.intro x fun y hy => ?_
        have hy' : A.Slips x y := (slips_congr (hB x hlo hhi hxf)).mp hy
        obtain ⟨hylo, hyhi⟩ := (hf.stays x hlo hhi).slips y hy'
        exact ih y hy' hylo hyhi

/-- If the finish cannot be reached without consuming anything, then it does not matter what
comes after it. -/
theorem Sealed.settles_of_not_leads (hf : A.Sealed lo hi f) (hB : SameInside A B lo hi f.finish)
    {x : Nat} (hx : A.Settles x) (hlo : lo ≤ x) (hhi : x < hi)
    (hfar : ¬ A.Leads x f.finish []) : B.Settles x := by
  induction hx with
  | intro x _ ih =>
      have hxf : x ≠ f.finish := by
        rintro rfl
        exact hfar (.refl _)
      refine Acc.intro x fun y hy => ?_
      have hy' : A.Slips x y := (slips_congr (hB x hlo hhi hxf)).mp hy
      obtain ⟨hylo, hyhi⟩ := (hf.stays x hlo hhi).slips y hy'
      exact ih y hy' hylo hyhi fun h => hfar (h.slip hy')

end Sealed

end Automaton

end GrammarAnalysis
