import GrammarAnalysis.Automaton.Closure
import GrammarAnalysis.Proofs.Automaton.Paths
import Mathlib.Data.Finset.Card
import Mathlib.Data.Finset.Range
import Mathlib.Logic.Relation

/-!
# What Closing Finds

Closing an automaton adds nothing that was not there: what a state gets in its closure, it
reaches without consuming anything, and what it comes to accept is accepted by a state that it
reaches.

It may miss something. A state that is still being closed when another one takes over its
closure hands on what it has at that time. This can only happen on a cycle of steps that
consume nothing, so among states without such cycles each closure is complete.

## Main definitions

* `Automaton.Reaches`: the states reached without consuming anything;
* `Automaton.Tracks`: an automaton on the way from `A₀` to its closed form;
* `Automaton.Gathers`: a state has taken over the closures of its successors.

## Main results

* `Automaton.closeAll_tracks`: closing is sound;
* `Automaton.closeAll_gathers`: closing is complete where there is no cycle.
-/

namespace GrammarAnalysis

/-- A computation over a list keeps `P` and every `Q c`, if its steps do, and it has `Q b` for
each element `b` of the list. -/
theorem foldlM_induction {α β : Type} {f : α → β → Except Fault α} {P : α → Prop}
    {Q : β → α → Prop} {l : List β}
    (hstep : ∀ b ∈ l, ∀ a a', P a → f a b = .ok a' → P a' ∧ Q b a' ∧ ∀ c, Q c a → Q c a')
    {a a' : α} (ha : P a) (h : l.foldlM f a = .ok a') :
    P a' ∧ (∀ b ∈ l, Q b a') ∧ ∀ c, Q c a → Q c a' := by
  induction l generalizing a with
  | nil =>
      obtain rfl : a = a' := Except.ok.inj h
      exact ⟨ha, fun b hb => absurd hb List.not_mem_nil, fun _ hc => hc⟩
  | cons b l ih =>
      obtain ⟨a₁, hb, h⟩ := exists_of_bind_eq_ok (x := f a b) h
      obtain ⟨ha₁, hQ, hkeep⟩ := hstep b List.mem_cons_self a a₁ ha hb
      obtain ⟨ha', hrest, hkeep'⟩ := ih (fun c hc => hstep c (List.mem_cons_of_mem b hc)) ha₁ h
      refine ⟨ha', List.forall_mem_cons.mpr ⟨hkeep' b hQ, hrest⟩, fun c hc => hkeep' c (hkeep c hc)⟩

namespace Automaton

/-- State `x` reaches state `y` without consuming anything. -/
def Reaches (A : Automaton) : Nat → Nat → Prop := Relation.ReflTransGen A.Slips

/-- State `x` of `A₀`, on the way to being closed. -/
structure TracksState (A₀ : Automaton) (x : Nat) (s : State) : Prop where
  moves_eq : s.moves = (A₀.state x).moves
  next_eq : s.next = (A₀.state x).next
  members_eq : s.members = (A₀.state x).members
  index_eq : s.index = (A₀.state x).index
  slips : ∀ y ∈ s.epsilon, A₀.Reaches x y
  accepts : ∀ p, s.accepts = some p → ∃ t, A₀.Reaches x t ∧ (A₀.state t).accepts = some p
  accepts_kept : ∀ p, (A₀.state x).accepts = some p → s.accepts = some p
  untouched : s.closed = false → s = A₀.state x

/-- The automaton `A` is `A₀`, on the way to being closed. -/
structure Tracks (A₀ A : Automaton) : Prop where
  size_eq : A.size = A₀.size
  initial_eq : A.initial = A₀.initial
  live_eq : A.live = A₀.live
  composites_eq : A.composites = A₀.composites
  state : ∀ x, A₀.TracksState x (A.state x)

/-- What was closed in `A`, or was being closed, is the same in `B`. -/
def Frozen (A B : Automaton) : Prop := ∀ x, (A.state x).closed → B.state x = A.state x

/-- The same, with the exception of one state, which remains closed. -/
def FrozenBut (id : Nat) (A B : Automaton) : Prop :=
  (id < A.size → (B.state id).closed) ∧
    ∀ x, x ≠ id → (A.state x).closed → B.state x = A.state x

/-- One successor of state `id` is closed, and its closure taken over. -/
def visit (budget id : Nat) (A : Automaton) (successor : Nat) : Except Fault Automaton := do
  let A ← closeWithin budget successor A
  let A ← A.inherit id successor
  (A.state successor).epsilon.toList.foldlM
    (fun A other => closeWithin budget other (A.absorb id other)) A

/-- The state is closed, or is being closed. -/
def mark (A : Automaton) (id : Nat) : Automaton :=
  A.modify id fun s => { s with closed := true }

/-- State `id` of `A` has taken over all that state `s` of `A₀` reaches. -/
structure Flows (A₀ A : Automaton) (id s : Nat) : Prop where
  slips : ∀ m, A₀.Reaches s m → (A₀.state m).hasMoves → A.Slips id m
  accepts : ∀ t p, A₀.Reaches s t → (A₀.state t).accepts = some p →
    (A.state id).accepts = some p

/-- State `x` of `A` has taken over all that its successors of the kind `G` reach. -/
structure Gathers (A₀ : Automaton) (G : Nat → Prop) (A : Automaton) (x : Nat) : Prop where
  self : (A₀.state x).hasMoves → A.Slips x x
  flows : ∀ s, A₀.Slips x s → G s → Flows A₀ A x s

/-- Among the states of the kind `G` there is no cycle of steps that consume nothing, other than
from a state to itself, and there is no such step to another state. -/
structure Untangled (A₀ : Automaton) (G : Nat → Prop) : Prop where
  lt_size : ∀ x, G x → x < A₀.size
  slips : ∀ x y, G x → A₀.Slips x y → G y
  antisymm : ∀ x y, G x → A₀.Reaches x y → A₀.Reaches y x → y = x

/-- Every closed state has taken over its successors, except for those that are being closed. -/
def Complete (A₀ : Automaton) (G : Nat → Prop) (underway : Nat → Prop) (A : Automaton) : Prop :=
  ∀ x, (A.state x).closed → ¬ underway x → Gathers A₀ G A x

/-- The number of states that are not closed. -/
def pending (A : Automaton) : Nat :=
  ((Finset.range A.size).filter fun x => (A.state x).closed = false).card

/-- With this budget, closing a state keeps the automaton complete, provided that no state of the
kind `G` that it reaches is underway. -/
def Completes (A₀ : Automaton) (G : Nat → Prop) (budget : Nat) : Prop :=
  ∀ {id : Nat} {A B : Automaton} {underway : Nat → Prop}, closeWithin budget id A = .ok B →
    A₀.Tracks A → Complete A₀ G underway A → A.pending < budget →
    (A.state id).closed ∨ (∀ y, A₀.Reaches id y → G y → ¬ underway y) →
    Complete A₀ G underway B ∧ (id < A₀.size → (B.state id).closed)

variable {A₀ A B C : Automaton}

/-! ### Single steps -/

section Steps

variable {id x y : Nat} {s : State}

/-- A change to a state leaves the others alone. -/
theorem state_modify_of_ne {f : State → State} (h : x ≠ id) :
    (A.modify id f).state x = A.state x := by
  rw [state_modify, if_neg fun hx => h hx.1.symm]

/-- A change to a state is seen in it. -/
theorem state_modify_self {f : State → State} (h : id < A.size) :
    (A.modify id f).state id = f (A.state id) := by
  rw [state_modify, if_pos ⟨rfl, h⟩]

/-- Only states of the automaton are closed. -/
theorem lt_size_of_closed (h : (A.state x).closed) : x < A.size :=
  lt_size_of_state (P := fun s => s.closed) h Bool.false_ne_true

/-- An open state is closed by visiting its successors. -/
theorem closeWithin_eq (budget : Nat) (hopen : (A.state id).closed = false) :
    closeWithin (budget + 1) id A =
      ((A.state id).epsilon.toList.foldlM (visit budget id) (A.mark id) >>= fun C =>
        .ok (C.settle id)) := by
  have hepsilon : ((A.mark id).state id).epsilon = (A.state id).epsilon := by
    rw [mark, state_modify]
    split <;> rfl
  rw [closeWithin, if_neg (by rw [hopen]; decide), ← hepsilon]
  rfl

/-- Closing an open state visits its successors, and settles it then. -/
theorem closeWithin_open {budget : Nat} (h : closeWithin (budget + 1) id A = .ok B)
    (hopen : (A.state id).closed = false) :
    ∃ C, (A.state id).epsilon.toList.foldlM (visit budget id) (A.mark id) = .ok C
      ∧ B = C.settle id := by
  rw [closeWithin_eq budget hopen] at h
  obtain ⟨C, hC, hB⟩ := exists_of_bind_eq_ok h
  exact ⟨C, hC, (Except.ok.inj hB).symm⟩

/-- A visit closes the successor, inherits what it accepts, and absorbs its closure. -/
theorem visit_cases {budget : Nat} (h : visit budget id A x = .ok C) :
    ∃ A' B, closeWithin budget x A = .ok A' ∧ A'.inherit id x = .ok B ∧
      (B.state x).epsilon.toList.foldlM
        (fun A other => closeWithin budget other (A.absorb id other)) B = .ok C := by
  obtain ⟨A', hA', h⟩ := exists_of_bind_eq_ok h
  obtain ⟨B, hB, h⟩ := exists_of_bind_eq_ok h
  exact ⟨A', B, hA', hB, h⟩

/-- A state that accepts nothing takes over what the other one accepts, and one that accepts
something keeps it, which is the same. -/
theorem inherit_cases (h : A.inherit id x = .ok B) :
    (A.state id).accepts = none ∧
        B = A.modify id (fun s => { s with accepts := (A.state x).accepts }) ∨
      B = A ∧ ∃ p, (A.state id).accepts = some p ∧
        ∀ q, (A.state x).accepts = some q → p = q := by
  rw [inherit] at h
  split at h
  · rename_i p hid
    exact .inl ⟨hid, (Except.ok.inj h).symm⟩
  · rename_i p hid hx
    refine .inr ⟨(Except.ok.inj h).symm, p, hid, fun q hq => ?_⟩
    rw [hx] at hq
    cases hq
  · rename_i p q hid hx
    split at h
    · rename_i heq
      refine .inr ⟨(Except.ok.inj h).symm, p, hid, fun r hr => ?_⟩
      rw [hx] at hr
      exact heq.trans (Option.some.inj hr)
    · cases h

/-- What was closed stays closed. -/
theorem Frozen.closed (h : Frozen A B) (hx : (A.state x).closed) : (B.state x).closed := by
  rw [h x hx]
  exact hx

/-- What two changes leave alone, they leave alone one after the other. -/
theorem FrozenBut.trans (h : FrozenBut id A B) (h' : FrozenBut id B C) (hsize : B.size = A.size) :
    FrozenBut id A C :=
  ⟨fun hid => h'.1 (hsize ▸ hid), fun x hx hc => by
    have hB := h.2 x hx hc
    rw [h'.2 x hx (by rw [hB]; exact hc), hB]⟩

/-- A change that leaves all closed states alone leaves all but one alone. -/
theorem Frozen.frozenBut (h : Frozen A B) (hid : id < A.size → (A.state id).closed) :
    FrozenBut id A B :=
  ⟨fun hsize => h.closed (hid hsize), fun x _ hc => h x hc⟩

/-- A change to a closed state leaves it closed. -/
theorem frozenBut_modify {f : State → State} (hf : ∀ s, s.closed → (f s).closed)
    (hid : id < A.size → (A.state id).closed) : FrozenBut id A (A.modify id f) :=
  ⟨fun hsize => by rw [state_modify_self hsize]; exact hf _ (hid hsize),
    fun _ hx _ => state_modify_of_ne hx⟩

end Steps

/-! ### Soundness -/

section Soundness

variable {id x : Nat}

/-- An automaton is on the way to its closed form. -/
theorem Tracks.refl (A : Automaton) : A.Tracks A where
  size_eq := rfl
  initial_eq := rfl
  live_eq := rfl
  composites_eq := rfl
  state := fun _ =>
    { moves_eq := rfl
      next_eq := rfl
      members_eq := rfl
      index_eq := rfl
      slips := fun _ hy => .single hy
      accepts := fun _ hp => ⟨_, .refl, hp⟩
      accepts_kept := fun _ hp => hp
      untouched := fun _ => rfl }

/-- A change to a state keeps to the way if the state does. -/
theorem Tracks.modify (h : A₀.Tracks A) {f : State → State}
    (hf : id < A.size → A₀.TracksState id (f (A.state id))) : A₀.Tracks (A.modify id f) where
  size_eq := by rw [size_modify]; exact h.size_eq
  initial_eq := h.initial_eq
  live_eq := h.live_eq
  composites_eq := h.composites_eq
  state := fun y => by
    rw [state_modify]
    split
    · rename_i hy
      obtain ⟨rfl, hsize⟩ := hy
      exact hf hsize
    · exact h.state y

/-- Marking a state keeps to the way. -/
theorem Tracks.mark (h : A₀.Tracks A) (id : Nat) : A₀.Tracks (A.mark id) :=
  h.modify fun _ =>
    { h.state id with
      untouched := fun hclosed => by cases hclosed }

/-- A state takes over what is accepted by one that it reaches. -/
theorem Tracks.inherit (h : A₀.Tracks A) (hid : id < A.size → (A.state id).closed)
    (hx : A₀.Reaches id x) (hB : A.inherit id x = .ok B) : A₀.Tracks B := by
  rcases inherit_cases hB with ⟨hnone, rfl⟩ | ⟨rfl, -⟩
  · refine h.modify fun hsize =>
      { h.state id with accepts := ?_, accepts_kept := ?_, untouched := ?_ }
    · intro p hp
      obtain ⟨t, ht, hpt⟩ := (h.state x).accepts p hp
      exact ⟨t, hx.trans ht, hpt⟩
    · intro p hp
      have hkept := (h.state id).accepts_kept p hp
      rw [hnone] at hkept
      cases hkept
    · intro hopen
      exact absurd (hid hsize) (by rw [hopen]; decide)
  · exact h

/-- A state takes over one that it reaches. -/
theorem Tracks.absorb (h : A₀.Tracks A) (hid : id < A.size → (A.state id).closed)
    (hx : A₀.Reaches id x) : A₀.Tracks (A.absorb id x) := by
  refine h.modify fun hsize => { h.state id with slips := ?_, untouched := ?_ }
  · intro y hy
    rcases OrderedSet.mem_insert.mp hy with rfl | hy
    · exact hx
    · exact (h.state id).slips y hy
  · intro hopen
    exact absurd (hid hsize) (by rw [hopen]; decide)

/-- Settling a closed state keeps to the way. -/
theorem Tracks.settle (h : A₀.Tracks A) (hid : id < A.size → (A.state id).closed) :
    A₀.Tracks (A.settle id) := by
  refine h.modify fun hsize => { h.state id with slips := ?_, untouched := ?_ }
  · intro y hy
    rcases OrderedSet.mem_insert.mp (OrderedSet.mem_filter.mp hy).1 with rfl | hy
    · exact .refl
    · exact (h.state id).slips y hy
  · intro hopen
    exact absurd (hid hsize) (by rw [hopen]; decide)

/-- State `id` is being closed, from automaton `A` on. -/
structure Underway (A₀ A : Automaton) (id : Nat) (B : Automaton) : Prop where
  tracks : A₀.Tracks B
  frozen : FrozenBut id A B
  size_eq : B.size = A.size

/-- The state that is being closed is marked as closed. -/
theorem Underway.closed (h : Underway A₀ A id B) (hid : id < B.size) : (B.state id).closed :=
  h.frozen.1 (h.size_eq ▸ hid)

/-- Closing a state begins by marking it. -/
theorem Tracks.underway_mark (h : A₀.Tracks A) (id : Nat) :
    Underway A₀ (A.mark id) id (A.mark id) where
  tracks := h.mark id
  frozen := ⟨fun hid => by
    rw [Automaton.mark, state_modify_self (by rwa [Automaton.mark, size_modify] at hid)],
    fun _ _ _ => rfl⟩
  size_eq := rfl

/-- Another state is closed. -/
theorem Underway.call (h : Underway A₀ A id B) (hC : A₀.Tracks C) (hframe : Frozen B C) :
    Underway A₀ A id C where
  tracks := hC
  frozen := h.frozen.trans (hframe.frozenBut h.closed) h.size_eq
  size_eq := by rw [hC.size_eq, ← h.tracks.size_eq, h.size_eq]

/-- A state that is being closed may inherit from one that it reaches. -/
theorem Underway.inherit (h : Underway A₀ A id B) (hx : A₀.Reaches id x)
    (hC : B.inherit id x = .ok C) : Underway A₀ A id C := by
  have htracks := h.tracks.inherit h.closed hx hC
  refine ⟨htracks, ?_, by rw [htracks.size_eq, ← h.tracks.size_eq, h.size_eq]⟩
  rcases inherit_cases hC with ⟨-, rfl⟩ | ⟨rfl, -⟩
  · exact h.frozen.trans (frozenBut_modify (fun _ hs => hs) h.closed) h.size_eq
  · exact h.frozen

/-- A state that is being closed may absorb one that it reaches. -/
theorem Underway.absorb (h : Underway A₀ A id B) (hx : A₀.Reaches id x) :
    Underway A₀ A id (B.absorb id x) where
  tracks := h.tracks.absorb h.closed hx
  frozen := h.frozen.trans (frozenBut_modify (fun _ hs => hs) h.closed) h.size_eq
  size_eq := by rw [Automaton.absorb, size_modify, h.size_eq]

/-- Closing a state is sound, and leaves alone what was closed before. -/
theorem closeWithin_tracks (budget : Nat) : ∀ {id : Nat} {A B : Automaton},
    closeWithin budget id A = .ok B → A₀.Tracks A → A₀.Tracks B ∧ Frozen A B := by
  induction budget with
  | zero =>
      intro id A B h hA
      obtain rfl : A = B := Except.ok.inj h
      exact ⟨hA, fun _ _ => rfl⟩
  | succ budget ih =>
      intro id A B h hA
      cases hclosed : (A.state id).closed with
      | true =>
          rw [closeWithin, if_pos hclosed] at h
          obtain rfl : A = B := Except.ok.inj h
          exact ⟨hA, fun _ _ => rfl⟩
      | false =>
          obtain ⟨C, hC, rfl⟩ := closeWithin_open h hclosed
          obtain ⟨hloop, -⟩ := foldlM_induction
            (P := Underway A₀ (A.mark id) id) (Q := fun _ _ => True)
            (fun successor hsuccessor C D hC hD => by
              have hreach : A₀.Reaches id successor := (hA.state id).slips successor hsuccessor
              obtain ⟨A', B, hA', hB, hD⟩ := visit_cases hD
              obtain ⟨hTA', hFA'⟩ := ih hA' hC.tracks
              have hunder := (hC.call hTA' hFA').inherit hreach hB
              obtain ⟨hinner, -⟩ := foldlM_induction
                (P := Underway A₀ (A.mark id) id) (Q := fun _ _ => True)
                (fun other hother E F hE hF => by
                  have hreach' := hreach.trans ((hunder.tracks.state successor).slips other hother)
                  have habsorb := hE.absorb hreach'
                  obtain ⟨hTF, hFF⟩ := ih hF habsorb.tracks
                  exact ⟨habsorb.call hTF hFF, trivial, fun _ h => h⟩)
                hunder hD
              exact ⟨hinner, trivial, fun _ h => h⟩)
            (hA.underway_mark id) hC
          refine ⟨hloop.tracks.settle hloop.closed, fun x hx => ?_⟩
          have hne : x ≠ id := by
            rintro rfl
            rw [hclosed] at hx
            cases hx
          have hmark : (A.mark id).state x = A.state x := state_modify_of_ne hne
          rw [settle, state_modify_of_ne hne, hloop.frozen.2 x hne (by rw [hmark]; exact hx), hmark]

/-- **Closing is sound**: what is found is there. -/
theorem closeAll_tracks (h : A.closeAll = .ok B) : A.Tracks B := by
  obtain ⟨hB, -⟩ := foldlM_induction (P := A.Tracks) (Q := fun _ _ => True)
    (fun id _ C D hC hD => ⟨(closeWithin_tracks _ hD hC).1, trivial, fun _ h => h⟩) (.refl A) h
  exact hB

end Soundness

/-! ### Completeness -/

section Completeness

variable {G underway : Nat → Prop} {id x s : Nat}

/-- What a state of the kind reaches is of the kind. -/
theorem Untangled.reaches (hG : A₀.Untangled G) {y : Nat} (hx : G x) (h : A₀.Reaches x y) :
    G y := by
  induction h with
  | refl => exact hx
  | tail _ hstep ih => exact hG.slips _ _ ih hstep

/-- What a state has taken over, it keeps when it gets more. -/
theorem Flows.mono (h : Flows A₀ A id s) (hslips : ∀ y, A.Slips id y → B.Slips id y)
    (haccepts : ∀ p, (A.state id).accepts = some p → (B.state id).accepts = some p) :
    Flows A₀ B id s where
  slips := fun m hm hmoves => hslips m (h.slips m hm hmoves)
  accepts := fun t p ht hp => haccepts p (h.accepts t p ht hp)

/-- What a state has taken over does not depend on the other states. -/
theorem Gathers.congr (h : Gathers A₀ G A x) (hx : B.state x = A.state x) :
    Gathers A₀ G B x where
  self := fun hmoves => (slips_congr hx).mpr (h.self hmoves)
  flows := fun s hs hG => (h.flows s hs hG).mono (fun _ hy => (slips_congr hx).mpr hy)
    fun p hp => by rwa [hx]

/-- Where a state goes to that is not the state itself. -/
theorem Reaches.cases_ne {y : Nat} (h : A.Reaches x y) :
    y = x ∨ ∃ s, s ≠ x ∧ A.Slips x s ∧ A.Reaches s y := by
  induction h using Relation.ReflTransGen.head_induction_on with
  | refl => exact .inl rfl
  | @head x z hstep hrest ih =>
      by_cases hz : z = x
      · subst hz
        exact ih
      · exact .inr ⟨z, hz, hstep, hrest⟩

/-- A state that has taken over its other successors has taken over all that it reaches. -/
theorem flows_self (hA : A₀.Tracks A) (hself : (A₀.state x).hasMoves → A.Slips x x)
    (hflows : ∀ s, s ≠ x → A₀.Slips x s → Flows A₀ A x s) : Flows A₀ A x x where
  slips := fun m hm hmoves => by
    rcases hm.cases_ne with rfl | ⟨s, hne, hs, hm⟩
    · exact hself hmoves
    · exact (hflows s hne hs).slips m hm hmoves
  accepts := fun t p ht hp => by
    rcases ht.cases_ne with rfl | ⟨s, hne, hs, ht⟩
    · exact (hA.state t).accepts_kept p hp
    · exact (hflows s hne hs).accepts t p ht hp

/-- The closure of a state is complete if its successors are of the kind `G`. -/
theorem Gathers.flows_self (h : Gathers A₀ G A x) (hA : A₀.Tracks A)
    (hG : ∀ s, A₀.Slips x s → G s) : Flows A₀ A x x :=
  Automaton.flows_self hA h.self fun s _ hs => h.flows s hs (hG s hs)

/-- Closing states leaves no more of them open. -/
theorem pending_le (hsize : B.size = A.size)
    (h : ∀ x, (A.state x).closed → (B.state x).closed) : B.pending ≤ A.pending := by
  refine Finset.card_le_card fun x hx => ?_
  rw [Finset.mem_filter, hsize] at hx
  rw [Finset.mem_filter]
  refine ⟨hx.1, ?_⟩
  by_contra hA
  have hB := h x (by simpa using hA)
  rw [hx.2] at hB
  cases hB

/-- Marking an open state leaves fewer of them open. -/
theorem pending_mark (hid : id < A.size) (hopen : (A.state id).closed = false) :
    (A.mark id).pending < A.pending := by
  have hsize : (A.mark id).size = A.size := size_modify A id _
  refine Finset.card_lt_card (Finset.ssubset_iff_subset_ne.mpr ⟨fun x hx => ?_, fun heq => ?_⟩)
  · rw [Finset.mem_filter, hsize] at hx
    rw [Finset.mem_filter]
    by_cases hx' : x = id
    · rw [hx']
      exact ⟨Finset.mem_range.mpr hid, hopen⟩
    · exact ⟨hx.1, by rw [← hx.2, mark, state_modify_of_ne hx']⟩
  · have hmem : id ∈ (Finset.range A.size).filter fun x => (A.state x).closed = false :=
      Finset.mem_filter.mpr ⟨Finset.mem_range.mpr hid, hopen⟩
    rw [← heq, Finset.mem_filter, mark, state_modify_self hid] at hmem
    exact absurd hmem.2 (by simp)

/-- No more states are open than there are. -/
theorem pending_le_size (A : Automaton) : A.pending ≤ A.size :=
  (Finset.card_filter_le _ _).trans (Finset.card_range A.size).le

/-- While a state is being closed, no more states become open. -/
theorem Underway.pending_le (h : Underway A₀ (A.mark id) id B) :
    B.pending ≤ (A.mark id).pending := by
  refine Automaton.pending_le h.size_eq fun x hx => ?_
  by_cases hne : x = id
  · subst hne
    exact h.frozen.1 (lt_size_of_closed hx)
  · rw [h.frozen.2 x hne hx]
    exact hx

/-- What is still underway may change. -/
theorem Complete.congr (h : Complete A₀ G underway A)
    (hB : ∀ x, ¬ underway x → B.state x = A.state x) : Complete A₀ G underway B := by
  intro x hclosed hx
  rw [hB x hx] at hclosed
  exact (h x hclosed hx).congr (hB x hx)

/-- What is accepted after a state took over what another accepts. -/
theorem inherit_accepts (hid : id < A.size) (h : A.inherit id x = .ok B) :
    (∀ y, B.Slips id y ↔ A.Slips id y) ∧
      (∀ p, (A.state id).accepts = some p → (B.state id).accepts = some p) ∧
      (∀ p, (A.state x).accepts = some p → (B.state id).accepts = some p) ∧
      ∀ y, y ≠ id → B.state y = A.state y := by
  rcases inherit_cases h with ⟨hnone, rfl⟩ | ⟨rfl, p, hp, hx⟩
  · have hstate := state_modify_self (f := fun s => { s with accepts := (A.state x).accepts }) hid
    refine ⟨fun y => ?_, fun p hp => ?_, fun p hp => ?_, fun y hy => state_modify_of_ne hy⟩
    · rw [Slips, Slips, hstate]
    · rw [hnone] at hp
      cases hp
    · rw [hstate]
      exact hp
  · exact ⟨fun _ => Iff.rfl, fun _ hq => hq, fun q hq => by rw [hp, hx q hq], fun _ _ => rfl⟩

section Visit

variable {budget : Nat} (ih : Completes A₀ G budget) (hpending : (A.mark id).pending < budget)
  (hsafe : ∀ y, y ≠ id → A₀.Reaches id y → ∀ z, A₀.Reaches y z → G z → ¬ (z = id ∨ underway z))
include ih hpending hsafe

/-- While `id` is being closed, a state that it reaches is closed. -/
theorem Underway.call_complete (hB : Underway A₀ (A.mark id) id B)
    (hcomplete : Complete A₀ G (fun x => x = id ∨ underway x) B) (hid : id < A₀.size)
    (hx : A₀.Reaches id x) (h : closeWithin budget x B = .ok C) :
    Underway A₀ (A.mark id) id C ∧ Complete A₀ G (fun x => x = id ∨ underway x) C ∧
      C.state id = B.state id ∧ (x < A₀.size → (C.state x).closed) := by
  obtain ⟨hC, hframe⟩ := closeWithin_tracks budget h hB.tracks
  have hclosed := hB.closed (by rw [hB.tracks.size_eq]; exact hid)
  have hbudget := Nat.lt_of_le_of_lt hB.pending_le hpending
  obtain ⟨hcomplete', hx'⟩ := ih h hB.tracks hcomplete hbudget <| by
    by_cases hne : x = id
    · subst hne
      exact .inl hclosed
    · exact .inr fun z hz => hsafe x hne hx z hz
  exact ⟨hB.call hC hframe, hcomplete', hframe id hclosed, hx'⟩

/-- A successor is closed, and its closure taken over. -/
theorem Underway.visit_complete (hB : Underway A₀ (A.mark id) id B)
    (hcomplete : Complete A₀ G (fun x => x = id ∨ underway x) B) (hG : A₀.Untangled G)
    (hid : id < A₀.size) (hs : A₀.Slips id s) (h : visit budget id B s = .ok C) :
    Underway A₀ (A.mark id) id C ∧ Complete A₀ G (fun x => x = id ∨ underway x) C ∧
      (∀ y, B.Slips id y → C.Slips id y) ∧
      (∀ p, (B.state id).accepts = some p → (C.state id).accepts = some p) ∧
      (s ≠ id → G s → Flows A₀ C id s) := by
  have hreach : A₀.Reaches id s := .single hs
  obtain ⟨A', B', hA', hB', hC⟩ := visit_cases h
  obtain ⟨hA, hcompleteA, hsame, hclosed⟩ :=
    hB.call_complete ih hpending hsafe hcomplete hid hreach hA'
  have hsize : A'.size = A₀.size := hA.tracks.size_eq
  obtain ⟨hslips, hkept, htaken, hframe⟩ := inherit_accepts (hsize ▸ hid) hB'
  have hunder := hA.inherit hreach hB'
  have hcompleteB := hcompleteA.congr (B := B') fun x hx => hframe x fun h => hx (.inl h)
  -- the closure of the successor is fixed now, and its states are taken over one by one
  obtain ⟨⟨hD, hcompleteD, hslipsD, hkeptD⟩, hall, -⟩ := foldlM_induction
    (P := fun D => Underway A₀ (A.mark id) id D ∧ Complete A₀ G (fun x => x = id ∨ underway x) D ∧
      (∀ y, B'.Slips id y → D.Slips id y) ∧
      ∀ p, (B'.state id).accepts = some p → (D.state id).accepts = some p)
    (Q := fun other D => D.Slips id other)
    (fun other hother D E hD hE => by
      obtain ⟨hD, hcompleteD, hslipsD, hkeptD⟩ := hD
      have hreach' := hreach.trans ((hunder.tracks.state s).slips other hother)
      have hidD : id < D.size := by rw [hD.tracks.size_eq]; exact hid
      have hstate : (D.absorb id other).state id
          = { D.state id with epsilon := (D.state id).epsilon.insert other } :=
        state_modify_self hidD
      obtain ⟨hE, hcompleteE, hsameE, -⟩ := (hD.absorb hreach').call_complete ih hpending hsafe
        (hcompleteD.congr fun x hx => state_modify_of_ne fun h => hx (.inl h)) hid hreach' hE
      have hslipsE : ∀ y, E.Slips id y ↔ y = other ∨ D.Slips id y := fun y => by
        rw [Slips, Slips, hsameE, hstate]
        exact OrderedSet.mem_insert
      refine ⟨⟨hE, hcompleteE, fun y hy => (hslipsE y).mpr (.inr (hslipsD y hy)), fun p hp => ?_⟩,
        (hslipsE other).mpr (.inl rfl), fun c hc => (hslipsE c).mpr (.inr hc)⟩
      rw [hsameE, hstate]
      exact hkeptD p hp)
    ⟨hunder, hcompleteB, fun _ hy => hy, fun _ hp => hp⟩ hC
  refine ⟨hD, hcompleteD, fun y hy => hslipsD y ((hslips y).mpr ((slips_congr hsame).mpr hy)),
    fun p hp => hkeptD p (hkept p (by rw [hsame]; exact hp)), fun hne hGs => ?_⟩
  have hflows : Flows A₀ A' s s :=
    (hcompleteA s (hclosed (hG.lt_size s hGs)) (hsafe s hne hreach s .refl hGs)).flows_self
      hA.tracks fun y hy => hG.slips s y hGs hy
  refine ⟨fun m hm hmoves => hall m ?_, fun t p ht hp => hkeptD p (htaken p ?_)⟩
  · exact (slips_congr (hframe s hne)).mpr (hflows.slips m hm hmoves)
  · exact hflows.accepts t p ht hp

end Visit

/-- The closure of a state is completed. -/
theorem gathers_settle (hA : A₀.Tracks A) (hid : id < A.size) (hclosed : (A.state id).closed)
    (hflows : ∀ s, A₀.Slips id s → s ≠ id → G s → Flows A₀ A id s) (hG : A₀.Untangled G) :
    Gathers A₀ G (A.settle id) id := by
  have hstate : (A.settle id).state id = { A.state id with
      epsilon := ((A.state id).epsilon.insert id).filter fun y => (A.state y).hasMoves } :=
    state_modify_self hid
  have hmoves : ∀ y, (A.state y).hasMoves = (A₀.state y).hasMoves := fun y => by
    rw [State.hasMoves, State.hasMoves, (hA.state y).moves_eq]
  have hslips : ∀ y, (A.settle id).Slips id y ↔
      (y = id ∨ A.Slips id y) ∧ (A₀.state y).hasMoves := fun y => by
    rw [Slips, Slips, hstate, ← hmoves]
    exact OrderedSet.mem_filter.trans (and_congr_left' OrderedSet.mem_insert)
  have hother : ∀ s, s ≠ id → A₀.Slips id s → G s → Flows A₀ (A.settle id) id s :=
    fun s hne hs hGs =>
      { slips := fun m hm hmoves => (hslips m).mpr
          ⟨.inr ((hflows s hs hne hGs).slips m hm hmoves), hmoves⟩
        accepts := fun t p ht hp => by
          rw [hstate]
          exact (hflows s hs hne hGs).accepts t p ht hp }
  have hself : (A₀.state id).hasMoves → (A.settle id).Slips id id := fun h =>
    (hslips id).mpr ⟨.inl rfl, h⟩
  refine ⟨hself, fun s hs hGs => ?_⟩
  by_cases hne : s = id
  · subst hne
    exact Automaton.flows_self (hA.settle fun _ => hclosed) hself
      fun y hy hstep => hother y hy hstep (hG.slips s y hGs hstep)
  · exact hother s hne hs hGs

/-- Closing a state is complete where there is no cycle. -/
theorem completes_closeWithin (hG : A₀.Untangled G) (budget : Nat) : Completes A₀ G budget := by
  induction budget with
  | zero => exact fun _ _ _ hpending _ => absurd hpending (Nat.not_lt_zero _)
  | succ budget ih =>
      intro id A B underway h hA hcomplete hpending hsafe
      cases hclosed : (A.state id).closed with
      | true =>
          rw [closeWithin, if_pos hclosed] at h
          obtain rfl : A = B := Except.ok.inj h
          exact ⟨hcomplete, fun _ => hclosed⟩
      | false =>
          have hsafe := hsafe.resolve_left (by rw [hclosed]; decide)
          obtain ⟨C, hC, rfl⟩ := closeWithin_open h hclosed
          by_cases hid : id < A.size
          · have hid₀ : id < A₀.size := hA.size_eq ▸ hid
            have hmark : Complete A₀ G (fun x => x = id ∨ underway x) (A.mark id) := by
              refine fun x hx hfree => (hcomplete x ?_ fun hux => hfree (.inr hux)).congr
                (state_modify_of_ne fun hxid => hfree (.inl hxid))
              rwa [mark, state_modify_of_ne fun hxid => hfree (.inl hxid)] at hx
            -- a state that is being closed is not reached from below: there are no cycles
            have hbelow : ∀ y, y ≠ id → A₀.Reaches id y → ∀ z, A₀.Reaches y z → G z →
                ¬ (z = id ∨ underway z) := by
              rintro y hne hy z hz hGz (rfl | hux)
              · exact hne (hG.antisymm z y hGz hy hz)
              · exact hsafe z (hy.trans hz) hGz hux
            obtain ⟨⟨hunder, hcompleteC⟩, hflows, -⟩ := foldlM_induction
              (P := fun C => Underway A₀ (A.mark id) id C ∧
                Complete A₀ G (fun x => x = id ∨ underway x) C)
              (Q := fun s C => s ≠ id → G s → Flows A₀ C id s)
              (fun s hs C D hC hD => by
                obtain ⟨hunder, hcompleteD, hslips, hkept, hflow⟩ := hC.1.visit_complete ih
                  (Nat.lt_of_lt_of_le (pending_mark hid hclosed) (Nat.le_of_lt_succ hpending))
                  hbelow hC.2 hG hid₀ ((slips_congr ((hA.state id).untouched hclosed)).mp hs) hD
                exact ⟨⟨hunder, hcompleteD⟩, hflow,
                  fun c hc hne hGc => (hc hne hGc).mono hslips hkept⟩)
              ⟨hA.underway_mark id, hmark⟩ hC
            have hidC : id < C.size := by rw [hunder.tracks.size_eq]; exact hid₀
            have hclosedC := hunder.closed hidC
            refine ⟨fun x hx hfree => ?_, fun _ => ?_⟩
            · by_cases hxid : x = id
              · rw [hxid]
                refine gathers_settle hunder.tracks hidC hclosedC (fun s hs hne hGs => ?_) hG
                exact hflows s
                  ((slips_congr ((hA.state id).untouched hclosed)).mpr hs) hne hGs
              · rw [settle, state_modify_of_ne hxid] at hx
                exact (hcompleteC x hx fun h => h.elim hxid hfree).congr
                  (state_modify_of_ne hxid)
            · rw [settle, state_modify_self hidC]
              exact hclosedC
          · -- there is no such state
            have hout := Nat.le_of_not_lt hid
            rw [state_of_size_le hout] at hC
            obtain rfl : A.mark id = C := Except.ok.inj hC
            refine ⟨hcomplete.congr fun x _ => ?_, fun h => absurd (hA.size_eq ▸ h) hid⟩
            rw [settle, mark, state_modify, if_neg (by rw [size_modify]; omega), state_modify,
              if_neg (by omega)]

/-- **Closing is complete where there is no cycle**: every state has taken over all that its
successors of the kind `G` reach. -/
theorem closeAll_gathers (hG : A.Untangled G) (hopen : ∀ x, (A.state x).closed = false)
    (h : A.closeAll = .ok B) : ∀ x ∈ A.live, x < A.size → Gathers A G B x := by
  obtain ⟨⟨hB, hcomplete⟩, hclosed, -⟩ := foldlM_induction
    (P := fun C => A.Tracks C ∧ Complete A G (fun _ => False) C)
    (Q := fun x C => x < A.size → (C.state x).closed)
    (fun x _ C D hC hD => by
      obtain ⟨hTD, hframe⟩ := closeWithin_tracks _ hD hC.1
      obtain ⟨hcompleteD, hx⟩ := completes_closeWithin hG _ hD hC.1 hC.2
        (Nat.lt_succ_of_le (pending_le_size C)) (.inr fun _ _ _ h => h)
      exact ⟨⟨hTD, hcompleteD⟩, hx, fun c hc hlt => hframe.closed (hc hlt)⟩)
    ⟨.refl A, fun x hx => by rw [hopen x] at hx; cases hx⟩ h
  exact fun x hx hlt => hcomplete x (hclosed x hx hlt) fun h => h

end Completeness

end Automaton

end GrammarAnalysis
