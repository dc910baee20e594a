import GrammarAnalysis.Proofs.Automaton.Merging

/-!
# Where Closing Is Exact

On a cycle of steps that consume nothing, a state can take over the closure of another one that is
itself still being closed, and so miss what that one gets later. What was found below such a state
is not lost: it belongs to a successor that a state underway has not looked at yet, and that state
takes it over when it gets there. So everything arrives at the state that the search began with,
whose closure is exact on any graph.

## Main definitions

* `Automaton.Feeds`: a state has all that another one has;
* `Automaton.Searched`: what holds of the states while some of them are underway;
* `Automaton.Delivers`: what a state got is taken over, now or later;
* `Automaton.Exact`: a closure without anything missing.

## Main results

* `Automaton.closeWithin_closes`: what one call of the search preserves;
* `Automaton.exact_of_closeWithin`: a state that reaches open states only is closed exactly;
* `Automaton.closeAll_closures`: the closures of an automaton that is closed as a whole.
-/

namespace GrammarAnalysis

namespace Automaton

/-- Of what state `x` has taken over, state `y` has everything. -/
structure Feeds (A₀ A : Automaton) (x y : Nat) : Prop where
  slips : ∀ m, (A₀.state m).hasMoves → A.Slips x m → A.Slips y m
  accepts : ∀ p, (A.state x).accepts = some p → (A.state y).accepts = some p

/-- From `A` to `B` the closed states are as they were, but state `id` may have taken over more. -/
structure Gains (A₀ : Automaton) (id : Nat) (A B : Automaton) : Prop where
  closed : ∀ x, (A.state x).closed → (B.state x).closed
  frozen : ∀ x, x ≠ id → (A.state x).closed → B.state x = A.state x
  slips : ∀ m, (A₀.state m).hasMoves → A.Slips id m → B.Slips id m
  accepts : ∀ p, (A.state id).accepts = some p → (B.state id).accepts = some p

/-- The closing of state `x` has come to its end. -/
structure Finished (A₀ A : Automaton) (x : Nat) : Prop where
  slips : ∀ m, A.Slips x m → (A.state m).closed ∧ (A₀.state m).hasMoves
  self : (A₀.state x).hasMoves → A.Slips x x
  successors : ∀ s, A₀.Slips x s → (A.state s).closed

/-- The closed states are finished, except for those underway, which have nothing but their own
successors and what is closed. State `entering` is excepted: it is about to be closed. -/
structure Searched (A₀ : Automaton) (underway : Nat → Prop) (entering : Nat) (A : Automaton) :
    Prop where
  tracks : A₀.Tracks A
  closed : ∀ x, underway x → (A.state x).closed
  finished : ∀ x, (A.state x).closed → ¬ underway x → Finished A₀ A x
  held : ∀ x, underway x → ∀ m, A.Slips x m →
    A₀.Slips x m ∨ (A.state m).closed ∨ m = entering

/-- What state `v` got between `A` and `B` is with state `id`, which reaches it, or with a
successor of a state underway that this state looks at later. -/
structure Delivers (A₀ : Automaton) (underway : Nat → Prop) (id : Nat) (A B : Automaton)
    (v : Nat) : Prop where
  reaches : A₀.Reaches id v
  feeds : Feeds A₀ B v id ∨ ∃ u s, underway u ∧ A₀.Reaches id u ∧ A₀.Slips u s ∧
    (A.state s).closed = false ∧ (B.state s).closed ∧ Feeds A₀ B v s

/-- State `id` was closed between `A` and `B`, with what it reaches. -/
structure Closes (A₀ : Automaton) (underway : Nat → Prop) (id : Nat) (A B : Automaton) :
    Prop where
  searched : Searched A₀ underway id B
  closed : (B.state id).closed
  delivers : ∀ v, (B.state v).closed → (A.state v).closed = false →
    Delivers A₀ underway id A B v

/-- State `id`, open in `A`, is being closed in `C`. -/
structure Visiting (A₀ : Automaton) (underway : Nat → Prop) (id : Nat) (A : Automaton)
    (entering : Nat) (C : Automaton) : Prop where
  searched : Searched A₀ (fun x => x = id ∨ underway x) entering C
  gains : Gains A₀ id (A.mark id) C
  delivers : ∀ v, (C.state v).closed → ((A.mark id).state v).closed = false →
    Delivers A₀ (fun x => x = id ∨ underway x) id (A.mark id) C v

/-- An automaton of which nothing is closed, whose states are all live, and whose steps lead to
one of them. -/
structure Raw (A : Automaton) : Prop where
  size_pos : 0 < A.size
  unclosed : ∀ x, (A.state x).closed = false
  mem_live : ∀ x, x ∈ A.live ↔ x < A.size
  slips_lt : ∀ x y, A.Slips x y → y < A.size

/-- While state `id` is being closed, its successor `s` was closed, in `C₁`, and taken over. -/
structure Visited (A₀ : Automaton) (underway : Nat → Prop) (id : Nat) (A : Automaton) (s : Nat)
    (C C₁ D : Automaton) : Prop where
  visiting : Visiting A₀ underway id A id D
  gains : Gains A₀ id C D
  closed : (D.state s).closed
  feeds : ((A.mark id).state s).closed = false → Feeds A₀ D s id
  reaches : ∀ v, (D.state v).closed → (C.state v).closed ∨ A₀.Reaches s v
  accepts : (D.state id).accepts = (C.state id).accepts.or (C₁.state s).accepts
  taken : ∀ p, (C₁.state s).accepts = some p → (D.state id).accepts = some p

/-- The closure of state `x` in `B` is what the state reaches in `A₀`. -/
structure Exact (A₀ B : Automaton) (x : Nat) : Prop where
  slips_iff : ∀ y, B.Slips x y ↔ A₀.Reaches x y ∧ (A₀.state y).hasMoves
  accepts_iff : ∀ p, (B.state x).accepts = some p ↔
    ∃ t, A₀.Reaches x t ∧ (A₀.state t).accepts = some p

/-- What the closure of state `x` in `B` has is reached by the state in `A₀`. -/
structure Sound (A₀ B : Automaton) (x : Nat) : Prop where
  slips : ∀ y, B.Slips x y → A₀.Reaches x y ∧ (A₀.state y).hasMoves
  accepts : ∀ p, (B.state x).accepts = some p →
    ∃ t, A₀.Reaches x t ∧ (A₀.state t).accepts = some p

variable {A₀ A B C D : Automaton} {underway : Nat → Prop} {id s x y : Nat}

/-! ### What is taken over -/

/-- A state has all that it has. -/
theorem Feeds.refl (A₀ A : Automaton) (x : Nat) : Feeds A₀ A x x :=
  ⟨fun _ _ h => h, fun _ h => h⟩

/-- Having all that another state has is transitive. -/
theorem Feeds.trans {z : Nat} (h : Feeds A₀ A x y) (h' : Feeds A₀ A y z) : Feeds A₀ A x z :=
  ⟨fun m hm hx => h'.slips m hm (h.slips m hm hx), fun p hp => h'.accepts p (h.accepts p hp)⟩

/-- A state gains nothing while nothing is done. -/
theorem Gains.refl (A₀ : Automaton) (id : Nat) (A : Automaton) : Gains A₀ id A A :=
  ⟨fun _ h => h, fun _ _ _ => rfl, fun _ _ h => h, fun _ h => h⟩

/-- What a state gains in two steps, it gains in both. -/
theorem Gains.trans (h : Gains A₀ id A B) (h' : Gains A₀ id B C) : Gains A₀ id A C where
  closed := fun x hx => h'.closed x (h.closed x hx)
  frozen := fun x hne hx => (h'.frozen x hne (h.closed x hx)).trans (h.frozen x hne hx)
  slips := fun m hm hx => h'.slips m hm (h.slips m hm hx)
  accepts := fun p hp => h'.accepts p (h.accepts p hp)

/-- Where only a state that ends up closed is changed, no state is opened. -/
theorem closed_of_same (hsame : ∀ y, y ≠ id → B.state y = A.state y) (hid : (B.state id).closed)
    (y : Nat) (hy : (A.state y).closed) : (B.state y).closed := by
  by_cases hne : y = id
  · rw [hne]
    exact hid
  · rw [hsame y hne]
    exact hy

/-- A closed state gains where nothing else is changed. -/
theorem Gains.of_same (hsame : ∀ y, y ≠ id → B.state y = A.state y) (hid : (B.state id).closed)
    (hslips : ∀ m, (A₀.state m).hasMoves → A.Slips id m → B.Slips id m)
    (haccepts : ∀ p, (A.state id).accepts = some p → (B.state id).accepts = some p) :
    Gains A₀ id A B :=
  ⟨closed_of_same hsame hid, fun y hne _ => hsame y hne, hslips, haccepts⟩

/-- A state that is open later was open before. -/
theorem Gains.open_of_open (h : Gains A₀ id A B) (hx : (B.state x).closed = false) :
    (A.state x).closed = false := by
  by_contra hA
  have hB := h.closed x (by simpa using hA)
  rw [hx] at hB
  cases hB

/-- What leaves the closed states alone takes nothing from them. -/
theorem Frozen.gains (h : Frozen A B) (hid : (A.state id).closed) : Gains A₀ id A B where
  closed := fun _ hx => h.closed hx
  frozen := fun x _ hx => h x hx
  slips := fun _ _ hm => (slips_congr (h id hid)).mpr hm
  accepts := fun p hp => by rwa [h id hid]

/-- A state still has all that another one has when a third one has gained more. -/
theorem Feeds.gains (h : Feeds A₀ A x y) (hx : x ≠ id) (hxc : (A.state x).closed)
    (hy : y = id ∨ (A.state y).closed) (hB : Gains A₀ id A B) : Feeds A₀ B x y := by
  have hstate := hB.frozen x hx hxc
  by_cases hne : y = id
  · subst hne
    exact ⟨fun m hm hs => hB.slips m hm (h.slips m hm ((slips_congr hstate).mp hs)),
      fun p hp => hB.accepts p (h.accepts p (by rwa [← hstate]))⟩
  · have hstate' := hB.frozen y hne (hy.resolve_left hne)
    exact ⟨fun m hm hs => (slips_congr hstate').mpr (h.slips m hm ((slips_congr hstate).mp hs)),
      fun p hp => by rw [hstate']; exact h.accepts p (by rwa [← hstate])⟩

/-- What was delivered is delivered when the state has gained more. -/
theorem Delivers.gains {v : Nat} (h : Delivers A₀ underway id A B v) (hv : v ≠ id)
    (hvc : (B.state v).closed) (hC : Gains A₀ id B C) : Delivers A₀ underway id A C v := by
  refine ⟨h.reaches, ?_⟩
  rcases h.feeds with h | ⟨u, s, hu, hreach, hs, hopen, hclosed, h⟩
  · exact .inl (h.gains hv hvc (.inl rfl) hC)
  · exact .inr ⟨u, s, hu, hreach, hs, hopen, hC.closed s hclosed,
      h.gains hv hvc (.inr hclosed) hC⟩

/-- A state stays finished as long as it is the same and what was closed stays closed. -/
theorem Finished.congr (h : Finished A₀ A x) (hx : B.state x = A.state x)
    (hclosed : ∀ m, (A.state m).closed → (B.state m).closed) : Finished A₀ B x where
  slips := fun m hm =>
    have hA := h.slips m ((slips_congr hx).mp hm)
    ⟨hclosed m hA.1, hA.2⟩
  self := fun hmoves => (slips_congr hx).mpr (h.self hmoves)
  successors := fun s hs => hclosed s (h.successors s hs)

/-- What a state underway takes over is closed, or about to be. -/
theorem Searched.change {e e' : Nat} (h : Searched A₀ underway e A) (hid : underway id)
    (he : (A.state e).closed) (hB : A₀.Tracks B) (hclosed : (B.state id).closed)
    (hsame : ∀ x, x ≠ id → B.state x = A.state x)
    (hslips : ∀ m, B.Slips id m → A.Slips id m ∨ m = e') : Searched A₀ underway e' B := by
  have hkept := closed_of_same hsame hclosed
  refine ⟨hB, fun x hx => hkept x (h.closed x hx), fun x hx hfree => ?_, fun x hx m hm => ?_⟩
  · have hne : x ≠ id := fun hne => hfree (hne ▸ hid)
    rw [hsame x hne] at hx
    exact (h.finished x hx hfree).congr (hsame x hne) hkept
  · have hcases : A.Slips x m ∨ m = e' := by
      by_cases hne : x = id
      · subst hne
        exact hslips m hm
      · exact .inl ((slips_congr (hsame x hne)).mp hm)
    rcases hcases with hm | rfl
    · rcases h.held x hx m hm with hm | hm | rfl
      · exact .inl hm
      · exact .inr (.inl (hkept m hm))
      · exact .inr (.inl (hkept m he))
    · exact .inr (.inr rfl)

/-- A state that is closed is entered without any change. -/
theorem Searched.enter {e : Nat} (h : Searched A₀ underway e A) (he : (A.state e).closed)
    (e' : Nat) : Searched A₀ underway e' A where
  tracks := h.tracks
  closed := h.closed
  finished := h.finished
  held := fun x hx m hm => (h.held x hx m hm).imp_right fun hm =>
    .inl (hm.elim (fun hm => hm) fun hm => hm ▸ he)

/-- An open state is not underway. -/
theorem Searched.not_underway {e : Nat} (h : Searched A₀ underway e A)
    (hopen : (A.state x).closed = false) : ¬ underway x := fun hx => by
  have hclosed := h.closed x hx
  rw [hopen] at hclosed
  cases hclosed

/-! ### One call of the search -/

/-- The closing of an open state begins. -/
theorem Searched.visiting (h : Searched A₀ underway id A) (hid : id < A₀.size)
    (hopen : (A.state id).closed = false) : Visiting A₀ underway id A id (A.mark id) := by
  have hstate : (A.mark id).state id = { A.state id with closed := true } :=
    state_modify_self (h.tracks.size_eq ▸ hid)
  have hsame : ∀ x, x ≠ id → (A.mark id).state x = A.state x := fun x hx =>
    state_modify_of_ne hx
  have hkept := closed_of_same hsame (by rw [hstate])
  refine ⟨⟨h.tracks.mark id, ?_, fun x hx hx' => ?_, fun x hx m hm => ?_⟩, Gains.refl A₀ id _,
    fun v hv hopen => ?_⟩
  · rintro x (rfl | hx)
    · rw [hstate]
    · exact hkept x (h.closed x hx)
  · have hne : x ≠ id := fun hne => hx' (.inl hne)
    rw [hsame x hne] at hx
    exact (h.finished x hx fun hu => hx' (.inr hu)).congr (hsame x hne) hkept
  · rcases hx with rfl | hx
    · refine .inl ((slips_congr ((h.tracks.state x).untouched hopen)).mp ?_)
      rw [Slips, hstate] at hm
      exact hm
    · rw [slips_congr (hsame x fun hne => h.not_underway hopen (hne ▸ hx))] at hm
      exact (h.held x hx m hm).imp_right fun hm => hm.imp_left (hkept m)
  · rw [hopen] at hv
    cases hv

/-- The state whose successors are visited is closed. -/
theorem Visiting.closed_id {e : Nat} (h : Visiting A₀ underway id A e C) : (C.state id).closed :=
  h.searched.closed id (.inl rfl)

/-- A state that is open is not the one whose successors are visited. -/
theorem Visiting.ne_of_open {e v : Nat} (h : Visiting A₀ underway id A e C) (hid : id < A₀.size)
    (hA : A.size = A₀.size) (hv : ((A.mark id).state v).closed = false) : v ≠ id := by
  rintro rfl
  rw [mark, state_modify_self (hA ▸ hid)] at hv
  cases hv

section Loop

variable {e : Nat} (hid : id < A₀.size) (hA : A.size = A₀.size)
include hid hA

/-- State `id` has taken over more, and something else may be entered next. -/
theorem Visiting.change {e' : Nat} (h : Visiting A₀ underway id A e C) (he : (C.state e).closed)
    (hD : A₀.Tracks D) (hgains : Gains A₀ id C D) (hsame : ∀ x, x ≠ id → D.state x = C.state x)
    (hslips : ∀ m, D.Slips id m → C.Slips id m ∨ m = e') : Visiting A₀ underway id A e' D where
  searched := h.searched.change (.inl rfl) he hD (hgains.closed id h.closed_id) hsame hslips
  gains := h.gains.trans hgains
  delivers := fun v hv hopen => by
    have hne := h.ne_of_open hid hA hopen
    rw [hsame v hne] at hv
    exact (h.delivers v hv hopen).gains hne hv hgains

/-- Inheriting keeps the visit going: the state gains what the successor accepts. -/
theorem Visiting.inherit (h : Visiting A₀ underway id A id C) (hx : A₀.Reaches id x)
    (hD : C.inherit id x = .ok D) : Visiting A₀ underway id A id D ∧ Gains A₀ id C D ∧
      (∀ p, (C.state x).accepts = some p → (D.state id).accepts = some p) ∧
      (D.state id).accepts = (C.state id).accepts.or (C.state x).accepts ∧
      ∀ y, y ≠ id → D.state y = C.state y := by
  have hsize : id < C.size := by rw [h.searched.tracks.size_eq]; exact hid
  have htracks := h.searched.tracks.inherit (fun _ => h.closed_id) hx hD
  obtain ⟨hslips, hkept, htaken, hsame⟩ := inherit_accepts hsize hD
  obtain ⟨hclosed, haccepts⟩ : (D.state id).closed ∧
      (D.state id).accepts = (C.state id).accepts.or (C.state x).accepts := by
    rcases inherit_cases hD with ⟨hnone, rfl⟩ | ⟨rfl, p, hp, -⟩
    · rw [state_modify_self hsize, hnone]
      exact ⟨h.closed_id, rfl⟩
    · rw [hp]
      exact ⟨h.closed_id, rfl⟩
  have hgains : Gains A₀ id C D :=
    .of_same hsame hclosed (fun m _ hm => (hslips m).mpr hm) hkept
  exact ⟨h.change hid hA h.closed_id htracks hgains hsame fun m hm => .inl ((hslips m).mp hm),
    hgains, htaken, haccepts, hsame⟩

/-- Absorbing keeps the visit going: the state gains one more successor. -/
theorem Visiting.absorb (h : Visiting A₀ underway id A id C) (hx : A₀.Reaches id x) :
    Visiting A₀ underway id A x (C.absorb id x) ∧ Gains A₀ id C (C.absorb id x) ∧
      (∀ m, (C.absorb id x).Slips id m ↔ m = x ∨ C.Slips id m) ∧
      ((C.absorb id x).state id).accepts = (C.state id).accepts ∧
      ∀ y, y ≠ id → (C.absorb id x).state y = C.state y := by
  have hsize : id < C.size := by rw [h.searched.tracks.size_eq]; exact hid
  have hstate : (C.absorb id x).state id
      = { C.state id with epsilon := (C.state id).epsilon.insert x } := state_modify_self hsize
  have hsame : ∀ y, y ≠ id → (C.absorb id x).state y = C.state y := fun y hy =>
    state_modify_of_ne hy
  have hslips : ∀ m, (C.absorb id x).Slips id m ↔ m = x ∨ C.Slips id m := fun m => by
    rw [Slips, hstate]
    exact OrderedSet.mem_insert
  have hgains : Gains A₀ id C (C.absorb id x) :=
    .of_same hsame (by rw [hstate]; exact h.closed_id) (fun m _ hm => (hslips m).mpr (.inr hm))
      fun p hp => by rw [hstate]; exact hp
  exact ⟨h.change hid hA h.closed_id (h.searched.tracks.absorb (fun _ => h.closed_id) hx) hgains
    hsame fun m hm => ((hslips m).mp hm).symm, hgains, hslips, by rw [hstate], hsame⟩

variable {budget : Nat}
  (ih : ∀ {id : Nat} {A B : Automaton} {underway : Nat → Prop}, closeWithin budget id A = .ok B →
    id < A₀.size → Searched A₀ underway id A → A.pending < budget → Closes A₀ underway id A B)
  (hpending : (A.mark id).pending < budget) (hrange : ∀ x y, A₀.Slips x y → y < A₀.size)
include ih hpending hrange

/-- While `id` is being closed, a successor of a state underway is closed. -/
theorem Visiting.call (h : Visiting A₀ underway id A x C) (hx : A₀.Reaches id x)
    (hheld : (C.state x).closed ∨
      ∃ u, (u = id ∨ underway u) ∧ A₀.Reaches id u ∧ A₀.Slips u x)
    (hD : closeWithin budget x C = .ok D) :
    Visiting A₀ underway id A id D ∧ Frozen C D ∧ (D.state x).closed ∧
      ∀ v, (D.state v).closed → (C.state v).closed ∨ A₀.Reaches x v := by
  obtain ⟨htracks, hframe⟩ := closeWithin_tracks budget hD h.searched.tracks
  have hgains : Gains A₀ id C D := hframe.gains h.closed_id
  have hsize : C.size = (A.mark id).size := by
    rw [h.searched.tracks.size_eq, mark, size_modify, hA]
  have hxsize : x < A₀.size := by
    rcases Relation.ReflTransGen.cases_tail hx with rfl | ⟨y, -, hy⟩
    · exact hid
    · exact hrange y x hy
  have hcloses := ih hD hxsize h.searched
    (Nat.lt_of_le_of_lt (pending_le hsize h.gains.closed) hpending)
  refine ⟨⟨hcloses.searched.enter hcloses.closed id, h.gains.trans hgains,
    fun v hv hopen => ?_⟩, hframe, hcloses.closed, fun v hv => ?_⟩
  · cases hC : (C.state v).closed with
    | true => exact (h.delivers v hC hopen).gains (h.ne_of_open hid hA hopen) hC hgains
    | false =>
      have hdelivers := hcloses.delivers v hv hC
      refine ⟨hx.trans hdelivers.reaches, ?_⟩
      rcases hdelivers.feeds with hfeeds | ⟨u, s, hu, hreach, hs, hsC, hsD, hfeeds⟩
      · -- the call was entered, so its state is one that a state underway looks at later
        cases hxC : (C.state x).closed with
        | true =>
            obtain ⟨budget, rfl⟩ := Nat.exists_eq_add_of_lt (Nat.zero_lt_of_lt hpending)
            rw [Nat.zero_add, closeWithin, if_pos hxC] at hD
            obtain rfl : C = D := Except.ok.inj hD
            rw [hC] at hv
            cases hv
        | false =>
            obtain ⟨u, hu, hreach, hux⟩ := hheld.resolve_left (by rw [hxC]; decide)
            exact .inr ⟨u, x, hu, hreach, hux, h.gains.open_of_open hxC, hcloses.closed, hfeeds⟩
      · exact .inr ⟨u, s, hu, hx.trans hreach, hs, h.gains.open_of_open hsC, hsD, hfeeds⟩
  · cases hC : (C.state v).closed with
    | true => exact .inl rfl
    | false => exact .inr (hcloses.delivers v hv hC).reaches

/-- An element of the closure of a successor is taken over, and closed. -/
theorem Visiting.takeOver (h : Visiting A₀ underway id A id C) (hx : A₀.Reaches id x)
    (hheld : (C.state x).closed ∨ x = id ∨
      ∃ u, (u = id ∨ underway u) ∧ A₀.Reaches id u ∧ A₀.Slips u x)
    (hD : closeWithin budget x (C.absorb id x) = .ok D) :
    Visiting A₀ underway id A id D ∧ Gains A₀ id C D ∧
      (D.state id).accepts = (C.state id).accepts ∧ (∀ m, m = x ∨ C.Slips id m → D.Slips id m) ∧
      ∀ v, (D.state v).closed → (C.state v).closed ∨ A₀.Reaches x v := by
  obtain ⟨habsorb, hgains, hslips, haccepts, hsame⟩ := h.absorb hid hA hx
  have hheld' : ((C.absorb id x).state x).closed ∨
      ∃ u, (u = id ∨ underway u) ∧ A₀.Reaches id u ∧ A₀.Slips u x := by
    rcases hheld with hclosed | rfl | hheld
    · exact .inl (hgains.closed x hclosed)
    · exact .inl habsorb.closed_id
    · exact .inr hheld
  obtain ⟨hvisiting, hframe, -, hreaches⟩ := habsorb.call hid hA ih hpending hrange hx hheld' hD
  have hstate := hframe id habsorb.closed_id
  refine ⟨hvisiting, hgains.trans (hframe.gains habsorb.closed_id), by rw [hstate, haccepts],
    fun m hm => (slips_congr hstate).mpr ((hslips m).mpr hm), fun v hv => ?_⟩
  refine (hreaches v hv).imp_left fun hv => ?_
  by_cases hne : v = id
  · rw [hne]
    exact h.closed_id
  · rwa [hsame v hne] at hv

/-- A successor is closed and taken over. -/
theorem Visiting.visit (h : Visiting A₀ underway id A id C) (hs : A₀.Slips id s)
    (hD : visit budget id C s = .ok D) :
    ∃ C₁, closeWithin budget s C = .ok C₁ ∧ Visited A₀ underway id A s C C₁ D := by
  have hreach : A₀.Reaches id s := .single hs
  obtain ⟨C₁, C₂, hC₁, hC₂, hD⟩ := visit_cases hD
  obtain ⟨h₁, hframe₁, hclosed₁, hreaches₁⟩ := (show Visiting A₀ underway id A s C from
    { h with searched := h.searched.enter h.closed_id s }).call hid hA ih hpending hrange hreach
      (.inr ⟨id, .inl rfl, .refl, hs⟩) hC₁
  obtain ⟨h₂, hgains₂, htaken₂, haccepts₂, hsame₂⟩ := h₁.inherit hid hA hreach hC₂
  have hreaches₂ : ∀ v, (C₂.state v).closed → (C.state v).closed ∨ A₀.Reaches s v := fun v hv => by
    refine hreaches₁ v ?_
    by_cases hne : v = id
    · rw [hne]
      exact h₁.closed_id
    · rwa [hsame₂ v hne] at hv
  -- a closed state has closed ones only, unless it is underway and has its own successors
  have hheld : ∀ other, C₂.Slips s other → (C₂.state other).closed ∨ other = id ∨
      ∃ u, (u = id ∨ underway u) ∧ A₀.Reaches id u ∧ A₀.Slips u other := fun other hother => by
    by_cases hu : s = id ∨ underway s
    · rcases h₂.searched.held s hu other hother with hslips | hclosed | rfl
      · exact .inr (.inr ⟨s, hu, hreach, hslips⟩)
      · exact .inl hclosed
      · exact .inr (.inl rfl)
    · have hfinished := h₂.searched.finished s (hgains₂.closed s hclosed₁) hu
      exact .inl (hfinished.slips other hother).1
  obtain ⟨⟨hvisiting, hgains, hreaches, haccepts⟩, hall, -⟩ := foldlM_induction
    (P := fun E => Visiting A₀ underway id A id E ∧ Gains A₀ id C₂ E ∧
      (∀ v, (E.state v).closed → (C.state v).closed ∨ A₀.Reaches s v) ∧
      (E.state id).accepts = (C₂.state id).accepts)
    (Q := fun other E => E.Slips id other)
    (fun other hother E F hE hF => by
      obtain ⟨hE, hgainsE, hreachesE, hacceptsE⟩ := hE
      have hstep := (h₂.searched.tracks.state s).slips other hother
      obtain ⟨hF, hgainsF, hacceptsF, hslipsF, hreachesF⟩ :=
        hE.takeOver hid hA ih hpending hrange (hreach.trans hstep)
          ((hheld other hother).imp_left (hgainsE.closed other)) hF
      refine ⟨⟨hF, hgainsE.trans hgainsF, fun v hv => ?_, hacceptsF.trans hacceptsE⟩,
        hslipsF other (.inl rfl), fun c hc => hslipsF c (.inr hc)⟩
      rcases hreachesF v hv with hv | hv
      · exact hreachesE v hv
      · exact .inr (hstep.trans hv))
    ⟨h₂, Gains.refl A₀ id C₂, hreaches₂, rfl⟩ hD
  have hgainsC : Gains A₀ id C D :=
    ((hframe₁.gains h.closed_id).trans hgains₂).trans hgains
  have htaken : ∀ p, (C₁.state s).accepts = some p → (D.state id).accepts = some p :=
    fun p hp => hgains.accepts p (htaken₂ p hp)
  refine ⟨C₁, hC₁, hvisiting, hgainsC, hgains.closed s (hgains₂.closed s hclosed₁),
    fun hopen => ?_, hreaches, ?_, htaken⟩
  · have hne := h.ne_of_open hid hA hopen
    have hsame := hgains.frozen s hne (hgains₂.closed s hclosed₁)
    refine ⟨fun m _ hm => hall m ((slips_congr hsame).mp hm), fun p hp => htaken p ?_⟩
    rwa [hsame, hgains₂.frozen s hne hclosed₁] at hp
  · rw [haccepts, haccepts₂, hframe₁ id h.closed_id]

end Loop

/-- The closing of a state comes to its end. -/
theorem Visiting.settle (h : Visiting A₀ underway id A id C) (hid : id < A₀.size)
    (hA : A.size = A₀.size) (hfree : ¬ underway id)
    (hall : ∀ s, A₀.Slips id s → (C.state s).closed ∧
      (((A.mark id).state s).closed = false → Feeds A₀ C s id)) :
    Closes A₀ underway id A (C.settle id) := by
  have hsize : id < C.size := by rw [h.searched.tracks.size_eq]; exact hid
  have hmoves : ∀ y, (C.state y).hasMoves = (A₀.state y).hasMoves := fun y => by
    rw [State.hasMoves, State.hasMoves, (h.searched.tracks.state y).moves_eq]
  have hstate : (C.settle id).state id = { C.state id with
      epsilon := ((C.state id).epsilon.insert id).filter fun y => (C.state y).hasMoves } :=
    state_modify_self hsize
  have hsame : ∀ y, y ≠ id → (C.settle id).state y = C.state y := fun y hy =>
    state_modify_of_ne hy
  have hslips : ∀ m, (C.settle id).Slips id m ↔
      (m = id ∨ C.Slips id m) ∧ (A₀.state m).hasMoves := fun m => by
    rw [Slips, Slips, hstate, ← hmoves]
    exact OrderedSet.mem_filter.trans (and_congr_left' OrderedSet.mem_insert)
  have hclosed : ((C.settle id).state id).closed := by
    rw [hstate]
    exact h.closed_id
  have hgains : Gains A₀ id C (C.settle id) :=
    .of_same hsame hclosed (fun m hm hs => (hslips m).mpr ⟨.inr hs, hm⟩)
      fun p hp => by rw [hstate]; exact hp
  have hunderway : ∀ x, underway x → x ≠ id := fun x hx hne => hfree (hne ▸ hx)
  refine ⟨⟨h.searched.tracks.settle fun _ => h.closed_id,
    fun x hx => hgains.closed x (h.searched.closed x (.inr hx)), fun x hx hx' => ?_,
    fun x hx m hm => ?_⟩, hclosed, fun v hv hopen => ?_⟩
  · by_cases hne : x = id
    · subst hne
      refine ⟨fun m hm => ?_, fun hm => (hslips x).mpr ⟨.inl rfl, hm⟩,
        fun s hs => hgains.closed s (hall s hs).1⟩
      obtain ⟨rfl | hm, hmoves'⟩ := (hslips m).mp hm
      · exact ⟨hclosed, hmoves'⟩
      · rcases h.searched.held x (.inl rfl) m hm with hm | hm | rfl
        · exact ⟨hgains.closed m (hall m hm).1, hmoves'⟩
        · exact ⟨hgains.closed m hm, hmoves'⟩
        · exact ⟨hclosed, hmoves'⟩
    · rw [hsame x hne] at hx
      exact (h.searched.finished x hx fun h => h.elim hne hx').congr (hsame x hne) hgains.closed
  · rw [slips_congr (hsame x (hunderway x hx))] at hm
    exact (h.searched.held x (.inr hx) m hm).imp_right fun hm => hm.imp_left (hgains.closed m)
  · by_cases hne : v = id
    · rw [hne]
      exact ⟨.refl, .inl (Feeds.refl A₀ _ id)⟩
    · rw [hsame v hne] at hv
      have hmark : ∀ s, s ≠ id → ((A.mark id).state s).closed = (A.state s).closed :=
        fun s hs => by rw [mark, state_modify_of_ne hs]
      have hdelivers := h.delivers v hv (by rw [hmark v hne]; exact hopen)
      refine ⟨hdelivers.reaches, ?_⟩
      rcases hdelivers.feeds with
        hfeeds | ⟨u, s, rfl | hu, hreach, hs, hsopen, hsclosed, hfeeds⟩
      · exact .inl (hfeeds.gains hne hv (.inl rfl) hgains)
      · -- the state itself has looked at this successor by now
        exact .inl ((hfeeds.trans ((hall s hs).2 hsopen)).gains hne hv (.inl rfl) hgains)
      · have hsne := h.ne_of_open hid hA hsopen
        rw [hmark s hsne] at hsopen
        exact .inr ⟨u, s, hu, hreach, hs, hsopen, hgains.closed s hsclosed,
          hfeeds.gains hne hv (.inr hsclosed) hgains⟩

/-- **What one call of the search preserves**: the closed states are finished, except for those
underway, and what was found is taken over. -/
theorem closeWithin_closes (hrange : ∀ x y, A₀.Slips x y → y < A₀.size) (budget : Nat) :
    ∀ {id : Nat} {A B : Automaton} {underway : Nat → Prop}, closeWithin budget id A = .ok B →
      id < A₀.size → Searched A₀ underway id A → A.pending < budget →
      Closes A₀ underway id A B := by
  induction budget with
  | zero => exact fun _ _ _ hpending => absurd hpending (Nat.not_lt_zero _)
  | succ budget ih =>
      intro id A B underway h hid hsearched hpending
      cases hclosed : (A.state id).closed with
      | true =>
          rw [closeWithin, if_pos hclosed] at h
          obtain rfl : A = B := Except.ok.inj h
          refine ⟨hsearched, hclosed, fun v hv hopen => ?_⟩
          rw [hopen] at hv
          cases hv
      | false =>
          have hA : A.size = A₀.size := hsearched.tracks.size_eq
          have hfree : ¬ underway id := hsearched.not_underway hclosed
          have huntouched : ∀ m, A.Slips id m ↔ A₀.Slips id m := fun m =>
            slips_congr ((hsearched.tracks.state id).untouched hclosed)
          have hmark := hsearched.visiting hid hclosed
          obtain ⟨C, hC, rfl⟩ := closeWithin_open h hclosed
          have hbudget : (A.mark id).pending < budget :=
            Nat.lt_of_lt_of_le (pending_mark (hA ▸ hid) hclosed) (Nat.le_of_lt_succ hpending)
          obtain ⟨hvisiting, hall, -⟩ := foldlM_induction
            (P := Visiting A₀ underway id A id)
            (Q := fun s C => (C.state s).closed ∧
              (((A.mark id).state s).closed = false → Feeds A₀ C s id))
            (fun s hs C D hC hD => by
              obtain ⟨C₁, -, hD⟩ := hC.visit hid hA ih hbudget hrange ((huntouched s).mp hs) hD
              exact ⟨hD.visiting, ⟨hD.closed, hD.feeds⟩, fun c hc =>
                ⟨hD.gains.closed c hc.1, fun hopen => (hc.2 hopen).gains
                  (hC.ne_of_open hid hA hopen) hc.1 (.inl rfl) hD.gains⟩⟩)
            hmark hC
          exact hvisiting.settle hid hA hfree fun s hs => hall s ((huntouched s).mpr hs)

/-! ### The state that the search began with -/

/-- A finished state has nothing but what it reaches. -/
theorem Finished.sound (h : Finished A₀ A x) (hA : A₀.Tracks A) : Sound A₀ A x where
  slips := fun y hy => ⟨(hA.state x).slips y hy, (h.slips y hy).2⟩
  accepts := (hA.state x).accepts

/-- A sound closure with nothing missing is exact. -/
theorem Sound.exact (h : Sound A₀ A x) (hflows : Flows A₀ A x x) : Exact A₀ A x where
  slips_iff := fun y => ⟨h.slips y, fun hy => hflows.slips y hy.1 hy.2⟩
  accepts_iff := fun p => ⟨h.accepts p, fun ⟨t, ht, hp⟩ => hflows.accepts t p ht hp⟩

/-- **A state that reaches open states only is closed exactly**, whatever is underway. -/
theorem exact_of_closeWithin (hrange : ∀ x y, A₀.Slips x y → y < A₀.size) {budget : Nat}
    (h : closeWithin budget id A = .ok B) (hid : id < A₀.size)
    (hsearched : Searched A₀ underway id A) (hpending : A.pending < budget)
    (hopen : ∀ y, A₀.Reaches id y → (A.state y).closed = false) : Exact A₀ B id := by
  have hcloses := closeWithin_closes hrange budget h hid hsearched hpending
  have hfree : ∀ y, A₀.Reaches id y → ¬ underway y := fun y hy =>
    hsearched.not_underway (hopen y hy)
  have hfinished : ∀ y, A₀.Reaches id y → (B.state y).closed → Finished A₀ B y :=
    fun y hy hclosed => hcloses.searched.finished y hclosed (hfree y hy)
  have hclosed : ∀ y, A₀.Reaches id y → (B.state y).closed := fun y hy => by
    induction hy with
    | refl => exact hcloses.closed
    | tail hy hstep ih => exact (hfinished _ hy ih).successors _ hstep
  have hfeeds : ∀ y, A₀.Reaches id y → Feeds A₀ B y id := fun y hy => by
    rcases (hcloses.delivers y (hclosed y hy) (hopen y hy)).feeds with
      hfeeds | ⟨u, -, hu, hreach, -⟩
    · exact hfeeds
    · exact absurd hu (hfree u hreach)
  have htracks := hcloses.searched.tracks
  refine ((hfinished id .refl hcloses.closed).sound htracks).exact ⟨fun m hm hmoves => ?_,
    fun t p ht hp => ?_⟩
  · exact (hfeeds m hm).slips m hmoves ((hfinished m hm (hclosed m hm)).self hmoves)
  · exact (hfeeds t ht).accepts p ((htracks.state t).accepts_kept p hp)

/-- Whether a closure is exact depends on the state only. -/
theorem Exact.congr (h : Exact A₀ A x) (hx : B.state x = A.state x) : Exact A₀ B x where
  slips_iff := fun y => (slips_congr hx).trans (h.slips_iff y)
  accepts_iff := fun p => by rw [hx]; exact h.accepts_iff p

/-- While no state is closed, nothing is underway and nothing has to be finished. -/
theorem searched_open (hopen : ∀ x, (A.state x).closed = false) (entering : Nat) :
    Searched A (fun _ => False) entering A where
  tracks := .refl A
  closed := fun _ h => h.elim
  finished := fun x hx => by
    rw [hopen x] at hx
    cases hx
  held := fun _ h => h.elim

/-- **A successor whose states are all open** is taken over with what it reaches, unless this is a
different acceptance. -/
theorem Visiting.branch (h : Visiting A₀ underway id A id C) (hid : id < A₀.size)
    (hA : A.size = A₀.size) (hrange : ∀ x y, A₀.Slips x y → y < A₀.size) {budget : Nat}
    (hpending : (A.mark id).pending < budget) (hs : A₀.Slips id s)
    (hopen : ∀ y, A₀.Reaches s y → (C.state y).closed = false)
    (hsingle : ∀ y p q, A₀.Reaches s y → ¬ A₀.Merges y p q) {accepted : Option Nat}
    (haccepted : ∀ p, accepted = some p ↔
      ∃ t, A₀.Reaches s t ∧ (A₀.state t).accepts = some p) :
    (∃ p q, (C.state id).accepts = some p ∧ accepted = some q ∧ p ≠ q ∧
        Automaton.visit budget id C s = .error (.mergedAcceptance id p q)) ∨
      ∃ C₁ D, Automaton.visit budget id C s = .ok D ∧ Visited A₀ underway id A s C C₁ D ∧
        (C₁.state s).accepts = accepted := by
  have hreach : A₀.Reaches id s := .single hs
  have htracks := h.searched.tracks
  have hunder : Underway A₀ C id C := ⟨htracks, ⟨fun _ => h.closed_id, fun _ _ _ => rfl⟩, rfl⟩
  have hsize : C.size = (A.mark id).size := by rw [htracks.size_eq, mark, size_modify, hA]
  have hfails : ∀ {y E fault}, A₀.Reaches s y → A₀.Tracks E →
      closeWithin budget y E ≠ .error fault := fun hy hE hfault => by
    obtain ⟨x, p, q, -, hx, hmerges⟩ := closeWithin_merges budget hfault hE
    exact hsingle x p q (hy.trans hx) hmerges
  cases hC₁ : closeWithin budget s C with
  | error fault => exact absurd hC₁ (hfails .refl htracks)
  | ok C₁ =>
      obtain ⟨htracks₁, hframe⟩ := closeWithin_tracks budget hC₁ htracks
      have hcall := hunder.call htracks₁ hframe
      have hexact := exact_of_closeWithin hrange hC₁ (hrange id s hs)
        (h.searched.enter h.closed_id s)
        (Nat.lt_of_le_of_lt (pending_le hsize h.gains.closed) hpending) hopen
      have hs₁ : (C₁.state s).accepts = accepted :=
        Option.ext fun p => (hexact.accepts_iff p).trans (haccepted p).symm
      cases hD : Automaton.visit budget id C s with
      | ok D =>
          obtain ⟨C', hC', hvisited⟩ :=
            h.visit hid hA (closeWithin_closes hrange budget) hpending hrange hs hD
          obtain rfl : C₁ = C' := Except.ok.inj (hC₁.symm.trans hC')
          exact .inr ⟨C₁, D, rfl, hvisited, hs₁⟩
      | error fault =>
          refine .inl ?_
          rcases cases_of_bind_eq_error hD with hD | ⟨C', hC', hD⟩
          · exact absurd hD (hfails .refl htracks)
          · obtain rfl : C₁ = C' := Except.ok.inj (hC₁.symm.trans hC')
            rcases cases_of_bind_eq_error hD with hD | ⟨C₂, hC₂, hD⟩
            · obtain ⟨p, q, rfl, hp, hq, hne⟩ := inherit_eq_error hD
              rw [hframe id h.closed_id] at hp
              exact ⟨p, q, hp, hs₁ ▸ hq, hne, rfl⟩
            · -- what is in the closure of the successor does not fail either
              have hunder₂ := hcall.inherit hreach hC₂
              have hother : ∀ y ∈ (C₂.state s).epsilon.toList, A₀.Reaches s y :=
                (hunder₂.tracks.state s).slips
              obtain ⟨y, hy, E, hE, hfault⟩ := exists_of_foldlM_eq_error (P := Underway A₀ C id)
                (fun y hy E F hE hF => hE.enter (hreach.trans (hother y hy)) hF) hunder₂ hD
              exact absurd hfault
                (hfails (hother y hy) (hE.absorb (hreach.trans (hother y hy))).tracks)

/-! ### The closed automaton -/

/-- While no state is underway, any state may be entered. -/
theorem Searched.start {e : Nat} (h : Searched A₀ (fun _ => False) e A) (e' : Nat) :
    Searched A₀ (fun _ => False) e' A where
  tracks := h.tracks
  closed := h.closed
  finished := h.finished
  held := fun _ h => h.elim

/-- If state 0 is live, it is the first one to be closed. -/
theorem exists_live_eq (hmem : 0 ∈ A.live.toList) : ∃ rest, A.live.toList = 0 :: rest := by
  cases hlist : A.live.toList with
  | nil =>
      rw [hlist] at hmem
      exact absurd hmem List.not_mem_nil
  | cons first rest =>
      refine ⟨rest, ?_⟩
      rw [hlist] at hmem
      rcases List.mem_cons.mp hmem with hzero | hmem
      · rw [hzero]
      · have hpairwise := A.live.increasing
        rw [hlist] at hpairwise
        have hlt : compare first 0 = .lt := (List.pairwise_cons.mp hpairwise).1 0 hmem
        exact absurd (Nat.compare_eq_lt.mp hlt) (Nat.not_lt_zero first)

/-- Where there is no state, nothing is changed. -/
theorem modify_of_size_le (h : A.size ≤ id) (f : State → State) : A.modify id f = A := by
  have hstates : A.states.modify id f = A.states := Array.ext_getElem? fun i => by
    rw [Array.getElem?_modify]
    split
    · next hi =>
      rw [← hi, Array.getElem?_eq_none h]
      rfl
    · rfl
  rw [modify, hstates]

/-- There is nothing to close where there is no state. -/
theorem closeWithin_of_size_le {budget : Nat} (h : A.size ≤ id) :
    closeWithin budget id A = .ok A := by
  cases budget with
  | zero => rfl
  | succ budget =>
      rw [closeWithin_eq budget (by rw [state_of_size_le h]), mark, modify_of_size_le h,
        state_of_size_le h]
      exact congrArg Except.ok (modify_of_size_le h _)

/-- What is closed is sound, nothing of it changes later, and all of the list is closed. -/
theorem Searched.closes (hrange : ∀ x y, A.Slips x y → y < A.size) {l : List Nat} {e : Nat}
    (hC : Searched A (fun _ => False) e C) (h : l.foldlM (fun A id => A.close id) C = .ok B) :
    Searched A (fun _ => False) e B ∧ Frozen C B ∧ ∀ x ∈ l, x < A.size → (B.state x).closed := by
  obtain ⟨⟨hB, hframe⟩, hclosed, -⟩ := foldlM_induction
    (P := fun D => Searched A (fun _ => False) e D ∧ Frozen C D)
    (Q := fun x D => x < A.size → (D.state x).closed)
    (fun x hx D E hD hE => by
      by_cases hlt : x < A.size
      · have hcloses := closeWithin_closes hrange _ hE hlt (hD.1.start x)
          (Nat.lt_succ_of_le (pending_le_size D))
        obtain ⟨-, hframe⟩ := closeWithin_tracks _ hE hD.1.tracks
        exact ⟨⟨hcloses.searched.start e, fun y hy =>
            (hframe y (hD.2.closed hy)).trans (hD.2 y hy)⟩,
          fun _ => hcloses.closed, fun c hc hlt => hframe.closed (hc hlt)⟩
      · rw [close, closeWithin_of_size_le (by rw [hD.1.tracks.size_eq]; omega)] at hE
        obtain rfl := Except.ok.inj hE
        exact ⟨hD, fun h => absurd h hlt, fun _ h => h⟩)
    ⟨hC, fun _ _ => rfl⟩ h
  exact ⟨hB, hframe, hclosed⟩

/-- What is closed is sound, and nothing of it changes later. -/
theorem Raw.closes (hA : A.Raw) {l : List Nat} (hl : ∀ x ∈ l, x < A.size) {e : Nat}
    (hC : Searched A (fun _ => False) e C) (h : l.foldlM (fun A id => A.close id) C = .ok B) :
    Searched A (fun _ => False) e B ∧ Frozen C B ∧ ∀ x ∈ l, (B.state x).closed := by
  obtain ⟨hB, hframe, hclosed⟩ := hC.closes hA.slips_lt h
  exact ⟨hB, hframe, fun x hx => hclosed x hx (hl x hx)⟩

/-- Only states with moves are left in a closure. -/
theorem closeAll_hasMoves (hopen : ∀ x, (A.state x).closed = false)
    (hrange : ∀ x y, A.Slips x y → y < A.size) (hlive : ∀ x, x < A.size → x ∈ A.live)
    (h : A.closeAll = .ok B) (hy : B.Slips x y) : (A.state y).hasMoves := by
  obtain ⟨hB, -, hclosed⟩ := (searched_open hopen 0).closes hrange h
  have hlt : x < A.size := hB.tracks.size_eq ▸ hy.lt_size
  exact ((hB.finished x (hclosed x (hlive x hlt) hlt) fun h => h).slips y hy).2

/-- **The closures of an automaton**, on any graph. If no state reaches two different acceptances,
the closing succeeds. Then every state has only what it reaches; the state that is closed first has
all of it; and where the only cycles are steps from a state to itself, every state has. -/
theorem closeAll_closures (hA : A.Raw) (hsingle : ∀ x p q, ¬ A.Merges x p q) :
    ∃ B, A.closeAll = .ok B ∧ (∀ x, Sound A B x) ∧ Exact A B 0 ∧
      ((∀ x y, A.Reaches x y → A.Reaches y x → y = x) → ∀ x, x < A.size → Exact A B x) := by
  cases h : A.closeAll with
  | error fault =>
      obtain ⟨x, p, q, -, hmerges⟩ := closeAll_merges h
      exact absurd hmerges (hsingle x p q)
  | ok B =>
      have hlive : ∀ x ∈ A.live.toList, x < A.size := fun x hx => (hA.mem_live x).mp hx
      obtain ⟨hsearched, -, hclosed⟩ := hA.closes hlive (searched_open hA.unclosed 0) h
      have hsound : ∀ x, Sound A B x := fun x => by
        by_cases hx : x < A.size
        · exact (hsearched.finished x (hclosed x ((hA.mem_live x).mpr hx)) fun h => h).sound
            hsearched.tracks
        · refine ⟨fun y hy => ?_, (hsearched.tracks.state x).accepts⟩
          have := hy.lt_size
          rw [hsearched.tracks.size_eq] at this
          exact absurd this hx
      refine ⟨B, rfl, hsound, ?_, fun hacyclic x hx => ?_⟩
      · -- the rest of the search does not change the first closure
        obtain ⟨rest, hrest⟩ := exists_live_eq ((hA.mem_live 0).mpr hA.size_pos)
        rw [closeAll, hrest] at h
        obtain ⟨C, hC, h⟩ := exists_of_bind_eq_ok (x := A.close 0) h
        have hbudget := Nat.lt_succ_of_le (pending_le_size A)
        have hopen := searched_open hA.unclosed 0
        have hexact := exact_of_closeWithin hA.slips_lt hC hA.size_pos hopen hbudget
          fun y _ => hA.unclosed y
        have hcloses := closeWithin_closes hA.slips_lt _ hC hA.size_pos hopen hbudget
        obtain ⟨-, hframe, -⟩ := hA.closes (fun x hx => hlive x (by
          rw [hrest]; exact List.mem_cons_of_mem 0 hx)) hcloses.searched h
        exact hexact.congr (hframe 0 hcloses.closed)
      · have hgathers := closeAll_gathers (G := fun x => x < A.size)
          { lt_size := fun _ h => h
            slips := fun x y _ hy => hA.slips_lt x y hy
            antisymm := fun x y _ => hacyclic x y } hA.unclosed h x ((hA.mem_live x).mpr hx) hx
        exact (hsound x).exact
          (hgathers.flows_self hsearched.tracks fun y hy => hA.slips_lt x y hy)

/-- An automaton with a cycle: state 1 and state 2 reach each other, and from state 1 one gets to
state 4, which has a move and accepts pattern 7. -/
def cyclic : Automaton :=
  { states := #[{ epsilon := .ofList [1] }, { epsilon := .ofList [2, 3] },
      { epsilon := .ofList [1] }, { epsilon := .ofList [4] },
      { moves := [.point 97], next := some 4, accepts := some 7 }]
    live := .ofList [0, 1, 2, 3, 4] }

/-- State 2 is closed while state 1 is underway, and misses what lies behind state 3. -/
example : (cyclic.closeAll.toOption.map fun B => [0, 1, 2].map fun x => (B.state x).epsilon.toList)
    = some [[4], [4], []] := by
  decide +kernel

/-- Nothing has been closed or replaced in `cyclic`. -/
theorem raw_cyclic : cyclic.Raw where
  size_pos := by decide
  unclosed := fun x => by
    by_cases hx : x < cyclic.size
    · exact (by decide : ∀ x < 5, (cyclic.state x).closed = false) x hx
    · rw [state_of_size_le (Nat.le_of_not_lt hx)]
  mem_live := fun x => by
    rw [cyclic, OrderedSet.mem_ofList]
    simp only [List.mem_cons, List.not_mem_nil, or_false, size, List.size_toArray, List.length_cons,
      List.length_nil]
    omega
  slips_lt := fun x y hy =>
    (by decide : ∀ x < 5, ∀ y ∈ (cyclic.state x).epsilon.toList, y < 5) x hy.lt_size y hy

/-- Only one pattern is accepted at all. -/
theorem accepts_cyclic {x p : Nat} (h : (cyclic.state x).accepts = some p) : p = 7 := by
  have hall : ∀ x < 5, ∀ p, (cyclic.state x).accepts = some p → p = 7 := by decide
  exact hall x (lt_size_of_accepts h) p h

/-- The state that is closed first has what lies behind the cycle. -/
theorem closeAll_closures_cyclic :
    cyclic.Raw ∧ (∀ x p q, ¬ cyclic.Merges x p q) ∧ cyclic.Slips 1 2 ∧ cyclic.Slips 2 1 ∧
      ∃ B, cyclic.closeAll = .ok B ∧ (∀ x, Sound cyclic B x) ∧ Exact cyclic B 0 ∧
        ((∀ x y, cyclic.Reaches x y → cyclic.Reaches y x → y = x) →
          ∀ x, x < cyclic.size → Exact cyclic B x) := by
  have hsingle : ∀ x p q, ¬ cyclic.Merges x p q := by
    rintro x p q ⟨hne, ⟨t, -, hp⟩, u, -, hq⟩
    exact hne ((accepts_cyclic hp).trans (accepts_cyclic hq).symm)
  have hslips : 2 ∈ (cyclic.state 1).epsilon ∧ 1 ∈ (cyclic.state 2).epsilon := by decide
  exact ⟨raw_cyclic, hsingle, hslips.1, hslips.2, closeAll_closures raw_cyclic hsingle⟩

end Automaton

end GrammarAnalysis
