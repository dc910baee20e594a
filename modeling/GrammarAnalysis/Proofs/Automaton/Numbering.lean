import GrammarAnalysis.Proofs.Automaton.Composites

/-!
# Numbering the States

The initial state gets index 0, and three passes number the other states, with one counter: the
composite states, then the states that need code of their own, then the members of the composites.
No pass comes upon a state that has an index already, so the indices are the positions in a list:
the initial state first, then what each pass numbers, in its order.

## Main definitions

* `Automaton.Relabels`, `Automaton.Renumbers`: what the passes leave as it was;
* `Automaton.Numbered`: the indices are the positions in a list;
* `Automaton.Inner`: the members of the composite states, other than the first state;
* `Automaton.Tabulates`: an automaton, and the same with its states numbered.

## Main results

* `Automaton.number_numbered`: what one pass adds to the list;
* `Automaton.assignIndices_tabulates`: the list after the three passes;
* `Automaton.liveByIndex_eq`: the listing of the live states.
-/

namespace GrammarAnalysis

namespace Automaton

variable {A B C : Automaton}

/-! ### What the passes keep -/

/-- `B` is `A`, up to the indices and the initial state. -/
structure Relabels (A B : Automaton) : Prop where
  size_eq : B.size = A.size
  live_eq : B.live = A.live
  composites_eq : B.composites = A.composites
  state : ∀ x, ∃ index, B.state x = { A.state x with index := index }

/-- `B` is `A`, with some of the states numbered that are not the first one. -/
structure Renumbers (A B : Automaton) : Prop extends Relabels A B where
  initial_eq : B.initial = A.initial
  isFirst_eq : ∀ x, B.isFirst x = A.isFirst x
  isSome : ∀ x, (A.state x).index.isSome → (B.state x).index.isSome

/-- An automaton relabels itself. -/
theorem Relabels.refl (A : Automaton) : A.Relabels A where
  size_eq := rfl
  live_eq := rfl
  composites_eq := rfl
  state := fun _ => ⟨_, rfl⟩

/-- Relabelling is transitive. -/
theorem Relabels.trans (h : A.Relabels B) (h' : B.Relabels C) : A.Relabels C where
  size_eq := h'.size_eq.trans h.size_eq
  live_eq := h'.live_eq.trans h.live_eq
  composites_eq := h'.composites_eq.trans h.composites_eq
  state := fun x => by
    obtain ⟨i, hB⟩ := h.state x
    obtain ⟨j, hC⟩ := h'.state x
    exact ⟨j, by rw [hC, hB]⟩

/-- Changing an index relabels the automaton. -/
theorem relabels_modify (A : Automaton) (x : Nat) (index : Option Nat) :
    A.Relabels (A.modify x fun s => { s with index := index }) where
  size_eq := size_modify A x _
  live_eq := rfl
  composites_eq := rfl
  state := fun y => by
    rw [state_modify]
    split
    · exact ⟨_, rfl⟩
    · exact ⟨_, rfl⟩

/-- Relabelling keeps the states. -/
theorem Relabels.keeps (h : A.Relabels B) : A.Keeps B where
  size_le := h.size_eq.ge
  state := fun x => by
    obtain ⟨i, hB⟩ := h.state x
    exact ⟨i, _, hB, fun _ => rfl⟩

/-- Relabelling keeps the members of the states. -/
theorem Relabels.members_eq (h : A.Relabels B) (x : Nat) :
    (B.state x).members = (A.state x).members := by
  obtain ⟨i, hB⟩ := h.state x
  rw [hB]

/-- Relabelling keeps which states are composite. -/
theorem Relabels.isComposite_eq (h : A.Relabels B) (x : Nat) :
    (B.state x).isComposite = (A.state x).isComposite := by
  rw [State.isComposite, State.isComposite, h.members_eq]

/-- Relabelling keeps the canonical states. -/
theorem Relabels.canonical_eq (h : A.Relabels B) (x : Nat) : B.canonical x = A.canonical x := by
  obtain ⟨i, hB⟩ := h.state x
  rw [canonical, canonical, h.composites_eq, hB]
  rfl

/-- Relabelling keeps which states need code for their moves. -/
theorem Relabels.needsMoveCode_eq (h : A.Relabels B) (x : Nat) :
    B.needsMoveCode x = A.needsMoveCode x := by
  have hnext : (B.state x).next = (A.state x).next := by
    obtain ⟨i, hB⟩ := h.state x
    rw [hB]
  rw [needsMoveCode, needsMoveCode, h.isComposite_eq, h.canonical_eq, h.isComposite_eq, hnext]
  simp only [h.keeps.accepts_eq, h.keeps.epsilon_eq]

/-- An automaton renumbers itself. -/
theorem Renumbers.refl (A : Automaton) : A.Renumbers A where
  toRelabels := .refl A
  initial_eq := rfl
  isFirst_eq := fun _ => rfl
  isSome := fun _ h => h

/-- Renumbering is transitive. -/
theorem Renumbers.trans (h : A.Renumbers B) (h' : B.Renumbers C) : A.Renumbers C where
  toRelabels := h.toRelabels.trans h'.toRelabels
  initial_eq := h'.initial_eq.trans h.initial_eq
  isFirst_eq := fun x => (h'.isFirst_eq x).trans (h.isFirst_eq x)
  isSome := fun x hx => h'.isSome x (h.isSome x hx)

/-- A state that is not the first one gets an index that is not that of the first one. -/
theorem renumbers_modify {x counter : Nat} (hx : A.isFirst x = false) (hcounter : 0 < counter) :
    A.Renumbers (A.modify x fun s => { s with index := some counter }) where
  toRelabels := relabels_modify A x _
  initial_eq := rfl
  isFirst_eq := fun y => by
    rw [isFirst, state_modify]
    split
    · rename_i hy
      rw [← hy.1, hx]
      exact beq_eq_false_iff_ne.mpr fun h => Nat.ne_of_gt hcounter (Option.some.inj h)
    · rfl
  isSome := fun y hy => by
    rw [state_modify]
    split
    · rfl
    · exact hy

/-! ### One pass -/

/-- The states with an index are those of the list, each at its index. -/
def Numbered (A : Automaton) (order : List Nat) : Prop :=
  ∀ x i, (A.state x).index = some i ↔ order[i]? = some x

section Numbered

variable {order rest : List Nat} {x first : Nat}

/-- The states with an index are those of the list. -/
theorem Numbered.isSome_iff (h : A.Numbered order) : (A.state x).index.isSome ↔ x ∈ order := by
  rw [Option.isSome_iff_exists, List.mem_iff_getElem?]
  exact exists_congr (h x)

/-- The first state is the head of the list. -/
theorem Numbered.isFirst_iff (h : A.Numbered (first :: rest)) : A.isFirst x ↔ x = first := by
  rw [isFirst, beq_iff_eq, h x 0, List.getElem?_cons_zero, Option.some.injEq, eq_comm]

/-- The states that a pass numbers are those that it is for, other than the first one. -/
theorem Numbered.takes_iff (h : A.Numbered (first :: rest)) {eligible : Bool} :
    (!A.isFirst x && eligible) = true ↔ x ≠ first ∧ eligible = true := by
  rw [Bool.and_eq_true, Bool.not_eq_true', ← Bool.not_eq_true, h.isFirst_iff]

/-- No state is in the list twice. -/
theorem Numbered.nodup (h : A.Numbered order) : order.Nodup := by
  rw [List.nodup_iff_getElem?_ne_getElem?]
  intro i j hij hj heq
  obtain ⟨x, hx⟩ : ∃ x, order[j]? = some x := ⟨_, List.getElem?_eq_getElem hj⟩
  have hxi := (h x i).mpr (heq.trans hx)
  rw [(h x j).mpr hx] at hxi
  exact Nat.ne_of_gt hij (Option.some.inj hxi)

/-- A state that has no index gets the next one. -/
theorem Numbered.modify (h : A.Numbered order) (hx : x < A.size) (hnew : x ∉ order) :
    (A.modify x fun s => { s with index := some order.length }).Numbered (order ++ [x]) := by
  intro y i
  by_cases hy : y = x
  · subst hy
    rw [state_modify_self hx, List.getElem?_append]
    split
    · next hi =>
      have hother : order[i]? ≠ some y := fun hi => hnew (List.mem_of_getElem? hi)
      exact iff_of_false (fun heq => Nat.ne_of_gt hi (Option.some.inj heq)) hother
    · next hi =>
      rw [Option.some.injEq, List.getElem?_singleton]
      split
      · exact iff_of_true (by omega) rfl
      · exact iff_of_false (by omega) nofun
  · rw [state_modify_of_ne hy, h y i, List.getElem?_append]
    split
    · exact Iff.rfl
    · next hi =>
      rw [List.getElem?_eq_none (Nat.le_of_not_lt hi), List.getElem?_singleton]
      split
      · exact iff_of_false nofun fun heq => hy (Option.some.inj heq).symm
      · exact Iff.rfl

end Numbered

/-- **One pass** numbers the states that it is for, in their order, after those that have an
index. -/
theorem number_numbered (eligible : Automaton → Nat → Bool)
    (heligible : ∀ {A B : Automaton}, A.Renumbers B → ∀ x, eligible B x = eligible A x)
    (ids : List Nat) : ∀ {A : Automaton} {first : Nat} {rest : List Nat},
      A.Numbered (first :: rest) → ids.Nodup →
      (∀ x ∈ ids, x ≠ first → eligible A x → x < A.size ∧ x ∉ rest) →
      ∃ B new, number eligible ids (first :: rest).length A = ((first :: (rest ++ new)).length, B) ∧
        A.Renumbers B ∧ B.Numbered (first :: (rest ++ new)) ∧
        ∀ x, x ∈ new ↔ x ∈ ids ∧ x ≠ first ∧ eligible A x := by
  induction ids with
  | nil =>
      intro A first rest hA _ _
      exact ⟨A, [], by rw [List.append_nil]; rfl, .refl A, by rwa [List.append_nil], by simp⟩
  | cons id ids ih =>
      intro A first rest hA hnodup hnew
      obtain ⟨hid, hnodup⟩ := List.nodup_cons.mp hnodup
      rw [number]
      split
      · -- the state is numbered now, and it does not come again
        next hcond =>
        obtain ⟨hne, hel⟩ := hA.takes_iff.mp hcond
        obtain ⟨hlt, hrest⟩ := hnew id List.mem_cons_self hne hel
        have hnext : A.Renumbers (A.modify id fun s =>
            { s with index := some (first :: rest).length }) :=
          renumbers_modify (by rwa [← Bool.not_eq_true, hA.isFirst_iff]) (Nat.succ_pos rest.length)
        have hnumbered : (A.modify id fun s =>
            { s with index := some (first :: rest).length }).Numbered (first :: (rest ++ [id])) :=
          hA.modify hlt (List.not_mem_cons_of_ne_of_not_mem hne hrest)
        obtain ⟨B, new, hB, hkeeps, horder, hmem⟩ := ih hnumbered hnodup
          fun x hx hxne hxel => by
            rw [heligible hnext] at hxel
            obtain ⟨hxlt, hxrest⟩ := hnew x (List.mem_cons_of_mem id hx) hxne hxel
            refine ⟨by rwa [size_modify], fun hmem => ?_⟩
            rcases List.mem_append.mp hmem with hmem | hmem
            · exact hxrest hmem
            · exact hid (List.mem_singleton.mp hmem ▸ hx)
        rw [List.append_assoc, List.singleton_append] at hB horder
        refine ⟨B, id :: new, ?_, hnext.trans hkeeps, horder, fun x => ?_⟩
        · rw [← hB, List.length_cons, List.length_cons, List.length_append, List.length_singleton]
        · rw [List.mem_cons, List.mem_cons, hmem, heligible hnext]
          constructor
          · rintro (rfl | ⟨hx, h⟩)
            · exact ⟨.inl rfl, hne, hel⟩
            · exact ⟨.inr hx, h⟩
          · rintro ⟨rfl | hx, h⟩
            · exact .inl rfl
            · exact .inr ⟨hx, h⟩
      · next hcond =>
        obtain ⟨B, new, hB, hkeeps, horder, hmem⟩ := ih hA hnodup fun x hx =>
          hnew x (List.mem_cons_of_mem id hx)
        refine ⟨B, new, hB, hkeeps, horder, fun x => ?_⟩
        rw [hmem, List.mem_cons]
        constructor
        · exact And.imp_left .inr
        · rintro ⟨rfl | hx, h⟩
          · exact absurd (hA.takes_iff.mpr h) hcond
          · exact ⟨hx, h⟩

/-! ### The three passes -/

/-- A member of a live composite state, other than the first state; the members of a composite
first state are not meant. -/
def Inner (A : Automaton) (first x : Nat) : Prop :=
  x ≠ first ∧ ∃ c ∈ A.live, c ≠ first ∧ ∃ set, (A.state c).members = some set ∧ x ∈ set

/-- `B` is `A` with its states numbered: the first state, the composites, the other states whose
moves need code, and the members of the composites. -/
structure Tabulates (A B : Automaton) (first : Nat) (composites others inner : List Nat) :
    Prop where
  relabels : A.Relabels B
  initial_eq : B.initial = first
  numbered : B.Numbered (first :: (composites ++ (others ++ inner)))
  mem_composites : ∀ x, x ∈ composites ↔ x ∈ A.live ∧ x ≠ first ∧ (A.state x).isComposite
  mem_others : ∀ x, x ∈ others ↔ x ∈ A.live ∧ x ≠ first ∧ (A.state x).isComposite = false ∧
    A.needsMoveCode x ∧ ¬ A.Inner first x
  mem_inner : ∀ x, x ∈ inner ↔ A.Inner first x

/-- The members to be numbered are those of the composites other than the first state. -/
theorem mem_membersOf {ids : List Nat} {x : Nat} :
    x ∈ A.membersOf ids ↔
      ∃ c ∈ ids, A.isFirst c = false ∧ ∃ set, (A.state c).members = some set ∧ x ∈ set := by
  rw [membersOf]
  refine Iff.trans ?_ (or_iff_right (OrderedSet.not_mem_empty (a := x)))
  generalize (∅ : OrderedSet Nat) = acc
  induction ids generalizing acc with
  | nil => simp
  | cons id ids ih =>
      rw [List.foldl_cons, ih, List.exists_mem_cons_iff, ← or_assoc]
      refine or_congr_left ?_
      cases hfirst : A.isFirst id with
      | true => simp
      | false => cases hmembers : (A.state id).members <;> simp

/-- The moves of a state that does not exist need no code. -/
theorem lt_size_of_needsMoveCode {x : Nat} (h : A.needsMoveCode x) : x < A.size := by
  by_contra hx
  have hstate := state_of_size_le (Nat.le_of_not_lt hx)
  have hself : A.canonical x = x := by
    rw [canonical, hstate]
    rfl
  rw [needsMoveCode, hself, hstate] at h
  exact Bool.false_ne_true h

/-- The composite of the initial state gets index 0. -/
theorem numbered_settleInitial {first : Nat} (hfirst : A.makeCanonical A.initial = (first, A))
    (hlt : first < A.size) (hnone : ∀ x, (A.state x).index = none) :
    A.Relabels A.settleInitial ∧ A.settleInitial.initial = first ∧
      A.settleInitial.Numbered [first] := by
  have hnumbered : ({ A with initial := first } : Automaton).Numbered [] := fun x i => by
    refine iff_of_false (fun h => ?_) nofun
    change (A.state x).index = some i at h
    rw [hnone x] at h
    cases h
  have hrelabels := relabels_modify A first (some 0)
  rw [settleInitial, hfirst]
  exact ⟨⟨hrelabels.size_eq, hrelabels.live_eq, hrelabels.composites_eq, hrelabels.state⟩, rfl,
    hnumbered.modify hlt List.not_mem_nil⟩

/-- The third pass is for the members of the composites. -/
theorem mem_membersOf_live_iff {F : Automaton} {first x : Nat} (hF : A.Relabels F)
    (hnumbered : F.Numbered [first]) :
    x ≠ first ∧ x ∈ F.membersOf F.live.toList ↔ A.Inner first x := by
  refine and_congr_right' (mem_membersOf.trans ?_)
  simp only [OrderedSet.mem_toList, hF.live_eq, hF.members_eq, ← Bool.not_eq_true,
    hnumbered.isFirst_iff, ne_eq]

/-- **The three passes** leave no gap, if the composite of the initial state exists and no composite
is a member of another. -/
theorem assignIndices_tabulates {first : Nat} (hfirst : A.makeCanonical A.initial = (first, A))
    (hlt : first < A.size) (hnone : ∀ x, (A.state x).index = none)
    (hinner : ∀ x, A.Inner first x → x < A.size ∧ (A.state x).isComposite = false) :
    ∃ B composites others inner, A.Tabulates B first composites others inner ∧
      A.assignIndices = { B with live := B.live.filter fun x => (B.state x).index.isSome } := by
  obtain ⟨hrelabels, hinitial, hF⟩ := numbered_settleInitial hfirst hlt hnone
  rw [assignIndices]
  generalize A.settleInitial = F at hrelabels hinitial hF ⊢
  have hmem := fun x => mem_membersOf_live_iff (x := x) hrelabels hF
  generalize F.membersOf F.live.toList = innerSet at hmem ⊢
  -- the composite states come first
  obtain ⟨A₁, composites, hpass, h₁, hF, hcomposites⟩ := number_numbered
    (fun A id => (A.state id).isComposite) (fun h x => h.isComposite_eq x) F.live.toList hF
    F.live.nodup_toList fun x _ _ hx => ⟨lt_size_of_isComposite hx, List.not_mem_nil⟩
  have hpass : number (fun A id => (A.state id).isComposite) F.live.toList 1 F
    = ((first :: composites).length, A₁) := hpass
  have hF : A₁.Numbered (first :: composites) := hF
  -- then the other states whose moves need code; none of them has an index yet
  obtain ⟨A₂, others, hpass₂, h₂, hF, hothers⟩ := number_numbered
    (fun A id => !(A.state id).isComposite && A.needsMoveCode id && !decide (id ∈ innerSet))
    (fun h x => by rw [h.isComposite_eq, h.needsMoveCode_eq]) F.live.toList hF
    F.live.nodup_toList fun x _ hne hel => by
      simp only [Bool.and_eq_true, Bool.not_eq_true'] at hel
      refine ⟨lt_size_of_needsMoveCode hel.1.2, fun hx => ?_⟩
      have hcomposite := ((hcomposites x).mp hx).2.2
      rw [← h₁.isComposite_eq, hel.1.1] at hcomposite
      cases hcomposite
  have hrelabels₂ := hrelabels.trans (h₁.trans h₂).toRelabels
  -- the members of the composites were left for the end
  obtain ⟨A₃, inner, hpass₃, h₃, hF, hinnerMem⟩ := number_numbered (fun _ _ => true)
    (fun _ _ => rfl) innerSet.toList hF innerSet.nodup_toList fun x hx hne _ => by
      obtain ⟨hxlt, hplain⟩ := hinner x ((hmem x).mp ⟨hne, hx⟩)
      refine ⟨by rwa [hrelabels₂.size_eq], fun hx' => ?_⟩
      rcases List.mem_append.mp hx' with hx' | hx'
      · have hcomposite := ((hcomposites x).mp hx').2.2
        rw [hrelabels.isComposite_eq, hplain] at hcomposite
        cases hcomposite
      · have hel := ((hothers x).mp hx').2.2
        simp [OrderedSet.mem_toList.mp hx] at hel
  have hrelabels₃ := hrelabels₂.trans h₃.toRelabels
  refine ⟨A₃, composites, others, inner,
    ⟨hrelabels₃, ?_, ?_, fun x => ?_, fun x => ?_, fun x => ?_⟩, ?_⟩
  · rw [h₃.initial_eq, h₂.initial_eq, h₁.initial_eq, hinitial]
  · rwa [← List.append_assoc]
  · rw [hcomposites, hrelabels.isComposite_eq, OrderedSet.mem_toList, hrelabels.live_eq]
  · have hrelabels₁ := hrelabels.trans h₁.toRelabels
    simp only [hothers, OrderedSet.mem_toList, hrelabels.live_eq, ← hmem, hrelabels₁.isComposite_eq,
      hrelabels₁.needsMoveCode_eq, Bool.and_eq_true, Bool.not_eq_true', decide_eq_false_iff_not]
    tauto
  · rw [hinnerMem, ← hmem, OrderedSet.mem_toList]
    tauto
  · dsimp only
    rw [hpass]
    dsimp only
    rw [hpass₂]
    dsimp only
    rw [hpass₃]

/-! ### The indices of a closed automaton -/

/-- The composites that were added are among those that the passes number. -/
theorem tabulates_of_unnumbered (hA : A.Unnumbered) :
    ∃ B composites others inner,
      A.addComposites.Tabulates B (A.addComposites.canonical A.initial) composites others inner ∧
      A.addComposites.assignIndices
        = { B with live := B.live.filter fun x => (B.state x).index.isSome } := by
  have hA' := hA.condensed
  have hkeeps := hA'.condenses.keeps
  refine assignIndices_tabulates ?_ ?_
    (fun x => (hA'.condenses.index_eq x).trans (hA.index_eq x)) ?_
  · rw [hA'.condenses.initial_eq]
    exact makeCanonical_of_represented (hA'.plain _ hA.initial_lt) (hA'.represented _ hA.initial_lt)
  · rcases canonical_cases (hA'.plain _ hA.initial_lt) (hA'.represented _ hA.initial_lt) with
      ⟨hself, -⟩ | honly | hlookup
    · rw [hself]
      exact Nat.lt_of_lt_of_le hA.initial_lt hkeeps.size_le
    · refine Nat.lt_of_lt_of_le (hA.slips_lt A.initial _ ?_) hkeeps.size_le
      rw [Slips, ← hkeeps.epsilon_eq, ← OrderedSet.mem_toList, honly]
      exact List.mem_singleton_self _
    · exact (hA'.housed.composed _ _ (mem_of_lookup hlookup)).1
  · rintro x ⟨-, c, -, -, set, hset, hx⟩
    obtain ⟨y, rfl⟩ := hA'.catalogued.closure c set hset
    have hlt := hA.slips_lt y x hx
    refine ⟨Nat.lt_of_lt_of_le hlt hkeeps.size_le, ?_⟩
    rw [State.isComposite, hA'.plain x hlt]
    rfl

/-- The indices of the live states are the numbers below that of these states, each used once. The
initial state has the first one, then come the other composites, and their members come last. -/
structure Dense (A : Automaton) : Prop where
  index_lt : ∀ x ∈ A.live, ∃ i < A.liveCount, (A.state x).index = some i
  existsUnique : ∀ i < A.liveCount, ∃! x, x ∈ A.live ∧ (A.state x).index = some i
  mem_live : ∀ x, (A.state x).index.isSome → x ∈ A.live
  initial_mem : A.initial ∈ A.live
  initial_index : (A.state A.initial).index = some 0
  isSome_of_isComposite : ∀ x, (A.state x).isComposite → (A.state x).index.isSome
  isSome_of_inner : ∀ x, A.Inner A.initial x → (A.state x).index.isSome
  blocks : ∃ k n, k < n ∧ n ≤ A.liveCount ∧ ∀ x i, (A.state x).index = some i →
    ((A.state x).isComposite ∧ x ≠ A.initial ↔ 1 ≤ i ∧ i ≤ k) ∧ (A.Inner A.initial x ↔ n ≤ i)
  needsMoveCode : ∀ x, (A.state x).index.isSome → x ≠ A.initial → (A.state x).isComposite = false →
    ¬ A.Inner A.initial x → A.needsMoveCode x

/-- Where an element of a part of a list without repetitions stands. -/
theorem mem_part_iff {l₁ l₂ l₃ : List Nat} (hnodup : (l₁ ++ (l₂ ++ l₃)).Nodup) {x i : Nat}
    (h : (l₁ ++ (l₂ ++ l₃))[i]? = some x) :
    x ∈ l₂ ↔ l₁.length ≤ i ∧ i < l₁.length + l₂.length := by
  constructor
  · intro hx
    obtain ⟨j, hj⟩ := List.mem_iff_getElem?.mp hx
    have hjlt := (List.getElem?_eq_some_iff.mp hj).1
    have hat : (l₁ ++ (l₂ ++ l₃))[l₁.length + j]? = some x := by
      rw [List.getElem?_append_right (Nat.le_add_right _ _), Nat.add_sub_cancel_left,
        List.getElem?_append_left hjlt, hj]
    obtain rfl : i = l₁.length + j :=
      (List.getElem?_inj (List.getElem?_eq_some_iff.mp h).1 hnodup).mp (h.trans hat.symm)
    omega
  · rintro ⟨hlo, hhi⟩
    rw [List.getElem?_append_right hlo, List.getElem?_append_left (by omega)] at h
    exact List.mem_of_getElem? h

/-- The live states of an automaton are the initial state and those of three lists, in the order of
their indices: the composites, states whose moves need code, and the members of the composites. -/
structure Ordered (A : Automaton) (composites others inner : List Nat) : Prop where
  numbered : A.Numbered (A.initial :: (composites ++ (others ++ inner)))
  mem_live : ∀ x, x ∈ A.live ↔ x ∈ A.initial :: (composites ++ (others ++ inner))
  mem_composites : ∀ x, x ∈ composites ↔ (A.state x).isComposite ∧ x ≠ A.initial
  needsMoveCode : ∀ x ∈ others, A.needsMoveCode x
  mem_inner : ∀ x, x ∈ inner ↔ A.Inner A.initial x

section Dense

variable {composites others inner : List Nat} {x i first : Nat}

/-- A state of the whole list is the first one, or one of the three passes numbers it. -/
theorem mem_order_iff : x ∈ first :: (composites ++ (others ++ inner)) ↔
    x = first ∨ x ∈ composites ∨ x ∈ others ∨ x ∈ inner := by
  simp only [List.mem_cons, List.mem_append]

/-- The states with an index are the initial one and those of the three lists. -/
theorem Ordered.isSome_iff (h : A.Ordered composites others inner) : (A.state x).index.isSome ↔
    x = A.initial ∨ x ∈ composites ∨ x ∈ others ∨ x ∈ inner :=
  h.numbered.isSome_iff.trans mem_order_iff

/-- There are as many live states as positions in the list. -/
theorem Ordered.liveCount_eq (h : A.Ordered composites others inner) :
    A.liveCount = (A.initial :: (composites ++ (others ++ inner))).length :=
  ((List.perm_ext_iff_of_nodup A.live.nodup_toList h.numbered.nodup).mpr h.mem_live).length_eq

/-- The composites come right after the initial state. -/
theorem Ordered.composite_iff (h : A.Ordered composites others inner)
    (hi : (A.state x).index = some i) :
    (A.state x).isComposite ∧ x ≠ A.initial ↔ 1 ≤ i ∧ i ≤ composites.length := by
  have hpart := @mem_part_iff [A.initial] composites (others ++ inner) h.numbered.nodup x i
    ((h.numbered x i).mp hi)
  rw [← h.mem_composites, hpart, List.length_singleton]
  omega

/-- The members of the composites come last. -/
theorem Ordered.inner_iff (h : A.Ordered composites others inner)
    (hi : (A.state x).index = some i) :
    A.Inner A.initial x ↔ (A.initial :: (composites ++ others)).length ≤ i := by
  have hnodup := h.numbered.nodup
  have hat := (h.numbered x i).mp hi
  have hlt := (List.getElem?_eq_some_iff.mp hat).1
  have heq : A.initial :: (composites ++ (others ++ inner))
      = (A.initial :: (composites ++ others)) ++ (inner ++ []) := by simp
  rw [heq] at hnodup hat hlt
  rw [← h.mem_inner, mem_part_iff hnodup hat, and_iff_left]
  rwa [List.append_nil, List.length_append] at hlt

/-- The indices of an ordered automaton are dense. -/
theorem Ordered.dense (h : A.Ordered composites others inner) : A.Dense where
  index_lt := fun x hx => by
    obtain ⟨i, hi⟩ := List.mem_iff_getElem?.mp ((h.mem_live x).mp hx)
    exact ⟨i, h.liveCount_eq ▸ (List.getElem?_eq_some_iff.mp hi).1, (h.numbered x i).mpr hi⟩
  existsUnique := fun i hi => by
    rw [h.liveCount_eq] at hi
    have hat := List.getElem?_eq_getElem hi
    refine ⟨_, ⟨(h.mem_live _).mpr (List.mem_of_getElem? hat), (h.numbered _ i).mpr hat⟩,
      fun y hy => ?_⟩
    exact Option.some.inj (((h.numbered y i).mp hy.2).symm.trans hat)
  mem_live := fun x hx => (h.mem_live x).mpr (h.numbered.isSome_iff.mp hx)
  initial_mem := (h.mem_live _).mpr List.mem_cons_self
  initial_index := (h.numbered _ 0).mpr rfl
  isSome_of_isComposite := fun x hx => h.isSome_iff.mpr <|
    or_iff_not_imp_left.mpr fun hne => .inl ((h.mem_composites x).mpr ⟨hx, hne⟩)
  isSome_of_inner := fun x hx => h.isSome_iff.mpr (.inr (.inr (.inr ((h.mem_inner x).mpr hx))))
  blocks := by
    refine ⟨composites.length, (A.initial :: (composites ++ others)).length, ?_, ?_,
      fun x i hi => ⟨h.composite_iff hi, h.inner_iff hi⟩⟩
    · simp only [List.length_cons, List.length_append]
      omega
    · rw [h.liveCount_eq]
      simp only [List.length_cons, List.length_append]
      omega
  needsMoveCode := fun x hx hne hplain hinner => by
    rcases h.isSome_iff.mp hx with hx | hx | hx | hx
    · exact absurd hx hne
    · rw [((h.mem_composites x).mp hx).1] at hplain
      cases hplain
    · exact h.needsMoveCode x hx
    · exact absurd ((h.mem_inner x).mp hx) hinner

/-- What was numbered is in order once the states without an index are dropped, if all composites
and their members were live. -/
theorem Tabulates.ordered (h : A.Tabulates B first composites others inner)
    (hfirst : first ∈ A.live) (hinner : ∀ x, A.Inner first x → x ∈ A.live)
    (hcomposites : ∀ x, (A.state x).isComposite → x ∈ A.live) :
    Ordered { B with live := B.live.filter fun x => (B.state x).index.isSome } composites others
      inner := by
  have hrelabels := h.relabels
  have hblock : ∀ x, x ∈ composites ↔ (B.state x).isComposite ∧ x ≠ first := fun x => by
    rw [h.mem_composites, hrelabels.isComposite_eq]
    exact ⟨fun hx => ⟨hx.2.2, hx.2.1⟩, fun hx => ⟨hcomposites x hx.1, hx.2, hx.1⟩⟩
  have hlive : ∀ x, x ∈ B.live.filter (fun x => (B.state x).index.isSome) ↔
      x ∈ first :: (composites ++ (others ++ inner)) := fun x => by
    rw [OrderedSet.mem_filter, hrelabels.live_eq, h.numbered.isSome_iff, and_iff_right_iff_imp,
      mem_order_iff, h.mem_composites, h.mem_others, h.mem_inner]
    rintro (rfl | hx | hx | hx)
    · exact hfirst
    · exact hx.1
    · exact hx.1
    · exact hinner x hx
  have hinitial := h.initial_eq
  constructor
  · change B.Numbered (B.initial :: _)
    rw [hinitial]
    exact h.numbered
  · change ∀ x, _ ↔ x ∈ B.initial :: _
    rw [hinitial]
    exact hlive
  · change ∀ x, _ ↔ (B.state x).isComposite ∧ x ≠ B.initial
    rw [hinitial]
    exact hblock
  · intro x hx
    change B.needsMoveCode x
    rw [hrelabels.needsMoveCode_eq]
    exact ((h.mem_others x).mp hx).2.2.2.1
  · intro x
    rw [h.mem_inner]
    change A.Inner first x ↔ x ≠ B.initial ∧
      ∃ c ∈ B.live.filter (fun x => (B.state x).index.isSome), c ≠ B.initial ∧
        ∃ set, (B.state c).members = some set ∧ x ∈ set
    rw [hinitial]
    refine and_congr_right' (exists_congr fun c => ?_)
    rw [hlive, mem_order_iff, hrelabels.members_eq]
    constructor
    · rintro ⟨hc, hne, set, hset, hx⟩
      refine ⟨.inr (.inl ((h.mem_composites c).mpr ⟨hc, hne, ?_⟩)), hne, set, hset, hx⟩
      rw [State.isComposite, hset]
      rfl
    · rintro ⟨-, hne, set, hset, hx⟩
      refine ⟨hcomposites c ?_, hne, set, hset, hx⟩
      rw [State.isComposite, hset]
      rfl

end Dense

/-- **The indices of a closed automaton**, in whose closures there are states with moves only: such
a state is alone in its closure, so it is live as long as it is a member of a composite. -/
theorem dense_of_unnumbered (hA : A.Unnumbered)
    (hmoves : ∀ x y, A.Slips x y → (A.state y).hasMoves) :
    A.addComposites.assignIndices.Dense := by
  have hA' := hA.condensed
  have hkeeps := hA'.condenses.keeps
  obtain ⟨B, composites, others, inner, hB, heq⟩ := tabulates_of_unnumbered hA
  have hstays : ∀ x y, A.Slips x y → y ∈ A.addComposites.live := fun x y hy =>
    hA'.condenses.live y (hA.mem_live y (hA.slips_lt x y hy)) (.inr (hA.alone y (hmoves x y hy)))
  rw [heq]
  refine (hB.ordered ?_ ?_ fun c hc => ?_).dense
  · rcases canonical_cases (hA'.plain _ hA.initial_lt) (hA'.represented _ hA.initial_lt) with
      ⟨hself, hempty⟩ | honly | hlookup
    · -- the closure of the initial state is empty, so nothing else ever stands for it
      rw [hself]
      rw [hkeeps.epsilon_eq] at hempty
      refine mem_live_addComposites (composed_of_nil hA.composites_eq)
        (hA.mem_live _ hA.initial_lt) fun C hC => ?_
      rw [makeCanonical, canonical, hC.epsilon_eq, OrderedSet.size, hempty]
      simp
    · refine hstays A.initial _ ?_
      rw [Slips, ← hkeeps.epsilon_eq, ← OrderedSet.mem_toList, honly]
      exact List.mem_singleton_self _
    · exact hA'.housed.live _ _ (mem_of_lookup hlookup)
  · rintro x ⟨-, c, -, -, set, hset, hx⟩
    obtain ⟨y, rfl⟩ := hA'.catalogued.closure c set hset
    exact hstays y x hx
  · obtain ⟨set, hset⟩ := Option.isSome_iff_exists.mp hc
    exact hA'.housed.live set c (mem_of_lookup (hA'.catalogued.lookup c set hset))

/-- Numbering the states changes nothing about the composites. -/
theorem Tabulates.interned {first : Nat} {composites others inner : List Nat}
    (h : A.Tabulates B first composites others inner) (hA : A.Interned) : B.Interned where
  members_canonical := fun x => by
    rw [h.relabels.isComposite_eq, h.relabels.keeps.epsilon_eq, h.relabels.canonical_eq,
      h.relabels.members_eq]
    exact hA.members_canonical x
  canonical_eq_iff := fun x y => by
    simp only [h.relabels.isComposite_eq, h.relabels.keeps.epsilon_eq, h.relabels.canonical_eq]
    exact hA.canonical_eq_iff x y
  members_inj := fun c d set => by
    rw [h.relabels.members_eq, h.relabels.members_eq]
    exact hA.members_inj c d set

/-- **The composites of a closed automaton** are those that the states were replaced by. -/
theorem interned_of_unnumbered (hA : A.Unnumbered) : A.addComposites.assignIndices.Interned := by
  obtain ⟨B, composites, others, inner, hB, heq⟩ := tabulates_of_unnumbered hA
  have hinterned := hB.interned hA.condensed.interned
  rw [heq]
  exact ⟨hinterned.members_canonical, hinterned.canonical_eq_iff, hinterned.members_inj⟩

/-! ### The live states by index -/

/-- **The live states by index** are in the one order in which their indices are the numbers from 0
on, if there is such an order. -/
theorem liveByIndex_eq {l : List Nat} (hperm : l.Perm A.live.toList)
    (hindex : l.map (fun x => (A.state x).index) = (List.range l.length).map some) :
    A.liveByIndex = l := by
  have hinj : ∀ x ∈ l, ∀ y ∈ l, (A.state x).index = (A.state y).index → x = y := by
    have hnodup : (l.map fun x => (A.state x).index).Nodup := by
      rw [hindex]
      exact List.nodup_range.map (Option.some_injective Nat)
    exact fun x hx y hy heq => List.inj_on_of_nodup_map hnodup hx hy heq
  have hsorted : l.Pairwise fun x y =>
      (compare (A.state x).index (A.state y).index).isLE = true := by
    rw [← List.pairwise_map (f := fun x => (A.state x).index)
      (R := fun i j => (compare i j).isLE = true), hindex, List.pairwise_map]
    exact List.pairwise_lt_range.imp fun hlt => Nat.isLE_compare.mpr (Nat.le_of_lt hlt)
  refine List.Perm.eq_of_pairwise (fun x y hx hy hle hge => ?_) (List.pairwise_mergeSort
    (fun _ _ _ => Std.TransCmp.isLE_trans) (fun x y => ?_) _) hsorted
    ((List.mergeSort_perm _ _).trans hperm.symm)
  · refine hinj x (hperm.mem_iff.mpr (List.mem_mergeSort.mp hx)) y hy ?_
    exact Std.LawfulEqOrd.eq_of_compare (Std.OrientedCmp.isLE_antisymm hle hge)
  · have hswap : compare (A.state y).index (A.state x).index
        = (compare (A.state x).index (A.state y).index).swap := Std.OrientedCmp.eq_swap
    rw [hswap]
    cases compare (A.state x).index (A.state y).index <;> rfl

end Automaton

end GrammarAnalysis
