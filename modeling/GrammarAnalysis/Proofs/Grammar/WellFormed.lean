import GrammarAnalysis.Proofs.Grammar.Growth
import Mathlib.Data.List.Perm.Subperm

/-!
# Well-Formed Grammars

An operand exists before the node that it is an operand of, so a walk down the operands comes to
an end, and only non-terminals lead back to earlier nodes. A node that is in use knows one of its
users. Both hold of every grammar, since each step of the builder keeps them.

A walk that enters no non-terminal twice is given a budget of steps. `Grammar.Affords` is the
invariant under which this budget is never used up.

## Main definitions

* `Grammar.WellFormed`: the invariant of the nodes;
* `Grammar.Affords`: the invariant of the walks.

## Main results

* `Grammar.Developed.wellFormed`: every grammar is well formed;
* `Grammar.Affords.start`, `child`, `enter`: a walk keeps within its budget.
-/

namespace GrammarAnalysis

namespace Grammar

/-- Operands and roots exist, operands come before the nodes that they are operands of, and a
node that is in use belongs to one of its users. -/
structure WellFormed (g : Grammar) : Prop where
  child_lt : ∀ e, ∀ c ∈ g.children e, c < e
  root_lt : ∀ p, p < g.productions.size → g.root p < g.size
  parent_expansion : ∀ c e, g.parent c = .expansion e → c ∈ g.children e
  parent_production : ∀ c p, g.parent c = .production p → p < g.productions.size ∧ g.root p = c
  parent_lookahead : ∀ c e, g.parent c = .lookahead e → (g.carried e).isSome
  child_owned : ∀ e, ∀ c ∈ g.children e, g.parent c ≠ .none
  root_owned : ∀ p, p < g.productions.size → g.parent (g.root p) ≠ .none

/-- The empty grammar is well-formed. -/
theorem wellFormed_new (options : Options) : (Grammar.new options).WellFormed where
  child_lt _ _ hc := absurd hc List.not_mem_nil
  root_lt p hp := absurd hp (Nat.not_lt_zero p)
  parent_expansion _ _ h := nomatch h
  parent_production _ _ h := nomatch h
  parent_lookahead _ _ h := nomatch h
  child_owned _ _ hc := absurd hc List.not_mem_nil
  root_owned p hp := absurd hp (Nat.not_lt_zero p)

/-- The productions keep their roots with the skeleton. -/
theorem SameSkeleton.root {g g' : Grammar} (h : g.SameSkeleton g') (p : Nat) :
    g'.root p = g.root p := by
  have hp := h.productions p
  simp only [Grammar.root, Grammar.production]
  cases hg : g.productions[p]? with
  | none =>
      cases hg' : g'.productions[p]? with
      | none => rfl
      | some q' => simp [hg, hg'] at hp
  | some q =>
      cases hg' : g'.productions[p]? with
      | none => simp [hg, hg'] at hp
      | some q' =>
          simp only [hg, hg', Option.map_some, Option.some.injEq, Prod.mk.injEq] at hp
          exact hp.2

/-- The number of productions is kept with the skeleton. -/
theorem SameSkeleton.lt_productions {g g' : Grammar} (h : g.SameSkeleton g') (p : Nat) :
    p < g'.productions.size ↔ p < g.productions.size := by
  have hp := congrArg Option.isSome (h.productions p)
  rw [Option.isSome_map, Option.isSome_map, Bool.eq_iff_iff, Option.isSome_iff_ne_none,
    Option.isSome_iff_ne_none, Ne, Ne, Array.getElem?_eq_none_iff, Array.getElem?_eq_none_iff,
    Nat.not_le, Nat.not_le] at hp
  exact hp

/-- A grammar stays well-formed with its skeleton. -/
theorem WellFormed.sameSkeleton {g g' : Grammar} (hg : g.WellFormed) (h : g.SameSkeleton g') :
    g'.WellFormed where
  child_lt e c hc := by
    rw [children, h.shape] at hc
    exact hg.child_lt e c hc
  root_lt p hp := by
    rw [h.root, h.size]
    exact hg.root_lt p ((h.lt_productions p).mp hp)
  parent_expansion c e hc := by
    rw [h.parent] at hc
    rw [children, h.shape]
    exact hg.parent_expansion c e hc
  parent_production c p hc := by
    rw [h.parent] at hc
    rw [h.root, h.lt_productions]
    exact hg.parent_production c p hc
  parent_lookahead c e hc := by
    rw [h.parent] at hc
    rw [h.carried]
    exact hg.parent_lookahead c e hc
  child_owned e c hc := by
    rw [children, h.shape] at hc
    rw [h.parent]
    exact hg.child_owned e c hc
  root_owned p hp := by
    rw [h.root, h.parent]
    exact hg.root_owned p ((h.lt_productions p).mp hp)

/-- A position where there is no node looks like one that is empty. -/
theorem shape_of_size_le {g : Grammar} {e : Nat} (h : g.size ≤ e) : g.shape e = .empty .plain := by
  have : g.nodes[e]? = none := Array.getElem?_eq_none_iff.mpr h
  simp [shape, node, this]

/-- There are no operands beyond the nodes. -/
theorem children_of_size_le {g : Grammar} {e : Nat} (h : g.size ≤ e) : g.children e = [] := by
  rw [children, shape_of_size_le h, Shape.children]

/-- A node with operands is in the grammar. -/
theorem lt_size_of_mem_children {g : Grammar} {e c : Nat} (hc : c ∈ g.children e) :
    e < g.size := by
  by_contra he
  rw [children_of_size_le (Nat.le_of_not_lt he)] at hc
  exact List.not_mem_nil hc

/-- Only a node can carry a lookahead. -/
theorem lt_size_of_carried {g : Grammar} {e : Nat} (he : (g.carried e).isSome) : e < g.size := by
  by_contra hsize
  have : g.nodes[e]? = none := Array.getElem?_eq_none_iff.mpr (Nat.le_of_not_lt hsize)
  simp [carried, node, this] at he

/-- The operands of a node are in the grammar. -/
theorem WellFormed.child_lt_size {g : Grammar} (hg : g.WellFormed) {e c : Nat}
    (hc : c ∈ g.children e) : c < g.size :=
  Nat.lt_trans (hg.child_lt e c hc) (lt_size_of_mem_children hc)

/-- A new node leaves the grammar well-formed. -/
theorem WellFormed.addsNode {g g' : Grammar} {shape : Shape} (hg : g.WellFormed)
    (h : g.AddsNode shape g') : g'.WellFormed where
  child_lt e c hc := by
    by_cases he : e = g.size
    · subst he
      rw [children, h.shape_new] at hc
      exact h.operands c hc
    · rw [children, h.shape_of_ne he] at hc
      exact hg.child_lt e c hc
  root_lt p hp := by
    rw [h.productions] at hp
    rw [h.root_eq, h.size]
    exact Nat.lt_succ_of_lt (hg.root_lt p hp)
  parent_expansion c e hc := by
    rw [h.parent_eq] at hc
    split at hc
    · cases hc
    · split at hc
      · rename_i hoperand
        cases hc
        rw [children, h.shape_new]
        exact hoperand
      · have hold := hg.parent_expansion c e hc
        rw [children, h.shape_of_ne (Nat.ne_of_lt (lt_size_of_mem_children hold))]
        exact hold
  parent_production c p hc := by
    rw [h.parent_eq] at hc
    split at hc
    · cases hc
    · split at hc
      · cases hc
      · rw [h.root_eq, h.productions]
        exact hg.parent_production c p hc
  parent_lookahead c e hc := by
    rw [h.parent_eq] at hc
    split at hc
    · cases hc
    · split at hc
      · cases hc
      · have hold := hg.parent_lookahead c e hc
        rw [h.carried_of_ne (Nat.ne_of_lt (lt_size_of_carried hold))]
        exact hold
  child_owned e c hc := by
    rw [h.parent_eq]
    by_cases he : e = g.size
    · subst he
      rw [children, h.shape_new] at hc
      rw [if_neg (Nat.ne_of_lt (h.operands c hc)), if_pos hc]
      exact Parent.noConfusion
    · rw [children, h.shape_of_ne he] at hc
      rw [if_neg (Nat.ne_of_lt (hg.child_lt_size hc))]
      split
      · exact Parent.noConfusion
      · exact hg.child_owned e c hc
  root_owned p hp := by
    rw [h.productions] at hp
    rw [h.root_eq, h.parent_eq, if_neg (Nat.ne_of_lt (hg.root_lt p hp))]
    split
    · exact Parent.noConfusion
    · exact hg.root_owned p hp

/-- A node that belongs to some user belongs to some user when a lookahead is set. -/
theorem AddsLookahead.owned {g g' : Grammar} {e : Nat} {lookahead : Lookahead}
    (h : g.AddsLookahead e lookahead g') {x : Nat} (hx : g.parent x ≠ .none) :
    g'.parent x ≠ .none := by
  rw [h.parent]
  split
  · exact Parent.noConfusion
  · exact hx

/-- A new lookahead leaves the grammar well-formed. -/
theorem WellFormed.addsLookahead {g g' : Grammar} {carrier : Nat} {lookahead : Lookahead}
    (hg : g.WellFormed) (h : g.AddsLookahead carrier lookahead g') : g'.WellFormed where
  child_lt e c hc := by
    rw [children, h.shape] at hc
    exact hg.child_lt e c hc
  root_lt p hp := by
    rw [h.productions] at hp
    rw [h.root_eq, h.size]
    exact hg.root_lt p hp
  parent_expansion c e hc := by
    rw [h.parent] at hc
    rw [children, h.shape]
    split at hc
    · cases hc
    · exact hg.parent_expansion c e hc
  parent_production c p hc := by
    rw [h.parent] at hc
    rw [h.root_eq, h.productions]
    split at hc
    · cases hc
    · exact hg.parent_production c p hc
  parent_lookahead c e hc := by
    rw [h.parent] at hc
    rw [h.carried]
    split at hc
    · cases hc
      rw [if_pos rfl]
      rfl
    · -- a lookahead that is replaced leaves another one behind
      split
      · rfl
      · exact hg.parent_lookahead c e hc
  child_owned e c hc := by
    rw [children, h.shape] at hc
    exact h.owned (hg.child_owned e c hc)
  root_owned p hp := by
    rw [h.productions] at hp
    rw [h.root_eq]
    exact h.owned (hg.root_owned p hp)

/-- A node that belongs to some user belongs to some user when a production is added. -/
theorem AddsProduction.owned {g g' : Grammar} {production : Production}
    (h : g.AddsProduction production g') {x : Nat} (hx : g.parent x ≠ .none) :
    g'.parent x ≠ .none := by
  rw [h.parent_eq]
  split
  · exact Parent.noConfusion
  · exact hx

/-- A new production leaves the grammar well-formed. -/
theorem WellFormed.addsProduction {g g' : Grammar} {production : Production} (hg : g.WellFormed)
    (h : g.AddsProduction production g') : g'.WellFormed where
  child_lt e c hc := by
    rw [children, h.shape_eq] at hc
    exact hg.child_lt e c hc
  root_lt p hp := by
    rw [h.size]
    rcases h.lt_or_eq hp with hlt | rfl
    · rw [h.root_of_lt hlt]
      exact hg.root_lt p hlt
    · rw [h.root_new]
      exact h.root
  parent_expansion c e hc := by
    rw [h.parent_eq] at hc
    rw [children, h.shape_eq]
    split at hc
    · cases hc
    · exact hg.parent_expansion c e hc
  parent_production c p hc := by
    rw [h.parent_eq] at hc
    rw [h.productions, Array.size_push]
    split at hc
    · rename_i hroot
      cases hc
      exact ⟨Nat.lt_succ_self _, h.root_new.trans hroot.symm⟩
    · obtain ⟨hp, hroot⟩ := hg.parent_production c p hc
      exact ⟨Nat.lt_succ_of_lt hp, (h.root_of_lt hp).trans hroot⟩
  parent_lookahead c e hc := by
    rw [h.parent_eq] at hc
    rw [h.carried_eq]
    split at hc
    · cases hc
    · exact hg.parent_lookahead c e hc
  child_owned e c hc := by
    rw [children, h.shape_eq] at hc
    exact h.owned (hg.child_owned e c hc)
  root_owned p hp := by
    rcases h.lt_or_eq hp with hlt | rfl
    · rw [h.root_of_lt hlt]
      exact h.owned (hg.root_owned p hlt)
    · rw [h.root_new, h.parent_eq, if_pos rfl]
      exact Parent.noConfusion

/-- A step of the builder keeps a grammar well formed. -/
theorem WellFormed.grows {g g' : Grammar} (hg : g.WellFormed) (h : g.Grows g') :
    g'.WellFormed := by
  cases h with
  | skeleton h => exact hg.sameSkeleton h
  | node shape h => exact hg.addsNode h
  | lookahead e lookahead h => exact hg.addsLookahead h
  | production production h => exact hg.addsProduction h

/-- The analysis leaves a grammar well-formed. -/
theorem WellFormed.keeps {g g' : Grammar} (hg : g.WellFormed) (h : g.Keeps g') :
    g'.WellFormed := by
  have hw : WellFormed { g with nodes := g'.nodes, productions := g'.productions } :=
    hg.sameSkeleton (.of_nodes h.nodes h.productions rfl)
  exact ⟨hw.child_lt, hw.root_lt, hw.parent_expansion, hw.parent_production,
    hw.parent_lookahead, hw.child_owned, hw.root_owned⟩

/-- **Every grammar is well formed.** -/
theorem Developed.wellFormed {g : Grammar} (h : g.Developed) : g.WellFormed := by
  obtain ⟨options, h⟩ := h
  induction h with
  | refl => exact wellFormed_new options
  | tail _ hstep ih =>
      rcases hstep with hstep | hstep
      · exact ih.grows hstep.grows
      · exact ih.keeps hstep.keeps

/-! ### The budget of a walk -/

/-- The budget lasts for a walk that is at node `e`, inside of the non-terminals of a list: from
there on it enters only the other nodes, and goes down from each at most once. -/
structure Affords (g : Grammar) (budget : Nat) (inside : List Nat) (e : Nat) : Prop where
  node : e < g.size
  nodup : inside.Nodup
  bound : ∀ x ∈ inside, x < g.size
  steps : (g.size - inside.length) * (g.size + 1) + e < budget

/-- The budget of a grammar lasts for a walk from any of its nodes. -/
theorem Affords.start {g : Grammar} {e : Nat} (he : e < g.size) : g.Affords g.budget [] e := by
  refine ⟨he, List.nodup_nil, fun x hx => absurd hx List.not_mem_nil, ?_⟩
  have hsucc : (g.size + 1) * (g.size + 1) = g.size * (g.size + 1) + (g.size + 1) :=
    Nat.succ_mul g.size (g.size + 1)
  rw [budget, hsucc, List.length_nil, Nat.sub_zero]
  omega

/-- The budget of a grammar allows at least one step. -/
theorem budget_pos (g : Grammar) : ∃ budget, g.budget = budget + 1 :=
  ⟨(g.size + 1) * g.size + g.size, by rw [budget, Nat.mul_succ]; omega⟩

/-- A walk that still has to visit a node has a step left. -/
theorem Affords.budget_ne_zero {g : Grammar} {inside : List Nat} {e : Nat} :
    ¬ g.Affords 0 inside e :=
  fun h => Nat.not_lt_zero _ h.steps

/-- A walk that is afforded can go down to an operand. -/
theorem Affords.child {g : Grammar} (hg : g.WellFormed) {budget : Nat} {inside : List Nat}
    {e c : Nat} (h : g.Affords (budget + 1) inside e) (hc : c ∈ g.children e) :
    g.Affords budget inside c := by
  have hlt := hg.child_lt e c hc
  have hsteps := h.steps
  exact ⟨Nat.lt_trans hlt h.node, h.nodup, h.bound, by omega⟩

/-- There are fewer non-terminals around a node than nodes. -/
theorem Affords.length_lt {g : Grammar} {budget : Nat} {inside : List Nat} {e : Nat}
    (h : g.Affords budget inside e) (he : e ∉ inside) : inside.length < g.size := by
  have hnodup : (e :: inside).Nodup := List.nodup_cons.mpr ⟨he, h.nodup⟩
  have hsub : (e :: inside) ⊆ List.range g.size := fun x hx => by
    rw [List.mem_range]
    rcases List.mem_cons.mp hx with rfl | hx
    · exact h.node
    · exact h.bound x hx
  have hlen := (List.subperm_of_subset hnodup hsub).length_le
  rw [List.length_cons, List.length_range] at hlen
  exact hlen

/-- The production of a name is in the grammar. -/
theorem productionNamed_lt {g : Grammar} {name : String} {p : Nat}
    (hp : g.productionNamed name = some p) : p < g.productions.size := by
  rw [productionNamed, Option.map_eq_some_iff] at hp
  obtain ⟨i, hi, rfl⟩ := hp
  obtain ⟨hlt, -⟩ := List.findIdx?_eq_some_iff_getElem.mp hi
  rw [List.length_reverse, Array.length_toList] at hlt
  omega

/-- A walk that is afforded can enter a non-terminal that it is not inside of. -/
theorem Affords.enter {g : Grammar} (hg : g.WellFormed) {budget : Nat} {inside : List Nat}
    {e p : Nat} {name : String} (h : g.Affords (budget + 1) inside e)
    (hp : g.productionNamed name = some p) (he : e ∉ inside) :
    g.Affords budget (e :: inside) (g.root p) := by
  have hroot := hg.root_lt p (productionNamed_lt hp)
  have hlen := h.length_lt he
  have hsteps := h.steps
  refine ⟨hroot, List.nodup_cons.mpr ⟨he, h.nodup⟩, fun x hx => ?_, ?_⟩
  · rcases List.mem_cons.mp hx with rfl | hx
    · exact h.node
    · exact h.bound x hx
  · obtain ⟨k, hk⟩ : ∃ k, g.size - inside.length = k + 1 := ⟨g.size - inside.length - 1, by omega⟩
    have hpred : g.size - (e :: inside).length = k := by
      rw [List.length_cons]
      omega
    rw [hk, Nat.succ_mul] at hsteps
    rw [hpred]
    omega

end Grammar

end GrammarAnalysis
