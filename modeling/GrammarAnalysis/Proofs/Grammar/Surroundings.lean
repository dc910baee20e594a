import GrammarAnalysis.Grammar.Sets
import GrammarAnalysis.Proofs.Grammar.Fringe
import Mathlib.Data.List.Nodup

/-!
# What Comes After a Node

In a grammar that is shaped like a tree, a node knows the one place where it is used, so what
comes after it in its production can be found by going up. The walks that do so are on budgets;
here they are freed of these, and each is described by what the parent of a node is.

## Main definitions

* `Grammar.TreeShaped`, `Grammar.LookaheadsApart`: each node has one place, as an operand, as the
  root of a production or in a lookahead;
* `Grammar.NoLookaheads`: there are no places in lookaheads;
* `Grammar.after`: the nodes that can come directly after a node.

## Main results

* `Grammar.parentNode_iff`: the parent of a node is the node that has it as an operand;
* `Grammar.following_operand`, `Grammar.after_operand`, `Grammar.mem_after_unit`: what comes
  after an operand, in terms of what comes after its parent.
-/

namespace GrammarAnalysis

namespace Grammar

/-- No node is used in two places, as an operand or as the root of a production. -/
def TreeShaped (g : Grammar) : Prop :=
  ((List.range g.size).flatMap g.children
    ++ (List.range g.productions.size).map g.root).Nodup

/-- No operand has a place in a lookahead too. A node that was put into a lookahead last has it as
its parent, also if the lookahead was replaced by another one since. -/
def LookaheadsApart (g : Grammar) : Prop :=
  ∀ c e, g.parent c = .lookahead e → ∀ a, c ∉ g.children a

/-- No sequence carries a lookahead. -/
def NoLookaheads (g : Grammar) : Prop := ∀ e, g.carried e = none

variable {g : Grammar}

/-! ### Parents -/

/-- No operand is there twice. -/
theorem TreeShaped.nodup_children (ht : g.TreeShaped) (a : Nat) : (g.children a).Nodup := by
  by_cases ha : a < g.size
  · have hoperands := (List.nodup_append.mp ht).1
    exact (List.nodup_flatMap.mp hoperands).1 a (List.mem_range.mpr ha)
  · rw [children_of_size_le (Nat.le_of_not_lt ha)]
    exact List.nodup_nil

/-- The operands of different nodes are different. -/
theorem TreeShaped.not_mem_of_lt (ht : g.TreeShaped) {a b c : Nat} (hlt : a < b)
    (ha : c ∈ g.children a) : c ∉ g.children b := by
  intro hb
  have hpair := (List.nodup_flatMap.mp (List.nodup_append.mp ht).1).2
  have hsize := lt_size_of_mem_children hb
  have hdisjoint := List.pairwise_iff_getElem.mp hpair a b
    (by rw [List.length_range]; exact Nat.lt_trans hlt hsize)
    (by rw [List.length_range]; exact hsize) hlt
  rw [List.getElem_range, List.getElem_range] at hdisjoint
  exact hdisjoint ha hb

/-- A node is an operand in one place only. -/
theorem TreeShaped.parent_unique (ht : g.TreeShaped) {a b c : Nat} (ha : c ∈ g.children a)
    (hb : c ∈ g.children b) : a = b := by
  rcases Nat.lt_trichotomy a b with hlt | heq | hgt
  · exact absurd hb (ht.not_mem_of_lt hlt ha)
  · exact heq
  · exact absurd ha (ht.not_mem_of_lt hgt hb)

/-- The root of a production is no operand. -/
theorem TreeShaped.root_not_mem (ht : g.TreeShaped) {p : Nat} (hp : p < g.productions.size)
    (a : Nat) : g.root p ∉ g.children a := by
  intro ha
  have hoperand : g.root p ∈ (List.range g.size).flatMap g.children :=
    List.mem_flatMap.mpr ⟨a, List.mem_range.mpr (lt_size_of_mem_children ha), ha⟩
  have hroot : g.root p ∈ (List.range g.productions.size).map g.root :=
    List.mem_map_of_mem (List.mem_range.mpr hp)
  exact (List.nodup_append.mp ht).2.2 _ hoperand _ hroot rfl

/-- Without lookaheads, no node has a place in one. -/
theorem NoLookaheads.apart (hl : g.NoLookaheads) (hg : g.WellFormed) : g.LookaheadsApart := by
  intro c e hparent
  have he := hg.parent_lookahead c e hparent
  rw [hl e] at he
  cases he

/-- A node is an operand of its parent. -/
theorem mem_children_of_parentNode (hg : g.WellFormed) {a c : Nat}
    (h : g.parentNode c = some a) : c ∈ g.children a := by
  rw [parentNode] at h
  cases hparent : g.parent c with
  | expansion id =>
      rw [hparent] at h
      cases h
      exact hg.parent_expansion c a hparent
  | none | production | lookahead =>
      rw [hparent] at h
      cases h

/-- **The parent of a node is the node that has it as an operand.** -/
theorem parentNode_iff (hg : g.WellFormed) (ht : g.TreeShaped) (hl : g.LookaheadsApart)
    {a c : Nat} :
    g.parentNode c = some a ↔ c ∈ g.children a := by
  constructor
  · exact mem_children_of_parentNode hg
  · intro hc
    rw [parentNode]
    cases hparent : g.parent c with
    | none => exact absurd hparent (hg.child_owned a c hc)
    | production p =>
        obtain ⟨hp, hroot⟩ := hg.parent_production c p hparent
        rw [← hroot] at hc
        exact absurd hc (ht.root_not_mem hp a)
    | expansion x =>
        rw [ht.parent_unique hc (hg.parent_expansion c x hparent)]
        rfl
    | lookahead x => exact absurd hc (hl c x hparent a)

/-- A root has no parent node. -/
theorem parentNode_root (hg : g.WellFormed) (ht : g.TreeShaped) {p : Nat}
    (hp : p < g.productions.size) : g.parentNode (g.root p) = none := by
  cases h : g.parentNode (g.root p) with
  | none => rfl
  | some a => exact absurd (mem_children_of_parentNode hg h) (ht.root_not_mem hp a)

/-! ### The units after a unit -/

/-- The units after one that comes only once. -/
theorem unitsAfter_eq {a c : Nat} {before post : List Nat}
    (hnodup : (g.children a).Nodup) (h : g.children a = before ++ c :: post) :
    g.unitsAfter a c = post := by
  rw [h] at hnodup
  have hbefore : ∀ x ∈ before, (x != c) = true := fun x hx => by
    rw [bne_iff_ne]
    rintro rfl
    exact (List.nodup_append.mp hnodup).2.2 x hx x List.mem_cons_self rfl
  rw [unitsAfter, h, List.dropWhile_append_of_pos hbefore]
  simp

/-- A node has no more operands than there are nodes. -/
theorem length_children_le (hg : g.WellFormed) (ht : g.TreeShaped) (a : Nat) :
    (g.children a).length ≤ g.size := by
  have hsub : g.children a ⊆ List.range g.size := fun x hx =>
    List.mem_range.mpr (hg.child_lt_size hx)
  have hle := (List.subperm_of_subset (ht.nodup_children a) hsub).length_le
  rw [List.length_range] at hle
  exact hle

/-- No more units come after an operand than there are nodes. -/
theorem length_unitsAfter_le (hg : g.WellFormed) (ht : g.TreeShaped) (a c : Nat) :
    (g.unitsAfter a c).length ≤ g.size := by
  refine Nat.le_trans ?_ (length_children_le hg ht a)
  rw [unitsAfter, List.length_drop]
  exact Nat.le_trans (Nat.sub_le _ _) (List.dropWhile_suffix _).length_le

/-! ### The node that follows -/

/-- Going up comes to an end, so what follows does not depend on the budget. -/
theorem followingWithin_eq (hg : g.WellFormed) {budget budget' x : Nat}
    (h : g.size ≤ x + budget) (h' : g.size ≤ x + budget') :
    g.followingWithin (budget + 1) x = g.followingWithin (budget' + 1) x := by
  induction budget generalizing budget' x with
  | zero =>
      cases hparent : g.parentNode x with
      | none => simp only [followingWithin, hparent]
      | some a =>
          have := hg.child_lt_size (mem_children_of_parentNode hg hparent)
          omega
  | succ budget ih =>
      cases hparent : g.parentNode x with
      | none => simp only [followingWithin, hparent]
      | some a =>
          have hlt := hg.child_lt a x (mem_children_of_parentNode hg hparent)
          have hsize := lt_size_of_mem_children (mem_children_of_parentNode hg hparent)
          obtain ⟨b, rfl⟩ : ∃ b, budget' = b + 1 := ⟨budget' - 1, by omega⟩
          rw [followingWithin, followingWithin, hparent]
          simp only
          have heq : g.followingWithin (budget + 1) a = g.followingWithin (b + 1) a :=
            ih (by omega) (by omega)
          rw [heq]

/-- Nothing follows a node without a parent. -/
theorem following_none {x : Nat} (h : g.parentNode x = none) : g.following x = none := by
  rw [following, depth, followingWithin, h]

/-- What follows an operand is the next unit or, if there is none, what follows its parent. -/
theorem following_operand (hg : g.WellFormed) {a c : Nat} (h : g.parentNode c = some a) :
    g.following c =
      match if g.isSequence a then (g.unitsAfter a c).head? else none with
      | some next => some next
      | none => g.following a := by
  have hlt := hg.child_lt a c (mem_children_of_parentNode hg h)
  have hsize := lt_size_of_mem_children (mem_children_of_parentNode hg h)
  obtain ⟨b, hb⟩ : ∃ b, g.size = b + 1 := ⟨g.size - 1, by omega⟩
  have heq : g.followingWithin g.size a = g.followingWithin (g.size + 1) a := by
    rw [hb]
    exact followingWithin_eq hg (by omega) (by omega)
  rw [following, depth, followingWithin, h]
  simp only [following, depth]
  cases if g.isSequence a then (g.unitsAfter a c).head? else none with
  | none => exact heq
  | some next => rfl

/-! ### The nodes that can come after a node -/

/-- The nodes that can come directly after a node, as far as its production goes, and whether
its end can be reached. -/
def after (g : Grammar) (x : Nat) : List Nat × Bool := g.followersWithin g.budget x

/-- How far a node is from the end of its production: the place of its parent counts most, then
the number of units after it. -/
def distance (g : Grammar) (x : Nat) : Nat :=
  match g.parentNode x with
  | none => 0
  | some a => (g.size - a) * (g.size + 1) + (g.unitsAfter a x).length

section

variable (hg : g.WellFormed) (ht : g.TreeShaped)

include hg ht

/-- The budget lasts for the way up from any node. -/
theorem distance_lt_budget (x : Nat) : g.distance x < g.budget := by
  have hsucc : (g.size + 1) * (g.size + 1) = g.size * (g.size + 1) + (g.size + 1) :=
    Nat.succ_mul g.size (g.size + 1)
  rw [distance, budget, hsucc]
  split
  · omega
  · rename_i a _
    have hlen := length_unitsAfter_le hg ht a x
    have hmul := Nat.mul_le_mul_right (g.size + 1) (Nat.sub_le g.size a)
    omega

/-- A parent is no farther from the end. -/
theorem distance_parent_le {a c : Nat} (h : g.parentNode c = some a) :
    g.distance a ≤ g.distance c := by
  have hsize := lt_size_of_mem_children (mem_children_of_parentNode hg h)
  simp only [distance, h]
  split
  · exact Nat.zero_le _
  · rename_i b hb
    have hlt := hg.child_lt b a (mem_children_of_parentNode hg hb)
    have hlen := length_unitsAfter_le hg ht b a
    obtain ⟨k, hk⟩ : ∃ k, g.size - a = (g.size - b) + 1 + k := ⟨b - a - 1, by
      have := lt_size_of_mem_children (mem_children_of_parentNode hg hb)
      omega⟩
    have hmul : (g.size - b + 1) * (g.size + 1) ≤ (g.size - a) * (g.size + 1) :=
      Nat.mul_le_mul_right _ (by omega)
    rw [Nat.succ_mul] at hmul
    omega

variable (hl : g.LookaheadsApart)

include hl

/-- What follows a node is nearer to the end. -/
theorem distance_following {x n : Nat} (h : g.following x = some n) :
    g.distance n < g.distance x := by
  induction hk : g.size - x using Nat.strongRecOn generalizing x with
  | ind k ih =>
      cases hparent : g.parentNode x with
      | none =>
          rw [following_none hparent] at h
          cases h
      | some a =>
          have hx := mem_children_of_parentNode hg hparent
          rw [following_operand hg hparent] at h
          cases hnext : if g.isSequence a then (g.unitsAfter a x).head? else none with
          | some next =>
              rw [hnext] at h
              cases h
              split at hnext
              · obtain ⟨before, post, hsplit⟩ := List.append_of_mem hx
                have hpost := unitsAfter_eq (ht.nodup_children a) hsplit
                rw [hpost] at hnext
                obtain ⟨rest, rfl⟩ := List.head?_eq_some_iff.mp hnext
                have hsplit' : g.children a = (before ++ [x]) ++ n :: rest := by
                  rw [hsplit, List.append_assoc]
                  rfl
                have hn : g.parentNode n = some a := (parentNode_iff hg ht hl).mpr (by
                  rw [hsplit']
                  exact List.mem_append_right _ List.mem_cons_self)
                have hrest := unitsAfter_eq (ht.nodup_children a) hsplit'
                simp only [distance, hn, hparent, hpost, hrest, List.length_cons]
                omega
              · cases hnext
          | none =>
              rw [hnext] at h
              have hlt := hg.child_lt a x hx
              have hsize := lt_size_of_mem_children hx
              have hstep := ih (g.size - a) (by omega) h rfl
              exact Nat.lt_of_lt_of_le hstep (distance_parent_le hg ht hparent)

/-- The budget of the walk over the followers is never used up. -/
theorem followersWithin_eq {budget budget' x : Nat} (h : g.distance x < budget)
    (h' : g.distance x < budget') :
    g.followersWithin budget x = g.followersWithin budget' x := by
  induction budget generalizing budget' x with
  | zero => exact absurd h (Nat.not_lt_zero _)
  | succ budget ih =>
      obtain ⟨b, rfl⟩ : ∃ b, budget' = b + 1 := ⟨budget' - 1, by omega⟩
      rw [followersWithin, followersWithin]
      cases hnext : g.following x with
      | none => rfl
      | some n =>
          have hlt := distance_following hg ht hl hnext
          simp only
          have heq : g.followersWithin budget n = g.followersWithin b n :=
            ih (by omega) (by omega)
          rw [heq]

/-- What comes after a node is found from the node that follows it. -/
theorem after_eq (x : Nat) :
    g.after x = match g.following x with
      | none => ([], true)
      | some n =>
        if g.possiblyEmpty n then (n :: (g.after n).1, (g.after n).2) else ([n], false) := by
  obtain ⟨budget, hb⟩ := g.budget_pos
  rw [after, hb, followersWithin]
  cases hnext : g.following x with
  | none => rfl
  | some n =>
      have hlt := distance_following hg ht hl hnext
      have hx := distance_lt_budget hg ht x
      have heq : g.followersWithin budget n = g.followersWithin g.budget n :=
        followersWithin_eq hg ht hl (by omega) (by omega)
      simp only
      rw [after, heq]

/-- Nothing comes after a root in its production, and its end is found. -/
theorem after_root {p : Nat} (hp : p < g.productions.size) : g.after (g.root p) = ([], true) := by
  rw [after_eq hg ht hl, following_none (parentNode_root hg ht hp)]

/-- If the same node follows two nodes, the same comes after them. -/
theorem after_congr {x y : Nat} (h : g.following x = g.following y) : g.after x = g.after y := by
  rw [after_eq hg ht hl x, after_eq hg ht hl y, h]

/-- What comes after an operand that is no unit of a sequence comes after its parent. -/
theorem after_operand {a c : Nat} (hc : c ∈ g.children a) (ha : g.isSequence a = false) :
    g.after c = g.after a := by
  refine after_congr hg ht hl ?_
  rw [following_operand hg ((parentNode_iff hg ht hl).mpr hc), ha]
  rfl

/-- **What comes after a unit of a sequence**: the units up to the first one that cannot be empty
and, if there is no such unit, what comes after the sequence. -/
theorem after_unit {a c : Nat} {before post : List Nat}
    (ha : g.shape a = .sequence (before ++ c :: post)) :
    g.after c = (g.leadingUnits post
        ++ (if post.all g.possiblyEmpty then (g.after a).1 else []),
      post.all g.possiblyEmpty && (g.after a).2) := by
  have hchildren : g.children a = before ++ c :: post := by
    rw [children, ha, Shape.children]
  have hc : g.parentNode c = some a := (parentNode_iff hg ht hl).mpr (by
    rw [hchildren]
    exact List.mem_append_right _ List.mem_cons_self)
  have hseq : g.isSequence a = true := by rw [isSequence, ha, Shape.isSequence]
  have hpost := unitsAfter_eq (ht.nodup_children a) hchildren
  have hfollowing := following_operand hg hc
  rw [hseq, if_pos rfl, hpost] at hfollowing
  induction post generalizing before c with
  | nil =>
      rw [after_congr hg ht hl hfollowing]
      simp [leadingUnits]
  | cons u rest ih =>
      have ha' : g.shape a = .sequence ((before ++ [c]) ++ u :: rest) := by
        rw [ha, List.append_assoc]
        rfl
      have hchildren' : g.children a = (before ++ [c]) ++ u :: rest := by
        rw [children, ha', Shape.children]
      have hu : g.parentNode u = some a := (parentNode_iff hg ht hl).mpr (by
        rw [hchildren']
        exact List.mem_append_right _ List.mem_cons_self)
      have hrest := unitsAfter_eq (ht.nodup_children a) hchildren'
      have hnext := following_operand hg hu
      rw [hseq, if_pos rfl, hrest] at hnext
      rw [after_eq hg ht hl c, hfollowing]
      simp only [List.head?_cons]
      rw [ih ha' hchildren' hu hrest hnext, leadingUnits, List.all_cons]
      by_cases hempty : g.possiblyEmpty u = true
      · simp [hempty]
      · simp [hempty]

end

end Grammar

end GrammarAnalysis
