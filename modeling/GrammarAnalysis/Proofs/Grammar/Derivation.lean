import GrammarAnalysis.Proofs.Grammar.WellFormed
import Mathlib.Data.Set.Defs

/-!
# Derivations

A grammar is read here as a context-free grammar over its nodes: each node is replaced by one of
a few lists of nodes (`Grammar.Expands`), and a terminal is a token. What a list of nodes derives
in this way is `Grammar.Derives`, from left to right.

A walk through the nodes does not go through a non-terminal again that it is inside of. So both
relations have a list of *barred* non-terminals, which derive nothing. That such a walk misses
nothing of interest is `Grammar.Derives.cut`: if a derivation needs a non-terminal, then the last
time that it enters it, what is derived is no longer than the whole and does without it.

## Main definitions

* `Grammar.Expands`, `Grammar.Derives`: the steps, and what they lead to;
* `Grammar.language`: the token strings of a node.

## Main results

* `Grammar.derives_append_iff`: the parts of a list derive the parts of a string;
* `Grammar.derives_node_iff`: the token strings of a node are those of its expansions;
* `Grammar.Derives.cut`: how a non-terminal is barred.
-/

namespace GrammarAnalysis

namespace Grammar

/-- A node can be replaced by the nodes of a list. A non-terminal is replaced by the root of its
production, unless it is barred or undefined. -/
inductive Expands (g : Grammar) (barred : List Nat) : Nat → List Nat → Prop
  | sequence {e : Nat} {units : List Nat} :
      g.shape e = .sequence units → Expands g barred e units
  | choice {e a : Nat} {alternatives : List Nat} :
      g.shape e = .choice alternatives → a ∈ alternatives → Expands g barred e [a]
  | stop {e body : Nat} : g.shape e = .zeroOrMore body → Expands g barred e []
  | again {e body : Nat} : g.shape e = .zeroOrMore body → Expands g barred e [body, e]
  | once {e body : Nat} : g.shape e = .oneOrMore body → Expands g barred e [body]
  | more {e body : Nat} : g.shape e = .oneOrMore body → Expands g barred e [body, e]
  | skip {e body : Nat} : g.shape e = .zeroOrOne body → Expands g barred e []
  | take {e body : Nat} : g.shape e = .zeroOrOne body → Expands g barred e [body]
  | parentheses {e body : Nat} : g.shape e = .parentheses body → Expands g barred e [body]
  | nonTerminal {e p : Nat} {name : String} :
      g.shape e = .nonTerminal name → g.productionNamed name = some p → e ∉ barred →
        Expands g barred e [g.root p]
  | empty {e : Nat} {kind : EmptyShape} : g.shape e = .empty kind → Expands g barred e []

/-- The nodes of a list derive a token string; each token is written as the pattern of its
terminal. -/
inductive Derives (g : Grammar) (barred : List Nat) : List Nat → List Nat → Prop
  | nil : Derives g barred [] []
  | terminal {e pattern : Nat} {rest w : List Nat} :
      g.shape e = .terminal pattern → Derives g barred rest w →
        Derives g barred (e :: rest) (pattern :: w)
  | expand {e : Nat} {form rest w : List Nat} :
      g.Expands barred e form → Derives g barred (form ++ rest) w →
        Derives g barred (e :: rest) w

/-- The token strings that a node derives. -/
def language (g : Grammar) (e : Nat) : Set (List Nat) := {w | g.Derives [] [e] w}

variable {g : Grammar} {barred : List Nat}

/-- The lists that a node can be replaced by, by its shape. -/
theorem expands_iff {e : Nat} {form : List Nat} :
    g.Expands barred e form ↔ match g.shape e with
      | .sequence units => form = units
      | .choice alternatives => ∃ a ∈ alternatives, form = [a]
      | .zeroOrMore body => form = [] ∨ form = [body, e]
      | .oneOrMore body => form = [body] ∨ form = [body, e]
      | .zeroOrOne body => form = [] ∨ form = [body]
      | .parentheses body => form = [body]
      | .nonTerminal name =>
        ∃ p, g.productionNamed name = some p ∧ e ∉ barred ∧ form = [g.root p]
      | .terminal _ => False
      | .empty _ => form = [] := by
  constructor
  · intro h
    cases h <;> simp_all
  · intro h
    split at h <;> rename_i hshape
    · exact h ▸ .sequence hshape
    · obtain ⟨a, ha, rfl⟩ := h
      exact .choice hshape ha
    · obtain rfl | rfl := h
      · exact .stop hshape
      · exact .again hshape
    · obtain rfl | rfl := h
      · exact .once hshape
      · exact .more hshape
    · obtain rfl | rfl := h
      · exact .skip hshape
      · exact .take hshape
    · exact h ▸ .parentheses hshape
    · obtain ⟨p, hp, he, rfl⟩ := h
      exact .nonTerminal hshape hp he
    · exact h.elim
    · exact h ▸ .empty hshape

/-- The strings of a node are those that it derives. -/
@[simp] theorem mem_language {e : Nat} {w : List Nat} :
    w ∈ g.language e ↔ g.Derives [] [e] w :=
  Iff.rfl

/-! ### Lists of nodes -/

/-- The empty list of nodes derives the empty string only. -/
@[simp] theorem derives_nil {w : List Nat} : g.Derives barred [] w ↔ w = [] := by
  constructor
  · intro h
    cases h
    rfl
  · rintro rfl
    exact .nil

/-- What two lists derive, one after the other, they derive together. -/
theorem Derives.append {es fs v w : List Nat} (h : g.Derives barred es v)
    (h' : g.Derives barred fs w) : g.Derives barred (es ++ fs) (v ++ w) := by
  induction h with
  | nil => exact h'
  | terminal hshape _ ih => exact .terminal hshape ih
  | expand hform _ ih =>
      rw [List.append_assoc] at ih
      exact .expand hform ih

/-- What two lists derive together, they derive one after the other. -/
theorem Derives.split {es fs w : List Nat} (h : g.Derives barred (es ++ fs) w) :
    ∃ u v, w = u ++ v ∧ g.Derives barred es u ∧ g.Derives barred fs v := by
  generalize hl : es ++ fs = l at h
  induction h generalizing es with
  | nil =>
      obtain ⟨rfl, rfl⟩ := List.append_eq_nil_iff.mp hl
      exact ⟨[], [], rfl, .nil, .nil⟩
  | @terminal e pattern rest w hshape hrest ih =>
      cases es with
      | nil =>
          rw [List.nil_append] at hl
          rw [hl]
          exact ⟨[], _, rfl, .nil, .terminal hshape hrest⟩
      | cons a es =>
          rw [List.cons_append] at hl
          obtain ⟨rfl, htail⟩ := List.cons.inj hl
          obtain ⟨u, v, rfl, hu, hv⟩ := ih htail
          exact ⟨pattern :: u, v, rfl, .terminal hshape hu, hv⟩
  | @expand e form rest w hform hrest ih =>
      cases es with
      | nil =>
          rw [List.nil_append] at hl
          rw [hl]
          exact ⟨[], w, rfl, .nil, .expand hform hrest⟩
      | cons a es =>
          rw [List.cons_append] at hl
          obtain ⟨rfl, htail⟩ := List.cons.inj hl
          have hsplit : (form ++ es) ++ fs = form ++ rest := by
            rw [← htail, List.append_assoc]
          obtain ⟨u, v, rfl, hu, hv⟩ := ih hsplit
          exact ⟨u, v, rfl, .expand hform hu, hv⟩

/-- **The parts of a list derive the parts of a string.** -/
theorem derives_append_iff {es fs w : List Nat} :
    g.Derives barred (es ++ fs) w ↔
      ∃ u v, w = u ++ v ∧ g.Derives barred es u ∧ g.Derives barred fs v := by
  constructor
  · exact Derives.split
  · rintro ⟨u, v, rfl, hu, hv⟩
    exact hu.append hv

/-- The same for the first node of a list and the rest. -/
theorem derives_cons_iff {e : Nat} {rest w : List Nat} :
    g.Derives barred (e :: rest) w ↔
      ∃ u v, w = u ++ v ∧ g.Derives barred [e] u ∧ g.Derives barred rest v :=
  @derives_append_iff g barred [e] rest w

/-- A list derives the empty string if each of its nodes does. -/
theorem derives_empty_iff {es : List Nat} :
    g.Derives barred es [] ↔ ∀ e ∈ es, g.Derives barred [e] [] := by
  induction es with
  | nil => simp
  | cons e es ih =>
      rw [derives_cons_iff, List.forall_mem_cons, ← ih]
      constructor
      · rintro ⟨u, v, huv, hu, hv⟩
        obtain ⟨rfl, rfl⟩ := List.append_eq_nil_iff.mp huv.symm
        exact ⟨hu, hv⟩
      · rintro ⟨he, hes⟩
        exact ⟨[], [], rfl, he, hes⟩

/-- What an expansion derives, the node derives. -/
theorem Expands.derives {e : Nat} {form w : List Nat} (hform : g.Expands barred e form)
    (h : g.Derives barred form w) : g.Derives barred [e] w := by
  refine .expand hform ?_
  rw [List.append_nil]
  exact h

/-- A node derives a token of its own, or what one of its expansions derives. -/
theorem derives_node_iff {e : Nat} {w : List Nat} :
    g.Derives barred [e] w ↔
      (∃ pattern, g.shape e = .terminal pattern ∧ w = [pattern]) ∨
        ∃ form, g.Expands barred e form ∧ g.Derives barred form w := by
  constructor
  · intro h
    cases h with
    | terminal hshape hrest =>
        rw [derives_nil] at hrest
        exact .inl ⟨_, hshape, by rw [hrest]⟩
    | expand hform hrest =>
        rw [List.append_nil] at hrest
        exact .inr ⟨_, hform, hrest⟩
  · rintro (⟨pattern, hshape, rfl⟩ | ⟨form, hform, h⟩)
    · exact .terminal hshape .nil
    · exact hform.derives h

/-- A node that is no terminal derives what its expansions derive. -/
theorem derives_form_iff {e : Nat} {w : List Nat}
    (hshape : ∀ pattern, g.shape e ≠ .terminal pattern) :
    g.Derives barred [e] w ↔ ∃ form, g.Expands barred e form ∧ g.Derives barred form w := by
  rw [derives_node_iff]
  simp [hshape]

/-! ### Barred non-terminals -/

/-- A node still expands when fewer nodes are barred. -/
theorem Expands.weaken {barred' : List Nat} (hb : ∀ x ∈ barred', x ∈ barred) {e : Nat}
    {form : List Nat} (h : g.Expands barred e form) : g.Expands barred' e form := by
  cases h with
  | sequence hshape => exact .sequence hshape
  | choice hshape ha => exact .choice hshape ha
  | stop hshape => exact .stop hshape
  | again hshape => exact .again hshape
  | once hshape => exact .once hshape
  | more hshape => exact .more hshape
  | skip hshape => exact .skip hshape
  | take hshape => exact .take hshape
  | parentheses hshape => exact .parentheses hshape
  | nonTerminal hshape hp he => exact .nonTerminal hshape hp fun h => he (hb _ h)
  | empty hshape => exact .empty hshape

/-- What is derived without some non-terminals is derived with them. -/
theorem Derives.weaken {barred' : List Nat} (hb : ∀ x ∈ barred', x ∈ barred)
    {es w : List Nat} (h : g.Derives barred es w) : g.Derives barred' es w := by
  induction h with
  | nil => exact .nil
  | terminal hshape _ ih => exact .terminal hshape ih
  | expand hform _ ih => exact .expand (hform.weaken hb) ih

/-- A further non-terminal is barred from an expansion, unless it is the one that is expanded. -/
theorem Expands.bar {e x : Nat} {form : List Nat} (h : g.Expands barred e form) :
    g.Expands (x :: barred) e form ∨ (e = x ∧ ∃ name p, g.shape x = .nonTerminal name ∧
      g.productionNamed name = some p ∧ form = [g.root p]) := by
  cases h with
  | sequence hshape => exact .inl (.sequence hshape)
  | choice hshape ha => exact .inl (.choice hshape ha)
  | stop hshape => exact .inl (.stop hshape)
  | again hshape => exact .inl (.again hshape)
  | once hshape => exact .inl (.once hshape)
  | more hshape => exact .inl (.more hshape)
  | skip hshape => exact .inl (.skip hshape)
  | take hshape => exact .inl (.take hshape)
  | parentheses hshape => exact .inl (.parentheses hshape)
  | empty hshape => exact .inl (.empty hshape)
  | @nonTerminal p name hshape hp he =>
      by_cases hx : e = x
      · subst hx
        exact .inr ⟨rfl, name, p, hshape, hp, rfl⟩
      · refine .inl (.nonTerminal hshape hp fun h => ?_)
        rcases List.mem_cons.mp h with h | h
        · exact hx h
        · exact he h

/-- **How a non-terminal is barred.** A derivation that needs it can be cut down to one of its
production, which does without it and is no longer. -/
theorem Derives.cut {x : Nat} {es w : List Nat} (h : g.Derives barred es w) :
    g.Derives (x :: barred) es w ∨ ∃ name p v, g.shape x = .nonTerminal name ∧
      g.productionNamed name = some p ∧ v.length ≤ w.length ∧
      g.Derives (x :: barred) [g.root p] v := by
  induction h with
  | nil => exact .inl .nil
  | terminal hshape _ ih =>
      rcases ih with ih | ⟨name, p, v, hx, hp, hv, ih⟩
      · exact .inl (.terminal hshape ih)
      · exact .inr ⟨name, p, v, hx, hp, Nat.le_succ_of_le hv, ih⟩
  | expand hform _ ih =>
      rcases ih with ih | ih
      · rcases hform.bar (x := x) with hform | ⟨rfl, name, p, hx, hp, rfl⟩
        · exact .inl (.expand hform ih)
        · obtain ⟨u, v, rfl, hu, -⟩ := ih.split
          refine .inr ⟨name, p, u, hx, hp, ?_, hu⟩
          rw [List.length_append]
          exact Nat.le_add_right _ _
      · exact .inr ih

/-- A non-terminal that is not barred derives something no longer than `w` just if its production
does so without it. -/
theorem derives_nonTerminal_iff {e p n : Nat} {name : String}
    (hshape : g.shape e = .nonTerminal name) (hp : g.productionNamed name = some p)
    (he : e ∉ barred) :
    (∃ w, w.length ≤ n ∧ g.Derives barred [e] w) ↔
      ∃ w, w.length ≤ n ∧ g.Derives (e :: barred) [g.root p] w := by
  constructor
  · rintro ⟨w, hw, h⟩
    rcases h.cut (x := e) with h | ⟨name', p', v, hshape', hp', hv, h⟩
    · obtain ⟨form, hform, -⟩ := (derives_form_iff (by simp [hshape])).mp h
      simp only [expands_iff, hshape] at hform
      obtain ⟨_, _, hnot, _⟩ := hform
      exact absurd List.mem_cons_self hnot
    · rw [hshape] at hshape'
      cases hshape'
      rw [hp] at hp'
      cases hp'
      exact ⟨v, Nat.le_trans hv hw, h⟩
  · rintro ⟨w, hw, h⟩
    refine ⟨w, hw, (Expands.nonTerminal hshape hp he).derives ?_⟩
    exact h.weaken fun x hx => List.mem_cons_of_mem e hx

end Grammar

end GrammarAnalysis
