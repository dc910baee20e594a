import GrammarAnalysis.Grammar.LeftRecursion
import GrammarAnalysis.Grammar.Names
import GrammarAnalysis.Grammar.Sets
import GrammarAnalysis.Proofs.Grammar.Fringe

/-!
# First and Final Sets

The sets of tokens that a node can begin and end with are found by walks that take a
non-terminal met again to contribute nothing, and that keep what they have found. What a walk
inside of some non-terminals finds lies between the tokens that are reached without these and
all the tokens, and it is all of them unless it is cut (`Approximates`). A set is kept only
if it is not cut, so what is remembered is exact (`Grammar.Exact`), whatever was asked before.

## Main definitions

* `Approximates`, `Finds`: what an answer, and a question, promise;
* `Grammar.Exact`: the sets in a memory are the least solutions;
* `Grammar.Asks`, `Grammar.Remembers`: the questions, and the memories after a series of them.

## Main results

* `Grammar.finds_firstWithin`, `Grammar.finds_finalWithin`: the walks keep their promises;
* `Grammar.firstSet_finalSet_isLeast`: the answers are the least solutions, in any order of the
  questions.
-/

namespace GrammarAnalysis

/-! ### Answers between two bounds -/

/-- An answer contains the tokens of `low`, and only tokens of `full`; unless it is cut, it
contains all of them. -/
structure Approximates (s : Guarded TokenSet) (low full : Nat → Prop) : Prop where
  of_low : ∀ t, low t → t ∈ s.value
  to_full : ∀ t, t ∈ s.value → full t
  of_full : s.cut = false → ∀ t, full t → t ∈ s.value

/-- From a memory with the property, a question is answered within the bounds, and the memory
has the property again. -/
def Finds (q : Inquiry (Guarded TokenSet)) (I : Memory → Prop) (low full : Nat → Prop) : Prop :=
  ∀ m, I m → ∃ s m', q m = .ok (s, m') ∧ I m' ∧ Approximates s low full

variable {I : Memory → Prop} {low full : Nat → Prop}

/-- The set of all the tokens of `full` is an answer that is not cut. -/
theorem Approximates.exact {s : TokenSet} (h : ∀ t, t ∈ s ↔ full t) (hlow : ∀ t, low t → full t) :
    Approximates (pure s) low full :=
  ⟨fun t ht => (h t).mpr (hlow t ht), fun t => (h t).mp, fun _ t => (h t).mpr⟩

/-- The answer for want of budget suffices where nothing has to be found. -/
theorem Approximates.fallback (hlow : ∀ t, ¬ low t) : Approximates (.fallback ∅) low full :=
  ⟨fun t ht => absurd ht (hlow t), fun _ ht => absurd ht TokenSet.not_mem_empty,
    fun h => nomatch h⟩

/-- An answer that is not cut is all of it. -/
theorem Approximates.iff_of_uncut {s : Guarded TokenSet} (h : Approximates s low full)
    (hcut : ¬ s.cut = true) (t : Nat) : t ∈ s.value ↔ full t :=
  ⟨h.to_full t, h.of_full (Bool.eq_false_iff.mpr hcut) t⟩

/-- An answer that misses nothing is exact. -/
theorem Approximates.iff {s : Guarded TokenSet} (h : Approximates s full full) (t : Nat) :
    t ∈ s.value ↔ full t :=
  ⟨h.to_full t, h.of_low t⟩

/-- The bounds of a question may be replaced: the lower one by less, the upper one by its like. -/
theorem Finds.congr {q : Inquiry (Guarded TokenSet)} {low' full' : Nat → Prop}
    (h : Finds q I low full) (hlow : ∀ t, low' t → low t) (hfull : ∀ t, full t ↔ full' t) :
    Finds q I low' full' := by
  intro m hm
  obtain ⟨s, m', hq, hm', hs⟩ := h m hm
  exact ⟨s, m', hq, hm', fun t ht => hs.of_low t (hlow t ht),
    fun t ht => (hfull t).mp (hs.to_full t ht),
    fun hcut t ht => hs.of_full hcut t ((hfull t).mpr ht)⟩

/-- The union of two answers. It may also be cut for another reason. -/
theorem Approximates.union {s t : Guarded TokenSet} {low' full' : Nat → Prop} {cut : Bool}
    (hs : Approximates s low full) (ht : Approximates t low' full')
    (hcut : cut = false → s.cut = false ∧ t.cut = false) :
    Approximates ⟨s.value.union t.value, cut⟩ (fun n => low n ∨ low' n)
      fun n => full n ∨ full' n := by
  refine ⟨fun n hn => ?_, fun n hn => ?_, fun h n hn => ?_⟩
  · exact TokenSet.mem_union.mpr (hn.imp (hs.of_low n) (ht.of_low n))
  · exact (TokenSet.mem_union.mp hn).imp (hs.to_full n) (ht.to_full n)
  · obtain ⟨hsc, htc⟩ := hcut h
    exact TokenSet.mem_union.mpr (hn.imp (hs.of_full hsc n) (ht.of_full htc n))

namespace Grammar

/-! ### Unions -/

section Unions

variable {visit : Nat → Inquiry (Guarded TokenSet)} {low full : Nat → Nat → Prop}

/-- The union over a list of nodes lies between the unions of their bounds. -/
theorem finds_unionOf {l : List (Guarded Nat)}
    (h : ∀ x ∈ l, Finds (visit x.value) I (low x.value) (full x.value)) :
    Finds (unionOf visit l) I (fun t => ∃ x ∈ l, low x.value t)
      fun t => ∃ x ∈ l, full x.value t := by
  induction l with
  | nil =>
      intro m hm
      exact ⟨pure ∅, m, rfl, hm, .exact (fun t => by simp) (by simp)⟩
  | cons x rest ih =>
      intro m hm
      obtain ⟨s, m₁, hs, hm₁, has⟩ := h x List.mem_cons_self m hm
      obtain ⟨t, m₂, ht, hm₂, hat⟩ := ih (fun y hy => h y (List.mem_cons_of_mem x hy)) m₁ hm₁
      refine ⟨⟨s.value.union t.value, x.cut || s.cut || t.cut⟩, m₂, ?_, hm₂, ?_⟩
      · rw [unionOf, hs]
        simp only [bind, Except.bind, ht, pure, Except.pure]
      · simp only [List.mem_cons, exists_eq_or_imp]
        refine has.union hat fun hcut => ?_
        simp only [Bool.or_eq_false_iff] at hcut
        exact ⟨hcut.1.2, hcut.2⟩

/-- The union over leading units lies between the unions of their bounds. -/
theorem finds_unionOfLeading {g : Grammar} (units : List Nat)
    (h : ∀ u ∈ units, Finds (visit u) I (low u) (full u)) :
    Finds (g.unionOfLeading visit units) I (fun t => ∃ u ∈ g.leadingUnits units, low u t)
      fun t => ∃ u ∈ g.leadingUnits units, full u t := by
  induction units with
  | nil =>
      intro m hm
      exact ⟨pure ∅, m, rfl, hm, .exact (fun t => by simp [leadingUnits])
        (by simp [leadingUnits])⟩
  | cons u rest ih =>
      intro m hm
      obtain ⟨s, m₁, hs, hm₁, has⟩ := h u List.mem_cons_self m hm
      by_cases hempty : g.possiblyEmpty u = true
      · obtain ⟨t, m₂, ht, hm₂, hat⟩ := ih (fun v hv => h v (List.mem_cons_of_mem u hv)) m₁ hm₁
        refine ⟨⟨s.value.union t.value, s.cut || (g.emptyGuarded u).cut || t.cut⟩, m₂, ?_, hm₂, ?_⟩
        · rw [possiblyEmpty] at hempty
          rw [unionOfLeading, hs]
          simp only [bind, Except.bind, hempty, if_true, ht, pure, Except.pure]
        · rw [leadingUnits, if_pos hempty]
          simp only [List.mem_cons, exists_eq_or_imp]
          refine has.union hat fun hcut => ?_
          simp only [Bool.or_eq_false_iff] at hcut
          exact ⟨hcut.1.1, hcut.2⟩
      · refine ⟨⟨s.value, s.cut || (g.emptyGuarded u).cut⟩, m₁, ?_, hm₁, ?_⟩
        · rw [possiblyEmpty] at hempty
          rw [unionOfLeading, hs]
          simp only [bind, Except.bind, hempty, if_false, pure, Except.pure, Bool.false_eq_true]
        · rw [leadingUnits, if_neg hempty]
          simp only [List.mem_singleton, exists_eq_left]
          refine ⟨has.of_low, has.to_full, fun hcut => has.of_full ?_⟩
          simp only [Bool.or_eq_false_iff] at hcut
          exact hcut.1

end Unions

/-! ### One node -/

/-- What both walks do at a node: they visit its outer operands, or enter its production. An
alternative can come with a mark. -/
def visitShape (g : Grammar) (side : Side) (mark : Nat → Guarded Nat)
    (visit enter : Nat → Inquiry (Guarded TokenSet)) (inside : List Nat) (e : Nat) :
    Inquiry (Guarded TokenSet) := fun m =>
  match g.shape e with
  | .sequence units => g.unionOfLeading visit (side.order units) m
  | .choice alternatives => unionOf visit (alternatives.map mark) m
  | .zeroOrMore body | .oneOrMore body | .zeroOrOne body | .parentheses body => visit body m
  | .nonTerminal name =>
    match g.productionNamed name with
    | none => .ok (pure ∅, m)
    | some p => if e ∈ inside then .ok (.fallback ∅, m) else enter p m
  | .terminal pattern => (g.terminalSet pattern).map fun s => (pure s, m)
  | .empty _ => .ok (pure ∅, m)

variable {g : Grammar} {side : Side} {mark : Nat → Guarded Nat}
  {visit enter : Nat → Inquiry (Guarded TokenSet)} {inside : List Nat} {e : Nat}

/-- A question that is answered by the empty set at once. -/
theorem finds_nothing {q : Inquiry (Guarded TokenSet)} {low full : Nat → Prop}
    (hq : ∀ m, q m = .ok (pure ∅, m)) (hlow : ∀ t, low t → full t) (hfull : ∀ t, ¬ full t) :
    Finds q I low full :=
  fun m hm => ⟨pure ∅, m, hq m, hm, .exact (fun t => by simp [hfull]) hlow⟩

/-- The token of a terminal for a pattern that exists. -/
theorem terminalSet_eq {pattern : Nat} (hlt : pattern < g.lexicon.patterns.size) :
    g.terminalSet pattern = .ok ((g.lexicon.pattern pattern).ordinal.elim ∅ .ofToken) := by
  rw [terminalSet, Lexicon.pattern, Lexicon.pattern?, Array.getElem?_eq_getElem hlt]
  simp only [Option.getD_some]
  cases g.lexicon.patterns[pattern].ordinal <;> rfl

/-- The token of a terminal is all that it begins and ends with. -/
theorem mem_terminal_iff {barred : List Nat} {pattern t : Nat}
    (hshape : g.shape e = .terminal pattern) :
    t ∈ (g.lexicon.pattern pattern).ordinal.elim ∅ TokenSet.ofToken ↔
      g.Fringe side barred e t := by
  rw [fringe_terminal_iff hshape]
  cases (g.lexicon.pattern pattern).ordinal with
  | none => simp
  | some ordinal =>
      rw [Option.elim_some, TokenSet.mem_ofToken, Option.some.injEq]
      exact eq_comm

/-- If the operands and the production are answered within the bounds, so is the node. -/
theorem finds_visitShape (hmark : ∀ a, (mark a).value = a)
    (hpattern : ∀ pattern, g.shape e = .terminal pattern → pattern < g.lexicon.patterns.size)
    (hvisit : ∀ c ∈ g.children e,
      Finds (visit c) I (g.Fringe side inside c) (g.Fringe side [] c))
    (henter : ∀ name p, g.shape e = .nonTerminal name → g.productionNamed name = some p →
      e ∉ inside →
        Finds (enter p) I (g.Fringe side (e :: inside) (g.root p)) (g.Fringe side [] (g.root p))) :
    Finds (g.visitShape side mark visit enter inside e) I (g.Fringe side inside e)
      (g.Fringe side [] e) := by
  have hweaken : ∀ t, g.Fringe side inside e t → g.Fringe side [] e t :=
    fun t => Fringe.weaken fun x hx => absurd hx List.not_mem_nil
  have hoperand : (∀ pattern, g.shape e ≠ .terminal pattern) →
      (∀ name, g.shape e ≠ .nonTerminal name) → ∀ barred t,
        g.Fringe side barred e t ↔ ∃ c ∈ g.outer side e, g.Fringe side barred c t :=
    fun h h' _ _ => fringe_operand_iff h h'
  rw [children] at hvisit
  unfold visitShape
  cases hshape : g.shape e with
  | sequence units =>
      have houter : g.outer side e = g.leadingUnits (side.order units) := by
        simp only [outer, hshape]
      have hiff := hoperand (by simp [hshape]) (by simp [hshape])
      rw [houter] at hiff
      rw [hshape] at hvisit
      have hunits := finds_unionOfLeading (g := g) (side.order units)
        fun u hu => hvisit u (Side.mem_order.mp hu)
      exact hunits.congr (fun t => (hiff inside t).mp) fun t => (hiff [] t).symm
  | choice alternatives =>
      have houter : g.outer side e = alternatives := by simp only [outer, hshape, Shape.children]
      have hiff := hoperand (by simp [hshape]) (by simp [hshape])
      rw [houter] at hiff
      rw [hshape] at hvisit
      have halternatives := finds_unionOf (l := alternatives.map mark) fun x hx => by
        obtain ⟨a, ha, rfl⟩ := List.mem_map.mp hx
        rw [hmark]
        exact hvisit a ha
      refine halternatives.congr (fun t ht => ?_) fun t => ?_
      · obtain ⟨a, ha, ht⟩ := (hiff inside t).mp ht
        exact ⟨mark a, List.mem_map_of_mem ha, (hmark a).symm ▸ ht⟩
      · rw [hiff [] t]
        simp [hmark]
  | zeroOrMore body | oneOrMore body | zeroOrOne body | parentheses body =>
      have houter : g.outer side e = [body] := by simp only [outer, hshape, Shape.children]
      have hiff := hoperand (by simp [hshape]) (by simp [hshape])
      simp only [houter, List.mem_singleton, exists_eq_left] at hiff
      rw [hshape] at hvisit
      exact (hvisit body List.mem_cons_self).congr (fun t => (hiff inside t).mp)
        fun t => (hiff [] t).symm
  | nonTerminal name =>
      cases hp : g.productionNamed name with
      | none =>
          refine finds_nothing (fun m => by simp only [hp]) hweaken fun t => ?_
          rw [fringe_nonTerminal_iff hshape]
          simp [hp]
      | some p =>
          by_cases he : e ∈ inside
          · intro m hm
            refine ⟨.fallback ∅, m, by simp only [hp, if_pos he], hm, .fallback fun t ht => ?_⟩
            obtain ⟨-, -, hnot, -⟩ := (fringe_nonTerminal_iff hshape).mp ht
            exact hnot he
          · simp only [hp, if_neg he]
            refine (henter name p hshape hp he).congr (fun t ht => ?_) fun t => ?_
            · exact (fringe_bar_iff hshape hp he).mp ht
            · rw [fringe_nonTerminal_iff hshape]
              simp [hp]
  | terminal pattern =>
      intro m hm
      refine ⟨pure _, m, ?_, hm, .exact (fun t => mem_terminal_iff hshape) hweaken⟩
      simp only [terminalSet_eq (hpattern pattern hshape), Except.map]
  | empty kind =>
      have houter : g.outer side e = [] := by simp only [outer, hshape, Shape.children]
      have hiff := hoperand (by simp [hshape]) (by simp [hshape])
      simp only [houter, List.not_mem_nil, false_and, exists_const] at hiff
      exact finds_nothing (fun m => rfl) hweaken fun t => (hiff [] t).mp

/-! ### What is remembered -/

/-- Each set in a list is the set of tokens that it is kept for. -/
def Faithful (kept : List (Nat × TokenSet)) (F : Nat → Nat → Prop) : Prop :=
  ∀ k s, kept.lookup k = some s → ∀ t, t ∈ s ↔ F k t

/-- A list stays faithful when an exact set is put in front of it. -/
theorem Faithful.cons {kept : List (Nat × TokenSet)} {F : Nat → Nat → Prop} {k : Nat}
    {s : TokenSet} (h : Faithful kept F) (hs : ∀ t, t ∈ s ↔ F k t) :
    Faithful ((k, s) :: kept) F := by
  intro k' s' hlookup
  rw [List.lookup_cons] at hlookup
  split at hlookup
  · rename_i hk
    cases hlookup
    rw [beq_iff_eq.mp hk]
    exact hs
  · exact h k' s' hlookup

/-- The sets in a memory are the least solutions of the equations. -/
structure Exact (g : Grammar) (m : Memory) : Prop where
  first : Faithful m.first (g.Fringe .front [])
  productionFirst : Faithful m.productionFirst fun p => g.Fringe .front [] (g.root p)
  productionFinal : Faithful m.productionFinal fun p => g.Fringe .back [] (g.root p)

/-- There is nothing wrong with no set at all. -/
theorem exact_of_blank {m : Memory} (h : m.Blank) : g.Exact m := by
  have hnil : ∀ F, Faithful [] F := fun F k s hlookup => nomatch hlookup
  refine ⟨?_, ?_, ?_⟩
  · rw [h.first]
    exact hnil _
  · rw [h.productionFirst]
    exact hnil _
  · rw [h.productionFinal]
    exact hnil _

/-- A set that is kept unless it is cut leaves a memory exact. -/
theorem Exact.keepFirst {m : Memory} (hm : g.Exact m) {e : Nat} {s : Guarded TokenSet}
    {low : Nat → Prop} (hs : Approximates s low (g.Fringe .front [] e)) :
    g.Exact (m.keepFirst e s) := by
  rw [Memory.keepFirst]
  split
  · exact hm
  · rename_i hcut
    exact ⟨hm.first.cons (hs.iff_of_uncut hcut), hm.productionFirst, hm.productionFinal⟩

/-- The same for the first set of a production. -/
theorem Exact.keepProductionFirst {m : Memory} (hm : g.Exact m) {p : Nat} {s : Guarded TokenSet}
    {low : Nat → Prop} (hs : Approximates s low (g.Fringe .front [] (g.root p))) :
    g.Exact (m.keepProductionFirst p s) := by
  rw [Memory.keepProductionFirst]
  split
  · exact hm
  · rename_i hcut
    exact ⟨hm.first, hm.productionFirst.cons (hs.iff_of_uncut hcut), hm.productionFinal⟩

/-- The same for the final set of a production. -/
theorem Exact.keepProductionFinal {m : Memory} (hm : g.Exact m) {p : Nat} {s : Guarded TokenSet}
    {low : Nat → Prop} (hs : Approximates s low (g.Fringe .back [] (g.root p))) :
    g.Exact (m.keepProductionFinal p s) := by
  rw [Memory.keepProductionFinal]
  split
  · exact hm
  · rename_i hcut
    exact ⟨hm.first, hm.productionFirst, hm.productionFinal.cons (hs.iff_of_uncut hcut)⟩

/-! ### The walks -/

/-- What is at a side of a node without the barred ones is at this side of it. -/
theorem Fringe.of_barred {t : Nat} (h : g.Fringe side inside e t) : g.Fringe side [] e t :=
  h.weaken fun _ hx => absurd hx List.not_mem_nil

/-- The first set of a production is found between the bounds of its root. -/
theorem finds_productionFirstBy {p : Nat}
    (h : Finds (visit (g.root p)) g.Exact (g.Fringe .front inside (g.root p))
      (g.Fringe .front [] (g.root p))) :
    Finds (g.productionFirstBy visit p) g.Exact (g.Fringe .front inside (g.root p))
      (g.Fringe .front [] (g.root p)) := by
  intro m hm
  rw [productionFirstBy]
  cases hlookup : m.productionFirst.lookup p with
  | some s =>
      exact ⟨pure s, m, rfl, hm, .exact (hm.productionFirst p s hlookup) fun t => Fringe.of_barred⟩
  | none =>
      obtain ⟨s, m', hs, hm', has⟩ := h m hm
      refine ⟨s, m'.keepProductionFirst p s, ?_, hm'.keepProductionFirst has, has⟩
      simp only [hs, bind, Except.bind, pure, Except.pure]

/-- The final set of a production is found between the bounds of its root. -/
theorem finds_productionFinalBy {p : Nat}
    (h : Finds (visit (g.root p)) g.Exact (g.Fringe .back inside (g.root p))
      (g.Fringe .back [] (g.root p))) :
    Finds (g.productionFinalBy visit p) g.Exact (g.Fringe .back inside (g.root p))
      (g.Fringe .back [] (g.root p)) := by
  intro m hm
  rw [productionFinalBy]
  cases hlookup : m.productionFinal.lookup p with
  | some s =>
      exact ⟨pure s, m, rfl, hm, .exact (hm.productionFinal p s hlookup) fun t => Fringe.of_barred⟩
  | none =>
      obtain ⟨s, m', hs, hm', has⟩ := h m hm
      refine ⟨s, m'.keepProductionFinal p s, ?_, hm'.keepProductionFinal has, has⟩
      simp only [hs, bind, Except.bind, pure, Except.pure]

/-- No lookahead tries an expansion of its own. -/
def PlainLookaheads (g : Grammar) : Prop :=
  ∀ e lookahead, g.carried e = some lookahead → lookahead.nested = none

/-- The patterns of the terminals exist. -/
def PatternsExist (g : Grammar) : Prop :=
  ∀ e pattern, g.shape e = .terminal pattern → pattern < g.lexicon.patterns.size

/-- What is tried in the place of a node is the node itself. -/
theorem PlainLookaheads.expansionTried_eq (h : g.PlainLookaheads) (e : Nat)
    (owner : Option Nat) : g.expansionTried e owner = e := by
  rw [expansionTried]
  cases hcarried : owner.bind g.carried with
  | none => rfl
  | some lookahead =>
      obtain ⟨x, -, hx⟩ := Option.bind_eq_some_iff.mp hcarried
      rw [Option.bind_some, h x lookahead hx, Option.getD_none]

/-- One step of the walk for first sets: what is remembered is returned, and what is found is
kept. -/
theorem firstWithin_succ (g : Grammar) (budget : Nat) (inside : List Nat) (e : Nat) (m : Memory) :
    g.firstWithin (budget + 1) inside e m =
      match m.first.lookup e with
      | some s => .ok (pure s, m)
      | none => do
        let (s, m) ← g.visitShape .front (fun a => g.expansionTried a <$> g.ownerGuarded a)
          (g.firstWithin budget inside)
          (g.productionFirstBy (g.firstWithin budget (e :: inside))) inside e m
        return (s, m.keepFirst e s) := by
  rw [firstWithin]
  cases m.first.lookup e with
  | some s => rfl
  | none =>
      simp only [visitShape]
      cases g.shape e with
      | nonTerminal name =>
          cases hp : g.productionNamed name with
          | none => simp only [hp]
          | some p =>
              simp only [hp]
              split <;> rfl
      | _ => rfl

/-- One step of the walk for final sets, of which those of nodes are not kept. -/
theorem finalWithin_succ (g : Grammar) (budget : Nat) (inside : List Nat) (e : Nat) :
    g.finalWithin (budget + 1) inside e =
      g.visitShape .back pure (g.finalWithin budget inside)
        (g.productionFinalBy (g.finalWithin budget (e :: inside))) inside e := by
  funext m
  rw [finalWithin]
  rfl

/-- If the operands and the production are answered within the bounds, so is the node, from
memory or by a visit. -/
theorem finds_firstWithin_succ (hplain : g.PlainLookaheads) (hpattern : g.PatternsExist)
    {budget : Nat}
    (hvisit : ∀ c ∈ g.children e, Finds (g.firstWithin budget inside c) g.Exact
      (g.Fringe .front inside c) (g.Fringe .front [] c))
    (henter : ∀ name p, g.shape e = .nonTerminal name → g.productionNamed name = some p →
      e ∉ inside → Finds (g.firstWithin budget (e :: inside) (g.root p)) g.Exact
        (g.Fringe .front (e :: inside) (g.root p)) (g.Fringe .front [] (g.root p))) :
    Finds (g.firstWithin (budget + 1) inside e) g.Exact (g.Fringe .front inside e)
      (g.Fringe .front [] e) := by
  intro m hm
  rw [firstWithin_succ]
  cases hlookup : m.first.lookup e with
  | some s => exact ⟨pure s, m, rfl, hm, .exact (hm.first e s hlookup) fun t => Fringe.of_barred⟩
  | none =>
      have hmark : ∀ a, (g.expansionTried a <$> g.ownerGuarded a).value = a :=
        fun a => hplain.expansionTried_eq a _
      have hnode := finds_visitShape hmark (hpattern e) hvisit
        fun name p hshape hp he => finds_productionFirstBy (henter name p hshape hp he)
      obtain ⟨s, m', hs, hm', has⟩ := hnode m hm
      refine ⟨s, m'.keepFirst e s, ?_, hm'.keepFirst has, has⟩
      simp only [hs, bind, Except.bind, pure, Except.pure]

/-- A walk finds the tokens that a node can begin with, without the non-terminals that it is
inside of. -/
theorem finds_firstWithin (hg : g.WellFormed) (hplain : g.PlainLookaheads)
    (hpattern : g.PatternsExist) {budget : Nat} (h : g.Affords budget inside e) :
    Finds (g.firstWithin budget inside e) g.Exact (g.Fringe .front inside e)
      (g.Fringe .front [] e) := by
  induction budget generalizing inside e with
  | zero => exact absurd h Affords.budget_ne_zero
  | succ budget ih =>
      exact finds_firstWithin_succ hplain hpattern (fun c hc => ih (h.child hg hc))
        fun name p _ hp he => ih (h.enter hg hp he)

/-- A walk finds the tokens that a node can end with, without the non-terminals that it is
inside of. -/
theorem finds_finalWithin (hg : g.WellFormed) (hpattern : g.PatternsExist) {budget : Nat}
    (h : g.Affords budget inside e) :
    Finds (g.finalWithin budget inside e) g.Exact (g.Fringe .back inside e)
      (g.Fringe .back [] e) := by
  induction budget generalizing inside e with
  | zero => exact absurd h Affords.budget_ne_zero
  | succ budget ih =>
      rw [finalWithin_succ]
      exact finds_visitShape (fun _ => rfl) (hpattern e) (fun c hc => ih (h.child hg hc))
        fun name p _ hp he => finds_productionFinalBy (ih (h.enter hg hp he))

/-! ### The questions -/

/-- From an exact memory, the answer to a question is a set, and the memory is exact again. -/
def Answers (g : Grammar) (q : Inquiry TokenSet) (F : Nat → Prop) : Prop :=
  ∀ m, g.Exact m → ∃ s m', q m = .ok (s, m') ∧ g.Exact m' ∧ ∀ t, t ∈ s ↔ F t

/-- On the budget of a grammar, the walk finds the first set of a node. -/
theorem finds_first (hg : g.WellFormed) (hplain : g.PlainLookaheads)
    (hpattern : g.PatternsExist) (e : Nat) :
    Finds (g.firstWithin g.budget [] e) g.Exact (g.Fringe .front [] e) (g.Fringe .front [] e) := by
  by_cases he : e < g.size
  · exact finds_firstWithin hg hplain hpattern (.start he)
  · have hshape := shape_of_size_le (Nat.le_of_not_lt he)
    obtain ⟨budget, hb⟩ := g.budget_pos
    rw [hb]
    refine finds_firstWithin_succ hplain hpattern (fun c hc => ?_) fun name p hname => ?_
    · rw [children_of_size_le (Nat.le_of_not_lt he)] at hc
      exact absurd hc List.not_mem_nil
    · rw [hshape] at hname
      cases hname

/-- On the budget of a grammar, the walk finds the final set of a node. -/
theorem finds_final (hg : g.WellFormed) (hpattern : g.PatternsExist) (e : Nat) :
    Finds (g.finalWithin g.budget [] e) g.Exact (g.Fringe .back [] e) (g.Fringe .back [] e) := by
  by_cases he : e < g.size
  · exact finds_finalWithin hg hpattern (.start he)
  · have hshape := shape_of_size_le (Nat.le_of_not_lt he)
    obtain ⟨budget, hb⟩ := g.budget_pos
    rw [hb, finalWithin_succ]
    refine finds_visitShape (fun _ => rfl) (hpattern e) (fun c hc => ?_) fun name p hname => ?_
    · rw [children_of_size_le (Nat.le_of_not_lt he)] at hc
      exact absurd hc List.not_mem_nil
    · rw [hshape] at hname
      cases hname

/-- A walk that is inside of nothing leaves nothing out. -/
theorem answers_of_finds {q : Inquiry (Guarded TokenSet)} {q' : Inquiry TokenSet}
    {F : Nat → Prop} (h : Finds q g.Exact F F)
    (hq : ∀ m, q' m = (do let (s, m) ← q m; return (s.value, m))) : g.Answers q' F := by
  intro m hm
  obtain ⟨s, m', hs, hm', has⟩ := h m hm
  refine ⟨s.value, m', ?_, hm', has.iff⟩
  rw [hq, hs]
  rfl

/-- The first sets of several nodes are found one after the other. -/
theorem firstSets_cons {e : Nat} {rest : List Nat} {m m₁ m₂ : Memory} {s t : TokenSet}
    (hs : g.firstSet e m = .ok (s, m₁)) (ht : g.firstSets rest m₁ = .ok (t, m₂)) :
    g.firstSets (e :: rest) m = .ok (s.union t, m₂) := by
  rw [firstSets, hs]
  simp only [bind, Except.bind, ht, pure, Except.pure]

/-- A follow set is made up from the first sets of the followers. -/
theorem followSet_of_firstSets {e : Nat} {m m' : Memory} {s : TokenSet}
    (hs : g.firstSets (g.followers e).1 m = .ok (s, m')) :
    g.followSet e m = .ok (s.withIncomplete (g.followers e).2, m') := by
  rw [followSet]
  simp only [hs, bind, Except.bind, pure, Except.pure]

section

variable (hg : g.WellFormed) (hplain : g.PlainLookaheads) (hpattern : g.PatternsExist)

include hg hplain hpattern

/-- The first set of a node has the tokens at its front. -/
theorem answers_firstSet (e : Nat) : g.Answers (g.firstSet e) (g.Fringe .front [] e) :=
  answers_of_finds (finds_first hg hplain hpattern e) fun _ => rfl

/-- The first set of a production has the tokens at the front of its root. -/
theorem answers_productionFirstSet (p : Nat) :
    g.Answers (g.productionFirstSet p) (g.Fringe .front [] (g.root p)) :=
  answers_of_finds (finds_productionFirstBy (finds_first hg hplain hpattern (g.root p)))
    fun _ => rfl

/-- The first set of several nodes has the tokens at the front of any of them. -/
theorem answers_firstSets (l : List Nat) :
    g.Answers (g.firstSets l) fun t => ∃ e ∈ l, g.Fringe .front [] e t := by
  induction l with
  | nil => exact fun m hm => ⟨∅, m, rfl, hm, by simp⟩
  | cons e rest ih =>
      intro m hm
      obtain ⟨s, m₁, hs, hm₁, has⟩ := answers_firstSet hg hplain hpattern e m hm
      obtain ⟨t, m₂, ht, hm₂, hat⟩ := ih m₁ hm₁
      refine ⟨s.union t, m₂, firstSets_cons hs ht, hm₂, fun n => ?_⟩
      rw [TokenSet.mem_union, has, hat]
      simp only [List.mem_cons, exists_eq_or_imp]

/-- The follow set of a node is made up from the first sets of its followers. -/
theorem answers_followSet (e : Nat) :
    g.Answers (g.followSet e) fun t => ∃ x ∈ (g.followers e).1, g.Fringe .front [] x t := by
  intro m hm
  obtain ⟨s, m', hs, hm', has⟩ := answers_firstSets hg hplain hpattern (g.followers e).1 m hm
  exact ⟨s.withIncomplete (g.followers e).2, m', followSet_of_firstSets hs, hm', has⟩

end

/-- The final set of a node has the tokens at its back. -/
theorem answers_finalSet (hg : g.WellFormed) (hpattern : g.PatternsExist) (e : Nat) :
    g.Answers (g.finalSet e) (g.Fringe .back [] e) :=
  answers_of_finds (finds_final hg hpattern e) fun _ => rfl

/-- The final set of a production has the tokens at the back of its root. -/
theorem answers_productionFinalSet (hg : g.WellFormed) (hpattern : g.PatternsExist) (p : Nat) :
    g.Answers (g.productionFinalSet p) (g.Fringe .back [] (g.root p)) :=
  answers_of_finds (finds_productionFinalBy (finds_final hg hpattern (g.root p))) fun _ => rfl

/-- A question that adds to the memory of a grammar. -/
inductive Asks (g : Grammar) : Memory → Memory → Prop
  | firstSet {e : Nat} {s : TokenSet} {m m' : Memory} :
      g.firstSet e m = .ok (s, m') → Asks g m m'
  | productionFirstSet {p : Nat} {s : TokenSet} {m m' : Memory} :
      g.productionFirstSet p m = .ok (s, m') → Asks g m m'
  | finalSet {e : Nat} {s : TokenSet} {m m' : Memory} :
      g.finalSet e m = .ok (s, m') → Asks g m m'
  | productionFinalSet {p : Nat} {s : TokenSet} {m m' : Memory} :
      g.productionFinalSet p m = .ok (s, m') → Asks g m m'
  | followSet {e : Nat} {s : TokenSet} {m m' : Memory} :
      g.followSet e m = .ok (s, m') → Asks g m m'
  | firstSetName (e : Nat) (m : Memory) : Asks g m (g.firstSetName e m).2
  | derivedSetName (kind : String) (e : Nat) (m : Memory) :
      Asks g m (g.derivedSetName kind e m).2
  | scanRoutineName (e : Nat) (m : Memory) : Asks g m (g.scanRoutineName e m).2
  | derivedMethodName (kind : String) (e : Nat) (m : Memory) :
      Asks g m (g.derivedMethodName kind e m).2
  | startsWith (e : Nat) (target : String) (visited : OrderedSet String) (m : Memory) :
      Asks g m (Grammar.startsWith { g with memory := m } e target visited).2.2.memory

/-- What a grammar remembers after a series of questions. -/
def Remembers (g : Grammar) (m : Memory) : Prop := Relation.ReflTransGen g.Asks g.memory m

/-- A question that is answered right leaves the memory exact. -/
theorem Answers.exact {q : Inquiry TokenSet} {F : Nat → Prop} (h : g.Answers q F) {m m' : Memory}
    {s : TokenSet} (hm : g.Exact m) (hq : q m = .ok (s, m')) : g.Exact m' := by
  obtain ⟨s₁, m₁, hq₁, hm₁, -⟩ := h m hm
  rw [hq] at hq₁
  cases hq₁
  exact hm₁

/-- Naming a first set leaves the memory exact. -/
theorem Exact.firstSetName {m : Memory} (hm : g.Exact m) (e : Nat) :
    g.Exact (g.firstSetName e m).2 := by
  unfold Grammar.firstSetName
  split
  · exact hm
  · cases g.parent e with
    | _ => exact ⟨hm.first, hm.productionFirst, hm.productionFinal⟩

/-- Naming a scan routine leaves the memory exact. -/
theorem Exact.scanRoutineName {m : Memory} (hm : g.Exact m) (e : Nat) :
    g.Exact (g.scanRoutineName e m).2 := by
  unfold Grammar.scanRoutineName
  split
  · exact hm
  · cases g.parent e with
    | _ => exact ⟨hm.first, hm.productionFirst, hm.productionFinal⟩

/-- A question leaves a memory exact. -/
theorem Exact.asks (hg : g.WellFormed) (hplain : g.PlainLookaheads) (hpattern : g.PatternsExist)
    {m m' : Memory} (hm : g.Exact m) (h : g.Asks m m') : g.Exact m' := by
  cases h with
  | firstSet h => exact (answers_firstSet hg hplain hpattern _).exact hm h
  | productionFirstSet h => exact (answers_productionFirstSet hg hplain hpattern _).exact hm h
  | finalSet h => exact (answers_finalSet hg hpattern _).exact hm h
  | productionFinalSet h => exact (answers_productionFinalSet hg hpattern _).exact hm h
  | followSet h => exact (answers_followSet hg hplain hpattern _).exact hm h
  | firstSetName e => exact hm.firstSetName e
  | derivedSetName kind e => exact hm.firstSetName e
  | scanRoutineName e => exact hm.scanRoutineName e
  | derivedMethodName kind e => exact hm.scanRoutineName e
  | startsWith e target visited => exact ⟨hm.first, hm.productionFirst, hm.productionFinal⟩

/-- Whatever was asked, what is remembered is exact. -/
theorem Developed.exact (hg : g.Developed) (hplain : g.PlainLookaheads)
    (hpattern : g.PatternsExist) {m : Memory} (hm : g.Remembers m) : g.Exact m := by
  induction hm with
  | refl => exact exact_of_blank hg.memory_blank
  | tail _ hask ih => exact ih.asks hg.wellFormed hplain hpattern hask

end Grammar

end GrammarAnalysis
