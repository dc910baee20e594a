import GrammarAnalysis.Proofs.Grammar.FirstFinal
import GrammarAnalysis.Proofs.TokenSet.Refinement
import Mathlib.Data.Finset.Card

/-!
# What a Walk Comes By

The walks for the sets of tokens at a side of a node, in any grammar: a lookahead may try an
expansion of its own, even one around it, a terminal may be for a pattern that does not exist, and
the budget need not suffice for the way that a walk takes.

A walk goes from a node to the *next* nodes, and comes by the patterns of the terminals that it
reaches (`Grammar.Sees`). What is reached at all is reached without going through a node twice, so
a walk on the budget of a grammar comes by all of it (`Grammar.seesWithin_budget`), although it
stops at a non-terminal that it is inside of. A fault, too, comes from a pattern that is seen. So
from a memory in which every set is that of the patterns seen (`Grammar.Right`), the answer to a
question depends on the grammar alone. Whatever the memory is, a walk adds nothing to it but sets.

## Main definitions

* `Question`, `Memory.kept`: the questions, and the answers that are kept;
* `Memory.SameFrame`: two memories differ in sets of tokens at most;
* `Grammar.next`, `Grammar.Sees`: the ways of a walk, and the patterns that it comes by;
* `Grammar.Covers`, `Grammar.Meets`: what an answer, and a question, promise;
* `Grammar.Right`: the sets in a memory are those of the patterns that are seen.

## Main results

* `Grammar.meets_firstWithin`, `Grammar.meets_finalWithin`: the walks keep their promises;
* `Grammar.Meets.value_eq`: an answer does not depend on the memory, as long as this is right.
-/

namespace GrammarAnalysis

/-- A question about the tokens at a side of a node, or of a production. -/
inductive Question where
  | first (e : Nat)
  | productionFirst (p : Nat)
  | final (e : Nat)
  | productionFinal (p : Nat)
deriving DecidableEq, Repr

/-! ### What is remembered -/

namespace Memory

variable {m : Memory} {q : Question} {s : Guarded TokenSet}

/-- The set that is kept as the answer to a question. The final sets of nodes are not kept. -/
def kept (m : Memory) : Question → Option TokenSet
  | .first e => m.first.lookup e
  | .productionFirst p => m.productionFirst.lookup p
  | .final _ => none
  | .productionFinal p => m.productionFinal.lookup p

/-- Keeps the answer to a question, unless it is cut. -/
def keep (m : Memory) : Question → Guarded TokenSet → Memory
  | .first e, s => m.keepFirst e s
  | .productionFirst p, s => m.keepProductionFirst p s
  | .final _, _ => m
  | .productionFinal p, s => m.keepProductionFinal p s

/-- The second memory differs from the first one in sets of tokens at most. -/
def SameFrame (m m' : Memory) : Prop :=
  m' = { m with
    first := m'.first, productionFirst := m'.productionFirst,
    productionFinal := m'.productionFinal }

/-- A memory differs from itself in nothing. -/
theorem SameFrame.refl (m : Memory) : m.SameFrame m := rfl

/-- Differing in sets at most is transitive. -/
theorem SameFrame.trans {m₁ m₂ m₃ : Memory} (h : m₁.SameFrame m₂) (h' : m₂.SameFrame m₃) :
    m₁.SameFrame m₃ := by
  rw [SameFrame] at h h'
  rw [h] at h'
  exact h'

/-- Keeping an answer adds a set at most. -/
theorem sameFrame_keep : m.SameFrame (m.keep q s) := by
  cases q with
  | first e => rw [keep, keepFirst]; split <;> rfl
  | productionFirst p => rw [keep, keepProductionFirst]; split <;> rfl
  | final e => rfl
  | productionFinal p => rw [keep, keepProductionFinal]; split <;> rfl

/-- What is found in a list is its head, or is found in its tail. -/
theorem eq_of_lookup_cons {β : Type} {k k' : Nat} {r r' : β} {l : List (Nat × β)}
    (h : ((k, r) :: l).lookup k' = some r') : l.lookup k' = some r' ∨ k' = k ∧ r' = r := by
  rw [List.lookup_cons] at h
  split at h
  · rename_i hk
    exact .inr ⟨beq_iff_eq.mp hk, (Option.some.inj h).symm⟩
  · exact .inl h

/-- An answer that is cut is not kept. -/
theorem keep_of_cut (h : s.cut = true) : m.keep q s = m := by
  cases q with
  | first e => rw [keep, keepFirst, if_pos h]
  | productionFirst p => rw [keep, keepProductionFirst, if_pos h]
  | final e => rfl
  | productionFinal p => rw [keep, keepProductionFinal, if_pos h]

/-- What is kept was kept before, or is the answer that was added. -/
theorem kept_keep {q' : Question} {r : TokenSet} (h : (m.keep q s).kept q' = some r) :
    m.kept q' = some r ∨ q' = q ∧ r = s.value ∧ s.cut = false := by
  by_cases hcut : s.cut = true
  · rw [keep_of_cut hcut] at h
    exact .inl h
  · have hcut' := Bool.eq_false_iff.mpr hcut
    cases q with
    | first e =>
        rw [keep, keepFirst, if_neg hcut] at h
        cases q' with
        | first e' =>
            obtain h | ⟨rfl, hr⟩ := eq_of_lookup_cons h
            · exact .inl h
            · exact .inr ⟨rfl, hr, hcut'⟩
        | _ => exact .inl h
    | productionFirst p =>
        rw [keep, keepProductionFirst, if_neg hcut] at h
        cases q' with
        | productionFirst p' =>
            obtain h | ⟨rfl, hr⟩ := eq_of_lookup_cons h
            · exact .inl h
            · exact .inr ⟨rfl, hr, hcut'⟩
        | _ => exact .inl h
    | final e => exact .inl h
    | productionFinal p =>
        rw [keep, keepProductionFinal, if_neg hcut] at h
        cases q' with
        | productionFinal p' =>
            obtain h | ⟨rfl, hr⟩ := eq_of_lookup_cons h
            · exact .inl h
            · exact .inr ⟨rfl, hr, hcut'⟩
        | _ => exact .inl h

end Memory

namespace Grammar

/-! ### Ways -/

/-- What a walk goes to for an alternative. At the front, this is what the parser tries. -/
def tried (g : Grammar) : Side → Nat → Nat
  | .front => g.lookaheadExpansion
  | .back => id

/-- The nodes that a walk goes to from a node. -/
def next (g : Grammar) (side : Side) (e : Nat) : List Nat :=
  match g.shape e with
  | .sequence units => g.leadingUnits (side.order units)
  | .choice alternatives => alternatives.map (g.tried side)
  | .zeroOrMore body | .oneOrMore body | .zeroOrOne body | .parentheses body => [body]
  | .nonTerminal name => ((g.productionNamed name).map g.root).toList
  | .terminal _ | .empty _ => []

/-- A terminal for the pattern is reached from the node, without going through a barred node. -/
inductive Sees (g : Grammar) (side : Side) (barred : Finset Nat) : Nat → Nat → Prop
  | terminal {e t : Nat} : e ∉ barred → g.shape e = .terminal t → Sees g side barred e t
  | step {e c t : Nat} : e ∉ barred → c ∈ g.next side e → Sees g side barred c t →
      Sees g side barred e t

/-- The nodes that are not barred. -/
def unbarred (g : Grammar) (barred : Finset Nat) : Finset Nat := Finset.range g.size \ barred

/-- A walk on the budget, inside of the non-terminals of a list, is sure to come by the pattern:
it is seen although all nodes are barred but for fewer than the budget has steps. -/
def SeesWithin (g : Grammar) (side : Side) (budget : Nat) (inside : List Nat) (e t : Nat) : Prop :=
  ∃ barred : Finset Nat, (∀ x ∈ inside, x ∈ barred) ∧ (g.unbarred barred).card < budget ∧
    g.Sees side barred e t

variable {g : Grammar} {side : Side} {barred : Finset Nat} {inside : List Nat} {e t : Nat}

/-- Nothing is seen from a barred node. -/
theorem Sees.not_mem (h : g.Sees side barred e t) : e ∉ barred := by
  cases h with
  | terminal he _ => exact he
  | step he _ _ => exact he

/-- What is seen is still seen when fewer nodes are barred. -/
theorem Sees.weaken {barred' : Finset Nat} (hb : barred' ⊆ barred) (h : g.Sees side barred e t) :
    g.Sees side barred' e t := by
  induction h with
  | terminal he hshape => exact .terminal (fun h => he (hb h)) hshape
  | step he hc _ ih => exact .step (fun h => he (hb h)) hc ih

/-- What is seen through a node is seen from it, and then without coming back to it. -/
theorem Sees.cut {x : Nat} (h : g.Sees side barred e t) :
    g.Sees side (insert x barred) e t ∨ g.shape x = .terminal t ∨
      ∃ c ∈ g.next side x, g.Sees side (insert x barred) c t := by
  -- from the terminal back: what is left of the way after the last visit of `x` is free of it
  induction h with
  | @terminal e t he hshape =>
      by_cases hx : e = x
      · exact .inr (.inl (hx ▸ hshape))
      · exact .inl (.terminal (by simp [hx, he]) hshape)
  | @step e c t he hc _ ih =>
      rcases ih with ih | ih
      · by_cases hx : e = x
        · exact .inr (.inr ⟨c, hx ▸ hc, ih⟩)
        · exact .inl (.step (by simp [hx, he]) hc ih)
      · exact .inr ih

/-- What is seen from a node is its own pattern, or is seen from a next node without coming back.
-/
theorem Sees.inv (h : g.Sees side barred e t) :
    g.shape e = .terminal t ∨ ∃ c ∈ g.next side e, g.Sees side (insert e barred) c t := by
  rcases h.cut (x := e) with h | h
  · exact absurd (Finset.mem_insert_self e barred) h.not_mem
  · exact h

/-- What is seen from a node: its own pattern, and what is seen from the next nodes. -/
theorem sees_iff :
    g.Sees side ∅ e t ↔ g.shape e = .terminal t ∨ ∃ c ∈ g.next side e, g.Sees side ∅ c t := by
  constructor
  · intro h
    exact h.inv.imp id fun ⟨c, hc, h⟩ => ⟨c, hc, h.weaken (Finset.empty_subset _)⟩
  · rintro (hshape | ⟨c, hc, h⟩)
    · exact .terminal (Finset.notMem_empty e) hshape
    · exact .step (Finset.notMem_empty e) hc h

/-- Something is seen only from nodes of the grammar. -/
theorem Sees.lt_size (h : g.Sees side barred e t) : e < g.size := by
  by_contra hlt
  have hshape := shape_of_size_le (Nat.le_of_not_lt hlt)
  rcases h.inv with hterminal | ⟨c, hc, -⟩
  · rw [hshape] at hterminal
    cases hterminal
  · simp only [next, hshape, List.not_mem_nil] at hc

/-- Barring one more node leaves fewer that are not barred. -/
theorem unbarred_insert (he : e < g.size) (hb : e ∉ barred) :
    (g.unbarred (insert e barred)).card < (g.unbarred barred).card := by
  rw [unbarred, unbarred, Finset.sdiff_insert]
  exact Finset.card_erase_lt_of_mem
    (Finset.mem_sdiff.mpr ⟨Finset.mem_range.mpr he, hb⟩)

/-- What is seen on a budget is seen. -/
theorem SeesWithin.sees {budget : Nat} (h : g.SeesWithin side budget inside e t) :
    g.Sees side ∅ e t := by
  obtain ⟨barred, -, -, h⟩ := h
  exact h.weaken (Finset.empty_subset _)

/-- What is seen on a budget is still seen on it inside of fewer non-terminals. -/
theorem SeesWithin.weaken {budget : Nat} {inside' : List Nat}
    (hi : ∀ x ∈ inside', x ∈ inside) (h : g.SeesWithin side budget inside e t) :
    g.SeesWithin side budget inside' e t := by
  obtain ⟨barred, hb, hcard, h⟩ := h
  exact ⟨barred, fun x hx => hb x (hi x hx), hcard, h⟩

/-- Nothing is sure to be seen on an empty budget. -/
theorem not_seesWithin_zero : ¬ g.SeesWithin side 0 inside e t :=
  fun ⟨_, _, h, _⟩ => Nat.not_lt_zero _ h

/-- One step of a walk takes one from its budget, and it does not come back. -/
theorem SeesWithin.inv {budget : Nat} (h : g.SeesWithin side (budget + 1) inside e t) :
    e ∉ inside ∧ (g.shape e = .terminal t ∨
      ∃ c ∈ g.next side e, g.SeesWithin side budget (e :: inside) c t) := by
  obtain ⟨barred, hb, hcard, h⟩ := h
  refine ⟨fun he => h.not_mem (hb e he), h.inv.imp id fun ⟨c, hc, hsees⟩ => ⟨c, hc, ?_⟩⟩
  have hlt := unbarred_insert h.lt_size h.not_mem
  refine ⟨insert e barred, fun x hx => ?_, by omega, hsees⟩
  rcases List.mem_cons.mp hx with rfl | hx
  · exact Finset.mem_insert_self x barred
  · exact Finset.mem_insert_of_mem (hb x hx)

/-- **The budget of a grammar suffices** to come by everything that is seen. -/
theorem seesWithin_budget (h : g.Sees side ∅ e t) : g.SeesWithin side g.budget [] e t := by
  refine ⟨∅, fun x hx => absurd hx List.not_mem_nil, ?_, h⟩
  rw [unbarred, Finset.sdiff_empty, Finset.card_range, budget]
  exact Nat.lt_of_lt_of_le (Nat.lt_succ_self g.size) (Nat.le_mul_of_pos_left _ (Nat.succ_pos _))

/-! ### Answers -/

/-- The pattern exists, and its token is in the set, if it has one. -/
def Contains (g : Grammar) (s : TokenSet) (pattern : Nat) : Prop :=
  ∃ u, g.terminalSet pattern = .ok u ∧ ∀ o ∈ u, o ∈ s

/-- An answer contains the tokens of the patterns of `low`, and only tokens of patterns of `full`;
unless it is cut, it contains all of these. -/
structure Covers (g : Grammar) (s : Guarded TokenSet) (low full : Nat → Prop) : Prop where
  of_low : ∀ t, low t → g.Contains s.value t
  to_full : ∀ o ∈ s.value, ∃ t u, full t ∧ g.terminalSet t = .ok u ∧ o ∈ u
  of_full : s.cut = false → ∀ t, full t → g.Contains s.value t
  trimmed : s.value.Trimmed
  complete : s.value.incomplete = false

/-- The patterns that are seen in answering a question. -/
def seen (g : Grammar) : Question → Nat → Prop
  | .first e => g.Sees .front ∅ e
  | .productionFirst p => g.Sees .front ∅ (g.root p)
  | .final e => g.Sees .back ∅ e
  | .productionFinal p => g.Sees .back ∅ (g.root p)

/-- The sets in a memory are those of the patterns that are seen. -/
def Right (g : Grammar) (m : Memory) : Prop :=
  ∀ q s, m.kept q = some s → g.Covers (pure s) (g.seen q) (g.seen q)

/-- A question is answered, and adds nothing but sets to the memory; or there is a fault, which is
that of a pattern of `full`. If the memory is right, the answer is within the bounds, and the memory
is right again. -/
def Meets (g : Grammar) (q : Inquiry (Guarded TokenSet)) (low full : Nat → Prop) : Prop :=
  ∀ m, (∃ s m', q m = .ok (s, m') ∧ m.SameFrame m' ∧
      (g.Right m → g.Right m' ∧ g.Covers s low full)) ∨
    ∃ t fault, full t ∧ g.terminalSet t = .error fault ∧ q m = .error fault

variable {low full low' full' : Nat → Prop} {s : Guarded TokenSet}

/-- A larger set still contains the token of a pattern. -/
theorem Contains.mono {s s' : TokenSet} (h : g.Contains s t) (hs : ∀ o ∈ s, o ∈ s') :
    g.Contains s' t := by
  obtain ⟨u, hu, hsub⟩ := h
  exact ⟨u, hu, fun o ho => hs o (hsub o ho)⟩

/-- The bounds of an answer may be replaced: the lower one by less, the upper one by its like. -/
theorem Covers.congr (h : g.Covers s low full) (hlow : ∀ t, low' t → low t)
    (hfull : ∀ t, full t ↔ full' t) : g.Covers s low' full' where
  of_low t ht := h.of_low t (hlow t ht)
  to_full o ho := by
    obtain ⟨t, u, ht, hu, hmem⟩ := h.to_full o ho
    exact ⟨t, u, (hfull t).mp ht, hu, hmem⟩
  of_full hcut t ht := h.of_full hcut t ((hfull t).mpr ht)
  trimmed := h.trimmed
  complete := h.complete

/-- The bounds of a question may be replaced: the lower one by less, the upper one by its like. -/
theorem Meets.congr {q : Inquiry (Guarded TokenSet)} (h : g.Meets q low full)
    (hlow : ∀ t, low' t → low t) (hfull : ∀ t, full t ↔ full' t) : g.Meets q low' full' := by
  intro m
  rcases h m with ⟨s, m', hs, hframe, hright⟩ | ⟨t, fault, ht, hfault, hq⟩
  · exact .inl ⟨s, m', hs, hframe, fun hm => (hright hm).imp id fun has => has.congr hlow hfull⟩
  · exact .inr ⟨t, fault, (hfull t).mp ht, hfault, hq⟩

/-- A question that is answered at once. -/
theorem meets_of_ok {q : Inquiry (Guarded TokenSet)} (hq : ∀ m, q m = .ok (s, m))
    (hs : g.Covers s low full) : g.Meets q low full :=
  fun m => .inl ⟨s, m, hq m, .refl m, fun hm => ⟨hm, hs⟩⟩

/-- The empty answer suffices where no pattern has to be in it. -/
theorem covers_empty {cut : Bool} (hlow : ∀ t, ¬ low t) (hfull : cut = false → ∀ t, ¬ full t) :
    g.Covers ⟨∅, cut⟩ low full where
  of_low t ht := absurd ht (hlow t)
  to_full _ ho := absurd ho TokenSet.not_mem_empty
  of_full hcut t ht := absurd ht (hfull hcut t)
  trimmed := TokenSet.trimmed_empty
  complete := rfl

/-- The set of a terminal contains the token of its pattern. -/
theorem covers_terminalSet {pattern : Nat} {u : TokenSet} (hu : g.terminalSet pattern = .ok u)
    (hlow : ∀ t, low t → full t) (hfull : ∀ t, full t ↔ t = pattern) :
    g.Covers (pure u) low full := by
  have hcontains : ∀ t, full t → g.Contains u t := fun t ht => by
    rw [(hfull t).mp ht]
    exact ⟨u, hu, fun _ => id⟩
  have hplain : u.Trimmed ∧ u.incomplete = false := by
    rw [terminalSet] at hu
    split at hu
    · cases hu
    · split at hu
      · cases hu
        exact ⟨TokenSet.trimmed_empty.set _, rfl⟩
      · cases hu
        exact ⟨TokenSet.trimmed_empty, rfl⟩
  exact ⟨fun t ht => hcontains t (hlow t ht),
    fun o ho => ⟨pattern, u, (hfull pattern).mpr rfl, hu, ho⟩, fun _ => hcontains, hplain.1,
    hplain.2⟩

/-- The union of two answers is within the union of their bounds. -/
theorem Covers.union {r : Guarded TokenSet} {cut : Bool} (hs : g.Covers s low full)
    (hr : g.Covers r low' full') (hcut : cut = false → s.cut = false ∧ r.cut = false) :
    g.Covers ⟨s.value.union r.value, cut⟩ (fun t => low t ∨ low' t) fun t => full t ∨ full' t := by
  have hleft : ∀ o ∈ s.value, o ∈ s.value.union r.value :=
    fun o ho => TokenSet.mem_union.mpr (.inl ho)
  have hright : ∀ o ∈ r.value, o ∈ s.value.union r.value :=
    fun o ho => TokenSet.mem_union.mpr (.inr ho)
  refine ⟨?_, fun o ho => ?_, fun h => ?_, hs.trimmed.union hr.trimmed, hs.complete⟩
  · rintro t (ht | ht)
    · exact (hs.of_low t ht).mono hleft
    · exact (hr.of_low t ht).mono hright
  · rcases TokenSet.mem_union.mp ho with ho | ho
    · obtain ⟨t, u, ht, hu⟩ := hs.to_full o ho
      exact ⟨t, u, .inl ht, hu⟩
    · obtain ⟨t, u, ht, hu⟩ := hr.to_full o ho
      exact ⟨t, u, .inr ht, hu⟩
  · obtain ⟨hsc, hrc⟩ := hcut h
    rintro t (ht | ht)
    · exact (hs.of_full hsc t ht).mono hleft
    · exact (hr.of_full hrc t ht).mono hright

/-- Two answers that miss nothing have the same value. -/
theorem Covers.value_eq {r : Guarded TokenSet} (hs : g.Covers s full full)
    (hr : g.Covers r full full) : s.value = r.value := by
  have hsub : ∀ {s r : Guarded TokenSet}, g.Covers s full full → g.Covers r full full →
      ∀ o ∈ s.value, o ∈ r.value := fun hs hr o ho => by
    obtain ⟨t, u, ht, hu, hmem⟩ := hs.to_full o ho
    obtain ⟨u', hu', hmem'⟩ := hr.of_low t ht
    obtain rfl := Except.ok.inj (hu.symm.trans hu')
    exact hmem' o hmem
  exact hs.trimmed.ext hr.trimmed (fun o => ⟨hsub hs hr o, hsub hr hs o⟩)
    (hs.complete.trans hr.complete.symm)

/-- An answer that is not cut is kept as one that misses nothing. -/
theorem Covers.pure (hs : g.Covers s low full) (h : s.cut = false ∨ low = full) :
    g.Covers (Pure.pure s.value) full full := by
  have hfull : ∀ t, full t → g.Contains s.value t := by
    rcases h with hcut | rfl
    · exact hs.of_full hcut
    · exact hs.of_low
  exact ⟨hfull, hs.to_full, fun _ => hfull, hs.trimmed, hs.complete⟩

/-- A terminal fails only for want of its pattern. -/
theorem terminalSet_error {pattern : Nat} {fault : Fault}
    (h : g.terminalSet pattern = .error fault) : fault = .index := by
  rw [terminalSet] at h
  split at h
  · exact (Except.error.inj h).symm
  · split at h <;> cases h

/-- **An answer does not depend on the memory**, as long as this is right, if it misses nothing. -/
theorem Meets.value_eq {q : Inquiry (Guarded TokenSet)} (h : g.Meets q full full)
    {m₁ m₂ : Memory} (h₁ : g.Right m₁) (h₂ : g.Right m₂) :
    (q m₁).map (·.1.value) = (q m₂).map (·.1.value) := by
  -- a pattern that makes one of the questions fail would be missing in an answer to the other
  have hno : ∀ {t : Nat} {fault : Fault} {s : Guarded TokenSet}, full t →
      g.terminalSet t = .error fault → ¬ g.Covers s full full := fun ht hfault hs => by
    obtain ⟨u, hu, -⟩ := hs.of_low _ ht
    rw [hfault] at hu
    cases hu
  rcases h m₁ with ⟨s, m, hs, -, has⟩ | ⟨t, fault, ht, hfault, hq⟩
  · rcases h m₂ with ⟨r, m', hr, -, har⟩ | ⟨t, fault, ht, hfault, -⟩
    · rw [hs, hr]
      exact congrArg Except.ok ((has h₁).2.value_eq (har h₂).2)
    · exact absurd (has h₁).2 (hno ht hfault)
  · rcases h m₂ with ⟨r, m', -, -, har⟩ | ⟨t', fault', -, hfault', hq'⟩
    · exact absurd (har h₂).2 (hno ht hfault)
    · rw [hq, hq', terminalSet_error hfault, terminalSet_error hfault']

/-! ### Unions -/

/-- Two questions, one after the other, for the union of their answers. The union may also be cut
for another reason. -/
theorem Meets.union {q q' : Inquiry (Guarded TokenSet)} {cut : Bool → Bool → Bool}
    (hcut : ∀ a b, cut a b = false → a = false ∧ b = false) (h : g.Meets q low full)
    (h' : g.Meets q' low' full') :
    g.Meets
      (fun m => do
        let (s, m) ← q m
        let (r, m) ← q' m
        return (⟨s.value.union r.value, cut s.cut r.cut⟩, m))
      (fun t => low t ∨ low' t) fun t => full t ∨ full' t := by
  intro m
  rcases h m with ⟨s, m₁, hs, hframe, hright⟩ | ⟨t, fault, ht, hfault, hq⟩
  · rcases h' m₁ with ⟨r, m₂, hr, hframe', hright'⟩ | ⟨t, fault, ht, hfault, hq⟩
    · refine .inl ⟨⟨s.value.union r.value, cut s.cut r.cut⟩, m₂, ?_, hframe.trans hframe',
        fun hm => ?_⟩
      · simp only [hs, hr, bind, Except.bind, Pure.pure, Except.pure]
      · obtain ⟨hm₁, has⟩ := hright hm
        obtain ⟨hm₂, har⟩ := hright' hm₁
        exact ⟨hm₂, has.union har (hcut s.cut r.cut)⟩
    · refine .inr ⟨t, fault, .inr ht, hfault, ?_⟩
      simp only [hs, hq, bind, Except.bind]
  · refine .inr ⟨t, fault, .inl ht, hfault, ?_⟩
    simp only [hq, bind, Except.bind]

/-- An answer may be cut for another reason. -/
theorem Meets.orCut {q : Inquiry (Guarded TokenSet)} (cut : Bool) (h : g.Meets q low full) :
    g.Meets
      (fun m => do
        let (s, m) ← q m
        return (⟨s.value, s.cut || cut⟩, m))
      low full := by
  intro m
  rcases h m with ⟨s, m₁, hs, hframe, hright⟩ | ⟨t, fault, ht, hfault, hq⟩
  · refine .inl ⟨⟨s.value, s.cut || cut⟩, m₁, ?_, hframe, fun hm => ?_⟩
    · simp only [hs, bind, Except.bind, Pure.pure, Except.pure]
    · obtain ⟨hm₁, has⟩ := hright hm
      exact ⟨hm₁, has.of_low, has.to_full,
        fun hcut => has.of_full (Bool.or_eq_false_iff.mp hcut).1, has.trimmed, has.complete⟩
  · refine .inr ⟨t, fault, ht, hfault, ?_⟩
    simp only [hq, bind, Except.bind]

section Unions

variable {visit : Nat → Inquiry (Guarded TokenSet)} {low full : Nat → Nat → Prop}

/-- The union over a list of nodes is within the union of their bounds. -/
theorem meets_unionOf {l : List (Guarded Nat)}
    (h : ∀ x ∈ l, g.Meets (visit x.value) (low x.value) (full x.value)) :
    g.Meets (unionOf visit l) (fun t => ∃ x ∈ l, low x.value t)
      fun t => ∃ x ∈ l, full x.value t := by
  induction l with
  | nil => exact meets_of_ok (fun _ => rfl) (covers_empty (by simp) (by simp))
  | cons x rest ih =>
      simp only [List.mem_cons, exists_eq_or_imp, forall_eq_or_imp] at h ⊢
      have hcut : ∀ a b, (x.cut || a || b) = false → a = false ∧ b = false := by simp
      exact Meets.union hcut h.1 (ih h.2)

/-- The union over leading units is within the union of their bounds. -/
theorem meets_unionOfLeading (units : List Nat)
    (h : ∀ u ∈ g.leadingUnits units, g.Meets (visit u) (low u) (full u)) :
    g.Meets (g.unionOfLeading visit units) (fun t => ∃ u ∈ g.leadingUnits units, low u t)
      fun t => ∃ u ∈ g.leadingUnits units, full u t := by
  induction units with
  | nil =>
      exact meets_of_ok (fun _ => rfl)
        (covers_empty (by simp [leadingUnits]) (by simp [leadingUnits]))
  | cons u rest ih =>
      by_cases hempty : g.possiblyEmpty u = true
      · simp only [leadingUnits, hempty, if_true, List.mem_cons, exists_eq_or_imp,
          forall_eq_or_imp] at h ⊢
        have hcut : ∀ a b, (a || (g.emptyGuarded u).cut || b) = false → a = false ∧ b = false := by
          simp +contextual
        convert Meets.union hcut h.1 (ih h.2) using 1
        funext m
        rw [possiblyEmpty] at hempty
        simp only [unionOfLeading, hempty, if_true]
      · simp only [leadingUnits, if_neg hempty, List.mem_singleton, exists_eq_left,
          forall_eq] at h ⊢
        convert h.orCut (g.emptyGuarded u).cut using 1
        funext m
        rw [possiblyEmpty] at hempty
        simp only [unionOfLeading, hempty, if_false, Bool.false_eq_true]

end Unions

/-! ### One node -/

variable {mark : Nat → Guarded Nat} {visit enter : Nat → Inquiry (Guarded TokenSet)} {budget : Nat}

/-- If the next nodes are answered within the bounds, so is the node. -/
theorem meets_visitShape (hmark : ∀ a, (mark a).value = g.tried side a)
    (hvisit : ∀ c, g.Meets (visit c) (g.SeesWithin side budget inside c) (g.Sees side ∅ c))
    (henter : ∀ p, g.Meets (enter p) (g.SeesWithin side budget (e :: inside) (g.root p))
      (g.Sees side ∅ (g.root p))) :
    g.Meets (g.visitShape side mark visit enter inside e)
      (g.SeesWithin side (budget + 1) inside e) (g.Sees side ∅ e) := by
  have hweaken : ∀ t, g.SeesWithin side (budget + 1) inside e t → g.Sees side ∅ e t :=
    fun t => SeesWithin.sees
  -- what is seen from a node that is no terminal is seen from a next node
  have hfull : (∀ t, g.shape e ≠ .terminal t) →
      ∀ t, g.Sees side ∅ e t ↔ ∃ c ∈ g.next side e, g.Sees side ∅ c t := fun hno t => by
    rw [sees_iff, or_iff_right (hno t)]
  have hlow : (∀ t, g.shape e ≠ .terminal t) → ∀ t, g.SeesWithin side (budget + 1) inside e t →
      ∃ c ∈ g.next side e, g.SeesWithin side budget (e :: inside) c t := fun hno t h =>
    h.inv.2.resolve_left (hno t)
  have hlow' : (∀ t, g.shape e ≠ .terminal t) → ∀ t, g.SeesWithin side (budget + 1) inside e t →
      ∃ c ∈ g.next side e, g.SeesWithin side budget inside c t := fun hno t h => by
    obtain ⟨c, hc, h⟩ := hlow hno t h
    exact ⟨c, hc, h.weaken fun x hx => List.mem_cons_of_mem e hx⟩
  unfold visitShape
  cases hshape : g.shape e with
  | sequence units =>
      simp only [next, hshape] at hfull hlow'
      exact (meets_unionOfLeading (side.order units) fun u _ => hvisit u).congr (hlow' nofun)
        fun t => (hfull nofun t).symm
  | choice alternatives =>
      simp only [next, hshape, List.mem_map, exists_exists_and_eq_and] at hfull hlow'
      refine (meets_unionOf (l := alternatives.map mark) fun x _ => hvisit x.value).congr
        (fun t ht => ?_) fun t => ?_
      · obtain ⟨a, ha, ht⟩ := hlow' nofun t ht
        exact ⟨mark a, List.mem_map_of_mem ha, (hmark a).symm ▸ ht⟩
      · rw [hfull nofun t]
        simp [hmark]
  | zeroOrMore body | oneOrMore body | zeroOrOne body | parentheses body =>
      simp only [next, hshape, List.mem_singleton, exists_eq_left] at hfull hlow'
      exact (hvisit body).congr (hlow' nofun) fun t => (hfull nofun t).symm
  | nonTerminal name =>
      simp only [next, hshape] at hfull hlow
      cases hp : g.productionNamed name with
      | none =>
          simp only [hp, Option.map_none, Option.toList_none, List.not_mem_nil, false_and,
            exists_const] at hfull hlow
          exact meets_of_ok (s := pure ∅) (fun m => by simp only [hp])
            (covers_empty (hlow nofun) fun _ t => (hfull nofun t).mp)
      | some p =>
          simp only [hp, Option.map_some, Option.toList_some, List.mem_singleton,
            exists_eq_left] at hfull hlow
          by_cases he : e ∈ inside
          · exact meets_of_ok (s := .fallback ∅) (fun m => by simp only [hp, if_pos he])
              (covers_empty (fun t ht => ht.inv.1 he) fun hcut => nomatch hcut)
          · simp only [hp, if_neg he]
            exact (henter p).congr (hlow nofun) fun t => (hfull nofun t).symm
  | terminal pattern =>
      have hfull : ∀ t, g.Sees side ∅ e t ↔ t = pattern := fun t => by
        rw [sees_iff, hshape]
        simp [next, hshape, eq_comm]
      cases hu : g.terminalSet pattern with
      | ok u =>
          exact meets_of_ok (s := pure u) (fun m => by simp only [hu, Except.map])
            (covers_terminalSet hu hweaken hfull)
      | error fault =>
          exact fun m => .inr ⟨pattern, fault, (hfull pattern).mpr rfl, hu,
            by simp only [hu, Except.map]⟩
  | empty kind =>
      simp only [next, hshape, List.not_mem_nil, false_and, exists_const] at hfull hlow
      exact meets_of_ok (fun _ => rfl) (covers_empty (hlow nofun) fun _ t => (hfull nofun t).mp)

/-! ### Answers from memory -/

/-- There is nothing wrong with no set at all. -/
theorem right_of_blank {m : Memory} (h : m.Blank) : g.Right m := by
  intro q s hkept
  cases q with
  | first e => rw [Memory.kept, h.first] at hkept; cases hkept
  | productionFirst p => rw [Memory.kept, h.productionFirst] at hkept; cases hkept
  | final e => cases hkept
  | productionFinal p => rw [Memory.kept, h.productionFinal] at hkept; cases hkept

/-- An answer that is kept unless it is cut leaves a memory right. -/
theorem Right.keep {m : Memory} {q : Question} (hm : g.Right m)
    (hs : g.Covers s low (g.seen q)) : g.Right (m.keep q s) := by
  intro q' r hkept
  rcases Memory.kept_keep hkept with hkept | ⟨rfl, rfl, hcut⟩
  · exact hm q' r hkept
  · exact hs.pure (.inl hcut)

/-- A question that is answered from memory, or else by a visit whose answer is kept. -/
def remembered (q : Question) (visit : Inquiry (Guarded TokenSet)) :
    Inquiry (Guarded TokenSet) := fun m =>
  match m.kept q with
  | some s => .ok (pure s, m)
  | none => do
    let (s, m) ← visit m
    return (s, m.keep q s)

/-- An answer that is kept is returned, and changes nothing. -/
theorem remembered_of_kept {q : Question} {m : Memory} {s : TokenSet}
    {visit : Inquiry (Guarded TokenSet)} (h : m.kept q = some s) :
    remembered q visit m = .ok (pure s, m) := by
  rw [remembered, h]

/-- A question that is remembered keeps the promise of the walk behind it. -/
theorem meets_remembered {q : Question} {visit : Inquiry (Guarded TokenSet)}
    (hlow : ∀ t, low t → g.seen q t) (h : g.Meets visit low (g.seen q)) :
    g.Meets (remembered q visit) low (g.seen q) := by
  intro m
  cases hkept : m.kept q with
  | some s =>
      exact .inl ⟨pure s, m, remembered_of_kept hkept, .refl m,
        fun hm => ⟨hm, (hm q s hkept).congr hlow fun _ => Iff.rfl⟩⟩
  | none =>
      rw [remembered, hkept]
      rcases h m with ⟨s, m', hs, hframe, hright⟩ | ⟨t, fault, ht, hfault, hv⟩
      · refine .inl ⟨s, m'.keep q s, ?_, hframe.trans Memory.sameFrame_keep, fun hm => ?_⟩
        · simp only [hs, bind, Except.bind, Pure.pure, Except.pure]
        · obtain ⟨hm', has⟩ := hright hm
          exact ⟨hm'.keep has, has⟩
      · refine .inr ⟨t, fault, ht, hfault, ?_⟩
        simp only [hv, bind, Except.bind]

/-! ### The walks -/

/-- The first set of a production is that of its root, remembered. -/
theorem productionFirstBy_eq (p : Nat) : g.productionFirstBy visit p =
    remembered (.productionFirst p) (visit (g.root p)) := rfl

/-- The final set of a production is that of its root, remembered. -/
theorem productionFinalBy_eq (p : Nat) : g.productionFinalBy visit p =
    remembered (.productionFinal p) (visit (g.root p)) := rfl

/-- The walk for a first set is one visit of the node, remembered. -/
theorem firstWithin_succ_eq : g.firstWithin (budget + 1) inside e =
    remembered (.first e)
      (g.visitShape .front (fun a => g.expansionTried a <$> g.ownerGuarded a)
        (g.firstWithin budget inside)
        (g.productionFirstBy (g.firstWithin budget (e :: inside))) inside e) :=
  funext (firstWithin_succ g budget inside e)

/-- The first set of a production keeps the promise of the walk from its root. -/
theorem meets_productionFirstBy {p : Nat}
    (h : g.Meets (visit (g.root p)) (g.SeesWithin .front budget inside (g.root p))
      (g.Sees .front ∅ (g.root p))) :
    g.Meets (g.productionFirstBy visit p) (g.SeesWithin .front budget inside (g.root p))
      (g.Sees .front ∅ (g.root p)) := by
  rw [productionFirstBy_eq]
  exact meets_remembered (fun _ => SeesWithin.sees) h

/-- The final set of a production keeps the promise of the walk from its root. -/
theorem meets_productionFinalBy {p : Nat}
    (h : g.Meets (visit (g.root p)) (g.SeesWithin .back budget inside (g.root p))
      (g.Sees .back ∅ (g.root p))) :
    g.Meets (g.productionFinalBy visit p) (g.SeesWithin .back budget inside (g.root p))
      (g.Sees .back ∅ (g.root p)) := by
  rw [productionFinalBy_eq]
  exact meets_remembered (fun _ => SeesWithin.sees) h

/-- A walk without a budget is cut at once. -/
theorem meets_fallback (hlow : ∀ t, ¬ low t) :
    g.Meets (fun m => .ok (.fallback ∅, m)) low full :=
  meets_of_ok (fun _ => rfl) (covers_empty hlow fun hcut => nomatch hcut)

/-- A walk at the front comes by what is seen on its budget. -/
theorem meets_firstWithin (budget : Nat) (inside : List Nat) (e : Nat) :
    g.Meets (g.firstWithin budget inside e) (g.SeesWithin .front budget inside e)
      (g.Sees .front ∅ e) := by
  induction budget generalizing inside e with
  | zero => exact meets_fallback fun t => not_seesWithin_zero
  | succ budget ih =>
      rw [firstWithin_succ_eq]
      exact meets_remembered (q := .first e) (fun _ => SeesWithin.sees)
        (meets_visitShape (fun _ => rfl) (ih inside) fun p =>
          meets_productionFirstBy (ih (e :: inside) (g.root p)))

/-- A walk at the back comes by what is seen on its budget. -/
theorem meets_finalWithin (budget : Nat) (inside : List Nat) (e : Nat) :
    g.Meets (g.finalWithin budget inside e) (g.SeesWithin .back budget inside e)
      (g.Sees .back ∅ e) := by
  induction budget generalizing inside e with
  | zero => exact meets_fallback fun t => not_seesWithin_zero
  | succ budget ih =>
      rw [finalWithin_succ]
      exact meets_visitShape (fun _ => rfl) (ih inside) fun p =>
        meets_productionFinalBy (ih (e :: inside) (g.root p))

end Grammar

end GrammarAnalysis
