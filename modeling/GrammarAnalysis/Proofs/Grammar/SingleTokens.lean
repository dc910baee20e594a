import GrammarAnalysis.Grammar.Effects
import GrammarAnalysis.Proofs.Grammar.Bounds
import Mathlib.Logic.Relation

/-!
# Single Tokens

An expansion that is taken for a single token should match exactly one token whenever it matches,
and nothing that the parser goes through on the way should *intrude*: fail, activate tokens, or
run a code block while the parser looks ahead.

The first half is a matter of sizes, which are exact. For the second half, the question looks at
the nodes below the expansion, and where the expansion is itself a non-terminal, below the root
of its production. A non-terminal further down is not entered. So the answer is right for an
expansion just if the non-terminals inside of it lead to nothing that intrudes.

## Main definitions

* `Grammar.Reaches`: through operands, and through non-terminals into their productions;
* `Grammar.Intrudes`: the nodes that a single token must not reach;
* `Grammar.Inner`: the non-terminals that the question does not enter.

## Main results

* `Grammar.length_eq_one_of_isSingleToken`: a single token derives strings of one token;
* `Grammar.isSingleToken_sound_iff`: when it reaches nothing that intrudes;
* `Grammar.isSingleToken_hiddenFailure`: a single token that reaches a failure.
-/

namespace GrammarAnalysis

open Relation

namespace Grammar

/-- One node leads to another: to its operands, and as a non-terminal to the root of its
production. -/
def Leads (g : Grammar) (e d : Nat) : Prop := d ∈ g.children e ∨ g.referredRoot e = some d

/-- A node is reached through operands, and through non-terminals into their productions. -/
def Reaches (g : Grammar) : Nat → Nat → Prop := ReflTransGen g.Leads

/-- A node is reached through operands alone, in at least one step. -/
def Encloses (g : Grammar) : Nat → Nat → Prop := TransGen fun e c => c ∈ g.children e

/-- What a node stands for: a non-terminal stands for the root of its production, and for what
that root stands for. -/
def StandsFor (g : Grammar) : Nat → Nat → Prop := ReflTransGen fun e r => g.referredRoot e = some r

/-- The node makes the parser fail, activates tokens, or is a code block that also runs while the
parser looks ahead. -/
def Intrudes (g : Grammar) (e : Nat) : Prop :=
  (g.shape e).isFailure = true ∨ (g.shape e).isActivation = true ∨
    (g.shape e).isLookaheadCode = true

/-- A non-terminal inside of what the node stands for. -/
def Inner (g : Grammar) (e n : Nat) : Prop :=
  (g.shape n).isNonTerminal = true ∧ ∃ r, g.StandsFor e r ∧ g.Encloses r n

variable {g : Grammar} {e d r : Nat}

/-! ### What the question asks at a node -/

/-- The nodes below a node are found by a walk that has a step left for each of them. -/
theorem Encloses.mem_descendantsWithin (hg : g.WellFormed) {budget : Nat} (h : g.Encloses e d)
    (he : e < budget) : d ∈ g.descendantsWithin budget e := by
  induction h using TransGen.head_induction_on generalizing budget with
  | @single e hd =>
      obtain ⟨budget, rfl⟩ := Nat.exists_eq_add_one_of_ne_zero (Nat.ne_zero_of_lt he)
      rw [descendantsWithin, List.mem_flatMap]
      exact ⟨d, List.mem_append_right _ hd, List.mem_cons_self⟩
  | @head e c hc _ ih =>
      obtain ⟨budget, rfl⟩ := Nat.exists_eq_add_one_of_ne_zero (Nat.ne_zero_of_lt he)
      have hlt := hg.child_lt e c hc
      rw [descendantsWithin, List.mem_flatMap]
      exact ⟨c, List.mem_append_right _ hc, List.mem_cons_of_mem c (ih (by omega))⟩

/-- What a node encloses is among its descendants. -/
theorem Encloses.mem_descendants (hg : g.WellFormed) (h : g.Encloses e d) :
    d ∈ g.descendants e := by
  obtain ⟨c, hc, -⟩ := TransGen.head'_iff.mp h
  have he : e < g.size := by
    by_contra hsize
    rw [children_of_size_le (Nat.le_of_not_lt hsize)] at hc
    exact absurd hc List.not_mem_nil
  exact h.mem_descendantsWithin hg (Nat.lt_succ_of_lt he)

/-- What is asked at a node that comes to a single token: its size, and what is below it. -/
structure Simple (g : Grammar) (e : Nat) : Prop where
  never_empty : g.possiblyEmpty e = false
  size_le : g.maximumSize e ≤ 1
  below : ∀ d ∈ g.descendants e, ¬ g.Intrudes d

/-- A node that passes the test for a simple token is simple. -/
theorem simple_of_isSimpleToken (h : g.isSimpleToken e = true) : g.Simple e := by
  simp only [isSimpleToken, hasLookaheadCode, Bool.and_eq_true, Bool.not_eq_true',
    decide_eq_true_eq, List.any_eq_false, Bool.or_eq_true, not_or] at h
  obtain ⟨⟨⟨⟨⟨⟨⟨hempty, hsize⟩, -⟩, -⟩, -⟩, hbelow, -⟩, -⟩, hcode⟩ := h
  refine ⟨hempty, hsize, fun d hd => ?_⟩
  rintro (hfailure | hactivation | hlookahead)
  · exact (hbelow d hd).1 hfailure
  · exact (hbelow d hd).2 hactivation
  · exact hcode d hd hlookahead

/-- A simple node does not derive the empty string. -/
theorem Simple.nil_notMem (hg : g.WellFormed) (h : g.Simple e) : [] ∉ g.language e := fun hmem => by
  rw [mem_language, ← possiblyEmpty_iff hg, h.never_empty] at hmem
  exact Bool.false_ne_true hmem

/-- A node that cannot be empty does not intrude: all that does is empty. -/
theorem Simple.not_intrudes (hg : g.WellFormed) (h : g.Simple e) : ¬ g.Intrudes e := by
  intro hintrudes
  rw [Intrudes] at hintrudes
  cases hshape : g.shape e with
  | empty kind => exact h.nil_notMem hg ((Expands.empty hshape).derives .nil)
  | _ => simp [hshape, Shape.isFailure, Shape.isActivation, Shape.isLookaheadCode] at hintrudes

/-- The non-terminal of an undefined production has no bounded size. -/
theorem Simple.exists_productionNamed (h : g.Simple e) {name : String}
    (hshape : g.shape e = .nonTerminal name) : ∃ p, g.productionNamed name = some p := by
  cases hp : g.productionNamed name with
  | some p => exact ⟨p, rfl⟩
  | none =>
      obtain ⟨budget, hb⟩ := g.budget_pos
      have hsize := h.size_le
      rw [maximumSize, maximumGuarded, hb, maximumWithin, hshape] at hsize
      simp only [hp, Guarded.value_pure] at hsize
      exact absurd hsize (by decide)

/-! ### Through non-terminals -/

/-- A non-terminal refers to the root of its production. -/
theorem referredRoot_nonTerminal {name : String} {p : Nat}
    (hshape : g.shape e = .nonTerminal name) (hp : g.productionNamed name = some p) :
    g.referredRoot e = some (g.root p) := by
  simp [referredRoot, referredProduction, hshape, hp]

/-- **Where the walk comes to.** It goes from non-terminals to the roots of their productions, up
to a node that is none, and asks each of them. -/
theorem exists_standsFor_of_singleTokenWithin {budget : Nat} {inside : List Nat}
    (h : g.singleTokenWithin budget inside e = true) :
    ∃ r, g.StandsFor e r ∧ (g.shape r).isNonTerminal = false ∧ g.Simple r := by
  induction budget generalizing inside e with
  | zero => exact absurd h Bool.false_ne_true
  | succ budget ih =>
      rw [singleTokenWithin, Bool.and_eq_true] at h
      obtain ⟨hsimple, hnext⟩ := h
      have hsimple := simple_of_isSimpleToken hsimple
      cases hshape : g.shape e with
      | nonTerminal name =>
          obtain ⟨p, hp⟩ := hsimple.exists_productionNamed hshape
          simp only [hshape, hp] at hnext
          split at hnext
          · exact absurd hnext Bool.false_ne_true
          · obtain ⟨r, hr, hnone, hsimple⟩ := ih hnext
            exact ⟨r, .head (referredRoot_nonTerminal hshape hp) hr, hnone, hsimple⟩
      | _ => exact ⟨e, .refl, by rw [hshape]; rfl, hsimple⟩

/-- A non-terminal has no operands, so what it leads to is the root of its production. -/
theorem Leads.eq_of_referredRoot (h : g.Leads e d) (hr : g.referredRoot e = some r) : d = r := by
  rcases h with hd | hd
  · cases hshape : g.shape e with
    | nonTerminal name => simp [children, hshape, Shape.children] at hd
    | _ => simp [referredRoot, referredProduction, hshape] at hr
  · exact Option.some.inj (hd.symm.trans hr)

/-- **What a node stands for is on every way.** A node that is reached is a non-terminal on the
way to it, or reached from it. -/
theorem Reaches.of_standsFor (h : g.Reaches e d) (hr : g.StandsFor e r) :
    (g.shape d).isNonTerminal = true ∨ g.Reaches r d := by
  induction hr using ReflTransGen.head_induction_on with
  | refl => exact .inr h
  | @head e x hx _ ih =>
      rcases ReflTransGen.cases_head h with rfl | ⟨y, hy, hrest⟩
      · refine .inl ?_
        cases hshape : g.shape e with
        | nonTerminal name => rfl
        | _ => simp [referredRoot, referredProduction, hshape] at hx
      · rw [hy.eq_of_referredRoot hx] at hrest
        exact ih hrest

/-- A node that is reached is inside of the start, or is reached from a non-terminal inside of
it, unless the start is a non-terminal. -/
theorem Reaches.encloses_or (h : g.Reaches r d) (hr : (g.shape r).isNonTerminal = false) :
    d = r ∨ g.Encloses r d ∨
      ∃ n, (g.shape n).isNonTerminal = true ∧ g.Encloses r n ∧ g.Reaches n d := by
  induction h with
  | refl => exact .inl rfl
  | @tail x d hx hstep ih =>
      have hentered : g.referredRoot x = some d → (g.shape x).isNonTerminal = true := by
        intro hroot
        cases hshape : g.shape x with
        | nonTerminal name => rfl
        | _ => simp [referredRoot, referredProduction, hshape] at hroot
      rcases ih with rfl | hbelow | ⟨n, hn, hin, hreach⟩
      · rcases hstep with hchild | hroot
        · exact .inr (.inl (.single hchild))
        · rw [hentered hroot] at hr
          cases hr
      · rcases hstep with hchild | hroot
        · exact .inr (.inl (.tail hbelow hchild))
        · exact .inr (.inr ⟨x, hentered hroot, hbelow, .single (.inr hroot)⟩)
      · exact .inr (.inr ⟨n, hn, hin, .tail hreach hstep⟩)

/-- A node reaches what it stands for. -/
theorem StandsFor.reaches (h : g.StandsFor e r) : g.Reaches e r :=
  ReflTransGen.mono (fun _ _ => .inr) _ _ h

/-- A node reaches what it encloses. -/
theorem Encloses.reaches (h : g.Encloses r d) : g.Reaches r d :=
  ReflTransGen.mono (fun _ _ => .inl) _ _ h.to_reflTransGen

/-- A non-terminal itself does not intrude. -/
theorem not_intrudes_of_isNonTerminal (h : (g.shape d).isNonTerminal = true) :
    ¬ g.Intrudes d := by
  rw [Intrudes]
  cases hshape : g.shape d with
  | nonTerminal name => simp [Shape.isFailure, Shape.isActivation, Shape.isLookaheadCode]
  | _ => simp [hshape, Shape.isNonTerminal] at h

/-! ### The answers -/

/-- A single token derives strings of one token only. -/
theorem length_eq_one_of_isSingleToken (hg : g.WellFormed) (h : g.isSingleToken e = true) :
    ∀ w ∈ g.language e, w.length = 1 := by
  obtain ⟨budget, hb⟩ := g.budget_pos
  rw [isSingleToken, hb, singleTokenWithin, Bool.and_eq_true] at h
  have hsimple := simple_of_isSimpleToken h.1
  intro w hw
  have hbounded : g.maximumSize e < unbounded :=
    Nat.lt_of_le_of_lt hsimple.size_le (by decide)
  have hle := Nat.le_trans ((g.tops_maximumSize e).length_le hbounded w hw) hsimple.size_le
  have hne : w ≠ [] := fun hnil => hsimple.nil_notMem hg (hnil ▸ hw)
  have hpos := List.length_pos_iff.mpr hne
  omega

/-- **What a single token is.** It derives strings of exactly one token. It reaches nothing that
intrudes just if the non-terminals inside of what it stands for do not: all other nodes that it
reaches have been looked at. -/
theorem isSingleToken_sound_iff (hg : g.Developed) (h : g.isSingleToken e = true) :
    (∀ w ∈ g.language e, w.length = 1) ∧
    ((∀ d, g.Reaches e d → ¬ g.Intrudes d) ↔
      ∀ n, g.Inner e n → ∀ d, g.Reaches n d → ¬ g.Intrudes d) := by
  refine ⟨length_eq_one_of_isSingleToken hg.wellFormed h, fun hsound n hn d hd => ?_,
    fun hinner d hd => ?_⟩
  · obtain ⟨-, r, hr, hin⟩ := hn
    exact hsound d (hr.reaches.trans (hin.reaches.trans hd))
  · obtain ⟨r, hr, hnone, hsimple⟩ := exists_standsFor_of_singleTokenWithin h
    rcases hd.of_standsFor hr with hd | hd
    · exact not_intrudes_of_isNonTerminal hd
    · rcases hd.encloses_or hnone with rfl | hbelow | ⟨n, hn, hin, hreach⟩
      · exact hsimple.not_intrudes hg.wellFormed
      · exact hsimple.below d (hbelow.mem_descendants hg.wellFormed)
      · exact hinner n ⟨hn, r, hr, hin⟩ d hreach

/-- A letter in parentheses, and a letter is one of two tokens. -/
def letterInParentheses : Grammar :=
  { Grammar.new {} with
    nodes := #[{ shape := .terminal 0, parent := .expansion 2 },
      { shape := .terminal 1, parent := .expansion 2 },
      { shape := .choice [0, 1], parent := .production 0 },
      { shape := .nonTerminal "Letter", parent := .expansion 4 },
      { shape := .parentheses 3 }]
    productions := #[{ name := "Letter", root := 2 }] }

/-- The builder makes `letterInParentheses`. -/
theorem letterInParentheses_developed : letterInParentheses.Developed :=
  Built.developed <| (Built.new {}).step (.addNode (.terminal 0) rfl)
    |>.step (.addNode (.terminal 1) rfl)
    |>.step (.addNode (.choice [0, 1]) rfl)
    |>.step (.addProduction "Letter" 2 rfl)
    |>.step (.addNode (.nonTerminal "Letter") rfl)
    |>.step (.addNode (.parentheses 3) rfl)

/-- The parentheses are a single token, with a non-terminal inside. -/
theorem isSingleToken_sound_iff_letterInParentheses :
    letterInParentheses.Developed ∧ letterInParentheses.isSingleToken 4 = true ∧
    letterInParentheses.Inner 4 3 ∧
    (∀ w ∈ letterInParentheses.language 4, w.length = 1) ∧
    ((∀ d, letterInParentheses.Reaches 4 d → ¬ letterInParentheses.Intrudes d) ↔
      ∀ n, letterInParentheses.Inner 4 n →
        ∀ d, letterInParentheses.Reaches n d → ¬ letterInParentheses.Intrudes d) :=
  have hsingle : letterInParentheses.isSingleToken 4 = true := by decide +kernel
  ⟨letterInParentheses_developed, hsingle, ⟨rfl, 4, .refl, .single List.mem_cons_self⟩,
    isSingleToken_sound_iff letterInParentheses_developed hsingle⟩

/-! ### A failure behind a non-terminal -/

/-- A production that fails before its token, and parentheses around it: `A : FAIL x` and
`P : ( A )`. -/
def hiddenFailure : Grammar :=
  { Grammar.new {} with
    nodes := #[{ shape := .empty .failure, parent := .expansion 2 },
      { shape := .terminal 0, parent := .expansion 2 },
      { shape := .sequence [0, 1], parent := .production 0 },
      { shape := .nonTerminal "A", parent := .expansion 4 },
      { shape := .parentheses 3, parent := .production 1 }]
    productions := #[{ name := "A", root := 2 }, { name := "P", root := 4 }] }

/-- The builder makes `hiddenFailure`. -/
theorem hiddenFailure_built : hiddenFailure.Built :=
  (Built.new {}).step (.addNode (.empty .failure) rfl)
    |>.step (.addNode (.terminal 0) rfl)
    |>.step (.addNode (.sequence [0, 1]) rfl)
    |>.step (.addProduction "A" 2 rfl)
    |>.step (.addNode (.nonTerminal "A") rfl)
    |>.step (.addNode (.parentheses 3) rfl)
    |>.step (.addProduction "P" 4 rfl)

/-- **A single token that reaches a failure.** The non-terminal is no single token, because it
leads to a failure. In parentheses it is taken for one. -/
theorem isSingleToken_hiddenFailure :
    hiddenFailure.Developed ∧
      (∀ e name, hiddenFailure.shape e = .nonTerminal name →
        ∃ p, hiddenFailure.productionNamed name = some p) ∧
      hiddenFailure.isSingleToken 3 = false ∧
      hiddenFailure.isSingleToken 4 = true ∧
      hiddenFailure.Reaches 4 0 ∧ (hiddenFailure.shape 0).isFailure = true := by
  refine ⟨hiddenFailure_built.developed, ?_, by decide +kernel, by decide +kernel, ?_, rfl⟩
  · exact fun
      | 3, _, h => by cases h; exact ⟨0, by decide⟩
      | 0, _, h | 1, _, h | 2, _, h | 4, _, h | _ + 5, _, h => nomatch h
  · have hparentheses : hiddenFailure.Leads 4 3 := .inl List.mem_cons_self
    have hroot : hiddenFailure.Leads 3 2 := .inr (by decide)
    have hfailure : hiddenFailure.Leads 2 0 := .inl List.mem_cons_self
    exact .head hparentheses (.head hroot (.single hfailure))

end Grammar

end GrammarAnalysis
