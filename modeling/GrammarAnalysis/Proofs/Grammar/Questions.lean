import GrammarAnalysis.Proofs.Grammar.Literals
import GrammarAnalysis.Proofs.Grammar.Memory
import GrammarAnalysis.Proofs.Grammar.Walks

/-!
# Questions before the Analysis

A grammar can be asked for its sets of tokens at any time. A question changes no later answer, as
long as the grammar stays as it is: what is kept is what would be found again. But the analysis
gives the patterns their ordinals, and leaves what is kept alone. A set that was kept before is
given as the answer afterwards, also where the tokens are others by now. So after the analysis, the
answers are those of a grammar that was not asked before if and only if every set that was kept is
the answer of this other grammar.

## Main definitions

* `Grammar.ask`, `Grammar.reply`: the questions, and the answers to them;
* `Grammar.Queried`: the grammars that a builder makes while questions are asked;
* `Grammar.RepliesAs`: two grammars are not told apart by any series of questions.

## Main results

* `Grammar.Developed.repliesAs_of_asked`: a question changes no later answer;
* `Grammar.Queried.built`: without the questions, the builder makes the same grammar;
* `Grammar.Queried.analyze_iff`: when the questions before the analysis can be told afterwards.
-/

namespace GrammarAnalysis

namespace Grammar

open Lexicon

variable {g : Grammar}

/-! ### Questions and answers -/

/-- The walk that answers a question. -/
def walk (g : Grammar) : Question → Inquiry (Guarded TokenSet)
  | .first e => g.firstWithin g.budget [] e
  | .productionFirst p => g.productionFirstBy (g.firstWithin g.budget []) p
  | .final e => g.finalWithin g.budget [] e
  | .productionFinal p => g.productionFinalBy (g.finalWithin g.budget []) p

/-- Asks a question. -/
def ask (g : Grammar) : Question → Inquiry TokenSet
  | .first e => g.firstSet e
  | .productionFirst p => g.productionFirstSet p
  | .final e => g.finalSet e
  | .productionFinal p => g.productionFinalSet p

/-- The answer to a question. -/
def reply (g : Grammar) (q : Question) : Except Fault TokenSet := (g.ask q g.memory).map Prod.fst

/-- A question is asked of the first grammar, which adds to its memory. -/
def Asked (g g' : Grammar) : Prop :=
  ∃ q s m, g.ask q g.memory = .ok (s, m) ∧ g' = g.withMemory m

/-- The answer to a question is what the walk finds, without its cut. -/
theorem ask_eq (q : Question) (m : Memory) :
    g.ask q m = (g.walk q m).map fun answer => (answer.1.value, answer.2) := by
  cases q with
  | first e => rw [ask, walk, firstSet]; cases g.firstWithin g.budget [] e m <;> rfl
  | productionFirst p =>
      rw [ask, walk, productionFirstSet]
      cases g.productionFirstBy (g.firstWithin g.budget []) p m <;> rfl
  | final e => rw [ask, walk, finalSet]; cases g.finalWithin g.budget [] e m <;> rfl
  | productionFinal p =>
      rw [ask, walk, productionFinalSet]
      cases g.productionFinalBy (g.finalWithin g.budget []) p m <;> rfl

/-- A question goes by the memory that it is given, not by that of the grammar. -/
theorem ask_withMemory (g : Grammar) (m : Memory) : (g.withMemory m).ask = g.ask := by
  funext q m'
  rw [ask_eq, ask_eq]
  cases q with
  | first e => rw [walk, firstWithin_withMemory]; rfl
  | productionFirst p => rw [walk, firstWithin_withMemory]; rfl
  | final e => rw [walk, finalWithin_withMemory]; rfl
  | productionFinal p => rw [walk, finalWithin_withMemory]; rfl

/-- A question misses nothing. -/
theorem meets_walk (q : Question) : g.Meets (g.walk q) (g.seen q) (g.seen q) := by
  have hfull : ∀ {w : Inquiry (Guarded TokenSet)} {side : Side} {e : Nat},
      g.Meets w (g.SeesWithin side g.budget [] e) (g.Sees side ∅ e) →
        g.Meets w (g.Sees side ∅ e) (g.Sees side ∅ e) := fun h =>
    h.congr (fun _ => seesWithin_budget) fun _ => Iff.rfl
  cases q with
  | first e => exact hfull (meets_firstWithin g.budget [] e)
  | productionFirst p =>
      exact hfull (meets_productionFirstBy (meets_firstWithin g.budget [] (g.root p)))
  | final e => exact hfull (meets_finalWithin g.budget [] e)
  | productionFinal p =>
      exact hfull (meets_productionFinalBy (meets_finalWithin g.budget [] (g.root p)))

/-- A set that is kept is the answer. -/
theorem ask_of_kept {q : Question} {m : Memory} {s : TokenSet} (h : m.kept q = some s) :
    g.ask q m = .ok (s, m) := by
  have hwalk : g.walk q m = .ok (pure s, m) := by
    cases q with
    | first e =>
        obtain ⟨budget, hbudget⟩ := g.budget_pos
        rw [walk, hbudget, firstWithin_succ_eq]
        exact remembered_of_kept h
    | productionFirst p => exact remembered_of_kept h
    | final e => cases h
    | productionFinal p => exact remembered_of_kept h
  rw [ask_eq, hwalk]
  rfl

/-- What the answer to a question is, and what it adds to the memory. -/
theorem ask_spec {q : Question} {m m' : Memory} {s : TokenSet} (h : g.ask q m = .ok (s, m')) :
    m.SameFrame m' ∧ (g.Right m → g.Right m' ∧ g.Covers (pure s) (g.seen q) (g.seen q)) := by
  rw [ask_eq] at h
  rcases meets_walk (g := g) q m with ⟨r, m₁, hr, hframe, hright⟩ | ⟨t, fault, -, -, hq⟩
  · rw [hr] at h
    cases h
    exact ⟨hframe, fun hm => (hright hm).imp id fun has => has.pure (.inr rfl)⟩
  · rw [hq] at h
    cases h

/-- From memories that are right, a question is answered alike. -/
theorem ask_eq_of_right {m₁ m₂ : Memory} (h₁ : g.Right m₁) (h₂ : g.Right m₂) (q : Question) :
    (g.ask q m₁).map Prod.fst = (g.ask q m₂).map Prod.fst := by
  have hvalue : ∀ m, (g.ask q m).map Prod.fst = (g.walk q m).map (·.1.value) := fun m => by
    rw [ask_eq]
    cases g.walk q m <;> rfl
  rw [hvalue, hvalue]
  exact (meets_walk q).value_eq h₁ h₂

/-! ### Series of questions -/

/-- A series of questions adds sets to the memory of a grammar, and changes nothing else. -/
theorem asked_spec {m : Memory} {g' : Grammar}
    (h : Relation.ReflTransGen Asked (g.withMemory m) g') :
    g' = g.withMemory g'.memory ∧ m.SameFrame g'.memory ∧ (g.Right m → g.Right g'.memory) := by
  induction h with
  | refl => exact ⟨rfl, .refl m, id⟩
  | @tail g₁ _ _ hasked ih =>
      obtain ⟨heq, hframe, hright⟩ := ih
      obtain ⟨q, s, m', hask, rfl⟩ := hasked
      rw [heq, ask_withMemory] at hask
      obtain ⟨hframe', hright'⟩ := ask_spec hask
      exact ⟨by rw [heq]; rfl, hframe.trans hframe', fun hm => (hright' (hright hm)).1⟩

/-- After further questions, a right memory still gives the same answer. -/
theorem reply_of_asked {m : Memory} {g' : Grammar} (hm : g.Right m)
    (h : Relation.ReflTransGen Asked (g.withMemory m) g') (q : Question) :
    g'.reply q = (g.ask q m).map Prod.fst := by
  obtain ⟨heq, -, hright⟩ := asked_spec h
  rw [reply, heq, ask_withMemory]
  exact ask_eq_of_right (hright hm) hm q

/-- After any two series of questions, both grammars give the same answers. -/
def RepliesAs (g g' : Grammar) : Prop :=
  ∀ h h', Relation.ReflTransGen Asked g h → Relation.ReflTransGen Asked g' h' →
    ∀ q, h.reply q = h'.reply q

/-- **A question changes no later answer**, before the analysis and after it, as long as the
grammar stays as it is. -/
theorem Developed.repliesAs_of_asked {g' : Grammar} (hg : g.Developed)
    (h : Relation.ReflTransGen Asked g g') : g'.RepliesAs g := by
  intro h₁ h₂ hsteps₁ hsteps₂ q
  have hright := right_of_blank (g := g) hg.memory_blank
  rw [reply_of_asked hright (h.trans hsteps₁), reply_of_asked hright hsteps₂]

/-- A grammar with other sets in its memory gives the same answers just if these sets are the
answers of the grammar itself. -/
theorem recalling_repliesAs_iff (hg : g.Right g.memory) (m : Memory) :
    (g.recalling m).RepliesAs g ↔ ∀ q s, m.kept q = some s → g.reply q = .ok s := by
  have hkept : ∀ q, (g.recalling m).memory.kept q = m.kept q := fun q => by cases q <;> rfl
  constructor
  · intro h q s hs
    rw [← h _ _ .refl .refl q, reply, ask_of_kept ((hkept q).trans hs)]
    rfl
  · intro h
    have hright : g.Right (g.recalling m).memory := fun q s hs => by
      have hreply := h q s ((hkept q).symm.trans hs)
      rw [reply] at hreply
      cases hask : g.ask q g.memory with
      | error fault =>
          rw [hask] at hreply
          cases hreply
      | ok answer =>
          rw [hask] at hreply
          obtain rfl := Except.ok.inj hreply
          exact ((ask_spec hask).2 hg).2
    intro h₁ h₂ hsteps₁ hsteps₂ q
    rw [reply_of_asked hright hsteps₁, reply_of_asked hg hsteps₂]
    exact ask_eq_of_right hright hg q

/-! ### The analysis -/

/-- A grammar as a builder makes it, while questions are asked of what there is already. -/
def Queried (g : Grammar) : Prop :=
  ∃ options, Relation.ReflTransGen (fun g g' => BuilderStep g g' ∨ Asked g g') (.new options) g

/-- What a grammar remembers is what it was asked for. -/
theorem Queried.sameFrame (hg : g.Queried) : Memory.SameFrame {} g.memory := by
  obtain ⟨options, h⟩ := hg
  induction h with
  | refl => exact .refl _
  | tail _ hstep ih =>
      rcases hstep with hstep | hstep
      · rw [hstep.grows.memory_eq]
        exact ih
      · exact ih.trans (asked_spec (.single hstep)).2.1

/-- **Without the questions, the builder makes the same grammar**, but for what is remembered. -/
theorem Queried.built (hg : g.Queried) : (g.withMemory {}).Built := by
  obtain ⟨options, h⟩ := hg
  induction h with
  | refl => exact .new options
  | tail _ hstep ih =>
      rcases hstep with hstep | ⟨q, s, m, -, rfl⟩
      · exact ih.step (hstep.withMemory {})
      · exact ih

/-- The questions that were asked have no part in the analysis. -/
theorem Queried.analyze_eq (hg : g.Queried) : g.analyze =
    (g.withMemory {}).analyze.map fun result => (result.1, result.2.recalling g.memory) := by
  have hmarks : g.memory.leftRecursive = ∅ := congrArg Memory.leftRecursive hg.sameFrame
  have hrecalling : (g.withMemory {}).recalling g.memory = g := by
    show g.withMemory { g.memory with leftRecursive := ∅ } = g
    rw [← hmarks]
    rfl
  rw [← analyze_recalling, hrecalling]

/-- **When the questions before the analysis can be told afterwards.** Without them, the builder
makes the same grammar, and the analysis has the same outcome and the same result, but for what is
remembered. After it, the grammar that was asked gives the same answers as the one that was not
asked, if and only if every set that it has kept is the answer of the other one. -/
theorem Queried.analyze_iff (hg : g.Queried) :
    (g.withMemory {}).Built ∧
      g.analyze =
        (g.withMemory {}).analyze.map (fun result => (result.1, result.2.recalling g.memory)) ∧
      ∀ stage g', (g.withMemory {}).analyze = .ok (stage, g') →
        ((g'.recalling g.memory).RepliesAs g' ↔
          ∀ q s, g.memory.kept q = some s → g'.reply q = .ok s) := by
  refine ⟨hg.built, hg.analyze_eq, fun stage g' h => ?_⟩
  have hkeeps := keeps_analyze h
  have hblank : g'.memory.Blank :=
    ⟨hkeeps.first, hkeeps.productionFirst, hkeeps.productionFinal⟩
  exact recalling_repliesAs_iff (right_of_blank hblank) g.memory

/-- A grammar with one production: a literal, and nothing after it. -/
def literalThenNothing : Grammar :=
  { oneLiteral "x" with
    nodes := #[{ shape := .terminal 1, parent := .expansion 2 },
      { shape := .empty .plain, parent := .expansion 2 },
      { shape := .sequence [0, 1], parent := .production 0 }]
    productions := #[{ name := "P", root := 2 }] }

/-- The builder makes `literalThenNothing`. -/
theorem built_literalThenNothing : literalThenNothing.Built :=
  (drafted_oneLiteral "x").built.step (.addNode (.empty .plain) rfl)
    |>.step (.addNode (.sequence [0, 1]) rfl)
    |>.step (.addProduction "P" 2 rfl)

/-- A built grammar that was asked questions is a queried one. -/
theorem Built.queried_of_asked {g' : Grammar} (hg : g.Built) (h : g.Asked g') : g'.Queried := by
  obtain ⟨options, hsteps⟩ := hg
  exact ⟨options, (Relation.ReflTransGen.mono (fun _ _ => .inl) _ _ hsteps).tail (.inr h)⟩

/-- A grammar that was asked one question after it was built. -/
theorem analyze_of_asked {g' : Grammar} {stage : Option Stage} {m : Memory}
    (hg : g.Built) (hmemory : g.memory = {}) (h : g.Asked (g.withMemory m))
    (hanalyze : g.analyze = .ok (stage, g')) :
    (g.withMemory m).analyze = .ok (stage, g'.recalling m) := by
  have hforgotten : (g.withMemory m).withMemory {} = g := by
    rw [← hmemory]
    rfl
  rw [(hg.queried_of_asked h).analyze_eq, hforgotten, hanalyze]
  rfl

/-- A test of the analysis tells of the answer after it. -/
theorem exists_reply {q : Question} {s : TokenSet} (h : (literalThenNothing.analyze.toOption.map
    fun r => decide (r.1 = none ∧ (r.2.reply q).toOption = some s)) = some true) :
    ∃ g', literalThenNothing.analyze = .ok (none, g') ∧ g'.reply q = .ok s := by
  obtain ⟨⟨stage, g'⟩, hanalyze, rfl, hreply⟩ := exists_eq_ok_of_decide
    (P := fun r : Option Stage × Grammar => r.1 = none ∧ (r.2.reply q).toOption = some s) h
  refine ⟨g', hanalyze, ?_⟩
  cases hanswer : g'.reply q with
  | ok answer =>
      rw [hanswer] at hreply
      exact congrArg _ (Option.some.inj hreply)
  | error fault =>
      rw [hanswer] at hreply
      cases hreply

/-- A question about the empty node cannot be told: its first set is empty before and after. -/
theorem Queried.analyze_iff_empty :
    let g := literalThenNothing.withMemory { first := [(1, ∅)] }
    literalThenNothing.Asked g ∧ g.Queried ∧
      ∃ g', (g.withMemory {}).analyze = .ok (none, g') ∧
        (∀ q s, g.memory.kept q = some s → g'.reply q = .ok s) ∧
        (g'.recalling g.memory).RepliesAs g' := by
  intro g
  have hasked : literalThenNothing.Asked g := ⟨.first 1, ∅, { first := [(1, ∅)] }, rfl, rfl⟩
  have hqueried : g.Queried := built_literalThenNothing.queried_of_asked hasked
  obtain ⟨g', hanalyze, hreply⟩ := exists_reply (q := .first 1) (s := ∅) (by decide +kernel)
  have hkept : ∀ q s, g.memory.kept q = some s → g'.reply q = .ok s := fun q s hs => by
    cases q with
    | first e =>
        rw [Memory.kept, show g.memory.first = [(1, ∅)] from rfl, List.lookup_cons] at hs
        split at hs
        · rename_i he
          obtain rfl := Option.some.inj hs
          rw [beq_iff_eq.mp he]
          exact hreply
        · cases hs
    | productionFirst p | final e | productionFinal p => cases hs
  exact ⟨hasked, hqueried, g', hanalyze, hkept,
    (hqueried.analyze_iff.2.2 none g' hanalyze).mpr hkept⟩

/-- A question before the analysis that can be told afterwards. The literal has no ordinal yet, so
the first set is empty, and is kept; the token of the literal is missing in it after the analysis
too. -/
theorem analyze_stale :
    let g := literalThenNothing.withMemory { first := [(2, ∅), (0, ∅)] }
    literalThenNothing.Built ∧ literalThenNothing.Asked g ∧
      ∃ g', literalThenNothing.analyze = .ok (none, g') ∧
        g.analyze = .ok (none, g'.recalling g.memory) ∧
        (g'.recalling g.memory).reply (.first 2) = .ok ∅ ∧
        g'.reply (.first 2) = .ok (.ofToken 1) ∧ ¬ (g'.recalling g.memory).RepliesAs g' := by
  intro g
  have hasked : literalThenNothing.Asked g :=
    ⟨.first 2, ∅, { first := [(2, ∅), (0, ∅)] }, rfl, rfl⟩
  obtain ⟨g', hanalyze, hfresh⟩ :=
    exists_reply (q := .first 2) (s := .ofToken 1) (by decide +kernel)
  have hstale : (g'.recalling g.memory).reply (.first 2) = .ok ∅ := by
    rw [reply, ask_of_kept (s := ∅) rfl]
    rfl
  refine ⟨built_literalThenNothing, hasked, g', hanalyze,
    analyze_of_asked built_literalThenNothing rfl hasked hanalyze, hstale, hfresh, fun h => ?_⟩
  have hsame := h _ _ .refl .refl (.first 2)
  rw [hstale, hfresh] at hsame
  exact absurd (Except.ok.inj hsame) (by decide)

end Grammar

end GrammarAnalysis
