import GrammarAnalysis.Grammar.Checks
import GrammarAnalysis.Proofs.Grammar.Bounds

/-!
# Success without Conditions

A node that always succeeds should be able to derive the empty string in a way that nothing can
keep the parser from: no node on the way makes it fail, and no sequence on the way has a
predicate that may not hold. Such a derivation is a tree (`Grammar.Vanishes`), all of whose nodes
are unconditional.

The question asks what a sequence, a choice, parentheses and a non-terminal consist of. For a
`(...)+` it asks only that the body can be empty and is not itself a failure, but not that the
body always succeeds. So the answer is sound for a grammar just if the bodies of its `(...)+` do
not need to be asked (`Grammar.RepeatsFreely`), and the same condition makes the reports sound
that rest on the answer.

## Main definitions

* `Grammar.Vanishes`: the derivations of the empty string, by the nodes that they may use;
* `Grammar.Unconditional`: the nodes whose success depends on no condition of their own;
* `Grammar.RepeatsFreely`: the condition on the repetitions.

## Main results

* `Grammar.vanishes_iff_mem_language`: without a restriction, these are the derivations of the
  empty string;
* `Grammar.isAlwaysSuccessful_sound_iff`: for which grammars the answers and the reports are sound;
* `Grammar.isAlwaysSuccessful_guardedRepetition`: a grammar where they are not.
-/

namespace GrammarAnalysis

namespace Grammar

/-- The node derives the empty string, through nodes that are all allowed. -/
inductive Vanishes (g : Grammar) (allowed : Nat → Prop) : Nat → Prop
  | expand {e : Nat} {form : List Nat} :
      allowed e → g.Expands [] e form → (∀ c ∈ form, Vanishes g allowed c) → Vanishes g allowed e

/-- The node is not a failure, and if it is a sequence, then the lookahead that applies to it has
no predicate, neither on the state of the parser nor on the productions that it is in. -/
def Unconditional (g : Grammar) (e : Nat) : Prop :=
  g.shape e ≠ .empty .failure ∧ (g.isSequence e = true →
    ∀ lookahead, g.lookaheadOf e = some lookahead →
      lookahead.semantic = none ∧ lookahead.lookBehind = none)

/-- The body of a `(...)+`, unless it is itself a failure, can be empty without conditions if it
can be empty at all. -/
def RepeatsFreely (g : Grammar) : Prop :=
  ∀ e body, g.shape e = .oneOrMore body → g.shape body ≠ .empty .failure →
    [] ∈ g.language body → g.Vanishes g.Unconditional body

/-- The report of a loop whose body always succeeds. -/
def infiniteLoop (g : Grammar) (e : Nat) : Finding :=
  .error (.expansion e)
    s!"Expansion inside {(g.shape e).render} can be matched by the empty string, so it would produce an infinite loop!"

variable {g : Grammar} {allowed : Nat → Prop}

/-! ### Derivations of the empty string -/

/-- A node that vanishes derives the empty string. -/
theorem Vanishes.derives {e : Nat} (h : g.Vanishes allowed e) : g.Derives [] [e] [] := by
  induction h with
  | expand _ hform _ ih => exact hform.derives (derives_empty_iff.mpr ih)

/-- The nodes of a list that derives the empty string vanish. -/
theorem Derives.vanishes {es w : List Nat} (h : g.Derives [] es w) (hw : w = []) :
    ∀ e ∈ es, g.Vanishes (fun _ => True) e := by
  induction h with
  | nil => exact fun e he => absurd he List.not_mem_nil
  | terminal => cases hw
  | @expand e form rest w hform _ ih =>
      have hall := List.forall_mem_append.mp (ih hw)
      exact List.forall_mem_cons.mpr ⟨.expand trivial hform hall.1, hall.2⟩

/-- **Derivations of the empty string are trees.** Where every node is allowed, a node vanishes
just if it derives the empty string. -/
theorem vanishes_iff_mem_language {e : Nat} :
    g.Vanishes (fun _ => True) e ↔ [] ∈ g.language e :=
  ⟨Vanishes.derives, fun h => h.vanishes rfl e List.mem_cons_self⟩

/-- **How a node vanishes, by its shape.** -/
theorem vanishes_shape_iff {e : Nat} :
    g.Vanishes allowed e ↔ allowed e ∧ match g.shape e with
      | .sequence units => ∀ u ∈ units, g.Vanishes allowed u
      | .choice alternatives => ∃ a ∈ alternatives, g.Vanishes allowed a
      | .zeroOrMore _ | .zeroOrOne _ | .empty _ => True
      | .oneOrMore body | .parentheses body => g.Vanishes allowed body
      | .nonTerminal name => ∃ p, g.productionNamed name = some p ∧ g.Vanishes allowed (g.root p)
      | .terminal _ => False := by
  have hnode : g.Vanishes allowed e ↔
      allowed e ∧ ∃ form, g.Expands [] e form ∧ ∀ c ∈ form, g.Vanishes allowed c := by
    constructor
    · rintro ⟨hallowed, hform, hall⟩
      exact ⟨hallowed, _, hform, hall⟩
    · rintro ⟨hallowed, form, hform, hall⟩
      exact .expand hallowed hform hall
  rw [hnode]
  simp only [expands_iff]
  refine and_congr_right fun _ => ?_
  cases hshape : g.shape e with
  | sequence units | choice alternatives | parentheses body | terminal pattern | empty kind => simp
  | zeroOrMore body | zeroOrOne body => exact ⟨fun _ => trivial, fun _ => ⟨[], .inl rfl, by simp⟩⟩
  | oneOrMore body =>
      constructor
      · rintro ⟨form, rfl | rfl, h⟩
        · exact h body List.mem_cons_self
        · exact h body List.mem_cons_self
      · exact fun h => ⟨[body], .inl rfl, by simpa using h⟩
  | nonTerminal name =>
      constructor
      · rintro ⟨form, ⟨p, hp, -, rfl⟩, h⟩
        exact ⟨p, hp, h _ List.mem_cons_self⟩
      · rintro ⟨p, hp, h⟩
        exact ⟨_, ⟨p, hp, List.not_mem_nil, rfl⟩, by simpa using h⟩

/-! ### What the question asks at a node -/

/-- What is not a sequence has no lookahead of its own to depend on. -/
theorem unconditional_of_shape {e : Nat} (hfailure : g.shape e ≠ .empty .failure)
    (hsequence : g.isSequence e = false) : g.Unconditional e :=
  ⟨hfailure, fun h => absurd h (by simp [hsequence])⟩

/-- A node that succeeds itself has no predicate in the lookahead that applies to it. -/
theorem unconditional_of_succeedsItself {e : Nat} (hfailure : g.shape e ≠ .empty .failure)
    (h : g.succeedsItself e = true) : g.Unconditional e := by
  refine ⟨hfailure, fun _ lookahead hl => ?_⟩
  simp only [succeedsItself, hasSemanticLookahead, hasLookBehind, hl, Bool.and_eq_true,
    Option.any_some, Bool.not_eq_true', Option.isSome_eq_false_iff, Option.isNone_iff_eq_none] at h
  exact ⟨h.1.1.1.1, h.1.1.1.2⟩

/-- A node that nothing at itself can keep from matching is possibly empty. -/
theorem possiblyEmpty_of_succeedsItself {e : Nat} (h : g.succeedsItself e = true) :
    g.possiblyEmpty e = true := by
  simp only [succeedsItself, Bool.and_eq_true] at h
  exact h.1.1.2

/-- The failure is the only shape that is a failure. -/
theorem isFailure_iff {shape : Shape} : shape.isFailure = true ↔ shape = .empty .failure := by
  unfold Shape.isFailure
  split <;> simp_all

/-- No lookahead applies to a `(...)+`. -/
theorem lookaheadOf_oneOrMore {e body : Nat} (hshape : g.shape e = .oneOrMore body) :
    g.lookaheadOf e = none := by
  obtain ⟨budget, hb⟩ := g.budget_pos
  simp [lookaheadOf, lookaheadOwner, ownerGuarded, hb, ownerWithin, hshape]

/-- **What the question asks at a `(...)+`**: the body can be empty, and is not itself a failure. -/
theorem succeedsItself_oneOrMore_iff (hg : g.WellFormed) {e body : Nat}
    (hshape : g.shape e = .oneOrMore body) :
    g.succeedsItself e = true ↔ [] ∈ g.language body ∧ g.shape body ≠ .empty .failure := by
  have hempty : g.possiblyEmpty e = true ↔ [] ∈ g.language body := by
    rw [possiblyEmpty_iff hg, mem_language, ← within_zero_iff, ← within_zero_iff,
      within_shape_iff, hshape]
  rw [← hempty, Ne, ← isFailure_iff]
  simp [succeedsItself, hasSemanticLookahead, hasLookBehind, lookaheadOf_oneOrMore hshape,
    hasFailureChild, children, hshape, Shape.children]

/-! ### The answers -/

/-- **A walk finds unconditional derivations only**, where the bodies that it does not ask have
one. Each step of the walk asks what the derivation is made of, but for a `(...)+`. -/
theorem vanishes_of_successWithin (hg : g.WellFormed) (hfree : g.RepeatsFreely) {budget : Nat}
    {inside : List Nat} {e : Nat} (h : g.successWithin budget inside e = true) :
    g.Vanishes g.Unconditional e := by
  induction budget generalizing inside e with
  | zero => exact absurd h Bool.false_ne_true
  | succ budget ih =>
      rw [vanishes_shape_iff]
      rw [successWithin] at h
      cases hshape : g.shape e with
      | sequence units =>
          simp only [hshape, Bool.and_eq_true, List.all_eq_true] at h
          exact ⟨unconditional_of_succeedsItself (by simp [hshape]) h.1, fun u hu => ih (h.2 u hu)⟩
      | choice alternatives =>
          simp only [hshape, Bool.and_eq_true, List.any_eq_true] at h
          obtain ⟨hself, a, ha, hsuccess⟩ := h
          exact ⟨unconditional_of_succeedsItself (by simp [hshape]) hself, a, ha, ih hsuccess⟩
      | parentheses body =>
          simp only [hshape, Bool.and_eq_true] at h
          exact ⟨unconditional_of_succeedsItself (by simp [hshape]) h.1, ih h.2⟩
      | nonTerminal name =>
          simp only [hshape] at h
          cases hp : g.productionNamed name with
          | none => simp [hp] at h
          | some p =>
              simp only [hp] at h
              split at h
              · exact absurd h Bool.false_ne_true
              · exact ⟨unconditional_of_shape (by simp [hshape])
                  (by simp [isSequence, hshape, Shape.isSequence]), p, hp, ih h⟩
      | oneOrMore body =>
          simp only [hshape] at h
          obtain ⟨hempty, hfailure⟩ := (succeedsItself_oneOrMore_iff hg hshape).mp h
          exact ⟨unconditional_of_succeedsItself (by simp [hshape]) h,
            hfree e body hshape hfailure hempty⟩
      | zeroOrMore body | zeroOrOne body =>
          simp only [hshape] at h
          exact ⟨unconditional_of_succeedsItself (by simp [hshape]) h, trivial⟩
      | terminal pattern =>
          simp only [hshape] at h
          have hempty := (possiblyEmpty_iff hg e).mp (possiblyEmpty_of_succeedsItself h)
          rw [← within_zero_iff, within_shape_iff, hshape] at hempty
          exact absurd hempty (by simp)
      | empty kind =>
          have hfailure : kind ≠ .failure := by
            rintro rfl
            simp [hshape] at h
          exact ⟨unconditional_of_shape (by simp [hshape, hfailure])
            (by simp [isSequence, hshape, Shape.isSequence]), trivial⟩

/-- A `(...)+` always succeeds, as far as the question goes, where its body can be empty. -/
theorem isAlwaysSuccessful_oneOrMore (hg : g.WellFormed) {e body : Nat}
    (hshape : g.shape e = .oneOrMore body) (hfailure : g.shape body ≠ .empty .failure)
    (hempty : [] ∈ g.language body) : g.isAlwaysSuccessful e = true := by
  obtain ⟨budget, hb⟩ := g.budget_pos
  rw [isAlwaysSuccessful, hb, successWithin, hshape]
  exact (succeedsItself_oneOrMore_iff hg hshape).mpr ⟨hempty, hfailure⟩

/-! ### The reports -/

/-- A choice is reported for an alternative that always succeeds. -/
theorem isAlwaysSuccessful_of_mem_hiddenAlternatives {f : Finding}
    (h : f ∈ g.hiddenAlternatives) :
    ∃ a, f.subject = .expansion a ∧ g.isAlwaysSuccessful a = true := by
  obtain ⟨e, -, h⟩ := List.mem_flatMap.mp h
  split at h
  · obtain ⟨⟨a, i⟩, hmem, rfl⟩ := List.mem_map.mp h
    exact ⟨a, rfl, (List.mem_filter.mp hmem).2⟩
  · exact absurd h List.not_mem_nil

/-- The two reports of a loop differ: the one of an infinite loop is made for a body that always
succeeds. -/
theorem isAlwaysSuccessful_of_loopError? {e e' body : Nat}
    (h : g.loopError? e' body = some (g.infiniteLoop e)) :
    e' = e ∧ g.isAlwaysSuccessful body = true := by
  rw [loopError?] at h
  split at h
  · simp only [infiniteLoop, Finding.error, Option.some.injEq, Finding.mk.injEq,
      Subject.expansion.injEq, Message.error.injEq] at h
    obtain ⟨rfl, htext⟩ := h
    rw [String.append_right_inj] at htext
    exact absurd htext (by decide)
  · split at h
    · simp only [infiniteLoop, Finding.error, Option.some.injEq, Finding.mk.injEq,
        Subject.expansion.injEq] at h
      exact ⟨h.1, ‹_›⟩
    · cases h

/-- The reports of options are warnings. -/
theorem optionWarning?_ne_infiniteLoop {e e' body : Nat} :
    g.optionWarning? e' body ≠ some (g.infiniteLoop e) := by
  intro h
  rw [optionWarning?] at h
  split at h
  · simp [infiniteLoop, Finding.error, Finding.warning] at h
  · split at h
    · simp [infiniteLoop, Finding.error, Finding.warning] at h
    · cases h

/-- A loop is reported as infinite for a body that always succeeds. -/
theorem isAlwaysSuccessful_of_infiniteLoop_mem {e : Nat} (h : g.infiniteLoop e ∈ g.emptyLoops) :
    ∃ body, (g.shape e = .zeroOrMore body ∨ g.shape e = .oneOrMore body) ∧
      g.isAlwaysSuccessful body = true := by
  rcases List.mem_append.mp h with h | h
  · obtain ⟨e', -, h⟩ := List.mem_filterMap.mp h
    split at h
    · rename_i body hshape
      obtain ⟨rfl, hsuccess⟩ := isAlwaysSuccessful_of_loopError? h
      exact ⟨body, .inl hshape, hsuccess⟩
    · rename_i body hshape
      obtain ⟨rfl, hsuccess⟩ := isAlwaysSuccessful_of_loopError? h
      exact ⟨body, .inr hshape, hsuccess⟩
    · cases h
  · obtain ⟨e', -, h⟩ := List.mem_filterMap.mp h
    split at h
    · exact absurd h optionWarning?_ne_infiniteLoop
    · cases h

/-- **For which grammars the answers are sound.** An answer that a node always succeeds means that
the node derives the empty string without conditions, an alternative that is reported as hiding
others does so, and so does the body of a loop that is reported as infinite: all this is true of a
grammar just if each `(...)+` with a body that can be empty, other than a failure, has a body that
can be so without conditions. -/
theorem isAlwaysSuccessful_sound_iff (hg : g.Developed) :
    ((∀ e, g.isAlwaysSuccessful e = true → g.Vanishes g.Unconditional e) ∧
      (∀ f ∈ g.hiddenAlternatives, ∃ a, f.subject = .expansion a ∧
        g.Vanishes g.Unconditional a) ∧
      (∀ e, g.infiniteLoop e ∈ g.emptyLoops → ∃ body,
        (g.shape e = .zeroOrMore body ∨ g.shape e = .oneOrMore body) ∧
          g.Vanishes g.Unconditional body)) ↔
    g.RepeatsFreely := by
  constructor
  · rintro ⟨hsound, -, -⟩ e body hshape hfailure hempty
    have hvanishes := hsound e (isAlwaysSuccessful_oneOrMore hg.wellFormed hshape hfailure hempty)
    rw [vanishes_shape_iff, hshape] at hvanishes
    exact hvanishes.2
  · intro hfree
    have hsound : ∀ e, g.isAlwaysSuccessful e = true → g.Vanishes g.Unconditional e :=
      fun _ => vanishes_of_successWithin hg.wellFormed hfree
    refine ⟨hsound, fun f hf => ?_, fun e he => ?_⟩
    · obtain ⟨a, hsubject, ha⟩ := isAlwaysSuccessful_of_mem_hiddenAlternatives hf
      exact ⟨a, hsubject, hsound a ha⟩
    · obtain ⟨body, hshape, hbody⟩ := isAlwaysSuccessful_of_infiniteLoop_mem he
      exact ⟨body, hshape, hsound body hbody⟩

/-- In two pairs, the `(...)+` repeats a code block, which is empty without conditions. -/
theorem isAlwaysSuccessful_sound_iff_twoPairs :
    twoPairs.Developed ∧ twoPairs.RepeatsFreely ∧ twoPairs.isAlwaysSuccessful 3 = true ∧
    (((∀ e, twoPairs.isAlwaysSuccessful e = true → twoPairs.Vanishes twoPairs.Unconditional e) ∧
      (∀ f ∈ twoPairs.hiddenAlternatives, ∃ a, f.subject = .expansion a ∧
        twoPairs.Vanishes twoPairs.Unconditional a) ∧
      (∀ e, twoPairs.infiniteLoop e ∈ twoPairs.emptyLoops → ∃ body,
        (twoPairs.shape e = .zeroOrMore body ∨ twoPairs.shape e = .oneOrMore body) ∧
          twoPairs.Vanishes twoPairs.Unconditional body)) ↔
    twoPairs.RepeatsFreely) := by
  have hcode : twoPairs.Vanishes twoPairs.Unconditional 2 :=
    vanishes_shape_iff.mpr ⟨unconditional_of_shape (by decide) rfl, trivial⟩
  refine ⟨twoPairs_developed, ?_, by decide, isAlwaysSuccessful_sound_iff twoPairs_developed⟩
  exact fun
    | 3, _, h, _, _ => by cases h; exact hcode
    | 0, _, h, _, _ | 1, _, h, _, _ | 2, _, h, _, _ | 4, _, h, _, _ | 5, _, h, _, _
    | 6, _, h, _, _ | _ + 7, _, h, _, _ => nomatch h

/-! ### A repetition of a condition -/

/-- A `(...)+` and a token: `( {check()}? (a)? )+ | a`. The body of the `(...)+` can be empty, but
it is not entered if the predicate does not hold. -/
def guardedRepetition : Grammar :=
  { Grammar.new {} with
    nodes := #[{ shape := .terminal 0, parent := .expansion 1 },
      { shape := .zeroOrOne 0, parent := .expansion 2 },
      { shape := .sequence [1], parent := .expansion 3,
        lookahead := some { semantic := some "check()" } },
      { shape := .oneOrMore 2, parent := .expansion 5 },
      { shape := .terminal 0, parent := .expansion 5 },
      { shape := .choice [3, 4], parent := .production 0 }]
    productions := #[{ name := "P", root := 5 }] }

/-- The builder makes `guardedRepetition`. -/
theorem guardedRepetition_built : guardedRepetition.Built :=
  (Built.new {}).step (.addNode (.terminal 0) rfl)
    |>.step (.addNode (.zeroOrOne 0) rfl)
    |>.step (.addNode (.sequence [1]) rfl)
    |>.step (@BuilderStep.setLookahead _ _ 2 { semantic := some "check()" } rfl)
    |>.step (.addNode (.oneOrMore 2) rfl)
    |>.step (.addNode (.terminal 0) rfl)
    |>.step (.addNode (.choice [3, 4]) rfl)
    |>.step (.addProduction "P" 5 rfl)

/-- **A success that depends on a condition.** The `(...)+` is taken to succeed always, and so the
token after it is reported as hidden; but there is no derivation of the empty string without the
sequence that has the predicate. -/
theorem isAlwaysSuccessful_guardedRepetition :
    guardedRepetition.Developed ∧
      (∀ e name, guardedRepetition.shape e = .nonTerminal name →
        ∃ p, guardedRepetition.productionNamed name = some p) ∧
      guardedRepetition.isAlwaysSuccessful 3 = true ∧
      guardedRepetition.hiddenAlternatives = [.error (.expansion 3)
        "This expansion can match the empty string. The expansion that follows can never be matched."] ∧
      ¬ guardedRepetition.Vanishes guardedRepetition.Unconditional 3 := by
  refine ⟨guardedRepetition_built.developed, ?_, by decide, by decide, fun h => ?_⟩
  · exact fun
      | 0, _, h | 1, _, h | 2, _, h | 3, _, h | 4, _, h | 5, _, h | _ + 6, _, h => nomatch h
  · have hbody : guardedRepetition.Vanishes guardedRepetition.Unconditional 2 :=
      (vanishes_shape_iff.mp h).2
    obtain ⟨⟨-, hsequence⟩, -⟩ := vanishes_shape_iff.mp hbody
    exact nomatch (hsequence rfl { semantic := some "check()" } rfl).1

end Grammar

end GrammarAnalysis
