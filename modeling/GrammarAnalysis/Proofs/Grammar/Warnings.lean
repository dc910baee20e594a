import GrammarAnalysis.Proofs.Grammar.Terminals
import GrammarAnalysis.Proofs.Lexicon.Warnings

/-!
# Warnings about Choices of Tokens

The checks of a grammar report only errors about patterns. So if an analysis ends without an error,
the warnings about patterns in the log are those of the lexer: each says that a choice never matches
as a token that one of its alternatives refers to.

## Main definitions

* `Grammar.Unwarned`: no warning about a pattern is in the log.

## Main results

* `Grammar.Built.log_eq`: nothing is recorded while a grammar is built;
* `Grammar.analyze_unmatchable_iff`: the warnings of an analysis, and which of them are right;
* `Grammar.analyze_unmatchable_twoStates`: two warnings that are not.
-/

namespace GrammarAnalysis

namespace Grammar

open Lexicon

variable {g g' : Grammar} {id y : Nat} {name text : String}

/-! ### Building a grammar -/

/-- Changing an entry changes the lexical part only. -/
theorem modifyEntry_eq {pattern : Nat} {f : TokenEntry → TokenEntry}
    (h : g.modifyEntry pattern f = .ok g') : ∃ L, g' = { g with lexicon := L } := by
  rw [modifyEntry] at h
  split at h
  · cases h
  · split at h <;> exact ⟨_, (Except.ok.inj h).symm⟩

/-- A step of the builder records nothing. -/
theorem BuilderStep.log_eq (h : BuilderStep g g') : g'.log = g.log := by
  cases h with
  | addLexicalState | addTokenProduction | addExtraToken => rfl
  | addEntry h =>
      obtain ⟨L, -, rfl⟩ := draftsLexicon_addEntry h
      rfl
  | setNextState h | setAction h =>
      obtain ⟨L, rfl⟩ := modifyEntry_eq h
      rfl
  | addNode shape h =>
      obtain ⟨-, nodes, rfl⟩ := addNode_eq h
      rfl
  | addLiteral image h =>
      obtain ⟨pattern, L, nodes, -, -, rfl⟩ := addLiteral_cases h
      rfl
  | addTokenReference h =>
      rw [Grammar.addTokenReference] at h
      obtain ⟨-, nodes, rfl⟩ := addNode_eq h
      rfl
  | setLookahead h =>
      obtain ⟨nodes, rfl⟩ := setLookahead_eq h
      rfl
  | setScanLimit h | setTolerant h | setLexicalState h | setNodeLabel h =>
      obtain ⟨-, h⟩ := bind_require h
      exact (Except.ok.inj h) ▸ rfl
  | addProduction name root h =>
      obtain ⟨-, h⟩ := bind_require h
      obtain ⟨-, rfl⟩ := Prod.mk.inj (Except.ok.inj h)
      rfl
  | @setPosition _ subject position h =>
      cases subject with
      | grammar | lexicalState _ => exact (Except.ok.inj h) ▸ rfl
      | production _ | expansion _ | regex _ | entry _ _ =>
          obtain ⟨-, h⟩ := bind_require h
          exact (Except.ok.inj h) ▸ rfl

/-- Nothing is recorded while a grammar is built. -/
theorem Built.log_eq (h : g.Built) : g.log = {} := by
  obtain ⟨options, h⟩ := h
  induction h with
  | refl => rfl
  | tail _ hstep ih => exact hstep.log_eq.trans ih

/-! ### The checks -/

/-- No warning about a pattern is in the log. -/
def Unwarned (g : Grammar) : Prop := ∀ id text, ⟨.warning text, some (.regex id)⟩ ∉ g.log.entries

/-- A finding that is no warning about a pattern. -/
def Plain (f : Finding) : Prop := ∀ id text, f ≠ .warning (.regex id) text

/-- An error is no warning about a pattern. -/
theorem plain_error (subject : Subject) (text : String) : Plain (.error subject text) :=
  fun _ _ h => nomatch h

/-- Recording plain findings adds no warning about a pattern. -/
theorem Unwarned.record (h : g.Unwarned) {findings : List Finding}
    (hplain : ∀ f ∈ findings, Plain f) : (g.record findings).Unwarned := by
  intro id text hmem
  have hadd : ∀ (log : Log) (f : Finding) entry,
      entry ∈ (log.add f.message (some f.subject)).entries ↔ entry ∈ log.entries ∨
        entry = ⟨f.message, if f.message.isNote then none else some f.subject⟩ :=
    fun _ _ _ => Log.mem_entries_add
  rcases (Log.mem_entries_foldl hadd findings g.log).mp hmem with hmem | ⟨f, hf, heq⟩
  · exact h id text hmem
  · obtain ⟨subject, message⟩ := f
    obtain ⟨rfl, hsubject⟩ := LogEntry.mk.inj heq
    obtain rfl := Option.some.inj hsubject
    exact hplain _ hf id text rfl

/-- Recording an error adds no warning about a pattern. -/
theorem Unwarned.recordError (h : g.Unwarned) (subject : Subject) (text : String) :
    (g.record [.error subject text]).Unwarned :=
  h.record fun f hf => by
    rw [List.mem_singleton.mp hf]
    exact plain_error subject text

/-- The findings about misplaced lookaheads are plain. -/
theorem plain_of_mem_misplacedLookaheads {f : Finding} (hf : f ∈ g.misplacedLookaheads) :
    Plain f := by
  rcases List.mem_append.mp hf with hf | hf <;>
    obtain ⟨e, -, rfl⟩ := List.mem_map.mp hf <;> exact plain_error _ _

/-- The finding about an undefined lexical state is plain. -/
theorem plain_of_undefinedState? {subject : Subject} {f : Finding}
    (hf : g.undefinedState? subject name = some f) : Plain f := by
  rw [undefinedState?] at hf
  split at hf
  · obtain rfl := Option.some.inj hf
    exact plain_error _ _
  · cases hf

/-- The findings about lexical states and left recursion are plain. -/
theorem plain_of_mem_lexicalStateFindings {f : Finding} (hf : f ∈ g.lexicalStateFindings) :
    Plain f := by
  rcases List.mem_append.mp hf with hf | hf
  · obtain ⟨p, -, hf⟩ := List.mem_flatMap.mp hf
    rw [productionFindings] at hf
    rcases List.mem_append.mp hf with hf | hf
    · obtain ⟨name, -, hf⟩ := Option.bind_eq_some_iff.mp (Option.mem_toList.mp hf)
      exact plain_of_undefinedState? hf
    · have hf := Option.mem_toList.mp hf
      split at hf
      · obtain rfl := Option.some.inj hf
        exact fun _ _ h => nomatch h
      · cases hf
  · obtain ⟨e, -, hf⟩ := List.mem_filterMap.mp hf
    obtain ⟨name, -, hf⟩ := Option.bind_eq_some_iff.mp hf
    exact plain_of_undefinedState? hf

/-- The findings about alternatives that are never tried are plain. -/
theorem plain_of_mem_hiddenAlternatives {f : Finding} (hf : f ∈ g.hiddenAlternatives) :
    Plain f := by
  obtain ⟨e, -, hf⟩ := List.mem_flatMap.mp hf
  split at hf
  · obtain ⟨⟨a, i⟩, -, rfl⟩ := List.mem_map.mp hf
    exact plain_error _ _
  · exact absurd hf List.not_mem_nil

/-- The finding about a loop is plain. -/
theorem plain_of_loopError? {e body : Nat} {f : Finding} (hf : g.loopError? e body = some f) :
    Plain f := by
  rw [loopError?] at hf
  split at hf
  · exact Option.some.inj hf ▸ plain_error _ _
  · split at hf
    · exact Option.some.inj hf ▸ plain_error _ _
    · cases hf

/-- The finding about an option is a warning, but not about a pattern. -/
theorem plain_of_optionWarning? {e body : Nat} {f : Finding}
    (hf : g.optionWarning? e body = some f) : Plain f := by
  rw [optionWarning?] at hf
  split at hf
  · exact Option.some.inj hf ▸ fun _ _ h => nomatch h
  · split at hf
    · exact Option.some.inj hf ▸ fun _ _ h => nomatch h
    · cases hf

/-- The findings about loops and options are plain. -/
theorem plain_of_mem_emptyLoops {f : Finding} (hf : f ∈ g.emptyLoops) : Plain f := by
  rcases List.mem_append.mp hf with hf | hf
  · obtain ⟨e, -, hf⟩ := List.mem_filterMap.mp hf
    split at hf
    · exact plain_of_loopError? hf
    · exact plain_of_loopError? hf
    · cases hf
  · obtain ⟨e, -, hf⟩ := List.mem_filterMap.mp hf
    split at hf
    · exact plain_of_optionWarning? hf
    · cases hf

/-- The findings about predicates and limits of lookaheads are plain. -/
theorem plain_of_mem_lookBehindErrors {f : Finding} (hf : f ∈ g.lookBehindErrors) : Plain f := by
  rcases List.mem_append.mp hf with hf | hf <;>
    obtain ⟨e, -, rfl⟩ := List.mem_map.mp hf <;> exact plain_error _ _

/-- The errors about patterns are plain. -/
theorem plain_of_mem_patternErrors {f : Finding} (hf : f ∈ g.patternErrors) : Plain f := by
  rcases List.mem_append.mp hf with hf | hf
  · obtain ⟨⟨subject, entry⟩, -, hf⟩ := List.mem_filterMap.mp hf
    obtain ⟨name, -, hf⟩ := Option.bind_eq_some_iff.mp hf
    exact plain_of_undefinedState? hf
  · obtain ⟨⟨subject, entry⟩, -, rfl⟩ := List.mem_map.mp hf
    exact plain_error _ _

/-- Checking the productions adds no warning about a pattern. -/
theorem Unwarned.checkProductions (h : g.Unwarned) : g.checkProductions.Unwarned := by
  rw [Unwarned, log_checkProductions]
  refine h.record fun f hf => ?_
  simp only [List.mem_append] at hf
  rcases hf with ((((hf | hf) | hf) | hf) | hf) | hf
  · exact plain_of_mem_misplacedLookaheads hf
  · exact plain_of_mem_lexicalStateFindings hf
  · exact plain_of_mem_hiddenAlternatives hf
  · exact plain_of_mem_emptyLoops hf
  · exact plain_of_mem_lookBehindErrors hf
  · exact plain_of_mem_patternErrors hf

/-- Registering the names adds no warning about a pattern. -/
theorem Unwarned.registerNames (h : g.Unwarned) : g.registerNames.Unwarned := by
  refine List.foldlRecOn (motive := Unwarned) _ _ h fun g' h id _ => ?_
  unfold registerName
  simp only
  split
  · exact h
  · split
    · exact h.recordError _ _
    · exact h

/-- Registering the tokens adds no warning about a pattern. -/
theorem Unwarned.registerTokens (h : g.Unwarned) : g.registerTokens.Unwarned := by
  refine List.foldlRecOn (motive := Unwarned) _ _ h fun g' h tp _ => ?_
  have hpatterns := (patterns_steps (g'.lexicon.production tp)
    ((g'.lexicon.production tp).entries.map (·.pattern)) { grammar := g' }).preserves
      (P := fun r => r.grammar.Unwarned) (fun id _ r r' hstep hr => ?_) h
  · exact hpatterns
  · cases hstep with
    | conflict => exact hr.recordError _ _
    | _ => exact hr

/-- Checking the references adds no warning about a pattern. -/
theorem Unwarned.checkReferences (h : g.Unwarned) : g.checkReferences.Unwarned := by
  have hreferences : (g.record g.referenceErrors).Unwarned := h.record fun f hf => by
    obtain ⟨⟨p, id⟩, -, hf⟩ := List.mem_flatMap.mp hf
    obtain ⟨text, -, rfl⟩ := List.mem_map.mp hf
    exact plain_error _ _
  refine Unwarned.record (g := (g.record g.referenceErrors).resolveReferences) hreferences
    fun f hf => ?_
  obtain ⟨id, -, rfl⟩ := List.mem_map.mp hf
  exact plain_error _ _

/-- **The checks record no warning about a pattern.** -/
theorem Unwarned.check (h : g.Unwarned) : g.check.Unwarned := by
  rcases check_cases g with ⟨-, heq⟩ | ⟨-, ⟨-, heq⟩ | ⟨-, heq⟩⟩
  · rw [heq]
    refine h.record fun f hf => ?_
    obtain ⟨e, -, hf⟩ := List.mem_filterMap.mp hf
    split at hf
    · split at hf
      · exact Option.some.inj hf ▸ plain_error _ _
      · cases hf
    · cases hf
  · rw [heq]
    exact h.checkProductions.registerNames.registerTokens
  · rw [heq]
    exact h.checkProductions.registerNames.registerTokens.checkReferences

/-! ### The analysis -/

/-- The label of a token is the name that refers to it. -/
theorem label_of_namedToken_check (hg : g.Drafted) (hsilent : g.check.log.hasNoErrors) {x : Nat}
    (hx : g.check.lexicon.namedToken name = some x) : (g.check.lexicon.pattern x).label = name := by
  obtain ⟨names, hnamed, -, hregisters, hresolves⟩ := exists_checked hg hsilent
  rw [namedToken, hresolves.registers.namedTokens_eq, hregisters.namedTokens_eq] at hx
  obtain ⟨htoken, hlabel⟩ := hnamed _ (Automaton.mem_of_lookup hx)
  obtain ⟨o, hpattern⟩ := (hregisters.trans hresolves.registers).pattern x
  rw [hpattern]
  exact (if_pos htoken.hasLabel).trans hlabel

/-- **The warnings of an analysis about choices.** -/
theorem analyze_unmatchable_iff (hg : g.Drafted) (h : g.analyze = .ok (none, g')) (y : Nat) :
    (∀ text, ⟨.warning text, some (.regex y)⟩ ∈ g'.log.entries ↔
      ∃ name x, g'.lexicon.Suspects y name x ∧
        text = unmatchableText name (g.check.lexicon.pattern y).label) ∧
    ∀ name x, g'.lexicon.Suspects y name x →
      ((∀ i, g'.lexicon.Has i y → g'.lexicon.Has i x) ↔
        (∃ i, g'.lexicon.Has i x) ∧
          ∀ i, i < g'.lexicon.stateOf y → g'.lexicon.Has i y → g'.lexicon.Has i x) := by
  obtain ⟨hsilent, L, log, hbuild, rfl⟩ := analyze_eq_ok h
  obtain ⟨names, gone, -, hsettled⟩ := check_settled hg hsilent
  have hfresh : ({ g.lexicon with namedTokens := names } : Lexicon).Fresh := { hg.fresh with }
  have hunwarned : g.check.Unwarned := Unwarned.check fun id text hmem => by
    rw [hg.built.log_eq] at hmem
    exact absurd hmem List.not_mem_nil
  have hcongr : ∀ name x, L.ensureLabels.Suspects y name x ↔ L.Suspects y name x := fun _ _ =>
    suspects_congr (keepsTokens_ensureLabels L) (ensureLabels_spec L).1
  refine ⟨fun text => ?_, fun name x hsuspects => hsuspects.covered_iff⟩
  refine (build_warnings (hsettled.unbuilt hfresh) (hsettled.patterns_eq hfresh) hbuild).trans ?_
  rw [or_iff_right (hunwarned y text)]
  refine exists_congr fun name => exists_congr fun x => ?_
  rw [hcongr]
  refine and_congr_right fun hsuspects => ?_
  have hnamed := hsuspects.named
  rw [namedToken, (keepsTokens_build hbuild).namedTokens_eq] at hnamed
  rw [label_of_namedToken_check hg hsilent hnamed]

/-- A token `X` for the text `x`, and a choice `Y` between `X` and `y`. -/
def tokenOrLetter : Grammar :=
  withTokens [{ givenLabel := "X", tree := some (.text "x"), production := some 0 },
    { givenLabel := "Y", tree := some (.choice [.reference "X", .text "y"])
      production := some 0 }] []

/-- The builder makes `tokenOrLetter`. -/
theorem drafted_tokenOrLetter : tokenOrLetter.Drafted :=
  (Drafted.new {}).addTokenProduction {} rfl
    |>.addEntry 0 "X" false (some (.text "x")) rfl
    |>.addEntry 0 "Y" false (some (.choice [.reference "X", .text "y"])) rfl

/-- With one lexical state for both, there is a warning, and it is right. -/
theorem analyze_unmatchable_iff_tokenOrLetter :
    tokenOrLetter.Drafted ∧ ∃ g', tokenOrLetter.analyze = .ok (none, g') ∧
      (∃ name x, g'.lexicon.Suspects 2 name x ∧
        "Regular Expression choice : X can never be matched as : Y" =
          unmatchableText name (tokenOrLetter.check.lexicon.pattern 2).label) ∧
      ∀ name x, g'.lexicon.Suspects 2 name x →
        ((∀ i, g'.lexicon.Has i 2 → g'.lexicon.Has i x) ↔
          (∃ i, g'.lexicon.Has i x) ∧
            ∀ i, i < g'.lexicon.stateOf 2 → g'.lexicon.Has i 2 → g'.lexicon.Has i x) := by
  have htest : (tokenOrLetter.analyze.toOption.map fun r => decide (r.1 = none ∧
      ⟨.warning "Regular Expression choice : X can never be matched as : Y", some (.regex 2)⟩ ∈
        r.2.log.entries)) = some true := by
    decide +kernel
  obtain ⟨⟨stage, g'⟩, hanalyze, rfl, hmem⟩ :=
    exists_eq_ok_of_decide (P := fun r : Option Stage × Grammar => r.1 = none ∧
      ⟨.warning "Regular Expression choice : X can never be matched as : Y", some (.regex 2)⟩ ∈
        r.2.log.entries) htest
  obtain ⟨hwarnings, hright⟩ := analyze_unmatchable_iff drafted_tokenOrLetter hanalyze 2
  exact ⟨drafted_tokenOrLetter, g', hanalyze, (hwarnings _).mp hmem, hright⟩

/-! ### Warnings that are wrong -/

/-- The token is matched in one lexical state, and the choice in this one and in the default one. -/
def twoStates : Grammar :=
  { Grammar.new {} with
    lexicon :=
      { patterns := #[{ givenLabel := "EOF", ordinal := some 0, tree := some .endOfInput },
          { givenLabel := "X", tree := some (.text "x"), production := some 0 },
          { givenLabel := "Y", tree := some (.choice [.reference "X", .text "y"])
            production := some 1 }]
        ordinals := #[0]
        tokenProductions := #[{ lexicalStates := ["S"], entries := [{ pattern := 1 }] },
          { lexicalStates := ["DEFAULT", "S"], entries := [{ pattern := 2 }] }]
        lexicalStates := #[{ name := "DEFAULT" }, { name := "S" }] } }

/-- The token is a literal that another one takes the place of, so no lexical state has it. The
choice is matched in the default lexical state. -/
def foldedToken : Grammar :=
  { Grammar.new {} with
    lexicon :=
      { patterns := #[{ givenLabel := "EOF", ordinal := some 0, tree := some .endOfInput },
          { givenLabel := "", tree := some (.text "x"), production := some 0 },
          { givenLabel := "X", tree := some (.text "x"), production := some 1 },
          { givenLabel := "Y", tree := some (.choice [.reference "X", .text "y"])
            production := some 2 }]
        ordinals := #[0]
        tokenProductions := #[{ lexicalStates := ["S"], entries := [{ pattern := 1 }] },
          { lexicalStates := ["S"], explicit := false, entries := [{ pattern := 2 }] },
          { lexicalStates := ["DEFAULT"], entries := [{ pattern := 3 }] }]
        lexicalStates := #[{ name := "DEFAULT" }, { name := "S" }] } }

/-- The builder makes `twoStates`. -/
theorem drafted_twoStates : twoStates.Drafted :=
  (Drafted.new {}).step (.addLexicalState _ "S") (.inl rfl)
    |>.addTokenProduction { lexicalStates := ["S"] } rfl
    |>.addEntry 0 "X" false (some (.text "x")) rfl
    |>.addTokenProduction { lexicalStates := ["DEFAULT", "S"] } rfl
    |>.addEntry 1 "Y" false (some (.choice [.reference "X", .text "y"])) rfl

/-- The builder makes `foldedToken`. -/
theorem drafted_foldedToken : foldedToken.Drafted :=
  (Drafted.new {}).step (.addLexicalState _ "S") (.inl rfl)
    |>.addTokenProduction { lexicalStates := ["S"] } rfl
    |>.addEntry 0 "" false (some (.text "x")) rfl
    |>.addTokenProduction { lexicalStates := ["S"], explicit := false } rfl
    |>.addEntry 1 "X" false (some (.text "x")) rfl
    |>.addTokenProduction {} rfl
    |>.addEntry 2 "Y" false (some (.choice [.reference "X", .text "y"])) rfl

/-- There is a warning that choice `y` never matches as token `x`, but the default lexical state has
the choice and not the token, and so reads the text of the token as the choice. -/
def WarnsWrongly (g : Grammar) (x y : Nat) : Prop :=
  ⟨.warning "Regular Expression choice : X can never be matched as : Y", some (.regex y)⟩ ∈
      g.log.entries ∧
    g.lexicon.namedToken "X" = some x ∧ g.lexicon.Has 0 y ∧ ¬ g.lexicon.Has 0 x ∧
    (g.lexicon.pattern y).ordinal = some 2 ∧ g.lexicon.Reads "x" 2

instance (g : Grammar) (x y : Nat) : Decidable (g.WarnsWrongly x y) :=
  inferInstanceAs (Decidable (_ ∧ _ ∧ _ ∧ _ ∧ _ ∧ _))

/-- A test of the analysis tells of a warning that is wrong. -/
theorem exists_warnsWrongly {x y : Nat} (h : (g.analyze.toOption.map fun r =>
    decide (r.1 = none ∧ r.2.WarnsWrongly x y)) = some true) :
    ∃ g', g.analyze = .ok (none, g') ∧ g'.WarnsWrongly x y := by
  obtain ⟨⟨stage, g'⟩, hanalyze, rfl, hwarns⟩ := exists_eq_ok_of_decide
    (P := fun r : Option Stage × Grammar => r.1 = none ∧ r.2.WarnsWrongly x y) h
  exact ⟨g', hanalyze, hwarns⟩

/-- **Two warnings that are wrong.** The token is in the last lexical state of the choice only; or
it is in no lexical state at all, and the first one stands for it. -/
theorem analyze_unmatchable_twoStates :
    (twoStates.Drafted ∧ ∃ g', twoStates.analyze = .ok (none, g') ∧ g'.WarnsWrongly 1 2) ∧
      foldedToken.Drafted ∧ ∃ g', foldedToken.analyze = .ok (none, g') ∧ g'.WarnsWrongly 2 3 :=
  ⟨⟨drafted_twoStates, exists_warnsWrongly (by decide +kernel)⟩,
    drafted_foldedToken, exists_warnsWrongly (by decide +kernel)⟩

end Grammar

end GrammarAnalysis
