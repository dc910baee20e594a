import GrammarAnalysis.Proofs.Lexicon.Literals

/-!
# The Warnings of a Lexer

After the lexical states are built, the choices among the patterns are looked at. Where an
alternative of a choice refers to a token with a smaller ordinal, this token wins over the choice in
each lexical state that has both, and there is a warning that the choice never matches as the token.

Only one lexical state of each pattern is compared for this: the last one that has the pattern, or
the first of all if none has it. So the warning is right about the last lexical state of the choice,
unless no lexical state has the token; and it can be wrong about the lexical states before.

## Main definitions

* `Lexicon.Has`: a lexical state has a pattern;
* `Lexicon.Suspects`: the choices and tokens that there is a warning about.

## Main results

* `Lexicon.build_warnings`: the warnings of a build;
* `Lexicon.Suspects.covered_iff`: where the token is in all the lexical states of the choice.
-/

namespace GrammarAnalysis

/-! ### Entries that are added to a log -/

namespace Log

/-- A message is added as one more entry. -/
theorem mem_entries_add {log : Log} {message : Message} {subject : Option Subject}
    {entry : LogEntry} : entry ∈ (log.add message subject).entries ↔
      entry ∈ log.entries ∨ entry = ⟨message, if message.isNote then none else subject⟩ := by
  rw [add, List.mem_append, List.mem_singleton]

/-- A warning is added as one more entry. -/
theorem mem_entries_addWarning (log : Log) (subject : Subject) (text : String) (entry : LogEntry) :
    entry ∈ (log.addWarning subject text).entries ↔
      entry ∈ log.entries ∨ entry = ⟨.warning text, some subject⟩ :=
  mem_entries_add

/-- An error is added as one more entry. -/
theorem mem_entries_addError (log : Log) (subject : Subject) (text : String) (entry : LogEntry) :
    entry ∈ (log.addError subject text).entries ↔
      entry ∈ log.entries ∨ entry = ⟨.error text, some subject⟩ :=
  mem_entries_add

/-- Where each step adds some entries, all the steps together add all of these. -/
theorem mem_entries_foldl {α : Type} {step : Log → α → Log} {Adds : α → LogEntry → Prop}
    (hstep : ∀ log a entry, entry ∈ (step log a).entries ↔ entry ∈ log.entries ∨ Adds a entry)
    (l : List α) (log : Log) {entry : LogEntry} :
    entry ∈ (l.foldl step log).entries ↔ entry ∈ log.entries ∨ ∃ a ∈ l, Adds a entry := by
  induction l generalizing log with
  | nil => simp
  | cons a l ih =>
      rw [List.foldl_cons, ih, hstep, or_assoc, List.exists_mem_cons_iff]

/-- The warnings of a list are added. -/
theorem mem_entries_addWarnings (log : Log) (subject : Subject) (texts : List String)
    (entry : LogEntry) :
    entry ∈ (texts.foldl (fun log text => log.addWarning subject text) log).entries ↔
      entry ∈ log.entries ∨ ∃ text ∈ texts, entry = ⟨.warning text, some subject⟩ :=
  mem_entries_foldl (fun log => mem_entries_addWarning log subject) texts log

/-- The errors of a list are added. -/
theorem mem_entries_addErrors {log : Log} {errors : List (Subject × String)} {entry : LogEntry} :
    entry ∈ (errors.foldl (fun log (subject, text) => log.addError subject text) log).entries ↔
      entry ∈ log.entries ∨ ∃ e ∈ errors, entry = ⟨.error e.2, some e.1⟩ :=
  mem_entries_foldl (fun log e => mem_entries_addError log e.1 e.2) errors log

end Log

namespace Lexicon

variable {L L' : Lexicon} {log log' : Log} {i id x y : Nat} {name text : String}

/-! ### The lexical states of a pattern -/

/-- The lexical state at a position has a pattern: its automaton was built from it. -/
def Has (L : Lexicon) (i id : Nat) : Prop :=
  (L.lexicalStates[i]?).any (·.hasPattern id) = true

instance : Decidable (L.Has i id) := inferInstanceAs (Decidable (_ = true))

/-- Only lexical states of the lexicon have patterns. -/
theorem Has.lt_size (h : L.Has i id) : i < L.lexicalStates.size := by
  obtain ⟨S, hS, -⟩ := (Option.any_eq_true _ _).mp h
  exact (Array.getElem?_eq_some_iff.mp hS).1

/-- The lexical states that are found for a pattern are those that have it. -/
theorem mem_filter_has :
    i ∈ (List.range L.lexicalStates.size).filter
        (fun i => (L.lexicalStates[i]?).any (·.hasPattern id)) ↔ L.Has i id := by
  rw [List.mem_filter, List.mem_range]
  exact and_iff_right_of_imp Has.lt_size

/-- The last of the lexical states that have a pattern stands for all of them. -/
theorem Has.last (h : L.Has i id) :
    L.Has (L.stateOf id) id ∧ ∀ j, L.Has j id → j ≤ L.stateOf id := by
  have hincreasing : ((List.range L.lexicalStates.size).filter
      fun i => (L.lexicalStates[i]?).any (·.hasPattern id)).Pairwise (· < ·) :=
    List.pairwise_lt_range.filter _
  have hmem := mem_filter_has.mpr h
  rw [stateOf]
  simp only [← mem_filter_has (L := L)]
  generalize (List.range L.lexicalStates.size).filter
    (fun i => (L.lexicalStates[i]?).any (·.hasPattern id)) = indices at hincreasing hmem
  obtain ⟨before, last, rfl⟩ : ∃ before last, indices = before ++ [last] :=
    (List.eq_nil_or_concat' indices).resolve_left fun hnil => by
      rw [hnil] at hmem
      exact absurd hmem List.not_mem_nil
  rw [List.getLast?_concat, Option.getD_some]
  refine ⟨List.mem_append_right _ (List.mem_singleton_self last), fun j hj => ?_⟩
  rcases List.mem_append.mp hj with hj | hj
  · exact Nat.le_of_lt
      ((List.pairwise_append.mp hincreasing).2.2 j hj last (List.mem_singleton_self last))
  · exact Nat.le_of_eq (List.mem_singleton.mp hj)

/-! ### The choices that there is a warning about -/

/-- The warning that a choice never matches as a token. -/
def unmatchableText (token choice : String) : String :=
  s!"Regular Expression choice : {token} can never be matched as : {choice}"

/-- There is a warning about choice `y` and token `x`: an alternative refers to the token by this
name, the token comes before the choice, some lexical state has the choice, and one lexical state
stands for both. -/
@[mk_iff]
structure Suspects (L : Lexicon) (y : Nat) (name : String) (x : Nat) : Prop where
  alternative : ∃ alternatives, (L.pattern y).alternatives? = some alternatives ∧
    ∃ r ∈ alternatives, r.reference? = some name
  named : L.namedToken name = some x
  isPrivate_eq : (L.pattern x).isPrivate = false
  before : ∃ o o', (L.pattern x).ordinal = some o ∧ (L.pattern y).ordinal = some o' ∧
    0 < o ∧ o < o'
  matched : ∃ i, L.Has i y
  stateOf_eq : L.stateOf x = L.stateOf y

/-- **Where the warning is right.** The token is in all the lexical states of the choice just if
some lexical state has the token, and it is in those that come before the last one of the choice. -/
theorem Suspects.covered_iff (h : L.Suspects y name x) :
    (∀ i, L.Has i y → L.Has i x) ↔
      (∃ i, L.Has i x) ∧ ∀ i, i < L.stateOf y → L.Has i y → L.Has i x := by
  obtain ⟨k, hk⟩ := h.matched
  constructor
  · exact fun hall => ⟨⟨k, hall k hk⟩, fun i _ => hall i⟩
  · rintro ⟨⟨j, hj⟩, hbefore⟩ i hi
    rcases Nat.lt_or_eq_of_le (hk.last.2 i hi) with hlt | rfl
    · exact hbefore i hlt hi
    · rw [← h.stateOf_eq]
      exact hj.last.1

/-- What the check of a choice warns about. -/
theorem mem_unmatchable (hy : ∃ i, L.Has i y) :
    text ∈ L.unmatchable y ↔ ∃ name x, L.Suspects y name x ∧
      text = unmatchableText (L.pattern x).label (L.pattern y).label := by
  rw [unmatchable]
  constructor
  · intro h
    split at h
    · rename_i alternatives ordinal halternatives hordinal
      simp only [List.mem_map, List.mem_filter, List.mem_filterMap, Option.bind_eq_some_iff,
        Bool.and_eq_true, Bool.not_eq_true', Option.any_eq_true, decide_eq_true_eq,
        beq_iff_eq] at h
      obtain ⟨x, ⟨⟨r, hr, name, hname, hx⟩, ⟨hprivate, o, ho, hlt⟩, hstate⟩, rfl⟩ := h
      exact ⟨name, x, ⟨⟨alternatives, halternatives, r, hr, hname⟩, hx, hprivate,
        ⟨o, ordinal, ho, hordinal, hlt⟩, hy, hstate⟩, rfl⟩
    · exact absurd h List.not_mem_nil
  · rintro ⟨name, x, hsuspects, rfl⟩
    obtain ⟨⟨alternatives, halternatives, r, hr, hname⟩, hx, hprivate,
      ⟨o, ordinal, ho, hordinal, hlt⟩, -, hstate⟩ := hsuspects
    rw [halternatives, hordinal]
    simp only [List.mem_map, List.mem_filter, List.mem_filterMap, Option.bind_eq_some_iff,
      Bool.and_eq_true, Bool.not_eq_true', Option.any_eq_true, decide_eq_true_eq,
      beq_iff_eq]
    exact ⟨x, ⟨⟨r, hr, name, hname, hx⟩, ⟨hprivate, o, ho, hlt⟩, hstate⟩, rfl⟩

/-- The lexical states and the tokens are all that counts, but not the labels. -/
theorem suspects_congr (h : L.KeepsTokens L') (hstates : L'.lexicalStates = L.lexicalStates) :
    L'.Suspects y name x ↔ L.Suspects y name x := by
  have htree : ∀ z, (L'.pattern z).tree = (L.pattern z).tree := fun z => by
    obtain ⟨_, _, _, hpattern⟩ := h.pattern z
    rw [hpattern]
  have hordinal : ∀ z, (L'.pattern z).ordinal = (L.pattern z).ordinal := fun z => by
    obtain ⟨_, _, _, hpattern⟩ := h.pattern z
    rw [hpattern]
  have hprivate : ∀ z, (L'.pattern z).isPrivate = (L.pattern z).isPrivate := fun z => by
    obtain ⟨_, _, _, hpattern⟩ := h.pattern z
    rw [hpattern]
  simp only [suspects_iff, Pattern.alternatives?, namedToken, Has, stateOf, htree, hordinal,
    hprivate, hstates, h.namedTokens_eq]

/-! ### Building a lexicon -/

section Build

/-- A lexical state that is built has the patterns of its token productions. -/
theorem mem_patterns_build {s S : LexicalState} (h : s.build L = .ok S) :
    id ∈ S.patterns ↔ (∃ ignoreCase, (id, ignoreCase) ∈ L.patternsOf s) ∨ id ∈ s.patterns := by
  obtain ⟨A, -, h⟩ := exists_of_bind_eq_ok h
  obtain ⟨B, -, h⟩ := exists_of_bind_eq_ok h
  obtain rfl := Except.ok.inj h
  simp [OrderedSet.mem_insertAll]

/-- A lexical state that is built has the patterns that are declared for it. -/
theorem has_build_iff (hL : L.Unbuilt) (hempty : ∀ s ∈ L.lexicalStates.toList, s.patterns = ∅)
    (h : L.build log = .ok (L', log')) : L'.Has i id ↔ ∃ tp, L.Declares i tp id := by
  have hbuilt : ∀ {s S states}, L.lexicalStates[i]? = some s →
      (L.entered L.uses i s).build { L with lexicalStates := states } = .ok S →
      (id ∈ S.patterns ↔ ∃ tp, L.Declares i tp id) := fun {s S states} hs hbuild => by
    rw [mem_patterns_build hbuild]
    have hnone : id ∉ (L.entered L.uses i s).patterns := by
      rw [entered, hempty s (List.mem_of_getElem? (by rwa [Array.getElem?_toList]))]
      exact OrderedSet.not_mem_empty
    rw [or_iff_left hnone]
    simp only [mem_patternsOf_entered hL hs]
    constructor
    · rintro ⟨_, tp, htp, -⟩
      exact ⟨tp, htp⟩
    · rintro ⟨tp, htp⟩
      exact ⟨_, tp, htp, rfl⟩
  rw [Has, Option.any_eq_true]
  constructor
  · rintro ⟨S, hS, hhas⟩
    obtain ⟨states, s, hs, hbuild⟩ := exists_of_build h hS
    exact (hbuilt hs hbuild).mp (of_decide_eq_true hhas)
  · rintro ⟨tp, hdeclares⟩
    obtain ⟨s, hs⟩ := hdeclares.exists_state
    obtain ⟨⟨states, S, hS, -, -, hbuild⟩, -⟩ := exists_build h hs
    exact ⟨S, hS, decide_eq_true ((hbuilt hs hbuild).mpr ⟨tp, hdeclares⟩)⟩

/-- The entries of the token productions are no warnings. -/
theorem warning_mem_enterUses (text : String) (subject : Option Subject)
    (uses : List (Nat × String)) : ∀ (L : Lexicon) (log : Log),
    ⟨.warning text, subject⟩ ∈ (uses.foldl enterUse (L, log)).2.entries ↔
      ⟨.warning text, subject⟩ ∈ log.entries := by
  induction uses with
  | nil => exact fun _ _ => Iff.rfl
  | cons use uses ih =>
      intro L log
      obtain ⟨tp, name⟩ := use
      rw [List.foldl_cons, enterUse]
      cases L.stateIndex name with
      | some index => exact ih _ _
      | none =>
          refine (ih _ _).trans ((Log.mem_entries_addError ..).trans (or_iff_left ?_))
          simp

/-- The choices that are looked at: those that some lexical state has. -/
theorem mem_choices_iff (hL : L.Unbuilt) {states : Array LexicalState}
    (hstates : ∀ i : Nat, states[i]? = (L.lexicalStates[i]?).map (L.entered L.uses i)) :
    y ∈ ({ L with lexicalStates := states } : Lexicon).choices ↔
      (L.pattern y).alternatives?.isSome = true ∧ ∃ i tp, L.Declares i tp y := by
  rw [choices, List.mem_filter, and_comm]
  refine and_congr_right fun _ => ?_
  simp only [List.mem_flatMap, List.mem_map, Prod.exists, exists_and_right, exists_eq_right]
  constructor
  · rintro ⟨s, hs, ignoreCase, hp⟩
    obtain ⟨i, hi⟩ := List.mem_iff_getElem?.mp hs
    rw [Array.getElem?_toList, hstates i] at hi
    obtain ⟨s₀, hs₀, rfl⟩ := Option.map_eq_some_iff.mp hi
    obtain ⟨tp, hdeclares, -⟩ := (mem_patternsOf_entered hL hs₀).mp hp
    exact ⟨i, tp, hdeclares⟩
  · rintro ⟨i, tp, hdeclares⟩
    obtain ⟨s, hs⟩ := hdeclares.exists_state
    refine ⟨L.entered L.uses i s, List.mem_of_getElem? (i := i) ?_, L.foldsCase tp,
      (mem_patternsOf_entered hL hs).mpr ⟨tp, hdeclares, rfl⟩⟩
    rw [Array.getElem?_toList, hstates i, hs]
    rfl

/-- The log of a build: errors, and a warning for each text that the check of a choice has. -/
theorem warning_mem_log_build (hL : L.Unbuilt) (h : L.build log = .ok (L', log')) :
    ⟨.warning text, some (.regex y)⟩ ∈ log'.entries ↔
      ⟨.warning text, some (.regex y)⟩ ∈ log.entries ∨
        ((L.pattern y).alternatives?.isSome = true ∧ ∃ i tp, L.Declares i tp y) ∧
          text ∈ L'.unmatchable y := by
  obtain ⟨states, log₁, henter, hstates⟩ := enterUses_spec L.uses L log
  have hbefore := warning_mem_enterUses text (some (.regex y)) L.uses L log
  rw [henter] at hbefore
  rw [build, enterTokenProductions_eq, henter] at h
  obtain ⟨M, -, h⟩ := exists_of_bind_eq_ok h
  obtain ⟨rfl, rfl⟩ := Prod.mk.inj (Except.ok.inj h)
  rw [Log.mem_entries_addErrors, Log.mem_entries_foldl fun log choice =>
      Log.mem_entries_addWarnings log (.regex choice) (M.setTransitions.unmatchable choice),
    hbefore, ← mem_choices_iff hL hstates]
  simp

/-- A build leaves the labels alone. -/
theorem label_build (h : L.build log = .ok (L', log')) (z : Nat) :
    (L'.pattern z).label = (L.pattern z).label := by
  obtain ⟨states, built, -, -, rfl⟩ := build_eq_ok h
  obtain ⟨nextState, action, hpattern⟩ :=
    pattern_setTransitions { L with lexicalStates := built.toArray } z
  rw [hpattern]
  rfl

/-- **The warnings of a build** about patterns are those about the choices and tokens that are
suspected, where the lexical states had no patterns before. -/
theorem build_warnings (hL : L.Unbuilt) (hempty : ∀ s ∈ L.lexicalStates.toList, s.patterns = ∅)
    (h : L.build log = .ok (L', log')) :
    ⟨.warning text, some (.regex y)⟩ ∈ log'.entries ↔
      ⟨.warning text, some (.regex y)⟩ ∈ log.entries ∨
        ∃ name x, L'.Suspects y name x ∧
          text = unmatchableText (L.pattern x).label (L.pattern y).label := by
  rw [warning_mem_log_build hL h]
  simp only [← label_build h]
  simp only [← has_build_iff hL hempty h]
  refine or_congr_right ⟨fun h => (mem_unmatchable h.1.2).mp h.2, fun hsuspects => ?_⟩
  obtain ⟨name, x, hx, -⟩ := id hsuspects
  refine ⟨⟨?_, hx.matched⟩, (mem_unmatchable hx.matched).mpr hsuspects⟩
  obtain ⟨alternatives, halternatives, -⟩ := hx.alternative
  obtain ⟨_, _, _, hpattern⟩ := (keepsTokens_build h).pattern y
  rw [hpattern] at halternatives
  exact Option.isSome_of_eq_some halternatives

end Build

end Lexicon

end GrammarAnalysis
