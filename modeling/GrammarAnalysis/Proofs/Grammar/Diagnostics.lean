import GrammarAnalysis.Proofs.Grammar.Growth
import GrammarAnalysis.Proofs.Grammar.TokenSteps

/-!
# The Log of the Checks

Messages are only ever added to the log. So when the checks of a grammar end without an error, none
was recorded on the way, and every list of findings that was recorded is free of errors.

## Main definitions

* `Grammar.Quieter`: a change that takes no error out of the log.

## Main results

* `Grammar.hasNoErrors_record`: what the absence of errors says about recorded findings;
* `Grammar.check_silent`: what it says about the checks.
-/

namespace GrammarAnalysis

namespace Log

/-- A log has no errors if none of its entries is one. -/
theorem hasNoErrors_iff (log : Log) :
    log.hasNoErrors ↔ ∀ entry ∈ log.entries, entry.message.isError = false := by
  simp [hasNoErrors, errorCount, errors, messages, List.filter_eq_nil_iff]

/-- A message leaves a log without errors if it is none. -/
theorem hasNoErrors_add (log : Log) (message : Message) (subject : Option Subject) :
    (log.add message subject).hasNoErrors ↔ log.hasNoErrors ∧ message.isError = false := by
  simp [hasNoErrors_iff, add, or_imp, forall_and]

/-- Findings were recorded without an error if none of them is one. -/
theorem hasNoErrors_record (log : Log) (findings : List Finding) :
    (log.record findings).hasNoErrors ↔
      log.hasNoErrors ∧ ∀ f ∈ findings, f.message.isError = false := by
  induction findings generalizing log with
  | nil => simp [record]
  | cons f findings ih =>
      refine (ih (log.add f.message (some f.subject))).trans ?_
      rw [hasNoErrors_add, List.forall_mem_cons, and_assoc]

/-- The errors of a log are the texts of its error entries. -/
theorem mem_errors {log : Log} {text : String} :
    text ∈ log.errors ↔ ∃ entry ∈ log.entries, entry.message = .error text := by
  simp only [errors, messages, List.mem_map, List.mem_filter]
  constructor
  · rintro ⟨_, ⟨⟨entry, hentry, rfl⟩, herror⟩, rfl⟩
    refine ⟨entry, hentry, ?_⟩
    cases hmessage : entry.message <;> rw [hmessage] at herror <;> first | rfl | cases herror
  · rintro ⟨entry, hentry, hmessage⟩
    exact ⟨_, ⟨⟨entry, hentry, rfl⟩, by rw [hmessage]; rfl⟩, by rw [hmessage]; rfl⟩

/-- The errors after findings were recorded: those before, and those among the findings. -/
theorem mem_errors_record (log : Log) (findings : List Finding) {text : String} :
    text ∈ (log.record findings).errors ↔
      text ∈ log.errors ∨ ∃ f ∈ findings, f.message = .error text := by
  induction findings generalizing log with
  | nil => simp [record]
  | cons f findings ih =>
      refine (ih (log.add f.message (some f.subject))).trans ?_
      simp [mem_errors, add, or_and_right, exists_or, or_assoc]

/-- Without an error, there is no text of one. -/
theorem not_mem_errors {log : Log} (h : log.hasNoErrors) (text : String) : text ∉ log.errors := by
  intro hmem
  obtain ⟨entry, hentry, hmessage⟩ := mem_errors.mp hmem
  have hsilent := (hasNoErrors_iff log).mp h entry hentry
  rw [hmessage] at hsilent
  cases hsilent

end Log

namespace Grammar

/-- If the second grammar has no error in its log, then the first one has none. -/
def Quieter (g g' : Grammar) : Prop := g'.log.hasNoErrors → g.log.hasNoErrors

variable {g g' : Grammar}

/-- A series of changes that take no error back takes none back. -/
theorem Quieter.foldl {α : Type} {f : Grammar → α → Grammar} (hf : ∀ g a, Quieter g (f g a))
    (l : List α) (g : Grammar) : Quieter g (l.foldl f g) := by
  induction l generalizing g with
  | nil => exact fun h => h
  | cons a l ih => exact fun h => hf g a (ih (f g a) h)

/-- Findings leave a log without errors if none of them is one. -/
theorem hasNoErrors_record {findings : List Finding} :
    (g.record findings).log.hasNoErrors ↔
      g.log.hasNoErrors ∧ ∀ f ∈ findings, f.message.isError = false :=
  Log.hasNoErrors_record g.log findings

/-- The errors after recording findings are those before and those found. -/
theorem mem_errors_record {findings : List Finding} {text : String} :
    text ∈ (g.record findings).log.errors ↔
      text ∈ g.log.errors ∨ ∃ f ∈ findings, f.message = .error text :=
  Log.mem_errors_record g.log findings

/-- Recording findings takes no error back. -/
theorem quieter_record (g : Grammar) (findings : List Finding) : Quieter g (g.record findings) :=
  fun h => (hasNoErrors_record.mp h).1

/-- Registering the names takes no error back. -/
theorem quieter_registerNames (g : Grammar) : Quieter g g.registerNames := by
  refine Quieter.foldl (fun g id => ?_) _ _
  unfold registerName
  simp only
  split
  · exact fun h => h
  · split
    · exact quieter_record g _
    · exact fun h => h

/-- Registering the patterns of a token production takes no error back. -/
theorem quieter_patterns (tp : TokenProduction) (ids : List Nat) (r : Registration) :
    Quieter r.grammar (ids.foldl (Registration.pattern tp) r).grammar := by
  refine (patterns_steps tp ids r).preserves (P := fun r' =>
    Quieter r.grammar r'.grammar) (fun id _ r₁ r₂ hstep ih => ?_) fun h => h
  cases hstep with
  | conflict => exact fun h => ih (quieter_record _ _ h)
  | _ => exact ih

/-- Registering a token production takes no error back. -/
theorem quieter_registerProduction (g : Grammar) (id : Nat) :
    Quieter g (g.registerProduction id) :=
  quieter_patterns _ _ { grammar := g }

/-- Registering further token productions takes no error back. -/
theorem quieter_registerProductions (g : Grammar) {m n : Nat} (hmn : m ≤ n) :
    Quieter ((List.range m).foldl registerProduction g)
      ((List.range n).foldl registerProduction g) := by
  obtain ⟨k, rfl⟩ := Nat.exists_eq_add_of_le hmn
  rw [List.range_add, List.foldl_append]
  exact Quieter.foldl quieter_registerProduction _ _

/-- Registering the tokens takes no error back. -/
theorem quieter_registerTokens (g : Grammar) : Quieter g g.registerTokens :=
  Quieter.foldl quieter_registerProduction _ _

/-- The checks of the productions record their findings one after the other. -/
theorem log_checkProductions (g : Grammar) :
    g.checkProductions.log = (g.record
      (g.misplacedLookaheads ++ g.lexicalStateFindings ++ g.hiddenAlternatives ++ g.emptyLoops
        ++ g.lookBehindErrors ++ g.patternErrors)).log := by
  rw [checkProductions, markLeftRecursion]
  exact List.foldlRecOn (motive := fun g' : Grammar => g'.log = _) _ _ rfl fun _ h _ _ => h

/-- The course of the checks: they end with the undefined non-terminals, or after the registration
of the tokens, or with the references. -/
theorem check_cases (g : Grammar) :
    g.undefinedNonTerminals ≠ [] ∧ g.check = g.record g.undefinedNonTerminals ∨
      g.undefinedNonTerminals = [] ∧
        (g.checkProductions.registerNames.registerTokens.log.hasNoErrors = false ∧
            g.check = g.checkProductions.registerNames.registerTokens ∨
          g.checkProductions.registerNames.registerTokens.log.hasNoErrors ∧
            g.check = g.checkProductions.registerNames.registerTokens.checkReferences) := by
  rw [check]
  generalize g.checkProductions.registerNames.registerTokens = g'
  cases hundefined : g.undefinedNonTerminals with
  | cons f rest => exact .inl ⟨List.cons_ne_nil f rest, rfl⟩
  | nil =>
      refine .inr ⟨rfl, ?_⟩
      cases herrors : g'.log.hasNoErrors with
      | false => exact .inl ⟨rfl, by simp [herrors]⟩
      | true => exact .inr ⟨rfl, by simp [herrors]⟩

/-- The grammar after the registration of its tokens, in the course of the checks. -/
def tokensRegistered (g : Grammar) : Grammar := g.checkProductions.registerNames.registerTokens

/-- An undefined non-terminal is reported as an error. -/
theorem isError_of_mem_undefinedNonTerminals {f : Finding} (h : f ∈ g.undefinedNonTerminals) :
    f.message.isError := by
  obtain ⟨e, -, he⟩ := List.mem_filterMap.mp h
  split at he
  · split at he
    · obtain rfl := Option.some.inj he
      rfl
    · cases he
  · cases he

/-- Resolving the references records nothing. -/
theorem log_resolveReferences (g : Grammar) : g.resolveReferences.log = g.log := rfl

/-- The references and the loops, if no error was recorded about them. -/
theorem checkReferences_silent (h : g.checkReferences.log.hasNoErrors) :
    (∀ f ∈ g.referenceErrors, f.message.isError = false) ∧
      g.checkReferences.lexicon.loops g.checkReferences.declaredPatterns = [] := by
  rw [checkReferences] at h ⊢
  have hlog := log_resolveReferences (g.record g.referenceErrors)
  generalize (g.record g.referenceErrors).resolveReferences = g' at h hlog ⊢
  obtain ⟨hresolved, hloops⟩ := hasNoErrors_record.mp h
  rw [hlog, hasNoErrors_record] at hresolved
  refine ⟨hresolved.2, List.eq_nil_iff_forall_not_mem.mpr fun id hid => ?_⟩
  have herror := hloops _ (List.mem_map_of_mem hid)
  cases herror

/-- **The checks without an error** end with the references, and nothing that they looked for was
found: no undefined non-terminal, no error in a pattern, a reference or a loop. -/
theorem check_silent (h : g.check.log.hasNoErrors) :
    g.undefinedNonTerminals = [] ∧ g.check = g.tokensRegistered.checkReferences ∧
      g.tokensRegistered.log.hasNoErrors ∧ (∀ f ∈ g.patternErrors, f.message.isError = false) ∧
      (∀ f ∈ g.tokensRegistered.referenceErrors, f.message.isError = false) ∧
      g.check.lexicon.loops g.check.declaredPatterns = [] := by
  rcases check_cases g with ⟨hundefined, hcheck⟩ | ⟨hundefined, hcheck | ⟨hsilent, hcheck⟩⟩
  · obtain ⟨f, hf⟩ := List.exists_mem_of_ne_nil _ hundefined
    rw [hcheck] at h
    have herror := (hasNoErrors_record.mp h).2 f hf
    rw [isError_of_mem_undefinedNonTerminals hf] at herror
    cases herror
  · rw [hcheck.2, hcheck.1] at h
    cases h
  · have hproductions : g.checkProductions.log.hasNoErrors :=
      quieter_registerNames _ (quieter_registerTokens _ hsilent)
    rw [log_checkProductions] at hproductions
    have hfindings := (hasNoErrors_record.mp hproductions).2
    rw [hcheck] at h ⊢
    obtain ⟨hreferences, hloops⟩ := checkReferences_silent h
    exact ⟨hundefined, rfl, hsilent, fun f hf => hfindings f (List.mem_append_right _ hf),
      hreferences, hloops⟩

end Grammar

end GrammarAnalysis
