import GrammarAnalysis.Proofs.Grammar.EmptyMatches
import GrammarAnalysis.Proofs.Lexicon.Cutting

/-!
# Tokens That Lead to Themselves

The checks look for loops at their end, and start from the patterns that the token productions still
declare. By then, references and literals may have lost their entries. But a token that leads to
itself is neither: it has a reference to another token in its tree, and it has the name by which it
is referred to. So the search starts from every such token, and an error is recorded if and only if
there is one. Without an error, no expansion comes to a pattern that is being expanded.

## Main definitions

* `Grammar.Cites`: a token with a name refers to another one;
* `Grammar.ChecksLoops`: the checks come to the loops.

## Main results

* `Grammar.mem_declaredPatterns_checkReferences`: the patterns that keep their entries;
* `Grammar.loops_check_eq_nil_iff`, `Grammar.loop_mem_errors_iff`: what the search finds, and what
  is recorded;
* `Grammar.check_loops`: an error is recorded if and only if a token leads to itself, and without an
  error the expansion is never cut off.
-/

namespace GrammarAnalysis

/-- A pattern refers to the names that occur in its tree. -/
theorem Pattern.mem_references_iff {p : Pattern} {name : String} :
    name ∈ p.references ↔ ∃ tree, p.tree = some tree ∧ tree.Occurs (.reference name) := by
  rw [references]
  cases p.tree with
  | none => simp
  | some tree => simp [Regex.mem_references_iff]

/-- A literal refers to nothing. -/
theorem Pattern.references_of_literal {p : Pattern} (h : p.literal?.isSome) :
    p.references = [] := by
  rw [literal?] at h
  rw [references]
  cases htree : p.tree with
  | none => rfl
  | some tree =>
      rw [htree] at h
      cases tree with
      | text image => rfl
      | _ => cases h

namespace Grammar

open Lexicon Relation

variable {g : Grammar} {id a b k tp : Nat}

/-! ### The entries that are kept -/

/-- The registration removes literals only. -/
theorem RegistrationSteps.literal_of_removed {ids : List Nat} {r r' : Registration}
    (h : RegistrationSteps ids r r') :
    ∀ x ∈ r'.removed, x ∈ r.removed ∨ (r.grammar.lexicon.pattern x).literal?.isSome := by
  induction h with
  | refl => exact fun x hx => .inl hx
  | tail hsteps hlast ih =>
      obtain ⟨id, -, hlast⟩ := hlast
      cases hlast with
      | shared _ himage =>
          intro x hx
          rcases List.mem_append.mp hx with hx | hx
          · exact ih x hx
          · rw [(RegistrationSteps.registers hsteps).literal?_eq] at himage
            rw [List.mem_singleton.mp hx, himage]
            exact .inr rfl
      | _ => exact ih

/-- The registration of a token production keeps the entries of patterns that are no literals. -/
theorem mem_entries_registerProduction {e : TokenEntry}
    (he : e ∈ (g.lexicon.production tp).entries)
    (hliteral : (g.lexicon.pattern e.pattern).literal? = none) :
    e ∈ ((g.registerProduction k).lexicon.production tp).entries ∧
      ((g.registerProduction k).lexicon.pattern e.pattern).literal? = none := by
  have hsteps := patterns_steps (g.lexicon.production k)
    ((g.lexicon.production k).entries.map (·.pattern)) { grammar := g }
  rw [registerProduction]
  generalize ((g.lexicon.production k).entries.map (·.pattern)).foldl
    (Registration.pattern (g.lexicon.production k)) { grammar := g } = r at hsteps ⊢
  have hsame := (hsteps.registers.literal?_eq e.pattern).trans hliteral
  refine ⟨?_, hsame⟩
  have hmem : e ∈ (r.grammar.lexicon.production tp).entries := by
    rw [Lexicon.production, hsteps.tokenProductions_eq]
    exact he
  rw [production_modifyProduction]
  split
  · refine List.mem_filter.mpr ⟨hmem, ?_⟩
    have hkept : e.pattern ∉ r.removed := fun hremoved => by
      have hsome := (hsteps.literal_of_removed _ hremoved).resolve_left List.not_mem_nil
      rw [hliteral] at hsome
      cases hsome
    simpa using hkept
  · exact hmem

/-- The registration leaves the entry of a pattern that is no literal. -/
theorem mem_entries_registerTokens {e : TokenEntry} (he : e ∈ (g.lexicon.production tp).entries)
    (hliteral : (g.lexicon.pattern e.pattern).literal? = none) :
    e ∈ (g.registerTokens.lexicon.production tp).entries :=
  (List.foldlRecOn (motive := fun g' : Grammar => e ∈ (g'.lexicon.production tp).entries ∧
    (g'.lexicon.pattern e.pattern).literal? = none) _ _ ⟨he, hliteral⟩
    fun _ h _ _ => mem_entries_registerProduction h.1 h.2).1

/-- **The patterns that keep their entries**: those that are no references and no literals. -/
theorem mem_declaredPatterns_checkReferences (hg : g.Drafted) (hid : id ∈ g.declaredPatterns)
    (href : (g.lexicon.pattern id).isReference = false)
    (hliteral : (g.lexicon.pattern id).literal? = none) :
    id ∈ g.tokensRegistered.checkReferences.declaredPatterns := by
  obtain ⟨names, -, hnames, hregisters, hresolves⟩ := exists_registered hg
  obtain ⟨tp, e, he, rfl⟩ := mem_declaredPatterns.mp hid
  refine mem_declaredPatterns.mpr ⟨tp, e, hresolves.mem tp e ?_ ?_, rfl⟩
  · refine mem_entries_registerTokens ?_ ?_ <;> rw [hnames]
    · exact he
    · exact hliteral
  · rw [hregisters.isReference_eq]
    exact href

/-! ### Tokens that refer to tokens -/

/-- Both are tokens with a name, and the first one refers to the second one by its name. -/
structure Cites (g : Grammar) (a b : Nat) : Prop where
  source : g.NamedToken a
  target : g.NamedToken b
  refers : ∃ tree, (g.lexicon.pattern a).tree = some tree ∧
    tree.Occurs (.reference (g.lexicon.pattern b).givenLabel)

/-- The checks come to the loops: each non-terminal is defined, and no error is recorded before the
references are looked at. -/
structure ChecksLoops (g : Grammar) : Prop where
  defined : g.undefinedNonTerminals = []
  silent : g.tokensRegistered.log.hasNoErrors

/-- If the checks come to the loops, they end with the check of the references. -/
theorem ChecksLoops.check_eq (h : g.ChecksLoops) :
    g.check = g.tokensRegistered.checkReferences := by
  rcases check_cases g with ⟨hundefined, -⟩ | ⟨-, ⟨herrors, -⟩ | ⟨-, hcheck⟩⟩
  · exact absurd h.defined hundefined
  · exact absurd (herrors.symm.trans h.silent) nofun
  · exact hcheck

section Loops

variable (hg : g.Drafted) (h : g.ChecksLoops)

include hg h

/-- After the checks, a name stands for the token that has it. -/
theorem namedToken_check_iff {name : String} :
    g.check.lexicon.namedToken name = some id ↔
      g.NamedToken id ∧ (g.lexicon.pattern id).givenLabel = name := by
  rw [h.check_eq]
  exact namedToken_checkReferences_iff hg h.silent

/-- But for the names, the checks change ordinals, entries and literals only. -/
theorem registers_check : ∃ names,
    ({ g.lexicon with namedTokens := names } : Lexicon).Registers g.check.lexicon := by
  rw [h.check_eq]
  obtain ⟨names, -, -, hregisters, hresolves⟩ := exists_registered hg
  exact ⟨names, hregisters.trans hresolves.registers⟩

/-- The patterns keep their references through the checks. -/
theorem references_check (id : Nat) :
    (g.check.lexicon.pattern id).references = (g.lexicon.pattern id).references := by
  obtain ⟨names, hregisters⟩ := registers_check hg h
  obtain ⟨o, hpattern⟩ := hregisters.pattern id
  rw [hpattern]
  rfl

/-- A pattern refers to tokens with a name only. -/
theorem mentions_check_iff : g.check.lexicon.Mentions a b ↔
    g.NamedToken b ∧ (g.lexicon.pattern b).givenLabel ∈ (g.lexicon.pattern a).references := by
  simp only [Mentions, references_check hg h, namedToken_check_iff hg h]
  constructor
  · rintro ⟨_, hname, hb, rfl⟩
    exact ⟨hb, hname⟩
  · rintro ⟨hb, hname⟩
    exact ⟨_, hname, hb, rfl⟩

/-- A token cites another one if it mentions it after the checks. -/
theorem cites_iff : g.Cites a b ↔ g.NamedToken a ∧ g.check.lexicon.Mentions a b := by
  rw [mentions_check_iff hg h, Pattern.mem_references_iff]
  exact ⟨fun ⟨ha, hb, hrefers⟩ => ⟨ha, hb, hrefers⟩, fun ⟨ha, hb, hrefers⟩ => ⟨ha, hb, hrefers⟩⟩

/-- A way to a pattern ends at a token with a name. -/
theorem namedToken_of_transGen (hway : TransGen g.check.lexicon.Mentions a b) : g.NamedToken b := by
  obtain ⟨x, -, hmentions⟩ := TransGen.tail'_iff.mp hway
  exact ((mentions_check_iff hg h).mp hmentions).1

/-- The ways from a token with a name are those by tokens with names. -/
theorem transGen_cites_iff (ha : g.NamedToken a) :
    TransGen g.Cites a b ↔ TransGen g.check.lexicon.Mentions a b := by
  constructor
  · exact fun hway => TransGen.mono (fun _ _ hcites => ((cites_iff hg h).mp hcites).2) _ _ hway
  · intro hway
    induction hway with
    | single hmentions => exact .single ((cites_iff hg h).mpr ⟨ha, hmentions⟩)
    | tail hway hmentions ih =>
        exact .tail ih ((cites_iff hg h).mpr ⟨namedToken_of_transGen hg h hway, hmentions⟩)

/-- A token with a name keeps its entry if it refers to a token. -/
theorem mem_declaredPatterns_of_mentions (ha : g.NamedToken a)
    (hmentions : g.check.lexicon.Mentions a b) : a ∈ g.check.declaredPatterns := by
  have hname := ((mentions_check_iff hg h).mp hmentions).2
  rw [h.check_eq]
  refine mem_declaredPatterns_checkReferences hg ha.declared ha.isReference_eq ?_
  by_contra hliteral
  rw [Pattern.references_of_literal (Option.isSome_iff_ne_none.mpr hliteral)] at hname
  exact absurd hname List.not_mem_nil

/-- After the checks, a name stands for a pattern of the lexicon. -/
theorem lt_size_of_namedToken_check (name : String) (target : Nat)
    (htarget : g.check.lexicon.namedToken name = some target) :
    target < g.check.lexicon.patterns.size := by
  obtain ⟨hnamed, -⟩ := (namedToken_check_iff hg h).mp htarget
  obtain ⟨names, hregisters⟩ := registers_check hg h
  rw [hregisters.size_eq]
  exact hg.lt_size_of_declared hnamed.declared

/-- **Nothing is reported** if and only if no token leads to itself: the search starts from every
one that does. -/
theorem loops_check_eq_nil_iff : g.check.lexicon.loops g.check.declaredPatterns = [] ↔
    ∀ id, ¬ TransGen g.check.lexicon.Mentions id id := by
  refine loops_eq_nil_iff (lt_size_of_namedToken_check hg h) fun id hloop => ?_
  obtain ⟨target, hmentions, -⟩ := TransGen.head'_iff.mp hloop
  exact mem_declaredPatterns_of_mentions hg h (namedToken_of_transGen hg h hloop) hmentions

/-- **Without a loop, each pattern leads to an end.** A pattern refers to tokens with a name, and
the search starts from those of them that refer to further ones. -/
theorem acc_check (hloops : g.check.lexicon.loops g.check.declaredPatterns = []) (id : Nat) :
    Acc (fun target id => g.check.lexicon.Mentions id target) id := by
  refine .intro id fun target hmentions => .intro target fun other hother => ?_
  have htarget := ((mentions_check_iff hg h).mp hmentions).1
  have hacc := acc_of_loops_eq_nil (lt_size_of_namedToken_check hg h) hloops target
    (mem_declaredPatterns_of_mentions hg h htarget hother)
  exact hacc.inv hother

end Loops

/-! ### The errors -/

/-- What is wrong with a reference is not that it closes a loop. -/
theorem referenceError?_ne (L : Lexicon) (explicit : Bool) (name : String) :
    referenceError? L explicit name ≠ some "Self-referential loop detected" := by
  intro hsame
  have hspelled := congrArg (Option.map String.toList) hsame
  rw [referenceError?] at hspelled
  split at hspelled
  · cases hspelled
  · split at hspelled
    · simp at hspelled
    · split at hspelled
      · cases hspelled
      · split at hspelled
        · simp at hspelled
        · split at hspelled
          · simp at hspelled
          · cases hspelled

/-- The errors about references are no loops. -/
theorem message_of_mem_referenceErrors {f : Finding} (hf : f ∈ g.referenceErrors) :
    f.message ≠ .error "Self-referential loop detected" := by
  obtain ⟨⟨p, id⟩, -, hf⟩ := List.mem_flatMap.mp hf
  obtain ⟨text, htext, rfl⟩ := List.mem_map.mp hf
  obtain ⟨name, -, htext⟩ := List.mem_filterMap.mp htext
  rintro ⟨⟩
  exact referenceError?_ne _ _ name htext

/-- **The errors about loops are those of the search**, if no error was recorded before. -/
theorem loop_mem_errors_iff (hsilent : g.log.hasNoErrors) :
    "Self-referential loop detected" ∈ g.checkReferences.log.errors ↔
      g.checkReferences.lexicon.loops g.checkReferences.declaredPatterns ≠ [] := by
  have hbefore : "Self-referential loop detected" ∉
      (g.record g.referenceErrors).resolveReferences.log.errors := by
    rw [log_resolveReferences]
    intro hmem
    rcases mem_errors_record.mp hmem with hmem | ⟨f, hf, hmessage⟩
    · exact Log.not_mem_errors hsilent _ hmem
    · exact message_of_mem_referenceErrors hf hmessage
  rw [checkReferences]
  generalize (g.record g.referenceErrors).resolveReferences = g' at hbefore ⊢
  have hloops : (∃ f ∈ g'.loopErrors, f.message = .error "Self-referential loop detected") ↔
      g'.lexicon.loops g'.declaredPatterns ≠ [] := by
    rw [loopErrors]
    cases g'.lexicon.loops g'.declaredPatterns with
    | nil =>
        refine iff_of_false ?_ fun hne => hne rfl
        rintro ⟨f, hf, -⟩
        exact absurd hf List.not_mem_nil
    | cons id ids => exact iff_of_true ⟨_, List.mem_cons_self, rfl⟩ (List.cons_ne_nil id ids)
  exact mem_errors_record.trans ((or_iff_right hbefore).trans hloops)

/-! ### The loops -/

/-- **The loops among the tokens.** Where the checks come to them, they record an error if and only
if a token with a name leads to itself by names. So if the checks end without an error, no expansion
of a pattern is cut off at a pattern that is being expanded: whatever is made there, the fragment is
the same. The lexical states, which are filled before the fragments are made, do not matter for
this. -/
theorem check_loops (hg : g.Drafted) :
    (g.ChecksLoops →
      ("Self-referential loop detected" ∈ g.check.log.errors ↔ ∃ id, TransGen g.Cites id id)) ∧
      (g.check.log.hasNoErrors → ∀ states ignoreCase cut id,
        let L : Lexicon := { g.check.lexicon with lexicalStates := states }
        L.expandCutting ignoreCase cut (L.patterns.size + 1) [] id = L.expand ignoreCase id) := by
  constructor
  · intro h
    have hreported := loop_mem_errors_iff h.silent
    rw [← h.check_eq] at hreported
    rw [hreported, Ne, loops_check_eq_nil_iff hg h, not_forall_not]
    refine exists_congr fun id => ⟨fun hloop => ?_, fun hloop => ?_⟩
    · exact (transGen_cites_iff hg h (namedToken_of_transGen hg h hloop)).mpr hloop
    · obtain ⟨_, hcites, -⟩ := TransGen.head'_iff.mp hloop
      exact (transGen_cites_iff hg h hcites.source).mp hloop
  · intro hsilent states ignoreCase cut id
    obtain ⟨hdefined, -, hregistered, -, -, hloops⟩ := check_silent hsilent
    exact expandCutting_eq (L := { g.check.lexicon with lexicalStates := states })
      (acc_check hg ⟨hdefined, hregistered⟩ hloops id)

/-- Two tokens that refer to each other. -/
def twoCiters : Grammar :=
  withTokens [{ givenLabel := "A", tree := some (.concat [.text "x", .reference "B"])
                production := some 0 },
    { givenLabel := "B", tree := some (.choice [.text "y", .reference "A"])
      production := some 0 }] []

/-- The builder makes `twoCiters`. -/
theorem drafted_twoCiters : twoCiters.Drafted :=
  (Drafted.new {}).addTokenProduction {} rfl
    |>.addEntry 0 "A" false (some (.concat [.text "x", .reference "B"])) rfl
    |>.addEntry 0 "B" false (some (.choice [.text "y", .reference "A"])) rfl

/-- An error is recorded for the two tokens, so one of them leads to itself. The three tokens and
the terminal lead to an end, and none of them is cut off. -/
theorem check_loops_twoCiters :
    (twoCiters.Drafted ∧ twoCiters.ChecksLoops ∧
      "Self-referential loop detected" ∈ twoCiters.check.log.errors ∧
      ∃ id, TransGen twoCiters.Cites id id) ∧
    tokenChain.Drafted ∧ tokenChain.ChecksLoops ∧ tokenChain.check.log.hasNoErrors ∧
      (¬ ∃ id, TransGen tokenChain.Cites id id) ∧
      ∀ ignoreCase cut id,
        tokenChain.check.lexicon.expandCutting ignoreCase cut
            (tokenChain.check.lexicon.patterns.size + 1) [] id
          = tokenChain.check.lexicon.expand ignoreCase id := by
  have hciters : twoCiters.ChecksLoops := ⟨by decide +kernel, by decide +kernel⟩
  have hreported : "Self-referential loop detected" ∈ twoCiters.check.log.errors := by
    decide +kernel
  have hchain : tokenChain.ChecksLoops := ⟨by decide +kernel, by decide +kernel⟩
  have hsilent : tokenChain.check.log.hasNoErrors := by decide +kernel
  obtain ⟨hiff, hexpand⟩ := check_loops drafted_tokenChain
  exact ⟨⟨drafted_twoCiters, hciters, hreported,
      ((check_loops drafted_twoCiters).1 hciters).mp hreported⟩,
    drafted_tokenChain, hchain, hsilent,
    fun hloop => Log.not_mem_errors hsilent _ ((hiff hchain).mpr hloop),
    fun ignoreCase cut id =>
      hexpand hsilent tokenChain.check.lexicon.lexicalStates ignoreCase cut id⟩

/-- The expansion of the first of the two tokens is cut off. -/
example : (twoCiters.check.lexicon.expandCutting false (fun _ => .error .index)
    (twoCiters.check.lexicon.patterns.size + 1) [] 1 .start).toBool = false := by
  decide +kernel

end Grammar

end GrammarAnalysis
