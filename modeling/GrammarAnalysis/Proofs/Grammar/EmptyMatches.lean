import GrammarAnalysis.Proofs.Grammar.Terminals

/-!
# Patterns That Match the Empty Text

The checks look for patterns that match the empty text before any pattern is named, when each
reference is to nothing. Nothing escapes them for this. If a pattern matches the empty text by its
references, then one of the patterns that these lead to matches it alone, whatever its own names
stand for; and this pattern is declared in a token production, where the checks look at it.

## Main definitions

* `Lexicon.EmptyAlone`: a pattern that matches the empty text even if none of its names does;
* `Lexicon.Placed`: each pattern is the end of the input, a reference, or declared in a token
  production.

## Main results

* `Lexicon.exists_emptyAlone`: what the references of a pattern that matches the empty text lead to;
* `Grammar.namedToken_checkReferences_iff`: the tokens with a name are named, unless an error is
  recorded;
* `Grammar.check_matchesEmpty`: after checks without an error, no pattern matches the empty text.
-/

namespace GrammarAnalysis

namespace Regex

variable {nullable : String → Bool}

mutual

/-- A tree that matches the empty text does so alone, or one of its names does. -/
theorem nullableWith_cases : (r : Regex) → r.nullableWith nullable →
    r.nullableWith (fun _ => false) ∨ ∃ name, r.Occurs (.reference name) ∧ nullable name
  | concat parts, h => by
    rw [nullableWith] at h ⊢
    exact (allNullable_cases parts h).imp_right
      fun ⟨r, hr, name, hname, hnull⟩ => ⟨name, .concat hr hname, hnull⟩
  | choice alternatives, h => by
    rw [nullableWith] at h ⊢
    exact (anyNullable_cases alternatives h).imp_right
      fun ⟨r, hr, name, hname, hnull⟩ => ⟨name, .choice hr hname, hnull⟩
  | repeated q operands, h => by
    have hall : allNullable nullable operands → allNullable (fun _ => false) operands ∨
        ∃ name, (repeated q operands).Occurs (.reference name) ∧ nullable name := fun h =>
      (allNullable_cases operands h).imp_right
        fun ⟨r, hr, name, hname, hnull⟩ => ⟨name, .repeated hr hname, hnull⟩
    rw [nullableWith_repeated] at h ⊢
    rcases q with _ | _ | _ | ⟨min, max⟩
    · exact .inl h
    · exact hall h
    · exact .inl h
    · rcases h with hmin | h
      · exact .inl (.inl hmin)
      · exact (hall h).imp_left .inr
  | reference name, h => .inr ⟨name, .self, by rwa [nullableWith] at h⟩
  | text image, h => .inl (by rwa [nullableWith] at h ⊢)
  | chars set negated, h => by rw [nullableWith] at h; cases h
  | endOfInput, h => by rw [nullableWith] at h; cases h

/-- Trees that are all nullable are so without names, or a nullable name occurs in one of them. -/
theorem allNullable_cases : (rs : List Regex) → allNullable nullable rs →
    allNullable (fun _ => false) rs ∨
      ∃ r ∈ rs, ∃ name, r.Occurs (.reference name) ∧ nullable name
  | [], _ => .inl (by rw [allNullable])
  | r :: rest, h => by
    rw [allNullable_cons] at h ⊢
    rcases nullableWith_cases r h.1 with hr | hr
    · exact (allNullable_cases rest h.2).imp (fun hrest => ⟨hr, hrest⟩)
        fun ⟨s, hs, hname⟩ => ⟨s, List.mem_cons_of_mem r hs, hname⟩
    · exact .inr ⟨r, List.mem_cons_self, hr⟩

/-- If one of the trees is nullable, it is so without names, or a nullable name occurs in it. -/
theorem anyNullable_cases : (rs : List Regex) → anyNullable nullable rs →
    anyNullable (fun _ => false) rs ∨
      ∃ r ∈ rs, ∃ name, r.Occurs (.reference name) ∧ nullable name
  | [], h => by rw [anyNullable] at h; cases h
  | r :: rest, h => by
    rw [anyNullable_cons] at h ⊢
    rcases h with h | h
    · exact (nullableWith_cases r h).imp .inl fun hname => ⟨r, List.mem_cons_self, hname⟩
    · exact (anyNullable_cases rest h).imp .inr
        fun ⟨s, hs, hname⟩ => ⟨s, List.mem_cons_of_mem r hs, hname⟩

end

end Regex

namespace Lexicon

variable {L L' : Lexicon} {id : Nat}

/-! ### References to patterns that match the empty text -/

/-- The pattern matches the empty text even if none of its names does. -/
def EmptyAlone (L : Lexicon) (id : Nat) : Prop :=
  ∃ tree, (L.pattern id).tree = some tree ∧ tree.nullableWith fun _ => false

/-- **A pattern that matches the empty text** does so alone, or its references lead to one that
does. -/
theorem exists_emptyAlone {budget : Nat} {visiting : List Nat}
    (h : L.matchesEmptyWithin budget visiting id) :
    ∃ target, Relation.ReflTransGen L.Mentions id target ∧ L.EmptyAlone target := by
  induction budget generalizing visiting id with
  | zero => cases h
  | succ budget ih =>
      rw [matchesEmptyWithin] at h
      cases htree : (L.pattern id).tree with
      | none =>
          rw [htree] at h
          cases h
      | some tree =>
          rw [htree] at h
          rcases Regex.nullableWith_cases tree h with halone | ⟨name, hname, hnull⟩
          · exact ⟨id, .refl, tree, htree, halone⟩
          · split at hnull
            · cases hnull
            · rename_i target htarget
              split at hnull
              · cases hnull
              · obtain ⟨x, hx, halone⟩ := ih hnull
                exact ⟨x, .head (mentions_of_occurs htree hname htarget) hx, halone⟩

/-! ### The places of the patterns -/

/-- Each pattern is the end of the input, a reference, or declared in a token production. -/
def Placed (L : Lexicon) : Prop :=
  ∀ id < L.patterns.size, id = 0 ∨ (∃ name, (L.pattern id).tree = some (.reference name)) ∨
    ∃ tp, id ∈ (L.production tp).entries.map TokenEntry.pattern

/-- Patterns that have their places keep them. -/
theorem Retains.placed (h : L.Retains L') (hL : L.Placed)
    (hnew : ∀ id, L.patterns.size ≤ id → id < L'.patterns.size →
      (∃ name, (L'.pattern id).tree = some (.reference name)) ∨
        ∃ tp, id ∈ (L'.production tp).entries.map TokenEntry.pattern) : L'.Placed := by
  intro id hid
  by_cases hlt : id < L.patterns.size
  · refine (hL id hlt).imp_right (Or.imp (fun ⟨name, htree⟩ => ⟨name, ?_⟩) fun ⟨tp, hmem⟩ => ?_)
    · obtain ⟨position, hpattern⟩ := h.pattern id hlt
      rw [hpattern]
      exact htree
    · have htp : tp < L.tokenProductions.size := by
        by_contra hge
        rw [production_of_size_le (Nat.le_of_not_lt hge)] at hmem
        exact absurd hmem List.not_mem_nil
      exact ⟨tp, (h.production tp htp).entries id hmem⟩
  · exact .inr (hnew id (Nat.le_of_not_lt hlt) hid)

/-- A new pattern is a reference, or gets a place. -/
theorem DraftStep.placed (h : DraftStep L L') (hL : L.Placed) : L'.Placed := by
  refine h.retains.placed hL fun id hge hlt => ?_
  have hsame : L'.patterns.size = L.patterns.size → False := fun heq => by omega
  cases h with
  | state name =>
      refine (hsame ?_).elim
      rw [addLexicalState]
      split <;> rfl
  | production tp _ _ => exact (hsame rfl).elim
  | @entry _ tp _ _ _ _ h =>
      obtain ⟨htp, rfl, p, -, -, -, -, rfl⟩ := addEntry_cases h
      obtain rfl : id = L.patterns.size := by
        have hsize : (L.addPattern p).2.patterns.size = L.patterns.size + 1 := Array.size_push ..
        change id < (L.addPattern p).2.patterns.size at hlt
        omega
      refine .inr ⟨tp, ?_⟩
      rw [production_modifyProduction, if_pos ⟨rfl, htp⟩, List.map_append]
      exact List.mem_append_right _ (List.mem_singleton_self _)
  | reference name =>
      obtain rfl : id = L.patterns.size := by
        rw [addPattern, Array.size_push] at hlt
        omega
      exact .inl ⟨name, congrArg Pattern.tree ((pattern_addPattern L _ _).trans (if_pos rfl))⟩
  | extraToken name =>
      refine (hsame ?_).elim
      rw [addExtraToken]
      split <;> rfl
  | modifyEntries tp f _ => exact (hsame rfl).elim
  | position x position => exact (hsame (Array.size_modify ..)).elim

/-- The patterns of an empty lexicon have their places. -/
theorem placed_new (ignoreCase : Bool) :
    ((Lexicon.new ignoreCase).addLexicalState defaultLexicalState).2.Placed :=
  fun _ hid => .inl (Nat.lt_one_iff.mp hid)

end Lexicon

namespace Grammar

open Lexicon

variable {g : Grammar} {id : Nat}

/-- The patterns of a draft have their places. -/
theorem Drafted.placed (hg : g.Drafted) : g.lexicon.Placed := by
  obtain ⟨options, h⟩ := hg
  have hsteps := (draftsLexicon_of_draftSteps h rfl).1.1
  generalize g.lexicon = L at hsteps
  induction hsteps with
  | refl => exact placed_new options.ignoreCase
  | tail _ hstep ih => exact hstep.placed ih

/-- **What the check has accepted** does not match the empty text alone. -/
theorem not_emptyAlone (hg : g.Drafted) (h : ∀ f ∈ g.patternErrors, f.message.isError = false)
    (id : Nat) : ¬ g.lexicon.EmptyAlone id := by
  rintro ⟨tree, htree, halone⟩
  rcases hg.placed id (lt_size_of_tree htree) with rfl | ⟨name, hname⟩ | ⟨tp, hmem⟩
  · rw [hg.fresh.endOfInput.1] at htree
    cases htree
    rw [Regex.nullableWith] at halone
    cases halone
  · rw [hname] at htree
    cases htree
    rw [Regex.nullableWith] at halone
    cases halone
  · obtain ⟨e, he, rfl⟩ := List.mem_map.mp hmem
    rw [nullableWith_eq_false hg h he htree] at halone
    cases halone

/-! ### The names -/

/-- A pattern is named, if no error is recorded: one with a label that is no reference. -/
theorem registerName_cases (hsilent : (g.registerName id).log.hasNoErrors) :
    g.log.hasNoErrors ∧
      (((g.lexicon.pattern id).isReference || !(g.lexicon.pattern id).hasLabel) ∧
          g.registerName id = g ∨
        g.lexicon.namedToken (g.lexicon.pattern id).givenLabel = none ∧
          g.registerName id = { g with lexicon := { g.lexicon with
            namedTokens := g.lexicon.namedTokens ++
              [((g.lexicon.pattern id).givenLabel, id)] } }) := by
  unfold registerName at hsilent ⊢
  simp only at hsilent ⊢
  split
  · rename_i hunnamed
    rw [if_pos hunnamed] at hsilent
    exact ⟨hsilent, .inl ⟨hunnamed, rfl⟩⟩
  · rename_i hnamed
    rw [if_neg hnamed] at hsilent
    split
    · rename_i hused
      rw [if_pos hused] at hsilent
      have herror := (hasNoErrors_record.mp hsilent).2 _ (List.mem_singleton_self _)
      cases herror
    · rename_i hfree
      rw [if_neg hfree] at hsilent
      refine ⟨hsilent, .inr ⟨Option.not_isSome_iff_eq_none.mp hfree, ?_⟩⟩
      rw [addNamedToken, ← namedToken, if_neg hfree]

/-- The patterns of a list are named in turn. -/
theorem namedToken_foldl (ids : List Nat)
    (hsilent : (ids.foldl registerName g).log.hasNoErrors) :
    (∀ id, (ids.foldl registerName g).lexicon.pattern id = g.lexicon.pattern id) ∧
      ∀ id ∈ ids, (g.lexicon.pattern id).isReference = false → (g.lexicon.pattern id).hasLabel →
        (ids.foldl registerName g).lexicon.namedToken (g.lexicon.pattern id).givenLabel
          = some id := by
  induction ids using List.reverseRecOn with
  | nil => exact ⟨fun _ => rfl, fun _ hid => absurd hid List.not_mem_nil⟩
  | append_singleton ids x ih =>
      rw [List.foldl_append, List.foldl_cons, List.foldl_nil] at hsilent ⊢
      obtain ⟨hbefore, hcases⟩ := registerName_cases hsilent
      obtain ⟨hpattern, hnamed⟩ := ih hbefore
      rw [hpattern] at hcases
      rcases hcases with ⟨hunnamed, heq⟩ | ⟨hfree, heq⟩
      · rw [heq]
        refine ⟨hpattern, fun id hid href hlabel => ?_⟩
        rcases List.mem_append.mp hid with hid | hid
        · exact hnamed id hid href hlabel
        · rw [← List.mem_singleton.mp hid, href, hlabel] at hunnamed
          cases hunnamed
      · rw [heq]
        refine ⟨hpattern, fun id hid href hlabel => ?_⟩
        rw [namedToken, List.lookup_append]
        rcases List.mem_append.mp hid with hid | hid
        · rw [← namedToken, hnamed id hid href hlabel]
          rfl
        · rw [List.mem_singleton.mp hid, ← namedToken, hfree]
          simp

/-- **The tokens with a name are named**, unless an error is recorded before the references are
looked at; and nothing else is. -/
theorem namedToken_checkReferences_iff (hg : g.Drafted)
    (hsilent : g.tokensRegistered.log.hasNoErrors) {name : String} :
    g.tokensRegistered.checkReferences.lexicon.namedToken name = some id ↔
      g.NamedToken id ∧ (g.lexicon.pattern id).givenLabel = name := by
  obtain ⟨names, hentries, hnames, hregisters, hresolves⟩ := exists_registered hg
  rw [namedToken, hresolves.registers.namedTokens_eq, hregisters.namedTokens_eq]
  constructor
  · exact fun h => hentries _ (Automaton.mem_of_lookup h)
  · rintro ⟨hid, rfl⟩
    have hsame := lexicon_checkProductions g
    have hnamed := (namedToken_foldl (g := g.checkProductions) g.checkProductions.declaredPatterns
      (quieter_registerTokens _ hsilent)).2 id
    rw [← registerNames, hnames, declaredPatterns_congr hsame, hsame] at hnamed
    exact hnamed hid.declared hid.isReference_eq hid.hasLabel

/-! ### After the checks -/

/-- **After checks without an error, no pattern matches the empty text**, although the checks look
at the patterns before any is named. By then, each pattern with a label that a token production
declares is named, unless it is a reference, and each name that a pattern refers to is that of a
pattern or of an extra token. -/
theorem check_matchesEmpty (hg : g.Drafted) (hsilent : g.check.log.hasNoErrors) :
    (∀ id ∈ g.declaredPatterns, (g.lexicon.pattern id).isReference = false →
      (g.lexicon.pattern id).hasLabel →
        g.check.lexicon.namedToken (g.lexicon.pattern id).givenLabel = some id) ∧
      g.check.lexicon.Resolved ∧
      ∀ id < g.check.lexicon.patterns.size, g.check.lexicon.matchesEmpty id = false := by
  obtain ⟨-, hcheck, hregistered, hpatterns, -⟩ := check_silent hsilent
  obtain ⟨names, -, -, hregisters, hresolves⟩ := exists_checked hg hsilent
  refine ⟨fun id hid href hlabel => ?_, resolved_check hsilent, fun id _ => ?_⟩
  · rw [hcheck]
    exact (namedToken_checkReferences_iff hg hregistered).mpr ⟨⟨hid, href, hlabel⟩, rfl⟩
  by_contra hempty
  rw [Bool.not_eq_false] at hempty
  obtain ⟨target, -, tree, htree, halone⟩ := exists_emptyAlone hempty
  -- the checks have changed no tree
  obtain ⟨o, hpattern⟩ := (hregisters.trans hresolves.registers).pattern target
  rw [hpattern] at htree
  exact not_emptyAlone hg hpatterns target ⟨tree, htree, halone⟩

/-- Three tokens: `A` refers to `B`, and `B` to `C`. -/
def threeTokens : Grammar :=
  withTokens [{ givenLabel := "A", tree := some (.concat [.reference "B", .reference "B"])
                production := some 0 },
    { givenLabel := "B", tree := some (.choice [.text "x", .reference "C"])
      production := some 0 },
    { givenLabel := "C", tree := some (.text "y"), production := some 0 }] []

/-- The three tokens, and a terminal that refers to the first. -/
def tokenChain : Grammar := threeTokens.withReference "A"

/-- The builder makes `threeTokens`. -/
theorem drafted_threeTokens : threeTokens.Drafted :=
  (Drafted.new {}).addTokenProduction {} rfl
    |>.addEntry 0 "A" false (some (.concat [.reference "B", .reference "B"])) rfl
    |>.addEntry 0 "B" false (some (.choice [.text "x", .reference "C"])) rfl
    |>.addEntry 0 "C" false (some (.text "y")) rfl

/-- The builder makes `tokenChain`. -/
theorem drafted_tokenChain : tokenChain.Drafted :=
  have hadd : threeTokens.addTokenReference "A" = .ok (0, tokenChain) := rfl
  drafted_threeTokens.addTokenReference hadd

/-- Neither the three tokens nor the terminal match the empty text. -/
theorem check_matchesEmpty_tokenChain :
    tokenChain.Drafted ∧ tokenChain.check.log.hasNoErrors ∧
      (∀ id ∈ tokenChain.declaredPatterns, (tokenChain.lexicon.pattern id).isReference = false →
        (tokenChain.lexicon.pattern id).hasLabel →
          tokenChain.check.lexicon.namedToken (tokenChain.lexicon.pattern id).givenLabel
            = some id) ∧
      tokenChain.check.lexicon.Resolved ∧
      ∀ id < tokenChain.check.lexicon.patterns.size,
        tokenChain.check.lexicon.matchesEmpty id = false := by
  have hsilent : tokenChain.check.log.hasNoErrors := by decide +kernel
  exact ⟨drafted_tokenChain, hsilent, check_matchesEmpty drafted_tokenChain hsilent⟩

end Grammar

end GrammarAnalysis
