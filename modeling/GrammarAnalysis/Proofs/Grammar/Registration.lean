import GrammarAnalysis.Proofs.Grammar.Diagnostics
import GrammarAnalysis.Proofs.Grammar.Drafts
import GrammarAnalysis.Proofs.Lexicon.Ledger

/-!
# The Table of the Tokens

The checks of a draft register its tokens: pattern by pattern, and a literal in each lexical state
of its token production. Each of these steps keeps the ledger of the registration, and so do all of
them together. The references are resolved afterwards, which leaves the table of the tokens alone.

## Main definitions

* `Grammar.RegisteredBelow`: the first token productions have been registered;
* `Grammar.NamedToken`: a token with a name.

## Main results

* `Grammar.literalIn_ledger`, `Grammar.pattern_ledger`, `Grammar.registerTokens_registered`: the
  steps keep the ledger;
* `Grammar.check_ordinals`: the table of the tokens has no pattern twice, and it agrees with the
  patterns unless they straddle.
-/

namespace GrammarAnalysis

namespace Grammar

open Lexicon

variable {L₀ : Lexicon} {visited gone : Nat → Prop} {id tp : Nat} {image : String}

/-! ### One lexical state -/

/-- What the registration of a token production has removed, besides `gone`. -/
def Registration.Gone (gone : Nat → Prop) (r : Registration) (id : Nat) : Prop :=
  gone id ∨ id ∈ r.removed

/-- The ledger after a literal was declared. -/
theorem declareLiteral_ledger {L : Lexicon} (h : Ledger L₀ visited gone L) (hid : visited id)
    (hspells : L₀.Spells tp id image) (hkept : ¬ L₀.Straddles id → ¬ gone id) {i : Nat}
    {name : String} (hname : name ∈ (L₀.production tp).lexicalStates)
    (hi : L₀.stateIndex name = some i) :
    Ledger L₀ visited gone (declareLiteral L i id image) := by
  rw [declareLiteral]
  cases hordinal : (L.pattern id).ordinal with
  | none =>
      have hself := ordinal_register (h.registers.size_eq ▸ hspells.lt_size)
      exact (h.register hid hspells.lt_size hordinal hspells.isReference_eq).enter hid hspells
        (by rw [hself]; rfl) hkept hname hi
  | some o => exact h.enter hid hspells (by rw [hordinal]; rfl) hkept hname hi

/-- **One lexical state keeps the ledger.** A literal that does not straddle and is not explicit
has no ordinal yet. -/
theorem literalIn_ledger {r : Registration} (h : Ledger L₀ visited (r.Gone gone) r.grammar.lexicon)
    (hid : visited id) (hspells : L₀.Spells tp id image)
    (hfree : (L₀.production tp).explicit = false →
      L₀.Straddles id ∨ (r.grammar.lexicon.pattern id).ordinal = none)
    (hkept : ¬ L₀.Straddles id → ¬ r.Gone gone id) {name : String}
    (hname : name ∈ (L₀.production tp).lexicalStates) :
    Ledger L₀ visited ((r.literalIn (L₀.production tp).explicit id image name).Gone gone)
        (r.literalIn (L₀.production tp).explicit id image name).grammar.lexicon ∧
      ((L₀.production tp).explicit = true →
        (r.literalIn (L₀.production tp).explicit id image name).removed = r.removed) := by
  have hstep := literalStep_literalIn (L₀.production tp).explicit id image name r
  generalize r.literalIn (L₀.production tp).explicit id image name = r' at hstep ⊢
  cases hstep with
  | undefined _ => exact ⟨h, fun _ => rfl⟩
  | repeated _ _ _ => exact ⟨h, fun _ => rfl⟩
  | conflict => exact ⟨h, fun _ => rfl⟩
  | declared hi hnone =>
      rw [h.registers.stateIndex_eq] at hi
      exact ⟨declareLiteral_ledger h hid hspells hkept hname hi, fun _ => rfl⟩
  | @shared i present hexplicit hi hpresent =>
      obtain ⟨s, hs, hpresent⟩ := Option.bind_eq_some_iff.mp hpresent
      have hshared := h.share hid (hfree hexplicit) (h.tabled i s image present hs hpresent).2.1
      refine ⟨hshared.congr (fun _ => Iff.rfl) fun x => ?_, fun h => ?_⟩
      · simp only [Registration.Gone, List.mem_append, List.mem_singleton]
        tauto
      · rw [hexplicit] at h
        cases h

/-- The lexical states of a token production keep the ledger. -/
theorem literals_ledger (hid : visited id) (hspells : L₀.Spells tp id image)
    (names : List String) :
    ∀ {r : Registration}, Ledger L₀ visited (r.Gone gone) r.grammar.lexicon →
      (∀ name ∈ names, name ∈ (L₀.production tp).lexicalStates) →
      ((L₀.production tp).explicit = false → L₀.Straddles id ∨
        names.length ≤ 1 ∧ (r.grammar.lexicon.pattern id).ordinal = none) →
      (¬ L₀.Straddles id → ¬ r.Gone gone id) →
      Ledger L₀ visited
        ((names.foldl (Registration.literalIn (L₀.production tp).explicit id image) r).Gone gone)
        (names.foldl (Registration.literalIn (L₀.production tp).explicit id image)
          r).grammar.lexicon := by
  induction names with
  | nil => exact fun h _ _ _ => h
  | cons name names ih =>
      intro r h hnames hfree hkept
      obtain ⟨hnext, hremoved⟩ := literalIn_ledger h hid hspells
        (fun hexplicit => (hfree hexplicit).imp_right And.right) hkept
        (hnames name List.mem_cons_self)
      cases names with
      | nil => exact hnext
      | cons other names =>
          -- there is a further lexical state, so the literal straddles unless it is explicit
          have hstraddles (hexplicit : (L₀.production tp).explicit = false) : L₀.Straddles id :=
            (hfree hexplicit).resolve_right fun h => by simp at h
          refine ih hnext (fun n hn => hnames n (List.mem_cons_of_mem name hn))
            (fun hexplicit => .inl (hstraddles hexplicit)) fun hstays => ?_
          have hexplicit : (L₀.production tp).explicit = true := by
            by_contra hexplicit
            exact hstays (hstraddles (by simpa using hexplicit))
          rw [Registration.Gone, hremoved hexplicit]
          exact hkept hstays

/-! ### One pattern, and one token production -/

/-- The registration of patterns removes nothing but these. -/
theorem RegistrationSteps.removed {ids : List Nat} {r r' : Registration}
    (h : RegistrationSteps ids r r') : ∀ x ∈ r'.removed, x ∈ r.removed ∨ x ∈ ids := by
  refine h.preserves (P := fun r' => ∀ x ∈ r'.removed, x ∈ r.removed ∨ x ∈ ids)
    (fun id hid r₁ r₂ hstep ih => ?_) fun x hx => .inl hx
  cases hstep with
  | shared =>
      intro x hx
      rcases List.mem_append.mp hx with hx | hx
      · exact ih x hx
      · exact .inr (List.mem_singleton.mp hx ▸ hid)
  | _ => exact ih

/-- A literal of a token production that is not explicit straddles, or has one lexical state. -/
theorem straddles_or_length_le (hspells : L₀.Spells tp id image)
    (hexplicit : (L₀.production tp).explicit = false) :
    L₀.Straddles id ∨ (L₀.production tp).lexicalStates.length ≤ 1 := by
  by_cases hlength : (L₀.production tp).lexicalStates.length ≤ 1
  · exact .inr hlength
  · exact .inl ⟨by rw [hspells.literal?_eq]; rfl, tp, hspells.production_eq, hexplicit,
      Nat.lt_of_not_le hlength⟩

/-- **One pattern keeps the ledger.** -/
theorem pattern_ledger {r : Registration} (hL : L₀.Fresh)
    (h : Ledger L₀ visited (r.Gone gone) r.grammar.lexicon)
    (hentry : id ∈ (L₀.production tp).entries.map TokenEntry.pattern) (hid : ¬ visited id)
    (hgone : ¬ r.Gone gone id) :
    Ledger L₀ (fun x => x = id ∨ visited x) ((r.pattern (L₀.production tp) id).Gone gone)
      (r.pattern (L₀.production tp) id).grammar.lexicon := by
  obtain ⟨e, he, rfl⟩ := List.mem_map.mp hentry
  obtain ⟨hlt, hproduction⟩ := hL.declared tp e he
  have hne : e.pattern ≠ 0 := fun heq => by
    rw [heq, hL.endOfInput.2.2] at hproduction
    cases hproduction
  have hnone := hL.unregistered _ hne
  have hordinal := (h.untouched _ hid).trans hnone
  have hvisit := h.visit hid hnone
  obtain ⟨o, hpattern⟩ := h.registers.pattern e.pattern
  have hstep := patternStep_pattern (L₀.production tp) e.pattern r
  generalize r.pattern (L₀.production tp) e.pattern = r' at hstep ⊢
  have hnamed : ∀ {r' : Registration}, Ledger L₀ (fun x => x = e.pattern ∨ visited x)
      (r'.Gone gone) r'.grammar.lexicon → Ledger L₀ (fun x => x = e.pattern ∨ visited x)
        ((r'.nameToken e.pattern).Gone gone) (r'.nameToken e.pattern).grammar.lexicon :=
    fun {r'} h => by
      obtain ⟨names, hnames⟩ := nameToken_eq e.pattern r'
      rwa [hnames]
  cases hstep with
  | reference _ => exact hvisit
  | hidden _ _ => exact hvisit
  | token href _ _ =>
      rw [h.registers.isReference_eq] at href
      exact hnamed (hvisit.register (.inl rfl) hlt hordinal href)
  | literal _ hprivate hliteral =>
      rw [hpattern] at hprivate hliteral
      have hspells : L₀.Spells tp e.pattern _ := ⟨hlt, hliteral, hproduction, hprivate⟩
      exact hnamed (literals_ledger (.inl rfl) hspells _ hvisit (fun _ hname => hname)
        (fun hexplicit => (straddles_or_length_le hspells hexplicit).imp_right
          fun hlength => ⟨hlength, hordinal⟩) fun _ => hgone)

/-- The patterns of a token production keep the ledger. -/
theorem patterns_ledger (hL : L₀.Fresh) (ids : List Nat) :
    ∀ {r : Registration} {visited : Nat → Prop},
      Ledger L₀ visited (r.Gone gone) r.grammar.lexicon → ids.Nodup →
      (∀ id ∈ ids, id ∈ (L₀.production tp).entries.map TokenEntry.pattern) →
      (∀ id ∈ ids, ¬ visited id ∧ ¬ r.Gone gone id) →
      Ledger L₀ (fun x => x ∈ ids ∨ visited x)
        ((ids.foldl (Registration.pattern (L₀.production tp)) r).Gone gone)
        (ids.foldl (Registration.pattern (L₀.production tp)) r).grammar.lexicon := by
  induction ids with
  | nil =>
      intro r visited h _ _ _
      simpa using h
  | cons id ids ih =>
      intro r visited h hnodup hentries hnew
      obtain ⟨hid, hnodup⟩ := List.nodup_cons.mp hnodup
      obtain ⟨hentry, hentries⟩ := List.forall_mem_cons.mp hentries
      obtain ⟨⟨hfirst, hfirst'⟩, hnew⟩ := List.forall_mem_cons.mp hnew
      have hremoved := (pattern_steps (List.mem_singleton_self id) (L₀.production tp) r).removed
      have hall := ih (pattern_ledger hL h hentry hfirst hfirst') hnodup hentries fun x hx => by
        have hne : x ≠ id := fun heq => hid (heq ▸ hx)
        obtain ⟨hvisited, hgone⟩ := hnew x hx
        refine ⟨fun h => h.elim hne hvisited, fun h => ?_⟩
        rcases h with h | h
        · exact hgone (.inl h)
        · exact (hremoved x h).elim (fun h => hgone (.inr h)) fun h => hne (List.mem_singleton.mp h)
      refine hall.congr (fun x => ?_) fun _ => Iff.rfl
      rw [List.mem_cons]
      tauto

/-- The registration of patterns changes no token production. -/
theorem RegistrationSteps.tokenProductions_eq {ids : List Nat} {r r' : Registration}
    (h : RegistrationSteps ids r r') :
    r'.grammar.lexicon.tokenProductions = r.grammar.lexicon.tokenProductions := by
  refine h.preserves (P := fun r' =>
    r'.grammar.lexicon.tokenProductions = r.grammar.lexicon.tokenProductions)
    (fun id _ r₁ r₂ hstep ih => ?_) rfl
  cases hstep with
  | declared _ =>
      refine Eq.trans ?_ ih
      simp only [declareLiteral]
      split <;> rfl
  | _ => exact ih

/-! ### All token productions -/

/-- The pattern is declared in one of the first `k` token productions. -/
def DeclaredBelow (L : Lexicon) (k id : Nat) : Prop :=
  ∃ tp, tp < k ∧ id ∈ (L.production tp).entries.map TokenEntry.pattern

/-- The first `k` token productions have been registered. The patterns that `gone` holds of were
removed from them. -/
structure RegisteredBelow (L₀ : Lexicon) (k : Nat) (gone : Nat → Prop) (L : Lexicon) : Prop where
  ledger : Ledger L₀ (DeclaredBelow L₀ k) gone L
  pending : ∀ tp, k ≤ tp → L.production tp = L₀.production tp
  declared_of_gone : ∀ id, gone id → DeclaredBelow L₀ k id
  entries : ∀ tp e, e ∈ (L.production tp).entries ↔
    e ∈ (L₀.production tp).entries ∧ ¬ gone e.pattern

/-- A pattern is declared in one token production only. -/
theorem production_eq_of_mem (hL : L₀.Fresh) {tp' : Nat}
    (h : id ∈ (L₀.production tp).entries.map TokenEntry.pattern)
    (h' : id ∈ (L₀.production tp').entries.map TokenEntry.pattern) : tp = tp' := by
  obtain ⟨e, he, rfl⟩ := List.mem_map.mp h
  obtain ⟨e', he', heq⟩ := List.mem_map.mp h'
  have hproduction := (hL.declared tp e he).2
  rw [← heq, (hL.declared tp' e' he').2] at hproduction
  exact (Option.some.inj hproduction).symm

/-- A pattern is declared in one token production only. -/
theorem not_declaredBelow (hL : L₀.Fresh) {k : Nat}
    (hid : id ∈ (L₀.production k).entries.map TokenEntry.pattern) : ¬ DeclaredBelow L₀ k id := by
  rintro ⟨tp, htp, hmem⟩
  exact Nat.ne_of_lt htp (production_eq_of_mem hL hmem hid)

/-- The patterns of the first `k + 1` token productions are those of the last one and of the first
`k`. -/
theorem declaredBelow_succ {k x : Nat} : DeclaredBelow L₀ (k + 1) x ↔
    x ∈ (L₀.production k).entries.map TokenEntry.pattern ∨ DeclaredBelow L₀ k x := by
  simp only [DeclaredBelow, Nat.lt_succ_iff_lt_or_eq]
  constructor
  · rintro ⟨tp, htp | rfl, hx⟩
    · exact .inr ⟨tp, htp, hx⟩
    · exact .inl hx
  · rintro (hx | ⟨tp, htp, hx⟩)
    · exact ⟨k, .inr rfl, hx⟩
    · exact ⟨tp, .inl htp, hx⟩

/-- Nothing is known yet of the patterns of the next token production. -/
theorem RegisteredBelow.not_gone {k : Nat} {L : Lexicon} (hL : L₀.Fresh)
    (h : RegisteredBelow L₀ k gone L)
    (hid : id ∈ (L₀.production k).entries.map TokenEntry.pattern) : ¬ gone id :=
  fun hgone => not_declaredBelow hL hid (h.declared_of_gone id hgone)

/-- Patterns of the next token production keep the ledger. -/
theorem RegisteredBelow.patterns {g : Grammar} {k : Nat} (hL : L₀.Fresh)
    (h : RegisteredBelow L₀ k gone g.lexicon) {ids : List Nat} (hnodup : ids.Nodup)
    (hids : ∀ id ∈ ids, id ∈ (L₀.production k).entries.map TokenEntry.pattern) :
    Ledger L₀ (fun x => x ∈ ids ∨ DeclaredBelow L₀ k x)
      ((ids.foldl (Registration.pattern (L₀.production k)) { grammar := g }).Gone gone)
      (ids.foldl (Registration.pattern (L₀.production k)) { grammar := g }).grammar.lexicon := by
  have hstart : ∀ x, Registration.Gone gone { grammar := g } x ↔ gone x := fun x => by
    simp [Registration.Gone]
  exact patterns_ledger hL ids (h.ledger.congr (fun _ => Iff.rfl) hstart) hnodup hids fun id hid =>
    ⟨not_declaredBelow hL (hids id hid), fun hgone => h.not_gone hL (hids id hid)
      ((hstart id).mp hgone)⟩

/-- **One token production keeps the ledger.** -/
theorem registerProduction_registered (hL : L₀.Fresh) {g : Grammar} {k : Nat}
    (h : RegisteredBelow L₀ k gone g.lexicon) :
    ∃ gone', RegisteredBelow L₀ (k + 1) gone' (g.registerProduction k).lexicon := by
  have hledger := h.patterns hL (hL.entries_nodup k) fun _ hid => hid
  have hsteps := patterns_steps (L₀.production k)
    ((L₀.production k).entries.map TokenEntry.pattern) { grammar := g }
  rw [registerProduction, h.pending k (Nat.le_refl k)]
  generalize ((L₀.production k).entries.map TokenEntry.pattern).foldl
    (Registration.pattern (L₀.production k)) { grammar := g } = r at hledger hsteps ⊢
  have hremoved : ∀ x ∈ r.removed, x ∈ (L₀.production k).entries.map TokenEntry.pattern :=
    fun x hx => (hsteps.removed x hx).resolve_left List.not_mem_nil
  have hproductions := hsteps.tokenProductions_eq
  have hproduction : ∀ tp, r.grammar.lexicon.production tp = g.lexicon.production tp := fun tp => by
    rw [Lexicon.production, Lexicon.production, hproductions]
  refine ⟨r.Gone gone, (hledger.congr (fun _ => declaredBelow_succ) fun _ => Iff.rfl).filter k _,
    fun tp htp => ?_, fun id hid => ?_, fun tp e => ?_⟩
  · simp only [production_modifyProduction]
    rw [if_neg (by omega), hproduction]
    exact h.pending tp (by omega)
  · rw [declaredBelow_succ]
    exact hid.elim (fun hid => .inr (h.declared_of_gone id hid)) fun hid => .inl (hremoved id hid)
  · rw [production_modifyProduction, hproduction]
    by_cases htp : k = tp
    · subst htp
      rw [h.pending k (Nat.le_refl k)]
      split
      · refine List.mem_filter.trans (and_congr_right fun he => ?_)
        have hfresh := h.not_gone hL (List.mem_map_of_mem he)
        simp [Registration.Gone, hfresh]
      · rename_i hlt
        have hnone : g.lexicon.production k = default :=
          production_of_size_le (by rw [← hproductions]; omega)
        rw [← h.pending k (Nat.le_refl k), hnone]
        exact ⟨fun he => absurd he List.not_mem_nil, fun he => absurd he.1 List.not_mem_nil⟩
    · rw [if_neg fun heq => htp heq.1, h.entries]
      refine and_congr_right fun he => not_congr ⟨.inl, fun hgone => ?_⟩
      refine hgone.resolve_right fun hmem => htp ?_
      exact production_eq_of_mem hL (hremoved _ hmem) (List.mem_map_of_mem he)

/-- The first token productions are registered in turn. -/
theorem registered_foldl {g : Grammar} (hL : g.lexicon.Fresh) (k : Nat) :
    ∃ gone, RegisteredBelow g.lexicon k gone
      ((List.range k).foldl registerProduction g).lexicon := by
  induction k with
  | zero =>
      have hnone : ∀ x, DeclaredBelow g.lexicon 0 x ↔ False := fun x =>
        ⟨fun ⟨_, h, _⟩ => absurd h (Nat.not_lt_zero _), nofun⟩
      exact ⟨fun _ => False,
        { ledger := hL.ledger.congr hnone fun _ => Iff.rfl
          pending := fun _ _ => rfl
          declared_of_gone := nofun
          entries := fun tp e => by simp }⟩
  | succ k ih =>
      obtain ⟨gone, h⟩ := ih
      rw [List.range_succ, List.foldl_append]
      exact registerProduction_registered hL h

/-- **The registration of the tokens keeps the ledger.** -/
theorem registerTokens_registered {g : Grammar} (hL : g.lexicon.Fresh) :
    ∃ gone, RegisteredBelow g.lexicon g.lexicon.tokenProductions.size gone
      g.registerTokens.lexicon :=
  registered_foldl hL g.lexicon.tokenProductions.size

/-! ### The checks -/

/-- The checks of the productions leave the lexicon as it is. -/
theorem lexicon_checkProductions (g : Grammar) : g.checkProductions.lexicon = g.lexicon := by
  rw [checkProductions, markLeftRecursion]
  exact List.foldlRecOn (motive := fun g' : Grammar => g'.lexicon = g.lexicon) _ _ rfl
    fun _ h _ _ => h

/-- A token with a name: a token production declares it with a label, and it is no reference. -/
structure NamedToken (g : Grammar) (id : Nat) : Prop where
  declared : id ∈ g.declaredPatterns
  isReference_eq : (g.lexicon.pattern id).isReference = false
  hasLabel : (g.lexicon.pattern id).hasLabel

/-- Naming the patterns registers nothing, and enters only the labels of tokens with a name. -/
theorem lexicon_registerNames (g : Grammar) :
    ∃ names, g.registerNames.lexicon = { g.lexicon with namedTokens := names } ∧
      ∀ n ∈ names, n ∈ g.lexicon.namedTokens ∨
        g.NamedToken n.2 ∧ (g.lexicon.pattern n.2).givenLabel = n.1 := by
  refine List.foldlRecOn (motive := fun g' : Grammar =>
    ∃ names, g'.lexicon = { g.lexicon with namedTokens := names } ∧
      ∀ n ∈ names, n ∈ g.lexicon.namedTokens ∨
        g.NamedToken n.2 ∧ (g.lexicon.pattern n.2).givenLabel = n.1)
    _ _ ⟨_, rfl, fun _ hn => .inl hn⟩ fun g' ⟨names, h, hnames⟩ id hid => ?_
  unfold registerName
  simp only
  split
  · exact ⟨names, h, hnames⟩
  · rename_i href
    split
    · exact ⟨names, h, hnames⟩
    · rw [h] at href
      rw [addNamedToken, h]
      split
      · exact ⟨names, rfl, hnames⟩
      · refine ⟨_, rfl, fun n hn => ?_⟩
        rcases List.mem_append.mp hn with hn | hn
        · exact hnames n hn
        · rw [List.mem_singleton.mp hn]
          rw [Bool.or_eq_true, not_or, Bool.not_eq_true, Bool.not_eq_true',
            Bool.not_eq_false] at href
          exact .inr ⟨⟨hid, href.1, href.2⟩, rfl⟩

/-- The patterns that are declared depend on the lexicon only. -/
theorem declaredPatterns_congr {g g' : Grammar} (h : g'.lexicon = g.lexicon) :
    g'.declaredPatterns = g.declaredPatterns := by
  rw [declaredPatterns, declaredPatterns, tokenEntries, tokenEntries, h]

/-- Whether a pattern is a token with a name depends on the lexicon only. -/
theorem namedToken_congr {g g' : Grammar} (h : g'.lexicon = g.lexicon) (id : Nat) :
    g'.NamedToken id ↔ g.NamedToken id := by
  have hdeclared := declaredPatterns_congr h
  exact ⟨fun ⟨hid, href, hlabel⟩ => ⟨hdeclared ▸ hid, h ▸ href, h ▸ hlabel⟩,
    fun ⟨hid, href, hlabel⟩ => ⟨hdeclared ▸ hid, h ▸ href, h ▸ hlabel⟩⟩

/-- Patterns are registered in a lexicon that has them named, and is as fresh as before. -/
theorem exists_named {g : Grammar} (hL : g.lexicon.Fresh) :
    ∃ names, g.checkProductions.registerNames.lexicon = { g.lexicon with namedTokens := names } ∧
      g.checkProductions.registerNames.lexicon.Fresh ∧
      ∀ n ∈ names, n ∈ g.lexicon.namedTokens ∨
        g.NamedToken n.2 ∧ (g.lexicon.pattern n.2).givenLabel = n.1 := by
  obtain ⟨names, hnames, hnamed⟩ := lexicon_registerNames g.checkProductions
  have hsame := lexicon_checkProductions g
  rw [hsame] at hnames
  simp only [namedToken_congr hsame, hsame] at hnamed
  refine ⟨names, hnames, ?_, hnamed⟩
  rw [hnames]
  exact { hL with }

/-- Resolving one reference changes references only. -/
theorem resolves_resolveReference (L : Lexicon) (id : Nat) :
    L.Resolves (resolveReference L id) := by
  rw [resolveReference]
  split
  · exact .refl L
  · rename_i name hname
    refine { Resolves.refl L with registers := registers_modifyPattern L id _, pattern_eq := ?_ }
    intro x hx
    rw [pattern_modifyPattern, if_neg]
    rintro ⟨rfl, -⟩
    rw [Pattern.isReference, hname] at hx
    cases hx

/-- The references get their ordinals, and lose their entries. -/
theorem resolves_resolveReferences (g : Grammar) :
    g.lexicon.Resolves g.resolveReferences.lexicon := by
  have hfold : g.lexicon.Resolves
      ((List.range g.lexicon.patterns.size).foldl resolveReference g.lexicon) :=
    List.foldlRecOn (motive := fun L : Lexicon => g.lexicon.Resolves L) _ _ (.refl _)
      fun L h id _ => h.trans (resolves_resolveReference L id)
  refine hfold.trans ?_
  rw [resolveReferences]
  generalize (List.range g.lexicon.patterns.size).foldl resolveReference g.lexicon = L
  exact resolves_filter L

/-- The check of the references changes references only. -/
theorem resolves_checkReferences (g : Grammar) : g.lexicon.Resolves g.checkReferences.lexicon :=
  resolves_resolveReferences (g.record g.referenceErrors)

/-- What the checks do to the lexical part of a draft: nothing, if a non-terminal is undefined; and
otherwise the patterns are named and registered, and the references may be resolved. -/
theorem check_registered {g : Grammar} (hL : g.lexicon.Fresh) :
    g.undefinedNonTerminals ≠ [] ∧ g.check.lexicon = g.lexicon ∨
      ∃ names gone L, RegisteredBelow { g.lexicon with namedTokens := names }
          g.lexicon.tokenProductions.size gone L ∧ L.Resolves g.check.lexicon := by
  rcases check_cases g with ⟨hundefined, hcheck⟩ | ⟨-, hcheck⟩
  · exact .inl ⟨hundefined, by rw [hcheck]; rfl⟩
  · obtain ⟨names, hnames, hfresh, -⟩ := exists_named hL
    obtain ⟨gone, hregistered⟩ := registerTokens_registered hfresh
    rw [hnames] at hregistered
    refine .inr ⟨names, gone, _, hregistered, ?_⟩
    rcases hcheck with ⟨-, hcheck⟩ | ⟨-, hcheck⟩
    · rw [hcheck]
      exact .refl _
    · rw [hcheck]
      exact resolves_checkReferences _

/-- **The table of the tokens**: after the checks of a draft, no pattern is in the table twice, and
each has the ordinal at which it is registered, unless it is a literal that straddles. -/
theorem check_ordinals {g : Grammar} (hg : g.Drafted) :
    g.check.lexicon.ordinals.toList.Nodup ∧
      ∀ (o : Nat) id, g.check.lexicon.ordinals[o]? = some id →
        id < g.check.lexicon.patterns.size ∧
          (¬ g.lexicon.Straddles id → (g.check.lexicon.pattern id).ordinal = some o) := by
  have hL := hg.fresh
  rcases check_registered hL with ⟨-, hsame⟩ | ⟨names, gone, L, hregistered, hresolves⟩
  · have hledger := hL.ledger
    rw [hsame]
    refine ⟨hledger.nodup, fun o id hid => ?_⟩
    obtain ⟨hmem, -, -, hagrees⟩ := hledger.registered o id hid
    rw [hmem.resolve_right not_false] at hagrees ⊢
    exact ⟨hL.size_pos, hagrees⟩
  · have hledger := hregistered.ledger
    rw [hresolves.ordinals_eq]
    refine ⟨hledger.nodup, fun o id hid => ?_⟩
    obtain ⟨hmem, href, -, hagrees⟩ := hledger.registered o id hid
    have href' : (L.pattern id).isReference = false := by
      obtain ⟨ordinal, hpattern⟩ := hledger.registers.pattern id
      rw [hpattern]
      exact href
    rw [hresolves.pattern_eq id href', hresolves.registers.size_eq, hledger.registers.size_eq]
    refine ⟨?_, hagrees⟩
    rcases hmem with rfl | ⟨tp, -, hmem⟩
    · exact hL.size_pos
    · obtain ⟨e, he, rfl⟩ := List.mem_map.mp hmem
      exact (hL.declared tp e he).1

/-- A literal of two lexical states, in a token production that is not explicit. The second one of
the lexical states has a token for the same text. -/
def sharedLiteral : Grammar :=
  { Grammar.new {} with
    lexicon :=
      { patterns := #[{ givenLabel := "EOF", ordinal := some 0, tree := some .endOfInput },
          { givenLabel := "", tree := some (.text "x"), production := some 0 },
          { givenLabel := "", tree := some (.text "x"), production := some 1 }]
        ordinals := #[0]
        tokenProductions := #[{ lexicalStates := ["OTHER"], entries := [{ pattern := 1 }] },
          { lexicalStates := [defaultLexicalState, "OTHER"], explicit := false,
            entries := [{ pattern := 2 }] }]
        lexicalStates := #[{ name := defaultLexicalState }, { name := "OTHER" }] } }

/-- The builder makes `sharedLiteral`. -/
theorem drafted_sharedLiteral : sharedLiteral.Drafted :=
  (Drafted.new {}).step (.addLexicalState _ "OTHER") (.inl rfl)
    |>.addTokenProduction { lexicalStates := ["OTHER"] } rfl
    |>.addEntry 0 "" false (some (.text "x")) rfl
    |>.addTokenProduction { lexicalStates := [defaultLexicalState, "OTHER"], explicit := false } rfl
    |>.addEntry 1 "" false (some (.text "x")) rfl

/-- The explicit token of the second lexical state does not straddle, and has its own ordinal. -/
theorem check_ordinals_explicit :
    sharedLiteral.Drafted ∧ sharedLiteral.check.lexicon.ordinals[1]? = some 1 ∧
      ¬ sharedLiteral.lexicon.Straddles 1 ∧ sharedLiteral.check.lexicon.ordinals.toList.Nodup ∧
      (sharedLiteral.check.lexicon.pattern 1).ordinal = some 1 := by
  have hregistered : sharedLiteral.check.lexicon.ordinals[1]? = some 1 := by decide +kernel
  have hstays : ¬ sharedLiteral.lexicon.Straddles 1 := by
    rintro ⟨-, tp, htp, hexplicit, -⟩
    obtain rfl : 0 = tp := Option.some.inj htp
    cases hexplicit
  obtain ⟨hnodup, hagrees⟩ := check_ordinals drafted_sharedLiteral
  exact ⟨drafted_sharedLiteral, hregistered, hstays, hnodup, (hagrees 1 1 hregistered).2 hstays⟩

/-- The literal keeps its place in the table of the tokens when it is taken, through the second
lexical state, for the token there: the pattern registered at 2 has ordinal 1. -/
theorem check_ordinals_sharedLiteral :
    sharedLiteral.Drafted ∧ sharedLiteral.check.log.hasNoErrors ∧
      sharedLiteral.check.lexicon.ordinals[2]? = some 2 ∧
      (sharedLiteral.check.lexicon.pattern 2).ordinal = some 1 := by
  refine ⟨drafted_sharedLiteral, ?_, ?_, ?_⟩ <;> decide +kernel

end Grammar

end GrammarAnalysis
