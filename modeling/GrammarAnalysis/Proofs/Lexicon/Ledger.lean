import GrammarAnalysis.Grammar.Tokens
import GrammarAnalysis.Proofs.Lexicon.Drafts
import GrammarAnalysis.Proofs.Lexicon.Recognition

/-!
# The Ledger of a Registration

The patterns of the token productions are registered one after the other. The ledger of a
registration under way says which patterns were visited, which were taken for a literal that is
declared already and are to be removed, and what the ordinals and the literals of the lexical
states know of them. Every change that the registration makes keeps the ledger.

A literal that is not explicit and belongs to several lexical states *straddles*: it can be
registered through one of them and then be taken, through the next, for a literal that is declared
there. It keeps its place in the table of the tokens and gets the ordinal of the other one. No other
pattern is registered with an ordinal that is not its own.

## Main definitions

* `Lexicon.Registers`: what a registration leaves as it was;
* `Lexicon.Straddles`: a literal that can be registered and taken for another one;
* `Lexicon.Ledger`: a registration under way.

## Main results

* `Lexicon.Fresh.ledger`: the ledger at the beginning;
* `Lexicon.Ledger.register`, `Lexicon.Ledger.enter`, `Lexicon.Ledger.share`: the changes keep it.
-/

namespace GrammarAnalysis

/-! ### The literals of a lexical state -/

namespace LexicalState

variable {s : LexicalState} {image image' : String} {pattern q : Nat} {ignoreCase : Bool}

/-- A text that was entered is found. -/
theorem findLiteral_addLiteral_self (h : s.findLiteral image = none) :
    (s.addLiteral image pattern ignoreCase).findLiteral image = some pattern := by
  rw [findLiteral] at h
  cases hexact : s.exactLiterals.lookup image with
  | some p =>
      rw [hexact] at h
      cases h
  | none => cases ignoreCase <;> simp [addLiteral, findLiteral, hexact]

/-- What was found before is found again. -/
theorem findLiteral_addLiteral_of_some (h : s.findLiteral image = none)
    (hq : s.findLiteral image' = some q) :
    (s.addLiteral image pattern ignoreCase).findLiteral image' = some q := by
  cases ignoreCase with
  | false =>
      have hne : image' ≠ image := by
        rintro rfl
        rw [h] at hq
        cases hq
      simpa [addLiteral, findLiteral, List.lookup_cons, beq_false_of_ne hne] using hq
  | true =>
      rw [findLiteral] at h hq
      rw [addLiteral, findLiteral]
      simp only [if_true]
      cases hexact : s.exactLiterals.lookup image' with
      | some p => rwa [hexact] at hq
      | none =>
          rw [hexact] at hq
          have hne : CaseMap.upperText image' ≠ CaseMap.upperText image := fun heq => by
            simp only [heq] at hq
            split at h
            · cases h
            · rw [hq] at h
              cases h
          simpa [List.lookup_cons, beq_false_of_ne hne] using hq

/-- What is found was found before, or is the text that was entered. -/
theorem findLiteral_addLiteral_cases
    (hq : (s.addLiteral image pattern ignoreCase).findLiteral image' = some q) :
    s.findLiteral image' = some q ∨ q = pattern ∧
      (image = image' ∨ ignoreCase ∧ CaseMap.upperText image = CaseMap.upperText image') := by
  cases ignoreCase with
  | false =>
      rw [addLiteral, findLiteral] at hq
      simp only [Bool.false_eq_true, if_false, List.lookup_cons] at hq
      by_cases heq : image' = image
      · simp only [heq, beq_self_eq_true] at hq
        exact .inr ⟨(Option.some.inj hq).symm, .inl heq.symm⟩
      · rw [beq_false_of_ne heq] at hq
        exact .inl hq
  | true =>
      rw [addLiteral, findLiteral] at hq
      simp only [if_true, List.lookup_cons] at hq
      rw [findLiteral]
      cases hexact : s.exactLiterals.lookup image' with
      | some p =>
          rw [hexact] at hq
          exact .inl hq
      | none =>
          simp only [hexact] at hq
          by_cases heq : CaseMap.upperText image' = CaseMap.upperText image
          · simp only [heq, beq_self_eq_true] at hq
            exact .inr ⟨(Option.some.inj hq).symm, .inr ⟨rfl, heq.symm⟩⟩
          · rw [beq_false_of_ne heq] at hq
            exact .inl hq

end LexicalState

namespace Lexicon

/-! ### What a registration leaves alone -/

/-- The second lexicon is the first one with other ordinals, other entries of the token
productions, and other literals in the lexical states. -/
structure Registers (L L' : Lexicon) : Prop where
  size_eq : L'.patterns.size = L.patterns.size
  pattern : ∀ id, ∃ ordinal, L'.pattern id = { L.pattern id with ordinal := ordinal }
  productions_eq : L'.tokenProductions.size = L.tokenProductions.size
  production : ∀ tp, ∃ entries, L'.production tp = { L.production tp with entries := entries }
  state : ∀ i : Nat, ∃ exact folded, L'.lexicalStates[i]? =
    (L.lexicalStates[i]?).map fun s => { s with exactLiterals := exact, foldedLiterals := folded }
  namedTokens_eq : L'.namedTokens = L.namedTokens
  extraTokens_eq : L'.extraTokens = L.extraTokens
  ignoreCase_eq : L'.ignoreCase = L.ignoreCase

/-- The pattern is a literal of a token production that is not explicit and belongs to several
lexical states. -/
def Straddles (L : Lexicon) (id : Nat) : Prop :=
  (L.pattern id).literal?.isSome ∧ ∃ tp, (L.pattern id).production = some tp ∧
    (L.production tp).explicit = false ∧ 1 < (L.production tp).lexicalStates.length

/-- The pattern is declared as this literal in a token production, and is not private. -/
structure Spells (L : Lexicon) (tp id : Nat) (image : String) : Prop where
  lt_size : id < L.patterns.size
  literal?_eq : (L.pattern id).literal? = some image
  production_eq : (L.pattern id).production = some tp
  isPrivate_eq : (L.pattern id).isPrivate = false

/-- The pattern is a literal of a token production that belongs to lexical state `i`, and the text
is the literal, or has the same upper-case form if case is ignored. -/
def Matches (L : Lexicon) (i id : Nat) (image : String) : Prop :=
  ∃ text tp, L.Spells tp id text ∧
    (∃ name ∈ (L.production tp).lexicalStates, L.stateIndex name = some i) ∧
    (text = image ∨
      (L.production tp).ignoreCase ∧ CaseMap.upperText text = CaseMap.upperText image)

/-- A registration under way: `visited` holds of the patterns visited so far, and `gone` of those
of them that were taken for a literal that had been declared already. -/
structure Ledger (L₀ : Lexicon) (visited gone : Nat → Prop) (L : Lexicon) : Prop where
  registers : L₀.Registers L
  untouched : ∀ id, ¬ visited id → (L.pattern id).ordinal = (L₀.pattern id).ordinal
  nodup : L.ordinals.toList.Nodup
  registered : ∀ (o : Nat) id, L.ordinals[o]? = some id →
    (id = 0 ∨ visited id) ∧ (L₀.pattern id).isReference = false ∧
      (L.pattern id).ordinal.isSome ∧ (¬ L₀.Straddles id → (L.pattern id).ordinal = some o)
  holder : ∀ id, visited id → ¬ gone id → ∀ o, (L.pattern id).ordinal = some o →
    L.ordinals[o]? = some id
  tabled : ∀ (i : Nat) s image q, L.lexicalStates[i]? = some s → s.findLiteral image = some q →
    visited q ∧ (L.pattern q).ordinal.isSome ∧ L₀.Matches i q image ∧
      (¬ L₀.Straddles q → ¬ gone q)

variable {L₀ L L' L'' : Lexicon} {visited gone : Nat → Prop} {id tp : Nat} {image : String}

/-- A lexicon differs from itself in nothing. -/
theorem Registers.refl (L : Lexicon) : L.Registers L where
  size_eq := rfl
  pattern := fun _ => ⟨_, rfl⟩
  productions_eq := rfl
  production := fun _ => ⟨_, rfl⟩
  state := fun i => by
    cases L.lexicalStates[i]? with
    | none => exact ⟨[], [], rfl⟩
    | some s => exact ⟨s.exactLiterals, s.foldedLiterals, rfl⟩
  namedTokens_eq := rfl
  extraTokens_eq := rfl
  ignoreCase_eq := rfl

/-- Differing in ordinals, entries and literals at most is transitive. -/
theorem Registers.trans (h : L.Registers L') (h' : L'.Registers L'') : L.Registers L'' where
  size_eq := h'.size_eq.trans h.size_eq
  pattern := fun id => by
    obtain ⟨o, hp⟩ := h.pattern id
    obtain ⟨o', hp'⟩ := h'.pattern id
    exact ⟨o', by rw [hp', hp]⟩
  productions_eq := h'.productions_eq.trans h.productions_eq
  production := fun tp => by
    obtain ⟨entries, hp⟩ := h.production tp
    obtain ⟨entries', hp'⟩ := h'.production tp
    exact ⟨entries', by rw [hp', hp]⟩
  state := fun i => by
    obtain ⟨exact, folded, hs⟩ := h.state i
    obtain ⟨exact', folded', hs'⟩ := h'.state i
    exact ⟨exact', folded', by rw [hs', hs, Option.map_map]; rfl⟩
  namedTokens_eq := h'.namedTokens_eq.trans h.namedTokens_eq
  extraTokens_eq := h'.extraTokens_eq.trans h.extraTokens_eq
  ignoreCase_eq := h'.ignoreCase_eq.trans h.ignoreCase_eq

/-- The patterns keep their literal texts. -/
theorem Registers.literal?_eq (h : L.Registers L') (id : Nat) :
    (L'.pattern id).literal? = (L.pattern id).literal? := by
  obtain ⟨o, hp⟩ := h.pattern id
  rw [hp]
  rfl

/-- The lexical states keep their places. -/
theorem Registers.stateIndex_eq (h : L.Registers L') (name : String) :
    L'.stateIndex name = L.stateIndex name :=
  stateIndex_congr (fun i => by
    obtain ⟨exact, folded, hs⟩ := h.state i
    rw [hs, Option.map_map]
    rfl) name

/-- Whether case is ignored in a pattern of a token production. -/
theorem Registers.ignoresCase_eq (h : L.Registers L')
    (hproduction : (L.pattern id).production = some tp) :
    L'.ignoresCase id = (L.production tp).ignoreCase := by
  obtain ⟨o, hp⟩ := h.pattern id
  obtain ⟨entries, htp⟩ := h.production tp
  rw [ignoresCase, productionOf, hp]
  simp [hproduction, htp]

/-- A change of an ordinal is one of those allowed. -/
theorem registers_modifyPattern (L : Lexicon) (id : Nat) (ordinal : Option Nat) :
    L.Registers (L.modifyPattern id fun p => { p with ordinal := ordinal }) :=
  { Registers.refl L with
    size_eq := by simp [modifyPattern]
    pattern := fun x => by
      rw [pattern_modifyPattern]
      split
      · exact ⟨ordinal, rfl⟩
      · exact ⟨_, rfl⟩ }

/-- A new literal of a lexical state is one of the changes allowed. -/
theorem registers_addLiteral (L : Lexicon) (i id : Nat) (image : String) (ignoreCase : Bool) :
    L.Registers (L.modifyState i fun s => s.addLiteral image id ignoreCase) :=
  { Registers.refl L with
    state := fun j => by
      rw [modifyState, Array.getElem?_modify]
      split
      · cases hs : L.lexicalStates[j]? with
        | none => exact ⟨[], [], rfl⟩
        | some s =>
            refine ⟨(s.addLiteral image id ignoreCase).exactLiterals,
              (s.addLiteral image id ignoreCase).foldedLiterals, congrArg some ?_⟩
            simp only [LexicalState.addLiteral]
            split <;> rfl
      · exact (Registers.refl L).state j }

/-- A change of the entries of a token production is one of those allowed. -/
theorem registers_modifyProduction (L : Lexicon) (tp : Nat)
    (f : TokenProduction → List TokenEntry) :
    L.Registers (L.modifyProduction tp fun tp => { tp with entries := f tp }) :=
  { Registers.refl L with
    productions_eq := by simp [modifyProduction]
    production := fun x => by
      rw [production_modifyProduction]
      split
      · exact ⟨_, rfl⟩
      · exact ⟨_, rfl⟩ }

/-! ### Entries of the ledger -/

/-- A literal is no reference. -/
theorem isReference_of_literal? {p : Pattern} (h : p.literal? = some image) :
    p.isReference = false := by
  obtain ⟨tree, htree, hliteral⟩ := Option.bind_eq_some_iff.mp h
  rw [Pattern.isReference, Pattern.reference?, htree]
  cases tree with
  | text _ => rfl
  | _ => cases hliteral

/-- A pattern that is declared as a literal is no reference. -/
theorem Spells.isReference_eq (h : L.Spells tp id image) : (L.pattern id).isReference = false :=
  isReference_of_literal? h.literal?_eq

/-- The registration begins with the end of the input only. -/
theorem Fresh.ledger (h : L.Fresh) : Ledger L (fun _ => False) (fun _ => False) L where
  registers := .refl L
  untouched := fun _ _ => rfl
  nodup := by
    rw [h.ordinals_eq]
    exact List.nodup_singleton 0
  registered := fun o id hid => by
    obtain ⟨htree, hordinal, -⟩ := h.endOfInput
    rw [h.ordinals_eq] at hid
    obtain ⟨ho, rfl⟩ := Array.getElem?_eq_some_iff.mp hid
    obtain rfl : o = 0 := Nat.lt_one_iff.mp ho
    refine ⟨.inl rfl, ?_, ?_, fun _ => hordinal⟩
    · rw [Pattern.isReference, Pattern.reference?]
      simp [htree, Regex.reference?]
    · simp [hordinal]
  holder := fun _ h => h.elim
  tabled := fun i s image q hs hq => by
    rw [h.states s (List.mem_of_getElem? (by rwa [Array.getElem?_toList]))] at hq
    cases hq

/-- A pattern without an ordinal is visited. -/
theorem Ledger.visit (h : Ledger L₀ visited gone L) (hid : ¬ visited id)
    (hnone : (L₀.pattern id).ordinal = none) :
    Ledger L₀ (fun x => x = id ∨ visited x) gone L where
  registers := h.registers
  untouched := fun x hx => h.untouched x fun hv => hx (.inr hv)
  nodup := h.nodup
  registered := fun o x hx => by
    obtain ⟨hmem, hrest⟩ := h.registered o x hx
    exact ⟨hmem.imp_right .inr, hrest⟩
  holder := fun x hx hgone o ho => by
    rcases hx with rfl | hx
    · rw [h.untouched x hid, hnone] at ho
      cases ho
    · exact h.holder x hx hgone o ho
  tabled := fun i s image q hs hq => by
    obtain ⟨hvisited, hrest⟩ := h.tabled i s image q hs hq
    exact ⟨.inr hvisited, hrest⟩

/-- A ledger depends on which patterns were visited and taken, not on how this is told. -/
theorem Ledger.congr {visited' gone' : Nat → Prop} (h : Ledger L₀ visited gone L)
    (hvisited : ∀ x, visited' x ↔ visited x) (hgone : ∀ x, gone' x ↔ gone x) :
    Ledger L₀ visited' gone' L := by
  rwa [show visited' = visited from funext fun x => propext (hvisited x),
    show gone' = gone from funext fun x => propext (hgone x)]

/-- A pattern that is registered gets the next ordinal, and the others stay as they are. -/
theorem pattern_register (L : Lexicon) (id x : Nat) :
    (L.register id).2.pattern x = if id = x ∧ x < L.patterns.size then
      { L.pattern x with ordinal := some L.ordinals.size } else L.pattern x :=
  pattern_modifyPattern L id x fun p => { p with ordinal := some L.ordinals.size }

/-- The ordinal of a pattern that is registered is the next one. -/
theorem ordinal_register (hid : id < L.patterns.size) :
    ((L.register id).2.pattern id).ordinal = some L.ordinals.size := by
  rw [pattern_register, if_pos ⟨rfl, hid⟩]

/-- Registering a pattern changes nothing but its ordinal. -/
theorem registers_register (L : Lexicon) (id : Nat) : L.Registers (L.register id).2 := by
  obtain ⟨size_eq, pattern, productions_eq, production, state, named, extra, fold⟩ :=
    registers_modifyPattern L id (some L.ordinals.size)
  exact ⟨size_eq, pattern, productions_eq, production, state, named, extra, fold⟩

/-- A visited pattern without an ordinal is registered. -/
theorem Ledger.register (h : Ledger L₀ visited gone L) (hid : visited id)
    (hlt : id < L₀.patterns.size) (hnone : (L.pattern id).ordinal = none)
    (href : (L₀.pattern id).isReference = false) :
    Ledger L₀ visited gone (L.register id).2 := by
  have hself := ordinal_register (h.registers.size_eq ▸ hlt)
  have hother : ∀ x, x ≠ id → (L.register id).2.pattern x = L.pattern x := fun x hx => by
    rw [pattern_register, if_neg fun heq => hx heq.1.symm]
  have hordinals : ∀ o : Nat, (L.register id).2.ordinals[o]?
      = if o = L.ordinals.size then some id else L.ordinals[o]? := fun o => by
    exact Array.getElem?_push
  -- a registered pattern has an ordinal
  have hnew : ∀ o : Nat, L.ordinals[o]? ≠ some id := fun o ho => by
    have hsome := (h.registered o id ho).2.2.1
    rw [hnone] at hsome
    cases hsome
  refine ⟨h.registers.trans (registers_register L id), fun x hx => ?_, ?_, fun o x hx => ?_,
    fun x hx hgone o ho => ?_, fun i s image q hs hq => ?_⟩
  · rw [hother x fun heq => hx (heq ▸ hid)]
    exact h.untouched x hx
  · rw [Lexicon.register, Array.toList_push]
    refine List.nodup_append.mpr ⟨h.nodup, List.nodup_singleton id, fun x hx y hy heq => ?_⟩
    obtain ⟨o, ho⟩ := List.mem_iff_getElem?.mp hx
    rw [heq, List.mem_singleton.mp hy, Array.getElem?_toList] at ho
    exact hnew o ho
  · rw [hordinals] at hx
    split at hx
    · rename_i ho
      obtain rfl := Option.some.inj hx
      exact ⟨.inr hid, href, by rw [hself]; rfl, fun _ => by rw [hself, ho]⟩
    · have hne : x ≠ id := fun heq => hnew o (heq ▸ hx)
      rw [hother x hne]
      exact h.registered o x hx
  · rw [hordinals]
    by_cases hne : x = id
    · rw [hne, hself] at ho
      rw [if_pos (Option.some.inj ho).symm, hne]
    · rw [hother x hne] at ho
      have hheld := h.holder x hx hgone o ho
      rw [if_neg (Nat.ne_of_lt (Array.getElem?_eq_some_iff.mp hheld).1), hheld]
  · obtain ⟨hvisited, hsome, hrest⟩ := h.tabled i s image q hs hq
    refine ⟨hvisited, ?_, hrest⟩
    by_cases hne : q = id
    · rw [hne, hself]
      rfl
    · rwa [hother q hne]

/-- A visited pattern with an ordinal is entered into a lexical state of its token production. -/
theorem Ledger.enter (h : Ledger L₀ visited gone L) (hid : visited id)
    (hspells : L₀.Spells tp id image) (hordinal : (L.pattern id).ordinal.isSome)
    (hkept : ¬ L₀.Straddles id → ¬ gone id) {i : Nat} {name : String}
    (hname : name ∈ (L₀.production tp).lexicalStates) (hi : L₀.stateIndex name = some i) :
    Ledger L₀ visited gone (L.modifyState i fun s => s.addLiteral image id (L.ignoresCase id)) := by
  refine ⟨h.registers.trans (registers_addLiteral L i id image _), h.untouched, h.nodup,
    h.registered, h.holder, fun j s image' q hs hq => ?_⟩
  change (L.lexicalStates.modify i _)[j]? = some s at hs
  rw [Array.getElem?_modify] at hs
  split at hs
  · rename_i hij
    subst hij
    obtain ⟨s₀, hs₀, rfl⟩ := Option.map_eq_some_iff.mp hs
    rcases LexicalState.findLiteral_addLiteral_cases hq with hold | ⟨rfl, himage⟩
    · exact h.tabled i s₀ image' q hs₀ hold
    · rw [h.registers.ignoresCase_eq hspells.production_eq] at himage
      exact ⟨hid, hordinal, ⟨image, tp, hspells, ⟨name, hname, hi⟩, himage⟩, hkept⟩
  · exact h.tabled j s image' q hs hq

/-- A pattern that shares an ordinal has that of the other one. -/
theorem ordinal_shareOrdinal (L : Lexicon) (id present x : Nat) :
    ((Grammar.shareOrdinal L id present).pattern x).ordinal
      = if id = x ∧ x < L.patterns.size then (L.pattern present).ordinal
        else (L.pattern x).ordinal := by
  rw [Grammar.shareOrdinal, pattern_modifyPattern]
  split <;> rfl

/-- A visited pattern is taken for a literal that is declared already. It straddles, unless it has
no ordinal yet. -/
theorem Ledger.share (h : Ledger L₀ visited gone L) (hid : visited id)
    (hfree : L₀.Straddles id ∨ (L.pattern id).ordinal = none) {present : Nat}
    (hpresent : (L.pattern present).ordinal.isSome) :
    Ledger L₀ visited (fun x => x = id ∨ gone x) (Grammar.shareOrdinal L id present) := by
  have hother : ∀ x, x ≠ id → ((Grammar.shareOrdinal L id present).pattern x).ordinal
      = (L.pattern x).ordinal := fun x hx => by
    rw [ordinal_shareOrdinal, if_neg fun heq => hx heq.1.symm]
  have hsome : ∀ x, (L.pattern x).ordinal.isSome →
      ((Grammar.shareOrdinal L id present).pattern x).ordinal.isSome := fun x hx => by
    rw [ordinal_shareOrdinal]
    split
    · exact hpresent
    · exact hx
  -- the pattern was not registered before, unless it straddles
  have hstraddles : (L.pattern id).ordinal.isSome → L₀.Straddles id := fun hsome => by
    rcases hfree with hstraddles | hnone
    · exact hstraddles
    · rw [hnone] at hsome
      cases hsome
  refine ⟨h.registers.trans (registers_modifyPattern L id _), fun x hx => ?_, h.nodup,
    fun o x hx => ?_, fun x hx hgone o ho => ?_, fun i s image q hs hq => ?_⟩
  · rw [hother x fun heq => hx (heq ▸ hid)]
    exact h.untouched x hx
  · obtain ⟨hmem, href, hordinal, hagrees⟩ := h.registered o x hx
    refine ⟨hmem, href, hsome x hordinal, fun hstays => ?_⟩
    rw [hother x fun heq => hstays (heq ▸ hstraddles (heq ▸ hordinal))]
    exact hagrees hstays
  · rw [hother x fun heq => hgone (.inl heq)] at ho
    exact h.holder x hx (fun hx => hgone (.inr hx)) o ho
  · obtain ⟨hvisited, hordinal, hmatches, hkept⟩ := h.tabled i s image q hs hq
    refine ⟨hvisited, hsome q hordinal, hmatches, fun hstays hgone => ?_⟩
    rcases hgone with heq | hgone
    · exact hstays (heq ▸ hstraddles (heq ▸ hordinal))
    · exact hkept hstays hgone

/-- References were given ordinals, and may have lost their entries. -/
structure Resolves (L L' : Lexicon) : Prop where
  registers : L.Registers L'
  ordinals_eq : L'.ordinals = L.ordinals
  lexicalStates_eq : L'.lexicalStates = L.lexicalStates
  pattern_eq : ∀ id, (L.pattern id).isReference = false → L'.pattern id = L.pattern id
  mem_of_mem : ∀ tp, ∀ e ∈ (L'.production tp).entries, e ∈ (L.production tp).entries
  mem : ∀ tp, ∀ e ∈ (L.production tp).entries, (L.pattern e.pattern).isReference = false →
    e ∈ (L'.production tp).entries

/-- Nothing is resolved in a lexicon that stays the same. -/
theorem Resolves.refl (L : Lexicon) : L.Resolves L where
  registers := .refl L
  ordinals_eq := rfl
  lexicalStates_eq := rfl
  pattern_eq := fun _ _ => rfl
  mem_of_mem := fun _ _ h => h
  mem := fun _ _ h _ => h

/-- The same patterns are references. -/
theorem Registers.isReference_eq (h : L.Registers L') (id : Nat) :
    (L'.pattern id).isReference = (L.pattern id).isReference := by
  obtain ⟨o, hp⟩ := h.pattern id
  rw [hp]
  rfl

/-- Resolving references step by step resolves them. -/
theorem Resolves.trans (h : L.Resolves L') (h' : L'.Resolves L'') : L.Resolves L'' where
  registers := h.registers.trans h'.registers
  ordinals_eq := h'.ordinals_eq.trans h.ordinals_eq
  lexicalStates_eq := h'.lexicalStates_eq.trans h.lexicalStates_eq
  pattern_eq := fun id hid =>
    (h'.pattern_eq id (by rwa [h.registers.isReference_eq])).trans (h.pattern_eq id hid)
  mem_of_mem := fun tp e he => h.mem_of_mem tp e (h'.mem_of_mem tp e he)
  mem := fun tp e he hid =>
    h'.mem tp e (h.mem tp e he hid) (by rwa [h.registers.isReference_eq])

/-- The entries of references are removed from the token productions. -/
theorem resolves_filter (L : Lexicon) :
    L.Resolves { L with tokenProductions := L.tokenProductions.map fun tp =>
      { tp with entries := tp.entries.filter fun entry =>
        !(L.pattern entry.pattern).isReference } } := by
  have hproduction : ∀ tp, ({ L with tokenProductions := L.tokenProductions.map fun tp =>
      { tp with entries := tp.entries.filter fun entry =>
        !(L.pattern entry.pattern).isReference } } : Lexicon).production tp
      = { L.production tp with entries := (L.production tp).entries.filter fun entry =>
        !(L.pattern entry.pattern).isReference } := fun tp => by
    simp only [production, Array.getElem?_map]
    cases L.tokenProductions[tp]? <;> rfl
  refine { Resolves.refl L with registers := ?_, mem_of_mem := ?_, mem := ?_ }
  · exact { Registers.refl L with
      productions_eq := Array.size_map ..
      production := fun tp => ⟨_, hproduction tp⟩ }
  · intro tp e he
    rw [hproduction] at he
    exact List.mem_of_mem_filter he
  · intro tp e he href
    rw [hproduction]
    exact List.mem_filter.mpr ⟨he, by rw [href]; rfl⟩

/-- The entries of the token productions do not matter. -/
theorem Ledger.filter (h : Ledger L₀ visited gone L) (tp : Nat)
    (f : TokenProduction → List TokenEntry) :
    Ledger L₀ visited gone (L.modifyProduction tp fun tp => { tp with entries := f tp }) where
  registers := h.registers.trans (registers_modifyProduction L tp f)
  untouched := h.untouched
  nodup := h.nodup
  registered := h.registered
  holder := h.holder
  tabled := h.tabled

end Lexicon

end GrammarAnalysis
