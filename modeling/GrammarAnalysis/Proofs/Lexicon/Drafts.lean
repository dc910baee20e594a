import GrammarAnalysis.Lexicon.Build
import Mathlib.Data.List.Nodup
import Mathlib.Logic.Relation

/-!
# Fresh Lexicons

Nothing has been registered in a fresh lexicon: the end of the input is the only token, and the
lexical states know no literal. Token productions begin without entries and get them one by one, so
each pattern has its place in the token production that declares it.

What a step of the builder of a grammar does to the lexical part is said once (`DraftStep`). Such a
step registers nothing, and keeps the declarations.

## Main definitions

* `Lexicon.Fresh`: nothing has been registered;
* `Lexicon.Retains`: the declarations are kept;
* `Lexicon.DraftStep`: the steps.

## Main results

* `Lexicon.DraftStep.fresh`, `Lexicon.DraftStep.retains`: what the steps keep.
-/

namespace GrammarAnalysis

namespace Lexicon

/-- Nothing has been registered in the lexicon, and each pattern of a token production has its
place there. -/
structure Fresh (L : Lexicon) : Prop where
  size_pos : 0 < L.patterns.size
  endOfInput : (L.pattern 0).tree = some .endOfInput ∧ (L.pattern 0).ordinal = some 0 ∧
    (L.pattern 0).production = none
  ordinals_eq : L.ordinals = #[0]
  unregistered : ∀ id, id ≠ 0 → (L.pattern id).ordinal = none
  states : ∀ s ∈ L.lexicalStates.toList, s = { name := s.name }
  default : (L.lexicalStates[0]?).map LexicalState.name = some defaultLexicalState
  declared : ∀ tp, ∀ e ∈ (L.production tp).entries,
    e.pattern < L.patterns.size ∧ (L.pattern e.pattern).production = some tp
  entries_nodup : ∀ tp, ((L.production tp).entries.map TokenEntry.pattern).Nodup
  folds : ∀ tp, tp < L.tokenProductions.size → L.ignoreCase → (L.production tp).ignoreCase

/-- The second token production is the first one, with the same or more patterns. -/
structure RetainsProduction (tp tp' : TokenProduction) : Prop where
  kind : tp'.kind = tp.kind
  lexicalStates : tp'.lexicalStates = tp.lexicalStates
  ignoreCase : tp'.ignoreCase = tp.ignoreCase
  explicit : tp'.explicit = tp.explicit
  entries : ∀ id, id ∈ tp.entries.map TokenEntry.pattern → id ∈ tp'.entries.map TokenEntry.pattern

/-- The second lexicon has the patterns and the token productions of the first one. -/
structure Retains (L L' : Lexicon) : Prop where
  size_le : L.patterns.size ≤ L'.patterns.size
  productions_le : L.tokenProductions.size ≤ L'.tokenProductions.size
  pattern : ∀ id, id < L.patterns.size →
    ∃ position, L'.pattern id = { L.pattern id with position := position }
  production : ∀ tp, tp < L.tokenProductions.size →
    RetainsProduction (L.production tp) (L'.production tp)

/-- What a step of the builder of a grammar does to its lexical part. -/
inductive DraftStep : Lexicon → Lexicon → Prop
  | state (L : Lexicon) (name : String) : DraftStep L (L.addLexicalState name).2
  | production (L : Lexicon) (tp : TokenProduction) :
      tp.entries = [] → (L.ignoreCase → tp.ignoreCase) → DraftStep L (L.addTokenProduction tp).2
  | entry {L L' : Lexicon} {tp id : Nat} {label : String} {isPrivate : Bool}
      {tree : Option Regex} :
      L.addEntry tp label isPrivate tree = .ok (id, L') → DraftStep L L'
  | reference (L : Lexicon) (name : String) :
      DraftStep L (L.addPattern { givenLabel := "", tree := some (.reference name) }).2
  | extraToken (L : Lexicon) (name : String) : DraftStep L (L.addExtraToken name)
  | modifyEntries (L : Lexicon) (tp : Nat) (f : TokenProduction → TokenProduction) :
      (∀ tp, ∃ entries, f tp = { tp with entries := entries } ∧
        entries.map TokenEntry.pattern = tp.entries.map TokenEntry.pattern) →
      DraftStep L (L.modifyProduction tp f)
  | position (L : Lexicon) (id : Nat) (position : Position) :
      DraftStep L (L.modifyPattern id fun p => { p with position := position })

variable {L L' L'' : Lexicon}

/-! ### Positions -/

/-- A change of a pattern is seen in this pattern only. -/
theorem pattern_modifyPattern (L : Lexicon) (id x : Nat) (f : Pattern → Pattern) :
    (L.modifyPattern id f).pattern x =
      if id = x ∧ x < L.patterns.size then f (L.pattern x) else L.pattern x := by
  simp only [pattern, pattern?, modifyPattern, Array.getElem?_modify]
  by_cases h : id = x
  · subst h
    by_cases hid : id < L.patterns.size
    · simp [hid]
    · simp [hid]
  · simp [h]

/-- A change of a token production is seen in this token production only. -/
theorem production_modifyProduction (L : Lexicon) (tp x : Nat)
    (f : TokenProduction → TokenProduction) :
    (L.modifyProduction tp f).production x =
      if tp = x ∧ x < L.tokenProductions.size then f (L.production x) else L.production x := by
  simp only [production, modifyProduction, Array.getElem?_modify]
  by_cases h : tp = x
  · subst h
    by_cases htp : tp < L.tokenProductions.size
    · simp [htp]
    · simp [htp]
  · simp [h]

/-- A new pattern comes after the older ones. -/
theorem pattern_addPattern (L : Lexicon) (p : Pattern) (x : Nat) :
    (L.addPattern p).2.pattern x = if x = L.patterns.size then p else L.pattern x := by
  simp only [pattern, pattern?, addPattern, Array.getElem?_push]
  by_cases h : x = L.patterns.size <;> simp [h]

/-- A new token production comes after the older ones. -/
theorem production_addTokenProduction (L : Lexicon) (tp : TokenProduction) (x : Nat) :
    (L.addTokenProduction tp).2.production x =
      if x = L.tokenProductions.size then tp else L.production x := by
  simp only [production, addTokenProduction, Array.getElem?_push]
  by_cases h : x = L.tokenProductions.size <;> simp [h]

/-- There is only the default beyond the patterns. -/
theorem pattern_of_size_le {id : Nat} (h : L.patterns.size ≤ id) : L.pattern id = default := by
  rw [pattern, pattern?, Array.getElem?_eq_none h]
  rfl

/-- There is only the default beyond the token productions. -/
theorem production_of_size_le {tp : Nat} (h : L.tokenProductions.size ≤ tp) :
    L.production tp = default := by
  rw [production, Array.getElem?_eq_none h]
  rfl

/-- A pattern is added to a token production that exists. -/
theorem addEntry_cases {tp id : Nat} {label : String} {isPrivate : Bool} {tree : Option Regex}
    (h : L.addEntry tp label isPrivate tree = .ok (id, L')) :
    tp < L.tokenProductions.size ∧ id = L.patterns.size ∧ ∃ p : Pattern,
      p.ordinal = none ∧ p.isPrivate = isPrivate ∧ p.tree = tree ∧ p.production = some tp ∧
      L' = (L.addPattern p).2.modifyProduction tp fun tp =>
        { tp with entries := tp.entries ++ [{ pattern := id }] } := by
  rw [addEntry] at h
  split at h
  · rename_i htp
    obtain ⟨rfl, rfl⟩ := Prod.mk.inj (Except.ok.inj h)
    exact ⟨htp, rfl, _, rfl, rfl, rfl, rfl, rfl⟩
  · cases h

/-! ### What the steps keep -/

/-- A token production retains its own patterns. -/
theorem RetainsProduction.refl (tp : TokenProduction) : RetainsProduction tp tp :=
  ⟨rfl, rfl, rfl, rfl, fun _ h => h⟩

/-- Retaining patterns is transitive. -/
theorem RetainsProduction.trans {tp tp' tp'' : TokenProduction} (h : RetainsProduction tp tp')
    (h' : RetainsProduction tp' tp'') : RetainsProduction tp tp'' :=
  ⟨h'.kind.trans h.kind, h'.lexicalStates.trans h.lexicalStates, h'.ignoreCase.trans h.ignoreCase,
    h'.explicit.trans h.explicit, fun id hid => h'.entries id (h.entries id hid)⟩

/-- A lexicon retains its own declarations. -/
theorem Retains.refl (L : Lexicon) : L.Retains L :=
  ⟨Nat.le_refl _, Nat.le_refl _, fun _ _ => ⟨_, rfl⟩, fun _ _ => .refl _⟩

/-- Retaining declarations is transitive. -/
theorem Retains.trans (h : L.Retains L') (h' : L'.Retains L'') : L.Retains L'' where
  size_le := Nat.le_trans h.size_le h'.size_le
  productions_le := Nat.le_trans h.productions_le h'.productions_le
  pattern := fun id hid => by
    obtain ⟨p, hp⟩ := h.pattern id hid
    obtain ⟨q, hq⟩ := h'.pattern id (Nat.lt_of_lt_of_le hid h.size_le)
    exact ⟨q, by rw [hq, hp]⟩
  production := fun tp htp => (h.production tp htp).trans
    (h'.production tp (Nat.lt_of_lt_of_le htp h.productions_le))

/-- A new pattern leaves the older declarations. -/
theorem retains_addPattern (L : Lexicon) (p : Pattern) : L.Retains (L.addPattern p).2 where
  size_le := by simp [addPattern]
  productions_le := Nat.le_refl _
  pattern := fun id hid => ⟨_, by rw [pattern_addPattern, if_neg (Nat.ne_of_lt hid)]⟩
  production := fun tp _ => .refl _

/-- A change of a token production that retains its patterns retains the declarations. -/
theorem retains_modifyProduction (L : Lexicon) (tp : Nat) {f : TokenProduction → TokenProduction}
    (hf : ∀ tp, RetainsProduction tp (f tp)) : L.Retains (L.modifyProduction tp f) where
  size_le := Nat.le_refl _
  productions_le := by simp [modifyProduction]
  pattern := fun id _ => ⟨_, rfl⟩
  production := fun x _ => by
    rw [production_modifyProduction]
    split
    · exact hf _
    · exact .refl _

/-- A step of the builder keeps the declarations. -/
theorem DraftStep.retains (h : DraftStep L L') : L.Retains L' := by
  cases h with
  | state name =>
      rw [addLexicalState]
      split
      · exact .refl L
      · exact ⟨Nat.le_refl _, Nat.le_refl _, fun _ _ => ⟨_, rfl⟩, fun _ _ => .refl _⟩
  | production tp _ _ =>
      refine ⟨Nat.le_refl _, by simp [addTokenProduction], fun _ _ => ⟨_, rfl⟩, fun x hx => ?_⟩
      rw [production_addTokenProduction, if_neg (Nat.ne_of_lt hx)]
      exact .refl _
  | entry h =>
      obtain ⟨-, -, p, -, -, -, -, rfl⟩ := addEntry_cases h
      refine (retains_addPattern L p).trans (retains_modifyProduction _ _ fun tp => ?_)
      refine ⟨rfl, rfl, rfl, rfl, fun id hid => ?_⟩
      rw [List.map_append]
      exact List.mem_append_left _ hid
  | reference name => exact retains_addPattern L _
  | extraToken name =>
      rw [addExtraToken]
      split
      · exact .refl L
      · exact ⟨Nat.le_refl _, Nat.le_refl _, fun _ _ => ⟨_, rfl⟩, fun _ _ => .refl _⟩
  | modifyEntries tp f hf =>
      refine retains_modifyProduction L tp fun tp => ?_
      obtain ⟨entries, heq, hmap⟩ := hf tp
      rw [heq]
      exact ⟨rfl, rfl, rfl, rfl, fun id hid => hmap ▸ hid⟩
  | position id position =>
      refine ⟨by simp [modifyPattern], Nat.le_refl _, fun x _ => ?_, fun _ _ => .refl _⟩
      rw [pattern_modifyPattern]
      split
      · exact ⟨position, rfl⟩
      · exact ⟨_, rfl⟩

/-! ### Fresh lexicons -/

/-- An empty lexicon with its default lexical state is fresh. -/
theorem fresh_new (ignoreCase : Bool) :
    ((Lexicon.new ignoreCase).addLexicalState defaultLexicalState).2.Fresh where
  size_pos := Nat.one_pos
  endOfInput := ⟨rfl, rfl, rfl⟩
  ordinals_eq := rfl
  unregistered := fun id hid => by
    rw [pattern_of_size_le (Nat.one_le_iff_ne_zero.mpr hid)]
    rfl
  states := fun s hs => by
    obtain rfl := List.mem_singleton.mp hs
    rfl
  default := rfl
  declared := fun tp e he => by
    rw [production_of_size_le (Nat.zero_le tp)] at he
    exact absurd he List.not_mem_nil
  entries_nodup := fun tp => by
    rw [production_of_size_le (Nat.zero_le tp)]
    exact List.nodup_nil
  folds := fun tp htp => absurd htp (Nat.not_lt_zero tp)

/-- A pattern without an ordinal is added outside of any token production. -/
theorem Fresh.addPattern (h : L.Fresh) {p : Pattern} (hp : p.ordinal = none) :
    (L.addPattern p).2.Fresh where
  size_pos := Nat.lt_of_lt_of_le h.size_pos (retains_addPattern L p).size_le
  endOfInput := by
    rw [pattern_addPattern, if_neg (Nat.ne_of_lt h.size_pos)]
    exact h.endOfInput
  ordinals_eq := h.ordinals_eq
  unregistered := fun id hid => by
    rw [pattern_addPattern]
    split
    · exact hp
    · exact h.unregistered id hid
  states := h.states
  default := h.default
  declared := fun tp e he => by
    obtain ⟨hlt, hproduction⟩ := h.declared tp e he
    rw [pattern_addPattern, if_neg (Nat.ne_of_lt hlt)]
    exact ⟨Nat.lt_of_lt_of_le hlt (retains_addPattern L p).size_le, hproduction⟩
  entries_nodup := h.entries_nodup
  folds := h.folds

/-- A pattern gets its place in its token production. -/
theorem Fresh.declare (h : L.Fresh) {tp id : Nat} (hid : id < L.patterns.size)
    (hproduction : (L.pattern id).production = some tp)
    (hnew : ∀ e ∈ (L.production tp).entries, e.pattern ≠ id) :
    (L.modifyProduction tp fun tp =>
      { tp with entries := tp.entries ++ [{ pattern := id }] }).Fresh where
  size_pos := h.size_pos
  endOfInput := h.endOfInput
  ordinals_eq := h.ordinals_eq
  unregistered := h.unregistered
  states := h.states
  default := h.default
  declared := fun x e he => by
    rw [production_modifyProduction] at he
    split at he
    · rename_i hx
      obtain ⟨rfl, -⟩ := hx
      rcases List.mem_append.mp he with he | he
      · exact h.declared tp e he
      · rw [List.mem_singleton.mp he]
        exact ⟨hid, hproduction⟩
    · exact h.declared x e he
  entries_nodup := fun x => by
    rw [production_modifyProduction]
    split
    · rename_i hx
      obtain ⟨rfl, -⟩ := hx
      rw [List.map_append]
      refine List.Nodup.append (h.entries_nodup tp) (List.nodup_singleton id) ?_
      intro i hi hi'
      obtain ⟨e, he, rfl⟩ := List.mem_map.mp hi
      exact hnew e he (List.mem_singleton.mp hi')
    · exact h.entries_nodup x
  folds := fun x hx hcase => by
    rw [production_modifyProduction]
    have hx' : x < L.tokenProductions.size := by simpa [modifyProduction] using hx
    split
    · exact h.folds x hx' hcase
    · exact h.folds x hx' hcase

/-- A fresh lexicon has a lexical state. -/
theorem Fresh.lexicalStates_pos (h : L.Fresh) : 0 < L.lexicalStates.size := by
  by_contra hsize
  have hdefault := h.default
  rw [Array.getElem?_eq_none (Nat.le_of_not_lt hsize)] at hdefault
  cases hdefault

/-- The default lexical state of a fresh lexicon is the first one. -/
theorem Fresh.stateIndex_default (h : L.Fresh) : L.stateIndex defaultLexicalState = some 0 := by
  obtain ⟨s, hs, hname⟩ := Option.map_eq_some_iff.mp h.default
  obtain ⟨hlt, rfl⟩ := Array.getElem?_eq_some_iff.mp hs
  exact List.findIdx?_eq_some_iff_getElem.mpr
    ⟨hlt, by simpa using hname, fun j hj => absurd hj (Nat.not_lt_zero j)⟩

/-- A fresh lexicon stays fresh with one more lexical state. -/
theorem Fresh.addLexicalState (h : L.Fresh) (name : String) : (L.addLexicalState name).2.Fresh := by
  rw [Lexicon.addLexicalState]
  split
  · exact h
  · refine { h with states := fun s hs => ?_, default := ?_ }
    · rw [Array.toList_push, List.mem_append] at hs
      rcases hs with hs | hs
      · exact h.states s hs
      · obtain rfl := List.mem_singleton.mp hs
        rfl
    · rw [Array.getElem?_push, if_neg (Nat.ne_of_lt h.lexicalStates_pos)]
      exact h.default

/-- A token production is added without entries. -/
theorem Fresh.addTokenProduction (h : L.Fresh) {tp : TokenProduction} (hentries : tp.entries = [])
    (hcase : L.ignoreCase → tp.ignoreCase) : (L.addTokenProduction tp).2.Fresh := by
  refine { h with
    declared := fun x e he => ?_
    entries_nodup := fun x => ?_
    folds := fun x hx => ?_ }
  · rw [production_addTokenProduction] at he
    split at he
    · rw [hentries] at he
      exact absurd he List.not_mem_nil
    · exact h.declared x e he
  · rw [production_addTokenProduction]
    split
    · rw [hentries]
      exact List.nodup_nil
    · exact h.entries_nodup x
  · rw [production_addTokenProduction]
    split
    · exact hcase
    · rename_i hne
      refine h.folds x (Nat.lt_of_le_of_ne (Nat.le_of_lt_succ ?_) hne)
      simpa [Lexicon.addTokenProduction] using hx

/-- The entries of a token production are changed, and keep their patterns. -/
theorem Fresh.modifyEntries (h : L.Fresh) (tp : Nat) {f : TokenProduction → TokenProduction}
    (hf : ∀ tp, ∃ entries, f tp = { tp with entries := entries } ∧
      entries.map TokenEntry.pattern = tp.entries.map TokenEntry.pattern) :
    (L.modifyProduction tp f).Fresh := by
  have hkept : ∀ x, ∃ entries,
      (L.modifyProduction tp f).production x = { L.production x with entries := entries } ∧
        entries.map TokenEntry.pattern = (L.production x).entries.map TokenEntry.pattern :=
    fun x => by
      rw [production_modifyProduction]
      split
      · exact hf _
      · exact ⟨_, rfl, rfl⟩
  refine { h with
    declared := fun x e he => ?_
    entries_nodup := fun x => ?_
    folds := fun x hx hcase => ?_ }
  · obtain ⟨entries, heq, hmap⟩ := hkept x
    rw [heq] at he
    obtain ⟨e', he', hpattern⟩ := List.mem_map.mp (hmap ▸ List.mem_map_of_mem he)
    exact hpattern ▸ h.declared x e' he'
  · obtain ⟨entries, heq, hmap⟩ := hkept x
    rw [heq, hmap]
    exact h.entries_nodup x
  · obtain ⟨entries, heq, -⟩ := hkept x
    rw [heq]
    exact h.folds x (by simpa [modifyProduction] using hx) hcase

/-- A pattern gets a position. -/
theorem Fresh.modifyPosition (h : L.Fresh) (id : Nat) (position : Position) :
    (L.modifyPattern id fun p => { p with position := position }).Fresh := by
  have hpattern : ∀ x, ∃ position',
      (L.modifyPattern id fun p => { p with position := position }).pattern x
        = { L.pattern x with position := position' } := fun x => by
    rw [pattern_modifyPattern]
    split
    · exact ⟨position, rfl⟩
    · exact ⟨_, rfl⟩
  refine { h with
    size_pos := ?_
    endOfInput := ?_
    unregistered := fun x hx => ?_
    declared := fun x e he => ?_ }
  · simpa [modifyPattern] using h.size_pos
  · obtain ⟨position', heq⟩ := hpattern 0
    rw [heq]
    exact h.endOfInput
  · obtain ⟨position', heq⟩ := hpattern x
    rw [heq]
    exact h.unregistered x hx
  · obtain ⟨hlt, hproduction⟩ := h.declared x e he
    obtain ⟨position', heq⟩ := hpattern e.pattern
    rw [heq]
    exact ⟨by simpa [modifyPattern] using hlt, hproduction⟩

/-- **A step of the builder registers nothing.** -/
theorem DraftStep.fresh (hstep : DraftStep L L') (h : L.Fresh) : L'.Fresh := by
  cases hstep with
  | state name => exact h.addLexicalState name
  | production tp hentries hcase => exact h.addTokenProduction hentries hcase
  | entry hentry =>
      obtain ⟨htp, rfl, p, hordinal, -, -, hproduction, rfl⟩ := addEntry_cases hentry
      refine (h.addPattern hordinal).declare (by simp [Lexicon.addPattern]) ?_ fun e he => ?_
      · rw [pattern_addPattern, if_pos rfl]
        exact hproduction
      · exact Nat.ne_of_lt (h.declared _ e he).1
  | reference name => exact h.addPattern rfl
  | extraToken name =>
      rw [addExtraToken]
      split
      · exact h
      · exact { h with }
  | modifyEntries tp f hf => exact h.modifyEntries tp hf
  | position id position => exact h.modifyPosition id position

/-- A step of the builder names no pattern, and keeps the case flag. -/
theorem DraftStep.flags_eq (h : DraftStep L L') :
    L'.ignoreCase = L.ignoreCase ∧ L'.namedTokens = L.namedTokens := by
  cases h with
  | state name =>
      rw [addLexicalState]
      split <;> exact ⟨rfl, rfl⟩
  | production tp _ _ => exact ⟨rfl, rfl⟩
  | entry h =>
      obtain ⟨-, -, p, -, -, -, -, rfl⟩ := addEntry_cases h
      exact ⟨rfl, rfl⟩
  | reference name => exact ⟨rfl, rfl⟩
  | extraToken name =>
      rw [addExtraToken]
      split <;> exact ⟨rfl, rfl⟩
  | modifyEntries tp f hf => exact ⟨rfl, rfl⟩
  | position id position => exact ⟨rfl, rfl⟩

/-- The steps change neither the case flag nor the names. -/
theorem flags_eq_of_draftSteps (h : Relation.ReflTransGen DraftStep L L') :
    L'.ignoreCase = L.ignoreCase ∧ L'.namedTokens = L.namedTokens := by
  induction h with
  | refl => exact ⟨rfl, rfl⟩
  | tail _ hstep ih => exact ⟨hstep.flags_eq.1.trans ih.1, hstep.flags_eq.2.trans ih.2⟩

end Lexicon

end GrammarAnalysis
