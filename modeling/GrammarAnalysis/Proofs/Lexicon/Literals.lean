import GrammarAnalysis.Proofs.Lexicon.Drafts
import GrammarAnalysis.Proofs.Lexicon.Recognition

/-!
# The Literals of a Lexer

Building a lexicon leaves the tables of the literals alone, and the trees and the ordinals of the
patterns. The automaton of a lexical state matches a literal character by character, and accepts it
for the words that have a simple case variant of each of its characters. The tables compare the
upper-case forms of whole texts instead.

## Main definitions

* `Lexicon.Reads`: the lexer reads a text as a token.

## Main results

* `Lexicon.exists_build`: a lexical state that is built;
* `Lexicon.accepts_literal_iff`: the words for which a literal is accepted.
-/

namespace GrammarAnalysis

namespace Lexicon

variable {L L' : Lexicon} {log log' : Log}

/-- The default lexical state accepts the text, with the token that has this ordinal. -/
def Reads (L : Lexicon) (image : String) (o : Nat) : Prop :=
  ∃ S r, L.lexicalState defaultLexicalState = some S ∧
    S.automaton.accepts r (image.toList.map Char.toNat) ∧ (L.pattern r).ordinal = some o

/-- Only a pattern that exists has an ordinal. -/
theorem lt_size_of_ordinal {r o : Nat} (h : (L.pattern r).ordinal = some o) :
    r < L.patterns.size := by
  by_contra hr
  rw [pattern_of_size_le (Nat.le_of_not_lt hr)] at h
  cases h

instance (L : Lexicon) (image : String) (o : Nat) : Decidable (L.Reads image o) :=
  decidable_of_iff
    ((L.lexicalState defaultLexicalState).any fun S => (List.range L.patterns.size).any fun r =>
      S.automaton.accepts r (image.toList.map Char.toNat)
        && decide ((L.pattern r).ordinal = some o)) <| by
    simp only [Reads, Option.any_eq_true, List.any_eq_true, List.mem_range, Bool.and_eq_true,
      decide_eq_true_eq]
    refine exists_congr fun S => ?_
    rw [exists_and_left]
    exact and_congr_right fun _ => exists_congr fun r =>
      and_iff_right_of_imp fun h => lt_size_of_ordinal h.2

/-- The first lexical state is found under its name. -/
theorem lexicalState_of_first {s : LexicalState} (hs : L.lexicalStates[0]? = some s) :
    L.lexicalState s.name = some s := by
  rw [← Array.getElem?_toList] at hs
  rw [lexicalState]
  cases hstates : L.lexicalStates.toList with
  | nil =>
      rw [hstates] at hs
      cases hs
  | cons first rest =>
      rw [hstates] at hs
      obtain rfl := Option.some.inj hs
      exact List.find?_cons_of_pos (beq_self_eq_true _)

/-- A lexical state that is found has the name. -/
theorem exists_of_stateIndex {name : String} {i : Nat} (h : L.stateIndex name = some i) :
    ∃ s, L.lexicalStates[i]? = some s ∧ s.name = name := by
  obtain ⟨hlt, hname, -⟩ := List.findIdx?_eq_some_iff_getElem.mp h
  refine ⟨_, Array.getElem?_eq_getElem hlt, ?_⟩
  simpa using hname

/-! ### What the construction leaves alone -/

/-- Only the transitions and actions of the patterns are set. -/
theorem pattern_setTransitions (L : Lexicon) (x : Nat) : ∃ nextState action,
    L.setTransitions.pattern x = { L.pattern x with nextState := nextState, action := action } := by
  rw [setTransitions]
  generalize L.lexicalStates.toList.flatMap L.transitionsOf = transitions
  induction transitions generalizing L with
  | nil => exact ⟨_, _, rfl⟩
  | cons t transitions ih =>
      obtain ⟨nextState, action, h⟩ := ih (L.modifyPattern t.1 fun p =>
        { p with nextState := t.2.1 <|> p.nextState, action := t.2.2 <|> p.action })
      refine ⟨nextState, action, h.trans ?_⟩
      rw [pattern_modifyPattern]
      split <;> rfl

/-- Ensuring a label gives one to a pattern, or changes nothing. -/
theorem ensureLabel_cases (L : Lexicon) (ordinal : Nat) : L.ensureLabel ordinal = L ∨
    ∃ id label, L.ensureLabel ordinal =
      L.modifyPattern id fun p => { p with givenLabel := label } := by
  unfold ensureLabel
  split
  · exact .inl rfl
  · simp only
    split
    · exact .inl rfl
    · exact .inr ⟨_, _, rfl⟩

/-- Only the labels of the patterns are changed. -/
theorem ensureLabels_spec (L : Lexicon) : L.ensureLabels.lexicalStates = L.lexicalStates ∧
    ∀ x, ∃ label, L.ensureLabels.pattern x = { L.pattern x with givenLabel := label } := by
  refine List.foldlRecOn (motive := fun M : Lexicon => M.lexicalStates = L.lexicalStates ∧
    ∀ x, ∃ label, M.pattern x = { L.pattern x with givenLabel := label }) _ _
    ⟨rfl, fun x => ⟨_, rfl⟩⟩ fun M ⟨hstates, hpattern⟩ ordinal _ => ?_
  rcases M.ensureLabel_cases ordinal with h | ⟨id, label, h⟩
  · rw [h]
    exact ⟨hstates, hpattern⟩
  · rw [h]
    refine ⟨hstates, fun x => ?_⟩
    obtain ⟨label', hx⟩ := hpattern x
    rw [pattern_modifyPattern, hx]
    split
    · exact ⟨label, rfl⟩
    · exact ⟨label', rfl⟩

/-- What a computation keeps of each element, it keeps of the list. -/
theorem map_of_mapM_eq_ok {α β γ : Type} {f : α → Except Fault β} {l : List α} {bs : List β}
    {v : α → γ} {w : β → γ} (hf : ∀ a b, f a = .ok b → w b = v a) (h : l.mapM f = .ok bs) :
    bs.map w = l.map v := by
  induction l generalizing bs with
  | nil =>
      rw [List.mapM_nil] at h
      obtain rfl := Except.ok.inj h
      rfl
  | cons a l ih =>
      rw [List.mapM_cons] at h
      obtain ⟨b, hb, h⟩ := exists_of_bind_eq_ok h
      obtain ⟨bs', hbs', h⟩ := exists_of_bind_eq_ok h
      obtain rfl := Except.ok.inj h
      rw [List.map_cons, List.map_cons, hf a b hb, ih hbs']

/-- A lexical state that is built keeps its name and its literals. -/
theorem build_state_literals {s S : LexicalState} (h : s.build L = .ok S) :
    (S.name, S.findLiteral) = (s.name, s.findLiteral) := by
  obtain ⟨A, -, h⟩ := exists_of_bind_eq_ok h
  obtain ⟨B, -, h⟩ := exists_of_bind_eq_ok h
  obtain rfl := Except.ok.inj h
  rfl

/-- **A lexical state that is built** keeps its name and its literals, and the patterns keep their
trees and their ordinals. -/
theorem exists_build (h : L.build log = .ok (L', log')) {i : Nat} {s : LexicalState}
    (hs : L.lexicalStates[i]? = some s) :
    (∃ states S, L'.lexicalStates[i]? = some S ∧ S.name = s.name ∧
        (∀ image, S.findLiteral image = s.findLiteral image) ∧
        (L.entered L.uses i s).build { L with lexicalStates := states } = .ok S) ∧
      ∀ x, ∃ nextState action,
        L'.pattern x = { L.pattern x with nextState := nextState, action := action } := by
  obtain ⟨states, built, hstates, hbuilt, rfl⟩ := build_eq_ok h
  refine ⟨?_, pattern_setTransitions _⟩
  have hentered : states.toList[i]? = some (L.entered L.uses i s) := by
    rw [Array.getElem?_toList, hstates i, hs]
    rfl
  have hlength : built.length = states.toList.length := by
    rw [← List.length_map fun _ => (), map_of_mapM_eq_ok (fun _ _ _ => rfl) hbuilt,
      List.length_map]
  obtain ⟨hlt, -⟩ := List.getElem?_eq_some_iff.mp hentered
  rw [← hlength] at hlt
  obtain ⟨s', hs', hbuild⟩ := exists_of_mapM_eq_ok hbuilt (List.getElem?_eq_getElem hlt)
  obtain rfl := Option.some.inj (hs'.symm.trans hentered)
  have hS : ({ L with lexicalStates := built.toArray } : Lexicon).setTransitions.lexicalStates[i]?
      = some built[i] := by
    rw [setTransitions_lexicalStates, List.getElem?_toArray]
    exact List.getElem?_eq_getElem hlt
  obtain ⟨hname, hfind⟩ := Prod.mk.inj (build_state_literals hbuild)
  exact ⟨states, built[i], hS, hname, congrFun hfind, hbuild⟩

/-! ### What the construction keeps -/

/-- The second lexicon has the tokens, the names and the literals of the first one. -/
structure KeepsTokens (L L' : Lexicon) : Prop where
  ordinals_eq : L'.ordinals = L.ordinals
  extraTokens_eq : L'.extraTokens = L.extraTokens
  namedTokens_eq : L'.namedTokens = L.namedTokens
  tokenProductions_eq : L'.tokenProductions = L.tokenProductions
  patterns_size_eq : L'.patterns.size = L.patterns.size
  pattern : ∀ x, ∃ label nextState action, L'.pattern x =
    { L.pattern x with givenLabel := label, nextState := nextState, action := action }
  state : ∀ i : Nat, (L'.lexicalStates[i]?).map (fun s => (s.name, s.findLiteral))
    = (L.lexicalStates[i]?).map fun s => (s.name, s.findLiteral)

/-- A lexicon keeps its own tokens. -/
theorem KeepsTokens.refl (L : Lexicon) : L.KeepsTokens L :=
  ⟨rfl, rfl, rfl, rfl, rfl, fun _ => ⟨_, _, _, rfl⟩, fun _ => rfl⟩

/-- Keeping the tokens is transitive. -/
theorem KeepsTokens.trans {L'' : Lexicon} (h : L.KeepsTokens L') (h' : L'.KeepsTokens L'') :
    L.KeepsTokens L'' where
  ordinals_eq := h'.ordinals_eq.trans h.ordinals_eq
  extraTokens_eq := h'.extraTokens_eq.trans h.extraTokens_eq
  namedTokens_eq := h'.namedTokens_eq.trans h.namedTokens_eq
  tokenProductions_eq := h'.tokenProductions_eq.trans h.tokenProductions_eq
  patterns_size_eq := h'.patterns_size_eq.trans h.patterns_size_eq
  pattern := fun x => by
    obtain ⟨_, _, _, hp⟩ := h.pattern x
    obtain ⟨label, nextState, action, hp'⟩ := h'.pattern x
    exact ⟨label, nextState, action, by rw [hp', hp]⟩
  state := fun i => (h'.state i).trans (h.state i)

/-- A change of a label, a next lexical state or an action keeps the tokens. -/
theorem keepsTokens_modifyPattern (L : Lexicon) (id : Nat) {f : Pattern → Pattern}
    (hf : ∀ p, ∃ label nextState action,
      f p = { p with givenLabel := label, nextState := nextState, action := action }) :
    L.KeepsTokens (L.modifyPattern id f) :=
  { KeepsTokens.refl L with
    patterns_size_eq := Array.size_modify
    pattern := fun x => by
      rw [pattern_modifyPattern]
      split
      · exact hf _
      · exact ⟨_, _, _, rfl⟩ }

/-- Setting the transitions keeps the tokens. -/
theorem keepsTokens_setTransitions (L : Lexicon) : L.KeepsTokens L.setTransitions :=
  List.foldlRecOn (motive := fun M : Lexicon => L.KeepsTokens M) _ _ (.refl L)
    fun M h _ _ => h.trans (keepsTokens_modifyPattern M _ fun _ => ⟨_, _, _, rfl⟩)

/-- Ensuring a label keeps the tokens. -/
theorem keepsTokens_ensureLabel (L : Lexicon) (ordinal : Nat) :
    L.KeepsTokens (L.ensureLabel ordinal) := by
  rcases L.ensureLabel_cases ordinal with heq | ⟨id, label, heq⟩
  · rw [heq]
    exact .refl L
  · rw [heq]
    exact keepsTokens_modifyPattern L id fun _ => ⟨label, _, _, rfl⟩

/-- Ensuring all labels keeps the tokens. -/
theorem keepsTokens_ensureLabels (L : Lexicon) : L.KeepsTokens L.ensureLabels :=
  List.foldlRecOn (motive := fun M : Lexicon => L.KeepsTokens M) _ _ (.refl L)
    fun M h ordinal _ => h.trans (M.keepsTokens_ensureLabel ordinal)

/-- **The lexer that is built** has the tokens, the names and the literals of its lexicon. -/
theorem keepsTokens_build (h : L.build log = .ok (L', log')) : L.KeepsTokens L' := by
  obtain ⟨states, built, hstates, hbuilt, rfl⟩ := build_eq_ok h
  refine KeepsTokens.trans ?_ (keepsTokens_setTransitions _)
  refine { KeepsTokens.refl L with state := fun i => ?_ }
  have hmap := map_of_mapM_eq_ok (fun _ _ hbuild => build_state_literals hbuild) hbuilt
  rw [List.getElem?_toArray, ← List.getElem?_map, hmap, List.getElem?_map, Array.getElem?_toList,
    hstates i, Option.map_map]
  rfl

/-- The lexical states keep their places. -/
theorem KeepsTokens.stateIndex_eq (h : L.KeepsTokens L') (name : String) :
    L'.stateIndex name = L.stateIndex name :=
  stateIndex_congr (fun i => by
    have hstate := congrArg (Option.map Prod.fst) (h.state i)
    rw [Option.map_map, Option.map_map] at hstate
    exact hstate) name

/-! ### The words of a literal -/

/-- **The words for which a literal is accepted**: those with a simple case variant of each of its
characters, if case is ignored; and the literal alone, if not. -/
theorem accepts_literal_iff (hL : L.Unbuilt) {i : Nat} {s S : LexicalState}
    (hs : L.lexicalStates[i]? = some s) {states : Array LexicalState}
    (hbuild : (L.entered L.uses i s).build { L with lexicalStates := states } = .ok S)
    {pattern : Nat} {image : String} (htree : (L.pattern pattern).tree = some (.text image))
    {w : List Nat} (hw : w ≠ []) :
    S.automaton.accepts pattern w ↔
      ∃ tp, L.Declares i tp pattern ∧ Regex.TextVariant (L.foldsCase tp) image w := by
  obtain ⟨A, hA, hprepare⟩ := sprouted_build (s := L.entered L.uses i s) (hL.state hs).1 hbuild
  have hexp : (Regex.text image).Expandable L.namedTree := Regex.expandable_of_references_eq_nil rfl
  have hlanguage : ∀ tp, w ∈ (Regex.text image).languageIn (L.folding (L.foldsCase tp))
      L.namedTree ↔ Regex.TextVariant (L.foldsCase tp) image w := fun tp => by
    rw [folding_foldsCase, Regex.languageIn_eq hexp, Regex.mem_language_text]
  constructor
  · intro haccepts
    obtain ⟨ignoreCase, hp, hmem⟩ := mem_languageIn_of_accepts hA hprepare haccepts
    obtain ⟨tp, hdeclares, rfl⟩ := (mem_patternsOf_entered hL hs).mp hp
    exact ⟨tp, hdeclares, (hlanguage _).mp (hmem _ htree hexp)⟩
  · rintro ⟨tp, hdeclares, hvariant⟩
    refine accepts_of_mem_languageIn hA hprepare
      ((mem_patternsOf_entered hL hs).mpr ⟨tp, hdeclares, rfl⟩) htree hexp ?_
      ((hlanguage _).mpr hvariant) hw
    exact Regex.steady_of_references_eq_nil rfl fun q body further hpart _ => by cases hpart

/-- Only patterns that are declared for the lexical state are accepted. -/
theorem declares_of_accepts (hL : L.Unbuilt) {i : Nat} {s S : LexicalState}
    (hs : L.lexicalStates[i]? = some s) {states : Array LexicalState}
    (hbuild : (L.entered L.uses i s).build { L with lexicalStates := states } = .ok S)
    {pattern : Nat} {w : List Nat} (haccepts : S.automaton.accepts pattern w) :
    ∃ tp, L.Declares i tp pattern := by
  obtain ⟨A, hA, hprepare⟩ := sprouted_build (s := L.entered L.uses i s) (hL.state hs).1 hbuild
  obtain ⟨ignoreCase, hp, -⟩ := mem_languageIn_of_accepts hA hprepare haccepts
  obtain ⟨tp, hdeclares, -⟩ := (mem_patternsOf_entered hL hs).mp hp
  exact ⟨tp, hdeclares⟩

end Lexicon

end GrammarAnalysis
