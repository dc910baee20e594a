import GrammarAnalysis.Proofs.Grammar.Consolidation
import GrammarAnalysis.Proofs.Grammar.EmptyMatches
import GrammarAnalysis.Proofs.Grammar.Warnings
import GrammarAnalysis.Proofs.Lexicon.Labels

/-!
# The Names of the Tokens

After an analysis without an error, the name of each token is an identifier. A label that is one is
kept, and no two patterns that are declared have the same. But the end of the input is called `EOF`
without being declared, so that another token may have this label too. And a name that is made from
an ordinal may be that of another token, by its label or by its text.

## Main definitions

* `Grammar.declaredLabel`: the label that a token was declared with;
* `Grammar.Renumbered`: a token with a name made from its ordinal;
* `Grammar.NameClash`: the ways for two tokens to have the same name.

## Main results

* `Grammar.registered_check`: which patterns are tokens after the checks;
* `Grammar.analyze_tokenNames`: the names are identifiers, and when two are the same;
* `Grammar.analyze_tokenNames_clash`: three grammars with names that are.
-/

namespace GrammarAnalysis

namespace Grammar

open Lexicon

variable {g g' : Grammar} {id o o' : Nat}

/-! ### The table of the tokens -/

/-- The steps of the registration leave the first token alone. -/
theorem RegistrationSteps.ordinals_head {ids : List Nat} {r r' : Registration}
    (h : RegistrationSteps ids r r') (hr : r.grammar.lexicon.ordinals[0]? = some 0) :
    r'.grammar.lexicon.ordinals[0]? = some 0 := by
  have hregister : ∀ {L : Lexicon} (id : Nat), L.ordinals[0]? = some 0 →
      (L.register id).2.ordinals[0]? = some 0 := fun {L} id hL => by
    obtain ⟨hlt, -⟩ := Array.getElem?_eq_some_iff.mp hL
    exact (Array.getElem?_push_lt hlt).trans (Array.getElem?_eq_getElem hlt ▸ hL)
  refine h.preserves (P := fun r' => r'.grammar.lexicon.ordinals[0]? = some 0)
    (fun id _ r₁ r₂ hstep ih => ?_) hr
  cases hstep with
  | registered => exact hregister id ih
  | declared _ =>
      simp only [declareLiteral]
      split
      · exact hregister id ih
      · exact ih
  | _ => exact ih

/-- The end of the input is the first token. -/
theorem ordinals_check_zero (hg : g.Drafted) (hsilent : g.check.log.hasNoErrors) :
    g.check.lexicon.ordinals[0]? = some 0 := by
  obtain ⟨names, -, hnames, -, hresolves⟩ := exists_checked hg hsilent
  rw [hresolves.ordinals_eq]
  refine List.foldlRecOn (motive := fun g' : Grammar => g'.lexicon.ordinals[0]? = some 0) _ _ ?_
    fun g' h id _ => (patterns_steps _ _ { grammar := g' }).ordinals_head h
  rw [hnames]
  exact hg.fresh.ordinals_eq ▸ rfl

/-- **The tokens after the checks**: apart from the end of the input, they are declared, and are no
references. They have ordinals, although a literal may have another one than its place in the
table. -/
theorem registered_check (hg : g.Drafted) (hsilent : g.check.log.hasNoErrors) (hpos : 0 < o)
    (ho : g.check.lexicon.ordinals[o]? = some id) :
    id ∈ g.declaredPatterns ∧ (g.lexicon.pattern id).isReference = false ∧
      ∃ k, 0 < k ∧ (g.check.lexicon.pattern id).ordinal = some k := by
  obtain ⟨hnodup, hagrees⟩ := check_ordinals hg
  obtain ⟨names, gone, -, hsettled⟩ := check_settled hg hsilent
  obtain ⟨L, hregistered, hresolves⟩ := hsettled.exists_registered
  have hplace : L.ordinals[o]? = some id := hresolves.ordinals_eq ▸ ho
  obtain ⟨hid, href, hordinal, -⟩ := hregistered.ledger.registered o id hplace
  have hne : id ≠ 0 := fun hzero => by
    have hhead := ordinals_check_zero hg hsilent
    rw [hzero, ← hhead, ← Array.getElem?_toList, ← Array.getElem?_toList] at ho
    obtain ⟨hlt, -⟩ := Array.getElem?_eq_some_iff.mp hhead
    exact Nat.ne_of_lt hpos ((List.getElem?_inj hlt hnodup).mp ho.symm)
  refine ⟨?_, href, ?_⟩
  · obtain ⟨tp, -, hmem⟩ := hid.resolve_left hne
    obtain ⟨e, he, rfl⟩ := List.mem_map.mp hmem
    exact mem_declaredPatterns.mpr ⟨tp, e, he, rfl⟩
  · have hpattern : g.check.lexicon.pattern id = L.pattern id :=
      hresolves.pattern_eq id (by rw [hregistered.ledger.registers.isReference_eq]; exact href)
    obtain ⟨k, hk⟩ := Option.isSome_iff_exists.mp hordinal
    rw [← hpattern] at hk
    refine ⟨k, ?_, hk⟩
    -- a literal never has the first ordinal, and any other token has that of its place
    cases himage : (g.check.lexicon.pattern id).literal? with
    | some image => exact ((consolidated_check hg hsilent).holder id image k himage hk).1
    | none =>
        have hstays : ¬ g.lexicon.Straddles id := fun ⟨hliteral, _⟩ => by
          have hnone : (g.lexicon.pattern id).literal? = none :=
            (hsettled.registers.literal?_eq id).symm.trans himage
          rw [hnone] at hliteral
          cases hliteral
        rw [(hagrees o id ho).2 hstays] at hk
        exact Option.some.inj hk ▸ hpos

/-! ### Labels -/

/-- The label that a token was declared with. -/
def declaredLabel (g : Grammar) (o : Nat) : String :=
  ((g.check.lexicon.ordinals[o]?).map fun id => (g.lexicon.pattern id).givenLabel).getD ""

/-- The declared label of a token is that of its pattern. -/
theorem declaredLabel_of_ordinals (ho : g.check.lexicon.ordinals[o]? = some id) :
    g.declaredLabel o = (g.lexicon.pattern id).givenLabel := by
  rw [declaredLabel, ho]
  rfl

/-- The first pattern of a draft is labelled as the end of the input. -/
theorem Drafted.givenLabel_zero (hg : g.Drafted) : (g.lexicon.pattern 0).givenLabel = "EOF" := by
  obtain ⟨options, h⟩ := hg
  obtain ⟨position, hpattern⟩ :=
    (retains_of_draftSteps (Drafted.new options) h).pattern 0 (Drafted.new options).fresh.size_pos
  rw [hpattern]
  rfl

/-- The first token is labelled as the end of the input. -/
theorem declaredLabel_zero (hg : g.Drafted) (hsilent : g.check.log.hasNoErrors) :
    g.declaredLabel 0 = "EOF" := by
  rw [declaredLabel_of_ordinals (ordinals_check_zero hg hsilent), hg.givenLabel_zero]

/-- A token is called by its label, or else by a numeral. -/
theorem tokenName_check (hg : g.Drafted) (hsilent : g.check.log.hasNoErrors)
    (ho : g.check.lexicon.ordinals[o]? = some id) :
    g.check.lexicon.tokenName o = g.declaredLabel o ∨
      g.declaredLabel o = "" ∧ ∃ k : Nat, g.check.lexicon.tokenName o = toString k := by
  obtain ⟨names, gone, -, hsettled⟩ := check_settled hg hsilent
  obtain ⟨ordinal, hpattern⟩ := hsettled.registers.pattern id
  have hgiven : (g.check.lexicon.pattern id).givenLabel = g.declaredLabel o := by
    rw [declaredLabel_of_ordinals ho, hpattern]
    rfl
  rw [tokenName_of_ordinals ho, Pattern.label, hgiven]
  split
  · exact .inl rfl
  · rename_i hunlabelled
    have hempty : g.declaredLabel o = "" := by
      rw [Pattern.hasLabel, hgiven, Bool.not_eq_true', Bool.not_eq_false] at hunlabelled
      exact String.isEmpty_iff.mp hunlabelled
    have hpos : 0 < o := Nat.pos_of_ne_zero fun hzero => by
      rw [hzero, declaredLabel_zero hg hsilent] at hempty
      exact absurd hempty (by decide)
    obtain ⟨-, -, k, hk, hordinal⟩ := registered_check hg hsilent hpos ho
    rw [hordinal]
    obtain ⟨k, rfl⟩ := Nat.exists_eq_succ_of_ne_zero (Nat.ne_of_gt hk)
    exact .inr ⟨hempty, k + 1, rfl⟩

/-- A token is called by an identifier just if this is its label. -/
theorem tokenName_check_eq_iff (hg : g.Drafted) (hsilent : g.check.log.hasNoErrors)
    (ho : o < g.check.lexicon.registeredCount) {name : String} (hname : isIdentifier name = true) :
    g.check.lexicon.tokenName o = name ↔ g.declaredLabel o = name := by
  rcases tokenName_check hg hsilent (Array.getElem?_eq_getElem ho) with heq | ⟨hempty, k, hk⟩
  · rw [heq]
  · rw [hempty, hk]
    refine iff_of_false (fun heq => ?_) fun heq => ?_
    · rw [← heq, isIdentifier_toString] at hname
      cases hname
    · rw [← heq] at hname
      cases hname

/-- After the checks, a token is named by an identifier exactly if it was labelled by one. -/
theorem isIdentifier_tokenName_check (hg : g.Drafted) (hsilent : g.check.log.hasNoErrors)
    (ho : o < g.check.lexicon.registeredCount) :
    isIdentifier (g.check.lexicon.tokenName o) = isIdentifier (g.declaredLabel o) := by
  rcases tokenName_check hg hsilent (Array.getElem?_eq_getElem ho) with heq | ⟨hempty, k, hk⟩
  · rw [heq]
  · rw [hempty, hk, isIdentifier_toString]
    rfl

/-- **Declared labels are different**, if they are identifiers. -/
theorem declaredLabel_inj (hg : g.Drafted) (hsilent : g.check.log.hasNoErrors) (hpos : 0 < o)
    (hpos' : 0 < o') (ho : o < g.check.lexicon.registeredCount)
    (ho' : o' < g.check.lexicon.registeredCount) (hname : isIdentifier (g.declaredLabel o) = true)
    (heq : g.declaredLabel o = g.declaredLabel o') : o = o' := by
  have hid := Array.getElem?_eq_getElem ho
  have hid' := Array.getElem?_eq_getElem ho'
  obtain ⟨hdeclared, href, -⟩ := registered_check hg hsilent hpos hid
  obtain ⟨hdeclared', href', -⟩ := registered_check hg hsilent hpos' hid'
  obtain ⟨hnamed, -⟩ := check_matchesEmpty hg hsilent
  have hname' := heq ▸ hname
  rw [declaredLabel_of_ordinals hid] at hname heq
  rw [declaredLabel_of_ordinals hid'] at hname' heq
  have hfirst := hnamed _ hdeclared href (hasLabel_of_isIdentifier hname)
  have hsecond := hnamed _ hdeclared' href' (hasLabel_of_isIdentifier hname')
  rw [heq, hsecond, Option.some.injEq] at hfirst
  rw [← hfirst, ← hid', ← Array.getElem?_toList, ← Array.getElem?_toList] at hid
  exact (List.getElem?_inj ho (check_ordinals hg).1).mp hid

/-- **Two tokens are called by one identifier**, before the labels are made identifiers, just if one
is the end of the input and the other one was declared with its label. -/
theorem tokenName_check_eq (hg : g.Drafted) (hsilent : g.check.log.hasNoErrors) (hlt : o < o')
    (ho' : o' < g.check.lexicon.registeredCount) :
    isIdentifier (g.check.lexicon.tokenName o) = true ∧
        g.check.lexicon.tokenName o = g.check.lexicon.tokenName o' ↔
      o = 0 ∧ g.declaredLabel o' = "EOF" := by
  have ho := Nat.lt_trans hlt ho'
  have hzero := declaredLabel_zero hg hsilent
  constructor
  · rintro ⟨hname, heq⟩
    rw [isIdentifier_tokenName_check hg hsilent ho] at hname
    rw [(tokenName_check_eq_iff hg hsilent ho hname).mpr rfl] at heq
    replace heq := (tokenName_check_eq_iff hg hsilent ho' hname).mp heq.symm
    rcases Nat.eq_zero_or_pos o with rfl | hpos
    · exact ⟨rfl, heq.trans hzero⟩
    · have hsame := declaredLabel_inj hg hsilent hpos (Nat.zero_lt_of_lt hlt) ho ho' hname heq.symm
      exact absurd hsame (Nat.ne_of_lt hlt)
  · rintro ⟨rfl, heq⟩
    have hname : isIdentifier "EOF" = true := by decide +kernel
    rw [(tokenName_check_eq_iff hg hsilent ho hname).mpr hzero,
      (tokenName_check_eq_iff hg hsilent ho' hname).mpr heq]
    exact ⟨hname, rfl⟩

/-! ### The analysis -/

/-- The token was declared without an identifier for a label, and has a name made from its
ordinal. -/
def Renumbered (g g' : Grammar) (o : Nat) : Prop :=
  isIdentifier (g.declaredLabel o) = false ∧ g'.lexicon.tokenName o = numberedLabel o

/-- The ways for two tokens to have the same name, where `o` comes before `o'`. -/
inductive NameClash (g g' : Grammar) (o o' : Nat) : Prop
  | endOfInput : o = 0 → g.declaredLabel o' = "EOF" → NameClash g g' o o'
  | later : g.Renumbered g' o' → g'.lexicon.tokenName o = numberedLabel o' → NameClash g g' o o'
  | earlier : g.Renumbered g' o → g.declaredLabel o' = numberedLabel o → NameClash g g' o o'

/-- What an analysis without an error makes of the names that its checks have left. -/
theorem exists_names (hg : g.Drafted) (h : g.analyze = .ok (none, g')) :
    g.check.log.hasNoErrors ∧ g'.lexicon.ordinals = g.check.lexicon.ordinals ∧
      ∃ L : Lexicon, L.ordinals = g.check.lexicon.ordinals ∧
        (∀ id, (L.pattern id).literal? = (g.lexicon.pattern id).literal?) ∧
        (∀ o < g.check.lexicon.registeredCount, L.tokenName o = g.check.lexicon.tokenName o) ∧
        ∀ o < L.registeredCount, L.Names g'.lexicon o := by
  obtain ⟨hsilent, L, log, hbuild, rfl⟩ := analyze_eq_ok h
  obtain ⟨hnodup, hagrees⟩ := check_ordinals hg
  obtain ⟨names, gone, -, hsettled⟩ := check_settled hg hsilent
  have hkeeps := keepsTokens_build hbuild
  have hordinals := hkeeps.ordinals_eq
  refine ⟨hsilent, (keepsTokens_ensureLabels L).ordinals_eq.trans hordinals, L, hordinals,
    fun id => ?_, fun o ho => ?_, fun o ho => ?_⟩
  · obtain ⟨_, _, _, hpattern⟩ := hkeeps.pattern id
    rw [hpattern]
    exact hsettled.registers.literal?_eq id
  · have hid := Array.getElem?_eq_getElem ho
    have hid' : L.ordinals[o]? = some g.check.lexicon.ordinals[o] := by
      rw [hordinals]
      exact hid
    rw [tokenName_of_ordinals hid, tokenName_of_ordinals hid', label_build hbuild]
  · exact names_ensureLabels (hordinals ▸ hnodup)
      (fun o id hid => hkeeps.patterns_size_eq ▸ (hagrees o id (hordinals ▸ hid)).1) ho

/-- **The names of the tokens** after an analysis without an error are identifiers: the declared
labels, where these are identifiers, and otherwise names made from the ordinals, or upper-case forms
of the texts. Two of them are the same just if they clash in one of three ways. -/
theorem analyze_tokenNames (hg : g.Drafted) (h : g.analyze = .ok (none, g')) :
    (∀ o < g'.lexicon.registeredCount, isIdentifier (g'.lexicon.tokenName o) = true ∧
      (isIdentifier (g.declaredLabel o) = true → g'.lexicon.tokenName o = g.declaredLabel o) ∧
      (isIdentifier (g.declaredLabel o) = false → g.Renumbered g' o ∨
        ∃ id image, g'.lexicon.ordinals[o]? = some id ∧
          (g.lexicon.pattern id).literal? = some image ∧
          g'.lexicon.tokenName o = CaseMap.upperText image)) ∧
    ∀ o o', o < o' → o' < g'.lexicon.registeredCount →
      (g'.lexicon.tokenName o = g'.lexicon.tokenName o' ↔ g.NameClash g' o o') := by
  obtain ⟨hsilent, hordinals', L, hordinals, hliteral, hbefore, hnames⟩ := exists_names hg h
  rw [registeredCount, hordinals] at hnames
  rw [registeredCount, hordinals']
  have hidentifier : ∀ o < g.check.lexicon.registeredCount,
      isIdentifier (L.tokenName o) = isIdentifier (g.declaredLabel o) := fun o ho => by
    rw [hbefore o ho, isIdentifier_tokenName_check hg hsilent ho]
  refine ⟨fun o ho => ⟨(hnames o ho).isIdentifier_eq, fun hname => ?_, fun hname => ?_⟩,
    fun o o' hlt ho' => ?_⟩
  · rw [(hnames o ho).of_isIdentifier ((hidentifier o ho).trans hname), hbefore o ho]
    exact (tokenName_check_eq_iff hg hsilent ho hname).mpr rfl
  · cases hnames o ho with
    | kept hname' =>
        rw [hidentifier o ho, hname] at hname'
        cases hname'
    | numbered h => exact .inl ⟨hname, h.2⟩
    | @upper id image _ hid himage hupper =>
        exact .inr ⟨id, image, hordinals ▸ hid, (hliteral id).symm.trans himage, hupper⟩
  · have ho := Nat.lt_trans hlt ho'
    rw [tokenName_eq_iff (by rw [registeredCount, hordinals]; exact hnames) hlt
        (by rw [registeredCount, hordinals]; exact ho'),
      hbefore o ho, hbefore o' ho', tokenName_check_eq hg hsilent hlt ho',
      tokenName_check_eq_iff hg hsilent ho' (isIdentifier_numberedLabel o), Numbered, Numbered,
      hidentifier o ho, hidentifier o' ho']
    constructor
    · rintro (⟨hzero, heq⟩ | ⟨hrenumbered, heq⟩ | ⟨hrenumbered, heq⟩)
      · exact .endOfInput hzero heq
      · exact .later hrenumbered heq
      · exact .earlier hrenumbered heq
    · rintro (⟨hzero, heq⟩ | ⟨hrenumbered, heq⟩ | ⟨hrenumbered, heq⟩)
      · exact .inl ⟨hzero, heq⟩
      · exact .inr (.inl ⟨hrenumbered, heq⟩)
      · exact .inr (.inr ⟨hrenumbered, heq⟩)

/-- The literals `if` and `+`. -/
def wordAndSign : Grammar :=
  withTokens [{ givenLabel := "", tree := some (.text "if"), production := some 0 },
    { givenLabel := "", tree := some (.text "+"), production := some 0 }] []

/-- The builder makes `wordAndSign`. -/
theorem drafted_wordAndSign : wordAndSign.Drafted :=
  (Drafted.new {}).addTokenProduction {} rfl
    |>.addEntry 0 "" false (some (.text "if")) rfl
    |>.addEntry 0 "" false (some (.text "+")) rfl

/-- The first literal is called `IF`, and the second one `_TOKEN_2`. -/
theorem analyze_tokenNames_wordAndSign :
    wordAndSign.Drafted ∧ ∃ g', wordAndSign.analyze = .ok (none, g') ∧
      g'.lexicon.registeredCount = 3 ∧ isIdentifier (g'.lexicon.tokenName 1) = true ∧
      wordAndSign.Renumbered g' 2 ∧ ¬ wordAndSign.NameClash g' 1 2 ∧
      g'.lexicon.tokenName 1 = CaseMap.upperText "if" := by
  have htest : (wordAndSign.analyze.toOption.map fun r => decide (r.1 = none ∧
      r.2.lexicon.registeredCount = 3 ∧ r.2.lexicon.tokenName 1 = CaseMap.upperText "if" ∧
      r.2.lexicon.tokenName 2 = numberedLabel 2)) = some true := by
    decide +kernel
  obtain ⟨⟨stage, g'⟩, hanalyze, rfl, hcount, hword, hsign⟩ := exists_eq_ok_of_decide
    (P := fun r : Option Stage × Grammar => r.1 = none ∧
      r.2.lexicon.registeredCount = 3 ∧ r.2.lexicon.tokenName 1 = CaseMap.upperText "if" ∧
      r.2.lexicon.tokenName 2 = numberedLabel 2) htest
  obtain ⟨hnames, hclash⟩ := analyze_tokenNames drafted_wordAndSign hanalyze
  simp only at hcount hword hsign
  rw [hcount] at hnames hclash
  have hunlabelled : isIdentifier (wordAndSign.declaredLabel 2) = false := by decide +kernel
  refine ⟨drafted_wordAndSign, g', hanalyze, hcount, (hnames 1 (by decide)).1,
    ⟨hunlabelled, hsign⟩, fun h => ?_, hword⟩
  have heq := (hclash 1 2 (by decide) (by decide)).mpr h
  rw [hword, hsign] at heq
  exact absurd heq (by decide +kernel)

/-! ### Names that clash -/

/-- A token has the label that the next one gets for its ordinal. -/
def labelledLikeNumber : Grammar :=
  withTokens [{ givenLabel := "_TOKEN_2", tree := some (.text "a"), production := some 0 },
    { givenLabel := "", tree := some (.text "+"), production := some 0 }] []

/-- The upper-case form of a literal is the label that the next one gets for its ordinal. -/
def spelledLikeNumber : Grammar :=
  withTokens [{ givenLabel := "", tree := some (.text "_token_2"), production := some 0 },
    { givenLabel := "", tree := some (.text "+"), production := some 0 }] []

/-- A token has the label of the end of the input. -/
def labelledLikeEnd : Grammar :=
  withTokens [{ givenLabel := "EOF", tree := some (.text "a"), production := some 0 }] []

/-- The builder makes `labelledLikeNumber`. -/
theorem drafted_labelledLikeNumber : labelledLikeNumber.Drafted :=
  (Drafted.new {}).addTokenProduction {} rfl
    |>.addEntry 0 "_TOKEN_2" false (some (.text "a")) rfl
    |>.addEntry 0 "" false (some (.text "+")) rfl

/-- The builder makes `spelledLikeNumber`. -/
theorem drafted_spelledLikeNumber : spelledLikeNumber.Drafted :=
  (Drafted.new {}).addTokenProduction {} rfl
    |>.addEntry 0 "" false (some (.text "_token_2")) rfl
    |>.addEntry 0 "" false (some (.text "+")) rfl

/-- The builder makes `labelledLikeEnd`. -/
theorem drafted_labelledLikeEnd : labelledLikeEnd.Drafted :=
  (Drafted.new {}).addTokenProduction {} rfl
    |>.addEntry 0 "EOF" false (some (.text "a")) rfl

/-- A test of the analysis tells of two tokens with one name. -/
theorem exists_sameName {name : String} (h : (g.analyze.toOption.map fun r => decide (r.1 = none ∧
    o' < r.2.lexicon.registeredCount ∧ r.2.lexicon.tokenName o = name ∧
      r.2.lexicon.tokenName o' = name)) = some true) :
    ∃ g', g.analyze = .ok (none, g') ∧ o' < g'.lexicon.registeredCount ∧
      g'.lexicon.tokenName o = name ∧ g'.lexicon.tokenName o' = name := by
  obtain ⟨⟨stage, g'⟩, hanalyze, rfl, hnames⟩ := exists_eq_ok_of_decide
    (P := fun r : Option Stage × Grammar => r.1 = none ∧
      o' < r.2.lexicon.registeredCount ∧ r.2.lexicon.tokenName o = name ∧
        r.2.lexicon.tokenName o' = name) h
  exact ⟨g', hanalyze, hnames⟩

/-- **Two tokens with one name**, in three grammars: the second token is called `_TOKEN_2`, like the
first one for its label or for its text; or the first one is called `EOF`, like the end of the
input. -/
theorem analyze_tokenNames_clash :
    (labelledLikeNumber.Drafted ∧ ∃ g', labelledLikeNumber.analyze = .ok (none, g') ∧
      2 < g'.lexicon.registeredCount ∧ g'.lexicon.tokenName 1 = "_TOKEN_2" ∧
        g'.lexicon.tokenName 2 = "_TOKEN_2") ∧
    (spelledLikeNumber.Drafted ∧ ∃ g', spelledLikeNumber.analyze = .ok (none, g') ∧
      2 < g'.lexicon.registeredCount ∧ g'.lexicon.tokenName 1 = "_TOKEN_2" ∧
        g'.lexicon.tokenName 2 = "_TOKEN_2") ∧
    labelledLikeEnd.Drafted ∧ ∃ g', labelledLikeEnd.analyze = .ok (none, g') ∧
      1 < g'.lexicon.registeredCount ∧ g'.lexicon.tokenName 0 = "EOF" ∧
        g'.lexicon.tokenName 1 = "EOF" :=
  ⟨⟨drafted_labelledLikeNumber, exists_sameName (by decide +kernel)⟩,
    ⟨drafted_spelledLikeNumber, exists_sameName (by decide +kernel)⟩,
    drafted_labelledLikeEnd, exists_sameName (by decide +kernel)⟩

end Grammar

end GrammarAnalysis
