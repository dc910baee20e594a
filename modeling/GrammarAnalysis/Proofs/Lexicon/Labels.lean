import GrammarAnalysis.Proofs.Lexicon.Literals
import GrammarAnalysis.Proofs.Text.Identifier

/-!
# The Labels of the Tokens

The labels are made identifiers one by one, by increasing ordinal. A token whose label is an
identifier keeps it. Any other one gets the upper-case form of its text, if this is an identifier
that no token has at that time, or else a name that is made from its ordinal. It is not checked
whether a name of the last kind is in use. So two tokens with different labels can only get the same
name if it is made from the ordinal of one of them.

## Main definitions

* `Lexicon.numberedLabel`: the name that is made from an ordinal;
* `Lexicon.Numbered`: a token with such a name;
* `Lexicon.Names`: how a token gets its name.

## Main results

* `Lexicon.names_ensureLabels`: each token gets its name in one of three ways;
* `Lexicon.tokenName_eq_iff`: which tokens have the same name then.
-/

namespace GrammarAnalysis

namespace Lexicon

variable {L M : Lexicon} {o x id : Nat}

/-! ### Names made from ordinals -/

/-- The name that is made from an ordinal. -/
def numberedLabel (o : Nat) : String := "_TOKEN_" ++ toString o

/-- A numbered label is an identifier. -/
theorem isIdentifier_numberedLabel (o : Nat) : isIdentifier (numberedLabel o) = true :=
  isIdentifier_append_toString (by decide +kernel) o

/-! ### One label -/

/-- A token is named by the label of its pattern. -/
theorem tokenName_of_ordinals (ho : L.ordinals[o]? = some id) :
    L.tokenName o = (L.pattern id).label := by
  rw [tokenName, ho]

/-- A label that is an identifier is not empty. -/
theorem hasLabel_of_isIdentifier {p : Pattern} (h : isIdentifier p.givenLabel = true) :
    p.hasLabel = true := by
  rw [Pattern.hasLabel, Bool.not_eq_true']
  refine Bool.eq_false_iff.mpr fun hempty => ?_
  rw [String.isEmpty_iff.mp hempty] at h
  cases h

/-- A label that is an identifier is the name of its pattern. -/
theorem label_of_isIdentifier {label : String} (h : isIdentifier label = true) (p : Pattern) :
    ({ p with givenLabel := label } : Pattern).label = label :=
  if_pos (hasLabel_of_isIdentifier h)

/-- A new label is made from the ordinal, or is an upper-case form that no token has for its
name. -/
theorem replacementLabel_cases (L : Lexicon) (o : Nat) (p : Pattern) :
    L.replacementLabel o p = numberedLabel o ∨
      ∃ image, p.literal? = some image ∧ isIdentifier (CaseMap.upperText image) = true ∧
        (∀ x < L.registeredCount, L.tokenName x ≠ CaseMap.upperText image) ∧
        L.replacementLabel o p = CaseMap.upperText image := by
  rw [replacementLabel]
  cases p.literal? with
  | none => exact .inl rfl
  | some image =>
      simp only
      split
      · rename_i hfree
        rw [Bool.and_eq_true, Bool.not_eq_true', List.any_eq_false] at hfree
        refine .inr ⟨image, rfl, hfree.1, fun x hx heq => ?_, rfl⟩
        have hmem : (x, L.pattern L.ordinals[x]) ∈ L.registered :=
          List.mem_map.mpr ⟨(L.ordinals[x], x), List.mem_zipIdx_iff_getElem?.mpr
            (by rw [Array.getElem?_toList]; exact Array.getElem?_eq_getElem hx), rfl⟩
        refine hfree.2 _ hmem (beq_iff_eq.mpr ?_)
        rw [← heq, tokenName_of_ordinals (Array.getElem?_eq_getElem hx)]
      · exact .inl rfl

/-- A replacement label is an identifier. -/
theorem isIdentifier_replacementLabel (L : Lexicon) (o : Nat) (p : Pattern) :
    isIdentifier (L.replacementLabel o p) = true := by
  rcases L.replacementLabel_cases o p with heq | ⟨image, -, himage, -, heq⟩
  · rw [heq]
    exact isIdentifier_numberedLabel o
  · rw [heq]
    exact himage

/-- A label is changed for the token with the ordinal only. -/
theorem tokenName_ensureLabel_of_ne (hnodup : L.ordinals.toList.Nodup) (hne : x ≠ o) :
    (L.ensureLabel o).tokenName x = L.tokenName x := by
  unfold ensureLabel
  split
  · rfl
  · rename_i id ho
    simp only
    split
    · rfl
    · rw [tokenName, tokenName]
      simp only [modifyPattern]
      cases hx : L.ordinals[x]? with
      | none => rfl
      | some y =>
          have hy : id ≠ y := fun heq => by
            rw [← heq, ← ho, ← Array.getElem?_toList, ← Array.getElem?_toList] at hx
            have hlt : o < L.ordinals.toList.length := by
              obtain ⟨hlt, -⟩ := Array.getElem?_eq_some_iff.mp ho
              exact hlt
            exact hne ((List.getElem?_inj hlt hnodup).mp hx.symm).symm
          have hpattern := L.pattern_modifyPattern id y
            fun p => { p with givenLabel := L.replacementLabel o (L.pattern id) }
          rw [if_neg fun h => hy h.1] at hpattern
          exact congrArg Pattern.label hpattern

/-- The token with the ordinal keeps its name if this is an identifier, and gets a new one
otherwise. -/
theorem tokenName_ensureLabel_self (ho : L.ordinals[o]? = some id) (hid : id < L.patterns.size) :
    (L.ensureLabel o).tokenName o =
      if isIdentifier (L.tokenName o) then L.tokenName o
      else L.replacementLabel o (L.pattern id) := by
  rw [ensureLabel, ho, tokenName_of_ordinals ho]
  simp only
  split
  · exact tokenName_of_ordinals ho
  · have hkept : (L.modifyPattern id fun p =>
        { p with givenLabel := L.replacementLabel o (L.pattern id) }).ordinals[o]? = some id := ho
    rw [tokenName_of_ordinals hkept, pattern_modifyPattern, if_pos ⟨rfl, hid⟩]
    exact label_of_isIdentifier (L.isIdentifier_replacementLabel o _) _

/-! ### All labels -/

/-- The name of a token that was no identifier, and is now made from the ordinal. -/
def Numbered (L M : Lexicon) (o : Nat) : Prop :=
  isIdentifier (L.tokenName o) = false ∧ M.tokenName o = numberedLabel o

/-- How a token gets its name in the second lexicon. An upper-case form is neither the name of an
earlier token nor the one that a later token had before. -/
inductive Names (L M : Lexicon) (o : Nat) : Prop
  | kept : isIdentifier (L.tokenName o) = true → M.tokenName o = L.tokenName o → Names L M o
  | numbered : L.Numbered M o → Names L M o
  | upper {id : Nat} {image : String} : isIdentifier (L.tokenName o) = false →
      L.ordinals[o]? = some id → (L.pattern id).literal? = some image →
      M.tokenName o = CaseMap.upperText image → isIdentifier (M.tokenName o) = true →
      (∀ x < o, M.tokenName x ≠ M.tokenName o) →
      (∀ x, o < x → x < L.registeredCount → L.tokenName x ≠ M.tokenName o) → Names L M o

/-- The name of a token depends on those up to it only. -/
theorem Names.congr {M' : Lexicon} (h : L.Names M o)
    (heq : ∀ x ≤ o, M'.tokenName x = M.tokenName x) : L.Names M' o := by
  have hself := heq o (Nat.le_refl o)
  cases h with
  | kept hname hkept => exact .kept hname (hself.trans hkept)
  | numbered h => exact .numbered ⟨h.1, hself.trans h.2⟩
  | upper hname ho himage hupper hidentifier hearlier hlater =>
      refine .upper hname ho himage (hself.trans hupper) (hself ▸ hidentifier) (fun x hx => ?_) ?_
      · rw [heq x (Nat.le_of_lt hx), hself]
        exact hearlier x hx
      · rw [hself]
        exact hlater

/-- The tokens below `k` have their names, and the others have kept theirs. -/
structure NamedBelow (L : Lexicon) (k : Nat) (M : Lexicon) : Prop where
  keeps : L.KeepsTokens M
  named : ∀ o < k, o < L.registeredCount → L.Names M o
  pending : ∀ o, k ≤ o → M.tokenName o = L.tokenName o

/-- An upper-case form that no token has for its name is not that of an earlier token, and not what
a later token was called before. -/
theorem NamedBelow.upper_free {k : Nat} {image : String} (h : L.NamedBelow k M)
    (hcount : k < L.registeredCount)
    (hfree : ∀ x < M.registeredCount, M.tokenName x ≠ CaseMap.upperText image) :
    (∀ x < k, M.tokenName x ≠ CaseMap.upperText image) ∧
      ∀ x, k < x → x < L.registeredCount → L.tokenName x ≠ CaseMap.upperText image := by
  rw [registeredCount, h.keeps.ordinals_eq] at hfree
  refine ⟨fun x hx => hfree x (Nat.lt_trans hx hcount), fun x hx hcount' => ?_⟩
  rw [← h.pending x (Nat.le_of_lt hx)]
  exact hfree x hcount'

/-- **The next token gets its name.** -/
theorem NamedBelow.next (hnodup : L.ordinals.toList.Nodup) {k : Nat} (h : L.NamedBelow k M)
    (hk : L.ordinals[k]? = some id) (hid : id < L.patterns.size) :
    L.Names (M.ensureLabel k) k := by
  obtain ⟨hcount, -⟩ := Array.getElem?_eq_some_iff.mp hk
  have hself := tokenName_ensureLabel_self (L := M) (by rw [h.keeps.ordinals_eq]; exact hk)
    (by rw [h.keeps.patterns_size_eq]; exact hid)
  rw [h.pending k (Nat.le_refl k)] at hself
  by_cases hname : isIdentifier (L.tokenName k) = true
  · rw [if_pos hname] at hself
    exact .kept hname hself
  · rw [if_neg hname] at hself
    rw [Bool.not_eq_true] at hname
    rcases M.replacementLabel_cases k (M.pattern id) with
      heq | ⟨image, himage, hidentifier, hfree, heq⟩
    · exact .numbered ⟨hname, hself.trans heq⟩
    · have hupper := hself.trans heq
      obtain ⟨_, _, _, hpattern⟩ := h.keeps.pattern id
      rw [hpattern] at himage
      obtain ⟨hearlier, hlater⟩ := h.upper_free hcount hfree
      refine .upper hname hk himage hupper (hupper ▸ hidentifier) (fun x hx => ?_) (hupper ▸ hlater)
      rw [tokenName_ensureLabel_of_ne (h.keeps.ordinals_eq ▸ hnodup) (Nat.ne_of_lt hx), hupper]
      exact hearlier x hx

/-- Ensuring the next label names one more token. -/
theorem NamedBelow.step (hnodup : L.ordinals.toList.Nodup)
    (hlt : ∀ (o : Nat) id, L.ordinals[o]? = some id → id < L.patterns.size) {k : Nat}
    (h : L.NamedBelow k M) : L.NamedBelow (k + 1) (M.ensureLabel k) := by
  have hother : ∀ x, x ≠ k → (M.ensureLabel k).tokenName x = M.tokenName x := fun x hx =>
    tokenName_ensureLabel_of_ne (h.keeps.ordinals_eq ▸ hnodup) hx
  refine ⟨h.keeps.trans (M.keepsTokens_ensureLabel k), fun o ho hcount => ?_, fun o ho => ?_⟩
  · rcases Nat.lt_succ_iff_lt_or_eq.mp ho with ho | rfl
    · exact (h.named o ho hcount).congr fun x hx => hother x (by omega)
    · have hid := Array.getElem?_eq_getElem hcount
      exact h.next hnodup hid (hlt o _ hid)
  · rw [hother o (by omega)]
    exact h.pending o (by omega)

/-- **How the tokens get their names.** -/
theorem names_ensureLabels (hnodup : L.ordinals.toList.Nodup)
    (hlt : ∀ (o : Nat) id, L.ordinals[o]? = some id → id < L.patterns.size)
    (ho : o < L.registeredCount) : L.Names L.ensureLabels o := by
  have hall : ∀ k, L.NamedBelow k ((List.range k).foldl ensureLabel L) := fun k => by
    induction k with
    | zero => exact ⟨.refl L, fun _ ho _ => absurd ho (Nat.not_lt_zero _), fun _ _ => rfl⟩
    | succ k ih =>
        rw [List.range_succ, List.foldl_append]
        exact ih.step hnodup hlt
  exact (hall L.ordinals.size).named o ho ho

/-- A token is named by an identifier. -/
theorem Names.isIdentifier_eq (h : L.Names M o) : isIdentifier (M.tokenName o) = true := by
  cases h with
  | kept hname heq => rw [heq, hname]
  | numbered h => rw [h.2, isIdentifier_numberedLabel]
  | upper _ _ _ _ hidentifier => exact hidentifier

/-- A token that was named by an identifier keeps its name. -/
theorem Names.of_isIdentifier (h : L.Names M o) (hname : isIdentifier (L.tokenName o) = true) :
    M.tokenName o = L.tokenName o := by
  cases h with
  | kept _ heq => exact heq
  | numbered h => exact absurd (hname.symm.trans h.1) nofun
  | upper hname' => exact absurd (hname.symm.trans hname') nofun

/-- **Which tokens have the same name**: two that had the same identifier before, or two of which
one has a name made from its ordinal. If it is the first of them, then the other one was given this
name for a label. -/
theorem tokenName_eq_iff (hnames : ∀ o < L.registeredCount, L.Names M o) {o' : Nat} (hlt : o < o')
    (ho' : o' < L.registeredCount) : M.tokenName o = M.tokenName o' ↔
      isIdentifier (L.tokenName o) = true ∧ L.tokenName o = L.tokenName o' ∨
      L.Numbered M o' ∧ M.tokenName o = numberedLabel o' ∨
      L.Numbered M o ∧ L.tokenName o' = numberedLabel o := by
  have hfirst := hnames o (Nat.lt_trans hlt ho')
  have hsecond := hnames o' ho'
  constructor
  · intro heq
    -- the later name is not an upper-case form, which would be a new one
    cases hsecond with
    | upper _ _ _ _ _ hearlier => exact absurd heq (hearlier o hlt)
    | numbered h => exact .inr (.inl ⟨h, heq.trans h.2⟩)
    | kept _ hkept =>
        cases hfirst with
        | kept hname hkept' => exact .inl ⟨hname, hkept'.symm.trans (heq.trans hkept)⟩
        | numbered h => exact .inr (.inr ⟨h, hkept.symm.trans (heq.symm.trans h.2)⟩)
        | upper _ _ _ _ _ _ hlater => exact absurd (hkept.symm.trans heq.symm) (hlater o' hlt ho')
  · rintro (⟨hname, heq⟩ | ⟨h, heq⟩ | ⟨h, heq⟩)
    · rw [hfirst.of_isIdentifier hname, hsecond.of_isIdentifier (heq ▸ hname), heq]
    · rw [heq, h.2]
    · rw [h.2, hsecond.of_isIdentifier (heq ▸ isIdentifier_numberedLabel o), heq]

end Lexicon

end GrammarAnalysis
