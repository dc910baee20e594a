import GrammarAnalysis.Grammar.Tokens
import GrammarAnalysis.Proofs.Lexicon.Drafts

/-!
# The Steps of the Registration

The registration of a token production is a run of small steps, each of which is taken for one
pattern: it is noted as private, gets its ordinal or the name of its token, is declared as a literal
of a lexical state, or is taken for a literal that is declared already. What each step preserves,
the registration preserves.

## Main definitions

* `Grammar.LiteralStep`: what is done with a literal in one lexical state;
* `Grammar.PatternStep`: what is done with a pattern;
* `Grammar.RegistrationStep`: one step of a registration.

## Main results

* `Grammar.literalStep_literalIn`, `Grammar.patternStep_pattern`: the cases of the registration;
* `Grammar.patterns_steps`, `Grammar.RegistrationSteps.preserves`: the registration of patterns is a
  run of steps, and preserves what each step does.
-/

namespace GrammarAnalysis

namespace Grammar

variable {id : Nat}

/-- What the registration of a literal in one lexical state does: nothing, or an error is recorded,
or the literal is declared, or it is taken for one that is declared already. -/
inductive LiteralStep (explicit : Bool) (id : Nat) (image name : String) (r : Registration) :
    Registration → Prop
  | undefined : r.grammar.lexicon.stateIndex name = none → LiteralStep explicit id image name r r
  | repeated {i : Nat} {present : Nat} : explicit = true →
      r.grammar.lexicon.stateIndex name = some i →
      (r.grammar.lexicon.lexicalStates[i]?).bind (·.findLiteral image) = some present →
      LiteralStep explicit id image name r r
  | conflict {text : String} :
      LiteralStep explicit id image name r
        { r with grammar := r.grammar.record [.error (.regex id) text] }
  | declared {i : Nat} : r.grammar.lexicon.stateIndex name = some i →
      (r.grammar.lexicon.lexicalStates[i]?).bind (·.findLiteral image) = none →
      LiteralStep explicit id image name r { r with grammar :=
        { r.grammar with lexicon := declareLiteral r.grammar.lexicon i id image } }
  | shared {i : Nat} {present : Nat} : explicit = false →
      r.grammar.lexicon.stateIndex name = some i →
      (r.grammar.lexicon.lexicalStates[i]?).bind (·.findLiteral image) = some present →
      LiteralStep explicit id image name r
        { r with
          grammar := { r.grammar with lexicon := shareOrdinal r.grammar.lexicon id present }
          removed := r.removed ++ [id] }

/-- Registering a literal in a lexical state is one of the steps. -/
theorem literalStep_literalIn (explicit : Bool) (id : Nat) (image name : String)
    (r : Registration) :
    LiteralStep explicit id image name r (r.literalIn explicit id image name) := by
  unfold Registration.literalIn
  simp only
  split
  · rename_i hstate
    exact .undefined hstate
  · rename_i i hstate
    split
    · rename_i hnone
      exact .declared hstate hnone
    · rename_i present hpresent
      split
      · rename_i hexplicit
        exact .repeated hexplicit hstate hpresent
      · rename_i hexplicit
        split
        · exact .conflict
        · exact .shared (by simpa using hexplicit) hstate hpresent

/-- What the registration of a pattern does: nothing to a reference; a private pattern is noted; a
literal is registered in the lexical states, and any other pattern as a token of its own. -/
inductive PatternStep (tp : TokenProduction) (id : Nat) (r : Registration) : Registration → Prop
  | reference : (r.grammar.lexicon.pattern id).isReference → PatternStep tp id r r
  | hidden : (r.grammar.lexicon.pattern id).isReference = false →
      (r.grammar.lexicon.pattern id).isPrivate →
      PatternStep tp id r { r with privates := r.privates ++ [id] }
  | token : (r.grammar.lexicon.pattern id).isReference = false →
      (r.grammar.lexicon.pattern id).isPrivate = false →
      (r.grammar.lexicon.pattern id).literal? = none →
      PatternStep tp id r (Registration.nameToken id
        { r with grammar := { r.grammar with lexicon := (r.grammar.lexicon.register id).2 } })
  | literal {image : String} : (r.grammar.lexicon.pattern id).isReference = false →
      (r.grammar.lexicon.pattern id).isPrivate = false →
      (r.grammar.lexicon.pattern id).literal? = some image →
      PatternStep tp id r (Registration.nameToken id
        (tp.lexicalStates.foldl (Registration.literalIn tp.explicit id image) r))

/-- Registering a pattern is one of the steps. -/
theorem patternStep_pattern (tp : TokenProduction) (id : Nat) (r : Registration) :
    PatternStep tp id r (r.pattern tp id) := by
  unfold Registration.pattern
  simp only
  split
  · rename_i href
    exact .reference href
  · rename_i href
    rw [Bool.not_eq_true] at href
    split
    · rename_i hprivate
      exact .hidden href hprivate
    · rename_i hprivate
      rw [Bool.not_eq_true] at hprivate
      split
      · rename_i hnone
        exact .token href hprivate hnone
      · rename_i image himage
        exact .literal href hprivate himage

/-- A token gets a name at most. -/
theorem nameToken_eq (id : Nat) (r : Registration) :
    ∃ names, r.nameToken id = { r with grammar := { r.grammar with tokenNames := names } } := by
  unfold Registration.nameToken
  simp only
  split
  · exact ⟨_, rfl⟩
  · exact ⟨r.grammar.tokenNames, rfl⟩

/-! ### Runs of steps -/

/-- One step of a registration, for a pattern. -/
inductive RegistrationStep (id : Nat) (r : Registration) : Registration → Prop
  | conflict {text : String} :
      RegistrationStep id r { r with grammar := r.grammar.record [.error (.regex id) text] }
  | hidden : RegistrationStep id r { r with privates := r.privates ++ [id] }
  | named {names : List (Nat × String)} :
      RegistrationStep id r { r with grammar := { r.grammar with tokenNames := names } }
  | registered : RegistrationStep id r
      { r with grammar := { r.grammar with lexicon := (r.grammar.lexicon.register id).2 } }
  | declared {i : Nat} {image : String} :
      (r.grammar.lexicon.lexicalStates[i]?).bind (·.findLiteral image) = none →
      (r.grammar.lexicon.pattern id).literal? = some image →
      RegistrationStep id r { r with grammar :=
        { r.grammar with lexicon := declareLiteral r.grammar.lexicon i id image } }
  | shared {i present : Nat} {image : String} :
      (r.grammar.lexicon.lexicalStates[i]?).bind (·.findLiteral image) = some present →
      (r.grammar.lexicon.pattern id).literal? = some image →
      RegistrationStep id r
        { r with
          grammar := { r.grammar with lexicon := shareOrdinal r.grammar.lexicon id present }
          removed := r.removed ++ [id] }

/-- A run of steps that are taken for patterns of a list. -/
def RegistrationSteps (ids : List Nat) : Registration → Registration → Prop :=
  Relation.ReflTransGen fun r r' => ∃ id ∈ ids, RegistrationStep id r r'

/-- One step is a series of steps. -/
theorem RegistrationStep.steps {ids : List Nat} (hid : id ∈ ids) {r r' : Registration}
    (h : RegistrationStep id r r') : RegistrationSteps ids r r' :=
  .single ⟨id, hid, h⟩

/-- The registration of a literal changes no text. -/
theorem literal?_literalIn (explicit : Bool) (id : Nat) (image name : String) (r : Registration)
    (x : Nat) : ((r.literalIn explicit id image name).grammar.lexicon.pattern x).literal?
      = (r.grammar.lexicon.pattern x).literal? := by
  have hmodify : ∀ (L : Lexicon) (o : Option Nat),
      ((L.modifyPattern id fun p => { p with ordinal := o }).pattern x).literal?
        = (L.pattern x).literal? := fun L o => by
    rw [Lexicon.pattern_modifyPattern]
    split <;> rfl
  have hstep := literalStep_literalIn explicit id image name r
  generalize r.literalIn explicit id image name = r' at hstep ⊢
  cases hstep with
  | declared _ _ =>
      simp only [declareLiteral]
      split
      · exact hmodify r.grammar.lexicon _
      · rfl
  | shared _ _ _ => exact hmodify _ _
  | _ => rfl

/-- Registering a literal in several lexical states is a series of steps. -/
theorem literals_steps {ids : List Nat} (hid : id ∈ ids) (explicit : Bool) {image : String}
    (names : List String) {r : Registration}
    (himage : (r.grammar.lexicon.pattern id).literal? = some image) :
    RegistrationSteps ids r (names.foldl (Registration.literalIn explicit id image) r) := by
  induction names generalizing r with
  | nil => exact .refl
  | cons name names ih =>
      refine Relation.ReflTransGen.trans ?_ (ih ((literal?_literalIn ..).trans himage))
      have hstep := literalStep_literalIn explicit id image name r
      generalize r.literalIn explicit id image name = r' at hstep ⊢
      cases hstep with
      | undefined _ => exact .refl
      | repeated _ _ _ => exact .refl
      | conflict => exact RegistrationStep.conflict.steps hid
      | declared _ hnone => exact (RegistrationStep.declared hnone himage).steps hid
      | shared _ _ hpresent => exact (RegistrationStep.shared hpresent himage).steps hid

/-- Registering a pattern is a series of steps. -/
theorem pattern_steps {ids : List Nat} (hid : id ∈ ids) (tp : TokenProduction)
    (r : Registration) : RegistrationSteps ids r (r.pattern tp id) := by
  have hnamed : ∀ r : Registration, RegistrationSteps ids r (r.nameToken id) := fun r => by
    obtain ⟨names, hnames⟩ := nameToken_eq id r
    rw [hnames]
    exact RegistrationStep.named.steps hid
  have hstep := patternStep_pattern tp id r
  generalize r.pattern tp id = r' at hstep ⊢
  cases hstep with
  | reference _ => exact .refl
  | hidden _ _ => exact RegistrationStep.hidden.steps hid
  | token _ _ _ =>
      exact Relation.ReflTransGen.trans (RegistrationStep.registered.steps hid) (hnamed _)
  | literal _ _ himage =>
      exact Relation.ReflTransGen.trans (literals_steps hid _ _ himage) (hnamed _)

/-- **The registration of patterns is a run of steps** for these patterns. -/
theorem patterns_steps (tp : TokenProduction) (ids : List Nat) (r : Registration) :
    RegistrationSteps ids r (ids.foldl (Registration.pattern tp) r) := by
  have hrest : ∀ (rest : List Nat) (r : Registration), (∀ id ∈ rest, id ∈ ids) →
      RegistrationSteps ids r (rest.foldl (Registration.pattern tp) r) := by
    intro rest
    induction rest with
    | nil => exact fun _ _ => .refl
    | cons id rest ih =>
        intro r hsub
        obtain ⟨hid, hsub⟩ := List.forall_mem_cons.mp hsub
        exact Relation.ReflTransGen.trans (pattern_steps hid tp r) (ih _ hsub)
  exact hrest ids r fun _ hid => hid

/-- What every step for a pattern of the list preserves, a run preserves. -/
theorem RegistrationSteps.preserves {ids : List Nat} {r r' : Registration}
    (h : RegistrationSteps ids r r') {P : Registration → Prop}
    (hstep : ∀ id ∈ ids, ∀ r r', RegistrationStep id r r' → P r → P r') (hr : P r) : P r' := by
  induction h with
  | refl => exact hr
  | tail _ hlast ih =>
      obtain ⟨id, hid, hlast⟩ := hlast
      exact hstep id hid _ _ hlast ih

end Grammar

end GrammarAnalysis
