import GrammarAnalysis.Proofs.Grammar.Terminals

/-!
# One Token for a Literal Text

The terminals for one literal text have one token, and those for texts with different upper-case
forms have different ones. A lexical state has two tables of literals, one by the text and one by
its upper-case form, and both are looked up, but what is found in either has the upper-case form of
the text. So has the pattern that holds the ordinal of a literal in the table of the tokens: the
literal is registered there itself, or it has taken the ordinal of a literal that was found for its
text (`Lexicon.Consolidated`). Each step of the registration keeps this, whatever the order of the
declarations, their case flags and their lexical states are.

## Main definitions

* `Lexicon.Writes`: a literal whose text has the same upper-case form;
* `Lexicon.Consolidated`: what is known of the tables in the course of the registration;
* `Grammar.DraftsLiteral`: the patterns of the terminals for a literal text.

## Main results

* `Grammar.RegistrationSteps.consolidated`: the steps of the registration keep the tables
  consolidated;
* `Grammar.consolidated_check`: so they are after the checks;
* `Grammar.check_consolidates`: which terminals for literal texts have the same token.
-/

namespace GrammarAnalysis

namespace Lexicon

variable {L L' : Lexicon} {id p q : Nat} {image : String}

/-- The pattern is a literal, and its text has the same upper-case form. -/
def Writes (L : Lexicon) (q : Nat) (image : String) : Prop :=
  ∃ text, (L.pattern q).literal? = some text ∧
    CaseMap.upperText text = CaseMap.upperText image

/-- What a lexical state finds for a text has the upper-case form of the text, and so has the
pattern that holds the ordinal of a literal. No literal has the ordinal of the end of the input. -/
structure Consolidated (L : Lexicon) : Prop where
  keyed : ∀ i image q, L.HasLiteral i image q → L.Writes q image
  holder : ∀ p image o, (L.pattern p).literal? = some image → (L.pattern p).ordinal = some o →
    0 < o ∧ ∃ q, L.ordinals[o]? = some q ∧ L.Writes q image
  ordinals_pos : 0 < L.ordinals.size

/-- A literal is still written like the text when ordinals and entries change. -/
theorem Registers.writes (h : L.Registers L') (hq : L.Writes q image) : L'.Writes q image := by
  obtain ⟨text, htext, hupper⟩ := hq
  exact ⟨text, (h.literal?_eq q).trans htext, hupper⟩

/-- Literals with one ordinal have one upper-case form. -/
theorem Consolidated.upperText_eq (h : L.Consolidated) {image' : String} {o : Nat}
    (hp : (L.pattern p).literal? = some image) (hq : (L.pattern q).literal? = some image')
    (hpo : (L.pattern p).ordinal = some o) (hqo : (L.pattern q).ordinal = some o) :
    CaseMap.upperText image = CaseMap.upperText image' := by
  obtain ⟨-, x, hx, text, htext, hupper⟩ := h.holder p image o hp hpo
  obtain ⟨-, y, hy, text', htext', hupper'⟩ := h.holder q image' o hq hqo
  obtain rfl := Option.some.inj (hx.symm.trans hy)
  obtain rfl := Option.some.inj (htext.symm.trans htext')
  exact hupper.symm.trans hupper'

/-! ### The changes of a registration -/

/-- In the beginning, no literal has an ordinal, and no lexical state finds one. -/
theorem Fresh.consolidated (h : L.Fresh) : L.Consolidated where
  keyed i image q hq := by
    obtain ⟨s, hs, hfind⟩ := hasLiteral_iff.mp hq
    rw [h.states s (List.mem_of_getElem? (by rwa [Array.getElem?_toList]))] at hfind
    cases hfind
  holder p image o hp ho := by
    by_cases heq : p = 0
    · rw [heq, Pattern.literal?, h.endOfInput.1] at hp
      cases hp
    · rw [h.unregistered p heq] at ho
      cases ho
  ordinals_pos := by
    rw [h.ordinals_eq]
    exact Nat.one_pos

/-- A pattern that is registered holds its ordinal itself. -/
theorem Consolidated.register (h : L.Consolidated) (id : Nat) :
    (L.register id).2.Consolidated := by
  have hregisters := registers_register L id
  have hpush : ∀ o, (L.register id).2.ordinals[o]?
      = if o = L.ordinals.size then some id else L.ordinals[o]? := fun o => Array.getElem?_push
  refine ⟨fun i image q hq => hregisters.writes (h.keyed i image q hq),
    fun p image o hp ho => ?_, ?_⟩
  · have htext := (hregisters.literal?_eq p).symm.trans hp
    rw [pattern_register] at ho
    rw [hpush]
    split at ho
    · rename_i hid
      obtain ⟨rfl, -⟩ := hid
      obtain rfl := Option.some.inj ho
      exact ⟨h.ordinals_pos, id, if_pos rfl, image, hp, rfl⟩
    · obtain ⟨hpos, q, hq, hwrites⟩ := h.holder p image o htext ho
      have hlt := (Array.getElem?_eq_some_iff.mp hq).1
      exact ⟨hpos, q, by rw [if_neg (Nat.ne_of_lt hlt), hq], hregisters.writes hwrites⟩
  · exact Nat.lt_of_lt_of_eq (Nat.succ_pos _) (Array.size_push ..).symm

/-- A literal is entered into a lexical state by its text. -/
theorem Consolidated.enter (h : L.Consolidated) (himage : (L.pattern id).literal? = some image)
    (i : Nat) (ignoreCase : Bool) :
    (L.modifyState i fun s => s.addLiteral image id ignoreCase).Consolidated := by
  refine ⟨fun j image' q hq => ?_, h.holder, h.ordinals_pos⟩
  obtain ⟨s, hs, hfind⟩ := hasLiteral_iff.mp hq
  rw [modifyState, Array.getElem?_modify] at hs
  split at hs
  · obtain ⟨s₀, hs₀, rfl⟩ := Option.map_eq_some_iff.mp hs
    rcases LexicalState.findLiteral_addLiteral_cases hfind with hold | ⟨rfl, htext⟩
    · exact h.keyed j image' q (hasLiteral_iff.mpr ⟨s₀, hs₀, hold⟩)
    · exact ⟨image, himage, htext.elim (congrArg _) And.right⟩
  · exact h.keyed j image' q (hasLiteral_iff.mpr ⟨s, hs, hfind⟩)

/-- Declaring a literal for its own text keeps the literals consolidated. -/
theorem Consolidated.declareLiteral (h : L.Consolidated)
    (himage : (L.pattern id).literal? = some image) (i : Nat) :
    (Grammar.declareLiteral L i id image).Consolidated := by
  rw [Grammar.declareLiteral]
  split
  · exact (h.register id).enter (((registers_register L id).literal?_eq id).trans himage) i _
  · exact h.enter himage i _

/-- A literal takes the ordinal of the one that is found for its text. -/
theorem Consolidated.shareOrdinal (h : L.Consolidated)
    (himage : (L.pattern id).literal? = some image) {i present : Nat}
    (hpresent : L.HasLiteral i image present) :
    (Grammar.shareOrdinal L id present).Consolidated := by
  have hregisters : L.Registers (Grammar.shareOrdinal L id present) :=
    registers_modifyPattern L id _
  refine ⟨fun j image' q hq => hregisters.writes (h.keyed j image' q hq),
    fun p image' o hp ho => ?_, h.ordinals_pos⟩
  have htext := (hregisters.literal?_eq p).symm.trans hp
  rw [ordinal_shareOrdinal] at ho
  split at ho
  · rename_i hid
    rw [← hid.1, himage] at htext
    obtain rfl := Option.some.inj htext
    obtain ⟨text, htext, hupper⟩ := h.keyed i image present hpresent
    obtain ⟨hpos, q, hq, text', htext', hupper'⟩ := h.holder present text o htext ho
    exact ⟨hpos, q, hq, hregisters.writes ⟨text', htext', hupper'.trans hupper⟩⟩
  · obtain ⟨hpos, q, hq, hwrites⟩ := h.holder p image' o htext ho
    exact ⟨hpos, q, hq, hregisters.writes hwrites⟩

/-- The resolution of the references does not change what is known of the literals. -/
theorem Resolves.consolidated (h : L.Resolves L') (hL : L.Consolidated) : L'.Consolidated where
  keyed i image q hq := by
    rw [HasLiteral, h.lexicalStates_eq] at hq
    exact h.registers.writes (hL.keyed i image q hq)
  holder p image o hp ho := by
    rw [h.registers.literal?_eq] at hp
    rw [h.pattern_eq p (isReference_of_literal? hp)] at ho
    rw [h.ordinals_eq]
    obtain ⟨hpos, q, hq, hwrites⟩ := hL.holder p image o hp ho
    exact ⟨hpos, q, hq, h.registers.writes hwrites⟩
  ordinals_pos := by
    rw [h.ordinals_eq]
    exact hL.ordinals_pos

end Lexicon

namespace Grammar

open Lexicon

/-! ### The registration -/

/-- **The steps of the registration keep the tables consolidated.** -/
theorem RegistrationSteps.consolidated {ids : List Nat} {r r' : Registration}
    (h : RegistrationSteps ids r r') (hr : r.grammar.lexicon.Consolidated) :
    r'.grammar.lexicon.Consolidated := by
  refine h.preserves (P := fun r' => r'.grammar.lexicon.Consolidated)
    (fun id _ r₁ r₂ hstep ih => ?_) hr
  cases hstep with
  | registered => exact ih.register id
  | declared _ himage => exact ih.declareLiteral himage _
  | shared hpresent himage => exact ih.shareOrdinal himage hpresent
  | _ => exact ih

/-- The literals are consolidated after the registration. -/
theorem consolidated_registerTokens {g : Grammar} (hL : g.lexicon.Fresh) :
    g.registerTokens.lexicon.Consolidated := by
  refine List.foldlRecOn (motive := fun g' : Grammar => g'.lexicon.Consolidated) _ _
    hL.consolidated fun g' h id _ => ?_
  obtain ⟨hkeyed, hholder, hpos⟩ := (patterns_steps _ _ { grammar := g' }).consolidated h
  exact ⟨hkeyed, hholder, hpos⟩

/-- After checks without an error, the tables are consolidated. -/
theorem consolidated_check {g : Grammar} (hg : g.Drafted) (hsilent : g.check.log.hasNoErrors) :
    g.check.lexicon.Consolidated := by
  obtain ⟨names, -, hnames, -, hresolves⟩ := exists_checked hg hsilent
  refine hresolves.consolidated (consolidated_registerTokens ?_)
  rw [hnames]
  exact { hg.fresh with }

/-! ### Terminals for literal texts -/

/-- In the course of the draft, the builder made the pattern for a terminal with the text. -/
def DraftsLiteral (g : Grammar) (image : String) (p : Nat) : Prop :=
  ∃ g₁ g₂ e, Drafted g₁ ∧ g₁.addLiteral image = .ok (e, g₂) ∧ g₂.shape e = .terminal p ∧
    Relation.ReflTransGen DraftStep g₂ g

/-- A literal that was drafted has a terminal. -/
theorem DraftsLiteral.terminal {g : Grammar} {image : String} {p : Nat}
    (h : g.DraftsLiteral image p) : ∃ e k, g.LiteralTerminal e k p image := by
  obtain ⟨g₁, g₂, e, h₁, hliteral, hshape, hsteps⟩ := h
  obtain ⟨k, p', hterminal⟩ := literalTerminal_addLiteral hliteral
  obtain rfl := Shape.terminal.inj (hterminal.shape_eq.symm.trans hshape)
  exact ⟨e, k, hterminal.of_draftSteps (h₁.addLiteral hliteral) hsteps⟩

/-- **Which terminals for literal texts have the same token**, after checks of a draft without an
error. The pattern of each has the ordinal of a registered pattern, which is not the end of the
input. The ordinals are the same if the texts are, and differ if their upper-case forms do. -/
theorem check_consolidates {g : Grammar} (hg : g.Drafted) (hsilent : g.check.log.hasNoErrors) :
    (∀ image p, g.DraftsLiteral image p →
      ∃ o, (g.check.lexicon.pattern p).ordinal = some o ∧ 0 < o ∧
        o < g.check.lexicon.registeredCount) ∧
    (∀ image p q, g.DraftsLiteral image p → g.DraftsLiteral image q →
      (g.check.lexicon.pattern p).ordinal = (g.check.lexicon.pattern q).ordinal) ∧
    ∀ image image' p q, g.DraftsLiteral image p → g.DraftsLiteral image' q →
      CaseMap.upperText image ≠ CaseMap.upperText image' →
      (g.check.lexicon.pattern p).ordinal ≠ (g.check.lexicon.pattern q).ordinal := by
  have hconsolidated := consolidated_check hg hsilent
  obtain ⟨names, -, -, hregisters, hresolves⟩ := exists_checked hg hsilent
  have hliteral : ∀ {image p}, g.DraftsLiteral image p →
      (g.check.lexicon.pattern p).literal? = some image := fun h => by
    obtain ⟨e, k, hterminal⟩ := h.terminal
    rw [(hregisters.trans hresolves.registers).literal?_eq]
    exact hterminal.spells.literal?_eq
  have hordinal : ∀ {image p}, g.DraftsLiteral image p →
      ∃ o, (g.check.lexicon.pattern p).ordinal = some o := fun h => by
    obtain ⟨e, k, hterminal⟩ := h.terminal
    obtain ⟨o, ho, -⟩ := hterminal.ordinal hg hsilent
    exact ⟨o, ho⟩
  refine ⟨fun image p hp => ?_, fun image p q hp hq => ?_, fun image image' p q hp hq hne heq => ?_⟩
  · obtain ⟨o, ho⟩ := hordinal hp
    obtain ⟨hpos, x, hx, -⟩ := hconsolidated.holder p image o (hliteral hp) ho
    exact ⟨o, ho, hpos, (Array.getElem?_eq_some_iff.mp hx).1⟩
  · -- the default lexical state finds one literal for the text
    obtain ⟨_, _, hterminal⟩ := hp.terminal
    obtain ⟨_, _, hterminal'⟩ := hq.terminal
    obtain ⟨s, x, hs, hx, hpx⟩ := hterminal.finds hg hsilent
    obtain ⟨s', y, hs', hy, hqy⟩ := hterminal'.finds hg hsilent
    obtain rfl := Option.some.inj (hs.symm.trans hs')
    obtain rfl := Option.some.inj (hx.symm.trans hy)
    exact hpx.trans hqy.symm
  · obtain ⟨o, ho⟩ := hordinal hp
    exact hne (hconsolidated.upperText_eq (hliteral hp) (hliteral hq) ho (heq ▸ ho))

/-- Both literals of `twoLiterals` are drafted. -/
theorem draftsLiteral_twoLiterals (first second : String) :
    (twoLiterals first second).DraftsLiteral first 1 ∧
      (twoLiterals first second).DraftsLiteral second 2 :=
  ⟨⟨_, oneLiteral first, 0, Drafted.new { ignoreCase := true }, rfl, rfl,
      .single (draftStep_of_size (.addLiteral second rfl) (.inr (Nat.succ_ne_self 2)))⟩,
    oneLiteral first, twoLiterals first second, 1, drafted_oneLiteral first, rfl, rfl, .refl⟩

/-- The literals `a` and `b` are two tokens, although case is ignored. -/
theorem check_consolidates_twoLiterals :
    let g := twoLiterals "a" "b"
    g.Drafted ∧ g.check.log.hasNoErrors ∧ g.DraftsLiteral "a" 1 ∧ g.DraftsLiteral "b" 2 ∧
      CaseMap.upperText "a" ≠ CaseMap.upperText "b" ∧
      (∀ image p, g.DraftsLiteral image p →
        ∃ o, (g.check.lexicon.pattern p).ordinal = some o ∧ 0 < o ∧
          o < g.check.lexicon.registeredCount) ∧
      (∀ image p q, g.DraftsLiteral image p → g.DraftsLiteral image q →
        (g.check.lexicon.pattern p).ordinal = (g.check.lexicon.pattern q).ordinal) ∧
      ∀ image image' p q, g.DraftsLiteral image p → g.DraftsLiteral image' q →
        CaseMap.upperText image ≠ CaseMap.upperText image' →
        (g.check.lexicon.pattern p).ordinal ≠ (g.check.lexicon.pattern q).ordinal := by
  intro g
  have hg : g.Drafted := (drafted_oneLiteral "a").addLiteral (oneLiteral_addLiteral "a" "b")
  have hsilent : g.check.log.hasNoErrors := by decide +kernel
  obtain ⟨ha, hb⟩ := draftsLiteral_twoLiterals "a" "b"
  exact ⟨hg, hsilent, ha, hb, by decide +kernel, check_consolidates hg hsilent⟩

end Grammar

end GrammarAnalysis
