import GrammarAnalysis.Automaton.Construction
import GrammarAnalysis.Proofs.CharSet.NormalForm
import Mathlib.Algebra.Order.BigOperators.Group.List
import Mathlib.Algebra.Order.Monoid.Unbundled.Pow
import Mathlib.Computability.Language
import Mathlib.Logic.Relation
import Mathlib.Order.CompletePartialOrder

/-!
# The Language of a Regular Expression

A regular expression stands for a set of words of code points. The operators have their usual
meaning; what a name stands for is given by a language for each name, and, for names that stand
for trees, by expanding them to some finite depth.

## Main definitions

* `Regex.language`: the words of a tree, given those of the names;
* `Regex.languageIn`: the words of a tree whose names stand for trees;
* `Regex.TextVariant`: the words of a literal text;
* `Regex.Part`, `Regex.Occurs`: what is read in a tree, and whatever it has;
* `Regex.Expandable`: all names resolve, and none is used by what it stands for;
* `Regex.Steady`: nothing that matches the empty word is repeated without bound.

## Main results

* `Quantifier.prod_copies`: a repetition is matched copy by copy;
* `Regex.languageIn_eq`: the names of an expandable tree stand for the words of their trees.
-/

open Computability

namespace GrammarAnalysis

/-- The words of a repetition, given those of its operand. -/
noncomputable def Quantifier.language (body : Language Nat) : Quantifier → Language Nat
  | star => body∗
  | plus => body * body∗
  | optional => 1 + body
  | times min none => body ^ min * body∗
  | times min (some max) => body ^ min * (1 + body) ^ (max - min)

/-- The operand can be matched any number of times. -/
def Quantifier.repeats : Quantifier → Bool
  | star | plus | times _ none => true
  | optional | times _ (some _) => false

/-- The words of one copy of an operand. -/
noncomputable def Copy.language (body : Language Nat) : Copy → Language Nat
  | plain => body
  | enclosed skip again => (if skip then 1 else 0) + if again then body * body∗ else body

/-- The operand can be matched again within the copy. -/
def Copy.repeats : Copy → Bool
  | plain => false
  | enclosed _ again => again

/-- A repetition is matched copy by copy. -/
theorem Quantifier.prod_copies (body : Language Nat) (q : Quantifier) :
    (q.copies.map (Copy.language body)).prod = q.language body := by
  rcases q with _ | _ | _ | ⟨min, _ | max⟩
  · rw [copies, List.map_singleton, List.prod_singleton]
    exact Language.one_add_self_mul_kstar_eq_kstar body
  · rw [copies, List.map_singleton, List.prod_singleton]
    exact zero_add (body * body∗)
  · rw [copies, List.map_singleton, List.prod_singleton]
    rfl
  · rw [copies, List.map_append, List.map_replicate, List.map_singleton, List.prod_append,
      List.prod_replicate, List.prod_singleton]
    exact congrArg (body ^ min * ·) (Language.one_add_self_mul_kstar_eq_kstar body)
  · rw [copies, List.map_append, List.map_replicate, List.map_replicate, List.prod_append,
      List.prod_replicate, List.prod_replicate]
    rfl

/-- Only a quantifier that repeats makes copies that repeat. -/
theorem Quantifier.repeats_of_mem_copies {q : Quantifier} {copy : Copy} (h : copy ∈ q.copies)
    (hr : copy.repeats) : q.repeats := by
  rcases q with _ | _ | _ | ⟨min, _ | max⟩ <;> simp only [copies, List.mem_append,
    List.mem_replicate, List.mem_singleton] at h <;> grind [Copy.repeats, repeats]

/-- More words of the operand make more words of the repetition. -/
theorem Quantifier.language_mono (q : Quantifier) {ℓ m : Language Nat} (h : ℓ ≤ m) :
    q.language ℓ ≤ q.language m := by
  rcases q with _ | _ | _ | ⟨min, _ | max⟩
  · exact kstar_mono h
  · exact mul_le_mul' h (kstar_mono h)
  · exact add_le_add_right h 1
  · exact mul_le_mul' (pow_le_pow_left' h min) (kstar_mono h)
  · exact mul_le_mul' (pow_le_pow_left' h min) (pow_le_pow_left' (add_le_add_right h 1) _)

/-- The words of one code point, which is in one of the ranges. -/
def oneOf (ranges : List CharRange) : Language Nat :=
  {w | ∃ c, ranges.any (·.contains c) ∧ w = [c]}

/-- A word of one code point is in the language of the ranges that contain it. -/
theorem mem_oneOf {ranges : List CharRange} {w : List Nat} :
    w ∈ oneOf ranges ↔ ∃ c, ranges.any (·.contains c) ∧ w = [c] := Iff.rfl

/-- The words of classes in a row have a code point of each. -/
theorem mem_prod_oneOf {ranges : Nat → List CharRange} {cs w : List Nat} :
    w ∈ (cs.map fun c => oneOf (ranges c)).prod ↔
      List.Forall₂ (fun c d => (ranges c).any (·.contains d) = true) cs w := by
  induction cs generalizing w with
  | nil =>
      rw [List.forall₂_nil_left_iff]
      exact Language.mem_one w
  | cons c cs ih =>
      rw [List.map_cons, List.prod_cons, Language.mem_mul, List.forall₂_cons_left_iff]
      constructor
      · rintro ⟨_, ⟨d, hd, rfl⟩, v, hv, rfl⟩
        exact ⟨d, v, hd, ih.mp hv, rfl⟩
      · rintro ⟨d, v, hd, hv, rfl⟩
        exact ⟨[d], ⟨d, hd, rfl⟩, v, ih.mpr hv, rfl⟩

namespace Regex

/-! ### Words of a tree -/

section Words

variable (folding : CaseFolding) (named : String → Language Nat)

mutual

/-- The words of a tree, where `named` has the words of the names. A character of a text matches
as one code point, in each of its cases if case is ignored in texts. A repetition repeats its first
operand; the others have no part in it. -/
noncomputable def language : Regex → Language Nat
  | chars set negated =>
    match set.orderedRanges folding.classes negated with
    | .ok ranges => oneOf ranges
    | .error _ => 0
  | text image =>
    ((image.toList.map Char.toNat).map fun c =>
      oneOf (Automaton.characterMoves folding.texts c)).prod
  | concat parts => (languages parts).prod
  | choice alternatives => (languages alternatives).sum
  | repeated q (body :: _) => q.language (language body)
  | repeated q [] => if q.copies.isEmpty then 1 else 0
  | reference name => named name
  | endOfInput => 1

/-- The words of each tree of a list. -/
noncomputable def languages : List Regex → List (Language Nat)
  | [] => []
  | r :: rest => language r :: languages rest

end

/-- The languages of a list of trees are those of its trees. -/
theorem languages_eq_map (rs : List Regex) :
    languages folding named rs = rs.map (language folding named) := by
  induction rs with
  | nil => rfl
  | cons r rest ih => rw [languages, ih, List.map_cons]

end Words

/-! ### Words of a text -/

/-- The second code point is the first one, or a simple case variant of it if case is ignored. -/
def CharVariant (ignoreCase : Bool) (c d : Nat) : Prop :=
  d = c ∨ ignoreCase ∧ (CaseMap.simpleUpper c = some d ∨ CaseMap.simpleLower c = some d)

/-- The word has a variant of each character of the text. -/
def TextVariant (ignoreCase : Bool) (image : String) (w : List Nat) : Prop :=
  List.Forall₂ (CharVariant ignoreCase) (image.toList.map Char.toNat) w

/-- The moves of a character are its variants. -/
theorem any_characterMoves {ignoreCase : Bool} {c d : Nat} :
    (Automaton.characterMoves ignoreCase c).any (·.contains d) ↔ CharVariant ignoreCase c d := by
  cases ignoreCase with
  | false => simp [Automaton.characterMoves, CharVariant, CharRange.contains_point]
  | true =>
      simp only [Automaton.characterMoves, CharVariant, if_true, List.any_eq_true,
        OrderedSet.mem_toList, OrderedSet.mem_ofList, List.mem_cons, List.not_mem_nil, or_false,
        or_and_right, exists_or, exists_eq_left, CharRange.contains_point, true_and]
      cases CaseMap.simpleUpper c <;> cases CaseMap.simpleLower c <;>
        simp only [Option.getD_some, Option.getD_none, Option.some.injEq, reduceCtorEq] <;> tauto

/-- **The words of a text** are its variants. -/
theorem mem_language_text {folding : CaseFolding} {named : String → Language Nat} {image : String}
    {w : List Nat} :
    w ∈ (text image).language folding named ↔ TextVariant folding.texts image w := by
  rw [language, mem_prod_oneOf, TextVariant]
  simp only [any_characterMoves]

/-- A text is a variant of itself, and has no other variant unless case is ignored. -/
theorem textVariant_iff {ignoreCase : Bool} {text image : String} :
    TextVariant ignoreCase text (image.toList.map Char.toNat) ↔
      text = image ∨ ignoreCase ∧ TextVariant true text (image.toList.map Char.toNat) := by
  have hself : ∀ ignoreCase, TextVariant ignoreCase text (text.toList.map Char.toNat) :=
    fun _ => List.forall₂_same.mpr fun _ _ => .inl rfl
  constructor
  · intro h
    cases ignoreCase with
    | true => exact .inr ⟨rfl, h⟩
    | false =>
        have heq : image.toList.map Char.toNat = text.toList.map Char.toNat :=
          List.forall₂_eq_eq_eq ▸ (h.imp fun _ _ hc => hc.resolve_right fun h => nomatch h.1).flip
        exact .inl (String.toList_inj.mp
          (List.map_injective_iff.mpr (fun _ _ => Char.toNat_inj.mp) heq)).symm
  · rintro (rfl | ⟨rfl, h⟩)
    · exact hself ignoreCase
    · exact h

/-- `r.Part e`: the tree `e` occurs in the tree `r`, outside of the further operands of a
repetition, which are not read. -/
inductive Part : Regex → Regex → Prop
  | self {r : Regex} : Part r r
  | concat {parts : List Regex} {r e : Regex} : r ∈ parts → Part r e → Part (.concat parts) e
  | choice {alternatives : List Regex} {r e : Regex} : r ∈ alternatives → Part r e →
      Part (.choice alternatives) e
  | repeated {q : Quantifier} {body e : Regex} {further : List Regex} : Part body e →
      Part (.repeated q (body :: further)) e

/-- `r.Occurs e`: the tree `e` occurs in the tree `r`, whether it is read there or not. -/
inductive Occurs : Regex → Regex → Prop
  | self {r : Regex} : Occurs r r
  | concat {parts : List Regex} {r e : Regex} : r ∈ parts → Occurs r e → Occurs (.concat parts) e
  | choice {alternatives : List Regex} {r e : Regex} : r ∈ alternatives → Occurs r e →
      Occurs (.choice alternatives) e
  | repeated {q : Quantifier} {operands : List Regex} {r e : Regex} : r ∈ operands → Occurs r e →
      Occurs (.repeated q operands) e

/-- What is read in a tree occurs there. -/
theorem Part.occurs {r e : Regex} (h : r.Part e) : r.Occurs e := by
  induction h with
  | self => exact .self
  | concat hr _ ih => exact .concat hr ih
  | choice hr _ ih => exact .choice hr ih
  | repeated _ ih => exact .repeated List.mem_cons_self ih

section Names

variable {folding : CaseFolding} {named named' : String → Language Nat}

mutual

/-- More words for the names give more words. -/
theorem language_le : (r : Regex) → (∀ name, r.Part (.reference name) → named name ≤ named' name) →
    language folding named r ≤ language folding named' r
  | chars _ _, _ | text _, _ | repeated _ [], _ | endOfInput, _ => by
    simp only [language]
    exact le_refl _
  | reference name, h => h name .self
  | repeated q (body :: _), h => by
    simp only [language]
    exact q.language_mono (language_le body fun name hn => h name (.repeated hn))
  | concat parts, h => by
    simp only [language]
    refine List.Forall₂.prod_le_prod' (languages_le parts fun name r hr hn => ?_)
    exact h name (.concat hr hn)
  | choice alternatives, h => by
    simp only [language]
    refine List.Forall₂.sum_le_sum (languages_le alternatives fun name r hr hn => ?_)
    exact h name (.choice hr hn)

/-- More words for the names make more words of each tree of a list. -/
theorem languages_le : (rs : List Regex) →
    (∀ name, ∀ r ∈ rs, r.Part (.reference name) → named name ≤ named' name) →
    List.Forall₂ (· ≤ ·) (languages folding named rs) (languages folding named' rs)
  | [], _ => .nil
  | r :: rest, h =>
    .cons (language_le r fun name hn => h name r List.mem_cons_self hn)
      (languages_le rest fun name s hs hn => h name s (List.mem_cons_of_mem r hs) hn)

end

/-- The words of a tree depend on those of its own names only. -/
theorem language_congr {r : Regex}
    (h : ∀ name, r.Part (.reference name) → named name = named' name) :
    language folding named r = language folding named' r :=
  le_antisymm (language_le r fun name hn => (h name hn).le)
    (language_le r fun name hn => (h name hn).ge)

end Names

/-- A list of trees refers to what one of them refers to. -/
theorem mem_referencesOfAll {rs : List Regex} {r : Regex} {name : String} (hr : r ∈ rs)
    (h : name ∈ r.references) : name ∈ referencesOfAll rs := by
  induction rs with
  | nil => exact absurd hr List.not_mem_nil
  | cons s rest ih =>
      rw [referencesOfAll, List.mem_append]
      rcases List.mem_cons.mp hr with rfl | hr
      · exact .inl h
      · exact .inr (ih hr)

/-- The names that occur in the tree are listed. -/
theorem Occurs.mem_references {r : Regex} {name : String} (h : r.Occurs (.reference name)) :
    name ∈ r.references := by
  generalize he : reference name = e at h
  induction h with
  | self =>
      subst he
      exact List.mem_singleton_self name
  | concat hr _ ih | choice hr _ ih | repeated hr _ ih =>
      rw [references]
      exact mem_referencesOfAll hr (ih he)

mutual

/-- The names that are listed occur in the tree. -/
theorem occurs_of_mem_references {name : String} :
    (r : Regex) → name ∈ r.references → r.Occurs (.reference name)
  | reference _, h => List.mem_singleton.mp h ▸ .self
  | concat parts, h =>
    have ⟨_, hr, hoccurs⟩ := exists_of_mem_referencesOfAll parts h
    .concat hr hoccurs
  | choice alternatives, h =>
    have ⟨_, hr, hoccurs⟩ := exists_of_mem_referencesOfAll alternatives h
    .choice hr hoccurs
  | repeated _ operands, h =>
    have ⟨_, hr, hoccurs⟩ := exists_of_mem_referencesOfAll operands h
    .repeated hr hoccurs
  | chars _ _, h | text _, h | endOfInput, h => absurd h List.not_mem_nil

/-- The names that are listed for a list of trees occur in one of them. -/
theorem exists_of_mem_referencesOfAll {name : String} :
    (rs : List Regex) → name ∈ referencesOfAll rs → ∃ r ∈ rs, r.Occurs (.reference name)
  | [], h => absurd h List.not_mem_nil
  | r :: rest, h =>
    (List.mem_append.mp h).elim
      (fun h => ⟨r, List.mem_cons_self, occurs_of_mem_references r h⟩) fun h =>
        have ⟨s, hs, hoccurs⟩ := exists_of_mem_referencesOfAll rest h
        ⟨s, List.mem_cons_of_mem r hs, hoccurs⟩

end

/-- The names that are listed are those that occur in the tree. -/
theorem mem_references_iff {r : Regex} {name : String} :
    name ∈ r.references ↔ r.Occurs (.reference name) :=
  ⟨occurs_of_mem_references r, Occurs.mem_references⟩

/-- The names that are read in a tree are listed. -/
theorem mem_references {r : Regex} {name : String} (h : r.Part (.reference name)) :
    name ∈ r.references :=
  h.occurs.mem_references

/-! ### Names that stand for trees -/

/-- The words of a tree in which names are expanded `depth` times. -/
noncomputable def languageWithin (folding : CaseFolding) (named : String → Option Regex) :
    (depth : Nat) → Regex → Language Nat
  | 0, _ => 0
  | depth + 1, r => r.language folding fun name =>
    match named name with
    | none => 0
    | some tree => languageWithin folding named depth tree

/-- The words of a tree, whose names stand for trees. -/
noncomputable def languageIn (folding : CaseFolding) (named : String → Option Regex) (r : Regex) :
    Language Nat :=
  ⨆ depth, r.languageWithin folding named depth

/-- The words of a name that stands for a tree. -/
noncomputable def wordsOf (folding : CaseFolding) (named : String → Option Regex) (name : String) :
    Language Nat :=
  match named name with
  | none => 0
  | some tree => tree.languageIn folding named

/-- The first tree has a name that stands for the second. -/
def Refers (named : String → Option Regex) (r tree : Regex) : Prop :=
  ∃ name, r.Part (.reference name) ∧ named name = some tree

/-- Every name in the tree stands for a tree of this kind. As the predicate is inductive, no
tree that is met in this way comes by itself again. -/
inductive Expandable (named : String → Option Regex) : Regex → Prop
  | intro {r : Regex} : (∀ name, r.Part (.reference name) → (named name).isSome) →
      (∀ tree, Refers named r tree → Expandable named tree) → Expandable named r

/-- Nothing that matches the empty word is repeated without bound: not in the tree, and not in
what its names stand for. -/
def Steady (folding : CaseFolding) (named : String → Option Regex) (r : Regex) : Prop :=
  ∀ tree, Relation.ReflTransGen (Refers named) r tree → ∀ q body further,
    tree.Part (.repeated q (body :: further)) → q.repeats → [] ∉ body.languageIn folding named

section Expansion

variable {folding : CaseFolding} {named : String → Option Regex}

/-- Names that may be looked up more often make more words. -/
theorem languageWithin_mono (r : Regex) : Monotone fun n => r.languageWithin folding named n := by
  refine monotone_nat_of_le_succ fun n => ?_
  induction n generalizing r with
  | zero => exact bot_le
  | succ n ih =>
      refine language_le r fun name _ => ?_
      cases named name with
      | none => exact le_refl _
      | some tree => exact ih tree

/-- What holds from some number on for each element of a list does so for all of them. -/
theorem exists_bound {α : Type} {P : α → Nat → Prop} (l : List α)
    (h : ∀ a ∈ l, ∃ N, ∀ n, N ≤ n → P a n) : ∃ N, ∀ a ∈ l, ∀ n, N ≤ n → P a n := by
  induction l with
  | nil => exact ⟨0, fun a ha => absurd ha List.not_mem_nil⟩
  | cons b rest ih =>
      obtain ⟨N, hN⟩ := h b List.mem_cons_self
      obtain ⟨M, hM⟩ := ih fun a ha => h a (List.mem_cons_of_mem b ha)
      refine ⟨max N M, fun a ha n hn => ?_⟩
      rcases List.mem_cons.mp ha with rfl | ha
      · exact hN n (le_trans (le_max_left N M) hn)
      · exact hM a ha n (le_trans (le_max_right N M) hn)

/-- A language that is reached within some number of lookups is the language. -/
theorem languageIn_eq_of_bound {r : Regex} {ℓ : Language Nat}
    (h : ∃ N, ∀ n, N ≤ n → r.languageWithin folding named n = ℓ) :
    r.languageIn folding named = ℓ := by
  obtain ⟨N, hN⟩ := h
  refine le_antisymm (iSup_le fun n => ?_) ?_
  · rw [← hN (max n N) (le_max_right n N)]
    exact languageWithin_mono r (le_max_left n N)
  · rw [← hN N (le_refl N)]
    exact le_iSup (fun n => r.languageWithin folding named n) N

/-- From some depth on, the words of an expandable tree are all there. -/
theorem Expandable.languageWithin_eq {r : Regex} (h : Expandable named r) :
    ∃ N, ∀ n, N ≤ n →
      r.languageWithin folding named n = r.language folding (wordsOf folding named) := by
  induction h with
  | @intro r _ _ ih =>
      obtain ⟨N, hN⟩ := exists_bound (P := fun name n => r.Part (.reference name) →
          (match named name with
            | none => 0
            | some tree => tree.languageWithin folding named n) = wordsOf folding named name)
        r.references (fun name _ => by
          cases htree : named name with
          | none => exact ⟨0, fun n _ _ => by rw [wordsOf, htree]⟩
          | some tree =>
              by_cases hname : r.Part (.reference name)
              · obtain ⟨N, hN⟩ := ih tree ⟨name, hname, htree⟩
                refine ⟨N, fun n hn _ => ?_⟩
                rw [wordsOf, htree]
                exact (hN n hn).trans (languageIn_eq_of_bound ⟨N, hN⟩).symm
              · exact ⟨0, fun n _ h => absurd h hname⟩)
      refine ⟨N + 1, fun n hn => ?_⟩
      obtain ⟨m, rfl⟩ := Nat.exists_eq_add_of_le' hn
      exact language_congr fun name hname =>
        hN name (mem_references hname) _ (Nat.le_add_left N m) hname

/-- **The names of an expandable tree stand for the words of their trees.** -/
theorem languageIn_eq {r : Regex} (h : Expandable named r) :
    r.languageIn folding named = r.language folding (wordsOf folding named) :=
  languageIn_eq_of_bound h.languageWithin_eq

/-- A part of a part is a part. -/
theorem Part.trans {r s e : Regex} (h : r.Part s) (hs : s.Part e) : r.Part e := by
  induction h with
  | self => exact hs
  | concat hr _ ih => exact .concat hr (ih hs)
  | choice hr _ ih => exact .choice hr (ih hs)
  | repeated _ ih => exact .repeated (ih hs)

/-- The parts of an expandable tree are expandable. -/
theorem Expandable.part {r s : Regex} (h : Expandable named r) (hs : r.Part s) :
    Expandable named s := by
  cases h with
  | intro hresolve hrefers =>
      refine .intro (fun name hname => hresolve name (hs.trans hname)) ?_
      rintro tree ⟨name, hname, htree⟩
      exact hrefers tree ⟨name, hs.trans hname, htree⟩

/-- What an expandable tree refers to is expandable. -/
theorem Expandable.refers {r tree : Regex} (h : Expandable named r) (ht : Refers named r tree) :
    Expandable named tree := by
  cases h with
  | intro _ hrefers => exact hrefers tree ht

/-- An expandable tree does not come by itself again. -/
theorem Expandable.irrefl {r : Regex} (h : Expandable named r) :
    ¬ Relation.TransGen (Refers named) r r := by
  have hacc : Acc (fun tree r => Refers named r tree) r := by
    induction h with
    | intro _ _ ih => exact Acc.intro _ ih
  intro hr
  induction hacc with
  | intro r _ ih =>
      obtain ⟨tree, htree, hback⟩ := Relation.TransGen.head'_iff.mp hr
      exact ih tree htree (h.refers htree) (.tail' hback htree)

/-- A tree without names leads to no other tree. -/
theorem eq_of_references_eq_nil {r tree : Regex} (h : r.references = [])
    (htree : Relation.ReflTransGen (Refers named) r tree) : tree = r := by
  rcases Relation.ReflTransGen.cases_head htree with heq | ⟨s, ⟨name, hname, -⟩, -⟩
  · exact heq.symm
  · have hmem := mem_references hname
    rw [h] at hmem
    exact absurd hmem List.not_mem_nil

/-- A tree without names is expandable. -/
theorem expandable_of_references_eq_nil {r : Regex} (h : r.references = []) :
    Expandable named r := by
  have hnone : ∀ name, ¬ r.Part (.reference name) := fun name hname => by
    have hmem := mem_references hname
    rw [h] at hmem
    exact absurd hmem List.not_mem_nil
  refine .intro (fun name hname => absurd hname (hnone name)) ?_
  rintro tree ⟨name, hname, -⟩
  exact absurd hname (hnone name)

/-- A tree without references is steady if its own repetitions are. -/
theorem steady_of_references_eq_nil {r : Regex} (h : r.references = [])
    (hr : ∀ q body further, r.Part (.repeated q (body :: further)) → q.repeats →
      [] ∉ body.languageIn folding named) : Steady folding named r := by
  intro tree htree
  rw [eq_of_references_eq_nil h htree]
  exact hr

/-- What a steady tree refers to is steady. -/
theorem Steady.refers {r tree : Regex} (h : Steady folding named r)
    (ht : Refers named r tree) : Steady folding named tree :=
  fun e he => h e (.head ht he)

end Expansion

end Regex

end GrammarAnalysis
