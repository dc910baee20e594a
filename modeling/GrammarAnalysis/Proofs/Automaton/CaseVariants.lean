import GrammarAnalysis.Proofs.Automaton.Faults
import GrammarAnalysis.Proofs.Automaton.Thompson
import GrammarAnalysis.Proofs.CharSet.CaseFolding

/-!
# Texts and Classes in Every Case

A literal text can be written as a series of character classes, each of one character. If case is
ignored, a character of the text and the class of that character are turned into moves in
different ways: the text takes the simple case variants of every character, while the class is
folded, which passes over the characters beyond a limit. So the class never matches more than the
text does, and it matches less where a character beyond the limit has a variant.

## Main definitions

* `Regex.characterClasses`: a text as a series of classes;
* `Regex.ClassVariant`: what the class of one character matches.

## Main results

* `Regex.mem_language_characterClasses`: the words of the series;
* `Regex.textVariant_iff_classes`: which texts the series has the words of;
* `Regex.assemble_text_iff_classes`: the same for the fragments of an automaton.
-/

namespace GrammarAnalysis

/-- Two reflexive relations relate a list to the same lists if and only if they relate each of its
elements to the same elements. -/
theorem forall_forall₂_iff {α : Type} {R S : α → α → Prop} (hR : ∀ a, R a a) (hS : ∀ a, S a a)
    {l : List α} :
    (∀ m, List.Forall₂ R l m ↔ List.Forall₂ S l m) ↔ ∀ a ∈ l, ∀ b, R a b ↔ S a b := by
  -- Change one element, and keep the others.
  have hchange : ∀ {T : α → α → Prop}, (∀ a, T a a) → ∀ before after : List α, ∀ a b,
      List.Forall₂ T (before ++ a :: after) (before ++ b :: after) ↔ T a b := by
    intro T hT before after a b
    induction before with
    | nil =>
        rw [List.nil_append, List.nil_append, List.forall₂_cons]
        exact and_iff_left (List.forall₂_same.mpr fun a _ => hT a)
    | cons c before ih =>
        rw [List.cons_append, List.cons_append, List.forall₂_cons, ih]
        exact and_iff_right (hT c)
  constructor
  · intro h a ha b
    obtain ⟨before, after, rfl⟩ := List.append_of_mem ha
    exact (hchange hR before after a b).symm.trans ((h _).trans (hchange hS before after a b))
  · intro h
    induction l with
    | nil => exact fun m => List.forall₂_nil_left_iff.trans List.forall₂_nil_left_iff.symm
    | cons a l ih =>
        obtain ⟨ha, hl⟩ := List.forall_mem_cons.mp h
        intro m
        rw [List.forall₂_cons_left_iff, List.forall₂_cons_left_iff]
        simp only [ha, ih hl]

namespace Regex

open Automaton CaseMap

/-- A text as a series of character classes, each of one character. -/
def characterClasses (image : String) : Regex :=
  .concat (image.toList.map fun c => .chars (.point c.toNat) false)

/-- The second code point is the first one, or a simple case variant of it, if the first one is not
beyond the limit of case folding. -/
def ClassVariant (c d : Nat) : Prop :=
  d = c ∨ c ≤ CharSet.caseFoldingLimit ∧ (simpleUpper c = some d ∨ simpleLower c = some d)

variable {image : String} {expand : String → Assembly} {named : String → Language Nat}
  {c d : Nat} {w : List Nat}

/-! ### One character -/

/-- A code point is a variant of itself. -/
theorem CharVariant.refl (ignoreCase : Bool) (c : Nat) : CharVariant ignoreCase c c := .inl rfl

/-- A code point is in the class that is made of it. -/
theorem ClassVariant.refl (c : Nat) : ClassVariant c c := .inl rfl

/-- A class matches no other code points than a text. -/
theorem ClassVariant.charVariant (h : ClassVariant c d) : CharVariant true c d :=
  h.imp_right fun ⟨_, hd⟩ => ⟨rfl, hd⟩

/-- A class and a text match the same code points for a character that is not beyond the limit, or
that has no variants. -/
theorem charVariant_iff_classVariant :
    (∀ d, CharVariant true c d ↔ ClassVariant c d) ↔
      c ≤ CharSet.caseFoldingLimit ∨ simpleUpper c = none ∧ simpleLower c = none := by
  constructor
  · intro h
    refine or_iff_not_imp_left.mpr fun hc => ?_
    have hself : ∀ d, simpleUpper c = some d ∨ simpleLower c = some d → d = c := fun d hd =>
      ((h d).mp (.inr ⟨rfl, hd⟩)).resolve_right fun h => hc h.1
    constructor
    · refine Option.eq_none_iff_forall_ne_some.mpr fun d hd => simpleUpper_ne (c := c) ?_
      rw [hd, hself d (.inl hd)]
    · refine Option.eq_none_iff_forall_ne_some.mpr fun d hd => simpleLower_ne (c := c) ?_
      rw [hd, hself d (.inr hd)]
  · rintro (hc | ⟨hupper, hlower⟩) d
    · exact ⟨fun h => h.imp_right fun ⟨_, hd⟩ => ⟨hc, hd⟩, ClassVariant.charVariant⟩
    · rw [CharVariant, ClassVariant, hupper, hlower]
      simp

/-- Folding the class of a character adds its variants, if it is not beyond the limit. -/
theorem contains_caseFolded_point :
    (CharSet.point c).caseFolded.contains d = true ↔ ClassVariant c d := by
  have hpoint : ∀ {e}, (CharSet.point c).contains e = true ↔ e = c := fun {e} => by
    have h : (CharSet.point c).contains e = (CharRange.point c).contains e := Bool.or_false _
    rw [h, CharRange.contains_point]
  simp only [CharSet.contains_caseFolded, hpoint, exists_eq_left, ClassVariant]

/-! ### All the characters -/

/-- The words of a series of classes have a variant for each of them. -/
theorem mem_language_characterClasses :
    w ∈ (characterClasses image).language true named ↔
      List.Forall₂ ClassVariant (image.toList.map Char.toNat) w := by
  have hlanguage : (characterClasses image).language true named =
      ((image.toList.map Char.toNat).map fun c =>
        oneOf (CharSet.point c).caseFolded.toList).prod := by
    rw [characterClasses, language, languages_eq_map, List.map_map, List.map_map]
    refine congrArg (fun ℓs => List.prod ℓs) (List.map_congr_left fun c _ => ?_)
    rw [Function.comp, language]
    rfl
  have hvariant : ∀ c d, (CharSet.point c).caseFolded.toList.any (·.contains d) = true ↔
      ClassVariant c d := fun _ _ => contains_caseFolded_point
  rw [hlanguage, mem_prod_oneOf]
  simp only [hvariant]

/-- A series of classes has the words of the text if no character beyond the limit has variants. -/
theorem textVariant_iff_classes :
    (∀ w, TextVariant true image w ↔
        List.Forall₂ ClassVariant (image.toList.map Char.toNat) w) ↔
      ∀ c ∈ image.toList, c.toNat ≤ CharSet.caseFoldingLimit ∨
        simpleUpper c.toNat = none ∧ simpleLower c.toNat = none := by
  simp only [TextVariant, forall_forall₂_iff (CharVariant.refl true) ClassVariant.refl,
    List.forall_mem_map, charVariant_iff_classVariant]

/-! ### Fragments -/

/-- The fragment of a text is built. -/
theorem exists_assemble_text (folding : CaseFolding) (expand : String → Assembly) (image : String)
    (A : Automaton) : ∃ f B, (text image).assemble folding expand A = .ok (f, B) :=
  ⟨(A.addText folding.texts image).1, (A.addText folding.texts image).2, rfl⟩

/-- The parts of the classes of a text are the text as a whole, and one class for each character.
-/
theorem part_characterClasses {e : Regex} (h : (characterClasses image).Part e) :
    e = characterClasses image ∨ ∃ c, e = .chars (.point c) false := by
  generalize hr : characterClasses image = r at h
  cases h with
  | self => exact .inl rfl
  | concat hpart h =>
      obtain rfl := Regex.concat.inj hr
      obtain ⟨c, -, rfl⟩ := List.mem_map.mp hpart
      cases h
      exact .inr ⟨c.toNat, rfl⟩
  | choice _ _ => cases hr
  | repeated _ => cases hr

/-- A series of classes has no part that can fail. -/
theorem partsFault_characterClasses (folding : CaseFolding) (expand : String → Assembly)
    (image : String) : PartsFault folding expand (fun _ => False) (characterClasses image) where
  names := fun name hname => by
    rcases part_characterClasses hname with h | ⟨c, h⟩ <;> cases h
  classes := fun set negated fault hclass hfault => by
    rcases part_characterClasses hclass with h | ⟨c, h⟩ <;> cases h
    cases hfault
  operands := fun q hq => by
    rcases part_characterClasses hq with h | ⟨c, h⟩ <;> cases h

/-- The fragment of a series of classes is built. -/
theorem exists_assemble_characterClasses (folding : CaseFolding) (expand : String → Assembly)
    (image : String) (A : Automaton) :
    ∃ f B, (characterClasses image).assemble folding expand A = .ok (f, B) := by
  have hfault :=
    faults_assemble (characterClasses image) (partsFault_characterClasses folding expand image) A
  cases h : (characterClasses image).assemble folding expand A with
  | error fault => exact (hfault fault h).elim
  | ok made => exact ⟨made.1, made.2, rfl⟩

/-- The fragment of a tree without names and repetitions has the words of the tree. -/
theorem leads_assemble_iff {folding : CaseFolding} {r : Regex} {A B : Automaton} {f : Fragment}
    (hname : ∀ name, ¬ r.Part (.reference name))
    (hloop : ∀ q operands, ¬ r.Part (.repeated q operands))
    (h : r.assemble folding expand A = .ok (f, B)) :
    B.Leads f.start f.finish w ↔ w ∈ r.language folding fun _ => 0 := by
  have hsupplied : Supplied folding expand (fun _ => 0) False r := {
    makes := fun name hpart => absurd hpart (hname name)
    not_nullable := fun q body further hpart => absurd hpart (hloop q (body :: further)) }
  exact (r.makes_assemble hsupplied A f B h).2.leads_iff w

/-- The words of the fragment of a text. -/
theorem leads_assemble_text {A B : Automaton} {f : Fragment}
    (h : (text image).assemble true expand A = .ok (f, B)) :
    B.Leads f.start f.finish w ↔ TextVariant true image w := by
  have hname : ∀ name, ¬ (text image).Part (.reference name) := fun name hpart => by cases hpart
  have hloop : ∀ q operands, ¬ (text image).Part (.repeated q operands) := fun _ _ hpart => by
    cases hpart
  rw [leads_assemble_iff hname hloop h, mem_language_text]

/-- The words of the fragment of a series of classes. -/
theorem leads_assemble_characterClasses {A B : Automaton} {f : Fragment}
    (h : (characterClasses image).assemble true expand A = .ok (f, B)) :
    B.Leads f.start f.finish w ↔
      List.Forall₂ ClassVariant (image.toList.map Char.toNat) w := by
  have hname : ∀ name, ¬ (characterClasses image).Part (.reference name) := fun name hpart => by
    rcases part_characterClasses hpart with h | ⟨c, h⟩ <;> cases h
  have hloop : ∀ q operands, ¬ (characterClasses image).Part (.repeated q operands) := by
    intro q operands hpart
    rcases part_characterClasses hpart with h | ⟨c, h⟩ <;> cases h
  rw [leads_assemble_iff hname hloop h, mem_language_characterClasses]

/-- **Texts and classes if case is ignored.** The fragment of a text and that of its characters as
classes are both built, in any automata. Every word of the classes is one of the text, and they
have the same words if and only if no character of the text that is beyond the limit of case
folding has a case variant. -/
theorem assemble_text_iff_classes (image : String) (expand : String → Assembly)
    (A A' : Automaton) :
    ∃ f B g C, (text image).assemble true expand A = .ok (f, B) ∧
      (characterClasses image).assemble true expand A' = .ok (g, C) ∧
      (∀ w, C.Leads g.start g.finish w → B.Leads f.start f.finish w) ∧
      ((∀ w, B.Leads f.start f.finish w ↔ C.Leads g.start g.finish w) ↔
        ∀ c ∈ image.toList, c.toNat ≤ CharSet.caseFoldingLimit ∨
          simpleUpper c.toNat = none ∧ simpleLower c.toNat = none) := by
  obtain ⟨f, B, hf⟩ := exists_assemble_text true expand image A
  obtain ⟨g, C, hg⟩ := exists_assemble_characterClasses true expand image A'
  refine ⟨f, B, g, C, hf, hg, fun w hw => ?_, ?_⟩
  · rw [leads_assemble_text hf]
    exact ((leads_assemble_characterClasses hg).mp hw).imp fun _ _ => ClassVariant.charVariant
  · simp only [leads_assemble_text hf, leads_assemble_characterClasses hg]
    exact textVariant_iff_classes

/-- A capital letter beyond the limit, of which the small letter is U+1E922. -/
def capitalAlif : String := String.ofList [Char.ofNat 0x1E900]

/-- The letter has one code point, beyond the limit of case folding. -/
theorem capitalAlif_points : capitalAlif.toList.map Char.toNat = [0x1E900] := by
  rw [capitalAlif, String.toList_ofList]
  rfl

/-- The text of the capital letter matches the small letter, and its class does not. -/
theorem assemble_capitalAlif :
    ∃ f B g C, (text capitalAlif).assemble true (fun _ A => .ok A.addPoint) .start = .ok (f, B) ∧
      (characterClasses capitalAlif).assemble true (fun _ A => .ok A.addPoint) .start =
        .ok (g, C) ∧
      B.Leads f.start f.finish [0x1E922] ∧ ¬ C.Leads g.start g.finish [0x1E922] := by
  obtain ⟨f, B, hf⟩ := exists_assemble_text true (fun _ A => .ok A.addPoint) capitalAlif .start
  obtain ⟨g, C, hg⟩ :=
    exists_assemble_characterClasses true (fun _ A => .ok A.addPoint) capitalAlif .start
  have hlower : simpleLower 0x1E900 = some 0x1E922 := by decide +kernel
  refine ⟨f, B, g, C, hf, hg, (leads_assemble_text hf).mpr ?_, fun hw => ?_⟩
  · rw [TextVariant, capitalAlif_points]
    exact .cons (.inr ⟨rfl, .inr hlower⟩) .nil
  · have hvariant := (leads_assemble_characterClasses hg).mp hw
    rw [capitalAlif_points, List.forall₂_cons] at hvariant
    rcases hvariant.1 with h | ⟨h, -⟩
    · exact absurd h (by decide)
    · exact absurd h (by decide)

end Regex

end GrammarAnalysis
