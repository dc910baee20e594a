import GrammarAnalysis.Proofs.Regex.Language

/-!
# Trees That Match the Empty Word

The check of the patterns decides by the structure of a tree whether it matches the empty word. It
is right as long as it is right about the names in the tree, with three exceptions: it takes a
repetition that was given no operand to match the empty word, and the end of the input not to; and
it asks every operand of a repetition, of which only the first one is ever matched.

## Main results

* `Quantifier.nil_mem_language`: the repetitions that match the empty word;
* `Regex.nil_mem_of_nullableWith`: what the check finds does match the empty word;
* `Regex.nullableWith_of_nil_mem`: the check finds what matches the empty word, if no repetition has
  operands after the first one.
-/

open Computability

namespace GrammarAnalysis

/-- The empty word is in a product if it is in both factors. -/
theorem nil_mem_mul {ℓ m : Language Nat} : [] ∈ ℓ * m ↔ [] ∈ ℓ ∧ [] ∈ m := by
  rw [Language.mem_mul]
  constructor
  · rintro ⟨u, hu, v, hv, happend⟩
    obtain ⟨rfl, rfl⟩ := List.append_eq_nil_iff.mp happend
    exact ⟨hu, hv⟩
  · exact fun ⟨hℓ, hm⟩ => ⟨[], hℓ, [], hm, rfl⟩

/-- The empty word is in a power if it is in the base, or there is no factor. -/
theorem nil_mem_pow {ℓ : Language Nat} {n : Nat} : [] ∈ ℓ ^ n ↔ n = 0 ∨ [] ∈ ℓ := by
  induction n with
  | zero => exact iff_of_true ((Language.mem_one []).mpr rfl) (.inl rfl)
  | succ n ih =>
      rw [pow_succ, nil_mem_mul, ih]
      constructor
      · exact fun h => .inr h.2
      · intro h
        have hbase := h.resolve_left (Nat.succ_ne_zero n)
        exact ⟨.inr hbase, hbase⟩

/-- No copy need be matched, or none that matches something. -/
theorem Quantifier.nil_mem_language (q : Quantifier) {ℓ : Language Nat} :
    [] ∈ q.language ℓ ↔ match q with
      | star | optional => True
      | plus => [] ∈ ℓ
      | times min _ => min = 0 ∨ [] ∈ ℓ := by
  have hoption : [] ∈ 1 + ℓ := .inl ((Language.mem_one []).mpr rfl)
  rcases q with _ | _ | _ | ⟨min, _ | max⟩
  · exact iff_of_true (Language.nil_mem_kstar ℓ) trivial
  · rw [language, nil_mem_mul, and_iff_left (Language.nil_mem_kstar ℓ)]
  · exact iff_of_true hoption trivial
  · rw [language, nil_mem_mul, nil_mem_pow, and_iff_left (Language.nil_mem_kstar ℓ)]
  · rw [language, nil_mem_mul, nil_mem_pow, nil_mem_pow, and_iff_left (.inr hoption)]

namespace Regex

variable {folding : CaseFolding} {named : String → Language Nat} {nullable : String → Bool}

/-- The check of a repetition asks all of its operands, if it asks any. -/
theorem nullableWith_repeated {q : Quantifier} {operands : List Regex} :
    (repeated q operands).nullableWith nullable ↔ match q with
      | .star | .optional => True
      | .plus => allNullable nullable operands
      | .times min _ => min = 0 ∨ allNullable nullable operands := by
  rcases q with _ | _ | _ | ⟨min, max⟩ <;> simp [nullableWith]

/-- Each tree of a list matches the empty word if the first one and each of the others do. -/
theorem allNullable_cons {r : Regex} {rest : List Regex} :
    allNullable nullable (r :: rest) ↔ r.nullableWith nullable ∧ allNullable nullable rest := by
  rw [allNullable, Bool.and_eq_true]

/-- One tree of a list matches the empty word if the first one or one of the others does. -/
theorem anyNullable_cons {r : Regex} {rest : List Regex} :
    anyNullable nullable (r :: rest) ↔ r.nullableWith nullable ∨ anyNullable nullable rest := by
  rw [anyNullable, Bool.or_eq_true]

/-- The repetitions in the tree have no operands after the first one. -/
def Single (r : Regex) : Prop :=
  ∀ q body further, r.Part (.repeated q (body :: further)) → further = []

mutual

/-- The check finds a tree that matches the empty word, if it finds the names that do, no repetition
has further operands, and the tree does not contain the end of the input. -/
theorem nullableWith_of_nil_mem : (r : Regex) →
    (∀ name, r.Part (.reference name) → [] ∈ named name → nullable name) → r.Single →
    ¬ r.Part .endOfInput → [] ∈ r.language folding named → r.nullableWith nullable
  | chars set negated, _, _, _, h => by
    rw [language] at h
    split at h
    · obtain ⟨c, -, hc⟩ := mem_oneOf.mp h
      cases hc
    · exact absurd h (Set.notMem_empty _)
  | text image, _, _, _, h => by
    rw [mem_language_text, TextVariant, List.forall₂_nil_right_iff, List.map_eq_nil_iff] at h
    simpa [nullableWith] using h
  | concat parts, hnames, hsingle, hend, h => by
    rw [language] at h
    rw [nullableWith]
    exact allNullable_of_nil_mem parts (fun r hr name hname => hnames name (.concat hr hname))
      (fun r hr q body further hpart => hsingle q body further (.concat hr hpart))
      (fun r hr hpart => hend (.concat hr hpart)) h
  | choice alternatives, hnames, hsingle, hend, h => by
    rw [language] at h
    rw [nullableWith]
    exact anyNullable_of_nil_mem alternatives
      (fun r hr name hname => hnames name (.choice hr hname))
      (fun r hr q body further hpart => hsingle q body further (.choice hr hpart))
      (fun r hr hpart => hend (.choice hr hpart)) h
  | repeated q (body :: further), hnames, hsingle, hend, h => by
    obtain rfl := hsingle q body further .self
    have hbody : [] ∈ body.language folding named → allNullable nullable [body] := fun h =>
      allNullable_cons.mpr ⟨nullableWith_of_nil_mem body
        (fun name hname => hnames name (.repeated hname))
        (fun q body further hpart => hsingle q body further (.repeated hpart))
        (fun hpart => hend (.repeated hpart)) h, by rw [allNullable]⟩
    rw [language, q.nil_mem_language] at h
    rw [nullableWith_repeated]
    rcases q with _ | _ | _ | ⟨min, max⟩
    · exact h
    · exact hbody h
    · exact h
    · exact h.imp_right hbody
  | repeated q [], _, _, _, _ => by
    rw [nullableWith_repeated]
    rcases q with _ | _ | _ | ⟨min, max⟩ <;> simp [allNullable]
  | reference name, hnames, _, _, h => by
    rw [nullableWith]
    exact hnames name .self h
  | endOfInput, _, _, hend, _ => absurd .self hend

/-- If a series of trees matches the empty word, then all of them are nullable. -/
theorem allNullable_of_nil_mem : (rs : List Regex) →
    (∀ r ∈ rs, ∀ name, r.Part (.reference name) → [] ∈ named name → nullable name) →
    (∀ r ∈ rs, r.Single) → (∀ r ∈ rs, ¬ r.Part .endOfInput) →
    [] ∈ (languages folding named rs).prod → allNullable nullable rs
  | [], _, _, _, _ => by rw [allNullable]
  | r :: rest, hnames, hsingle, hend, h => by
    rw [languages, List.prod_cons, nil_mem_mul] at h
    obtain ⟨hr, hrest⟩ := List.forall_mem_cons.mp hnames
    obtain ⟨hrsingle, hrestsingle⟩ := List.forall_mem_cons.mp hsingle
    obtain ⟨hrend, hrestend⟩ := List.forall_mem_cons.mp hend
    exact allNullable_cons.mpr ⟨nullableWith_of_nil_mem r hr hrsingle hrend h.1,
      allNullable_of_nil_mem rest hrest hrestsingle hrestend h.2⟩

/-- If one of the trees matches the empty word, then one is nullable. -/
theorem anyNullable_of_nil_mem : (rs : List Regex) →
    (∀ r ∈ rs, ∀ name, r.Part (.reference name) → [] ∈ named name → nullable name) →
    (∀ r ∈ rs, r.Single) → (∀ r ∈ rs, ¬ r.Part .endOfInput) →
    [] ∈ (languages folding named rs).sum → anyNullable nullable rs
  | [], _, _, _, h => absurd h (Set.notMem_empty _)
  | r :: rest, hnames, hsingle, hend, h => by
    rw [languages, List.sum_cons] at h
    obtain ⟨hr, hrest⟩ := List.forall_mem_cons.mp hnames
    obtain ⟨hrsingle, hrestsingle⟩ := List.forall_mem_cons.mp hsingle
    obtain ⟨hrend, hrestend⟩ := List.forall_mem_cons.mp hend
    exact anyNullable_cons.mpr (h.imp (nullableWith_of_nil_mem r hr hrsingle hrend)
      (anyNullable_of_nil_mem rest hrest hrestsingle hrestend))

end

mutual

/-- What the check finds does match the empty word, if the names do that it finds and every
repetition has an operand. -/
theorem nil_mem_of_nullableWith : (r : Regex) →
    (∀ name, r.Part (.reference name) → nullable name → [] ∈ named name) →
    (∀ q, ¬ r.Part (.dangling q)) → r.nullableWith nullable → [] ∈ r.language folding named
  | chars set negated, _, _, h => by rw [nullableWith] at h; cases h
  | text image, _, _, h => by
    rw [nullableWith, String.isEmpty_iff] at h
    rw [mem_language_text, TextVariant, h]
    exact .nil
  | concat parts, hnames, hwhole, h => by
    rw [nullableWith] at h
    rw [language]
    exact nil_mem_of_allNullable parts (fun r hr name hname => hnames name (.concat hr hname))
      (fun r hr q hpart => hwhole q (.concat hr hpart)) h
  | choice alternatives, hnames, hwhole, h => by
    rw [nullableWith] at h
    rw [language]
    exact nil_mem_of_anyNullable alternatives
      (fun r hr name hname => hnames name (.choice hr hname))
      (fun r hr q hpart => hwhole q (.choice hr hpart)) h
  | repeated q (body :: further), hnames, hwhole, h => by
    have hbody : allNullable nullable (body :: further) → [] ∈ body.language folding named :=
      fun h => nil_mem_of_nullableWith body (fun name hname => hnames name (.repeated hname))
        (fun q hpart => hwhole q (.repeated hpart)) (allNullable_cons.mp h).1
    rw [nullableWith_repeated] at h
    rw [language, q.nil_mem_language]
    rcases q with _ | _ | _ | ⟨min, max⟩
    · exact h
    · exact hbody h
    · exact h
    · exact h.imp_right hbody
  | repeated q [], _, hwhole, _ => absurd .self (hwhole q)
  | reference name, hnames, _, h => by
    rw [nullableWith] at h
    exact hnames name .self h
  | endOfInput, _, _, h => by rw [nullableWith] at h; cases h

/-- If all trees are nullable, then the series of them matches the empty word. -/
theorem nil_mem_of_allNullable : (rs : List Regex) →
    (∀ r ∈ rs, ∀ name, r.Part (.reference name) → nullable name → [] ∈ named name) →
    (∀ r ∈ rs, ∀ q, ¬ r.Part (.dangling q)) → allNullable nullable rs →
    [] ∈ (languages folding named rs).prod
  | [], _, _, _ => (Language.mem_one []).mpr rfl
  | r :: rest, hnames, hwhole, h => by
    rw [allNullable_cons] at h
    obtain ⟨hr, hrest⟩ := List.forall_mem_cons.mp hnames
    obtain ⟨hrwhole, hrestwhole⟩ := List.forall_mem_cons.mp hwhole
    rw [languages, List.prod_cons, nil_mem_mul]
    exact ⟨nil_mem_of_nullableWith r hr hrwhole h.1,
      nil_mem_of_allNullable rest hrest hrestwhole h.2⟩

/-- If one of the trees is nullable, then one matches the empty word. -/
theorem nil_mem_of_anyNullable : (rs : List Regex) →
    (∀ r ∈ rs, ∀ name, r.Part (.reference name) → nullable name → [] ∈ named name) →
    (∀ r ∈ rs, ∀ q, ¬ r.Part (.dangling q)) → anyNullable nullable rs →
    [] ∈ (languages folding named rs).sum
  | [], _, _, h => by rw [anyNullable] at h; cases h
  | r :: rest, hnames, hwhole, h => by
    rw [anyNullable_cons] at h
    obtain ⟨hr, hrest⟩ := List.forall_mem_cons.mp hnames
    obtain ⟨hrwhole, hrestwhole⟩ := List.forall_mem_cons.mp hwhole
    rw [languages, List.sum_cons]
    exact h.imp (nil_mem_of_nullableWith r hr hrwhole)
      (nil_mem_of_anyNullable rest hrest hrestwhole)

end

end Regex

end GrammarAnalysis
