import GrammarAnalysis.Text.Identifier

/-!
# Numerals in Identifiers

A numeral is made of digits, which can stand in an identifier after the first character, but cannot
begin one.

## Main results

* `toString_injective`: a numeral is that of one number;
* `isIdentifier_append_toString`, `isIdentifier_toString`: numerals at the end of an identifier, and
  on their own.
-/

namespace GrammarAnalysis

/-- A numeral is that of one number. -/
theorem toString_injective : Function.Injective (toString : Nat → String) := fun m n h => by
  have hdigits := congrArg (fun s : String => Nat.ofDigitChars 10 s.toList 0) h
  simpa [Nat.toString_eq_repr, Nat.toList_repr] using hdigits

/-- The decimal form of a number has digits only. -/
theorem isDigit_of_mem_toString {n : Nat} {c : Char} (h : c ∈ (toString n).toList) :
    c.isDigit = true := by
  rw [Nat.toString_eq_repr, Nat.toList_repr] at h
  exact Nat.isDigit_of_mem_toDigits (by decide) (by decide) h

/-- The code points of the digits. -/
theorem toNat_of_isDigit {c : Char} (h : c.isDigit = true) : 0x30 ≤ c.toNat ∧ c.toNat ≤ 0x39 := by
  rw [Char.isDigit, Bool.and_eq_true, decide_eq_true_eq, decide_eq_true_eq] at h
  exact h

/-- A digit may stand in an identifier. -/
theorem isIdentifierRest_of_isDigit {c : Char} (h : c.isDigit = true) :
    isIdentifierRest c = true := by
  obtain ⟨hlow, hhigh⟩ := toNat_of_isDigit h
  have hnumeric : numericRanges.contains c.toNat = true :=
    (numericRanges.contains_eq_true_iff _).mpr ⟨(0x30, 0x39), List.mem_cons_self, hlow, hhigh⟩
  simp [isIdentifierRest, hnumeric]

/-- A digit may not begin an identifier. -/
theorem isIdentifierStart_of_isDigit {c : Char} (h : c.isDigit = true) :
    isIdentifierStart c = false := by
  obtain ⟨hlow, hhigh⟩ := toNat_of_isDigit h
  have halphabetic : alphabeticRanges.contains c.toNat = false := by
    refine Bool.eq_false_iff.mpr fun hfound => ?_
    obtain ⟨r, hr, hle, -⟩ := (alphabeticRanges.contains_eq_true_iff _).mp hfound
    have hfirst : 0x41 ≤ r.1 := le_of_ascends (by decide +kernel) r hr
    omega
  have hne : ∀ d : Char, d.isDigit = false → c ≠ d := fun d hd heq => by
    rw [heq, hd] at h
    cases h
  simp [isIdentifierStart, halphabetic, hne '_' rfl, hne '$' rfl]

/-- A numeral can stand at the end of an identifier. -/
theorem isIdentifier_append_toString {s : String} (hs : isIdentifier s = true) (n : Nat) :
    isIdentifier (s ++ toString n) = true := by
  rw [isIdentifier] at hs
  rw [isIdentifier, String.toList_append]
  cases hchars : s.toList with
  | nil =>
      rw [hchars] at hs
      cases hs
  | cons c rest =>
      rw [hchars] at hs
      simp only [Bool.and_eq_true, List.all_eq_true] at hs
      simp only [List.cons_append, Bool.and_eq_true, List.all_eq_true, List.mem_append]
      refine ⟨hs.1, fun d hd => ?_⟩
      rcases hd with hd | hd
      · exact hs.2 d hd
      · exact isIdentifierRest_of_isDigit (isDigit_of_mem_toString hd)

/-- A numeral is no identifier. -/
theorem isIdentifier_toString (n : Nat) : isIdentifier (toString n) = false := by
  rw [isIdentifier]
  cases hchars : (toString n).toList with
  | nil => rfl
  | cons c rest =>
      have hdigit : c.isDigit = true :=
        isDigit_of_mem_toString (n := n) (hchars ▸ List.mem_cons_self)
      simp [isIdentifierStart_of_isDigit hdigit]

end GrammarAnalysis
