import GrammarAnalysis.Text.Substitution
import Mathlib.Data.List.Infix

/-!
# What Substitution Does

A text that begins with the pattern begins with the replacement afterwards, and the rest of it is
treated alike. A text in which the pattern does not occur stays as it is.

## Main definitions

* `OccursIn`: a text stands in another one.

## Main results

* `replaceAll_append`, `replaceAll_eq_self`: the two rules;
* `Substitution.infix_of_infix_append`: where a pattern can stand in a text of two parts.
-/

namespace GrammarAnalysis

namespace Substitution

variable {pattern replacement text : List Char}

/-- What is skipped is left out. -/
theorem allAfter_append (skipped rest : List Char) :
    allAfter pattern replacement skipped.length (skipped ++ rest)
      = allAfter pattern replacement 0 rest := by
  induction skipped with
  | nil => rfl
  | cons c skipped ih => exact ih

/-- The pattern at the front is replaced, and the search goes on behind it. -/
theorem allAfter_pattern_append (hpattern : pattern ≠ []) (rest : List Char) :
    allAfter pattern replacement 0 (pattern ++ rest)
      = replacement ++ allAfter pattern replacement 0 rest := by
  obtain ⟨c, tail, rfl⟩ := List.exists_cons_of_ne_nil hpattern
  have hprefix : (c :: tail).isPrefixOf (c :: (tail ++ rest)) = true :=
    List.isPrefixOf_iff_prefix.mpr (List.prefix_append (c :: tail) rest)
  rw [List.cons_append, allAfter, if_pos hprefix, List.length_cons, Nat.add_sub_cancel,
    allAfter_append]

/-- A text without the pattern stays as it is. -/
theorem allAfter_eq_self (h : ¬ pattern <:+: text) :
    allAfter pattern replacement 0 text = text := by
  induction text with
  | nil => rfl
  | cons c rest ih =>
      have hprefix : ¬ pattern.isPrefixOf (c :: rest) = true := fun hprefix =>
        h (List.isPrefixOf_iff_prefix.mp hprefix).isInfix
      have hrest : ¬ pattern <:+: rest := fun hrest =>
        h (hrest.trans (List.suffix_cons c rest).isInfix)
      rw [allAfter, if_neg hprefix, ih hrest]

/-- A pattern that ends in two characters stands in the first of two parts, if the first of these
characters is neither in the second part nor at the end of the first one. -/
theorem infix_of_infix_append {start front back : List Char} {c d : Char}
    (h : start ++ [c, d] <:+: front ++ back) (hback : c ∉ back)
    (hfront : ∀ l, front ≠ l ++ [c]) : start ++ [c, d] <:+: front := by
  obtain ⟨before, after, heq⟩ := h
  have hsplit : (before ++ start) ++ (c :: d :: after) = front ++ back := by
    rw [← heq]
    simp
  rcases List.append_eq_append_iff.mp hsplit with ⟨l, rfl, hl⟩ | ⟨l, hl, rfl⟩
  · rcases l with _ | ⟨x, _ | ⟨y, l⟩⟩
    · rw [List.nil_append] at hl
      exact absurd (hl ▸ List.mem_cons_self) hback
    · obtain ⟨rfl, -⟩ := List.cons.inj hl
      exact absurd rfl (hfront _)
    · obtain ⟨rfl, htail⟩ := List.cons.inj hl
      obtain ⟨rfl, -⟩ := List.cons.inj htail
      exact ⟨before, l, by simp⟩
  · exact absurd (List.mem_append_right l List.mem_cons_self) hback

end Substitution

variable {pattern replacement text : String}

/-- The pattern stands somewhere in the text. -/
def OccursIn (pattern text : String) : Prop := pattern.toList <:+: text.toList

/-- A pattern at the beginning is replaced, and the rest is treated alike. -/
theorem replaceAll_append (hpattern : pattern ≠ "") (text : String) :
    replaceAll pattern replacement (pattern ++ text)
      = replacement ++ replaceAll pattern replacement text := by
  have hchars : pattern.toList ≠ [] := fun h => hpattern (String.toList_eq_nil_iff.mp h)
  rw [replaceAll, replaceAll, String.toList_append, Substitution.allAfter_pattern_append hchars,
    String.ofList_append, String.ofList_toList]

/-- A text in which the pattern does not occur stays as it is. -/
theorem replaceAll_eq_self (h : ¬ OccursIn pattern text) :
    replaceAll pattern replacement text = text := by
  rw [replaceAll, Substitution.allAfter_eq_self h, String.ofList_toList]

end GrammarAnalysis
