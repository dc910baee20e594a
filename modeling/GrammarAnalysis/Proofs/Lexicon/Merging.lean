import GrammarAnalysis.Proofs.Automaton.Merging
import GrammarAnalysis.Proofs.Lexicon.Loops
import GrammarAnalysis.Proofs.Lexicon.Recognition
import GrammarAnalysis.Proofs.Regex.Nullability

/-!
# Patterns That Merge

The automaton of a lexical state cannot be closed if it accepts the empty word with two patterns:
its initial state then reaches both acceptances. No other state reaches two, since one does not get
out of the fragment of a pattern.

The check of the patterns takes some of them not to match the empty text although their fragments
match the empty word: where a pattern has no tree, at the end of the input, at an extra token, and
at a repetition with several operands, of which the check asks each one, while the fragment is made
of the first. A pattern that has such a part, or refers to one that does, is *hollow*.

## Main definitions

* `Lexicon.Blanks`, `Lexicon.DeclaresBlank`: a pattern of a lexical state whose fragment matches the
  empty word;
* `Lexicon.Hollow`: the patterns that the check can be wrong about.

## Main results

* `Lexicon.build_merges`: the fault of two patterns that match the empty word;
* `Lexicon.not_nullable`: a pattern that is not hollow, and passes the check, is not among them.
-/

namespace GrammarAnalysis

namespace Lexicon

open Automaton

variable {L L' : Lexicon} {patterns : List (Nat × Bool)} {A : Automaton} {p q s : Nat}

/-! ### Faults of the construction -/

/-- The construction of a pattern never fails for two acceptances that meet. -/
theorem unmerging_expand (ignoreCase : Bool) (id : Nat) :
    Assembly.Unmerging (L.expand ignoreCase id) :=
  expandWithin_induction (fun _ _ h => nomatch h)
    (fun tree _ hexpand => Regex.not_merging_assemble hexpand tree) _ [] id

/-- Planting patterns does not merge acceptances. -/
theorem not_merging_addAll {fault : Fault} {A : Automaton}
    (h : patterns.foldlM (fun A p => L.addToAutomaton p.2 p.1 A) A = .error fault) :
    ¬ fault.IsMerging := by
  obtain ⟨p, -, B, -, h⟩ := exists_of_foldlM_eq_error (P := fun _ => True)
    (fun _ _ _ _ _ _ => trivial) trivial h
  rcases cases_of_bind_eq_error (x := L.expand p.2 p.1 B) h with h | ⟨_, -, h⟩
  · exact unmerging_expand p.2 _ B fault h
  · cases h

/-! ### The patterns that merge -/

/-- The fragment of the pattern, as it was planted, matches the empty word. -/
def Blanks (L : Lexicon) (patterns : List (Nat × Bool)) (id : Nat) : Prop :=
  ∃ ignoreCase, (id, ignoreCase) ∈ patterns ∧ ∀ tree, (L.pattern id).tree = some tree →
    tree.Expandable L.namedTree → [] ∈ tree.languageIn (L.folding ignoreCase) L.namedTree

/-- The initial state reaches what accepts the pattern only if the pattern matches the empty
word. -/
theorem Sprouted.blanks (h : L.Sprouted patterns A) {t : Nat} (ht : A.Reaches 0 t)
    (hp : (A.state t).accepts = some p) : L.Blanks patterns p := by
  obtain ⟨ignoreCase, lo, hi, f, hmem, hf, hleads⟩ := h.exists_planted (ht.leads (.refl t)) hp
  exact ⟨ignoreCase, hmem, fun tree htree hexp => (hf.leads_iff htree hexp).mp hleads⟩

/-- **Only the initial state reaches two acceptances.** -/
theorem Sprouted.merges (h : L.Sprouted patterns A) (hmerges : A.Merges s p q) :
    s = 0 ∧ p ≠ q ∧ L.Blanks patterns p ∧ L.Blanks patterns q := by
  obtain ⟨hne, ⟨t, ht, hp⟩, u, hu, hq⟩ := hmerges
  rcases Nat.eq_zero_or_pos s with rfl | hpos
  · exact ⟨rfl, hne, h.blanks ht hp, h.blanks hu hq⟩
  · refine absurd ?_ hne
    have hlt : s < A.size := by
      rcases Relation.ReflTransGen.cases_head ht with rfl | ⟨x, hx, -⟩
      · exact lt_size_of_accepts hp
      · exact hx.lt_size
    -- one does not get out of the fragment of a pattern, which accepts this pattern only
    obtain ⟨r, -, lo, hi, f, hf, hlo, hhi⟩ := h.covered s hpos hlt
    have hinside : ∀ {x pattern : Nat}, A.Reaches s x → (A.state x).accepts = some pattern →
        pattern = r.1 := fun {x pattern} hx haccepts => by
      obtain ⟨k, hk⟩ := hx.leads (.refl x)
      obtain ⟨hxlo, hxhi⟩ := hf.spells_mem hk hlo hhi
      exact ((hf.accepts_iff hxlo hxhi).mp haccepts).2
    rw [hinside ht hp, hinside hu hq]

/-- The automaton of a lexical state fails to be built with this fault only where two of its
patterns match the empty word. -/
theorem build_state_merges {S : LexicalState} (hS : S.automaton = .start)
    (h : S.build L = .error (.mergedAcceptance s p q)) :
    s = 0 ∧ p ≠ q ∧ L.Blanks (L.patternsOf S) p ∧ L.Blanks (L.patternsOf S) q := by
  rw [LexicalState.build] at h
  rcases cases_of_bind_eq_error h with h | ⟨A, hA, h⟩
  · exact absurd ⟨s, p, q, rfl⟩ (not_merging_addAll h)
  · rw [hS] at hA
    have hsprouted := (sprouted_start L).addAll hA
    rcases cases_of_bind_eq_error (x := A.prepare) h with h | ⟨_, -, h⟩
    · rcases cases_of_bind_eq_error (x := A.closeAll) h with h | ⟨_, -, h⟩
      · obtain ⟨s', p', q', heq, hmerges⟩ := closeAll_merges h
        cases heq
        exact hsprouted.merges hmerges
      · cases h
    · cases h

/-- Token production `tp` declares a pattern for lexical state `i` whose fragment matches the empty
word. -/
def DeclaresBlank (L : Lexicon) (i tp id : Nat) : Prop :=
  L.Declares i tp id ∧ ∀ tree, (L.pattern id).tree = some tree → tree.Expandable L.namedTree →
    [] ∈ tree.languageIn (L.foldsCase tp) L.namedTree

/-- **Two patterns that match the empty word** are the only reason for this fault. -/
theorem build_merges (hL : L.Unbuilt) {log : Log}
    (h : L.build log = .error (.mergedAcceptance s p q)) :
    s = 0 ∧ p ≠ q ∧ ∃ i, (∃ tp, L.DeclaresBlank i tp p) ∧ ∃ tp, L.DeclaresBlank i tp q := by
  obtain ⟨states, log₁, henter, hstates⟩ := enterUses_spec L.uses L log
  rw [build, enterTokenProductions_eq, henter] at h
  rcases cases_of_bind_eq_error
    (x := ({ L with lexicalStates := states } : Lexicon).buildStates) h with h | ⟨_, -, h⟩
  · rcases cases_of_bind_eq_error
      (x := states.toList.mapM (·.build { L with lexicalStates := states })) h with h | ⟨_, -, h⟩
    · obtain ⟨i, S, hi, h, -⟩ := mapM_eq_error_iff.mp h
      rw [Array.getElem?_toList, hstates i] at hi
      obtain ⟨s₀, hs₀, rfl⟩ := Option.map_eq_some_iff.mp hi
      obtain ⟨hs, hne, hp, hq⟩ := build_state_merges (S := L.entered L.uses i s₀) (hL.state hs₀).1 h
      have hblank : ∀ {id}, Blanks { L with lexicalStates := states }
          (({ L with lexicalStates := states } : Lexicon).patternsOf (L.entered L.uses i s₀)) id →
          ∃ tp, L.DeclaresBlank i tp id := by
        rintro id ⟨ignoreCase, hmem, hempty⟩
        obtain ⟨tp, hdeclares, rfl⟩ := (mem_patternsOf_entered hL hs₀).mp hmem
        exact ⟨tp, hdeclares, fun tree htree hexp =>
          L.folding_foldsCase tp ▸ hempty tree htree hexp⟩
      exact ⟨hs, hne, i, hblank hp, hblank hq⟩
    · cases h
  · cases h

end Lexicon

/-! ### Patterns that match the empty word -/

namespace Lexicon

variable {L : Lexicon} {id : Nat}

/-- The pattern has no tree, or the end of the input, an extra token or a repetition with several
operands in its tree; or it refers to such a pattern. -/
inductive Hollow (L : Lexicon) : Nat → Prop
  | noTree {id : Nat} : (L.pattern id).tree = none → Hollow L id
  | endOfInput {id : Nat} {tree : Regex} :
      (L.pattern id).tree = some tree → tree.Part .endOfInput → Hollow L id
  | repeated {id : Nat} {tree : Regex} {q : Quantifier} {body : Regex} {further : List Regex} :
      (L.pattern id).tree = some tree → tree.Part (.repeated q (body :: further)) → further ≠ [] →
      Hollow L id
  | extraToken {id : Nat} {tree : Regex} {name : String} :
      (L.pattern id).tree = some tree → tree.Part (.reference name) → name ∈ L.extraTokens →
      L.namedToken name = none → Hollow L id
  | refers {id target : Nat} {tree : Regex} {name : String} :
      (L.pattern id).tree = some tree → tree.Part (.reference name) →
      L.namedToken name = some target → Hollow L target → Hollow L id

/-- A name in a pattern refers to a pattern, or to an extra token: also where it is not read. -/
def Resolved (L : Lexicon) : Prop :=
  ∀ id tree name, (L.pattern id).tree = some tree → tree.Occurs (.reference name) →
    L.namedToken name = none → name ∈ L.extraTokens

/-- **A pattern that is not hollow** does not match the empty word, if the check accepts it and the
patterns that it refers to, and it does not refer to itself. -/
theorem not_nullable (hresolved : L.Resolved)
    (hacc : Acc (fun target id => L.Mentions id target) id) (hsolid : ¬ L.Hollow id)
    (hcheck : ∀ target tree, Relation.ReflTransGen L.Mentions id target →
      (L.pattern target).tree = some tree → tree.nullableWith (fun _ => false) = false) :
    ∃ tree, (L.pattern id).tree = some tree ∧ tree.Expandable L.namedTree ∧
      ∀ folding, [] ∉ tree.languageIn folding L.namedTree := by
  induction hacc with
  | intro id _ ih =>
      obtain ⟨tree, htree⟩ : ∃ tree, (L.pattern id).tree = some tree :=
        Option.ne_none_iff_exists'.mp fun hnone => hsolid (.noTree hnone)
      have htarget : ∀ name, tree.Part (.reference name) →
          ∃ tree', L.namedTree name = some tree' ∧ tree'.Expandable L.namedTree ∧
            ∀ folding, [] ∉ tree'.languageIn folding L.namedTree := fun name hname => by
        obtain ⟨target, htarget⟩ : ∃ target, L.namedToken name = some target :=
          Option.ne_none_iff_exists'.mp fun hnone =>
            hsolid (.extraToken htree hname (hresolved id tree name htree hname.occurs hnone) hnone)
        have hmentions := mentions_of_occurs htree hname.occurs htarget
        obtain ⟨tree', htree', hrest⟩ := ih target hmentions
          (fun hhollow => hsolid (.refers htree hname htarget hhollow))
          fun x t hx => hcheck x t (.head hmentions hx)
        exact ⟨tree', Option.bind_eq_some_iff.mpr ⟨target, htarget, htree'⟩, hrest⟩
      have hexp : tree.Expandable L.namedTree := by
        refine .intro (fun name hname => ?_) ?_
        · obtain ⟨tree', htree', -⟩ := htarget name hname
          rw [htree']
          rfl
        · rintro tree' ⟨name, hname, htree'⟩
          obtain ⟨_, hother, hexp, -⟩ := htarget name hname
          rwa [Option.some.inj (htree'.symm.trans hother)]
      refine ⟨tree, htree, hexp, fun folding hempty => ?_⟩
      rw [Regex.languageIn_eq hexp] at hempty
      have hnullable : tree.nullableWith fun _ => false :=
        Regex.nullableWith_of_nil_mem tree (fun name hname hnil => by
          obtain ⟨tree', htree', -, hnot⟩ := htarget name hname
          rw [Regex.wordsOf, htree'] at hnil
          exact absurd hnil (hnot folding))
          (fun q body further hpart =>
            by_contra fun hfurther => hsolid (.repeated htree hpart hfurther))
          (fun hpart => hsolid (.endOfInput htree hpart)) hempty
      rw [hcheck id tree .refl htree] at hnullable
      cases hnullable

end Lexicon

end GrammarAnalysis
