import GrammarAnalysis.Proofs.Automaton.Faults
import GrammarAnalysis.Proofs.Lexicon.Expansion

/-!
# The Fragment of a Pattern

The construction adds the fragment of a pattern in fresh states. Nothing leads into the fragment or
out of it, and nothing leads on from its finish, so a word is spelled on the way from its start to
its finish exactly if the tree of the pattern, with its names expanded, has the word.

There is such a fragment for every pattern whose repetitions have operands and whose names resolve
without coming by themselves again, unless a class in it cannot be turned into ranges.

## Main definitions

* `Regex.Whole`: every repetition has an operand;
* `Regex.Overflows`: some class cannot be turned into ranges;
* `Automaton.Steps`: the edges and the moves of an automaton;
* `Automaton.Isolates`: a fragment in fresh states that nothing enters or leaves.

## Main results

* `Lexicon.faults_expandWithin`: the construction fails only at such a class;
* `Lexicon.expand_spells_language`: the fragment spells the words of the pattern.
-/

namespace GrammarAnalysis

namespace Regex

/-- Every repetition has an operand, in the tree and in what its names stand for. -/
def Whole (named : String → Option Regex) (r : Regex) : Prop :=
  ∀ tree, Relation.ReflTransGen (Refers named) r tree → ∀ q, ¬ tree.Part (.dangling q)

/-- Some class cannot be turned into ranges, in the tree or in what its names stand for. -/
def Overflows (ignoreCase : Bool) (named : String → Option Regex) (r : Regex) : Prop :=
  ∃ tree, Relation.ReflTransGen (Refers named) r tree ∧ ∃ set negated,
    tree.Part (.chars set negated) ∧ set.orderedRanges ignoreCase negated = .error .overflow

end Regex

namespace Automaton

variable {A B : Automaton} {f : Fragment}

/-- One gets from state `x` to state `y` in one step, with or without consuming something. -/
def Steps (A : Automaton) (x y : Nat) : Prop := A.Slips x y ∨ ∃ c, A.enters x c = some y

/-- Every step leads to a state of the automaton. -/
def Contained (A : Automaton) : Prop := ∀ x y, A.Steps x y → y < A.size

/-- The fragment is in the states of `B` that `A` does not have. The states of `A` are as they
were, no step enters the fragment or leaves it, and nothing leads on from its finish. -/
structure Isolates (A B : Automaton) (f : Fragment) : Prop where
  start_mem : A.size ≤ f.start ∧ f.start < B.size
  finish_mem : A.size ≤ f.finish ∧ f.finish < B.size
  state_eq : ∀ x, x < A.size → B.state x = A.state x
  leaves : ∀ x y, A.size ≤ x → B.Steps x y → A.size ≤ y ∧ y < B.size
  enters : A.Contained → ∀ x y, x < A.size → B.Steps x y → y < A.size
  finish_stuck : ∀ y, ¬ B.Steps f.finish y

/-- Only states of the automaton have edges. -/
theorem Steps.lt_size {x y : Nat} (h : A.Steps x y) : x < A.size := by
  rcases h with h | ⟨c, h⟩
  · exact h.lt_size
  · exact lt_size_of_enters h

/-- Where the edges of a state lead depends on the state only. -/
theorem steps_congr {x y : Nat} (h : B.state x = A.state x) : B.Steps x y ↔ A.Steps x y := by
  simp only [Steps, slips_congr h, enters_congr h]

/-- The edges of a state that stays in a region lead into the region. -/
theorem Stays.steps {lo hi x y : Nat} (h : A.Stays lo hi x) (hstep : A.Steps x y) :
    lo ≤ y ∧ y < hi := by
  rcases hstep with hstep | ⟨c, hstep⟩
  · exact h.slips y hstep
  · exact h.enters c y hstep

/-- A fresh state has no edges. -/
theorem Forks.not_steps {x y : Nat} (h : A.Forks x []) : ¬ A.Steps x y := by
  rintro (hstep | ⟨c, hstep⟩)
  · exact absurd ((h.slips_iff y).mp hstep) List.not_mem_nil
  · rw [h.not_enters] at hstep
    cases hstep

/-- A sealed fragment that extends an automaton is isolated. -/
theorem Extends.isolates (h : A.Extends B) (hf : B.Sealed A.size B.size f) : A.Isolates B f where
  start_mem := hf.start_mem
  finish_mem := hf.finish_mem
  state_eq := h.state_eq
  leaves := fun x _ hx hstep => (hf.stays x hx hstep.lt_size).steps hstep
  enters := fun hA x y hx hstep => hA x y ((steps_congr (h.state_eq x hx)).mp hstep)
  finish_stuck := fun _ => hf.fresh.not_steps

/-- The automaton at the start has no edges that could leave it. -/
theorem contained_start : start.Contained := fun x y hstep => by
  obtain rfl : x = 0 := Nat.lt_one_iff.mp hstep.lt_size
  exact absurd hstep (forks_nil_iff.mpr rfl).not_steps

/-- An automaton without steps to states that do not exist stays such an automaton. -/
theorem Isolates.contained (h : A.Isolates B f) (hA : A.Contained) : B.Contained := by
  intro x y hstep
  rcases Nat.lt_or_ge x A.size with hx | hx
  · have hy := h.enters hA x y hx hstep
    have := h.start_mem
    omega
  · exact (h.leaves x y hx hstep).2

end Automaton

namespace Lexicon

open Automaton Regex

variable {L : Lexicon} {ignoreCase : Bool} {tree : Regex}

/-- The expansion of what a tree leads to fails only at a class that cannot be turned into
ranges. -/
theorem faults_expandWithin (hwhole : tree.Whole L.namedTree) (budget : Nat) :
    ∀ (expanding : List Nat) (id : Nat) (t : Regex), (L.pattern id).tree = some t →
      Relation.ReflTransGen (Refers L.namedTree) tree t →
      Assembly.Faults (L.expandWithin ignoreCase budget expanding id) fun fault =>
        fault = .overflow ∧ tree.Overflows ignoreCase L.namedTree := by
  induction budget with
  | zero => exact fun _ _ _ _ _ A fault hfault => by cases hfault
  | succ budget ih =>
      intro expanding id t ht hreach
      by_cases hid : id ∈ expanding
      · rw [expandWithin_of_mem (.inr hid)]
        exact fun A fault hfault => by cases hfault
      · rw [expandWithin_of_not_mem ht hid]
        refine faults_assemble t ⟨fun name hname A fault hfault => ?_,
          fun set negated fault hclass hfault => ?_, fun q hq => absurd hq (hwhole t hreach q)⟩
        · rw [expandName] at hfault
          split at hfault
          · cases hfault
          · next target htarget =>
            cases htree : (L.pattern target).tree with
            | none =>
                cases budget with
                | zero => cases hfault
                | succ budget =>
                    rw [expandWithin_of_mem (.inl htree)] at hfault
                    cases hfault
            | some t' =>
                have hrefers : Refers L.namedTree t t' :=
                  ⟨name, hname, by rw [namedTree, htarget]; exact htree⟩
                exact ih _ target t' htree (hreach.tail hrefers) A fault hfault
        · obtain rfl := CharSet.orderedRanges_eq_error hfault
          exact ⟨rfl, t, hreach, set, negated, hclass, hfault⟩

/-- **The fragment of a pattern** spells the words of its tree: where every repetition has an
operand and the names resolve without coming by themselves again, a fragment is added in fresh
states, which no step enters or leaves and from whose finish nothing leads on, and the words on the
way from its start to its finish are those of the tree: the words of `Regex.language`, where a name
has the words of the tree that it stands for (`Regex.languageIn_eq`), and where the texts are
matched without regard to case as well if case is ignored in the whole lexicon (`Lexicon.folding`).
The construction fails only if some class of the expanded tree cannot be turned into ranges. -/
theorem expand_spells_language {id : Nat} (htree : (L.pattern id).tree = some tree)
    (hwhole : tree.Whole L.namedTree) (hexp : tree.Expandable L.namedTree) (A : Automaton) :
    (∃ f B, L.expand ignoreCase id A = .ok (f, B) ∧
      (∀ w, B.Leads f.start f.finish w ↔ w ∈ tree.languageIn (L.folding ignoreCase) L.namedTree) ∧
      A.Isolates B f ∧ (A.Contained → B.Contained)) ∨
    L.expand ignoreCase id A = .error .overflow ∧ tree.Overflows ignoreCase L.namedTree := by
  cases hexpand : L.expand ignoreCase id A with
  | ok made =>
      obtain ⟨f, B⟩ := made
      obtain ⟨hextends, hrealizes⟩ := makes_expand hexp htree A f B hexpand
      have hisolates := hextends.isolates hrealizes.isSealed
      exact .inl ⟨f, B, rfl, hrealizes.leads_iff, hisolates, hisolates.contained⟩
  | error fault =>
      obtain ⟨rfl, hoverflows⟩ := faults_expandWithin hwhole _ [] id tree htree .refl A fault
        hexpand
      exact .inr ⟨rfl, hoverflows⟩

/-- A lexicon with a named digit, and a pattern that uses it twice. -/
def twoDigits : Lexicon :=
  { patterns := #[{ givenLabel := "EOF", ordinal := some 0, tree := some .endOfInput },
      { givenLabel := "DIGIT", tree := some (.text "0") },
      { givenLabel := "NUMBER", tree := some (.concat
          [.reference "DIGIT", .quantified (.times 0 none) (.reference "DIGIT")]) }]
    ordinals := #[0]
    namedTokens := [("DIGIT", 1)] }

/-- The fragment of `NUMBER` has the words of its tree. Each use of `DIGIT` has states of its
own. -/
theorem expand_spells_language_twoDigits :
    let tree := Regex.concat [.reference "DIGIT", .quantified (.times 0 none) (.reference "DIGIT")]
    (twoDigits.pattern 2).tree = some tree ∧ tree.Whole twoDigits.namedTree ∧
      tree.Expandable twoDigits.namedTree ∧
      ∃ f B, twoDigits.expand false 2 .start = .ok (f, B) ∧
        (∀ w, B.Leads f.start f.finish w ↔ w ∈ tree.languageIn false twoDigits.namedTree) ∧
        Automaton.start.Isolates B f ∧ B.Contained := by
  intro tree
  have hrefers : ∀ t, Refers twoDigits.namedTree tree t → t = .text "0" := by
    rintro t ⟨name, hname, ht⟩
    have hmem : name ∈ ["DIGIT", "DIGIT"] := mem_references hname
    obtain rfl : name = "DIGIT" := by simpa using hmem
    exact (Option.some.inj ht).symm
  have hleaf : (Regex.text "0").Expandable twoDigits.namedTree :=
    expandable_of_references_eq_nil rfl
  have hexp : tree.Expandable twoDigits.namedTree := by
    refine .intro (fun name hname => ?_) fun t ht => hrefers t ht ▸ hleaf
    have hmem : name ∈ ["DIGIT", "DIGIT"] := mem_references hname
    obtain rfl : name = "DIGIT" := by simpa using hmem
    rfl
  have hwhole : tree.Whole twoDigits.namedTree := by
    intro t ht q hq
    rcases Relation.ReflTransGen.cases_head ht with rfl | ⟨s, hs, hst⟩
    · simp only [tree] at hq
      cases hq with
      | concat hr hpart =>
          rcases List.mem_pair.mp hr with rfl | rfl
          · cases hpart
          · cases hpart with
            | repeated hpart => cases hpart
    · obtain rfl := hrefers s hs
      rcases Relation.ReflTransGen.cases_head hst with rfl | ⟨u, ⟨name, hname, -⟩, -⟩
      · cases hq
      · cases hname
  have hok : (twoDigits.expand false 2 .start).toBool = true := by decide +kernel
  have htree : (twoDigits.pattern 2).tree = some tree := rfl
  refine ⟨htree, hwhole, hexp, ?_⟩
  rcases expand_spells_language htree hwhole hexp .start with
    ⟨f, B, hB, hleads, hisolates, hcontained⟩ | ⟨herror, -⟩
  · exact ⟨f, B, hB, hleads, hisolates, hcontained contained_start⟩
  · rw [herror] at hok
    cases hok

end Lexicon

end GrammarAnalysis
