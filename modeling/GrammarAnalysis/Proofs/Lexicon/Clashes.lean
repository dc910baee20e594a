import GrammarAnalysis.Proofs.Automaton.Exactness
import GrammarAnalysis.Proofs.Lexicon.Construction
import GrammarAnalysis.Proofs.Lexicon.Merging
import GrammarAnalysis.Proofs.Lexicon.Tables

/-!
# Which Patterns Clash

Two patterns of a lexical state clash if the fragments of both can be passed without consuming
anything: the initial state then reaches both acceptances. The fragments follow each other in the
automaton in the order in which the patterns are declared, and the initial state, which is closed
first, takes them over in this order. So a build fails exactly where some lexical state has two
patterns that clash, and then it reports the first two of the first such state.

References that lead to nothing, or back to themselves, are no obstacle: what counts is the fragment
that is made.

## Main definitions

* `firstTwo`: the first element of a list and the first one different from it;
* `Lexicon.Passable`: a pattern whose fragment can be passed without consuming anything;
* `Lexicon.Lined`: the fragments of patterns, in regions that follow each other;
* `Lexicon.Constructible`: the trees of which every fragment can be made.

## Main results

* `Lexicon.Lined.foldlM_visit`: the initial state takes over the fragments one by one;
* `Lexicon.Arranged.closeAll_eq_error_iff`: where closing fails;
* `Lexicon.build_eq_error_iff`: where a build fails;
* `Lexicon.build_merges_iff`: the patterns that clash.
-/

namespace GrammarAnalysis

/-! ### The first two elements of a list -/

/-- The first element of a list, and the first one that is different from it. -/
def firstTwo : List Nat → Option (Nat × Nat)
  | [] => none
  | p :: rest => (rest.find? fun q => decide (q ≠ p)).map fun q => (p, q)

/-- A repetition of the first element makes no difference. -/
theorem firstTwo_cons_self (p : Nat) (l : List Nat) :
    firstTwo (p :: p :: l) = firstTwo (p :: l) := by
  simp [firstTwo]

/-- Two different elements at the front are the first two. -/
theorem firstTwo_of_ne {p q : Nat} (h : p ≠ q) (l : List Nat) :
    firstTwo (p :: q :: l) = some (p, q) := by
  simp [firstTwo, Ne.symm h]

/-- A further element that agrees with the first one does not count. -/
theorem firstTwo_or {a b : Option Nat} (h : ∀ r, b = some r → a.or b = some r) (l : List Nat) :
    firstTwo (a.toList ++ (b.toList ++ l)) = firstTwo ((a.or b).toList ++ l) := by
  cases a with
  | none => rfl
  | some r =>
      cases b with
      | none => rfl
      | some r' =>
          obtain rfl := Option.some.inj (h r' rfl)
          exact firstTwo_cons_self r l

/-- There are no two elements if all of them are the same. -/
theorem firstTwo_eq_none_iff {l : List Nat} :
    firstTwo l = none ↔ ∀ p ∈ l, ∀ q ∈ l, p = q := by
  cases l with
  | nil => simp [firstTwo]
  | cons r l =>
      rw [firstTwo, Option.map_eq_none_iff, List.find?_eq_none]
      simp only [decide_eq_true_eq, not_not]
      constructor
      · intro h
        have hall : ∀ p ∈ r :: l, p = r := List.forall_mem_cons.mpr ⟨rfl, h⟩
        exact fun p hp q hq => (hall p hp).trans (hall q hq).symm
      · exact fun h q hq => h q (List.mem_cons_of_mem r hq) r List.mem_cons_self

/-- The first two elements are in the list, and different. -/
theorem firstTwo_ne {l : List Nat} {p q : Nat} (h : firstTwo l = some (p, q)) :
    p ∈ l ∧ q ∈ l ∧ p ≠ q := by
  cases l with
  | nil => cases h
  | cons r l =>
      rw [firstTwo] at h
      obtain ⟨q', hq', heq⟩ := Option.map_eq_some_iff.mp h
      obtain ⟨rfl, rfl⟩ := Prod.mk.inj heq
      have hne := List.find?_some hq'
      exact ⟨List.mem_cons_self, List.mem_cons_of_mem r (List.mem_of_find?_eq_some hq'),
        fun h => of_decide_eq_true hne h.symm⟩

namespace Lexicon

open Automaton

variable {L : Lexicon} {A B C : Automaton} {patterns : List (Nat × Bool)} {starts : List Nat}
  {lo mid hi id p q s : Nat} {ignoreCase : Bool} {f : Fragment}

/-- The fragment of the pattern can be passed without consuming anything. -/
def Passable (L : Lexicon) (ignoreCase : Bool) (id : Nat) : Prop :=
  ∃ A f B, L.expand ignoreCase id A = .ok (f, B) ∧ B.Reaches f.start f.finish

open Classical in
/-- The patterns of a list that are passable, in their order. -/
noncomputable def passables (L : Lexicon) (patterns : List (Nat × Bool)) : List Nat :=
  (patterns.filter fun p => decide (L.Passable p.2 p.1)).map (·.1)

/-- The fragments of the patterns are in regions that follow each other, and have the given
starts. -/
inductive Lined (L : Lexicon) (A : Automaton) :
    (lo hi : Nat) → List (Nat × Bool) → List Nat → Prop
  | nil {lo : Nat} : Lined L A lo lo [] []
  | cons {p : Nat × Bool} {lo mid hi : Nat} {f : Fragment} {ℓ : Language Nat}
      {patterns : List (Nat × Bool)} {starts : List Nat} :
      L.Planted A p.1 p.2 lo mid f → A.Embeds ℓ False lo mid f → ([] ∈ ℓ ↔ L.Passable p.2 p.1) →
      Lined L A mid hi patterns starts →
      Lined L A lo hi (p :: patterns) (f.start :: starts)

/-- The automaton of a list of patterns, whose fragments follow each other. -/
structure Arranged (L : Lexicon) (patterns : List (Nat × Bool)) (A : Automaton)
    (starts : List Nat) : Prop extends L.Sprouted patterns A where
  lined : L.Lined A 1 A.size patterns starts
  slips_iff : ∀ y, A.Slips 0 y ↔ y ∈ starts

/-- Every repetition in a tree of the lexicon has an operand, and every class can be turned into
ranges. -/
def Constructible (L : Lexicon) : Prop :=
  ∀ id tree, (L.pattern id).tree = some tree → (∀ q, ¬ tree.Part (.dangling q)) ∧
    ∀ set negated ignoreCase, tree.Part (.chars set negated) →
      set.orderedRanges ignoreCase negated ≠ .error .overflow

/-! ### Passable patterns -/

/-- Whether a fragment can be passed does not depend on the automaton that it is added to. -/
theorem nil_mem_iff_passable {ℓ : Language Nat} (hℓ : (L.expand ignoreCase id).Makes ℓ False)
    (hf : L.expand ignoreCase id A = .ok (f, B)) : [] ∈ ℓ ↔ L.Passable ignoreCase id := by
  constructor
  · intro hnil
    exact ⟨A, f, B, hf, (((hℓ A f B hf).2.leads_iff []).mpr hnil).reaches⟩
  · rintro ⟨A', f', B', hf', hreaches⟩
    exact ((hℓ A' f' B' hf').2.leads_iff []).mp (hreaches.leads (.refl _))

/-- The passable patterns are those of the list that can be passed. -/
theorem mem_passables : p ∈ L.passables patterns ↔
    ∃ ignoreCase, (p, ignoreCase) ∈ patterns ∧ L.Passable ignoreCase p := by
  simp only [passables, List.mem_map, List.mem_filter, decide_eq_true_eq, Prod.exists,
    exists_and_right, exists_eq_right]

open Classical in
/-- The first pattern of a list comes first among the passable ones. -/
theorem passables_cons (p : Nat × Bool) (patterns : List (Nat × Bool)) : L.passables (p :: patterns)
    = (if L.Passable p.2 p.1 then some p.1 else none).toList ++ L.passables patterns := by
  by_cases h : L.Passable p.2 p.1
  · simp [passables, h]
  · simp [passables, h]

/-! ### Fragments that follow each other -/

/-- The regions of fragments in a line end behind their beginning. -/
theorem Lined.le (h : L.Lined A lo hi patterns starts) : lo ≤ hi := by
  induction h with
  | nil => exact Nat.le_refl _
  | cons _ hℓ _ _ ih =>
      have := hℓ.start_mem
      omega

/-- The starts of fragments in a line are in their regions. -/
theorem Lined.mem (h : L.Lined A lo hi patterns starts) {x : Nat} (hx : x ∈ starts) :
    lo ≤ x ∧ x < hi := by
  induction h with
  | nil => exact absurd hx List.not_mem_nil
  | cons _ hℓ _ hrest ih =>
      have hstart := hℓ.start_mem
      have hle := hrest.le
      rcases List.mem_cons.mp hx with rfl | hx
      · omega
      · have := ih hx
        omega

/-- The starts increase. -/
theorem Lined.pairwise (h : L.Lined A lo hi patterns starts) :
    starts.Pairwise fun x y => compare x y = .lt := by
  induction h with
  | nil => exact .nil
  | cons _ hℓ _ hrest ih =>
      refine List.pairwise_cons.mpr ⟨fun y hy => Nat.compare_eq_lt.mpr ?_, ih⟩
      exact Nat.lt_of_lt_of_le hℓ.start_mem.2 (hrest.mem hy).1

/-- Fragments stay in their line while their states are the same. -/
theorem Lined.congr (h : L.Lined A lo hi patterns starts) (hlo : 0 < lo) (hsize : A.size ≤ B.size)
    (hB : ∀ x, 0 < x → x < A.size → B.state x = A.state x) : L.Lined B lo hi patterns starts := by
  induction h with
  | nil => exact .nil
  | cons hf hℓ hnil _ ih =>
      have hmid := hℓ.start_mem
      have hle := hf.le_size
      exact .cons (hf.congr hsize hB)
        (hℓ.congr fun x hx hx' _ => hB x (by omega) (by omega)) hnil (ih (by omega))

/-- Two lines that follow each other make one. -/
theorem Lined.append {patterns' : List (Nat × Bool)} {starts' : List Nat}
    (h : L.Lined A lo mid patterns starts) (h' : L.Lined A mid hi patterns' starts') :
    L.Lined A lo hi (patterns ++ patterns') (starts ++ starts') := by
  induction h with
  | nil => exact h'
  | cons hf hℓ hnil _ ih => exact .cons hf hℓ hnil (ih h')

/-- At the start no fragment is in the line. -/
theorem arranged_start (L : Lexicon) : L.Arranged [] .start [] where
  toSprouted := sprouted_start L
  lined := .nil
  slips_iff := fun y => by
    rw [Slips, state_start]
    exact iff_of_false OrderedSet.not_mem_empty List.not_mem_nil

/-- One more pattern is planted, behind the others. -/
theorem Arranged.add (h : L.Arranged patterns A starts)
    (hB : L.addToAutomaton ignoreCase id A = .ok B) :
    ∃ start, L.Arranged (patterns ++ [(id, ignoreCase)]) B (starts ++ [start]) := by
  obtain ⟨f, hf⟩ := h.plants hB
  obtain ⟨ℓ, C, hmakes, hembeds, hexpand⟩ := hf.made
  refine ⟨f.start, h.toSprouted.add hB, ?_, fun y => ?_⟩
  · exact (h.lined.congr Nat.one_pos hf.lt_size.le hf.kept).append
      (.cons hf.planted hembeds (nil_mem_iff_passable hmakes hexpand) .nil)
  · rw [hf.slips_iff, h.slips_iff, List.mem_append, List.mem_singleton, or_comm]

/-- The fragments of further patterns follow those that are in the line. -/
theorem Arranged.addAll {rest planted : List (Nat × Bool)} (h : L.Arranged planted A starts)
    (hB : rest.foldlM (fun A p => L.addToAutomaton p.2 p.1 A) A = .ok B) :
    ∃ starts', L.Arranged (planted ++ rest) B starts' := by
  induction rest generalizing planted A starts with
  | nil =>
      obtain rfl : A = B := Except.ok.inj hB
      rw [List.append_nil]
      exact ⟨starts, h⟩
  | cons p rest ih =>
      obtain ⟨C, hC, hB⟩ := exists_of_bind_eq_ok hB
      obtain ⟨start, hnext⟩ := h.add hC
      obtain ⟨starts', hgrown⟩ := ih hnext hB
      rw [List.append_assoc, List.singleton_append] at hgrown
      exact ⟨starts', hgrown⟩

/-- The initial state leads to the starts, in their order. -/
theorem Arranged.epsilon_eq (h : L.Arranged patterns A starts) :
    (A.state 0).epsilon.toList = starts :=
  OrderedSet.increasing_ext (A.state 0).epsilon.increasing h.lined.pairwise h.slips_iff

/-! ### Closing the initial state -/

/-- What accepts something and is reached from the start of a fragment, without consuming anything,
is its finish. -/
theorem reaches_accepts_iff {ℓ : Language Nat} (hf : L.Planted A id ignoreCase lo hi f)
    (hℓ : A.Embeds ℓ False lo hi f) (hnil : [] ∈ ℓ ↔ L.Passable ignoreCase id) :
    (∃ t, A.Reaches f.start t ∧ (A.state t).accepts = some p) ↔
      L.Passable ignoreCase id ∧ p = id := by
  rw [← hnil, ← hf.embeds_leads_iff hℓ]
  constructor
  · rintro ⟨t, ht, hp⟩
    obtain ⟨k, hk⟩ := ht.leads (.refl t)
    obtain ⟨hlo, hhi⟩ := hf.spells_mem hk hℓ.start_mem.1 hℓ.start_mem.2
    obtain ⟨rfl, rfl⟩ := (hf.accepts_iff hlo hhi).mp hp
    exact ⟨hk.leads, rfl⟩
  · rintro ⟨hleads, rfl⟩
    exact ⟨f.finish, hleads.reaches, by rw [hf.finish_eq]⟩

open Classical in
/-- What is accepted behind the start of a fragment is its pattern, if it is passable. -/
theorem accepted_iff {ℓ : Language Nat} (hf : L.Planted A id ignoreCase lo hi f)
    (hℓ : A.Embeds ℓ False lo hi f) (hnil : [] ∈ ℓ ↔ L.Passable ignoreCase id) :
    (if L.Passable ignoreCase id then some id else none) = some p ↔
      ∃ t, A.Reaches f.start t ∧ (A.state t).accepts = some p := by
  rw [reaches_accepts_iff hf hℓ hnil]
  by_cases hpassable : L.Passable ignoreCase id
  · rw [if_pos hpassable, Option.some.injEq, eq_comm, and_iff_right hpassable]
  · rw [if_neg hpassable]
    exact iff_of_false (fun h => by cases h) fun h => hpassable h.1

/-- What is accepted behind one of the starts is a passable pattern. -/
theorem Lined.mem_passables (h : L.Lined A lo hi patterns starts) (hs : s ∈ starts) {t : Nat}
    (ht : A.Reaches s t) (hp : (A.state t).accepts = some p) : p ∈ L.passables patterns := by
  induction h with
  | nil => exact absurd hs List.not_mem_nil
  | @cons r _ _ _ f _ patterns _ hf hℓ hnil _ ih =>
      rw [passables_cons, List.mem_append]
      rcases List.mem_cons.mp hs with rfl | hs
      · obtain ⟨hpassable, rfl⟩ := (reaches_accepts_iff hf hℓ hnil).mp ⟨t, ht, hp⟩
        rw [if_pos hpassable]
        exact .inl List.mem_cons_self
      · exact .inr (ih hs)

open Classical in
/-- **The initial state takes over the fragments one by one**, in their order, until there is a
second acceptance. -/
theorem Lined.foldlM_visit {all : List (Nat × Bool)} (hA : L.Sprouted all A)
    (h : L.Lined A lo hi patterns starts) (hlo : 0 < lo) (hslips : ∀ s ∈ starts, A.Slips 0 s)
    {budget : Nat} (hbudget : (A.mark 0).pending < budget)
    (hC : Visiting A (fun _ => False) 0 A 0 C)
    (hopen : ∀ x, lo ≤ x → x < hi → (C.state x).closed = false)
    (hclash : firstTwo ((C.state 0).accepts.toList ++ L.passables patterns) = some (p, q)) :
    starts.foldlM (visit budget 0) C = .error (.mergedAcceptance 0 p q) := by
  induction h generalizing C with
  | nil =>
      cases haccepts : (C.state 0).accepts with
      | none =>
          rw [haccepts] at hclash
          cases hclash
      | some r =>
          rw [haccepts] at hclash
          cases hclash
  | @cons r lo mid hi f ℓ patterns starts hf hℓ hnil hrest ih =>
      have hstart := hℓ.start_mem
      have hle := hrest.le
      have hinside : ∀ {y : Nat}, A.Reaches f.start y → lo ≤ y ∧ y < mid := fun hy => by
        obtain ⟨k, hk⟩ := hy.leads (.refl _)
        exact hf.spells_mem hk hstart.1 hstart.2
      have haccepts : ∀ p, (if L.Passable r.2 r.1 then some r.1 else none) = some p ↔
          ∃ t, A.Reaches f.start t ∧ (A.state t).accepts = some p :=
        fun p => accepted_iff hf hℓ hnil
      rw [passables_cons] at hclash
      generalize (if L.Passable r.2 r.1 then some r.1 else none) = accepted at hclash haccepts
      have hbranch := hC.branch hA.size_pos rfl (fun x y hy => hA.slips_lt hy) hbudget
        (hslips f.start List.mem_cons_self)
        (fun y hy => hopen y (hinside hy).1 (Nat.lt_of_lt_of_le (hinside hy).2 hle))
        (fun y p q hy hmerges => by
          have hzero := (hA.merges hmerges).1
          have := (hinside hy).1
          omega)
        haccepts
      rw [List.foldlM_cons]
      rcases hbranch with ⟨p', q', hp', hq', hne, hvisit⟩ | ⟨C₁, D, hvisit, hvisited, htaken⟩
      · rw [hp', hq', Option.toList_some, Option.toList_some, List.singleton_append,
          List.singleton_append, firstTwo_of_ne hne] at hclash
        obtain ⟨rfl, rfl⟩ := Prod.mk.inj (Option.some.inj hclash)
        rw [hvisit]
        rfl
      · rw [hvisit]
        refine ih (by omega) (fun s hs => hslips s (List.mem_cons_of_mem _ hs)) hvisited.visiting
          (fun x hx hx' => ?_) ?_
        · by_contra hclosed
          rcases hvisited.reaches x (by simpa using hclosed) with hclosed | hreaches
          · rw [hopen x (by omega) hx'] at hclosed
            cases hclosed
          · have := (hinside hreaches).2
            omega
        · -- the acceptances so far and the next one are the same, if there are two
          rw [hvisited.accepts, htaken, ← firstTwo_or]
          · exact hclash
          · intro r' hr'
            rw [← htaken, ← hvisited.accepts]
            exact hvisited.taken r' (htaken.trans hr')

/-- **Where closing fails**: at the initial state, with the first two passable patterns. -/
theorem Arranged.closeAll_eq_error_iff (h : L.Arranged patterns A starts) {fault : Fault} :
    A.closeAll = .error fault ↔
      ∃ p q, fault = .mergedAcceptance 0 p q ∧ firstTwo (L.passables patterns) = some (p, q) := by
  have hfails : ∀ p q, firstTwo (L.passables patterns) = some (p, q) →
      A.closeAll = .error (.mergedAcceptance 0 p q) := fun p q hclash => by
    have hopen : ∀ x, (A.state x).closed = false := fun x => (h.plain x).2.1
    obtain ⟨rest, hrest⟩ := exists_live_eq (h.mem_live 0 h.size_pos)
    have hmark : ((A.mark 0).state 0).accepts = none := by
      rw [mark, state_modify_self h.size_pos]
      exact h.root.2
    have hfold := h.lined.foldlM_visit h.toSprouted Nat.one_pos
      (fun s hs => (h.slips_iff s).mpr hs)
      (Nat.lt_of_lt_of_le (pending_mark h.size_pos (hopen 0)) (pending_le_size A))
      ((searched_open hopen 0).visiting h.size_pos (hopen 0))
      (fun x hx _ => by
        rw [mark, state_modify_of_ne (Nat.ne_of_gt hx)]
        exact hopen x)
      (by rw [hmark]; exact hclash)
    rw [closeAll, hrest, List.foldlM_cons, close, closeWithin_eq A.size (hopen 0), h.epsilon_eq,
      hfold]
    rfl
  constructor
  · intro herror
    obtain ⟨s, p, q, rfl, hmerges⟩ := closeAll_merges herror
    have hs := (h.toSprouted.merges hmerges).1
    subst hs
    have hmem : ∀ {r : Nat}, (∃ t, A.Reaches 0 t ∧ (A.state t).accepts = some r) →
        r ∈ L.passables patterns := by
      rintro r ⟨t, ht, hr⟩
      rcases Relation.ReflTransGen.cases_head ht with rfl | ⟨x, hx, ht⟩
      · rw [h.root.2] at hr
        cases hr
      · exact h.lined.mem_passables ((h.slips_iff x).mp hx) ht hr
    cases hclash : firstTwo (L.passables patterns) with
    | none =>
        exact absurd (firstTwo_eq_none_iff.mp hclash p (hmem hmerges.own) q (hmem hmerges.reached))
          hmerges.ne
    | some pair =>
        rw [hfails pair.1 pair.2 hclash] at herror
        obtain ⟨-, rfl, rfl⟩ := Fault.mergedAcceptance.inj (Except.error.inj herror)
        exact ⟨pair.1, pair.2, rfl, rfl⟩
  · rintro ⟨p, q, rfl, hclash⟩
    exact hfails p q hclash

/-! ### Building a lexicon -/

section Build

/-- What a tree of the lexicon leads to is a tree of the lexicon. -/
theorem exists_pattern_of_refers {tree tree' : Regex} (htree : (L.pattern id).tree = some tree)
    (h : Relation.ReflTransGen (Regex.Refers L.namedTree) tree tree') :
    ∃ id', (L.pattern id').tree = some tree' := by
  induction h with
  | refl => exact ⟨id, htree⟩
  | tail _ hrefers _ =>
      obtain ⟨name, -, hname⟩ := hrefers
      obtain ⟨target, -, htarget⟩ := Option.bind_eq_some_iff.mp hname
      exact ⟨target, htarget⟩

/-- The fragment of every pattern can be made. -/
theorem Constructible.expand_ne_error (hL : L.Constructible) (fault : Fault) :
    L.expand ignoreCase id A ≠ .error fault := by
  intro hfault
  cases htree : (L.pattern id).tree with
  | none =>
      rw [expand, expandWithin_of_mem (.inl htree)] at hfault
      cases hfault
  | some tree =>
      have hwhole : tree.Whole L.namedTree := fun tree' hrefers => by
        obtain ⟨id', htree'⟩ := exists_pattern_of_refers htree hrefers
        exact (hL id' tree' htree').1
      obtain ⟨rfl, tree', hrefers, set, negated, hclass, hoverflow⟩ :=
        faults_expandWithin hwhole _ [] id tree htree .refl A fault hfault
      obtain ⟨id', htree'⟩ := exists_pattern_of_refers htree hrefers
      exact (hL id' tree' htree').2 set negated ignoreCase hclass hoverflow

/-- **Where a lexical state fails to be built**: at the first two patterns that clash. -/
theorem Constructible.build_state_eq_error_iff (hL : L.Constructible) {S : LexicalState}
    (hS : S.automaton = .start) {fault : Fault} :
    S.build L = .error fault ↔ ∃ p q, fault = .mergedAcceptance 0 p q ∧
      firstTwo (L.passables (L.patternsOf S)) = some (p, q) := by
  rw [LexicalState.build, hS]
  cases hA : (L.patternsOf S).foldlM (fun A p => L.addToAutomaton p.2 p.1 A) .start with
  | error fault' =>
      obtain ⟨p, -, B, -, hfault⟩ := exists_of_foldlM_eq_error (P := fun _ => True)
        (fun _ _ _ _ _ _ => trivial) trivial hA
      rcases cases_of_bind_eq_error (x := L.expand p.2 p.1 B) hfault with hfault | ⟨_, -, hfault⟩
      · exact absurd hfault (hL.expand_ne_error fault')
      · cases hfault
  | ok A =>
      obtain ⟨starts, harranged⟩ := (arranged_start L).addAll hA
      have hprepare : A.prepare = .error fault ↔ A.closeAll = .error fault :=
        bind_eq_error_iff fun B => ⟨_, rfl⟩
      exact (bind_eq_error_iff (x := A.prepare) fun B => ⟨_, rfl⟩).trans
        (hprepare.trans harranged.closeAll_eq_error_iff)

/-- The passable patterns of lexical state `i`, in the order in which they are declared. -/
noncomputable def passablesOf (L : Lexicon) (i : Nat) (S : LexicalState) : List Nat :=
  L.passables (L.patternsOf (L.entered L.uses i S))

/-- Patterns `p` and `q` are the first two that clash, in the first lexical state that has such
patterns. -/
def FirstClash (L : Lexicon) (p q : Nat) : Prop :=
  ∃ i S, L.lexicalStates[i]? = some S ∧ firstTwo (L.passablesOf i S) = some (p, q) ∧
    ∀ j < i, ∀ T, L.lexicalStates[j]? = some T → firstTwo (L.passablesOf j T) = none

/-- The expansion of a pattern does not depend on the lexical states. -/
theorem expandWithin_withStates (states : Array LexicalState) (budget : Nat) :
    ∀ (expanding : List Nat) (id : Nat),
      ({ L with lexicalStates := states } : Lexicon).expandWithin ignoreCase budget expanding id
        = L.expandWithin ignoreCase budget expanding id := by
  induction budget with
  | zero => exact fun _ _ => rfl
  | succ budget ih =>
      intro expanding id
      by_cases hstop : (L.pattern id).tree = none ∨ id ∈ expanding
      · rw [expandWithin_of_mem hstop]
        exact expandWithin_of_mem hstop
      · obtain ⟨htree, hid⟩ := not_or.mp hstop
        obtain ⟨tree, htree⟩ := Option.ne_none_iff_exists'.mp htree
        have hnames : ({ L with lexicalStates := states } : Lexicon).expandName ignoreCase budget
            (id :: expanding) = L.expandName ignoreCase budget (id :: expanding) := by
          funext name A
          rw [expandName, expandName]
          have hnamed : ({ L with lexicalStates := states } : Lexicon).namedToken name
              = L.namedToken name := rfl
          rw [hnamed]
          cases L.namedToken name with
          | none => rfl
          | some target => exact congrFun (ih (id :: expanding) target) A
        rw [expandWithin_of_not_mem htree hid, ← hnames]
        exact expandWithin_of_not_mem (L := { L with lexicalStates := states }) htree hid

/-- Whether a pattern is passable does not depend on the lexical states. -/
theorem passables_withStates (states : Array LexicalState) (patterns : List (Nat × Bool)) :
    ({ L with lexicalStates := states } : Lexicon).passables patterns = L.passables patterns := by
  have hpassable : ∀ ignoreCase id,
      ({ L with lexicalStates := states } : Lexicon).Passable ignoreCase id
        = L.Passable ignoreCase id := fun ignoreCase id => by
    rw [Passable, expand, expandWithin_withStates]
    rfl
  refine congrArg (List.map _) (List.filter_congr fun p _ => decide_eq_decide.mpr ?_)
  rw [hpassable]

/-- **Where a build fails**: only where two patterns clash, and at the first two. -/
theorem build_eq_error_iff (hL : L.Unbuilt) (hmade : L.Constructible) (log : Log) {fault : Fault} :
    L.build log = .error fault ↔ ∃ p q, fault = .mergedAcceptance 0 p q ∧ L.FirstClash p q := by
  obtain ⟨states, log₁, henter, hstates⟩ := enterUses_spec L.uses L log
  have hbuild : L.build log = .error fault ↔
      states.toList.mapM (·.build { L with lexicalStates := states }) = .error fault := by
    rw [build, enterTokenProductions_eq, henter]
    exact (bind_eq_error_iff (x := ({ L with lexicalStates := states } : Lexicon).buildStates)
      fun _ => ⟨_, rfl⟩).trans (bind_eq_error_iff fun _ => ⟨_, rfl⟩)
  have hfails : ∀ i T, L.lexicalStates[i]? = some T → ∀ fault,
      (L.entered L.uses i T).build { L with lexicalStates := states } = .error fault ↔
        ∃ p q, fault = .mergedAcceptance 0 p q ∧ firstTwo (L.passablesOf i T) = some (p, q) :=
    fun i T hT fault => by
      rw [passablesOf, ← passables_withStates states]
      exact Constructible.build_state_eq_error_iff (L := { L with lexicalStates := states }) hmade
        (S := L.entered L.uses i T) (hL.state hT).1
  have hstate : ∀ i : Nat, states.toList[i]? = (L.lexicalStates[i]?).map (L.entered L.uses i) :=
    fun i => by rw [Array.getElem?_toList, hstates i]
  rw [hbuild, mapM_eq_error_iff]
  constructor
  · rintro ⟨i, S, hS, hfault, hearlier⟩
    rw [hstate] at hS
    obtain ⟨T, hT, rfl⟩ := Option.map_eq_some_iff.mp hS
    obtain ⟨p, q, rfl, hclash⟩ := (hfails i T hT fault).mp hfault
    refine ⟨p, q, rfl, i, T, hT, hclash, fun j hj T' hT' => ?_⟩
    obtain ⟨built, hbuilt⟩ := hearlier j hj _ (by rw [hstate, hT']; rfl)
    by_contra hsome
    obtain ⟨pair, hpair⟩ := Option.ne_none_iff_exists'.mp hsome
    rw [(hfails j T' hT' _).mpr ⟨pair.1, pair.2, rfl, hpair⟩] at hbuilt
    cases hbuilt
  · rintro ⟨p, q, rfl, i, T, hT, hclash, hearlier⟩
    refine ⟨i, _, by rw [hstate, hT]; rfl, (hfails i T hT _).mpr ⟨p, q, rfl, hclash⟩,
      fun j hj S hS => ?_⟩
    rw [hstate] at hS
    obtain ⟨T', hT', rfl⟩ := Option.map_eq_some_iff.mp hS
    cases hbuilt : (L.entered L.uses j T').build { L with lexicalStates := states } with
    | ok built => exact ⟨built, rfl⟩
    | error fault' =>
        obtain ⟨p', q', -, hclash'⟩ := (hfails j T' hT' fault').mp hbuilt
        rw [hearlier j hj T' hT'] at hclash'
        cases hclash'

/-- The passable patterns of a lexical state are those declared for it that can be passed. -/
theorem mem_passablesOf (hL : L.Unbuilt) {i : Nat} {S : LexicalState}
    (hS : L.lexicalStates[i]? = some S) :
    p ∈ L.passablesOf i S ↔ ∃ tp, L.Declares i tp p ∧ L.Passable (L.foldsCase tp) p := by
  rw [passablesOf, mem_passables]
  constructor
  · rintro ⟨ignoreCase, hmem, hpassable⟩
    obtain ⟨tp, hdeclares, rfl⟩ := (mem_patternsOf_entered hL hS).mp hmem
    exact ⟨tp, hdeclares, hpassable⟩
  · rintro ⟨tp, hdeclares, hpassable⟩
    exact ⟨_, (mem_patternsOf_entered hL hS).mpr ⟨tp, hdeclares, rfl⟩, hpassable⟩

/-- If there are patterns that clash, there are first ones. -/
theorem exists_firstClash {i : Nat} : ∀ {S : LexicalState}, L.lexicalStates[i]? = some S →
    firstTwo (L.passablesOf i S) ≠ none → ∃ p q, L.FirstClash p q := by
  induction i using Nat.strong_induction_on with
  | _ i ih =>
      intro S hS hsome
      by_cases hearlier : ∃ j < i, ∃ T, L.lexicalStates[j]? = some T ∧
          firstTwo (L.passablesOf j T) ≠ none
      · obtain ⟨j, hj, T, hT, hT'⟩ := hearlier
        exact ih j hj hT hT'
      · obtain ⟨pair, hpair⟩ := Option.ne_none_iff_exists'.mp hsome
        exact ⟨pair.1, pair.2, i, S, hS, hpair, fun j hj T hT =>
          not_not.mp fun hT' => hearlier ⟨j, hj, T, hT, hT'⟩⟩

/-- **The patterns that clash.** A build merges acceptances exactly if some lexical state has two
distinct patterns that are passable. Then it fails at the initial state of the first such lexical
state, with the first two of its passable patterns, in the order in which they are declared. -/
theorem build_merges_iff (hL : L.Unbuilt) (hmade : L.Constructible) (log : Log) :
    ((∃ s p q, L.build log = .error (.mergedAcceptance s p q)) ↔
      ∃ i tp tp' p q, p ≠ q ∧ L.Declares i tp p ∧ L.Passable (L.foldsCase tp) p ∧
        L.Declares i tp' q ∧ L.Passable (L.foldsCase tp') q) ∧
    ∀ s p q, L.build log = .error (.mergedAcceptance s p q) → s = 0 ∧ L.FirstClash p q := by
  refine ⟨⟨?_, ?_⟩, fun s p q h => ?_⟩
  · rintro ⟨s, p, q, h⟩
    obtain ⟨p, q, -, i, S, hS, hclash, -⟩ := (build_eq_error_iff hL hmade log).mp h
    obtain ⟨hp, hq, hne⟩ := firstTwo_ne hclash
    obtain ⟨tp, hdeclares, hpassable⟩ := (mem_passablesOf hL hS).mp hp
    obtain ⟨tp', hdeclares', hpassable'⟩ := (mem_passablesOf hL hS).mp hq
    exact ⟨i, tp, tp', p, q, hne, hdeclares, hpassable, hdeclares', hpassable'⟩
  · rintro ⟨i, tp, tp', p, q, hne, hdeclares, hpassable, hdeclares', hpassable'⟩
    obtain ⟨S, hS⟩ := hdeclares.exists_state
    have hsome : firstTwo (L.passablesOf i S) ≠ none := fun hnone =>
      hne (firstTwo_eq_none_iff.mp hnone p ((mem_passablesOf hL hS).mpr ⟨tp, hdeclares, hpassable⟩)
        q ((mem_passablesOf hL hS).mpr ⟨tp', hdeclares', hpassable'⟩))
    obtain ⟨p', q', hclash⟩ := exists_firstClash hS hsome
    exact ⟨0, p', q', (build_eq_error_iff hL hmade log).mpr ⟨p', q', rfl, hclash⟩⟩
  · obtain ⟨p', q', heq, hclash⟩ := (build_eq_error_iff hL hmade log).mp h
    obtain ⟨rfl, rfl, rfl⟩ := Fault.mergedAcceptance.inj heq
    exact ⟨rfl, hclash⟩

end Build

/-- A lexicon of three tokens of one lexical state: a literal, a pattern that is a reference to
itself, and a pattern without a tree. -/
def cyclicReference : Lexicon :=
  { patterns := #[{ givenLabel := "EOF", ordinal := some 0, tree := some .endOfInput },
      { givenLabel := "A", tree := some (.text "x"), production := some 0 },
      { givenLabel := "B", tree := some (.reference "B"), production := some 0 },
      { givenLabel := "C", tree := none, production := some 0 }]
    ordinals := #[0]
    tokenProductions := #[{ lexicalStates := [defaultLexicalState],
                            entries := [{ pattern := 1 }, { pattern := 2 }, { pattern := 3 }] }]
    lexicalStates := #[{ name := defaultLexicalState }]
    namedTokens := [("A", 1), ("B", 2), ("C", 3)] }

/-- Nothing of `cyclicReference` has been built. -/
theorem unbuilt_cyclicReference : cyclicReference.Unbuilt := by
  intro s hs
  obtain rfl := List.mem_singleton.mp hs
  exact ⟨rfl, rfl⟩

/-- The trees of `cyclicReference` can be constructed. -/
theorem constructible_cyclicReference : cyclicReference.Constructible := by
  intro id tree htree
  have hlt : id < 4 := lt_size_of_tree htree
  have htrees : tree = .endOfInput ∨ tree = .text "x" ∨ tree = .reference "B" := by
    match id, hlt with
    | 0, _ => exact .inl (Option.some.inj htree).symm
    | 1, _ => exact .inr (.inl (Option.some.inj htree).symm)
    | 2, _ => exact .inr (.inr (Option.some.inj htree).symm)
    | 3, _ => cases htree
  rcases htrees with rfl | rfl | rfl
  all_goals exact ⟨fun q hq => (nomatch hq), fun _ _ _ hclass => (nomatch hclass)⟩

/-- The reference to itself and the pattern without a tree clash. -/
theorem build_merges_iff_cyclicReference :
    cyclicReference.Unbuilt ∧ cyclicReference.Constructible ∧
      cyclicReference.build {} = .error (.mergedAcceptance 0 2 3) ∧
      cyclicReference.FirstClash 2 3 := by
  have hfault : cyclicReference.build {} = .error (.mergedAcceptance 0 2 3) := by
    have htest : (match cyclicReference.build {} with
        | .error fault => some fault
        | .ok _ => none) = some (.mergedAcceptance 0 2 3) := by decide +kernel
    split at htest
    · rename_i fault hfault
      rw [hfault, Option.some.inj htest]
    · cases htest
  exact ⟨unbuilt_cyclicReference, constructible_cyclicReference, hfault,
    ((build_merges_iff unbuilt_cyclicReference constructible_cyclicReference {}).2 0 2 3 hfault).2⟩

end Lexicon

end GrammarAnalysis
