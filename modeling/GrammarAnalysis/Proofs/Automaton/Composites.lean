import GrammarAnalysis.Proofs.Automaton.Recognition

/-!
# Composite States

Once an automaton is closed, a state whose closure has several states is replaced by the composite
state of that set. The composites are made one after another, while the states are replaced, and
each is entered into a table under its set, where it is found the next time that the set comes up.

The closures do not change any more, so what is found under a closure stays the composite of that
closure: there is one for each closure of several states, and there is only one.

## Main definitions

* `Automaton.Unnumbered`: a closed automaton, before its states are replaced and numbered;
* `Automaton.Condenses`: what replacing states leaves as it was;
* `Automaton.Housed`, `Automaton.Catalogued`: the table of the composites, from either side.

## Main results

* `Automaton.addComposites_condenses`: no composite is missing after all states were replaced;
* `Automaton.addComposites_catalogued`: no composite is there twice;
* `Automaton.members_canonical`: the composite that stands for a state.
-/

namespace GrammarAnalysis

namespace Automaton

/-- A closed automaton whose states have not been replaced or numbered, and in which a state with
moves is alone in its closure. -/
structure Unnumbered (A : Automaton) : Prop where
  composites_eq : A.composites = []
  plain : ∀ x, (A.state x).members = none
  index_eq : ∀ x, (A.state x).index = none
  mem_live : ∀ x, x < A.size → x ∈ A.live
  initial_lt : A.initial < A.size
  slips_lt : ∀ x y, A.Slips x y → y < A.size
  enters_lt : ∀ x c y, A.enters x c = some y → y < A.size
  alone : ∀ x, (A.state x).hasMoves → (A.state x).epsilon = .singleton x

variable {A B C : Automaton}

/-! ### Composites -/

/-- No composite is missing for the closure of the state. -/
def Represented (A : Automaton) (x : Nat) : Prop :=
  (A.state x).epsilon.size ≤ 1 ∨ ∃ id, A.composites.lookup (A.state x).epsilon = some id

/-- `B` is `A`, with some states replaced by the composites of their closures. -/
structure Condenses (A B : Automaton) : Prop where
  keeps : A.Keeps B
  initial_eq : B.initial = A.initial
  index_eq : ∀ x, (B.state x).index = (A.state x).index
  lookup : ∀ set id, A.composites.lookup set = some id → B.composites.lookup set = some id
  live : ∀ x ∈ A.live, ((A.state x).isComposite ∨ (A.state x).epsilon = .singleton x) → x ∈ B.live

/-- The composite states are live, and have their members. -/
structure Housed (A : Automaton) : Prop where
  composed : A.Composed
  live : ∀ set id, (set, id) ∈ A.composites → id ∈ A.live

/-- An automaton condenses itself. -/
theorem Condenses.refl (A : Automaton) : A.Condenses A where
  keeps := .refl A
  initial_eq := rfl
  index_eq := fun _ => rfl
  lookup := fun _ _ h => h
  live := fun _ h _ => h

/-- Only states of the automaton are composite. -/
theorem lt_size_of_isComposite {x : Nat} (h : (A.state x).isComposite) : x < A.size :=
  lt_size_of_state (P := fun s => s.isComposite) h Bool.false_ne_true

/-- A composite state stays one while the states are kept. -/
theorem Keeps.isComposite (h : A.Keeps B) {x : Nat} (hx : (A.state x).isComposite) :
    (B.state x).isComposite := by
  rw [State.isComposite, h.members_eq (lt_size_of_isComposite hx)]
  exact hx

/-- Replacing states step by step replaces them. -/
theorem Condenses.trans (h : A.Condenses B) (h' : B.Condenses C) : A.Condenses C where
  keeps := h.keeps.trans h'.keeps
  initial_eq := h'.initial_eq.trans h.initial_eq
  index_eq := fun x => (h'.index_eq x).trans (h.index_eq x)
  lookup := fun set id hid => h'.lookup set id (h.lookup set id hid)
  live := fun x hx hstay => h'.live x (h.live x hx hstay) <|
    hstay.imp h.keeps.isComposite fun hx => by rw [h.keeps.epsilon_eq, hx]

/-- A state that is represented stays so. -/
theorem Condenses.represented (h : A.Condenses B) {x : Nat} (hx : A.Represented x) :
    B.Represented x := by
  rw [Represented, h.keeps.epsilon_eq]
  exact hx.imp_right fun ⟨id, hid⟩ => ⟨id, h.lookup _ id hid⟩

/-- A new entry hides none of the others. -/
theorem lookup_cons_of_lookup {α β : Type} [BEq α] [LawfulBEq α] {l : List (α × β)} {a a' : α}
    {b b' : β} (hnew : l.lookup a = none) (h : l.lookup a' = some b') :
    ((a, b) :: l).lookup a' = some b' := by
  have hne : (a' == a) = false := by
    rw [beq_eq_false_iff_ne]
    rintro rfl
    rw [hnew] at h
    cases h
  rw [List.lookup_cons, hne]
  exact h

/-- The composite of a set is found afterwards. -/
theorem compositeOf_condenses (hA : A.Housed) (set : OrderedSet Nat) :
    A.Condenses (A.compositeOf set).2 ∧ (A.compositeOf set).2.Housed ∧
      (A.compositeOf set).2.composites.lookup set = some (A.compositeOf set).1 := by
  obtain ⟨hkeeps, hcomposed, hinitial, -⟩ := compositeOf_spec hA.composed set
  rw [compositeOf] at hkeeps hcomposed hinitial ⊢
  cases hlookup : A.composites.lookup set with
  | some id => exact ⟨.refl A, hA, hlookup⟩
  | none =>
      simp only [hlookup] at hkeeps hcomposed hinitial
      refine ⟨⟨hkeeps, hinitial, fun x => ?_, fun set' id hid => ?_, fun x hx _ => ?_⟩,
        ⟨hcomposed, fun set' id hmem => ?_⟩, List.lookup_cons_self⟩
      · change ((A.addState { members := some set }).2.state x).index = _
        rw [state_addState]
        split
        · rename_i hx
          rw [hx, state_of_size_le (Nat.le_refl _)]
        · rfl
      · exact lookup_cons_of_lookup hlookup hid
      · exact OrderedSet.mem_insert.mpr (.inr hx)
      · rcases List.mem_cons.mp hmem with heq | hmem
        · obtain ⟨rfl, rfl⟩ := Prod.mk.inj heq
          exact OrderedSet.mem_insert.mpr (.inl rfl)
        · exact OrderedSet.mem_insert.mpr (.inr (hA.live set' id hmem))

/-- What stands for a state whose closure is represented: nothing else if the closure is empty, the
only state of the closure, or its composite. -/
theorem canonical_cases {x : Nat} (hplain : (A.state x).members = none) (h : A.Represented x) :
    A.canonical x = x ∧ (A.state x).epsilon.toList = [] ∨
      (A.state x).epsilon.toList = [A.canonical x] ∨
      A.composites.lookup (A.state x).epsilon = some (A.canonical x) := by
  have hsingle : (A.state x).isComposite = false := by rw [State.isComposite, hplain]; rfl
  rw [canonical, hsingle]
  cases hlist : (A.state x).epsilon.toList with
  | nil => exact .inl ⟨by simp, rfl⟩
  | cons y rest =>
      cases rest with
      | nil => exact .inr (.inl (by simp))
      | cons z rest =>
          rcases h with hsmall | ⟨id, hid⟩
          · rw [OrderedSet.size, hlist] at hsmall
            exact absurd hsmall (by simp)
          · exact .inr (.inr (by simp [hid]))

/-- Nothing is made for a state that is represented. -/
theorem makeCanonical_of_represented {x : Nat} (hplain : (A.state x).members = none)
    (h : A.Represented x) : A.makeCanonical x = (A.canonical x, A) := by
  have hsingle : (A.state x).isComposite = false := by rw [State.isComposite, hplain]; rfl
  rw [makeCanonical, hsingle, Bool.false_or]
  by_cases hsmall : (A.state x).epsilon.size ≤ 1
  · simp only [hsmall, decide_true, if_true]
  · simp only [hsmall, decide_false, Bool.false_eq_true, if_false]
    obtain ⟨id, hid⟩ := h.resolve_left hsmall
    rcases canonical_cases hplain h with ⟨-, hnil⟩ | hsingleton | hcanonical
    · rw [OrderedSet.size, hnil] at hsmall
      exact absurd (Nat.zero_le 1) hsmall
    · rw [OrderedSet.size, hsingleton] at hsmall
      exact absurd (Nat.le_refl 1) hsmall
    · rw [compositeOf, hcanonical]

/-- A closure is represented once the state that stands for it was made. -/
theorem makeCanonical_condenses (hA : A.Housed) (id : Nat) :
    A.Condenses (A.makeCanonical id).2 ∧ (A.makeCanonical id).2.Housed ∧
      ((A.state id).members = none → (A.makeCanonical id).2.Represented id) := by
  rw [makeCanonical]
  by_cases hsmall : ((A.state id).isComposite || decide ((A.state id).epsilon.size ≤ 1)) = true
  · simp only [hsmall, if_true]
    refine ⟨.refl A, hA, fun hplain => .inl ?_⟩
    rw [State.isComposite, hplain] at hsmall
    simpa using hsmall
  · simp only [hsmall, Bool.false_eq_true, if_false]
    obtain ⟨hcondenses, hhoused, hlookup⟩ := compositeOf_condenses hA (A.state id).epsilon
    refine ⟨hcondenses, hhoused, fun _ => .inr ⟨(A.compositeOf (A.state id).epsilon).1, ?_⟩⟩
    rw [hcondenses.keeps.epsilon_eq]
    exact hlookup

/-- A state stands for itself if it is composite, alone in its closure, or no state at all. -/
theorem makeCanonical_fst_of_stays {x : Nat}
    (h : (A.state x).isComposite ∨ (A.state x).epsilon = .singleton x ∨ A.size ≤ x) :
    (A.makeCanonical x).1 = x := by
  rcases h with hcomposite | hsingle | hout
  · simp only [makeCanonical, hcomposite, Bool.true_or, if_true, canonical]
  · have hsize : (A.state x).epsilon.size = 1 := by rw [hsingle]; rfl
    have hlist : (A.state x).epsilon.toList = [x] := by rw [hsingle]; rfl
    simp only [makeCanonical, hsize, Nat.le_refl, decide_true, Bool.or_true, if_true, canonical,
      hlist, ite_self]
  · rw [makeCanonical, canonical, state_of_size_le hout]
    rfl

/-- A state that is replaced is represented then. -/
theorem replaceByCanonical_condenses (hA : A.Housed) (id : Nat) :
    A.Condenses (A.replaceByCanonical id) ∧ (A.replaceByCanonical id).Housed ∧
      ((A.state id).members = none → (A.replaceByCanonical id).Represented id) := by
  obtain ⟨hcondenses, hhoused, hrepresented⟩ := makeCanonical_condenses hA id
  rw [replaceByCanonical]
  by_cases htarget : (A.makeCanonical id).1 = id
  · simp only [htarget, if_true]
    exact ⟨hcondenses, hhoused, hrepresented⟩
  · simp only [htarget, if_false]
    have hlive : ∀ x ∈ (A.makeCanonical id).2.live, x ≠ id →
        x ∈ ((A.makeCanonical id).2.live.insert (A.makeCanonical id).1).erase id := fun x hx hne =>
      OrderedSet.mem_erase.mpr ⟨OrderedSet.mem_insert.mpr (.inr hx), hne⟩
    refine ⟨⟨⟨hcondenses.keeps.size_le, hcondenses.keeps.state⟩, hcondenses.initial_eq,
      hcondenses.index_eq, hcondenses.lookup, fun x hx hstay => ?_⟩,
      ⟨hhoused.composed, fun set x hx => ?_⟩, hrepresented⟩
    · refine hlive x (hcondenses.live x hx hstay) ?_
      rintro rfl
      exact htarget (makeCanonical_fst_of_stays (hstay.imp_right .inl))
    · refine hlive x (hhoused.live set x hx) ?_
      rintro rfl
      -- a composite stands for itself, so it is not the state that is replaced
      refine htarget (makeCanonical_fst_of_stays ?_)
      by_cases hlt : x < A.size
      · have hmembers := (hhoused.composed set x hx).2
        rw [hcondenses.keeps.members_eq hlt] at hmembers
        exact .inl (by rw [State.isComposite, hmembers]; rfl)
      · exact .inr (.inr (Nat.le_of_not_lt hlt))

/-- After the pass over the live states, the closure of each is represented. -/
theorem addComposites_condenses (hA : A.Housed) (hplain : ∀ x, (A.state x).members = none) :
    A.Condenses A.addComposites ∧ A.addComposites.Housed ∧
      ∀ x ∈ A.live, x < A.size → A.addComposites.Represented x := by
  suffices hsuff : ∀ (ids : List Nat) (B : Automaton), A.Condenses B → B.Housed →
      A.Condenses (ids.foldl replaceByCanonical B) ∧ (ids.foldl replaceByCanonical B).Housed ∧
        ∀ x, x < A.size → x ∈ ids ∨ B.Represented x →
          (ids.foldl replaceByCanonical B).Represented x by
    obtain ⟨hcondenses, hhoused, hall⟩ := hsuff A.live.toList A (.refl A) hA
    exact ⟨hcondenses, hhoused, fun x hx hlt => hall x hlt (.inl hx)⟩
  intro ids
  induction ids with
  | nil =>
      exact fun B hcondenses hhoused => ⟨hcondenses, hhoused, fun x _ hx =>
        hx.resolve_left List.not_mem_nil⟩
  | cons id ids ih =>
      intro B hcondenses hhoused
      obtain ⟨hnext, hhoused', hid⟩ := replaceByCanonical_condenses hhoused id
      obtain ⟨hall, hhousedAll, hrepresented⟩ :=
        ih (B.replaceByCanonical id) (hcondenses.trans hnext) hhoused'
      refine ⟨hall, hhousedAll, fun x hlt hx => hrepresented x hlt ?_⟩
      rw [List.mem_cons] at hx
      rcases hx with (rfl | hx) | hx
      · exact .inr (hid ((hcondenses.keeps.members_eq hlt).trans (hplain x)))
      · exact .inl hx
      · exact .inr (hnext.represented hx)

/-- A state that stands for itself all the time is not replaced. -/
theorem mem_live_addComposites (hA : A.Composed) {x : Nat} (hx : x ∈ A.live)
    (hstays : ∀ B, A.Keeps B → (B.makeCanonical x).1 = x) : x ∈ A.addComposites.live := by
  refine (List.foldlRecOn (motive := fun B => A.Keeps B ∧ B.Composed ∧ x ∈ B.live)
    A.live.toList replaceByCanonical ⟨.refl A, hA, hx⟩ ?_).2.2
  rintro B ⟨hkeeps, hcomposed, hlive⟩ id -
  obtain ⟨hkeeps', hcomposed', -⟩ := replaceByCanonical_spec hcomposed id
  refine ⟨hkeeps.trans hkeeps', hcomposed', ?_⟩
  have hmade : x ∈ (B.makeCanonical id).2.live := by
    rw [makeCanonical]
    split
    · exact hlive
    · rw [compositeOf]
      split
      · exact hlive
      · exact OrderedSet.mem_insert.mpr (.inr hlive)
  rw [replaceByCanonical]
  dsimp only
  split
  · exact hmade
  · next htarget =>
    refine OrderedSet.mem_erase.mpr ⟨OrderedSet.mem_insert.mpr (.inr hmade), ?_⟩
    rintro rfl
    exact htarget (hstays B hkeeps)

/-! ### The table of the composites -/

/-- The composites of `B` are found under their sets, and these are closures of `A`. -/
structure Catalogued (A B : Automaton) : Prop where
  lookup : ∀ id set, (B.state id).members = some set → B.composites.lookup set = some id
  closure : ∀ id set, (B.state id).members = some set → ∃ x, (A.state x).epsilon = set

/-- Without composite states, the catalogue is complete. -/
theorem catalogued_of_plain (hplain : ∀ x, (A.state x).members = none) : A.Catalogued A where
  lookup := fun id set h => by
    rw [hplain id] at h
    cases h
  closure := fun id set h => by
    rw [hplain id] at h
    cases h

/-- The composite of a closure is entered into the table, unless it is there. -/
theorem Catalogued.compositeOf (h : A.Catalogued B) (x : Nat) :
    A.Catalogued (B.compositeOf (A.state x).epsilon).2 := by
  rw [Automaton.compositeOf]
  cases hlookup : B.composites.lookup (A.state x).epsilon with
  | some id => exact h
  | none =>
      have hcases : ∀ id set,
          ((B.addState { members := some (A.state x).epsilon }).2.state id).members = some set →
            (id = B.size ∧ set = (A.state x).epsilon) ∨ (B.state id).members = some set :=
        fun id set hset => by
          rw [state_addState] at hset
          split at hset
          · next hid => exact .inl ⟨hid, (Option.some.inj hset).symm⟩
          · exact .inr hset
      constructor
      · intro id set hset
        rcases hcases id set hset with ⟨rfl, rfl⟩ | hset
        · exact List.lookup_cons_self
        · exact lookup_cons_of_lookup hlookup (h.lookup id set hset)
      · intro id set hset
        rcases hcases id set hset with ⟨-, rfl⟩ | hset
        · exact ⟨x, rfl⟩
        · exact h.closure id set hset

/-- A new composite is catalogued. -/
theorem Catalogued.makeCanonical (h : A.Catalogued B) (hkeeps : A.Keeps B) (id : Nat) :
    A.Catalogued (B.makeCanonical id).2 := by
  rw [Automaton.makeCanonical]
  split
  · exact h
  · rw [hkeeps.epsilon_eq]
    exact h.compositeOf id

/-- Replacing a state keeps the catalogue. -/
theorem Catalogued.replaceByCanonical (h : A.Catalogued B) (hkeeps : A.Keeps B) (id : Nat) :
    A.Catalogued (B.replaceByCanonical id) := by
  have hmade := h.makeCanonical hkeeps id
  rw [Automaton.replaceByCanonical]
  dsimp only
  split
  · exact hmade
  · exact ⟨hmade.lookup, hmade.closure⟩

/-- **After the pass over the live states**, every composite is found under its set. -/
theorem addComposites_catalogued (hA : A.Composed) (hplain : ∀ x, (A.state x).members = none) :
    A.Catalogued A.addComposites := by
  refine (List.foldlRecOn (motive := fun B => A.Keeps B ∧ B.Composed ∧ A.Catalogued B)
    A.live.toList replaceByCanonical ⟨.refl A, hA, catalogued_of_plain hplain⟩ ?_).2.2
  rintro B ⟨hkeeps, hcomposed, hB⟩ id -
  obtain ⟨hkeeps', hcomposed', -⟩ := replaceByCanonical_spec hcomposed id
  exact ⟨hkeeps.trans hkeeps', hcomposed', hB.replaceByCanonical hkeeps id⟩

/-- Two composites with the same members are the same state. -/
theorem Catalogued.eq_of_members_eq (h : A.Catalogued B) {c d : Nat} {set : OrderedSet Nat}
    (hc : (B.state c).members = some set) (hd : (B.state d).members = some set) : c = d :=
  Option.some.inj ((h.lookup c set hc).symm.trans (h.lookup d set hd))

/-- A state whose closure has several states is represented by the composite of its closure. -/
theorem members_canonical (hA : A.Composed) {x : Nat} (hplain : (A.state x).members = none)
    (h : A.Represented x) (hsize : 2 ≤ (A.state x).epsilon.size) :
    (A.state (A.canonical x)).members = some (A.state x).epsilon := by
  rw [OrderedSet.size] at hsize
  rcases canonical_cases hplain h with ⟨-, hnil⟩ | hsingle | hlookup
  · simp [hnil] at hsize
  · simp [hsingle] at hsize
  · exact (hA _ _ (mem_of_lookup hlookup)).2

/-! ### The states of a closed automaton -/

/-- `B` is the closed automaton `A`, with its states replaced. -/
structure Condensed (A B : Automaton) : Prop where
  condenses : A.Condenses B
  housed : B.Housed
  catalogued : A.Catalogued B
  represented : ∀ x, x < A.size → B.Represented x
  plain : ∀ x, x < A.size → (B.state x).members = none

/-- Adding the composites condenses a closed automaton. -/
theorem Unnumbered.condensed (hA : A.Unnumbered) : A.Condensed A.addComposites := by
  have hcomposed := composed_of_nil hA.composites_eq
  obtain ⟨hcondenses, hhoused, hrepresented⟩ :=
    addComposites_condenses ⟨hcomposed, by simp [hA.composites_eq]⟩ hA.plain
  exact ⟨hcondenses, hhoused, addComposites_catalogued hcomposed hA.plain,
    fun x hx => hrepresented x (hA.mem_live x hx) hx,
    fun x hx => (hcondenses.keeps.members_eq hx).trans (hA.plain x)⟩

/-- Every closure of several states has a composite, which stands for the states with this closure
and for no others, and no two composites have the same members. -/
structure Interned (A : Automaton) : Prop where
  members_canonical : ∀ x, (A.state x).isComposite = false → 2 ≤ (A.state x).epsilon.size →
    (A.state (A.canonical x)).members = some (A.state x).epsilon
  canonical_eq_iff : ∀ x y, (A.state x).isComposite = false → 2 ≤ (A.state x).epsilon.size →
    (A.state y).isComposite = false → 2 ≤ (A.state y).epsilon.size →
    (A.canonical x = A.canonical y ↔ (A.state x).epsilon = (A.state y).epsilon)
  members_inj : ∀ c d set, (A.state c).members = some set → (A.state d).members = some set → c = d

/-- The closures of a condensed automaton are interned. -/
theorem Condensed.interned (h : A.Condensed B) : B.Interned := by
  have hmembers : ∀ x, (B.state x).isComposite = false → 2 ≤ (B.state x).epsilon.size →
      (B.state (B.canonical x)).members = some (B.state x).epsilon := fun x hplain hsize => by
    have hlt : x < A.size := by
      by_contra hx
      rw [h.condenses.keeps.epsilon_eq, state_of_size_le (Nat.le_of_not_lt hx)] at hsize
      exact absurd hsize (by decide)
    exact members_canonical h.housed.composed (h.plain x hlt) (h.represented x hlt) hsize
  refine ⟨hmembers, fun x y hx hxs hy hys => ⟨fun heq => ?_, fun heq => ?_⟩,
    fun c d set => h.catalogued.eq_of_members_eq⟩
  · have hboth := (hmembers x hx hxs).symm.trans
      ((congrArg _ (congrArg _ heq)).trans (hmembers y hy hys))
    exact Option.some.inj hboth
  · refine h.catalogued.eq_of_members_eq (hmembers x hx hxs) ?_
    rw [heq]
    exact hmembers y hy hys

end Automaton

end GrammarAnalysis
