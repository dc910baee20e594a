import GrammarAnalysis.Automaton.Indexing
import GrammarAnalysis.Proofs.Automaton.Closing

/-!
# What a Prepared Automaton Accepts

A lexer runs a prepared automaton with sets of states. It begins in the members of the initial
state; a code point takes each state of the set to its next one, and the new set consists of the
closures of these. The pattern is read off a state that the last code point led to.

Every word that is accepted in this way is spelled by a path of the automaton before it was
prepared. The converse holds for the paths in a part of the automaton that has no cycle of steps
which consume nothing.

## Main definitions

* `Automaton.startMembers`, `Automaton.lastEntered`, `Automaton.accepts`: the run on a word;
* `Automaton.Keeps`: the same moves, closures and accepted patterns.

## Main results

* `Automaton.prepare_keeps`: after the closing, a preparation only adds composite states;
* `Automaton.leads_of_accepts`, `Automaton.accepts_of_leads`: runs and paths.
-/

namespace GrammarAnalysis

namespace Automaton

/-- The closure members of the initial state. -/
def startMembers (A : Automaton) : OrderedSet Nat :=
  match (A.state A.initial).members with
  | some members => members
  | none => (A.state A.initial).epsilon

/-- The states that those of a list go to on a code point. -/
def enteredBy (A : Automaton) (current : List Nat) (c : Nat) : List Nat :=
  current.filterMap fun m => A.enters m c

/-- The states that the last code point of a word leads to, from the states `current` on. -/
def lastEntered (A : Automaton) : (current : List Nat) → (word : List Nat) → List Nat
  | _, [] => []
  | current, [c] => A.enteredBy current c
  | current, c :: d :: rest =>
    A.lastEntered ((A.enteredBy current c).flatMap fun t => (A.state t).epsilon.toList) (d :: rest)

/-- The automaton accepts the word with this pattern. -/
def accepts (A : Automaton) (pattern : Nat) (word : List Nat) : Bool :=
  (A.lastEntered A.startMembers.toList word).any fun t => (A.state t).accepts == some pattern

/-- `B` has the states of `A`, up to their indices, and otherwise states without edges and
patterns. -/
structure Keeps (A B : Automaton) : Prop where
  size_le : A.size ≤ B.size
  state : ∀ x, ∃ index members, B.state x = { A.state x with index := index, members := members } ∧
    (x < A.size → members = (A.state x).members)

/-- An automaton in which nothing has been closed or replaced yet. -/
structure Unprepared (A : Automaton) : Prop where
  plain : ∀ x, (A.state x).members = none
  unclosed : ∀ x, (A.state x).closed = false
  composites_eq : A.composites = []
  mem_live : ∀ x, x < A.size → x ∈ A.live
  initial_lt : A.initial < A.size
  reaches_lt : ∀ x, A.Reaches A.initial x → x < A.size

/-- Each composite state has its members. -/
def Composed (A : Automaton) : Prop :=
  ∀ set id, (set, id) ∈ A.composites → id < A.size ∧ (A.state id).members = some set

variable {A B C : Automaton}

/-! ### What a preparation keeps -/

/-- An automaton keeps its own states. -/
theorem Keeps.refl (A : Automaton) : A.Keeps A :=
  ⟨Nat.le_refl _, fun _ => ⟨_, _, rfl, fun _ => rfl⟩⟩

/-- Keeping the states is transitive. -/
theorem Keeps.trans (h : A.Keeps B) (h' : B.Keeps C) : A.Keeps C := by
  refine ⟨Nat.le_trans h.size_le h'.size_le, fun x => ?_⟩
  obtain ⟨i, ms, hB, hms⟩ := h.state x
  obtain ⟨j, ns, hC, hns⟩ := h'.state x
  refine ⟨j, ns, by rw [hC, hB], fun hx => ?_⟩
  rw [hns (Nat.lt_of_lt_of_le hx h.size_le), hB]
  exact hms hx

/-- The moves are kept. -/
theorem Keeps.moves_eq (h : A.Keeps B) (x : Nat) : (B.state x).moves = (A.state x).moves := by
  obtain ⟨i, ms, hB, -⟩ := h.state x
  rw [hB]

/-- The closures are kept. -/
theorem Keeps.epsilon_eq (h : A.Keeps B) (x : Nat) :
    (B.state x).epsilon = (A.state x).epsilon := by
  obtain ⟨i, ms, hB, -⟩ := h.state x
  rw [hB]

/-- What the states accept is kept. -/
theorem Keeps.accepts_eq (h : A.Keeps B) (x : Nat) :
    (B.state x).accepts = (A.state x).accepts := by
  obtain ⟨i, ms, hB, -⟩ := h.state x
  rw [hB]

/-- Where the moves lead is kept. -/
theorem Keeps.enters_eq (h : A.Keeps B) (x c : Nat) : B.enters x c = A.enters x c := by
  obtain ⟨i, ms, hB, -⟩ := h.state x
  rw [enters, enters, State.consumes, State.consumes, hB]

/-- The members of the older states are kept. -/
theorem Keeps.members_eq (h : A.Keeps B) {x : Nat} (hx : x < A.size) :
    (B.state x).members = (A.state x).members := by
  obtain ⟨i, ms, hB, hms⟩ := h.state x
  rw [hB]
  exact hms hx

/-- Only the index of a state is changed. -/
theorem keeps_index (A : Automaton) (id : Nat) (index : Option Nat) :
    A.Keeps (A.modify id fun s => { s with index := index }) := by
  refine ⟨(size_modify A id _).ge, fun x => ?_⟩
  rw [state_modify]
  split
  · exact ⟨_, _, rfl, fun _ => rfl⟩
  · exact ⟨_, _, rfl, fun _ => rfl⟩

/-- A composite state is added. -/
theorem keeps_addState (A : Automaton) (members : Option (OrderedSet Nat)) :
    A.Keeps (A.addState { members := members }).2 := by
  refine ⟨by rw [size_addState]; exact Nat.le_succ _, fun x => ?_⟩
  rw [state_addState]
  split
  · rename_i hx
    rw [hx, state_of_size_le (Nat.le_refl _)]
    exact ⟨none, members, rfl, fun h => absurd h (Nat.lt_irrefl _)⟩
  · exact ⟨_, _, rfl, fun _ => rfl⟩

/-! ### Composite states -/

/-- Without composites there is nothing to show. -/
theorem composed_of_nil (h : A.composites = []) : A.Composed := by
  intro set id hmem
  rw [h] at hmem
  exact absurd hmem List.not_mem_nil

/-- The composites have their members also in an automaton that keeps the states. -/
theorem Composed.keeps (h : A.Composed) (hB : A.Keeps B) (heq : B.composites = A.composites) :
    B.Composed := by
  intro set id hmem
  rw [heq] at hmem
  obtain ⟨hid, hset⟩ := h set id hmem
  exact ⟨Nat.lt_of_lt_of_le hid hB.size_le, (hB.members_eq hid).trans hset⟩

/-- What is looked up in a list is in it. -/
theorem mem_of_lookup {α β : Type} [BEq α] [LawfulBEq α] {l : List (α × β)} {a : α} {b : β}
    (h : l.lookup a = some b) : (a, b) ∈ l := by
  obtain ⟨front, back, rfl, -⟩ := List.lookup_eq_some_iff.mp h
  exact List.mem_append_right front List.mem_cons_self

/-- The composite of a set has its members. -/
theorem compositeOf_spec (hA : A.Composed) (set : OrderedSet Nat) :
    A.Keeps (A.compositeOf set).2 ∧ (A.compositeOf set).2.Composed ∧
      (A.compositeOf set).2.initial = A.initial ∧
      ((A.compositeOf set).2.state (A.compositeOf set).1).members = some set := by
  rw [compositeOf]
  cases hlookup : A.composites.lookup set with
  | some id =>
      obtain ⟨-, hset⟩ := hA set id (mem_of_lookup hlookup)
      exact ⟨.refl A, hA, rfl, hset⟩
  | none =>
      have hkeeps := keeps_addState A (some set)
      have hsize : A.size < (A.addState { members := some set }).2.size := by
        rw [size_addState]
        exact Nat.lt_succ_self _
      have hmembers : ((A.addState { members := some set }).2.state A.size).members = some set := by
        rw [state_addState, if_pos rfl]
      refine ⟨⟨hkeeps.size_le, hkeeps.state⟩, ?_, rfl, hmembers⟩
      intro set' id hmem
      rcases List.mem_cons.mp hmem with heq | hmem
      · obtain ⟨rfl, rfl⟩ := Prod.mk.inj heq
        exact ⟨hsize, hmembers⟩
      · exact hA.keeps hkeeps rfl set' id hmem

/-- What stands for a state that is not composite: nothing else if its closure is empty, the
only state of its closure, or a composite of its closure. -/
theorem makeCanonical_spec (hA : A.Composed) (id : Nat) :
    A.Keeps (A.makeCanonical id).2 ∧ (A.makeCanonical id).2.Composed ∧
      (A.makeCanonical id).2.initial = A.initial ∧
      ((A.state id).members = none →
        (A.makeCanonical id).1 = id ∧ (A.state id).epsilon.toList = [] ∨
        (A.state id).epsilon.toList = [(A.makeCanonical id).1] ∨
        ((A.makeCanonical id).2.state (A.makeCanonical id).1).members
          = some (A.state id).epsilon) := by
  rw [makeCanonical]
  by_cases hsmall : ((A.state id).isComposite || decide ((A.state id).epsilon.size ≤ 1)) = true
  · simp only [hsmall, if_true]
    refine ⟨.refl A, hA, trivial, fun hnone => ?_⟩
    have hplain : (A.state id).isComposite = false := by
      rw [State.isComposite, hnone]
      rfl
    rw [hplain, Bool.false_or, decide_eq_true_eq] at hsmall
    rw [canonical, hplain]
    cases hlist : (A.state id).epsilon.toList with
    | nil => exact .inl ⟨by simp, rfl⟩
    | cons y rest =>
        cases rest with
        | nil => exact .inr (.inl (by simp))
        | cons z rest =>
            rw [OrderedSet.size, hlist] at hsmall
            exact absurd hsmall (by simp)
  · simp only [hsmall, Bool.false_eq_true, if_false]
    obtain ⟨hkeeps, hcomposed, hinitial, hmembers⟩ := compositeOf_spec hA (A.state id).epsilon
    exact ⟨hkeeps, hcomposed, hinitial, fun _ => .inr (.inr hmembers)⟩

/-- Replacing a state by its canonical one keeps the states and the members of the composites. -/
theorem replaceByCanonical_spec (hA : A.Composed) (id : Nat) :
    A.Keeps (A.replaceByCanonical id) ∧ (A.replaceByCanonical id).Composed ∧
      (A.replaceByCanonical id).initial = A.initial := by
  obtain ⟨hkeeps, hcomposed, hinitial, -⟩ := makeCanonical_spec hA id
  rw [replaceByCanonical]
  by_cases htarget : (A.makeCanonical id).1 = id
  · simp only [htarget, if_true]
    exact ⟨hkeeps, hcomposed, hinitial⟩
  · simp only [htarget, if_false]
    exact ⟨⟨hkeeps.size_le, hkeeps.state⟩, hcomposed, hinitial⟩

/-- Adding the composites keeps the states and the initial state. -/
theorem addComposites_spec (hA : A.Composed) :
    A.Keeps A.addComposites ∧ A.addComposites.Composed ∧
      A.addComposites.initial = A.initial := by
  suffices hsuff : ∀ (ids : List Nat) (B : Automaton), A.Keeps B → B.Composed →
      B.initial = A.initial → A.Keeps (ids.foldl replaceByCanonical B) ∧
        (ids.foldl replaceByCanonical B).Composed ∧
        (ids.foldl replaceByCanonical B).initial = A.initial from
    hsuff A.live.toList A (.refl A) hA rfl
  intro ids
  induction ids with
  | nil => exact fun B hkeeps hcomposed hinitial => ⟨hkeeps, hcomposed, hinitial⟩
  | cons id ids ih =>
      intro B hkeeps hcomposed hinitial
      obtain ⟨hkeeps', hcomposed', hinitial'⟩ := replaceByCanonical_spec hcomposed id
      exact ih _ (hkeeps.trans hkeeps') hcomposed' (hinitial'.trans hinitial)

/-! ### Indices -/

/-- A pass of numbering keeps the states and the initial state. -/
theorem number_spec (eligible : Automaton → Nat → Bool) (ids : List Nat) :
    ∀ (counter : Nat) (A : Automaton), A.Keeps (number eligible ids counter A).2 ∧
      (number eligible ids counter A).2.initial = A.initial := by
  induction ids with
  | nil => exact fun counter A => ⟨.refl A, rfl⟩
  | cons id ids ih =>
      intro counter A
      rw [number]
      split
      · obtain ⟨hkeeps, hinitial⟩ := ih (counter + 1) (A.modify id fun s =>
          { s with index := some counter })
        exact ⟨(keeps_index A id _).trans hkeeps, hinitial⟩
      · exact ih counter A

/-- The initial state becomes the one that stands for it. -/
theorem assignIndices_spec (A : Automaton) :
    (A.makeCanonical A.initial).2.Keeps A.assignIndices ∧
      A.assignIndices.initial = (A.makeCanonical A.initial).1 := by
  have hindex := keeps_index (A.makeCanonical A.initial).2 (A.makeCanonical A.initial).1 (some 0)
  have hfirst : (A.makeCanonical A.initial).2.Keeps A.settleInitial :=
    ⟨hindex.size_le, hindex.state⟩
  have hinitial : A.settleInitial.initial = (A.makeCanonical A.initial).1 := rfl
  obtain ⟨hkeeps₁, hinitial₁⟩ := number_spec _ _ _ A.settleInitial
  obtain ⟨hkeeps₂, hinitial₂⟩ := number_spec _ _ _ _
  obtain ⟨hkeeps₃, hinitial₃⟩ := number_spec _ _ _ _
  have hkeeps := ((hfirst.trans hkeeps₁).trans hkeeps₂).trans hkeeps₃
  exact ⟨⟨hkeeps.size_le, hkeeps.state⟩,
    ((hinitial₃.trans hinitial₂).trans hinitial₁).trans hinitial⟩

/-! ### Preparation -/

/-- A state is a member of the initial state if it is in its closure, or follows such a state. -/
theorem startMembers_spec (hA : A.Composed) (hplain : ∀ x, x < A.size → (A.state x).members = none)
    (hinitial : A.initial < A.size) (hlt : ∀ y, A.Slips A.initial y → y < A.size)
    (hB : A.addComposites.assignIndices = B) :
    A.Keeps B ∧
      (∀ m ∈ B.startMembers, A.Slips A.initial m ∨ ∃ y, A.Slips A.initial y ∧ A.Slips y m) ∧
      ∀ m, A.Slips A.initial m → A.Slips m m → m ∈ B.startMembers := by
  obtain ⟨hD, hcomposed, hinitialD⟩ := addComposites_spec hA
  obtain ⟨hcanonical, -, -, hcases⟩ := makeCanonical_spec hcomposed A.initial
  obtain ⟨hkeeps, hfirst⟩ := assignIndices_spec A.addComposites
  rw [hB, hinitialD] at hkeeps hfirst
  have hall := (hD.trans hcanonical).trans hkeeps
  have hnone : ∀ x, x < A.size → (B.state x).members = none := fun x hx =>
    (hall.members_eq hx).trans (hplain x hx)
  have hepsilon := hD.epsilon_eq A.initial
  refine ⟨hall, ?_⟩
  rw [startMembers, hfirst]
  rcases hcases ((hD.members_eq hinitial).trans (hplain _ hinitial)) with
    ⟨hself, hempty⟩ | honly | hmembers
  · -- the closure is empty
    rw [hself, hnone _ hinitial]
    refine ⟨fun m hm => .inl ?_, fun m hm _ => ?_⟩
    · rwa [hall.epsilon_eq] at hm
    · rw [Slips, ← hepsilon] at hm
      rw [← OrderedSet.mem_toList, hempty] at hm
      exact absurd hm List.not_mem_nil
  · -- the closure is one state
    generalize (A.addComposites.makeCanonical A.initial).1 = first at honly ⊢
    have hmem : ∀ m, A.Slips A.initial m ↔ m = first := fun m => by
      rw [Slips, ← hepsilon, ← OrderedSet.mem_toList, honly, List.mem_singleton]
    have hslips := (hmem first).mpr rfl
    rw [hnone first (hlt first hslips)]
    refine ⟨fun m hm => .inr ⟨first, hslips, ?_⟩, fun m hm hself => ?_⟩
    · rwa [hall.epsilon_eq] at hm
    · rw [(hmem m).mp hm] at hself ⊢
      rwa [hall.epsilon_eq]
  · -- the closure is the set of a composite state
    generalize (A.addComposites.makeCanonical A.initial).1 = first at hmembers ⊢
    have hlt : first < (A.addComposites.makeCanonical A.initial).2.size := by
      by_contra hge
      rw [state_of_size_le (Nat.le_of_not_lt hge)] at hmembers
      cases hmembers
    rw [hkeeps.members_eq hlt, hmembers, hepsilon]
    exact ⟨fun m hm => .inl hm, fun m hm _ => hm⟩

/-- Preparing an automaton closes it, adds the composites and assigns the indices. -/
theorem prepare_cases (h : A.prepare = .ok B) :
    ∃ C, A.closeAll = .ok C ∧ C.addComposites.assignIndices = B := by
  obtain ⟨C, hC, hB⟩ := exists_of_bind_eq_ok h
  exact ⟨C, hC, Except.ok.inj hB⟩

/-- **After the closing, a preparation only adds composite states.** -/
theorem prepare_keeps (hA : A.Unprepared) (h : A.prepare = .ok B) :
    ∃ C, A.closeAll = .ok C ∧ A.Tracks C ∧ C.Keeps B ∧
      (∀ m ∈ B.startMembers, A.Reaches A.initial m) ∧
      ∀ m, C.Slips A.initial m → C.Slips m m → m ∈ B.startMembers := by
  obtain ⟨C, hC, hB⟩ := prepare_cases h
  have htracks := closeAll_tracks hC
  have hreaches := fun x y => (htracks.state x).slips y
  obtain ⟨hkeeps, hstart, hstart'⟩ := startMembers_spec
    (composed_of_nil (htracks.composites_eq.trans hA.composites_eq))
    (fun x _ => (htracks.state x).members_eq.trans (hA.plain x))
    (by rw [htracks.initial_eq, htracks.size_eq]; exact hA.initial_lt)
    (fun y hy => by
      rw [htracks.initial_eq] at hy
      rw [htracks.size_eq]
      exact hA.reaches_lt y (hreaches _ y hy)) hB
  rw [htracks.initial_eq] at hstart hstart'
  refine ⟨C, hC, htracks, hkeeps, fun m hm => ?_, hstart'⟩
  rcases hstart m hm with hm | ⟨y, hy, hm⟩
  · exact hreaches _ m hm
  · exact (hreaches _ y hy).trans (hreaches y m hm)

/-! ### Runs -/

/-- The states entered are those that a move of a current state leads to. -/
theorem mem_enteredBy {current : List Nat} {c t : Nat} :
    t ∈ A.enteredBy current c ↔ ∃ m ∈ current, A.enters m c = some t :=
  List.mem_filterMap

/-- A path may begin with steps that consume nothing. -/
theorem Reaches.leads {x y t : Nat} {w : List Nat} (h : A.Reaches x y) (hl : A.Leads y t w) :
    A.Leads x t w := by
  induction h using Relation.ReflTransGen.head_induction_on with
  | refl => exact hl
  | head hstep _ ih => exact ih.slip hstep

/-- A path that spells a word that is not empty: what is reached before the first move, and what
comes after it. -/
theorem Leads.cases_cons {x t c : Nat} {w : List Nat} (h : A.Leads x t (c :: w)) :
    ∃ m y, A.Reaches x m ∧ A.enters m c = some y ∧ A.Leads y t w := by
  obtain ⟨k, hk⟩ := h
  generalize hw : c :: w = v at hk
  induction hk with
  | done => cases hw
  | slip hstep _ ih =>
      obtain ⟨m, y, hm, hy, hrest⟩ := ih hw
      exact ⟨m, y, .head hstep hm, hy, hrest⟩
  | @move k x y _ _ hstep hrest _ =>
      obtain ⟨rfl, rfl⟩ := List.cons.inj hw
      exact ⟨x, y, .refl, hstep, hrest.leads⟩

/-- A path that spells the empty word consumes nothing. -/
theorem Leads.reaches {x t : Nat} (h : A.Leads x t []) : A.Reaches x t := by
  obtain ⟨k, hk⟩ := h
  generalize hw : [] = v at hk
  induction hk with
  | done => exact .refl
  | slip hstep _ ih => exact .head hstep (ih hw)
  | move _ _ _ => cases hw

/-- A state that enters another one has moves. -/
theorem hasMoves_of_enters {m c y : Nat} (h : A.enters m c = some y) :
    (A.state m).hasMoves := by
  rw [enters, State.consumes] at h
  rw [State.hasMoves]
  cases hmoves : (A.state m).moves with
  | nil =>
      rw [hmoves] at h
      cases h
  | cons r rest => rfl

section Runs

variable {A₀ : Automaton}

/-- The moves stay where they were on the way to the closed form. -/
theorem Tracks.enters_eq (h : A₀.Tracks A) (x c : Nat) : A.enters x c = A₀.enters x c := by
  rw [enters, enters, State.consumes, State.consumes, (h.state x).moves_eq, (h.state x).next_eq]

/-- What the run enters is spelled by a path. -/
theorem exists_leads_of_mem_lastEntered (hA : A₀.Tracks A) (hB : A.Keeps B) {w : List Nat} :
    ∀ {current : List Nat} {t : Nat}, t ∈ B.lastEntered current w →
      ∃ m ∈ current, A₀.Leads m t w := by
  have henters : ∀ x c, B.enters x c = A₀.enters x c := fun x c =>
    (hB.enters_eq x c).trans (hA.enters_eq x c)
  induction w with
  | nil => exact fun h => absurd h List.not_mem_nil
  | cons c w ih =>
      intro current t h
      cases w with
      | nil =>
          obtain ⟨m, hm, ht⟩ := mem_enteredBy.mp h
          exact ⟨m, hm, (Leads.refl t).move (by rw [← henters]; exact ht)⟩
      | cons d w =>
          obtain ⟨m', hm', hleads⟩ := ih h
          obtain ⟨y, hy, hm'⟩ := List.mem_flatMap.mp hm'
          obtain ⟨m, hm, hmove⟩ := mem_enteredBy.mp hy
          rw [OrderedSet.mem_toList, hB.epsilon_eq] at hm'
          have hreach : A₀.Reaches y m' := (hA.state y).slips m' hm'
          exact ⟨m, hm, (hreach.leads hleads).move (by rw [← henters]; exact hmove)⟩

/-- **A word that is accepted is spelled by a path** from the initial state to one that accepts
the pattern. -/
theorem leads_of_accepts (hA : A₀.Unprepared) (hB : A₀.prepare = .ok B) {pattern : Nat}
    {w : List Nat} (h : B.accepts pattern w) :
    ∃ t, A₀.Leads A₀.initial t w ∧ (A₀.state t).accepts = some pattern := by
  obtain ⟨C, -, htracks, hkeeps, hstart, -⟩ := prepare_keeps hA hB
  obtain ⟨t, ht, hpattern⟩ := List.any_eq_true.mp h
  obtain ⟨m, hm, hleads⟩ := exists_leads_of_mem_lastEntered htracks hkeeps ht
  rw [beq_iff_eq, hkeeps.accepts_eq] at hpattern
  obtain ⟨t', ht', hpattern'⟩ := (htracks.state t).accepts pattern hpattern
  have hpath := hleads.trans (ht'.leads (.refl t'))
  rw [List.append_nil] at hpath
  exact ⟨t', (hstart m hm).leads hpath, hpattern'⟩

/-- A part of an automaton that a path does not leave, without cycles of steps that consume
nothing. -/
structure Tame (A : Automaton) (G : Nat → Prop) : Prop extends Untangled A G where
  enters : ∀ x c y, G x → A.enters x c = some y → G y

/-- In a part without cycles, the run does not miss a path. -/
theorem exists_mem_lastEntered {G : Nat → Prop} (hG : A₀.Tame G) (hA : A₀.Tracks A)
    (hB : A.Keeps B) (hgathers : ∀ x, G x → Gathers A₀ G A x) {t pattern : Nat}
    (ht : (A₀.state t).accepts = some pattern) {w : List Nat} :
    ∀ {current : List Nat} {x : Nat}, G x →
      (∀ m, A₀.Reaches x m → (A₀.state m).hasMoves → m ∈ current) → w ≠ [] → A₀.Leads x t w →
      ∃ y ∈ B.lastEntered current w, (B.state y).accepts = some pattern := by
  have henters : ∀ x c, B.enters x c = A₀.enters x c := fun x c =>
    (hB.enters_eq x c).trans (hA.enters_eq x c)
  have hflows : ∀ x, G x → Flows A₀ A x x := fun x hx =>
    (hgathers x hx).flows_self hA fun s hs => hG.slips x s hx hs
  induction w with
  | nil => exact fun _ _ h => absurd rfl h
  | cons c w ih =>
      intro current x hx hcurrent _ hleads
      obtain ⟨m, y, hm, hmove, hrest⟩ := hleads.cases_cons
      have hGy : G y := hG.enters m c y (hG.reaches hx hm) hmove
      have hy : y ∈ B.enteredBy current c := mem_enteredBy.mpr
        ⟨m, hcurrent m hm (hasMoves_of_enters hmove), by rw [henters]; exact hmove⟩
      cases w with
      | nil =>
          refine ⟨y, hy, ?_⟩
          rw [hB.accepts_eq]
          exact (hflows y hGy).accepts t pattern hrest.reaches ht
      | cons d w =>
          refine ih hGy (fun n hn hmoves => List.mem_flatMap.mpr ⟨y, hy, ?_⟩)
            (List.cons_ne_nil d w) hrest
          rw [OrderedSet.mem_toList, hB.epsilon_eq]
          exact (hflows y hGy).slips n hn hmoves

/-- **A path in a part without cycles is accepted**, if the initial state leads into the part. -/
theorem accepts_of_leads {G : Nat → Prop} (hG : A₀.Tame G) (hA : A₀.Unprepared)
    (hB : A₀.prepare = .ok B) {s t pattern : Nat} {w : List Nat} (hs : A₀.Slips A₀.initial s)
    (hGs : G s) (hleads : A₀.Leads s t w) (ht : (A₀.state t).accepts = some pattern)
    (hw : w ≠ []) : B.accepts pattern w := by
  obtain ⟨C, hC, htracks, hkeeps, -, hstart⟩ := prepare_keeps hA hB
  have hall : ∀ x, x < A₀.size → Gathers A₀ G C x := fun x hx =>
    closeAll_gathers hG.toUntangled hA.unclosed hC x (hA.mem_live x hx) hx
  have hgathers : ∀ x, G x → Gathers A₀ G C x := fun x hx => hall x (hG.lt_size x hx)
  have hcurrent : ∀ m, A₀.Reaches s m → (A₀.state m).hasMoves → m ∈ B.startMembers.toList := by
    intro m hm hmoves
    refine OrderedSet.mem_toList.mpr (hstart m ?_ ((hgathers m (hG.reaches hGs hm)).self hmoves))
    exact ((hall _ hA.initial_lt).flows s hs hGs).slips m hm hmoves
  obtain ⟨y, hy, hpattern⟩ :=
    exists_mem_lastEntered hG htracks hkeeps hgathers ht hGs hcurrent hw hleads
  exact List.any_eq_true.mpr ⟨y, hy, by rw [hpattern, beq_self_eq_true]⟩

end Runs

end Automaton

end GrammarAnalysis
