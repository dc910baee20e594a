import GrammarAnalysis.Proofs.Automaton.Paths
import GrammarAnalysis.Proofs.Regex.Language

/-!
# Fragments

A construction step adds a sealed fragment in fresh states, and what it adds realizes a
language: these are the words on the paths from the start to the finish. A fragment keeps its
language when edges are added to its finish, so a construct can be described by the languages of
its operands and the few edges between them.

## Main definitions

* `Automaton.Extends`: what a construction step leaves as it was;
* `Automaton.Realizes`, `Automaton.Embeds`: a fragment with its language, and the same in a
  later automaton;
* `Assembly.Makes`: a construction step that adds a fragment with this language.

## Main results

* `Automaton.Embeds.leads_iff`: paths from the start of a fragment, in a later automaton;
* `Automaton.makes_addPoint`, `Automaton.makes_addClass`, `Automaton.makes_addText`: the
  fragments without operands.
-/

namespace GrammarAnalysis

namespace Automaton

/-- `B` has the states of `A`, and possibly more. -/
structure Extends (A B : Automaton) : Prop where
  size_le : A.size ≤ B.size
  state_eq : ∀ x, x < A.size → B.state x = A.state x
  initial_eq : B.initial = A.initial
  composites_eq : B.composites = A.composites
  mem_live : ∀ x, x < B.size → A.size ≤ x ∨ x ∈ A.live → x ∈ B.live

/-- A fragment whose paths from the start to the finish spell the words of `ℓ`. If `steady`
holds, then one cannot go on forever in it without consuming anything. -/
structure Realizes (ℓ : Language Nat) (steady : Prop) (A : Automaton) (lo hi : Nat)
    (f : Fragment) : Prop where
  isSealed : A.Sealed lo hi f
  leads_iff : ∀ w, A.Leads f.start f.finish w ↔ w ∈ ℓ
  settles : steady → ∀ x, lo ≤ x → x < hi → A.Settles x

/-- The fragment realized `ℓ` when it was made; edges from its finish may have been added. -/
def Embeds (ℓ : Language Nat) (steady : Prop) (B : Automaton) (lo hi : Nat) (f : Fragment) :
    Prop :=
  ∃ A : Automaton, A.Realizes ℓ steady lo hi f ∧ SameInside A B lo hi f.finish

end Automaton

/-- The construction step adds a fragment that realizes `ℓ`. -/
def Assembly.Makes (assembly : Assembly) (ℓ : Language Nat) (steady : Prop) : Prop :=
  ∀ A f B, assembly A = .ok (f, B) → A.Extends B ∧ B.Realizes ℓ steady A.size B.size f

namespace Automaton

variable {A B C : Automaton}

/-! ### Growth -/

/-- An automaton extends itself. -/
theorem Extends.refl (A : Automaton) : A.Extends A where
  size_le := Nat.le_refl _
  state_eq := fun _ _ => rfl
  initial_eq := rfl
  composites_eq := rfl
  mem_live := fun _ hx h => h.resolve_left (Nat.not_le_of_lt hx)

/-- Extending is transitive. -/
theorem Extends.trans (h : A.Extends B) (h' : B.Extends C) : A.Extends C where
  size_le := Nat.le_trans h.size_le h'.size_le
  state_eq := fun x hx =>
    (h'.state_eq x (Nat.lt_of_lt_of_le hx h.size_le)).trans (h.state_eq x hx)
  initial_eq := h'.initial_eq.trans h.initial_eq
  composites_eq := h'.composites_eq.trans h.composites_eq
  mem_live := fun x hx hA => h'.mem_live x hx <| by
    by_cases hxB : x < B.size
    · exact .inr (h.mem_live x hxB hA)
    · exact .inl (Nat.le_of_not_lt hxB)

/-- A new state is changed. -/
theorem Extends.modify (h : A.Extends B) {x : Nat} (hx : A.size ≤ x) (f : State → State) :
    A.Extends (B.modify x f) where
  size_le := by rw [size_modify]; exact h.size_le
  state_eq := fun y hy => by
    rw [state_modify, if_neg (by omega)]
    exact h.state_eq y hy
  initial_eq := h.initial_eq
  composites_eq := h.composites_eq
  mem_live := fun y hy => h.mem_live y (by rwa [size_modify] at hy)

/-- An edge from a new state leaves the older states as they were. -/
theorem Extends.addEpsilon (h : A.Extends B) {x : Nat} (hx : A.size ≤ x) (y : Nat) :
    A.Extends (B.addEpsilon x y) :=
  h.modify hx _

/-- A new state leaves the older ones as they were. -/
theorem extends_addState (A : Automaton) (s : State) : A.Extends (A.addState s).2 where
  size_le := by rw [size_addState]; exact Nat.le_succ _
  state_eq := fun x hx => by rw [state_addState, if_neg (Nat.ne_of_lt hx)]
  initial_eq := rfl
  composites_eq := rfl
  mem_live := fun x hx h => by
    rw [size_addState] at hx
    refine OrderedSet.mem_insert.mpr ?_
    rcases h with h | h
    · exact .inl (by omega)
    · exact .inr h

/-- A new state is fresh. -/
theorem forks_addState (A : Automaton) : (A.addState {}).2.Forks A.size [] := by
  rw [forks_nil_iff, state_addState, if_pos rfl]

/-- An edge changes nothing but its source. -/
theorem state_addEpsilon_of_ne (target : Nat) {source x : Nat} (h : x ≠ source) :
    (A.addEpsilon source target).state x = A.state x := by
  rw [addEpsilon, state_modify, if_neg fun hs => h hs.1.symm]

/-- An edge from a forking state adds its target to those of the fork. -/
theorem Forks.addEpsilon {x y : Nat} {targets : List Nat} (h : A.Forks x targets)
    (hx : x < A.size) : (A.addEpsilon x y).Forks x (y :: targets) := by
  have hstate : (A.addEpsilon x y).state x
      = { A.state x with epsilon := (A.state x).epsilon.insert y } := by
    rw [Automaton.addEpsilon, state_modify, if_pos ⟨rfl, hx⟩]
  constructor
  · rw [hstate, h.plain]
  · intro z
    rw [Slips, hstate, List.mem_cons, ← h.slips_iff z]
    exact OrderedSet.mem_insert

/-! ### Fragments with a language -/

section Realizes

variable {ℓ : Language Nat} {steady steady' : Prop} {lo hi t : Nat} {f : Fragment}
  {u v w : List Nat}

/-- A fragment stays sealed as long as its states are the same. -/
theorem Sealed.congr (h : A.Sealed lo hi f)
    (hB : ∀ x, lo ≤ x → x < hi → B.state x = A.state x) : B.Sealed lo hi f where
  start_mem := h.start_mem
  finish_mem := h.finish_mem
  fresh := h.fresh.congr (hB f.finish h.finish_mem.1 h.finish_mem.2)
  stays := fun x hlo hhi => (h.stays x hlo hhi).congr (hB x hlo hhi)

/-- A fragment that realizes a language embeds it. -/
theorem Realizes.embeds (h : A.Realizes ℓ steady lo hi f) : A.Embeds ℓ steady lo hi f :=
  ⟨A, h, fun _ _ _ _ => rfl⟩

/-- What is steady under a condition is steady under a stronger one. -/
theorem Realizes.weaken (h : A.Realizes ℓ steady lo hi f) (hs : steady' → steady) :
    A.Realizes ℓ steady' lo hi f :=
  ⟨h.isSealed, h.leads_iff, fun h' => h.settles (hs h')⟩

namespace Embeds

/-- A fragment keeps its language when only edges from its finish are added. -/
theorem congr (h : B.Embeds ℓ steady lo hi f) (hC : SameInside B C lo hi f.finish) :
    C.Embeds ℓ steady lo hi f := by
  obtain ⟨A, hA, hB⟩ := h
  exact ⟨A, hA, fun x hlo hhi hx => (hC x hlo hhi hx).trans (hB x hlo hhi hx)⟩

/-- The start of a fragment is one of its states. -/
theorem start_mem (h : B.Embeds ℓ steady lo hi f) : lo ≤ f.start ∧ f.start < hi := by
  obtain ⟨A, hA, -⟩ := h
  exact hA.isSealed.start_mem

/-- The finish of a fragment is one of its states. -/
theorem finish_mem (h : B.Embeds ℓ steady lo hi f) : lo ≤ f.finish ∧ f.finish < hi := by
  obtain ⟨A, hA, -⟩ := h
  exact hA.isSealed.finish_mem

/-- The edges of a fragment stay inside of it, but for those from its finish. -/
theorem stays (h : B.Embeds ℓ steady lo hi f) {x : Nat} (hlo : lo ≤ x) (hhi : x < hi)
    (hx : x ≠ f.finish) : B.Stays lo hi x := by
  obtain ⟨A, hA, hB⟩ := h
  exact (hA.isSealed.stays x hlo hhi).congr (hB x hlo hhi hx)

/-- A path through the fragment spells one of its words first. -/
theorem split (h : B.Embeds ℓ steady lo hi f) (ht : t < lo ∨ hi ≤ t ∨ t = f.finish) {k : Nat}
    (hs : B.Spells t k f.start w) :
    ∃ u v i j, i + j = k ∧ w = u ++ v ∧ u ∈ ℓ ∧ B.Spells t j f.finish v := by
  obtain ⟨A, hA, hB⟩ := h
  obtain ⟨hlo, hhi⟩ := hA.isSealed.start_mem
  obtain ⟨u, v, i, j, hk, hw, hu, hv⟩ := hA.isSealed.split hB ht hs hlo hhi
  exact ⟨u, v, i, j, hk, hw, (hA.leads_iff u).mp hu.leads, hv⟩

/-- A word of the fragment and a path on from its finish make a path from its start. -/
theorem join (h : B.Embeds ℓ steady lo hi f) (hu : u ∈ ℓ) (hv : B.Leads f.finish t v) :
    B.Leads f.start t (u ++ v) := by
  obtain ⟨A, hA, hB⟩ := h
  obtain ⟨hlo, hhi⟩ := hA.isSealed.start_mem
  exact hA.isSealed.join hB ((hA.leads_iff u).mpr hu) hlo hhi hv

/-- **What leads from the start of a fragment to a state outside**: a word of the fragment, then
what leads on from its finish. -/
theorem leads_iff (h : B.Embeds ℓ steady lo hi f) (ht : t < lo ∨ hi ≤ t ∨ t = f.finish) :
    B.Leads f.start t w ↔ ∃ u ∈ ℓ, ∃ v, B.Leads f.finish t v ∧ u ++ v = w := by
  constructor
  · rintro ⟨k, hk⟩
    obtain ⟨u, v, i, j, -, hw, hu, hv⟩ := h.split ht hk
    exact ⟨u, hu, v, hv.leads, hw.symm⟩
  · rintro ⟨u, hu, v, hv, rfl⟩
    exact h.join hu hv

/-- The states of a steady fragment settle if its finish does. -/
theorem settles (h : B.Embeds ℓ steady lo hi f) (hs : steady) (hfinish : B.Settles f.finish)
    {x : Nat} (hlo : lo ≤ x) (hhi : x < hi) : B.Settles x := by
  obtain ⟨A, hA, hB⟩ := h
  exact hA.isSealed.settles hB hfinish (hA.settles hs x hlo hhi) hlo hhi

/-- If the empty word is not one of the words, then it does not matter what comes after the
fragment. -/
theorem settles_start (h : B.Embeds ℓ steady lo hi f) (hs : steady) (hℓ : [] ∉ ℓ) :
    B.Settles f.start := by
  obtain ⟨A, hA, hB⟩ := h
  obtain ⟨hlo, hhi⟩ := hA.isSealed.start_mem
  exact hA.isSealed.settles_of_not_leads hB (hA.settles hs _ hlo hhi) hlo hhi
    fun hl => hℓ ((hA.leads_iff []).mp hl)

/-- As long as nothing leads on from the finish, the fragment realizes its language. -/
theorem realizes (h : B.Embeds ℓ steady lo hi f) (hfresh : B.Forks f.finish []) :
    B.Realizes ℓ steady lo hi f where
  isSealed := by
    refine ⟨h.start_mem, h.finish_mem, hfresh, fun x hlo hhi => ?_⟩
    by_cases hx : x = f.finish
    · rw [hx]
      exact hfresh.stays fun y hy => absurd hy List.not_mem_nil
    · exact h.stays hlo hhi hx
  leads_iff := fun w => by
    rw [h.leads_iff (.inr (.inr rfl))]
    constructor
    · rintro ⟨u, hu, v, ⟨k, hv⟩, rfl⟩
      rw [(hfresh.spells_nil hv).2, List.append_nil]
      exact hu
    · intro hw
      exact ⟨w, hw, [], .refl _, List.append_nil w⟩
  settles := fun hs x hlo hhi =>
    h.settles hs hfresh.settles_nil hlo hhi

end Embeds

/-- A fragment realizes its language as long as its states are the same. -/
theorem Realizes.congr (h : A.Realizes ℓ steady lo hi f)
    (hB : ∀ x, lo ≤ x → x < hi → B.state x = A.state x) : B.Realizes ℓ steady lo hi f :=
  (h.embeds.congr fun x hlo hhi _ => hB x hlo hhi).realizes (h.isSealed.congr hB).fresh

end Realizes

/-! ### Fragments without operands -/

/-- A fresh state is a fragment that matches the empty word. -/
theorem realizes_point {x : Nat} (h : A.Forks x []) (steady : Prop) :
    A.Realizes 1 steady x (x + 1) ⟨x, x⟩ where
  isSealed := by
    refine ⟨⟨Nat.le_refl x, Nat.lt_succ_self x⟩, ⟨Nat.le_refl x, Nat.lt_succ_self x⟩, h, ?_⟩
    intro y hlo hhi
    obtain rfl : y = x := Nat.le_antisymm (Nat.le_of_lt_succ hhi) hlo
    exact h.stays fun z hz => absurd hz List.not_mem_nil
  leads_iff := fun w => h.leads_self_iff.trans (Language.mem_one w).symm
  settles := fun _ y hlo hhi => by
    obtain rfl : y = x := Nat.le_antisymm (Nat.le_of_lt_succ hhi) hlo
    exact h.settles_nil

/-- A construction that cannot fail makes what it adds to every automaton. -/
theorem makes_of_forall {make : Automaton → Fragment × Automaton} {ℓ : Language Nat}
    {steady : Prop} (h : ∀ A : Automaton, A.Extends (make A).2 ∧
      (make A).2.Realizes ℓ steady A.size (make A).2.size (make A).1) :
    Assembly.Makes (fun A => .ok (make A)) ℓ steady := by
  intro A f B hmake
  obtain rfl : (make A).1 = f := congrArg Prod.fst (Except.ok.inj hmake)
  obtain rfl : (make A).2 = B := congrArg Prod.snd (Except.ok.inj hmake)
  exact h A

/-- A point matches the empty word only. -/
theorem makes_addPoint (steady : Prop) :
    Assembly.Makes (fun A => .ok A.addPoint) 1 steady := by
  refine makes_of_forall fun A => ⟨extends_addState A {}, ?_⟩
  have h := realizes_point (forks_addState A) steady
  rwa [← size_addState A {}] at h

/-- A code point of the ranges, then a word from state `y` on. -/
theorem realizes_move {ℓ : Language Nat} {steady : Prop} {ranges : List CharRange}
    {x y hi finish : Nat} (hx : A.state x = { moves := ranges, next := some y })
    (hy : y = x + 1) (h : A.Realizes ℓ steady y hi ⟨y, finish⟩) :
    A.Realizes (oneOf ranges * ℓ) steady x hi ⟨x, finish⟩ := by
  subst hy
  obtain ⟨hlo, hhi⟩ := h.isSealed.finish_mem
  have hslips : ∀ y, ¬ A.Slips x y := fun y hy => by
    rw [Slips, hx] at hy
    exact OrderedSet.not_mem_empty hy
  have henters : ∀ c y, A.enters x c = some y ↔ ranges.any (·.contains c) ∧ y = x + 1 := by
    intro c y
    rw [enters, State.consumes, hx]
    grind
  refine ⟨⟨⟨Nat.le_refl x, ?_⟩, ⟨?_, hhi⟩, h.isSealed.fresh, ?_⟩, ?_, ?_⟩
  · exact Nat.lt_trans (Nat.lt_of_succ_le hlo) hhi
  · exact Nat.le_of_succ_le hlo
  · intro y hylo hyhi
    by_cases hy : y = x
    · subst hy
      refine ⟨fun z hz => absurd hz (hslips z), fun c z hz => ?_, fun _ => hslips, by rw [hx],
        by rw [hx], by rw [hx], by rw [hx]⟩
      obtain ⟨-, rfl⟩ := (henters c z).mp hz
      exact ⟨Nat.le_succ y, Nat.lt_of_le_of_lt hlo hhi⟩
    · exact (h.isSealed.stays y (by omega) hyhi).mono (Nat.le_succ x) (Nat.le_refl hi)
  · intro w
    constructor
    · rintro ⟨k, hk⟩
      cases hk with
      | done => exact absurd hlo (Nat.not_succ_le_self _)
      | slip hxy _ => exact absurd hxy (hslips _)
      | move hm hrest =>
          obtain ⟨hc, rfl⟩ := (henters _ _).mp hm
          exact Language.append_mem_mul (mem_oneOf.mpr ⟨_, hc, rfl⟩)
            ((h.leads_iff _).mp hrest.leads)
    · intro hw
      obtain ⟨_, ⟨c, hc, rfl⟩, v, hv, rfl⟩ := Language.mem_mul.mp hw
      exact ((h.leads_iff v).mpr hv).move ((henters c (x + 1)).mpr ⟨hc, rfl⟩)
  · intro hs y hylo hyhi
    by_cases hy : y = x
    · subst hy
      exact Acc.intro _ fun z hz => absurd hz (hslips z)
    · exact h.settles hs y (by omega) hyhi

/-! ### Pairs of states -/

/-- A pair of fresh states leaves the older ones as they were. -/
theorem extends_addPair (A : Automaton) : A.Extends A.addPair.2 :=
  (extends_addState A {}).trans (extends_addState _ {})

/-- A pair adds two states. -/
@[simp] theorem size_addPair (A : Automaton) : A.addPair.2.size = A.size + 2 := by
  have h : A.addPair.2.size = (A.addState {}).2.size + 1 := size_addState (A.addState {}).2 {}
  rw [h, size_addState]

/-- The start of a pair is the first new state, and its finish the second. -/
theorem addPair_fst (A : Automaton) : A.addPair.1 = ⟨A.size, A.size + 1⟩ :=
  congrArg (Fragment.mk A.size) (size_addState A {})

/-- The start of a pair has no edges yet. -/
theorem forks_addPair_start (A : Automaton) : A.addPair.2.Forks A.size [] := by
  refine (forks_addState A).congr ((extends_addState (A.addState {}).2 {}).state_eq A.size ?_)
  exact (size_addState A {}).symm ▸ Nat.lt_succ_self A.size

/-- The finish of a pair has no edges. -/
theorem forks_addPair_finish (A : Automaton) : A.addPair.2.Forks (A.size + 1) [] := by
  have h := forks_addState (A.addState {}).2
  rwa [size_addState] at h

/-- A fresh state gets moves. -/
theorem state_modify_moves {x y : Nat} (h : A.Forks x []) (hx : x < A.size)
    (ranges : List CharRange) :
    (A.modify x fun s => { s with moves := ranges, next := some y }).state x
      = { moves := ranges, next := some y } := by
  rw [state_modify, if_pos ⟨rfl, hx⟩, forks_nil_iff.mp h]

/-- The fragment of a class matches the words of one of its characters. -/
theorem makes_addClass (ranges : List CharRange) (steady : Prop) :
    Assembly.Makes (fun A => .ok (A.addClass ranges)) (oneOf ranges) steady := by
  refine makes_of_forall fun A => ⟨(extends_addPair A).modify (Nat.le_refl A.size) _, ?_⟩
  have hsize := size_addPair A
  have hstate := state_modify_moves (y := A.size + 1) (forks_addPair_start A)
    (by rw [hsize]; omega) ranges
  have hfinish : (A.addPair.2.modify A.size fun s =>
      { s with moves := ranges, next := some (A.size + 1) }).Forks (A.size + 1) [] :=
    (forks_addPair_finish A).congr (by rw [state_modify, if_neg (by omega)])
  have h := realizes_move hstate rfl (realizes_point hfinish steady)
  rw [mul_one, ← hsize] at h
  simp only [addClass, size_modify, addPair_fst]
  exact h

/-- The characters of a text, from a fresh state on that was added last. -/
theorem realizes_addCharacters (ignoreCase : Bool) (steady : Prop) (cs : List Nat) :
    ∀ (source : Nat) (A : Automaton), A.size = source + 1 → A.Forks source [] →
      (∀ A₀ : Automaton, A₀.Extends A → A₀.size ≤ source →
        A₀.Extends (addCharacters ignoreCase cs source A).2) ∧
      (∀ x, x < source → (addCharacters ignoreCase cs source A).2.state x = A.state x) ∧
      (addCharacters ignoreCase cs source A).2.Realizes
        (cs.map fun c => oneOf (characterMoves ignoreCase c)).prod steady source
        (addCharacters ignoreCase cs source A).2.size
        ⟨source, (addCharacters ignoreCase cs source A).1⟩ := by
  induction cs with
  | nil =>
      intro source A hsize hsource
      refine ⟨fun _ h _ => h, fun _ _ => rfl, ?_⟩
      have h := realizes_point hsource steady
      rwa [← hsize] at h
  | cons d rest ih =>
      intro source A hsize hsource
      have hextends := extends_addState A {}
      have hmodify : ((A.addState {}).2.modify source fun s =>
          { s with moves := characterMoves ignoreCase d, next := some A.size }).size
            = A.size + 1 := by
        rw [size_modify, size_addState]
      have hstate := state_modify_moves (y := A.size)
        (hsource.congr (hextends.state_eq source (by omega)))
        (by rw [size_addState]; omega) (characterMoves ignoreCase d)
      have htarget : ((A.addState {}).2.modify source fun s =>
          { s with moves := characterMoves ignoreCase d, next := some A.size }).Forks A.size [] :=
        (forks_addState A).congr (by rw [state_modify, if_neg (by omega)])
      obtain ⟨hgrow, hbelow, hrest⟩ := ih A.size _ hmodify htarget
      refine ⟨fun A₀ h₀ hsource₀ => ?_, fun x hx => ?_, ?_⟩
      · exact hgrow A₀ ((h₀.trans hextends).modify hsource₀ _) (by omega)
      · refine (hbelow x (by omega)).trans ?_
        rw [state_modify, if_neg (by omega)]
        exact hextends.state_eq x (by omega)
      · exact realizes_move ((hbelow source (by omega)).trans hstate) hsize hrest

/-- The fragment of a text matches its characters in turn, each in its cases if these are ignored.
-/
theorem makes_addText (ignoreCase : Bool) (image : String) (steady : Prop) :
    Assembly.Makes (fun A => .ok (A.addText ignoreCase image))
      ((image.toList.map Char.toNat).map fun c => oneOf (characterMoves ignoreCase c)).prod
      steady := by
  refine makes_of_forall fun A => ?_
  obtain ⟨hgrow, -, h⟩ := realizes_addCharacters ignoreCase steady (image.toList.map Char.toNat)
    A.size (A.addState {}).2 (size_addState A {}) (forks_addState A)
  exact ⟨hgrow A (extends_addState A {}) (Nat.le_refl A.size), h⟩

end Automaton

end GrammarAnalysis
