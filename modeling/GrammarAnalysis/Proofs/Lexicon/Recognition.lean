import GrammarAnalysis.Proofs.Automaton.Recognition
import GrammarAnalysis.Proofs.Lexicon.Expansion

/-!
# What a Lexer Recognizes

The automaton of a lexical state has a fragment for each pattern of the state. The initial state
leads to the start of each, and the finish of each accepts its pattern, so the paths of the
automaton spell the words of the patterns. Closing it may lose some of these paths, namely on a
cycle of steps that consume nothing; there is such a cycle only in a pattern that repeats
something which matches the empty word.

## Main definitions

* `Lexicon.Planted`: the fragment of a pattern in an automaton;
* `Lexicon.Plants`: a step of the construction that adds such a fragment;
* `Lexicon.Sprouted`: the automaton of some patterns, before it is closed;
* `Lexicon.Declares`, `Lexicon.Unbuilt`: what a lexical state is built from.

## Main results

* `Lexicon.sprouted_build`: the automaton that a lexical state closes;
* `Lexicon.mem_languageIn_of_accepts`, `Lexicon.accepts_of_mem_languageIn`: the words of a
  lexical state;
* `Lexicon.build_accepts`: the words of the lexical states of a lexicon.
-/

namespace GrammarAnalysis

namespace Lexicon

open Automaton

/-- The fragment of a pattern, whose finish accepts the pattern. -/
structure Planted (L : Lexicon) (A : Automaton) (id : Nat) (ignoreCase : Bool) (lo hi : Nat)
    (f : Fragment) : Prop where
  pos : 0 < lo
  le_size : hi ≤ A.size
  finish_eq : A.state f.finish = { accepts := some id }
  embeds : ∃ ℓ, A.Embeds ℓ False lo hi f
  embeds_tree : ∀ tree, (L.pattern id).tree = some tree → tree.Expandable L.namedTree →
    A.Embeds (tree.languageIn (L.folding ignoreCase) L.namedTree)
      (tree.Steady (L.folding ignoreCase) L.namedTree) lo hi f

/-- The automaton of a list of patterns with their case flags, before it is closed. -/
structure Sprouted (L : Lexicon) (patterns : List (Nat × Bool)) (A : Automaton) : Prop where
  initial_eq : A.initial = 0
  size_pos : 0 < A.size
  composites_eq : A.composites = []
  mem_live : ∀ x, x < A.size → x ∈ A.live
  plain : ∀ x, (A.state x).members = none ∧ (A.state x).closed = false ∧ (A.state x).index = none
  root : (A.state 0).moves = [] ∧ (A.state 0).accepts = none
  slips : ∀ y, A.Slips 0 y → ∃ p ∈ patterns, ∃ lo hi f, L.Planted A p.1 p.2 lo hi f ∧ y = f.start
  planted : ∀ p ∈ patterns, ∃ lo hi f, L.Planted A p.1 p.2 lo hi f ∧ A.Slips 0 f.start
  covered : ∀ x, 0 < x → x < A.size →
    ∃ p ∈ patterns, ∃ lo hi f, L.Planted A p.1 p.2 lo hi f ∧ lo ≤ x ∧ x < hi

/-- From `A` to `B`, a pattern was planted in fresh states, in the fragment `f`. -/
structure Plants (L : Lexicon) (A B : Automaton) (id : Nat) (ignoreCase : Bool) (f : Fragment) :
    Prop where
  planted : L.Planted B id ignoreCase A.size B.size f
  made : ∃ ℓ C, (L.expand ignoreCase id).Makes ℓ False ∧ B.Embeds ℓ False A.size B.size f ∧
    L.expand ignoreCase id A = .ok (f, C)
  kept : ∀ x, 0 < x → x < A.size → B.state x = A.state x
  root_eq : B.state 0 = { A.state 0 with epsilon := (A.state 0).epsilon.insert f.start }
  initial_eq : B.initial = A.initial
  composites_eq : B.composites = A.composites
  mem_live : ∀ x, x < B.size → A.size ≤ x ∨ x ∈ A.live → x ∈ B.live
  blank : ∀ x, A.size ≤ x →
    (B.state x).members = none ∧ (B.state x).closed = false ∧ (B.state x).index = none

variable {L : Lexicon} {A B : Automaton} {id : Nat} {ignoreCase : Bool} {lo hi : Nat}
  {f : Fragment}

/-- Token production `tp` declares the pattern, for matching in lexical state `i`. -/
def Declares (L : Lexicon) (i tp pattern : Nat) : Prop :=
  tp < L.tokenProductions.size ∧
    (∃ name ∈ (L.production tp).lexicalStates, L.stateIndex name = some i) ∧
    (∃ e ∈ (L.production tp).entries, e.pattern = pattern) ∧ (L.pattern pattern).isPrivate = false

/-- Case is ignored in the patterns that a token production declares. -/
def foldsCase (L : Lexicon) (tp : Nat) : Bool := (L.production tp).ignoreCase || L.ignoreCase

/-- A pattern that a token production declares has one case flag for its classes and its texts. -/
theorem folding_foldsCase (L : Lexicon) (tp : Nat) :
    L.folding (L.foldsCase tp) = L.foldsCase tp := by
  rw [folding, foldsCase]
  cases L.ignoreCase <;> cases (L.production tp).ignoreCase <;> rfl

/-- The lexical states have not been built. -/
def Unbuilt (L : Lexicon) : Prop :=
  ∀ s ∈ L.lexicalStates.toList, s.automaton = .start ∧ s.tokenProductions = []

/-- A lexical state of a lexicon that has not been built. -/
theorem Unbuilt.state (hL : L.Unbuilt) {i : Nat} {s : LexicalState}
    (hs : L.lexicalStates[i]? = some s) : s.automaton = .start ∧ s.tokenProductions = [] :=
  hL s (List.mem_of_getElem? (by rwa [Array.getElem?_toList]))

/-- A pattern is declared for lexical states that exist. -/
theorem Declares.exists_state {i tp : Nat} (h : L.Declares i tp id) :
    ∃ S, L.lexicalStates[i]? = some S := by
  obtain ⟨-, ⟨name, -, hname⟩, -⟩ := h
  obtain ⟨hlt, -⟩ := List.findIdx?_eq_some_iff_getElem.mp hname
  rw [Array.length_toList] at hlt
  exact ⟨_, Array.getElem?_eq_getElem hlt⟩

/-! ### Planting a pattern -/

/-- A planted fragment stays in place while its states are the same. -/
theorem Planted.congr (h : L.Planted A id ignoreCase lo hi f) (hsize : A.size ≤ B.size)
    (hB : ∀ x, 0 < x → x < A.size → B.state x = A.state x) :
    L.Planted B id ignoreCase lo hi f := by
  have hlo := h.pos
  have hhi := h.le_size
  have hsame : SameInside A B lo hi f.finish := fun x hx hx' _ => hB x (by omega) (by omega)
  obtain ⟨ℓ, hℓ⟩ := h.embeds
  have hfinish := hℓ.finish_mem
  refine ⟨hlo, Nat.le_trans hhi hsize, ?_, ⟨ℓ, hℓ.congr hsame⟩,
    fun tree htree hexp => (h.embeds_tree tree htree hexp).congr hsame⟩
  rw [hB f.finish (by omega) (by omega)]
  exact h.finish_eq

/-- Where a pattern is planted, one cannot get out. -/
theorem Planted.stays (h : L.Planted A id ignoreCase lo hi f) {x : Nat} (hlo : lo ≤ x)
    (hhi : x < hi) : (∀ y, A.Slips x y → lo ≤ y ∧ y < hi) ∧
      ∀ c y, A.enters x c = some y → lo ≤ y ∧ y < hi := by
  by_cases hx : x = f.finish
  · subst hx
    refine ⟨fun y hy => ?_, fun c y hy => ?_⟩
    · rw [Slips, h.finish_eq] at hy
      exact absurd hy OrderedSet.not_mem_empty
    · rw [enters, State.consumes, h.finish_eq] at hy
      cases hy
  · obtain ⟨ℓ, hℓ⟩ := h.embeds
    have hstays := hℓ.stays hlo hhi hx
    exact ⟨hstays.slips, hstays.enters⟩

/-- No path leaves a planted fragment. -/
theorem Planted.spells_mem (h : L.Planted A id ignoreCase lo hi f) {t k x : Nat} {w : List Nat}
    (hs : A.Spells t k x w) (hlo : lo ≤ x) (hhi : x < hi) : lo ≤ t ∧ t < hi := by
  induction hs with
  | done => exact ⟨hlo, hhi⟩
  | slip hstep _ ih =>
      obtain ⟨hylo, hyhi⟩ := (h.stays hlo hhi).1 _ hstep
      exact ih hylo hyhi
  | move hstep _ ih =>
      obtain ⟨hylo, hyhi⟩ := (h.stays hlo hhi).2 _ _ hstep
      exact ih hylo hyhi

/-- Only the finish accepts something. -/
theorem Planted.accepts_iff (h : L.Planted A id ignoreCase lo hi f) {x pattern : Nat}
    (hlo : lo ≤ x) (hhi : x < hi) :
    (A.state x).accepts = some pattern ↔ x = f.finish ∧ pattern = id := by
  by_cases hx : x = f.finish
  · subst hx
    rw [h.finish_eq]
    simp [eq_comm]
  · obtain ⟨ℓ, hℓ⟩ := h.embeds
    rw [(hℓ.stays hlo hhi hx).accepts]
    simp [hx]

/-- A path to the finish spells a word of the language that the fragment embeds. -/
theorem Planted.embeds_leads_iff (h : L.Planted A id ignoreCase lo hi f) {ℓ : Language Nat}
    {steady : Prop} (hℓ : A.Embeds ℓ steady lo hi f) {w : List Nat} :
    A.Leads f.start f.finish w ↔ w ∈ ℓ := by
  rw [hℓ.leads_iff (.inr (.inr rfl))]
  constructor
  · rintro ⟨u, hu, v, ⟨k, hv⟩, rfl⟩
    obtain rfl : v = [] := by
      cases hv with
      | done => rfl
      | slip hstep _ =>
          rw [Slips, h.finish_eq] at hstep
          exact absurd hstep OrderedSet.not_mem_empty
      | move hstep _ =>
          rw [enters, State.consumes, h.finish_eq] at hstep
          cases hstep
    rwa [List.append_nil]
  · intro hw
    exact ⟨w, hw, [], .refl _, List.append_nil w⟩

/-- A path to the finish spells a word of the pattern. -/
theorem Planted.leads_iff (h : L.Planted A id ignoreCase lo hi f) {tree : Regex}
    (htree : (L.pattern id).tree = some tree) (hexp : tree.Expandable L.namedTree)
    {w : List Nat} :
    A.Leads f.start f.finish w ↔ w ∈ tree.languageIn (L.folding ignoreCase) L.namedTree :=
  h.embeds_leads_iff (h.embeds_tree tree htree hexp)

/-- The states of the automaton at the start are empty. -/
theorem state_start (x : Nat) : Automaton.start.state x = {} := by
  cases x with
  | zero => rfl
  | succ x => exact state_of_size_le (Nat.le_add_left 1 x)

/-- At the start no pattern is planted. -/
theorem sprouted_start (L : Lexicon) : L.Sprouted [] .start where
  initial_eq := rfl
  size_pos := Nat.one_pos
  composites_eq := rfl
  mem_live := fun x hx => OrderedSet.mem_singleton.mpr (Nat.lt_one_iff.mp hx)
  plain := fun x => by
    rw [state_start]
    exact ⟨rfl, rfl, rfl⟩
  root := ⟨rfl, rfl⟩
  slips := fun y hy => by
    rw [Slips, state_start] at hy
    exact absurd hy OrderedSet.not_mem_empty
  planted := fun p hp => absurd hp List.not_mem_nil
  covered := fun _ hx hx' => absurd hx' (Nat.not_lt_of_le hx)

/-- The fragment of a pattern is planted in fresh states. -/
theorem Sprouted.plants {patterns : List (Nat × Bool)} (h : L.Sprouted patterns A)
    (hB : L.addToAutomaton ignoreCase id A = .ok B) : ∃ f, L.Plants A B id ignoreCase f := by
  obtain ⟨⟨f, C⟩, hf, hB⟩ := exists_of_bind_eq_ok (x := L.expand ignoreCase id A) hB
  obtain rfl := Except.ok.inj hB
  obtain ⟨ℓ, hℓ⟩ := exists_makes_expand L ignoreCase id
  obtain ⟨hextends, hrealizes⟩ := hℓ A f C hf
  have hpos := h.size_pos
  have hsize := hextends.size_le
  have hstart := hrealizes.isSealed.start_mem
  have hfinish := hrealizes.isSealed.finish_mem
  have hinitial : C.initial = 0 := hextends.initial_eq.trans h.initial_eq
  refine ⟨f, ?_⟩
  change L.Plants A ((C.modify f.finish fun s => { s with accepts := some id }).addEpsilon
    C.initial f.start) id ignoreCase f
  rw [hinitial]
  generalize hD : ((C.modify f.finish fun s => { s with accepts := some id }).addEpsilon 0 f.start)
    = D
  have hsizeD : D.size = C.size := by
    rw [← hD, size_addEpsilon, size_modify]
  have hother : ∀ x, 0 < x → x ≠ f.finish → D.state x = C.state x := fun x hx hxf => by
    rw [← hD, addEpsilon, state_modify_of_ne (Nat.ne_of_gt hx), state_modify_of_ne hxf]
  have hnew : D.state f.finish = { accepts := some id } := by
    rw [← hD, addEpsilon, state_modify_of_ne (by omega), state_modify_self hfinish.2,
      forks_nil_iff.mp hrealizes.isSealed.fresh]
  have hsame : SameInside C D A.size C.size f.finish := fun x hx _ hxf => hother x (by omega) hxf
  have hembeds := hrealizes.embeds.congr hsame
  refine ⟨?_, ?_, fun x hx hx' => ?_, ?_, ?_, ?_, fun x hx hlive => ?_, fun x hx => ?_⟩
  · rw [hsizeD]
    exact { pos := hpos
            le_size := hsizeD.ge
            finish_eq := hnew
            embeds := ⟨ℓ, hembeds⟩
            embeds_tree := fun tree htree hexp =>
              (makes_expand hexp htree A f C hf).2.embeds.congr hsame }
  · rw [hsizeD]
    exact ⟨ℓ, C, hℓ, hembeds, hf⟩
  · exact (hother x hx (by omega)).trans (hextends.state_eq x hx')
  · rw [← hD, addEpsilon, state_modify_self (by rw [size_modify]; omega),
      state_modify_of_ne (by omega), hextends.state_eq 0 hpos]
  · rw [← hD]
    exact hextends.initial_eq
  · rw [← hD]
    exact hextends.composites_eq
  · rw [hsizeD] at hx
    rw [← hD]
    exact hextends.mem_live x hx hlive
  · by_cases hxf : x = f.finish
    · rw [hxf, hnew]
      exact ⟨rfl, rfl, rfl⟩
    · rw [hother x (by omega) hxf]
      by_cases hxC : x < C.size
      · have hstays := hrealizes.isSealed.stays x hx hxC
        exact ⟨hstays.members, hstays.closed, hstays.index⟩
      · rw [state_of_size_le (Nat.le_of_not_lt hxC)]
        exact ⟨rfl, rfl, rfl⟩

/-- Planting a pattern adds states. -/
theorem Plants.lt_size (h : L.Plants A B id ignoreCase f) : A.size < B.size := by
  obtain ⟨ℓ, hℓ⟩ := h.planted.embeds
  have := hℓ.start_mem
  omega

/-- Planting a pattern gives the initial state one more successor, the start of its fragment. -/
theorem Plants.slips_iff (h : L.Plants A B id ignoreCase f) (y : Nat) :
    B.Slips 0 y ↔ y = f.start ∨ A.Slips 0 y := by
  rw [Slips, h.root_eq]
  exact OrderedSet.mem_insert

/-- What was planted before is still there. -/
theorem Plants.keeps (h : L.Plants A B id ignoreCase f) {p : Nat × Bool} {g : Fragment}
    (hp : L.Planted A p.1 p.2 lo hi g) : L.Planted B p.1 p.2 lo hi g :=
  hp.congr h.lt_size.le h.kept

/-- One more pattern is planted. -/
theorem Sprouted.add {patterns : List (Nat × Bool)} (h : L.Sprouted patterns A)
    (hB : L.addToAutomaton ignoreCase id A = .ok B) :
    L.Sprouted (patterns ++ [(id, ignoreCase)]) B := by
  obtain ⟨f, hf⟩ := h.plants hB
  have hlt := hf.lt_size
  have hpos := h.size_pos
  refine ⟨hf.initial_eq.trans h.initial_eq, by omega, hf.composites_eq.trans h.composites_eq,
    fun x hx => ?_, fun x => ?_, ?_, fun y hy => ?_, fun p hp => ?_, fun x hx hxB => ?_⟩
  · by_cases hxA : x < A.size
    · exact hf.mem_live x hx (.inr (h.mem_live x hxA))
    · exact hf.mem_live x hx (.inl (Nat.le_of_not_lt hxA))
  · by_cases hx : x = 0
    · rw [hx, hf.root_eq]
      exact h.plain 0
    · by_cases hxA : x < A.size
      · rw [hf.kept x (Nat.pos_of_ne_zero hx) hxA]
        exact h.plain x
      · exact hf.blank x (Nat.le_of_not_lt hxA)
  · rw [hf.root_eq]
    exact h.root
  · rcases (hf.slips_iff y).mp hy with rfl | hy
    · exact ⟨_, List.mem_append_right _ (List.mem_singleton_self _), _, _, f, hf.planted, rfl⟩
    · obtain ⟨p, hp, lo, hi, g, hg, rfl⟩ := h.slips y hy
      exact ⟨p, List.mem_append_left _ hp, lo, hi, g, hf.keeps hg, rfl⟩
  · rcases List.mem_append.mp hp with hp | hp
    · obtain ⟨lo, hi, g, hg, hgs⟩ := h.planted p hp
      exact ⟨lo, hi, g, hf.keeps hg, (hf.slips_iff _).mpr (.inr hgs)⟩
    · rw [List.mem_singleton.mp hp]
      exact ⟨_, _, f, hf.planted, (hf.slips_iff _).mpr (.inl rfl)⟩
  · by_cases hxA : x < A.size
    · obtain ⟨p, hp, lo, hi, g, hg, hmem⟩ := h.covered x hx hxA
      exact ⟨p, List.mem_append_left _ hp, lo, hi, g, hf.keeps hg, hmem⟩
    · exact ⟨_, List.mem_append_right _ (List.mem_singleton_self _), _, _, f, hf.planted,
        by omega, by omega⟩

/-- The patterns are planted one by one. -/
theorem Sprouted.addAll {rest planted : List (Nat × Bool)} (h : L.Sprouted planted A)
    (hB : rest.foldlM (fun A p => L.addToAutomaton p.2 p.1 A) A = .ok B) :
    L.Sprouted (planted ++ rest) B := by
  induction rest generalizing planted A with
  | nil =>
      obtain rfl : A = B := Except.ok.inj hB
      rwa [List.append_nil]
  | cons p rest ih =>
      obtain ⟨C, hC, hB⟩ := exists_of_bind_eq_ok hB
      have hgrown := ih (h.add hC) hB
      rwa [List.append_assoc, List.singleton_append] at hgrown

/-- **The automaton that a lexical state closes** has the patterns of the state. -/
theorem sprouted_build {s S : LexicalState} (hs : s.automaton = .start)
    (h : s.build L = .ok S) :
    ∃ A, L.Sprouted (L.patternsOf s) A ∧ A.prepare = .ok S.automaton := by
  obtain ⟨A, hA, h⟩ := exists_of_bind_eq_ok h
  obtain ⟨B, hB, h⟩ := exists_of_bind_eq_ok h
  obtain rfl := Except.ok.inj h
  rw [hs] at hA
  exact ⟨A, (sprouted_start L).addAll hA, hB⟩

/-! ### The words of a lexical state -/

section Words

variable {patterns : List (Nat × Bool)} {pattern : Nat} {w : List Nat}

/-- What the initial state reaches is a state of the automaton. -/
theorem Sprouted.reaches_lt (h : L.Sprouted patterns A) {x : Nat} (hx : A.Reaches 0 x) :
    x < A.size := by
  rcases Relation.ReflTransGen.cases_head hx with rfl | ⟨y, hy, hx⟩
  · exact h.size_pos
  · obtain ⟨p, -, lo, hi, f, hf, rfl⟩ := h.slips y hy
    obtain ⟨ℓ, hℓ⟩ := hf.embeds
    obtain ⟨k, hk⟩ := Reaches.leads hx (.refl x)
    exact Nat.lt_of_lt_of_le (hf.spells_mem hk hℓ.start_mem.1 hℓ.start_mem.2).2 hf.le_size

/-- Nothing has been closed or replaced in an automaton of planted patterns. -/
theorem Sprouted.unprepared (h : L.Sprouted patterns A) : A.Unprepared where
  plain := fun x => (h.plain x).1
  unclosed := fun x => (h.plain x).2.1
  composites_eq := h.composites_eq
  mem_live := h.mem_live
  initial_lt := h.initial_eq ▸ h.size_pos
  reaches_lt := fun x hx => h.reaches_lt (by rwa [h.initial_eq] at hx)

/-- A path from the initial state to one that accepts something is one through the fragment of a
pattern. -/
theorem Sprouted.exists_planted (h : L.Sprouted patterns A) {t : Nat} (hl : A.Leads 0 t w)
    (ht : (A.state t).accepts = some pattern) :
    ∃ ignoreCase lo hi f, (pattern, ignoreCase) ∈ patterns ∧
      L.Planted A pattern ignoreCase lo hi f ∧ A.Leads f.start f.finish w := by
  obtain ⟨k, hk⟩ := hl
  cases hk with
  | done =>
      rw [h.root.2] at ht
      cases ht
  | slip hstep hrest =>
      obtain ⟨⟨id, ignoreCase⟩, hp, lo, hi, f, hf, rfl⟩ := h.slips _ hstep
      obtain ⟨ℓ, hℓ⟩ := hf.embeds
      obtain ⟨hlo, hhi⟩ := hf.spells_mem hrest hℓ.start_mem.1 hℓ.start_mem.2
      obtain ⟨rfl, rfl⟩ := (hf.accepts_iff hlo hhi).mp ht
      exact ⟨ignoreCase, lo, hi, f, hp, hf, hrest.leads⟩
  | move hstep _ =>
      rw [enters, State.consumes, h.root.1] at hstep
      cases hstep

/-- A state that settles is on no cycle of steps that consume nothing. -/
theorem Settles.antisymm {x y : Nat} (hx : A.Settles x) (hxy : A.Reaches x y)
    (hyx : A.Reaches y x) : y = x := by
  induction hx generalizing y with
  | intro x _ ih =>
      rcases hxy.cases_ne with hy | ⟨s, hne, hs, hsy⟩
      · exact hy
      · exact absurd (ih s hs (hsy.trans hyx) (.single hs)).symm hne

/-- In a pattern that repeats nothing which matches the empty word, there is no cycle of steps
that consume nothing. -/
theorem Planted.tame (h : L.Planted A id ignoreCase lo hi f) {tree : Regex}
    (htree : (L.pattern id).tree = some tree) (hexp : tree.Expandable L.namedTree)
    (hsteady : tree.Steady (L.folding ignoreCase) L.namedTree) :
    A.Tame fun x => lo ≤ x ∧ x < hi where
  lt_size := fun x hx => Nat.lt_of_lt_of_le hx.2 h.le_size
  slips := fun x y hx hy => (h.stays hx.1 hx.2).1 y hy
  enters := fun x c y hx hy => (h.stays hx.1 hx.2).2 c y hy
  antisymm := by
    have hfinish : A.Settles f.finish := Acc.intro _ fun y hy => by
      rw [Slips, h.finish_eq] at hy
      exact absurd hy OrderedSet.not_mem_empty
    exact fun x y hx hxy hyx => Settles.antisymm
      ((h.embeds_tree tree htree hexp).settles hsteady hfinish hx.1 hx.2) hxy hyx

/-- A word that is accepted with a pattern is a word of the pattern. -/
theorem mem_languageIn_of_accepts (h : L.Sprouted patterns A) (hB : A.prepare = .ok B)
    (hw : B.accepts pattern w) :
    ∃ ignoreCase, (pattern, ignoreCase) ∈ patterns ∧ ∀ tree,
      (L.pattern pattern).tree = some tree → tree.Expandable L.namedTree →
      w ∈ tree.languageIn (L.folding ignoreCase) L.namedTree := by
  obtain ⟨t, hl, ht⟩ := leads_of_accepts h.unprepared hB hw
  rw [h.initial_eq] at hl
  obtain ⟨ignoreCase, lo, hi, f, hp, hf, hleads⟩ := h.exists_planted hl ht
  exact ⟨ignoreCase, hp, fun tree htree hexp => (hf.leads_iff htree hexp).mp hleads⟩

/-- A word of a pattern is accepted, if the pattern is steady. -/
theorem accepts_of_mem_languageIn (h : L.Sprouted patterns A) (hB : A.prepare = .ok B)
    {tree : Regex} (hp : (pattern, ignoreCase) ∈ patterns)
    (htree : (L.pattern pattern).tree = some tree) (hexp : tree.Expandable L.namedTree)
    (hsteady : tree.Steady (L.folding ignoreCase) L.namedTree)
    (hw : w ∈ tree.languageIn (L.folding ignoreCase) L.namedTree) (hne : w ≠ []) :
    B.accepts pattern w := by
  obtain ⟨lo, hi, f, hf, hstart⟩ := h.planted _ hp
  obtain ⟨ℓ, hℓ⟩ := hf.embeds
  rw [← h.initial_eq] at hstart
  exact accepts_of_leads (hf.tame htree hexp hsteady) h.unprepared hB hstart hℓ.start_mem
    ((hf.leads_iff htree hexp).mpr hw)
    ((hf.accepts_iff hℓ.finish_mem.1 hℓ.finish_mem.2).mpr ⟨rfl, rfl⟩) hne

end Words

/-! ### Building a lexicon -/

section Build

variable {L' : Lexicon} {log log' : Log}

/-- One use of a lexical state by a token production. -/
def enterUse : Lexicon × Log → Nat × String → Lexicon × Log
  | (L, log), (id, name) =>
    match L.stateIndex name with
    | some index => (L.modifyState index (·.addTokenProduction id), log)
    | none => (L, log.addError .grammar (undefinedStateText name))

/-- The place of a lexical state depends on the names of the lexical states only. -/
theorem stateIndex_congr (h : ∀ i : Nat, (L'.lexicalStates[i]?).map LexicalState.name
    = (L.lexicalStates[i]?).map LexicalState.name) (name : String) :
    L'.stateIndex name = L.stateIndex name := by
  have hnames : L'.lexicalStates.toList.map (·.name) = L.lexicalStates.toList.map (·.name) :=
    List.ext_getElem? fun i => by
      rw [List.getElem?_map, List.getElem?_map, Array.getElem?_toList, Array.getElem?_toList, h i]
  have hindex : ∀ M : Lexicon, M.stateIndex name
      = (M.lexicalStates.toList.map (·.name)).findIdx? (· == name) := fun M => by
    rw [List.findIdx?_map]
    rfl
  rw [hindex, hindex, hnames]

/-- Lexical state `i`, with the token productions that use it. -/
def entered (L : Lexicon) (uses : List (Nat × String)) (i : Nat) (s : LexicalState) :
    LexicalState :=
  { s with tokenProductions := s.tokenProductions ++
      (uses.filter fun use => L.stateIndex use.2 = some i).map (·.1) }

/-- A lexical state that is not used stays as it is. -/
theorem entered_of_ne {uses : List (Nat × String)} {i : Nat}
    (h : ∀ use ∈ uses, L.stateIndex use.2 ≠ some i) : L.entered uses i = fun s => s := by
  funext s
  have hnone : (uses.filter fun use => L.stateIndex use.2 = some i) = [] :=
    List.filter_eq_nil_iff.mpr fun use huse => by simpa using h use huse
  rw [entered, hnone, List.map_nil, List.append_nil]

/-- A use changes only the lexical state that it names. -/
theorem enterUse_spec (L : Lexicon) (log : Log) (use : Nat × String) :
    ∃ states log', enterUse (L, log) use = ({ L with lexicalStates := states }, log') ∧
      ∀ i : Nat, states[i]? = (L.lexicalStates[i]?).map (L.entered [use] i) := by
  obtain ⟨id, name⟩ := use
  simp only [enterUse]
  cases hindex : L.stateIndex name with
  | none =>
      refine ⟨L.lexicalStates, _, rfl, fun i => ?_⟩
      rw [entered_of_ne (by simp [hindex]), Option.map_id']
  | some index =>
      refine ⟨_, _, rfl, fun i => ?_⟩
      rw [Array.getElem?_modify]
      split
      · rename_i hi
        subst hi
        congr 1
        funext s
        simp [entered, hindex, LexicalState.addTokenProduction]
      · rename_i hi
        rw [entered_of_ne (by simp [hindex, hi]), Option.map_id']

/-- The token productions are entered into the lexical states that they name. -/
theorem enterUses_spec (uses : List (Nat × String)) : ∀ (L : Lexicon) (log : Log),
    ∃ states log', uses.foldl enterUse (L, log) = ({ L with lexicalStates := states }, log') ∧
      ∀ i : Nat, states[i]? = (L.lexicalStates[i]?).map (L.entered uses i) := by
  induction uses with
  | nil =>
      refine fun L log => ⟨L.lexicalStates, log, rfl, fun i => ?_⟩
      rw [entered_of_ne (by simp), Option.map_id']
  | cons use uses ih =>
      intro L log
      obtain ⟨states, log₁, hnext, hstates⟩ := enterUse_spec L log use
      obtain ⟨states', log', heq, hstates'⟩ := ih { L with lexicalStates := states } log₁
      have hindex : ∀ name,
          ({ L with lexicalStates := states } : Lexicon).stateIndex name = L.stateIndex name :=
        stateIndex_congr fun i => by
          rw [hstates i, Option.map_map]
          rfl
      refine ⟨states', log', by rw [List.foldl_cons, hnext, heq], fun i => ?_⟩
      rw [hstates' i, hstates i, Option.map_map]
      congr 1
      funext s
      simp only [Function.comp, entered, hindex, List.append_assoc, ← List.map_append,
        ← List.filter_append, List.singleton_append]

/-- Setting the transitions leaves the lexical states as they are. -/
theorem setTransitions_lexicalStates (L : Lexicon) :
    L.setTransitions.lexicalStates = L.lexicalStates := by
  rw [setTransitions]
  generalize L.lexicalStates.toList.flatMap L.transitionsOf = transitions
  induction transitions generalizing L with
  | nil => rfl
  | cons t transitions ih => exact ih _

/-- Each result of a computation over a list comes from an element of the list. -/
theorem exists_of_mapM_eq_ok {α β : Type} {f : α → Except Fault β} {l : List α} {bs : List β}
    (h : l.mapM f = .ok bs) {i : Nat} {b : β} (hb : bs[i]? = some b) :
    ∃ a, l[i]? = some a ∧ f a = .ok b := by
  induction l generalizing bs i with
  | nil =>
      rw [List.mapM_nil] at h
      obtain rfl := Except.ok.inj h
      cases hb
  | cons a l ih =>
      rw [List.mapM_cons] at h
      obtain ⟨b', hb', h⟩ := exists_of_bind_eq_ok h
      obtain ⟨bs', hbs', h⟩ := exists_of_bind_eq_ok h
      obtain rfl := Except.ok.inj h
      cases i with
      | zero =>
          obtain rfl := Option.some.inj hb
          exact ⟨a, rfl, hb'⟩
      | succ i => exact ih hbs' hb

/-- The uses of lexical states by token productions. -/
def uses (L : Lexicon) : List (Nat × String) :=
  L.tokenProductions.toList.zipIdx.flatMap fun (tp, id) =>
    tp.lexicalStates.map fun name => (id, name)

/-- The token productions are entered use by use. -/
theorem enterTokenProductions_eq (L : Lexicon) (log : Log) :
    L.enterTokenProductions log = L.uses.foldl enterUse (L, log) := rfl

/-- The uses are the lexical states that the token productions name. -/
theorem mem_uses {tp : Nat} {name : String} :
    (tp, name) ∈ L.uses ↔
      tp < L.tokenProductions.size ∧ name ∈ (L.production tp).lexicalStates := by
  simp only [uses, List.mem_flatMap, List.mem_map, Prod.mk.injEq, Prod.exists,
    List.mem_zipIdx_iff_getElem?, Array.getElem?_toList]
  constructor
  · rintro ⟨t, id, ht, _, hname, rfl, rfl⟩
    refine ⟨(Array.getElem?_eq_some_iff.mp ht).1, ?_⟩
    rw [production, ht]
    exact hname
  · rintro ⟨htp, hname⟩
    rw [production, Array.getElem?_eq_getElem htp] at hname
    exact ⟨_, tp, Array.getElem?_eq_getElem htp, name, hname, rfl, rfl⟩

/-- The patterns of a lexical state are those that its token productions declare and that are not
private. -/
theorem mem_patternsOf {s : LexicalState} {pattern : Nat} {ignoreCase : Bool} :
    (pattern, ignoreCase) ∈ L.patternsOf s ↔ ∃ tp ∈ s.tokenProductions,
      (∃ e ∈ (L.production tp).entries, e.pattern = pattern) ∧
        (L.pattern pattern).isPrivate = false ∧ L.foldsCase tp = ignoreCase := by
  simp only [patternsOf, List.mem_flatMap, List.mem_map, List.mem_filter, Prod.mk.injEq,
    Bool.not_eq_true']
  constructor
  · rintro ⟨tp, htp, _, ⟨hentry, hprivate⟩, rfl, hcase⟩
    exact ⟨tp, htp, hentry, hprivate, hcase⟩
  · rintro ⟨tp, htp, hentry, hprivate, hcase⟩
    exact ⟨tp, htp, pattern, ⟨hentry, hprivate⟩, rfl, hcase⟩

/-- The lexer is built from the lexical states with the token productions that name them, and then
the transitions are set. -/
theorem build_eq_ok (h : L.build log = .ok (L', log')) :
    ∃ (states : Array LexicalState) (built : List LexicalState),
      (∀ i : Nat, states[i]? = (L.lexicalStates[i]?).map (L.entered L.uses i)) ∧
      states.toList.mapM (·.build { L with lexicalStates := states }) = .ok built ∧
      L' = ({ L with lexicalStates := built.toArray } : Lexicon).setTransitions := by
  obtain ⟨states, log₁, henter, hstates⟩ := enterUses_spec L.uses L log
  rw [build, enterTokenProductions_eq, henter] at h
  obtain ⟨M, hM, h⟩ := exists_of_bind_eq_ok h
  obtain ⟨built, hbuilt, hM⟩ := exists_of_bind_eq_ok hM
  obtain rfl := Except.ok.inj hM
  obtain ⟨rfl, -⟩ := Prod.mk.inj (Except.ok.inj h)
  exact ⟨states, built, hstates, hbuilt, rfl⟩

/-- A lexical state is built from the token productions that name it. -/
theorem exists_of_build (h : L.build log = .ok (L', log')) {i : Nat} {S : LexicalState}
    (hS : L'.lexicalStates[i]? = some S) :
    ∃ states s, L.lexicalStates[i]? = some s ∧
      (L.entered L.uses i s).build { L with lexicalStates := states } = .ok S := by
  obtain ⟨states, built, hstates, hbuilt, rfl⟩ := build_eq_ok h
  rw [setTransitions_lexicalStates, List.getElem?_toArray] at hS
  obtain ⟨s, hs, hbuild⟩ := exists_of_mapM_eq_ok hbuilt hS
  rw [Array.getElem?_toList, hstates i] at hs
  obtain ⟨s₀, hs₀, rfl⟩ := Option.map_eq_some_iff.mp hs
  exact ⟨states, s₀, hs₀, hbuild⟩

/-- Once the token productions are entered, the patterns of a lexical state are those declared for
it. -/
theorem mem_patternsOf_entered (hL : L.Unbuilt) {i : Nat} {s : LexicalState}
    (hs : L.lexicalStates[i]? = some s) {states : Array LexicalState} {pattern : Nat}
    {ignoreCase : Bool} :
    (pattern, ignoreCase) ∈ ({ L with lexicalStates := states } : Lexicon).patternsOf
        (L.entered L.uses i s) ↔
      ∃ tp, L.Declares i tp pattern ∧ L.foldsCase tp = ignoreCase := by
  have hempty := (hL.state hs).2
  have hmem : ∀ tp, tp ∈ (L.entered L.uses i s).tokenProductions ↔
      tp < L.tokenProductions.size ∧
        ∃ name ∈ (L.production tp).lexicalStates, L.stateIndex name = some i := by
    intro tp
    rw [entered, hempty, List.nil_append]
    simp only [List.mem_map, List.mem_filter, decide_eq_true_eq]
    constructor
    · rintro ⟨⟨id, name⟩, ⟨huse, hi⟩, rfl⟩
      obtain ⟨hlt, hname⟩ := mem_uses.mp huse
      exact ⟨hlt, name, hname, hi⟩
    · rintro ⟨hlt, name, hname, hi⟩
      exact ⟨(tp, name), ⟨mem_uses.mpr ⟨hlt, hname⟩, hi⟩, rfl⟩
  rw [mem_patternsOf]
  constructor
  · rintro ⟨tp, htp, hentry, hprivate, hcase⟩
    obtain ⟨hlt, hname⟩ := (hmem tp).mp htp
    exact ⟨tp, ⟨hlt, hname, hentry, hprivate⟩, hcase⟩
  · rintro ⟨tp, ⟨hlt, hname, hentry, hprivate⟩, hcase⟩
    exact ⟨tp, (hmem tp).mpr ⟨hlt, hname⟩, hentry, hprivate, hcase⟩

/-- **What the automaton of a lexical state accepts**: with a pattern, words of the pattern
only; and all of these, except for the empty one, if the pattern does not repeat something that
matches the empty word. -/
theorem build_accepts (hL : L.Unbuilt) (h : L.build log = .ok (L', log')) {i : Nat}
    {S : LexicalState} (hS : L'.lexicalStates[i]? = some S) {pattern : Nat} {tree : Regex}
    (htree : (L.pattern pattern).tree = some tree) (hexp : tree.Expandable L.namedTree)
    {w : List Nat} (hw : w ≠ []) :
    (S.automaton.accepts pattern w → ∃ tp, L.Declares i tp pattern ∧
        w ∈ tree.languageIn (L.foldsCase tp) L.namedTree) ∧
      ∀ tp, L.Declares i tp pattern → tree.Steady (L.foldsCase tp) L.namedTree →
        w ∈ tree.languageIn (L.foldsCase tp) L.namedTree → S.automaton.accepts pattern w := by
  obtain ⟨states, s, hs, hbuild⟩ := exists_of_build h hS
  have hstart := (hL s (List.mem_of_getElem? (by rwa [Array.getElem?_toList]))).1
  obtain ⟨A, hA, hprepare⟩ := sprouted_build (s := L.entered L.uses i s) hstart hbuild
  refine ⟨fun haccepts => ?_, fun tp hdeclares hsteady hmem => ?_⟩
  · obtain ⟨ignoreCase, hp, hmem⟩ := mem_languageIn_of_accepts hA hprepare haccepts
    obtain ⟨tp, hdeclares, rfl⟩ := (mem_patternsOf_entered hL hs).mp hp
    exact ⟨tp, hdeclares, L.folding_foldsCase tp ▸ hmem tree htree hexp⟩
  · rw [← folding_foldsCase] at hsteady hmem
    exact accepts_of_mem_languageIn hA hprepare
      ((mem_patternsOf_entered hL hs).mpr ⟨tp, hdeclares, rfl⟩) htree hexp hsteady hmem hw

end Build

/-! ### A lexicon of one token -/

/-- A computation that can be evaluated gives a result with a property that can be tested. -/
theorem exists_eq_ok_of_decide {α : Type} {x : Except Fault α} {P : α → Prop} [DecidablePred P]
    (h : (x.toOption.map fun a => decide (P a)) = some true) : ∃ a, x = .ok a ∧ P a := by
  obtain ⟨a, hx, hP⟩ := Option.map_eq_some_iff.mp h
  refine ⟨a, ?_, of_decide_eq_true hP⟩
  cases x with
  | ok b => exact congrArg _ (Option.some.inj hx)
  | error fault => cases hx

/-- The lexicon of one token with this tree, in the default lexical state. -/
def oneToken (tree : Regex) : Lexicon :=
  { patterns := #[{ givenLabel := "EOF", ordinal := some 0, tree := some .endOfInput },
      { givenLabel := "R", ordinal := some 1, tree := some tree, production := some 0 }]
    ordinals := #[0, 1]
    tokenProductions := #[{ lexicalStates := [defaultLexicalState], entries := [{ pattern := 1 }] }]
    lexicalStates := #[{ name := defaultLexicalState }] }

/-- The automaton that is built for the token accepts the word, if it can be built. -/
def oneTokenAccepts (tree : Regex) (w : List Nat) : Option Bool :=
  match (oneToken tree).build {} with
  | .ok (L, _) => (L.lexicalStates[0]?).map (·.automaton.accepts 1 w)
  | .error _ => none

/-- A test of the lexicon of one token tells of its automaton. -/
theorem exists_of_oneTokenAccepts {tree : Regex} {w : List Nat} {b : Bool}
    (h : oneTokenAccepts tree w = some b) :
    ∃ L log S, (oneToken tree).build {} = .ok (L, log) ∧ L.lexicalStates[0]? = some S ∧
      S.automaton.accepts 1 w = b := by
  rw [oneTokenAccepts] at h
  split at h
  · rename_i L log hbuild
    obtain ⟨S, hS, hw⟩ := Option.map_eq_some_iff.mp h
    exact ⟨L, log, S, hbuild, hS, hw⟩
  · cases h

/-- The lexicon of one token has not been built. -/
theorem unbuilt_oneToken (tree : Regex) : (oneToken tree).Unbuilt := by
  intro s hs
  obtain rfl := List.mem_singleton.mp hs
  exact ⟨rfl, rfl⟩

/-- The lexicon of one token declares it for the default lexical state. -/
theorem declares_oneToken (tree : Regex) : (oneToken tree).Declares 0 0 1 :=
  ⟨Nat.one_pos, ⟨_, List.mem_singleton_self _, rfl⟩, ⟨_, List.mem_singleton_self _, rfl⟩, rfl⟩

/-- The text `a` is the only word of its tree. -/
theorem mem_language_text_a (named : String → Language Nat) {w : List Nat} :
    w ∈ (Regex.text "a").language false named ↔ w = [97] := by
  have heq : (Regex.text "a").language false named = oneOf [CharRange.point 97] := by
    rw [Regex.language]
    exact mul_one _
  rw [heq, mem_oneOf]
  constructor
  · rintro ⟨c, hc, rfl⟩
    simp only [List.any_cons, List.any_nil, Bool.or_false, CharRange.contains, CharRange.point,
      Bool.and_eq_true, decide_eq_true_eq] at hc
    obtain rfl : c = 97 := le_antisymm hc.2 hc.1
    rfl
  · rintro rfl
    exact ⟨97, rfl, rfl⟩

/-- The word `aa` is accepted by the token that repeats `a`. -/
theorem build_accepts_repetition :
    let tree := Regex.quantified .star (.text "a")
    let L := oneToken tree
    L.Unbuilt ∧ L.Declares 0 0 1 ∧ tree.Expandable L.namedTree ∧
      tree.Steady (L.foldsCase 0) L.namedTree ∧
      [97, 97] ∈ tree.languageIn (L.foldsCase 0) L.namedTree ∧
      ∃ L' log S, L.build {} = .ok (L', log) ∧ L'.lexicalStates[0]? = some S ∧
        S.automaton.accepts 1 [97, 97] := by
  intro tree L
  have hexp : tree.Expandable L.namedTree := Regex.expandable_of_references_eq_nil rfl
  have hbody : (Regex.text "a").Expandable L.namedTree := hexp.part (.repeated .self)
  have hsteady : tree.Steady false L.namedTree := by
    refine Regex.steady_of_references_eq_nil rfl fun q body further hpart _ hempty => ?_
    simp only [tree] at hpart
    cases hpart with
    | self =>
        rw [Regex.languageIn_eq hbody, mem_language_text_a] at hempty
        cases hempty
    | repeated hpart => cases hpart
  have hmem : [97, 97] ∈ tree.languageIn false L.namedTree := by
    rw [Regex.languageIn_eq hexp, Regex.language]
    refine Language.mem_kstar.mpr ⟨[[97], [97]], rfl, fun w hw => ?_⟩
    rw [mem_language_text_a]
    simpa using hw
  have htest : oneTokenAccepts tree [97, 97] = some true := by decide +kernel
  obtain ⟨L', log, S, hbuild, hS, -⟩ := exists_of_oneTokenAccepts htest
  have haccepts := (build_accepts (unbuilt_oneToken tree) hbuild hS rfl hexp
    (List.cons_ne_nil 97 [97])).2 0 (declares_oneToken tree) hsteady hmem
  exact ⟨unbuilt_oneToken tree, declares_oneToken tree, hexp, hsteady, hmem, L', log, S, hbuild,
    hS, haccepts⟩

/-- The word `aa` is rejected by the token that repeats an optional option of `a`: the state
after the letter is read while the states it leads to are still being closed. -/
theorem build_rejects_nestedOptions :
    let tree := Regex.quantified .star (.quantified .optional (.quantified .optional (.text "a")))
    let L := oneToken tree
    L.Unbuilt ∧ L.Declares 0 0 1 ∧ tree.Expandable L.namedTree ∧
      [97, 97] ∈ tree.languageIn (L.foldsCase 0) L.namedTree ∧
      ∃ L' log S, L.build {} = .ok (L', log) ∧ L'.lexicalStates[0]? = some S ∧
        ¬ S.automaton.accepts 1 [97, 97] := by
  intro tree L
  have hexp : tree.Expandable L.namedTree := Regex.expandable_of_references_eq_nil rfl
  have hmem : [97, 97] ∈ tree.languageIn false L.namedTree := by
    rw [Regex.languageIn_eq hexp]
    simp only [tree, Regex.language]
    refine Language.mem_kstar.mpr ⟨[[97], [97]], rfl, fun w hw => .inr (.inr ?_)⟩
    refine (mem_language_text_a (Regex.wordsOf false L.namedTree)).mpr ?_
    simpa using hw
  have htest : oneTokenAccepts tree [97, 97] = some false := by decide +kernel
  obtain ⟨L', log, S, hbuild, hS, hrejects⟩ := exists_of_oneTokenAccepts htest
  refine ⟨unbuilt_oneToken tree, declares_oneToken tree, hexp, hmem, L', log, S, hbuild, hS, ?_⟩
  rw [hrejects]
  exact Bool.false_ne_true

end Lexicon

end GrammarAnalysis
