import GrammarAnalysis.Proofs.Automaton.Fragments
import Mathlib.Tactic.Tauto

/-!
# The Construction Realizes the Language

Each construct connects the fragments of its operands by a few edges. What these edges do to the
languages is read off the states that got them: fragments in series realize a product, fragments
side by side a sum, and a fragment that can be matched again the words of its repetition.

One can go on forever without consuming anything only by going back through a fragment that
matches the empty word. Where no such fragment is repeated, every state settles.

## Main definitions

* `Automaton.Chained`: fragments that follow each other on the way to a state;
* `Automaton.Beside`: fragments that all lead to one state.

## Main results

* `Automaton.makes_chain`, `Automaton.makes_copy`: the constructs;
* `Regex.makes_assemble`: the fragment of a tree realizes the language of the tree.
-/

open Computability

namespace GrammarAnalysis

namespace Automaton

/-- The fragments in a row of regions, none connected to another. -/
inductive Row (A : Automaton) (steady : Prop) :
    (lo hi : Nat) → List Fragment → List (Language Nat) → Prop
  | nil {lo : Nat} : Row A steady lo lo [] []
  | cons {lo mid hi : Nat} {f : Fragment} {fs : List Fragment} {ℓ : Language Nat}
      {ℓs : List (Language Nat)} : A.Realizes ℓ steady lo mid f → Row A steady mid hi fs ℓs →
      Row A steady lo hi (f :: fs) (ℓ :: ℓs)

/-- From `source`, fragments in a row of regions are passed one after the other on the way to
`target`. -/
inductive Chained (A : Automaton) (steady : Prop) (target : Nat) :
    (source lo hi : Nat) → List (Language Nat) → Prop
  | nil {source lo : Nat} : A.Forks source [target] → Chained A steady target source lo lo []
  | cons {source lo mid hi : Nat} {f : Fragment} {ℓ : Language Nat} {ℓs : List (Language Nat)} :
      A.Forks source [f.start] → A.Embeds ℓ steady lo mid f →
      Chained A steady target f.finish mid hi ℓs → Chained A steady target source lo hi (ℓ :: ℓs)

/-- The fragments in a row of regions, with the given starts, all lead to `target`. -/
inductive Beside (A : Automaton) (steady : Prop) (target : Nat) :
    (lo hi : Nat) → (starts : List Nat) → List (Language Nat) → Prop
  | nil {lo : Nat} : Beside A steady target lo lo [] []
  | cons {lo mid hi : Nat} {f : Fragment} {starts : List Nat} {ℓ : Language Nat}
      {ℓs : List (Language Nat)} : A.Embeds ℓ steady lo mid f → A.Forks f.finish [target] →
      Beside A steady target mid hi starts ℓs →
      Beside A steady target lo hi (f.start :: starts) (ℓ :: ℓs)

variable {A B : Automaton} {steady : Prop} {source target lo hi : Nat}

/-! ### Fragments in series -/

section Series

variable {fs : List Fragment} {ℓs : List (Language Nat)}

/-- A row of regions ends behind its beginning. -/
theorem Row.le (h : Row A steady lo hi fs ℓs) : lo ≤ hi := by
  induction h with
  | nil => exact Nat.le_refl _
  | cons hf _ ih =>
      have := hf.isSealed.start_mem
      omega

/-- A row keeps its fragments as long as their states are the same. -/
theorem Row.congr (h : Row A steady lo hi fs ℓs)
    (hB : ∀ x, lo ≤ x → x < hi → B.state x = A.state x) : Row B steady lo hi fs ℓs := by
  induction h with
  | nil => exact .nil
  | cons hf hrest ih =>
      have hmid := hrest.le
      have hlo := hf.isSealed.start_mem
      exact .cons (hf.congr fun x hx hx' => hB x hx (Nat.lt_of_lt_of_le hx' hmid))
        (ih fun x hx hx' => hB x (by omega) hx')

/-- A row of one fragment realizes one language. -/
theorem Row.of_singleton {f : Fragment} (h : Row A steady lo hi [f] ℓs) :
    ∃ ℓ, ℓs = [ℓ] ∧ A.Realizes ℓ steady lo hi f := by
  cases h with
  | cons hf hrest =>
      cases hrest
      exact ⟨_, rfl, hf⟩

/-- The regions of a chain end behind their beginning. -/
theorem Chained.le (h : Chained A steady target source lo hi ℓs) : lo ≤ hi := by
  induction h with
  | nil => exact Nat.le_refl _
  | cons _ hf _ ih =>
      have := hf.start_mem
      omega

/-- Fragments in series realize the product of their languages. -/
theorem Chained.leads_iff (h : Chained A steady target source lo hi ℓs)
    (hfresh : A.Forks target []) (ht : target < lo ∨ hi ≤ target) (hne : source ≠ target)
    {w : List Nat} : A.Leads source target w ↔ w ∈ ℓs.prod := by
  induction h generalizing w with
  | nil h => exact h.leads_target_iff hfresh hne
  | @cons source lo mid hi f ℓ ℓs h hf hrest ih =>
      have hmid := hrest.le
      have hfinish := hf.finish_mem
      rw [h.leads_iff hne, List.prod_cons, Language.mem_mul]
      simp only [List.mem_singleton, exists_eq_left]
      rw [hf.leads_iff (by omega)]
      simp only [ih (by omega) (by omega)]

/-- The states of a steady chain settle if its target does. -/
theorem Chained.settles (h : Chained A steady target source lo hi ℓs) (hs : steady)
    (ht : A.Settles target) : A.Settles source ∧ ∀ x, lo ≤ x → x < hi → A.Settles x := by
  induction h with
  | nil h =>
      refine ⟨h.settles fun y hy => ?_, fun x hlo hhi => absurd hhi (Nat.not_lt_of_le hlo)⟩
      rw [List.mem_singleton.mp hy]
      exact ht
  | @cons source lo mid hi f ℓ ℓs h hf hrest ih =>
      obtain ⟨hfinish, hafter⟩ := ih
      have hinside := fun x => hf.settles hs hfinish (x := x)
      have hstart := hinside f.start hf.start_mem.1 hf.start_mem.2
      refine ⟨h.settles fun y hy => ?_, fun x hlo hhi => ?_⟩
      · rw [List.mem_singleton.mp hy]
        exact hstart
      · by_cases hx : x < mid
        · exact hinside x hlo hx
        · exact hafter x (Nat.le_of_not_lt hx) hhi

/-- The states of a chain stay in a region that has its own and the target. -/
theorem Chained.stays (h : Chained A steady target source lo hi ℓs) {lo' hi' : Nat}
    (hlo' : lo' ≤ lo) (hhi' : hi ≤ hi') (ht : lo' ≤ target ∧ target < hi') {x : Nat}
    (hx : x = source ∨ lo ≤ x ∧ x < hi) : A.Stays lo' hi' x := by
  induction h with
  | nil h =>
      obtain rfl : x = _ := hx.resolve_right fun hx => absurd hx.2 (Nat.not_lt_of_le hx.1)
      refine h.stays fun y hy => ?_
      rw [List.mem_singleton.mp hy]
      exact ht
  | @cons source lo mid hi f ℓ ℓs h hf hrest ih =>
      have hmid := hrest.le
      have hstart := hf.start_mem
      rcases hx with rfl | ⟨hxlo, hxhi⟩
      · refine h.stays fun y hy => ?_
        rw [List.mem_singleton.mp hy]
        omega
      · by_cases hxf : x = f.finish ∨ mid ≤ x ∧ x < hi
        · exact ih (by omega) hhi' hxf
        · exact (hf.stays hxlo (by omega) fun h => hxf (.inl h)).mono hlo' (by omega)

/-- Connecting fragments adds no states. -/
@[simp] theorem size_connect (fs : List Fragment) (source target : Nat) (A : Automaton) :
    (connect source fs target A).size = A.size := by
  induction fs generalizing source A with
  | nil => exact size_addEpsilon A source target
  | cons f fs ih => exact (ih f.finish (A.addEpsilon source f.start)).trans (size_addEpsilon _ _ _)

/-- Connecting a row of fragments puts them in series. -/
theorem chained_connect (target : Nat) (fs : List Fragment) : ∀ {A : Automaton} {source lo : Nat}
    {ℓs : List (Language Nat)}, Row A steady lo hi fs ℓs → A.Forks source [] →
    source < lo ∨ hi ≤ source → source < A.size → hi ≤ A.size →
    Chained (connect source fs target A) steady target source lo hi ℓs ∧
      (∀ x, x ≠ source → x < lo ∨ hi ≤ x → (connect source fs target A).state x = A.state x) ∧
      ∀ A₀ : Automaton, A₀.Extends A → A₀.size ≤ source → A₀.size ≤ lo →
        A₀.Extends (connect source fs target A) := by
  induction fs with
  | nil =>
      intro A source lo ℓs hrow hsource _ hsize _
      cases hrow
      exact ⟨.nil (hsource.addEpsilon hsize), fun x hx _ => state_addEpsilon_of_ne target hx,
        fun A₀ h₀ hs₀ _ => h₀.addEpsilon hs₀ target⟩
  | cons f fs ih =>
      intro A source lo ℓs hrow hsource hout hsize hhi
      cases hrow with
      | @cons _ mid _ _ _ ℓ ℓs hf hrest =>
          have hmid := hrest.le
          have hfinish := hf.isSealed.finish_mem
          have hA : ∀ x, x ≠ source → (A.addEpsilon source f.start).state x = A.state x :=
            fun x hx => state_addEpsilon_of_ne f.start hx
          obtain ⟨hchain, hframe, hgrow⟩ := ih
            (hrest.congr fun x hx hx' => hA x (by omega))
            (hf.isSealed.fresh.congr (hA f.finish (by omega))) (.inl hfinish.2)
            (by rw [size_addEpsilon]; omega) (by rw [size_addEpsilon]; exact hhi)
          refine ⟨.cons ?_ (hf.embeds.congr fun x hx hx' hxf => ?_) hchain, fun x hx hxout => ?_,
            fun A₀ h₀ hs₀ hlo₀ => hgrow A₀ (h₀.addEpsilon hs₀ f.start) (by omega) (by omega)⟩
          · exact (hsource.addEpsilon hsize).congr (hframe source (by omega) (by omega))
          · exact (hframe x hxf (.inl hx')).trans (hA x (by omega))
          · exact (hframe x (by omega) (by omega)).trans (hA x hx)

/-- A chain of other than one fragment connects them between a pair of fresh states. -/
theorem chain_of_length_ne_one (A : Automaton) (h : fs.length ≠ 1) :
    A.chain fs = (A.addPair.1, connect A.size fs (A.size + 1) A.addPair.2) := by
  match fs, h with
  | [], _ | _ :: _ :: _, _ =>
      simp only [chain, addPair_fst]

/-- **Series**: a chain of fragments realizes the product of their languages. -/
theorem realizes_chain {A₀ : Automaton} (hA : A₀.Extends A)
    (hrow : Row A steady A₀.size A.size fs ℓs) :
    A₀.Extends (A.chain fs).2 ∧
      (A.chain fs).2.Realizes ℓs.prod steady A₀.size (A.chain fs).2.size (A.chain fs).1 := by
  by_cases hone : fs.length = 1
  · obtain ⟨f, rfl⟩ := List.length_eq_one_iff.mp hone
    obtain ⟨ℓ, rfl, hf⟩ := hrow.of_singleton
    rw [List.prod_singleton]
    exact ⟨hA, hf⟩
  · rw [chain_of_length_ne_one A hone, addPair_fst]
    have hpair := extends_addPair A
    have hsize := size_addPair A
    have hle := hrow.le
    obtain ⟨hchain, hframe, hgrow⟩ := chained_connect (A.size + 1) fs
      (hrow.congr fun x _ hx => hpair.state_eq x hx) (forks_addPair_start A)
      (.inr (Nat.le_refl _)) (by omega) (by omega)
    have hextends := hgrow A₀ (hA.trans hpair) hle (Nat.le_refl _)
    have hfresh := (forks_addPair_finish A).congr
      (hframe (A.size + 1) (by omega) (.inr (Nat.le_succ _)))
    have hend : (connect A.size fs (A.size + 1) A.addPair.2).size = A.size + 2 := by
      rw [size_connect, hsize]
    have hcases : ∀ x, A₀.size ≤ x → x < A.size + 2 →
        x = A.size + 1 ∨ x = A.size ∨ A₀.size ≤ x ∧ x < A.size := by omega
    rw [hend]
    refine ⟨hextends, ⟨⟨hle, Nat.lt_add_of_pos_right (Nat.succ_pos 1)⟩,
      ⟨Nat.le_succ_of_le hle, Nat.lt_succ_self _⟩, hfresh, ?_⟩, ?_, ?_⟩
    · intro x hlo hhi
      rcases hcases x hlo hhi with rfl | hx
      · exact hfresh.stays fun y hy => absurd hy List.not_mem_nil
      · exact hchain.stays (Nat.le_refl _) (by omega) ⟨by omega, by omega⟩ hx
    · exact fun w => hchain.leads_iff hfresh (.inr (Nat.le_succ _)) (by omega)
    · intro hs x hlo hhi
      obtain ⟨hstart, hinside⟩ := hchain.settles hs hfresh.settles_nil
      rcases hcases x hlo hhi with rfl | rfl | hx
      · exact hfresh.settles_nil
      · exact hstart
      · exact hinside x hx.1 hx.2

end Series

/-! ### Enclosed fragments -/

section Enclosed

variable {outer inner : Fragment} {skip again : Bool}

/-- The edges between an enclosed fragment and the states around it. -/
theorem forks_enclose (outer : Fragment) (skip again : Bool) {ys zs : List Nat}
    (hstart : A.Forks outer.start ys) (hfinish : A.Forks inner.finish zs)
    (hne : outer.start ≠ inner.finish) (hs : outer.start < A.size) (hf : inner.finish < A.size) :
    (A.enclose outer inner skip again).Forks outer.start
        ((if skip then [outer.finish] else []) ++ inner.start :: ys) ∧
      (A.enclose outer inner skip again).Forks inner.finish
        ((if again then [inner.start] else []) ++ outer.finish :: zs) ∧
      ∀ x, x ≠ outer.start → x ≠ inner.finish →
        (A.enclose outer inner skip again).state x = A.state x := by
  have hstart' := ((hstart.addEpsilon hs (y := inner.start)).congr
    (state_addEpsilon_of_ne outer.finish hne))
  have hfinish' := (hfinish.congr (state_addEpsilon_of_ne inner.start hne.symm)).addEpsilon
    (by rwa [size_addEpsilon]) (y := outer.finish)
  have hframe : ∀ x, x ≠ outer.start → x ≠ inner.finish →
      ((A.addEpsilon outer.start inner.start).addEpsilon inner.finish outer.finish).state x
        = A.state x := fun x hxs hxf =>
    (state_addEpsilon_of_ne outer.finish hxf).trans (state_addEpsilon_of_ne inner.start hxs)
  rw [enclose]
  generalize hB : (A.addEpsilon outer.start inner.start).addEpsilon inner.finish outer.finish = B
    at hstart' hfinish' hframe
  have hsize : B.size = A.size := by
    rw [← hB, size_addEpsilon, size_addEpsilon]
  rw [← hsize] at hs hf
  cases skip with
  | false =>
      cases again with
      | false => exact ⟨hstart', hfinish', hframe⟩
      | true =>
          exact ⟨hstart'.congr (state_addEpsilon_of_ne inner.start hne), hfinish'.addEpsilon hf,
            fun x hxs hxf => (state_addEpsilon_of_ne inner.start hxf).trans (hframe x hxs hxf)⟩
  | true =>
      have hstart'' := hstart'.addEpsilon hs (y := outer.finish)
      have hfinish'' := hfinish'.congr (state_addEpsilon_of_ne outer.finish hne.symm)
      have hframe' := fun x hxs hxf =>
        (state_addEpsilon_of_ne outer.finish hxs).trans (hframe x hxs hxf)
      cases again with
      | false => exact ⟨hstart'', hfinish'', hframe'⟩
      | true =>
          exact ⟨hstart''.congr (state_addEpsilon_of_ne inner.start hne),
            hfinish''.addEpsilon (by rwa [size_addEpsilon]),
            fun x hxs hxf => (state_addEpsilon_of_ne inner.start hxf).trans (hframe' x hxs hxf)⟩

/-- Edges around a new fragment leave the older states as they were. -/
theorem Extends.enclose {A₀ : Automaton} (h : A₀.Extends A) (hs : A₀.size ≤ outer.start)
    (hf : A₀.size ≤ inner.finish) : A₀.Extends (A.enclose outer inner skip again) := by
  have h' := (h.addEpsilon hs inner.start).addEpsilon hf outer.finish
  cases skip with
  | false =>
      cases again with
      | false => exact h'
      | true => exact h'.addEpsilon hf inner.start
  | true =>
      cases again with
      | false => exact h'.addEpsilon hs outer.finish
      | true => exact (h'.addEpsilon hs outer.finish).addEpsilon hf inner.start

/-- Enclosing a fragment adds no states. -/
@[simp] theorem size_enclose (A : Automaton) (outer inner : Fragment) (skip again : Bool) :
    (A.enclose outer inner skip again).size = A.size := by
  cases skip <;> cases again <;> simp [enclose]

variable {ℓ : Language Nat}

/-- From the finish of a fragment that can be matched again, what leads on are its words, any
number of times. -/
theorem Embeds.loop_leads_iff (h : A.Embeds ℓ steady lo hi inner) (hfresh : A.Forks target [])
    (ht : target < lo ∨ hi ≤ target) (hf : A.Forks inner.finish [inner.start, target])
    {w : List Nat} : A.Leads inner.finish target w ↔ w ∈ ℓ∗ := by
  have hfinish := h.finish_mem
  have hne : inner.finish ≠ target := by omega
  constructor
  · rintro ⟨k, hk⟩
    induction k using Nat.strong_induction_on generalizing w with
    | _ k ih =>
        obtain ⟨y, hy, j, rfl, hj⟩ := (hf.spells_iff hne).mp hk
        rcases List.mem_cons.mp hy with rfl | hy
        · obtain ⟨u, v, i, j', hij, rfl, hu, hv⟩ := h.split (by omega) hj
          obtain ⟨us, rfl, hus⟩ := Language.mem_kstar.mp (ih j' (by omega) hv)
          exact Language.mem_kstar.mpr ⟨u :: us, rfl, List.forall_mem_cons.mpr ⟨hu, hus⟩⟩
        · rw [List.mem_singleton.mp hy] at hj
          rw [(hfresh.spells_nil hj).2]
          exact Language.nil_mem_kstar ℓ
  · intro hw
    obtain ⟨us, rfl, hus⟩ := Language.mem_kstar.mp hw
    clear hw
    induction us with
    | nil => exact (hf.leads_iff hne).mpr ⟨target, by simp, .refl target⟩
    | cons u us ih =>
        have hrest' := fun v hv => hus v (List.mem_cons_of_mem u hv)
        have hrest := ih hrest'
        exact (hf.leads_iff hne).mpr
          ⟨inner.start, List.mem_cons_self, h.join (hus u List.mem_cons_self) hrest⟩

/-- From the start of an enclosed fragment. -/
theorem Embeds.enclosed_leads_iff (h : A.Embeds ℓ steady lo hi inner) (hfresh : A.Forks target [])
    (ht : target < lo ∨ hi ≤ target)
    (hf : A.Forks inner.finish ((if again then [inner.start] else []) ++ [target]))
    {w : List Nat} : A.Leads inner.start target w ↔ w ∈ if again then ℓ * ℓ∗ else ℓ := by
  have hfinish := h.finish_mem
  rw [h.leads_iff (by omega)]
  cases again with
  | false =>
      simp only [hf.leads_target_iff hfresh (by omega), exists_eq_left, List.append_nil,
        exists_eq_right, Bool.false_eq_true, if_false]
  | true =>
      simp only [h.loop_leads_iff hfresh ht hf, if_true, Language.mem_mul]

/-- The members of a list of one or two targets. -/
theorem mem_optional_iff {c : Bool} {a b y : Nat} :
    y ∈ (if c then [a] else []) ++ [b] ↔ c = true ∧ y = a ∨ y = b := by
  cases c <;> simp

/-- An operand between two fresh states. -/
theorem realizes_enclosed (h : A.Embeds ℓ steady (source + 2) hi inner)
    (hfresh : A.Forks (source + 1) [])
    (hs : A.Forks source ((if skip then [source + 1] else []) ++ [inner.start]))
    (hf : A.Forks inner.finish ((if again then [inner.start] else []) ++ [source + 1]))
    (hsteady : again → steady → [] ∉ ℓ) :
    A.Realizes ((Copy.enclosed skip again).language ℓ) steady source hi ⟨source, source + 1⟩ := by
  have hstart := h.start_mem
  have hfinish := h.finish_mem
  have hsize : source + 1 < hi := by omega
  have hcases : ∀ x, source ≤ x → x = source ∨ x = source + 1 ∨ source + 2 ≤ x := by omega
  refine ⟨⟨⟨Nat.le_refl source, Nat.lt_of_succ_lt hsize⟩, ⟨Nat.le_succ source, hsize⟩, hfresh, ?_⟩,
    ?_, ?_⟩
  · intro x hlo hhi
    rcases hcases x hlo with rfl | rfl | hx
    · refine hs.stays fun y hy => ?_
      rcases mem_optional_iff.mp hy with ⟨-, rfl⟩ | rfl <;> omega
    · exact hfresh.stays fun y hy => absurd hy List.not_mem_nil
    · by_cases hxf : x = inner.finish
      · rw [hxf]
        refine hf.stays fun y hy => ?_
        rcases mem_optional_iff.mp hy with ⟨-, rfl⟩ | rfl <;> omega
      · exact (h.stays hx hhi hxf).mono (by omega) (Nat.le_refl hi)
  · intro w
    rw [hs.leads_iff (Nat.ne_of_lt (Nat.lt_succ_self source)), Copy.language, Language.mem_add,
      ← h.enclosed_leads_iff hfresh (.inl (Nat.lt_succ_self _)) hf]
    cases skip with
    | false => simp
    | true => simp [hfresh.leads_self_iff]
  · intro hst
    have htarget : A.Settles (source + 1) := hfresh.settles_nil
    -- a loop comes back to the start, which settles because the operand is not empty
    have hout : A.Settles inner.finish := hf.settles fun y hy => by
      rcases mem_optional_iff.mp hy with ⟨hagain, rfl⟩ | rfl
      · exact h.settles_start hst (hsteady hagain hst)
      · exact htarget
    have hinside := fun x => h.settles hst hout (x := x)
    intro x hlo hhi
    rcases hcases x hlo with rfl | rfl | hx
    · refine hs.settles fun y hy => ?_
      rcases mem_optional_iff.mp hy with ⟨-, rfl⟩ | rfl
      · exact htarget
      · exact hinside _ hstart.1 hstart.2
    · exact htarget
    · exact hinside x hx hhi

end Enclosed

/-- **Copies**: one copy of an operand. -/
theorem makes_copy {operand : Assembly} {ℓ : Language Nat} (h : operand.Makes ℓ steady)
    {copy : Copy} (hr : copy.repeats → steady → [] ∉ ℓ) :
    (copy.assemble operand).Makes (copy.language ℓ) steady := by
  cases copy with
  | plain => exact h
  | enclosed skip again =>
      intro A f B hB
      obtain ⟨⟨inner, C⟩, hoperand, hB⟩ := exists_of_bind_eq_ok (x := operand A.addPair.2) hB
      obtain ⟨rfl, rfl⟩ : A.addPair.1 = f ∧ C.enclose A.addPair.1 inner skip again = B :=
        Prod.mk.inj (Except.ok.inj hB)
      obtain ⟨hgrow, hinner⟩ := h _ _ _ hoperand
      have hsize := size_addPair A
      have hsizeC := hgrow.size_le
      rw [hsize] at hinner hsizeC
      have hfinish := hinner.isSealed.finish_mem
      have hold := fun x hx => hgrow.state_eq x (hsize ▸ hx)
      have hs : A.size < C.size := by omega
      have hne : A.size ≠ inner.finish := by omega
      have htarget : A.size + 1 ≠ A.size ∧ A.size + 1 ≠ inner.finish := by omega
      rw [addPair_fst]
      obtain ⟨hstart, hback, hframe⟩ := forks_enclose ⟨A.size, A.size + 1⟩ skip again
        ((forks_addPair_start A).congr (hold A.size (by omega))) hinner.isSealed.fresh hne hs
        hfinish.2
      refine ⟨((extends_addPair A).trans hgrow).enclose (Nat.le_refl _) (by omega), ?_⟩
      rw [size_enclose]
      refine realizes_enclosed (hinner.embeds.congr fun x hlo hhi hx => ?_) ?_ hstart hback hr
      · have hxs : x ≠ A.size := by omega
        exact hframe x hxs hx
      · exact ((forks_addPair_finish A).congr (hold (A.size + 1) (by omega))).congr
          (hframe (A.size + 1) htarget.1 htarget.2)

/-- Copies of an operand are made in a row, each with its language. -/
theorem row_assembleCopies {operand : Assembly} {ℓ : Language Nat} (h : operand.Makes ℓ steady)
    (copies : List Copy) (hr : ∀ copy ∈ copies, copy.repeats → steady → [] ∉ ℓ) :
    ∀ A fs B, assembleCopies operand copies A = .ok (fs, B) →
      A.Extends B ∧ Row B steady A.size B.size fs (copies.map (Copy.language ℓ)) := by
  induction copies with
  | nil =>
      intro A fs B hB
      obtain ⟨rfl, rfl⟩ : [] = fs ∧ A = B := Prod.mk.inj (Except.ok.inj hB)
      exact ⟨.refl A, .nil⟩
  | cons copy copies ih =>
      intro A fs B hB
      obtain ⟨⟨f, C⟩, hcopy, hB⟩ := exists_of_bind_eq_ok (x := copy.assemble operand A) hB
      obtain ⟨⟨gs, D⟩, hrest, hB⟩ :=
        exists_of_bind_eq_ok (x := assembleCopies operand copies C) hB
      obtain ⟨rfl, rfl⟩ : f :: gs = fs ∧ D = B := Prod.mk.inj (Except.ok.inj hB)
      obtain ⟨hC, hf⟩ := makes_copy h (hr copy List.mem_cons_self) A f C hcopy
      obtain ⟨hD, hgs⟩ := ih (fun c hc => hr c (List.mem_cons_of_mem copy hc)) C gs D hrest
      exact ⟨hC.trans hD, .cons (hf.congr fun x _ hx => hD.state_eq x hx) hgs⟩

/-! ### Fragments side by side -/

section Alternatives

variable {starts : List Nat} {ℓs : List (Language Nat)}

/-- The regions of fragments side by side end behind their beginning. -/
theorem Beside.le (h : Beside A steady target lo hi starts ℓs) : lo ≤ hi := by
  induction h with
  | nil => exact Nat.le_refl _
  | cons hf _ _ ih =>
      have := hf.start_mem
      omega

/-- Fragments side by side keep their languages as long as their states are the same. -/
theorem Beside.congr (h : Beside A steady target lo hi starts ℓs)
    (hB : ∀ x, lo ≤ x → x < hi → B.state x = A.state x) :
    Beside B steady target lo hi starts ℓs := by
  induction h with
  | nil => exact .nil
  | @cons lo mid hi f starts ℓ ℓs hf hforks hrest ih =>
      have hmid := hrest.le
      have hfinish := hf.finish_mem
      exact .cons (hf.congr fun x hlo hhi _ => hB x hlo (by omega))
        (hforks.congr (hB f.finish hfinish.1 (by omega)))
        (ih fun x hlo hhi => hB x (by omega) hhi)

/-- Fragments side by side realize the sum of their languages. -/
theorem Beside.leads_iff (h : Beside A steady target lo hi starts ℓs)
    (hfresh : A.Forks target []) (ht : target < lo ∨ hi ≤ target) {w : List Nat} :
    (∃ y ∈ starts, A.Leads y target w) ↔ w ∈ ℓs.sum := by
  induction h with
  | nil => simp
  | @cons lo mid hi f starts ℓ ℓs hf hforks hrest ih =>
      have hmid := hrest.le
      have hfinish := hf.finish_mem
      rw [List.sum_cons, Language.mem_add, ← ih (by omega), List.exists_mem_cons_iff,
        hf.leads_iff (by omega)]
      simp only [hforks.leads_target_iff hfresh (by omega), exists_eq_left, List.append_nil,
        exists_eq_right]

/-- The starts of fragments side by side are in their regions. -/
theorem Beside.starts_mem (h : Beside A steady target lo hi starts ℓs) {y : Nat}
    (hy : y ∈ starts) : lo ≤ y ∧ y < hi := by
  induction h with
  | nil => exact absurd hy List.not_mem_nil
  | @cons lo mid hi f starts ℓ ℓs hf _ hrest ih =>
      have hmid := hrest.le
      have hstart := hf.start_mem
      rcases List.mem_cons.mp hy with rfl | hy
      · omega
      · have := ih hy
        omega

/-- The states of fragments side by side stay in a region that has these and the target. -/
theorem Beside.stays (h : Beside A steady target lo hi starts ℓs) {lo' hi' : Nat}
    (hlo' : lo' ≤ lo) (hhi' : hi ≤ hi') (ht : lo' ≤ target ∧ target < hi') {x : Nat}
    (hlo : lo ≤ x) (hhi : x < hi) : A.Stays lo' hi' x := by
  induction h with
  | nil => exact absurd hhi (Nat.not_lt_of_le hlo)
  | @cons lo mid hi f starts ℓ ℓs hf hforks hrest ih =>
      have hmid := hrest.le
      have hstart := hf.start_mem
      by_cases hx : x = f.finish
      · rw [hx]
        refine hforks.stays fun y hy => ?_
        rw [List.mem_singleton.mp hy]
        exact ht
      · by_cases hxm : x < mid
        · exact (hf.stays hlo hxm hx).mono hlo' (by omega)
        · exact ih (by omega) hhi' (by omega) hhi

/-- The states of steady fragments side by side settle if the target does. -/
theorem Beside.settles (h : Beside A steady target lo hi starts ℓs) (hs : steady)
    (ht : A.Settles target) {x : Nat} (hlo : lo ≤ x) (hhi : x < hi) : A.Settles x := by
  induction h with
  | nil => exact absurd hhi (Nat.not_lt_of_le hlo)
  | @cons lo mid hi f starts ℓ ℓs hf hforks hrest ih =>
      by_cases hxm : x < mid
      · refine hf.settles hs (hforks.settles fun y hy => ?_) hlo hxm
        rw [List.mem_singleton.mp hy]
        exact ht
      · exact ih (by omega) hhi

/-- Alternatives between two fresh states. -/
theorem realizes_beside (h : Beside A steady (source + 1) (source + 2) hi starts ℓs)
    (hfresh : A.Forks (source + 1) []) (hs : A.Forks source starts) :
    A.Realizes ℓs.sum steady source hi ⟨source, source + 1⟩ := by
  have hle := h.le
  have hsize : source + 1 < hi := by omega
  have hcases : ∀ x, source ≤ x → x < hi → x = source ∨ x = source + 1 ∨ source + 2 ≤ x := by
    omega
  refine ⟨⟨⟨Nat.le_refl source, Nat.lt_of_succ_lt hsize⟩, ⟨Nat.le_succ source, hsize⟩, hfresh, ?_⟩,
    ?_, ?_⟩
  · intro x hlo hhi
    rcases hcases x hlo hhi with rfl | rfl | hx
    · refine hs.stays fun y hy => ?_
      have := h.starts_mem hy
      omega
    · exact hfresh.stays fun y hy => absurd hy List.not_mem_nil
    · exact h.stays (by omega) (Nat.le_refl hi) ⟨Nat.le_succ source, hsize⟩ hx hhi
  · intro w
    rw [hs.leads_iff (Nat.ne_of_lt (Nat.lt_succ_self source))]
    exact h.leads_iff hfresh (.inl (Nat.lt_succ_self _))
  · intro hst
    have hinside := fun x => h.settles hst hfresh.settles_nil (x := x)
    intro x hlo hhi
    rcases hcases x hlo hhi with rfl | rfl | hx
    · exact hs.settles fun y hy => hinside y (h.starts_mem hy).1 (h.starts_mem hy).2
    · exact hfresh.settles_nil
    · exact hinside x hx hhi

end Alternatives

end Automaton

/-! ### Trees -/

namespace Regex

open Automaton

variable {folding : CaseFolding} {expand : String → Assembly} {named : String → Language Nat}
  {steady : Prop}

/-- What the fragment of a tree takes from its names, and from its repetitions if it is to be
steady. -/
structure Supplied (folding : CaseFolding) (expand : String → Assembly)
    (named : String → Language Nat) (steady : Prop) (r : Regex) : Prop where
  makes : ∀ name, r.Part (.reference name) → (expand name).Makes (named name) steady
  not_nullable : ∀ q body further, r.Part (.repeated q (body :: further)) → q.repeats → steady →
    [] ∉ body.language folding named

/-- What is supplied to a tree is supplied to its parts. -/
theorem Supplied.part {r s : Regex} (h : Supplied folding expand named steady r)
    (hs : r.Part s) : Supplied folding expand named steady s where
  makes := fun name hname => h.makes name (hs.trans hname)
  not_nullable := fun q body further hbody => h.not_nullable q body further (hs.trans hbody)

mutual

/-- **The fragment of a tree realizes the language of the tree.** -/
theorem makes_assemble : (r : Regex) → Supplied folding expand named steady r →
    (r.assemble folding expand).Makes (r.language folding named) steady
  | chars set negated, _ => by
    intro A f B h
    obtain ⟨ranges, hranges, h⟩ :=
      exists_of_bind_eq_ok (x := set.orderedRanges folding.classes negated) h
    rw [language, hranges]
    exact makes_addClass ranges steady A f B h
  | text image, _ => by
    rw [language]
    exact makes_addText folding.texts image steady
  | concat parts, h => by
    intro A f B hB
    obtain ⟨⟨fs, C⟩, hfs, hB⟩ :=
      exists_of_bind_eq_ok (x := assembleAll folding expand parts A) hB
    obtain ⟨hC, hrow⟩ := row_assembleAll parts (fun r hr => h.part (.concat hr .self)) A fs C hfs
    obtain ⟨rfl, rfl⟩ := Prod.mk.inj (Except.ok.inj hB)
    rw [language]
    exact realizes_chain hC hrow
  | choice [], _ => by
    intro A f B hB
    obtain ⟨rfl, rfl⟩ : A.addPair.1 = f ∧ A.addPair.2 = B := Prod.mk.inj (Except.ok.inj hB)
    refine ⟨extends_addPair A, ?_⟩
    rw [language, languages, addPair_fst, size_addPair]
    exact realizes_beside .nil (forks_addPair_finish A) (forks_addPair_start A)
  | choice [alternative], h => by
    rw [language, languages, languages, List.sum_singleton]
    exact makes_assemble alternative (h.part (.choice List.mem_cons_self .self))
  | choice (first :: second :: rest), h => by
    intro A f B hB
    obtain ⟨C, hC, hB⟩ := exists_of_bind_eq_ok (x := assembleBetween folding expand A.addPair.1
      (first :: second :: rest) A.addPair.2) hB
    obtain ⟨rfl, rfl⟩ : A.addPair.1 = f ∧ C = B := Prod.mk.inj (Except.ok.inj hB)
    have hsize := size_addPair A
    rw [addPair_fst] at hC ⊢
    obtain ⟨starts, targets, hmem, hstart, hbeside, hframe, hgrow⟩ := beside_assembleBetween
      (first :: second :: rest) (fun r hr => h.part (.choice hr .self)) ⟨A.size, A.size + 1⟩
      A.addPair.2 C [] (forks_addPair_start A) (forks_addPair_finish A)
      (Nat.ne_of_lt (Nat.lt_succ_self _)) (hsize ▸ Nat.lt_add_of_pos_right (Nat.succ_pos 1))
      (hsize ▸ Nat.lt_succ_self _) hC
    refine ⟨hgrow A (extends_addPair A) (Nat.le_refl _), ?_⟩
    rw [hsize] at hbeside hframe
    rw [language]
    refine realizes_beside hbeside ((forks_addPair_finish A).congr ?_) ⟨hstart.plain, fun y => ?_⟩
    · exact hframe (A.size + 1) (Nat.lt_succ_self _) (Nat.ne_of_gt (Nat.lt_succ_self _))
    · rw [hstart.slips_iff, hmem]
      simp
  | repeated q (body :: further), h => by
    intro A f B hB
    obtain ⟨⟨fs, C⟩, hfs, hB⟩ := exists_of_bind_eq_ok
      (x := assembleCopies (body.assemble folding expand) q.copies A) hB
    obtain ⟨rfl, rfl⟩ := Prod.mk.inj (Except.ok.inj hB)
    have hbody := makes_assemble body (h.part (.repeated .self))
    obtain ⟨hC, hrow⟩ := row_assembleCopies hbody q.copies
      (fun copy hcopy hr => h.not_nullable q body further .self (q.repeats_of_mem_copies hcopy hr))
      A fs C hfs
    rw [language, ← q.prod_copies]
    exact realizes_chain hC hrow
  | repeated q [], _ => by
    intro A f B hB
    by_cases hq : q.copies.isEmpty
    · rw [assemble, if_pos hq] at hB
      obtain ⟨rfl, rfl⟩ := Prod.mk.inj (Except.ok.inj hB)
      rw [language, if_pos hq]
      exact realizes_chain (.refl A) .nil
    · rw [assemble, if_neg hq] at hB
      cases hB
  | reference name, h => by
    rw [language]
    exact h.makes name .self
  | endOfInput, _ => by
    rw [language]
    exact makes_addPoint steady

/-- The fragments of the trees of a list, in a row. -/
theorem row_assembleAll : (rs : List Regex) →
    (∀ r ∈ rs, Supplied folding expand named steady r) →
    ∀ A fs B, assembleAll folding expand rs A = .ok (fs, B) →
      A.Extends B ∧ Row B steady A.size B.size fs (languages folding named rs)
  | [], _ => by
    intro A fs B hB
    obtain ⟨rfl, rfl⟩ : [] = fs ∧ A = B := Prod.mk.inj (Except.ok.inj hB)
    exact ⟨.refl A, .nil⟩
  | r :: rest, h => by
    intro A fs B hB
    obtain ⟨⟨f, C⟩, hf, hB⟩ := exists_of_bind_eq_ok (x := r.assemble folding expand A) hB
    obtain ⟨⟨gs, D⟩, hgs, hB⟩ :=
      exists_of_bind_eq_ok (x := assembleAll folding expand rest C) hB
    obtain ⟨rfl, rfl⟩ : f :: gs = fs ∧ D = B := Prod.mk.inj (Except.ok.inj hB)
    obtain ⟨hC, hf⟩ := makes_assemble r (h r List.mem_cons_self) A f C hf
    obtain ⟨hD, hrow⟩ :=
      row_assembleAll rest (fun s hs => h s (List.mem_cons_of_mem r hs)) C gs D hgs
    exact ⟨hC.trans hD, .cons (hf.congr fun x _ hx => hD.state_eq x hx) hrow⟩

/-- The fragments of the trees of a list, side by side. -/
theorem beside_assembleBetween : (rs : List Regex) →
    (∀ r ∈ rs, Supplied folding expand named steady r) →
    ∀ (outer : Fragment) (A B : Automaton) (ys : List Nat), A.Forks outer.start ys →
      A.Forks outer.finish [] → outer.start ≠ outer.finish → outer.start < A.size →
      outer.finish < A.size → assembleBetween folding expand outer rs A = .ok B →
      ∃ starts targets, (∀ y, y ∈ targets ↔ y ∈ starts ∨ y ∈ ys) ∧
        B.Forks outer.start targets ∧
        Beside B steady outer.finish A.size B.size starts (languages folding named rs) ∧
        (∀ x, x < A.size → x ≠ outer.start → B.state x = A.state x) ∧
        ∀ A₀ : Automaton, A₀.Extends A → A₀.size ≤ outer.start → A₀.Extends B
  | [], _ => by
    intro outer A B ys hstart _ _ _ _ hB
    obtain rfl : A = B := Except.ok.inj hB
    exact ⟨[], ys, by simp, hstart, .nil, fun _ _ _ => rfl, fun _ h _ => h⟩
  | r :: rest, h => by
    intro outer A B ys hstart hfinish hne hs ht hB
    obtain ⟨⟨inner, C⟩, hinner, hB⟩ := exists_of_bind_eq_ok (x := r.assemble folding expand A) hB
    obtain ⟨hC, hinner⟩ := makes_assemble r (h r List.mem_cons_self) A inner C hinner
    have hsizeC := hC.size_le
    have hmem := hinner.isSealed.finish_mem
    obtain ⟨hstart', hback, hframe⟩ := forks_enclose outer false false
      (hstart.congr (hC.state_eq _ hs)) hinner.isSealed.fresh (by omega)
      (by omega) hmem.2
    obtain ⟨starts, targets, htargets, hstart'', hbeside, hframe', hgrow⟩ :=
      beside_assembleBetween rest (fun s hs => h s (List.mem_cons_of_mem r hs)) outer
        (C.enclose outer inner false false) B (inner.start :: ys) hstart'
        ((hfinish.congr (hC.state_eq _ ht)).congr (hframe _ hne.symm (by omega))) hne
        (by rw [size_enclose]; omega) (by rw [size_enclose]; omega) hB
    rw [size_enclose] at hbeside hframe'
    refine ⟨inner.start :: starts, targets, fun y => ?_, hstart'', .cons ?_ ?_ hbeside,
      fun x hx hxs => ?_, fun A₀ h₀ hs₀ => ?_⟩
    · rw [htargets, List.mem_cons, List.mem_cons]
      tauto
    · refine hinner.embeds.congr fun x hlo hhi hx => ?_
      exact (hframe' x hhi (by omega)).trans (hframe x (by omega) hx)
    · exact hback.congr (hframe' _ hmem.2 (by omega))
    · rw [hframe' x (by omega) hxs, hframe x hxs (by omega), hC.state_eq x hx]
    · have := h₀.size_le
      exact hgrow A₀ ((h₀.trans hC).enclose hs₀ (by omega)) hs₀

end

end Regex

end GrammarAnalysis
