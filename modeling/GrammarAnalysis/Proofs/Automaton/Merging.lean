import GrammarAnalysis.Proofs.Automaton.Closing
import GrammarAnalysis.Proofs.Automaton.Faults
import GrammarAnalysis.Proofs.Automaton.Fragments

/-!
# Where Closing Fails

Closing an automaton fails at a state that reaches two states which accept different patterns, and
for no other reason. The construction of fragments does not fail in this way.

## Main definitions

* `Automaton.Merges`: a state that reaches two different acceptances;
* `IsMerging`: the fault of such a state.

## Main results

* `Automaton.closeAll_merges`: the only fault of closing;
* `Regex.not_merging_assemble`: the fragment of a tree is not made with this fault.
-/

namespace GrammarAnalysis

/-- A computation over a list whose steps keep `P` fails in a step from where `P` holds. -/
theorem exists_of_foldlM_eq_error {α β : Type} {f : α → β → Except Fault α} {P : α → Prop}
    {l : List β} (hstep : ∀ b ∈ l, ∀ a a', P a → f a b = .ok a' → P a') {a : α} (ha : P a)
    {fault : Fault} (h : l.foldlM f a = .error fault) :
    ∃ b ∈ l, ∃ a', P a' ∧ f a' b = .error fault := by
  induction l generalizing a with
  | nil => cases h
  | cons b l ih =>
      rcases cases_of_bind_eq_error (x := f a b) h with h | ⟨a', ha', h⟩
      · exact ⟨b, List.mem_cons_self, a, ha, h⟩
      · obtain ⟨c, hc, hrest⟩ := ih (fun c hc => hstep c (List.mem_cons_of_mem b hc))
          (hstep b List.mem_cons_self a a' ha ha') h
        exact ⟨c, List.mem_cons_of_mem b hc, hrest⟩

namespace Automaton

variable {A₀ A B : Automaton} {id x : Nat} {fault : Fault}

/-- State `s` reaches a state that accepts `p`, and one that accepts `q`, a different pattern. -/
structure Merges (A : Automaton) (s p q : Nat) : Prop where
  ne : p ≠ q
  own : ∃ t, A.Reaches s t ∧ (A.state t).accepts = some p
  reached : ∃ t, A.Reaches s t ∧ (A.state t).accepts = some q

/-- A state that cannot take over what another accepts, accepts something else itself. -/
theorem inherit_eq_error (hfault : A.inherit id x = .error fault) :
    ∃ p q, fault = .mergedAcceptance id p q ∧ (A.state id).accepts = some p ∧
      (A.state x).accepts = some q ∧ p ≠ q := by
  rw [inherit] at hfault
  split at hfault
  · cases hfault
  · cases hfault
  · rename_i p q hp hq
    split at hfault
    · cases hfault
    · rename_i hne
      exact ⟨p, q, (Except.error.inj hfault).symm, hp, hq, hne⟩

/-- A state that cannot inherit has two patterns to accept. -/
theorem Tracks.merges_of_inherit (h : A₀.Tracks A) (hx : A₀.Reaches id x)
    (hfault : A.inherit id x = .error fault) :
    ∃ p q, fault = .mergedAcceptance id p q ∧ A₀.Merges id p q := by
  obtain ⟨p, q, rfl, hp, hq, hne⟩ := inherit_eq_error hfault
  obtain ⟨t, ht, hq⟩ := (h.state x).accepts q hq
  exact ⟨p, q, rfl, hne, (h.state id).accepts p hp, t, hx.trans ht, hq⟩

/-- A state that is underway takes over what one that it reaches has in its closure. -/
theorem Underway.enter {budget : Nat} (h : Underway A₀ A id B) (hx : A₀.Reaches id x)
    {C : Automaton} (hC : closeWithin budget x (B.absorb id x) = .ok C) : Underway A₀ A id C := by
  have habsorb := h.absorb hx
  obtain ⟨htracks, hframe⟩ := closeWithin_tracks budget hC habsorb.tracks
  exact habsorb.call htracks hframe

/-- A visit of a state that is reached keeps the closing going. -/
theorem Underway.visit {budget : Nat} (h : Underway A₀ A id B) (hx : A₀.Reaches id x)
    {C : Automaton} (hC : visit budget id B x = .ok C) : Underway A₀ A id C := by
  obtain ⟨A', B', hA', hB', hC⟩ := visit_cases hC
  obtain ⟨htracks, hframe⟩ := closeWithin_tracks budget hA' h.tracks
  have hunder := (h.call htracks hframe).inherit hx hB'
  obtain ⟨hinner, -⟩ := foldlM_induction (P := Underway A₀ A id) (Q := fun _ _ => True)
    (fun other hother E F hE hF =>
      ⟨hE.enter (hx.trans ((hunder.tracks.state x).slips other hother)) hF, trivial, fun _ h => h⟩)
    hunder hC
  exact hinner

/-- Closing a state fails only at a state that it reaches, where two different acceptances are
reached. -/
theorem closeWithin_merges (budget : Nat) : ∀ {id : Nat} {A : Automaton} {fault : Fault},
    closeWithin budget id A = .error fault → A₀.Tracks A →
      ∃ s p q, fault = .mergedAcceptance s p q ∧ A₀.Reaches id s ∧ A₀.Merges s p q := by
  induction budget with
  | zero => exact fun h => by cases h
  | succ budget ih =>
      intro id A fault h hA
      cases hclosed : (A.state id).closed with
      | true =>
          rw [closeWithin, if_pos hclosed] at h
          cases h
      | false =>
          rw [closeWithin_eq budget hclosed] at h
          rcases cases_of_bind_eq_error h with h | ⟨C, -, h⟩
          · -- one of the successors cannot be taken over
            have hreach : ∀ x ∈ (A.state id).epsilon.toList, A₀.Reaches id x :=
              fun x hx => (hA.state id).slips x hx
            obtain ⟨x, hx, B, hB, hfault⟩ := exists_of_foldlM_eq_error
              (P := Underway A₀ (A.mark id) id)
              (fun x hx B C hB hC => hB.visit (hreach x hx) hC) (hA.underway_mark id) h
            rcases cases_of_bind_eq_error hfault with hfault | ⟨A', hA', hfault⟩
            · obtain ⟨s, p, q, heq, hs, hmerges⟩ := ih hfault hB.tracks
              exact ⟨s, p, q, heq, (hreach x hx).trans hs, hmerges⟩
            · obtain ⟨htracks, hframe⟩ := closeWithin_tracks budget hA' hB.tracks
              have hcall := hB.call htracks hframe
              rcases cases_of_bind_eq_error hfault with hfault | ⟨B', hB', hfault⟩
              · obtain ⟨p, q, heq, hmerges⟩ := hcall.tracks.merges_of_inherit (hreach x hx) hfault
                exact ⟨id, p, q, heq, .refl, hmerges⟩
              · have hunder := hcall.inherit (hreach x hx) hB'
                have hreach' : ∀ y ∈ (B'.state x).epsilon.toList, A₀.Reaches id y :=
                  fun y hy => (hreach x hx).trans ((hunder.tracks.state x).slips y hy)
                obtain ⟨y, hy, E, hE, hfault⟩ := exists_of_foldlM_eq_error
                  (P := Underway A₀ (A.mark id) id)
                  (fun y hy E F hE hF => hE.enter (hreach' y hy) hF) hunder hfault
                obtain ⟨s, p, q, heq, hs, hmerges⟩ := ih hfault (hE.absorb (hreach' y hy)).tracks
                exact ⟨s, p, q, heq, (hreach' y hy).trans hs, hmerges⟩
          · cases h

/-- **Closing an automaton fails** only where two different acceptances are reached. -/
theorem closeAll_merges (h : A.closeAll = .error fault) :
    ∃ s p q, fault = .mergedAcceptance s p q ∧ A.Merges s p q := by
  obtain ⟨id, -, B, hB, hfault⟩ := exists_of_foldlM_eq_error (P := A.Tracks)
    (fun id _ B C hB hC => (closeWithin_tracks _ hC hB).1) (.refl A) h
  obtain ⟨s, p, q, heq, -, hmerges⟩ := closeWithin_merges _ hfault hB
  exact ⟨s, p, q, heq, hmerges⟩

end Automaton

/-! ### Faults of the construction -/

/-- The fault is that of a state which reaches two different acceptances. -/
def Fault.IsMerging (fault : Fault) : Prop := ∃ s p q, fault = .mergedAcceptance s p q

/-- A construction that never has this fault. -/
def Assembly.Unmerging (a : Assembly) : Prop :=
  ∀ A fault, a A = .error fault → ¬ fault.IsMerging

/-- The construction of a tree does not have this fault, if that of its names does not. -/
theorem Regex.not_merging_assemble {folding : CaseFolding} {expand : String → Assembly}
    (h : ∀ name, (expand name).Unmerging) (r : Regex) :
    Assembly.Unmerging (r.assemble folding expand) :=
  faults_assemble (P := fun fault => ¬ fault.IsMerging) r
    { names := fun name _ => h name
      classes := fun set negated fault _ hfault => by
        rintro ⟨s, p, q, rfl⟩
        cases CharSet.orderedRanges_eq_error hfault
      operands := fun q _ => by
        rintro ⟨s, p, q, hindex⟩
        cases hindex }

end GrammarAnalysis
