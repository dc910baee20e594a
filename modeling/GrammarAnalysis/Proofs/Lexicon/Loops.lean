import GrammarAnalysis.Grammar.Tokens
import Mathlib.Data.List.Perm.Subperm

/-!
# The Search for Loops

The search follows the references of the patterns, and reports a pattern with a reference to one
that is on the way to it; such a pattern leads to itself. The search goes on behind every other
reference, so if it reports nothing, then the patterns that it started from do not lead to a loop.

## Main definitions

* `Lexicon.Mentions`: a pattern refers to another;
* `Lexicon.follow`: one reference is followed.

## Main results

* `Lexicon.transGen_of_mem_loops`: what is reported leads to itself;
* `Lexicon.acc_of_loops_eq_nil`: nothing is reported only if there is no loop;
* `Lexicon.loops_eq_nil_iff`: nothing is reported if and only if no pattern leads to itself.
-/

namespace GrammarAnalysis

namespace Lexicon

variable {L : Lexicon} {budget id : Nat} {visiting : List Nat} {found : LoopSearch}

/-- The pattern refers to pattern `target`. -/
def Mentions (L : Lexicon) (id target : Nat) : Prop :=
  ∃ name ∈ (L.pattern id).references, L.namedToken name = some target

/-- Follows a reference of pattern `id` to `target`. -/
def follow (L : Lexicon) (budget : Nat) (visiting : List Nat) (id : Nat) (found : LoopSearch)
    (target : Nat) : LoopSearch :=
  if target ∈ found.closed then found
  else if target ∈ visiting then
    { closed := target :: found.closed, loops := found.loops ++ [id] }
  else L.searchWithin budget (target :: visiting) found target

/-- One step of the search follows the names of the pattern one after the other. -/
theorem searchWithin_succ : L.searchWithin (budget + 1) visiting found id =
    ((L.pattern id).references.filterMap L.namedToken).foldl (L.follow budget visiting id) found :=
  rfl

/-! ### What is reported -/

/-- A pattern that is reported leads to itself, if those on the way to the search lead to where it
starts. -/
theorem transGen_of_mem_searchWithin (budget : Nat) : ∀ {visiting : List Nat} {found : LoopSearch}
    {id : Nat}, (∀ x ∈ visiting, Relation.ReflTransGen L.Mentions x id) →
      ∀ p ∈ (L.searchWithin budget visiting found id).loops,
        p ∈ found.loops ∨ Relation.TransGen L.Mentions p p := by
  induction budget with
  | zero => exact fun _ p hp => .inl hp
  | succ budget ih =>
      intro visiting found id hvisiting
      rw [searchWithin_succ]
      refine List.foldlRecOn (motive := fun found' : LoopSearch => ∀ p ∈ found'.loops,
        p ∈ found.loops ∨ Relation.TransGen L.Mentions p p) _ _ (fun p hp => .inl hp)
        fun found' hfound target htarget p hp => ?_
      have hmentions : L.Mentions id target := List.mem_filterMap.mp htarget
      rw [follow] at hp
      split at hp
      · exact hfound p hp
      · split at hp
        · rename_i hloop
          rcases List.mem_append.mp hp with hp | hp
          · exact hfound p hp
          · rw [List.mem_singleton.mp hp]
            exact .inr (.head' hmentions (hvisiting target hloop))
        · refine (ih (List.forall_mem_cons.mpr ⟨.refl, fun x hx => ?_⟩) p hp).elim (hfound p) .inr
          exact (hvisiting x hx).tail hmentions

/-- **What is reported leads to itself.** -/
theorem transGen_of_mem_loops {starts : List Nat} :
    ∀ p ∈ L.loops starts, Relation.TransGen L.Mentions p p :=
  List.foldlRecOn (motive := fun found : LoopSearch => ∀ p ∈ found.loops,
    Relation.TransGen L.Mentions p p) _ _ (fun _ hp => absurd hp List.not_mem_nil)
    fun _ hfound _ _ p hp => (transGen_of_mem_searchWithin _
      (fun _ hx => absurd hx List.not_mem_nil) p hp).elim (hfound p) fun h => h

/-! ### What is not reported -/

/-- What steps keep that report nothing, a series of steps keeps that reports nothing; and each
step does its part. -/
theorem foldl_silent {α : Type} {f : LoopSearch → α → LoopSearch} {Q : α → Prop}
    (hmono : ∀ found a, (f found a).loops = [] → found.loops = []) {l : List α}
    (hstep : ∀ a ∈ l, ∀ found, (f found a).loops = [] → found.closed = [] →
      (f found a).closed = [] ∧ Q a) :
    ∀ {found : LoopSearch}, (l.foldl f found).loops = [] →
      found.loops = [] ∧ (found.closed = [] → (l.foldl f found).closed = [] ∧ ∀ a ∈ l, Q a) := by
  induction l with
  | nil => exact fun h => ⟨h, fun hclosed => ⟨hclosed, fun _ ha => absurd ha List.not_mem_nil⟩⟩
  | cons a l ih =>
      intro found h
      obtain ⟨hsilent, hrest⟩ := ih (fun b hb => hstep b (List.mem_cons_of_mem a hb)) h
      refine ⟨hmono found a hsilent, fun hclosed => ?_⟩
      obtain ⟨hclosed', hQ⟩ := hstep a List.mem_cons_self found hsilent hclosed
      obtain ⟨hend, hQs⟩ := hrest hclosed'
      exact ⟨hend, List.forall_mem_cons.mpr ⟨hQ, hQs⟩⟩

/-- What was reported stays. -/
theorem loops_of_searchWithin (budget : Nat) : ∀ {visiting : List Nat} {found : LoopSearch}
    {id : Nat}, (L.searchWithin budget visiting found id).loops = [] → found.loops = [] := by
  induction budget with
  | zero => exact fun h => h
  | succ budget ih =>
      intro visiting found id h
      rw [searchWithin_succ] at h
      generalize (L.pattern id).references.filterMap L.namedToken = targets at h
      induction targets generalizing found with
      | nil => exact h
      | cons target targets ihtargets =>
          have hnext := ihtargets h
          rw [follow] at hnext
          split at hnext
          · exact hnext
          · split at hnext
            · exact absurd hnext (List.append_ne_nil_of_right_ne_nil _ (List.cons_ne_nil _ _))
            · exact ih hnext

/-- If following a name finds no loop, none was found before; and as long as nothing is closed, the
pattern is not being visited, and the search goes on from it. -/
theorem loops_of_follow {target : Nat}
    (h : (L.follow budget visiting id found target).loops = []) :
    found.loops = [] ∧ (found.closed = [] → target ∉ visiting ∧
      L.follow budget visiting id found target
        = L.searchWithin budget (target :: visiting) found target) := by
  rw [follow] at h ⊢
  split at h
  · rename_i hclosed
    refine ⟨h, fun hnil => ?_⟩
    rw [hnil] at hclosed
    exact absurd hclosed List.not_mem_nil
  · rename_i hclosed
    split at h
    · exact absurd h (List.append_ne_nil_of_right_ne_nil _ (List.cons_ne_nil _ _))
    · rename_i hvisiting
      exact ⟨loops_of_searchWithin budget h, fun _ => ⟨hvisiting, by
        rw [if_neg hclosed, if_neg hvisiting]⟩⟩

/-- Different patterns that took one from a budget each have left some of it, if there was one more
than there are patterns. -/
theorem budget_pos {size : Nat} (hnodup : visiting.Nodup) (hlt : ∀ x ∈ visiting, x < size)
    (hsize : size < budget + visiting.length) : 0 < budget := by
  have hsub : visiting ⊆ List.range size := fun x hx => List.mem_range.mpr (hlt x hx)
  have hlength := (hnodup.subperm hsub).length_le
  rw [List.length_range] at hlength
  omega

/-- A search that reports nothing has followed all references, to patterns that lead to no loop. -/
theorem acc_of_searchWithin
    (hnames : ∀ name target, L.namedToken name = some target → target < L.patterns.size)
    (budget : Nat) : ∀ {visiting : List Nat} {found : LoopSearch} {id : Nat},
      visiting.Nodup → (∀ x ∈ visiting, x < L.patterns.size) →
      L.patterns.size < budget + visiting.length →
      (L.searchWithin budget visiting found id).loops = [] → found.closed = [] →
      (L.searchWithin budget visiting found id).closed = [] ∧
        Acc (fun target id => L.Mentions id target) id := by
  induction budget with
  | zero =>
      intro visiting found id hnodup hlt hsize
      exact absurd (budget_pos hnodup hlt hsize) (Nat.lt_irrefl 0)
  | succ budget ih =>
      intro visiting found id hnodup hlt hsize hsilent hclosed
      rw [searchWithin_succ] at hsilent ⊢
      have hstep : ∀ target ∈ (L.pattern id).references.filterMap L.namedToken, ∀ found,
          (L.follow budget visiting id found target).loops = [] → found.closed = [] →
          (L.follow budget visiting id found target).closed = [] ∧
            Acc (fun target id => L.Mentions id target) target := by
        intro target htarget found hsilent hclosed
        obtain ⟨name, -, hname⟩ := List.mem_filterMap.mp htarget
        obtain ⟨hnew, heq⟩ := (loops_of_follow hsilent).2 hclosed
        rw [heq] at hsilent ⊢
        refine ih (List.nodup_cons.mpr ⟨hnew, hnodup⟩)
          (List.forall_mem_cons.mpr ⟨hnames name target hname, hlt⟩) ?_ hsilent hclosed
        rw [List.length_cons]
        omega
      obtain ⟨hend, hall⟩ :=
        (foldl_silent (fun _ _ h => (loops_of_follow h).1) hstep hsilent).2 hclosed
      refine ⟨hend, Acc.intro id fun target ⟨name, hname, htarget⟩ => ?_⟩
      exact hall target (List.mem_filterMap.mpr ⟨name, hname, htarget⟩)

/-- **Nothing is reported only if there is no loop**: each pattern that the search starts from
leads, reference by reference, to an end. -/
theorem acc_of_loops_eq_nil
    (hnames : ∀ name target, L.namedToken name = some target → target < L.patterns.size)
    {starts : List Nat} (h : L.loops starts = []) :
    ∀ id ∈ starts, Acc (fun target id => L.Mentions id target) id := by
  have hstep : ∀ id ∈ starts, ∀ found,
      (L.searchWithin (L.patterns.size + 1) [] found id).loops = [] → found.closed = [] →
      (L.searchWithin (L.patterns.size + 1) [] found id).closed = [] ∧
        Acc (fun target id => L.Mentions id target) id := fun id _ found hsilent hclosed =>
    acc_of_searchWithin hnames _ List.nodup_nil (fun _ hx => absurd hx List.not_mem_nil)
      (Nat.lt_succ_self _) hsilent hclosed
  have hend := foldl_silent (fun _ _ h => loops_of_searchWithin _ h) hstep h
  exact (hend.2 rfl).2

/-- A pattern that does not lead to a loop does not lead to itself. -/
theorem not_transGen_self (h : Acc (fun target id => L.Mentions id target) id) :
    ¬ Relation.TransGen L.Mentions id id := by
  induction h with
  | intro id _ ih =>
      intro hloop
      obtain ⟨target, hmentions, hrest⟩ := Relation.TransGen.head'_iff.mp hloop
      exact ih target hmentions (.tail' hrest hmentions)

/-- **The loops are found**: nothing is reported if and only if no pattern leads to itself, provided
that the search starts from all patterns that do. -/
theorem loops_eq_nil_iff
    (hnames : ∀ name target, L.namedToken name = some target → target < L.patterns.size)
    {starts : List Nat} (hstarts : ∀ id, Relation.TransGen L.Mentions id id → id ∈ starts) :
    L.loops starts = [] ↔ ∀ id, ¬ Relation.TransGen L.Mentions id id := by
  constructor
  · exact fun h id hloop =>
      not_transGen_self (acc_of_loops_eq_nil hnames h id (hstarts id hloop)) hloop
  · exact fun h => List.eq_nil_iff_forall_not_mem.mpr fun p hp => h p (transGen_of_mem_loops p hp)

end Lexicon

end GrammarAnalysis
