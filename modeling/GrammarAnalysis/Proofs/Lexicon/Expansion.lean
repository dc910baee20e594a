import GrammarAnalysis.Lexicon.Build
import GrammarAnalysis.Proofs.Automaton.Thompson
import GrammarAnalysis.Proofs.Lexicon.Loops

/-!
# Expansion of Patterns

The references of a pattern are expanded while its fragment is made. The expansion is on a
budget, and stops at a pattern that is being expanded already. In a pattern whose references all
resolve, and whose expansion does not come by itself again, neither happens: its fragment
realizes the language of its tree.

## Main definitions

* `Lexicon.namedTree`: the tree that a name stands for;
* `Lexicon.Room`: the patterns that are being expanded leave room for another one.

## Main results

* `Lexicon.expandWithin_induction`: what holds of the fragments of all patterns;
* `Lexicon.exists_makes_expand`: the fragment of any pattern realizes some language;
* `Lexicon.makes_expand`: the fragment of an expandable pattern realizes its language.
-/

namespace GrammarAnalysis

namespace Lexicon

/-- The tree that a name stands for. -/
def namedTree (L : Lexicon) (name : String) : Option Regex :=
  (L.namedToken name).bind fun id => (L.pattern id).tree

variable {L : Lexicon} {ignoreCase : Bool}

/-- The fragment of what a name stands for; of a point if it stands for nothing. -/
def expandName (L : Lexicon) (ignoreCase : Bool) (budget : Nat) (expanding : List Nat)
    (name : String) : Assembly := fun A =>
  match L.namedToken name with
  | none => .ok A.addPoint
  | some target => L.expandWithin ignoreCase budget expanding target A

/-- A pattern that is being expanded already, or has no tree, becomes a point. -/
theorem expandWithin_of_mem {budget id : Nat} {expanding : List Nat}
    (h : (L.pattern id).tree = none ∨ id ∈ expanding) :
    L.expandWithin ignoreCase (budget + 1) expanding id = fun A => .ok A.addPoint := by
  funext A
  rw [expandWithin]
  cases htree : (L.pattern id).tree with
  | none => rfl
  | some tree =>
      rw [htree] at h
      exact if_pos (h.resolve_left (by simp))

/-- A pattern that is not being expanded becomes the fragment of its tree. -/
theorem expandWithin_of_not_mem {budget id : Nat} {expanding : List Nat} {tree : Regex}
    (htree : (L.pattern id).tree = some tree) (h : id ∉ expanding) :
    L.expandWithin ignoreCase (budget + 1) expanding id
      = tree.assemble (L.folding ignoreCase)
          (L.expandName ignoreCase budget (id :: expanding)) := by
  funext A
  rw [expandWithin, htree]
  exact if_neg h

/-- **Induction on an expansion**: what is true of a point, and of the fragment of a tree if it is
true of its names, is true of the fragment of any pattern, wherever the expansion stops. -/
theorem expandWithin_induction {P : Assembly → Prop} (hpoint : P fun A => .ok A.addPoint)
    (htree : ∀ (tree : Regex) (expand : String → Assembly), (∀ name, P (expand name)) →
      P (tree.assemble (L.folding ignoreCase) expand)) (budget : Nat) :
    ∀ (expanding : List Nat) (id : Nat), P (L.expandWithin ignoreCase budget expanding id) := by
  induction budget with
  | zero => exact fun _ _ => hpoint
  | succ budget ih =>
      intro expanding id
      by_cases hstop : (L.pattern id).tree = none ∨ id ∈ expanding
      · rw [expandWithin_of_mem hstop]
        exact hpoint
      · obtain ⟨hsome, hid⟩ := not_or.mp hstop
        obtain ⟨tree, hsome⟩ := Option.ne_none_iff_exists'.mp hsome
        rw [expandWithin_of_not_mem hsome hid]
        refine htree tree _ fun name => ?_
        unfold expandName
        cases L.namedToken name with
        | none => exact hpoint
        | some target => exact ih (id :: expanding) target

/-- The fragment of any pattern realizes some language, wherever the expansion stops. -/
theorem exists_makes_expand (L : Lexicon) (ignoreCase : Bool) (id : Nat) :
    ∃ ℓ, Assembly.Makes (L.expand ignoreCase id) ℓ False :=
  expandWithin_induction (P := fun a => ∃ ℓ, a.Makes ℓ False)
    ⟨1, Automaton.makes_addPoint False⟩
    (fun tree expand hexpand => by
      choose named hnamed using hexpand
      exact ⟨tree.language (L.folding ignoreCase) named, Regex.makes_assemble tree
        { makes := fun name _ => hnamed name
          not_nullable := fun _ _ _ _ _ h => h.elim }⟩)
    _ [] id

/-! ### Patterns whose references resolve -/

/-- A pattern refers to what a name stands for that occurs in its tree. -/
theorem mentions_of_occurs {id target : Nat} {tree : Regex} {name : String}
    (htree : (L.pattern id).tree = some tree) (hname : tree.Occurs (.reference name))
    (htarget : L.namedToken name = some target) : L.Mentions id target := by
  refine ⟨name, ?_, htarget⟩
  rw [Pattern.references, htree]
  exact hname.mem_references

/-- The patterns of `expanding` lead to `tree`, and the budget is enough for the others. -/
structure Room (L : Lexicon) (budget : Nat) (expanding : List Nat) (tree : Regex) : Prop where
  nodup : expanding.Nodup
  lt_size : ∀ x ∈ expanding, x < L.patterns.size
  size_lt : L.patterns.size < budget + expanding.length
  refers : ∀ x ∈ expanding, ∃ t, (L.pattern x).tree = some t ∧
    Relation.TransGen (Regex.Refers L.namedTree) t tree

/-- A pattern with a tree is in the lexicon. -/
theorem lt_size_of_tree {id : Nat} {tree : Regex} (h : (L.pattern id).tree = some tree) :
    id < L.patterns.size := by
  by_contra hid
  rw [pattern, pattern?, Array.getElem?_eq_none (Nat.le_of_not_lt hid)] at h
  cases h

/-- Where nothing is being expanded, a budget of one more than there are patterns is enough. -/
theorem room_nil (L : Lexicon) (tree : Regex) : L.Room (L.patterns.size + 1) [] tree where
  nodup := List.nodup_nil
  lt_size := fun _ hx => absurd hx List.not_mem_nil
  size_lt := Nat.lt_succ_self _
  refers := fun _ hx => absurd hx List.not_mem_nil

/-- The budget allows one more step while there is room. -/
theorem Room.budget_pos {budget : Nat} {expanding : List Nat} {tree : Regex}
    (h : L.Room budget expanding tree) : 0 < budget :=
  Lexicon.budget_pos h.nodup h.lt_size h.size_lt

/-- A pattern of an expandable tree is not being expanded already. -/
theorem Room.not_mem {budget id : Nat} {expanding : List Nat} {tree : Regex}
    (h : L.Room budget expanding tree) (hexp : tree.Expandable L.namedTree)
    (htree : (L.pattern id).tree = some tree) : id ∉ expanding := by
  intro hid
  obtain ⟨t, ht, hrefers⟩ := h.refers id hid
  obtain rfl : tree = t := Option.some.inj (htree.symm.trans ht)
  exact hexp.irrefl hrefers

/-- There is room for what a tree refers to. -/
theorem Room.step {budget id : Nat} {expanding : List Nat} {tree tree' : Regex}
    (h : L.Room (budget + 1) expanding tree) (hid : id ∉ expanding)
    (htree : (L.pattern id).tree = some tree) (hrefers : Regex.Refers L.namedTree tree tree') :
    L.Room budget (id :: expanding) tree' where
  nodup := List.nodup_cons.mpr ⟨hid, h.nodup⟩
  lt_size := List.forall_mem_cons.mpr ⟨lt_size_of_tree htree, h.lt_size⟩
  size_lt := by
    have := h.size_lt
    rw [List.length_cons]
    omega
  refers := by
    refine List.forall_mem_cons.mpr ⟨⟨tree, htree, .single hrefers⟩, fun x hx => ?_⟩
    obtain ⟨t, ht, hlead⟩ := h.refers x hx
    exact ⟨t, ht, hlead.tail hrefers⟩

/-- The fragment of an expandable pattern realizes the language of its tree. -/
theorem makes_expandWithin {tree : Regex} (h : tree.Expandable L.namedTree) :
    ∀ {budget id : Nat} {expanding : List Nat}, (L.pattern id).tree = some tree →
      L.Room budget expanding tree →
      Assembly.Makes (L.expandWithin ignoreCase budget expanding id)
        (tree.languageIn (L.folding ignoreCase) L.namedTree)
        (tree.Steady (L.folding ignoreCase) L.namedTree) := by
  induction h with
  | @intro tree hresolve hrefers ih =>
      intro budget id expanding htree hroom
      have hexp : tree.Expandable L.namedTree := .intro hresolve hrefers
      obtain ⟨budget, rfl⟩ := Nat.exists_eq_add_of_le' hroom.budget_pos
      have hid := hroom.not_mem hexp htree
      rw [expandWithin_of_not_mem htree hid, Regex.languageIn_eq hexp]
      refine Regex.makes_assemble tree
        ⟨fun name hname => ?_, fun q body further hbody hq hsteady => ?_⟩
      · obtain ⟨tree', htree'⟩ := Option.isSome_iff_exists.mp (hresolve name hname)
        obtain ⟨target, htarget, hpattern⟩ := Option.bind_eq_some_iff.mp htree'
        have hstep : Regex.Refers L.namedTree tree tree' := ⟨name, hname, htree'⟩
        have hmakes := ih tree' hstep hpattern (hroom.step hid htree hstep)
        intro A f B hB
        rw [expandName, htarget] at hB
        obtain ⟨hextends, hrealizes⟩ := hmakes A f B hB
        rw [Regex.wordsOf, htree']
        exact ⟨hextends, hrealizes.weaken fun hsteady => hsteady.refers hstep⟩
      · rw [← Regex.languageIn_eq (hexp.part (hbody.trans (.repeated .self)))]
        exact hsteady tree .refl q body further hbody hq

/-- **The fragment of an expandable pattern realizes the language of its tree.** -/
theorem makes_expand {tree : Regex} (h : tree.Expandable L.namedTree) {id : Nat}
    (htree : (L.pattern id).tree = some tree) :
    Assembly.Makes (L.expand ignoreCase id) (tree.languageIn (L.folding ignoreCase) L.namedTree)
      (tree.Steady (L.folding ignoreCase) L.namedTree) :=
  makes_expandWithin h htree (room_nil L tree)

end Lexicon

end GrammarAnalysis
