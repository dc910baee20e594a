import GrammarAnalysis.Proofs.Lexicon.Expansion

/-!
# Expansions That Are Not Cut Off

An expansion stops at a pattern that is being expanded already. To say that it never does, the
fragment that it makes there is left open: if an expansion makes the same fragment whatever is made
where it stops, it does not stop.

## Main definitions

* `Lexicon.expandCutting`: the fragment of a pattern, with a construction for the places where the
  expansion stops;
* `Lexicon.Trail`: the patterns that are being expanded lead to the next one.

## Main results

* `Lexicon.expandCutting_addPoint`: the expansion that makes a point where it stops;
* `Lexicon.expandCutting_eq`: an expansion does not stop at a pattern that does not lead to a loop.
-/

namespace GrammarAnalysis

namespace Regex

variable {folding : CaseFolding} {expand expand' : String → Assembly}

mutual

/-- The fragment of a tree depends on those of its own names only. -/
theorem assemble_congr : (r : Regex) →
    (∀ name, r.Part (.reference name) → expand name = expand' name) →
    r.assemble folding expand = r.assemble folding expand'
  | chars set negated, _ => rfl
  | text image, _ => rfl
  | concat parts, h => by
    funext A
    rw [assemble, assemble, assembleAll_congr parts fun r hr name hname =>
      h name (.concat hr hname)]
  | choice [], _ => rfl
  | choice [r], h => assemble_congr r fun name hname => h name (.choice List.mem_cons_self hname)
  | choice (r :: s :: rest), h => by
    funext A
    have hbetween : ∀ outer, assembleBetween folding expand outer (r :: s :: rest)
        = assembleBetween folding expand' outer (r :: s :: rest) := fun outer =>
      assembleBetween_congr outer (r :: s :: rest) fun t ht name hname => h name (.choice ht hname)
    rw [assemble, assemble]
    · simp only [hbetween]
    all_goals exact fun _ => nofun
  | repeated q (body :: _), h => by
    funext A
    rw [assemble, assemble, assemble_congr body fun name hname => h name (.repeated hname)]
  | repeated q [], _ => rfl
  | reference name, h => h name .self
  | endOfInput, _ => rfl

/-- A list of trees is assembled alike if the names are expanded alike. -/
theorem assembleAll_congr : (rs : List Regex) →
    (∀ r ∈ rs, ∀ name, r.Part (.reference name) → expand name = expand' name) →
    assembleAll folding expand rs = assembleAll folding expand' rs
  | [], _ => rfl
  | r :: rest, h => by
    funext A
    rw [assembleAll, assembleAll, assemble_congr r (h r List.mem_cons_self),
      assembleAll_congr rest fun s hs => h s (List.mem_cons_of_mem r hs)]

/-- Alternatives are assembled alike if the names are expanded alike. -/
theorem assembleBetween_congr (outer : Fragment) : (rs : List Regex) →
    (∀ r ∈ rs, ∀ name, r.Part (.reference name) → expand name = expand' name) →
    assembleBetween folding expand outer rs = assembleBetween folding expand' outer rs
  | [], _ => rfl
  | r :: rest, h => by
    funext A
    rw [assembleBetween, assembleBetween, assemble_congr r (h r List.mem_cons_self),
      assembleBetween_congr outer rest fun s hs => h s (List.mem_cons_of_mem r hs)]

end

end Regex

namespace Lexicon

variable {L : Lexicon} {ignoreCase : Bool} {cut : Assembly} {budget id : Nat}
  {expanding : List Nat}

/-- Adds the fragment of a pattern. Where the expansion stops, at a pattern that is being expanded
or at the end of its budget, `cut` is made. -/
def expandCutting (L : Lexicon) (ignoreCase : Bool) (cut : Assembly) :
    (budget : Nat) → (expanding : List Nat) → Nat → Assembly
  | 0, _, _, A => cut A
  | budget + 1, expanding, id, A =>
    match (L.pattern id).tree with
    | none => .ok A.addPoint
    | some tree =>
      if id ∈ expanding then cut A
      else tree.assemble (L.folding ignoreCase) (fun name A =>
        match L.namedToken name with
        | none => .ok A.addPoint
        | some target => expandCutting L ignoreCase cut budget (id :: expanding) target A) A

/-- Where the expansion of a pattern stops, it makes a point. -/
theorem expandCutting_addPoint (L : Lexicon) (ignoreCase : Bool) (budget : Nat) :
    ∀ (expanding : List Nat) (id : Nat),
      L.expandCutting ignoreCase (fun A => .ok A.addPoint) budget expanding id
        = L.expandWithin ignoreCase budget expanding id := by
  induction budget with
  | zero => exact fun _ _ => rfl
  | succ budget ih =>
      intro expanding id
      funext A
      rw [expandCutting, expandWithin]
      cases (L.pattern id).tree with
      | none => rfl
      | some tree =>
          refine if_congr Iff.rfl rfl (congrFun (Regex.assemble_congr tree fun name _ => ?_) A)
          funext A
          cases L.namedToken name with
          | none => rfl
          | some target => exact congrFun (ih (id :: expanding) target) A

/-- The patterns that are being expanded lead to the next one, and the budget is enough for the
others. -/
structure Trail (L : Lexicon) (budget : Nat) (expanding : List Nat) (id : Nat) : Prop where
  nodup : expanding.Nodup
  lt_size : ∀ x ∈ expanding, x < L.patterns.size
  size_lt : L.patterns.size < budget + expanding.length
  leads : ∀ x ∈ expanding, Relation.TransGen L.Mentions x id

/-- The patterns being expanded lead to what the next one mentions. -/
theorem Trail.step {target : Nat} (h : L.Trail (budget + 1) expanding id)
    (hid : id < L.patterns.size) (hnew : id ∉ expanding) (hmentions : L.Mentions id target) :
    L.Trail budget (id :: expanding) target where
  nodup := List.nodup_cons.mpr ⟨hnew, h.nodup⟩
  lt_size := List.forall_mem_cons.mpr ⟨hid, h.lt_size⟩
  size_lt := by
    have := h.size_lt
    rw [List.length_cons]
    omega
  leads := List.forall_mem_cons.mpr ⟨.single hmentions, fun x hx => (h.leads x hx).tail hmentions⟩

/-- If no pattern comes by itself again, it does not matter what is made at a cut. -/
theorem expandCutting_eq_of_trail (h : Acc (fun target id => L.Mentions id target) id) :
    ∀ {budget : Nat} {expanding : List Nat}, L.Trail budget expanding id →
      L.expandCutting ignoreCase cut budget expanding id
        = L.expandWithin ignoreCase budget expanding id := by
  induction h with
  | intro id hacc ih =>
      intro budget expanding htrail
      obtain ⟨budget, rfl⟩ :=
        Nat.exists_eq_add_of_le' (budget_pos htrail.nodup htrail.lt_size htrail.size_lt)
      funext A
      rw [expandCutting, expandWithin]
      cases htree : (L.pattern id).tree with
      | none => rfl
      | some tree =>
          have hnew : id ∉ expanding := fun hid =>
            not_transGen_self (.intro id hacc) (htrail.leads id hid)
          simp only [if_neg hnew]
          refine congrFun (Regex.assemble_congr tree fun name hname => ?_) A
          funext A
          cases htarget : L.namedToken name with
          | none => rfl
          | some target =>
              have hmentions := mentions_of_occurs htree hname.occurs htarget
              exact congrFun (ih target hmentions
                (htrail.step (lt_size_of_tree htree) hnew hmentions)) A

/-- **An expansion does not stop** at a pattern that does not lead to a loop: the fragment does not
depend on what is made where an expansion stops. -/
theorem expandCutting_eq (h : Acc (fun target id => L.Mentions id target) id) :
    L.expandCutting ignoreCase cut (L.patterns.size + 1) [] id = L.expand ignoreCase id :=
  expandCutting_eq_of_trail h
    { nodup := List.nodup_nil
      lt_size := fun _ hx => absurd hx List.not_mem_nil
      size_lt := Nat.lt_succ_self _
      leads := fun _ hx => absurd hx List.not_mem_nil }

end Lexicon

end GrammarAnalysis
