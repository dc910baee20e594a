/-!
# Ordered Sets

A finite set is written as the strictly increasing list of its elements, so two sets are equal
exactly when they have the same elements, and listing a set in order costs nothing.

## Main results

* `OrderedSet.ext` — sets with the same elements are equal;
* `OrderedSet.mem_insert`, `mem_erase`, `mem_union`, `mem_filter`, `mem_ofList` — what each
  operation does to the elements.
-/

namespace GrammarAnalysis

/-- A finite set, as the strictly increasing list of its elements. -/
structure OrderedSet (α : Type) [Ord α] where
  toList : List α
  increasing : toList.Pairwise fun a b => compare a b = .lt

namespace OrderedSet

variable {α : Type} [Ord α]

instance : EmptyCollection (OrderedSet α) := ⟨⟨[], .nil⟩⟩

instance : Inhabited (OrderedSet α) := ⟨∅⟩

instance : Membership α (OrderedSet α) := ⟨fun s a => a ∈ s.toList⟩

instance [DecidableEq α] (a : α) (s : OrderedSet α) : Decidable (a ∈ s) :=
  inferInstanceAs (Decidable (a ∈ s.toList))

instance [DecidableEq α] : DecidableEq (OrderedSet α) := fun s t =>
  if h : s.toList = t.toList then
    isTrue (by cases s; cases t; simp_all)
  else
    isFalse fun heq => h (congrArg toList heq)

instance [Repr α] : Repr (OrderedSet α) := ⟨fun s n => reprPrec s.toList n⟩

/-- The elements of a set are those of its list. -/
theorem mem_toList {a : α} {s : OrderedSet α} : a ∈ s.toList ↔ a ∈ s := Iff.rfl

/-- The number of elements. -/
def size (s : OrderedSet α) : Nat := s.toList.length

/-- The set has no element. -/
def isEmpty (s : OrderedSet α) : Bool := s.toList.isEmpty

/-- The set of one element. -/
def singleton (a : α) : OrderedSet α := ⟨[a], List.pairwise_singleton _ _⟩

/-- The elements that satisfy `p`. -/
def filter (p : α → Bool) (s : OrderedSet α) : OrderedSet α :=
  ⟨s.toList.filter p, s.increasing.filter p⟩

/-- Removes an element. -/
def erase [DecidableEq α] (a : α) (s : OrderedSet α) : OrderedSet α :=
  s.filter fun b => b ≠ a

/-- The elements of a filtered set are those that satisfy the predicate. -/
@[simp] theorem mem_filter {p : α → Bool} {s : OrderedSet α} {a : α} :
    a ∈ s.filter p ↔ a ∈ s ∧ p a = true :=
  List.mem_filter

/-- Erasing an element leaves the other ones. -/
@[simp] theorem mem_erase [DecidableEq α] {s : OrderedSet α} {a b : α} :
    a ∈ s.erase b ↔ a ∈ s ∧ a ≠ b := by
  simp [erase]

/-- The set of one element has this element only. -/
@[simp] theorem mem_singleton {a b : α} : a ∈ singleton b ↔ a = b :=
  List.mem_singleton

/-- The empty set has no element. -/
@[simp] theorem not_mem_empty {a : α} : a ∉ (∅ : OrderedSet α) :=
  List.not_mem_nil

/-! ### Equality -/

section Equality

variable [Std.TransOrd α]

/-- Nothing comes before itself. -/
theorem not_compare_self (a : α) : compare a a ≠ .lt := fun h => by
  have hself : compare a a = .eq := Std.ReflCmp.compare_self
  rw [hself] at h
  cases h

/-- No element occurs twice. -/
theorem nodup_toList (s : OrderedSet α) : s.toList.Nodup :=
  s.increasing.imp fun {a b} (h : compare a b = .lt) (heq : a = b) =>
    not_compare_self b (by rwa [heq] at h)

/-- Increasing lists with the same elements are equal. -/
theorem increasing_ext {l m : List α}
    (hl : l.Pairwise fun x y => compare x y = .lt) (hm : m.Pairwise fun x y => compare x y = .lt)
    (h : ∀ a, a ∈ l ↔ a ∈ m) : l = m := by
  induction l generalizing m with
  | nil =>
    cases m with
    | nil => rfl
    | cons b m => exact absurd ((h b).mpr (by simp)) (by simp)
  | cons a l ih =>
    cases m with
    | nil => exact absurd ((h a).mp (by simp)) (by simp)
    | cons b m =>
      rw [List.pairwise_cons] at hl hm
      have hab : a = b := by
        rcases List.mem_cons.mp ((h a).mp (by simp)) with hab | hab
        · exact hab
        · rcases List.mem_cons.mp ((h b).mpr (by simp)) with hba | hba
          · exact hba.symm
          · exact absurd (Std.TransCmp.lt_trans (hm.1 a hab) (hl.1 b hba)) (not_compare_self b)
      subst hab
      congr 1
      refine ih hl.2 hm.2 fun x => ?_
      constructor
      · intro hx
        rcases List.mem_cons.mp ((h x).mp (by simp [hx])) with rfl | hx'
        · exact absurd (hl.1 x hx) (not_compare_self x)
        · exact hx'
      · intro hx
        rcases List.mem_cons.mp ((h x).mpr (by simp [hx])) with rfl | hx'
        · exact absurd (hm.1 x hx) (not_compare_self x)
        · exact hx'

/-- **Extensionality**: sets with the same elements are equal. -/
@[ext] theorem ext {s t : OrderedSet α} (h : ∀ a, a ∈ s ↔ a ∈ t) : s = t := by
  have := increasing_ext s.increasing t.increasing h
  cases s; cases t; simp_all

end Equality

/-! ### Insertion -/

/-- Inserts `a` before the first element that is larger, unless it occurs. -/
def insertList (a : α) : List α → List α
  | [] => [a]
  | b :: rest =>
    match compare a b with
    | .lt => a :: b :: rest
    | .eq => b :: rest
    | .gt => b :: insertList a rest

variable [Std.LawfulEqOrd α]

/-- Inserting into a list adds the element. -/
theorem mem_insertList {a b : α} {l : List α} : b ∈ insertList a l ↔ b = a ∨ b ∈ l := by
  induction l with
  | nil => simp [insertList]
  | cons c rest ih =>
    simp only [insertList]
    split
    · simp
    · rename_i h
      have hac : a = c := Std.LawfulEqOrd.eq_of_compare h
      simp [hac]
    · simp only [List.mem_cons, ih]
      constructor
      · rintro (h | h | h) <;> simp [h]
      · rintro (h | h | h) <;> simp [h]

variable [Std.TransOrd α]

/-- Inserting into an increasing list leaves it increasing. -/
theorem pairwise_insertList {a : α} {l : List α}
    (h : l.Pairwise fun x y => compare x y = .lt) :
    (insertList a l).Pairwise fun x y => compare x y = .lt := by
  induction l with
  | nil => simp [insertList]
  | cons c rest ih =>
    rw [List.pairwise_cons] at h
    simp only [insertList]
    split
    · rename_i hac
      refine List.pairwise_cons.mpr ⟨fun x hx => ?_, List.pairwise_cons.mpr h⟩
      rcases List.mem_cons.mp hx with rfl | hx
      · exact hac
      · exact Std.TransCmp.lt_trans hac (h.1 x hx)
    · exact List.pairwise_cons.mpr h
    · rename_i hac
      refine List.pairwise_cons.mpr ⟨fun x hx => ?_, ih h.2⟩
      rcases mem_insertList.mp hx with rfl | hx
      · exact Std.OrientedCmp.lt_of_gt hac
      · exact h.1 x hx

/-- Adds an element. -/
def insert (a : α) (s : OrderedSet α) : OrderedSet α :=
  ⟨insertList a s.toList, pairwise_insertList s.increasing⟩

/-- Adds the elements of a list. -/
def insertAll (l : List α) (s : OrderedSet α) : OrderedSet α :=
  l.foldl (fun t a => t.insert a) s

/-- The set of the elements of a list. -/
def ofList (l : List α) : OrderedSet α := insertAll l ∅

/-- The elements of either set. -/
def union (s t : OrderedSet α) : OrderedSet α := insertAll t.toList s

/-- Inserting into a set adds the element. -/
@[simp] theorem mem_insert {a b : α} {s : OrderedSet α} : b ∈ s.insert a ↔ b = a ∨ b ∈ s :=
  mem_insertList

/-- Inserting a list adds its elements. -/
@[simp] theorem mem_insertAll {a : α} {l : List α} {s : OrderedSet α} :
    a ∈ s.insertAll l ↔ a ∈ l ∨ a ∈ s := by
  induction l generalizing s with
  | nil => simp [insertAll]
  | cons b rest ih =>
    have := @ih (s.insert b)
    simp only [insertAll, List.foldl_cons] at this ⊢
    rw [this]
    simp only [mem_insert, List.mem_cons]
    constructor
    · rintro (h | h | h) <;> simp [h]
    · rintro ((h | h) | h) <;> simp [h]

/-- The set of a list has its elements. -/
@[simp] theorem mem_ofList {a : α} {l : List α} : a ∈ ofList l ↔ a ∈ l := by
  simp [ofList]

/-- The union has the elements of either set. -/
@[simp] theorem mem_union {a : α} {s t : OrderedSet α} : a ∈ s.union t ↔ a ∈ s ∨ a ∈ t := by
  simp only [union, mem_insertAll, mem_toList]
  exact Or.comm

end OrderedSet

end GrammarAnalysis
