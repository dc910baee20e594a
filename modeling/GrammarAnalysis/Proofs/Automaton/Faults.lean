import GrammarAnalysis.Proofs.Regex.Language

/-!
# Faults of the Construction

The construction of a fragment fails at a class that cannot be turned into ranges, at a repetition
without an operand, or where the construction of a name fails. Nothing else in a tree can fail, so
what is true of the faults of these parts is true of the faults of the tree.

## Main definitions

* `Assembly.Faults`: what is true of every fault of a construction step;
* `Regex.PartsFault`: it is true of every fault of the parts of a tree that can fail.

## Main results

* `CharSet.orderedRanges_eq_error`: the only fault of a class;
* `Regex.faults_assemble`: the faults of the fragment of a tree.
-/

namespace GrammarAnalysis

/-- A computation in two steps fails if one of them does. -/
theorem cases_of_bind_eq_error {α β : Type} {x : Except Fault α} {f : α → Except Fault β}
    {fault : Fault} (h : (x >>= f) = .error fault) :
    x = .error fault ∨ ∃ a, x = .ok a ∧ f a = .error fault := by
  cases x with
  | error e => exact .inl (congrArg _ (Except.error.inj h))
  | ok a => exact .inr ⟨a, rfl, h⟩

/-- A computation in two steps of which the second does not fail, fails where the first one does. -/
theorem bind_eq_error_iff {α β : Type} {x : Except Fault α} {f : α → Except Fault β}
    (hf : ∀ a, ∃ b, f a = .ok b) {fault : Fault} :
    (x >>= f) = .error fault ↔ x = .error fault := by
  constructor
  · intro h
    rcases cases_of_bind_eq_error h with h | ⟨a, -, h⟩
    · exact h
    · obtain ⟨b, hb⟩ := hf a
      rw [hb] at h
      cases h
  · rintro rfl
    rfl

/-- A traversal fails with the fault of the first element that fails. -/
theorem mapM_eq_error_iff {α β : Type} {f : α → Except Fault β} {l : List α} {fault : Fault} :
    l.mapM f = .error fault ↔ ∃ (i : Nat) (a : α), l[i]? = some a ∧ f a = .error fault ∧
      ∀ j < i, ∀ b, l[j]? = some b → ∃ c, f b = .ok c := by
  induction l with
  | nil =>
      refine ⟨fun h => (by cases h), ?_⟩
      rintro ⟨i, a, ha, -⟩
      cases ha
  | cons x l ih =>
      rw [List.mapM_cons]
      cases hx : f x with
      | error e =>
          constructor
          · intro h
            obtain rfl := Except.error.inj h
            exact ⟨0, x, rfl, hx, fun j hj => absurd hj (Nat.not_lt_zero j)⟩
          · rintro ⟨i, a, ha, hfault, hearlier⟩
            cases i with
            | zero =>
                obtain rfl := Option.some.inj ha
                rw [hx] at hfault
                exact congrArg _ (Except.error.inj hfault)
            | succ i =>
                obtain ⟨c, hc⟩ := hearlier 0 (Nat.succ_pos i) x rfl
                rw [hx] at hc
                cases hc
      | ok y =>
          have hrest : ((Except.ok y : Except Fault β) >>= fun y => do
              let ys ← l.mapM f
              return y :: ys) = .error fault ↔ l.mapM f = .error fault :=
            bind_eq_error_iff fun ys => ⟨y :: ys, rfl⟩
          rw [hrest, ih]
          constructor
          · rintro ⟨i, a, ha, hfault, hearlier⟩
            refine ⟨i + 1, a, ha, hfault, fun j hj b hb => ?_⟩
            cases j with
            | zero =>
                obtain rfl := Option.some.inj hb
                exact ⟨y, hx⟩
            | succ j => exact hearlier j (Nat.lt_of_succ_lt_succ hj) b hb
          · rintro ⟨i, a, ha, hfault, hearlier⟩
            cases i with
            | zero =>
                obtain rfl := Option.some.inj ha
                rw [hx] at hfault
                cases hfault
            | succ i =>
                exact ⟨i, a, ha, hfault,
                  fun j hj b hb => hearlier (j + 1) (Nat.succ_lt_succ hj) b hb⟩

/-- A class fails to be turned into ranges only where a gap would begin after the largest code
point. -/
theorem CharSet.orderedRanges_eq_error {set : CharSet} {ignoreCase negated : Bool} {fault : Fault}
    (h : set.orderedRanges ignoreCase negated = .error fault) : fault = .overflow := by
  cases negated with
  | false => cases h
  | true =>
      rcases cases_of_bind_eq_error
        (x := (if ignoreCase then set.caseFolded else set.normalized).negate) h with h | ⟨_, -, h⟩
      · generalize (if ignoreCase then set.caseFolded else set.normalized) = base at h
        rw [negate] at h
        split at h
        · exact (Except.error.inj h).symm
        · cases h
      · cases h

/-- Every fault of the construction step has the property. -/
def Assembly.Faults (a : Assembly) (P : Fault → Prop) : Prop :=
  ∀ A fault, a A = .error fault → P fault

variable {P : Fault → Prop}

/-- A copy fails only as its operand does. -/
theorem Copy.faults_assemble {operand : Assembly} (h : operand.Faults P) (copy : Copy) :
    (copy.assemble operand).Faults P := by
  intro A fault hfault
  cases copy with
  | plain => exact h A fault hfault
  | enclosed skip again =>
      rcases cases_of_bind_eq_error (x := operand A.addPair.2) hfault with hfault | ⟨_, -, hfault⟩
      · exact h _ fault hfault
      · cases hfault

/-- Copies of an operand fail only as the operand does. -/
theorem faults_assembleCopies {operand : Assembly} (h : operand.Faults P) (copies : List Copy) :
    ∀ A fault, assembleCopies operand copies A = .error fault → P fault := by
  induction copies with
  | nil => exact fun A fault hfault => by cases hfault
  | cons copy rest ih =>
      intro A fault hfault
      rcases cases_of_bind_eq_error (x := copy.assemble operand A) hfault with
        hfault | ⟨a, -, hfault⟩
      · exact copy.faults_assemble h A fault hfault
      · rcases cases_of_bind_eq_error (x := assembleCopies operand rest a.2) hfault with
          hfault | ⟨_, -, hfault⟩
        · exact ih _ fault hfault
        · cases hfault

namespace Regex

variable {folding : CaseFolding} {expand : String → Assembly}

/-- The parts of the tree that can fail do so with faults that have the property. -/
structure PartsFault (folding : CaseFolding) (expand : String → Assembly) (P : Fault → Prop)
    (r : Regex) : Prop where
  names : ∀ name, r.Part (.reference name) → (expand name).Faults P
  classes : ∀ set negated fault, r.Part (.chars set negated) →
    set.orderedRanges folding.classes negated = .error fault → P fault
  operands : ∀ q, r.Part (.dangling q) → P .index

/-- What can fail in a part of a tree can fail in the tree. -/
theorem PartsFault.part {r s : Regex} (h : PartsFault folding expand P r) (hs : r.Part s) :
    PartsFault folding expand P s where
  names := fun name hname => h.names name (hs.trans hname)
  classes := fun set negated fault hclass => h.classes set negated fault (hs.trans hclass)
  operands := fun q hq => h.operands q (hs.trans hq)

mutual

/-- **The faults of the fragment of a tree** are those of its parts. -/
theorem faults_assemble : (r : Regex) → PartsFault folding expand P r →
    Assembly.Faults (assemble folding expand r) P
  | chars set negated, h => by
    intro A fault hfault
    rw [assemble] at hfault
    rcases cases_of_bind_eq_error hfault with hfault | ⟨_, -, hfault⟩
    · exact h.classes set negated fault .self hfault
    · cases hfault
  | text _, _ | endOfInput, _ => fun A fault hfault => by
    rw [assemble] at hfault
    cases hfault
  | repeated q [], h => by
    intro A fault hfault
    rw [assemble] at hfault
    split at hfault
    · cases hfault
    · obtain rfl := Except.error.inj hfault
      exact h.operands q .self
  | reference name, h => by
    intro A fault hfault
    rw [assemble] at hfault
    exact h.names name .self A fault hfault
  | repeated q (body :: _), h => by
    intro A fault hfault
    rw [assemble] at hfault
    rcases cases_of_bind_eq_error hfault with hfault | ⟨_, -, hfault⟩
    · exact faults_assembleCopies (faults_assemble body (h.part (.repeated .self))) _ A fault
        hfault
    · cases hfault
  | concat parts, h => by
    intro A fault hfault
    rw [assemble] at hfault
    rcases cases_of_bind_eq_error hfault with hfault | ⟨_, -, hfault⟩
    · exact faults_assembleAll parts (fun r hr => h.part (.concat hr .self)) A fault hfault
    · cases hfault
  | choice [], _ => fun A fault hfault => by
    rw [assemble] at hfault
    · cases hfault
    · exact fun _ h => by cases h
  | choice [alternative], h => by
    intro A fault hfault
    rw [assemble] at hfault
    exact faults_assemble alternative (h.part (.choice List.mem_cons_self .self)) A fault hfault
  | choice (first :: second :: rest), h => by
    intro A fault hfault
    rw [assemble] at hfault
    · rcases cases_of_bind_eq_error hfault with hfault | ⟨_, -, hfault⟩
      · exact faults_assembleBetween (first :: second :: rest)
          (fun r hr => h.part (.choice hr .self)) _ _ fault hfault
      · cases hfault
    · exact fun _ h => by cases h

/-- A list of trees fails only as their parts do. -/
theorem faults_assembleAll : (rs : List Regex) →
    (∀ r ∈ rs, PartsFault folding expand P r) →
    ∀ A fault, assembleAll folding expand rs A = .error fault → P fault
  | [], _ => fun A fault hfault => by
    rw [assembleAll] at hfault
    cases hfault
  | r :: rest, h => by
    intro A fault hfault
    rw [assembleAll] at hfault
    rcases cases_of_bind_eq_error hfault with hfault | ⟨a, -, hfault⟩
    · exact faults_assemble r (h r List.mem_cons_self) A fault hfault
    · rcases cases_of_bind_eq_error hfault with hfault | ⟨_, -, hfault⟩
      · exact faults_assembleAll rest (fun s hs => h s (List.mem_cons_of_mem r hs)) a.2 fault hfault
      · cases hfault

/-- Alternatives fail only as their parts do. -/
theorem faults_assembleBetween : (rs : List Regex) →
    (∀ r ∈ rs, PartsFault folding expand P r) → ∀ (outer : Fragment) A fault,
      assembleBetween folding expand outer rs A = .error fault → P fault
  | [], _ => fun outer A fault hfault => by
    rw [assembleBetween] at hfault
    cases hfault
  | r :: rest, h => by
    intro outer A fault hfault
    rw [assembleBetween] at hfault
    rcases cases_of_bind_eq_error hfault with hfault | ⟨a, -, hfault⟩
    · exact faults_assemble r (h r List.mem_cons_self) A fault hfault
    · exact faults_assembleBetween rest (fun s hs => h s (List.mem_cons_of_mem r hs)) outer _ fault
        hfault

end

end Regex

end GrammarAnalysis
