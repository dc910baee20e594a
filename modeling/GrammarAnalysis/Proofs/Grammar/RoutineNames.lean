import GrammarAnalysis.Proofs.Grammar.Questions
import GrammarAnalysis.Proofs.Text.Identifier
import GrammarAnalysis.Proofs.Text.Substitution

/-!
# The Names of the Routines

The routine of the root of a production is named after the production. Any other node gets the first
name of a numbered series that is not in use, where the series is that of its place in the source.
But only the names of this second kind are noted as used. So two nodes that are no roots never have
the same name, and neither have two roots; but a root and another node do, if the production is
named like the place of the other node.

The names of the predicates are made from these by substitution, of every occurrence of what they
begin with. Where it occurs in the names of productions too, different names can become the same.

## Main definitions

* `Grammar.numbered`: the names of a series;
* `Grammar.NamedRoutines`: what is known of the names that are kept;
* `Grammar.NamedLike`: a production that is named like the place of a node.

## Main results

* `Grammar.freshIdentifier_spec`: a fresh name is not in use;
* `Grammar.Built.namedRoutines`: the names after any series of questions;
* `Grammar.routineNames_clash`: when the names of two nodes are the same;
* `Grammar.routineNames_twoGrammars`: two grammars in which they are.
-/

namespace GrammarAnalysis

namespace Grammar

variable {g : Grammar} {m m' : Memory} {e e' : Nat} {n n' base : String}

/-! ### Series of names -/

/-- The names of the series of a text: the text, and the text with a number. -/
def numbered (base : String) : Nat → String
  | 0 => base
  | k + 1 => base ++ "_" ++ toString (k + 1)

/-- A text in front of a series is in front of each of its names. -/
theorem append_numbered (start base : String) (k : Nat) :
    start ++ numbered base k = numbered (start ++ base) k := by
  cases k with
  | zero => rfl
  | succ k => simp only [numbered, String.append_assoc]

/-- The names of a series are different. -/
theorem numbered_injective (base : String) : Function.Injective (numbered base) := by
  have hne : ∀ k, base ++ "_" ++ toString (k + 1) ≠ base := fun k heq => by
    have hlength := congrArg String.length heq
    have hunderscore : "_".length = 1 := rfl
    rw [String.length_append, String.length_append] at hlength
    omega
  intro i j h
  cases i with
  | zero =>
      cases j with
      | zero => rfl
      | succ j => exact absurd h.symm (hne j)
  | succ i =>
      cases j with
      | zero => exact absurd h (hne i)
      | succ j => exact toString_injective ((String.append_right_inj _).mp h)

/-- The candidates for a fresh name are the first ones of the series. -/
theorem candidates_eq (used : OrderedSet String) (base : String) :
    base :: (List.range used.size).map (fun i => base ++ "_" ++ toString (i + 1))
      = (List.range (used.size + 1)).map (numbered base) := by
  rw [List.range_succ_eq_map, List.map_cons, List.map_map]
  rfl

/-- **A fresh name is not in use**: there are more names in the series than there are in use. -/
theorem freshIdentifier_spec (used : OrderedSet String) (base : String) :
    freshIdentifier used base ∉ used ∧ ∃ k, freshIdentifier used base = numbered base k := by
  rw [freshIdentifier]
  simp only [candidates_eq]
  cases hfind : ((List.range (used.size + 1)).map (numbered base)).find?
      fun name => decide (name ∉ used) with
  | some name =>
      obtain ⟨k, -, hk⟩ := List.mem_map.mp (List.mem_of_find?_eq_some hfind)
      have hfresh := List.find?_some hfind
      exact ⟨of_decide_eq_true hfresh, k, hk.symm⟩
  | none =>
      have hused : (List.range (used.size + 1)).map (numbered base) ⊆ used.toList := by
        intro name hname
        have htaken := List.find?_eq_none.mp hfind name hname
        rw [decide_eq_true_eq, not_not] at htaken
        exact htaken
      have hnodup : ((List.range (used.size + 1)).map (numbered base)).Nodup :=
        List.nodup_range.map (numbered_injective base)
      have hlen := (List.subperm_of_subset hnodup hused).length_le
      rw [List.length_map, List.length_range] at hlen
      exact absurd hlen (Nat.not_succ_le_self _)

/-! ### The names that are kept -/

/-- The node is the root of a production, and belongs to it. -/
def IsRoot (g : Grammar) (e : Nat) : Prop := ∃ p, g.parent e = .production p

/-- What is known of the names that are kept: those of roots are made from the productions, and the
others are in use, belong to the series of their places, and are all different. -/
structure NamedRoutines (g : Grammar) (m : Memory) : Prop where
  root : ∀ e n p, m.scanRoutineNames.lookup e = some n → g.parent e = .production p →
    n = g.lookaheadMethodName p
  used : ∀ e n, m.scanRoutineNames.lookup e = some n → ¬ g.IsRoot e → n ∈ m.identifiers
  place : ∀ e n, m.scanRoutineNames.lookup e = some n → ¬ g.IsRoot e →
    ∃ k, n = numbered (g.placeIdentifier (g.identifierStart "check") e) k
  apart : ∀ e e' n, m.scanRoutineNames.lookup e = some n → m.scanRoutineNames.lookup e' = some n →
    ¬ g.IsRoot e → ¬ g.IsRoot e' → e = e'

/-- Nothing is to be known while no name is kept. -/
theorem namedRoutines_empty (g : Grammar) : g.NamedRoutines {} where
  root _ _ _ h := nomatch h
  used _ _ h := nomatch h
  place _ _ h := nomatch h
  apart _ _ _ h := nomatch h

/-- The second memory has the names of the first one, and the identifiers in use. -/
def SameNames (m m' : Memory) : Prop :=
  m'.scanRoutineNames = m.scanRoutineNames ∧ ∀ n ∈ m.identifiers, n ∈ m'.identifiers

/-- What is known of the names stays known while the same names are kept. -/
theorem NamedRoutines.mono (h : g.NamedRoutines m) (hsame : SameNames m m') :
    g.NamedRoutines m' := by
  obtain ⟨hnames, hused⟩ := hsame
  refine ⟨?_, fun e n he hroot => hused n (h.used e n (hnames ▸ he) hroot), ?_, ?_⟩
  · rw [hnames]
    exact h.root
  · rw [hnames]
    exact h.place
  · rw [hnames]
    exact h.apart

/-- A root gets the name of its production. -/
theorem NamedRoutines.insertRoot (h : g.NamedRoutines m) {p : Nat}
    (hp : g.parent e = .production p) : g.NamedRoutines
      { m with scanRoutineNames := (e, g.lookaheadMethodName p) :: m.scanRoutineNames } := by
  have hold : ∀ {x n}, ((e, g.lookaheadMethodName p) :: m.scanRoutineNames).lookup x = some n →
      ¬ g.IsRoot x → m.scanRoutineNames.lookup x = some n := fun hx hroot =>
    (Memory.eq_of_lookup_cons hx).resolve_right fun heq => hroot ⟨p, heq.1 ▸ hp⟩
  refine ⟨fun x n q hx hq => ?_, fun x n hx hroot => h.used x n (hold hx hroot) hroot,
    fun x n hx hroot => h.place x n (hold hx hroot) hroot,
    fun x y n hx hy hroot hroot' => h.apart x y n (hold hx hroot) (hold hy hroot') hroot hroot'⟩
  rcases Memory.eq_of_lookup_cons hx with hx | ⟨rfl, rfl⟩
  · exact h.root x n q hx hq
  · cases hp.symm.trans hq
    rfl

/-- Another node gets a fresh name. -/
theorem NamedRoutines.insertFresh (h : g.NamedRoutines m) (hroot : ¬ g.IsRoot e) :
    let fresh := g.uniqueIdentifier (g.identifierStart "check") e m
    g.NamedRoutines
      { fresh.2 with scanRoutineNames := (e, fresh.1) :: fresh.2.scanRoutineNames } := by
  obtain ⟨hfresh, k, hk⟩ := freshIdentifier_spec m.identifiers
    (g.placeIdentifier (g.identifierStart "check") e)
  simp only [uniqueIdentifier]
  generalize freshIdentifier m.identifiers (g.placeIdentifier (g.identifierStart "check") e) = name
    at hfresh hk
  refine ⟨fun x n p hx hp => ?_, fun x n hx hx' => ?_, fun x n hx hx' => ?_,
    fun x y n hx hy hx' hy' => ?_⟩
  · rcases Memory.eq_of_lookup_cons hx with hx | ⟨rfl, -⟩
    · exact h.root x n p hx hp
    · exact absurd ⟨p, hp⟩ hroot
  · rcases Memory.eq_of_lookup_cons hx with hx | ⟨rfl, rfl⟩
    · exact OrderedSet.mem_insert.mpr (.inr (h.used x n hx hx'))
    · exact OrderedSet.mem_insert.mpr (.inl rfl)
  · rcases Memory.eq_of_lookup_cons hx with hx | ⟨rfl, rfl⟩
    · exact h.place x n hx hx'
    · exact ⟨k, hk⟩
  · -- a name that was kept before is in use, and the new one was not
    rcases Memory.eq_of_lookup_cons hx with hxm | ⟨hxe, hxn⟩ <;>
      rcases Memory.eq_of_lookup_cons hy with hym | ⟨hye, hyn⟩
    · exact h.apart x y n hxm hym hx' hy'
    · exact absurd (hyn ▸ h.used x n hxm hx') hfresh
    · exact absurd (hxn ▸ h.used y n hym hy') hfresh
    · exact hxe.trans hye.symm

/-- Naming one more routine keeps what is known of the names. -/
theorem NamedRoutines.scanRoutineName (h : g.NamedRoutines m) (e : Nat) :
    g.NamedRoutines (g.scanRoutineName e m).2 := by
  unfold Grammar.scanRoutineName
  split
  · exact h
  · cases hparent : g.parent e with
    | production p => exact h.insertRoot hparent
    | _ => exact h.insertFresh (by rintro ⟨p, hp⟩; rw [hparent] at hp; cases hp)

/-- The first sets of several nodes add nothing but sets to the memory. -/
theorem sameFrame_firstSets {nodes : List Nat} {s : TokenSet}
    (h : g.firstSets nodes m = .ok (s, m')) : m.SameFrame m' := by
  induction nodes generalizing m s with
  | nil =>
      cases h
      exact .refl _
  | cons e nodes ih =>
      obtain ⟨⟨s₁, m₁⟩, hfirst, h⟩ := exists_of_bind_eq_ok h
      obtain ⟨⟨s₂, m₂⟩, hrest, h⟩ := exists_of_bind_eq_ok h
      obtain ⟨-, rfl⟩ := Prod.mk.inj (Except.ok.inj h)
      exact (ask_spec (q := .first e) hfirst).1.trans (ih hrest)

/-- Memories that differ in sets at most have the same names. -/
theorem sameNames_of_sameFrame (h : m.SameFrame m') : SameNames m m' := by
  rw [h]
  exact ⟨rfl, fun _ hn => hn⟩

/-- Naming a first set keeps the names of the routines. -/
theorem sameNames_firstSetName (g : Grammar) (e : Nat) (m : Memory) :
    SameNames m (g.firstSetName e m).2 := by
  unfold firstSetName
  split
  · exact ⟨rfl, fun _ hn => hn⟩
  · cases g.parent e with
    | production p => exact ⟨rfl, fun _ hn => hn⟩
    | _ => exact ⟨rfl, fun n hn => OrderedSet.mem_insert.mpr (.inr hn)⟩

/-- A question changes no name, unless it is the one for the name of a routine. -/
theorem Asks.names (h : g.Asks m m') :
    SameNames m m' ∨ ∃ e, m' = (g.scanRoutineName e m).2 := by
  cases h with
  | @firstSet e _ _ _ hq => exact .inl (sameNames_of_sameFrame (ask_spec (q := .first e) hq).1)
  | @productionFirstSet p _ _ _ hq =>
      exact .inl (sameNames_of_sameFrame (ask_spec (q := .productionFirst p) hq).1)
  | @finalSet e _ _ _ hq => exact .inl (sameNames_of_sameFrame (ask_spec (q := .final e) hq).1)
  | @productionFinalSet p _ _ _ hq =>
      exact .inl (sameNames_of_sameFrame (ask_spec (q := .productionFinal p) hq).1)
  | followSet hq =>
      obtain ⟨⟨s, m₁⟩, hfirst, hq⟩ := exists_of_bind_eq_ok hq
      obtain ⟨-, rfl⟩ := Prod.mk.inj (Except.ok.inj hq)
      exact .inl (sameNames_of_sameFrame (sameFrame_firstSets hfirst))
  | firstSetName e => exact .inl (sameNames_firstSetName g e m)
  | derivedSetName kind e => exact .inl (sameNames_firstSetName g e m)
  | scanRoutineName e => exact .inr ⟨e, rfl⟩
  | derivedMethodName kind e => exact .inr ⟨e, rfl⟩
  | startsWith e target visited => exact .inl ⟨rfl, fun _ hn => hn⟩

/-- **A question keeps what is known of the names.** -/
theorem NamedRoutines.asks (h : g.NamedRoutines m) (hask : g.Asks m m') : g.NamedRoutines m' := by
  rcases hask.names with hsame | ⟨e, rfl⟩
  · exact h.mono hsame
  · exact h.scanRoutineName e

/-- The answer is kept. -/
theorem lookup_scanRoutineName (g : Grammar) (e : Nat) (m : Memory) :
    (g.scanRoutineName e m).2.scanRoutineNames.lookup e = some (g.scanRoutineName e m).1 := by
  unfold scanRoutineName
  split
  · assumption
  · cases g.parent e with
    | _ => exact List.lookup_cons_self

/-- A name that is kept is returned, and changes nothing. -/
theorem scanRoutineName_of_lookup (he : m.scanRoutineNames.lookup e = some n) :
    g.scanRoutineName e m = (n, m) := by
  rw [scanRoutineName, he]

/-- A name that is kept is not changed by a question. -/
theorem Asks.lookup (hask : g.Asks m m') (he : m.scanRoutineNames.lookup e = some n) :
    m'.scanRoutineNames.lookup e = some n := by
  rcases hask.names with hsame | ⟨x, rfl⟩
  · rw [hsame.1, he]
  · cases hx : m.scanRoutineNames.lookup x with
    | some name =>
        rw [scanRoutineName_of_lookup hx]
        exact he
    | none =>
        have hne : (e == x) = false := beq_false_of_ne fun heq => by
          rw [heq, hx] at he
          cases he
        rw [Grammar.scanRoutineName, hx]
        cases g.parent x with
        | _ => simpa [List.lookup_cons, hne, uniqueIdentifier] using he

/-- A grammar that was not asked remembers nothing. -/
theorem Built.memory_eq (h : g.Built) : g.memory = {} := by
  obtain ⟨options, h⟩ := h
  induction h with
  | refl => rfl
  | tail _ hstep ih => exact hstep.grows.memory_eq.trans ih

/-- **The names after any series of questions.** -/
theorem Built.namedRoutines (hg : g.Built) (hm : g.Remembers m) : g.NamedRoutines m := by
  induction hm with
  | refl =>
      rw [hg.memory_eq]
      exact namedRoutines_empty g
  | tail _ hask ih => exact ih.asks hask

/-! ### Names that are the same -/

/-- No two productions have the same name. -/
def NamesApart (g : Grammar) : Prop :=
  ∀ p < g.productions.size, ∀ q < g.productions.size,
    (g.production p).name = (g.production q).name → p = q

instance (g : Grammar) : Decidable g.NamesApart :=
  inferInstanceAs (Decidable (∀ p < _, ∀ q < _, _))

/-- The first node is the root of a production that is named like the place of the second one, which
is no root, with the number `k` of the series. -/
def NamedLike (g : Grammar) (e e' k : Nat) : Prop :=
  ¬ g.IsRoot e' ∧ ∃ p, g.parent e = .production p ∧
    (g.production p).name = numbered (g.placeIdentifier "" e') k

/-- The identifier of a place begins with its start, and goes on as without it. -/
theorem placeIdentifier_eq (start : String) (e : Nat) :
    g.placeIdentifier start e = start ++ g.placeIdentifier "" e := by
  simp only [placeIdentifier, String.append_assoc, String.empty_append]

/-- Roots have different names. -/
theorem NamedRoutines.root_unique (h : g.NamedRoutines m) (hg : g.WellFormed)
    (hapart : g.NamesApart) (he : m.scanRoutineNames.lookup e = some n)
    (he' : m.scanRoutineNames.lookup e' = some n) (hroot : g.IsRoot e) (hroot' : g.IsRoot e') :
    e = e' := by
  obtain ⟨p, hp⟩ := hroot
  obtain ⟨q, hq⟩ := hroot'
  have hname := (h.root e n p he hp).symm.trans (h.root e' n q he' hq)
  obtain ⟨hlt, rfl⟩ := hg.parent_production e p hp
  obtain ⟨hlt', rfl⟩ := hg.parent_production e' q hq
  rw [hapart p hlt q hlt' ((String.append_right_inj _).mp hname)]

/-- A root and another node with one name. -/
theorem NamedRoutines.namedLike (h : g.NamedRoutines m)
    (he : m.scanRoutineNames.lookup e = some n) (he' : m.scanRoutineNames.lookup e' = some n)
    (hroot : g.IsRoot e) (hroot' : ¬ g.IsRoot e') : ∃ k, g.NamedLike e e' k := by
  obtain ⟨p, hp⟩ := hroot
  obtain ⟨k, hk⟩ := h.place e' n he' hroot'
  have hname := (h.root e n p he hp).symm.trans hk
  rw [placeIdentifier_eq, ← append_numbered] at hname
  exact ⟨k, hroot', p, hp, (String.append_right_inj _).mp hname⟩

/-- **Two nodes with one name** are a root and a node at the place that its production is named
like. -/
theorem NamedRoutines.namedLike_of_eq (h : g.NamedRoutines m) (hg : g.WellFormed)
    (hapart : g.NamesApart) (hne : e ≠ e') (he : m.scanRoutineNames.lookup e = some n)
    (he' : m.scanRoutineNames.lookup e' = some n) :
    ∃ k, g.NamedLike e e' k ∨ g.NamedLike e' e k := by
  by_cases hroot : g.IsRoot e <;> by_cases hroot' : g.IsRoot e'
  · exact absurd (h.root_unique hg hapart he he' hroot hroot') hne
  · obtain ⟨k, hk⟩ := h.namedLike he he' hroot hroot'
    exact ⟨k, .inl hk⟩
  · obtain ⟨k, hk⟩ := h.namedLike he' he hroot' hroot
    exact ⟨k, .inr hk⟩
  · exact absurd (h.apart e e' n he he' hroot hroot') hne

/-- While nothing is in use, a name needs no number. -/
theorem freshIdentifier_empty (base : String) : freshIdentifier ∅ base = base := by
  have hfree : decide (base ∉ (∅ : OrderedSet String)) = true :=
    decide_eq_true OrderedSet.not_mem_empty
  simp only [freshIdentifier, List.find?_cons, hfree, Option.getD_some]

/-- A root gets the name of a node that was asked for before, if its production is named like the
place of this node. -/
theorem scanRoutineName_eq_of_namedLike (hg : g.Built) (h : g.NamedLike e e' 0) :
    (g.scanRoutineName e (g.scanRoutineName e' g.memory).2).1
      = (g.scanRoutineName e' g.memory).1 := by
  obtain ⟨hroot', p, hp, hname⟩ := h
  have hne : (e == e') = false := beq_false_of_ne fun heq => hroot' ⟨p, heq ▸ hp⟩
  have hplace : g.scanRoutineName e' {} =
      (g.placeIdentifier (g.identifierStart "check") e',
        { scanRoutineNames := [(e', g.placeIdentifier (g.identifierStart "check") e')]
          identifiers := (∅ : OrderedSet String).insert
            (g.placeIdentifier (g.identifierStart "check") e') }) := by
    rw [scanRoutineName, List.lookup_nil]
    cases hparent : g.parent e' with
    | production q => exact absurd ⟨q, hparent⟩ hroot'
    | _ => simp only [uniqueIdentifier, freshIdentifier_empty]
  rw [hg.memory_eq, hplace, scanRoutineName, List.lookup_cons, hne, List.lookup_nil]
  simp only [hp]
  rw [lookaheadMethodName, hname, placeIdentifier_eq (g.identifierStart "check") e']
  rfl

/-! ### The names of the predicates -/

/-- What the names of the routines begin with does not stand in the name of a production, also if
an underscore comes after it. -/
def StartFree (g : Grammar) : Prop :=
  ∀ p, ¬ OccursIn (g.identifierStart "check") ((g.production p).name ++ "_")

/-- The names of the routines begin with the start of the options, `check` and an underscore. -/
theorem toList_identifierStart (g : Grammar) : (g.identifierStart "check").toList =
    (g.options.identifierStart.toList ++ ['c', 'h', 'e', 'c']) ++ ['k', '_'] := by
  simp [identifierStart, String.toList_append]

/-- A place is the name of a production and an underscore, or nothing; and then numerals and
underscores. -/
theorem exists_toList_place (g : Grammar) (e k : Nat) : ∃ front back,
    (numbered (g.placeIdentifier "" e) k).toList = front ++ back ∧ 'k' ∉ back ∧
      (front = [] ∨ ∃ p, front = ((g.production p).name ++ "_").toList) := by
  have hdigits : ∀ j : Nat, 'k' ∉ Nat.toDigits 10 j := fun j hj =>
    absurd (Nat.isDigit_of_mem_toDigits (by decide) (by decide) hj) (by decide)
  have hplace : ∃ front back, (g.placeIdentifier "" e).toList = front ++ back ∧ 'k' ∉ back ∧
      (front = [] ∨ ∃ p, front = ((g.production p).name ++ "_").toList) := by
    have hback : 'k' ∉ (toString (g.node e).position.line ++ "_"
        ++ toString (g.node e).position.column).toList := by
      simp [String.toList_append, hdigits]
    rw [placeIdentifier]
    cases g.containingProduction e with
    | none => exact ⟨[], _, by simp [String.append_assoc], hback, .inl rfl⟩
    | some p =>
        exact ⟨_, _, by simp [String.append_assoc, String.toList_append], hback, .inr ⟨p, rfl⟩⟩
  obtain ⟨front, back, heq, hback, hfront⟩ := hplace
  cases k with
  | zero => exact ⟨front, back, heq, hback, hfront⟩
  | succ k =>
      refine ⟨front, back ++ '_' :: (toString (k + 1)).toList, ?_, ?_, hfront⟩
      · simp [numbered, String.toList_append, heq]
      · simp [hback, hdigits]

/-- What the names begin with does not stand in the identifier of a place. -/
theorem StartFree.not_occurs_place (h : g.StartFree) (e k : Nat) :
    ¬ OccursIn (g.identifierStart "check") (numbered (g.placeIdentifier "" e) k) := by
  obtain ⟨front, back, heq, hback, hfront⟩ := g.exists_toList_place e k
  intro hoccurs
  rw [OccursIn, heq, toList_identifierStart] at hoccurs
  have hlast : ∀ l, front ≠ l ++ ['k'] := by
    intro l hl
    rcases hfront with rfl | ⟨p, rfl⟩
    · simp at hl
    · rw [String.toList_append] at hl
      have := (List.append_inj' hl rfl).2
      simp at this
  have hinfix := Substitution.infix_of_infix_append hoccurs hback hlast
  rcases hfront with rfl | ⟨p, rfl⟩
  · simpa using hinfix.length_le
  · rw [← toList_identifierStart] at hinfix
    exact h p hinfix

/-- What the names begin with does not stand in the name of a production. -/
theorem StartFree.not_occurs_name (h : g.StartFree) (p : Nat) :
    ¬ OccursIn (g.identifierStart "check") (g.production p).name := fun hoccurs =>
  h p (hoccurs.trans (by rw [String.toList_append]; exact (List.prefix_append _ _).isInfix))

/-- The name of a routine is what all of them begin with, and then a text in which this does not
stand again. -/
theorem NamedRoutines.exists_rest (h : g.NamedRoutines m) (hstart : g.StartFree)
    (he : m.scanRoutineNames.lookup e = some n) :
    ∃ rest, n = g.identifierStart "check" ++ rest ∧
      ¬ OccursIn (g.identifierStart "check") rest := by
  by_cases hroot : g.IsRoot e
  · obtain ⟨p, hp⟩ := hroot
    exact ⟨_, h.root e n p he hp, hstart.not_occurs_name p⟩
  · obtain ⟨k, hk⟩ := h.place e n he hroot
    rw [placeIdentifier_eq, ← append_numbered] at hk
    exact ⟨_, hk, hstart.not_occurs_place e k⟩

/-- Different names of routines give different names of predicates. -/
theorem NamedRoutines.replaceAll_inj (h : g.NamedRoutines m) (hstart : g.StartFree)
    (he : m.scanRoutineNames.lookup e = some n) (he' : m.scanRoutineNames.lookup e' = some n')
    (heq : replaceAll (g.identifierStart "check") (g.identifierStart "scan") n
      = replaceAll (g.identifierStart "check") (g.identifierStart "scan") n') : n = n' := by
  obtain ⟨rest, rfl, hrest⟩ := h.exists_rest hstart he
  obtain ⟨rest', rfl, hrest'⟩ := h.exists_rest hstart he'
  have hne : g.identifierStart "check" ≠ "" := fun hempty => by
    have hchars := toList_identifierStart g
    rw [hempty] at hchars
    simp at hchars
  rw [replaceAll_append hne, replaceAll_append hne, replaceAll_eq_self hrest,
    replaceAll_eq_self hrest', String.append_right_inj] at heq
  rw [heq]

/-! ### When names clash -/

/-- **When the names of two nodes are the same.** At any time, one node is asked for, and later
another one. If the names of their routines are the same, then one node is the root of a production
that is named like the place of the other one, and this one is no root. The names of the predicates
are the same just if those of the routines are, unless what these begin with stands in the name of a
production. And a production that is named like a place gets its name into a clash. -/
theorem routineNames_clash (hg : g.Built) (hapart : g.NamesApart) :
    (∀ m m' e e', g.Remembers m → Relation.ReflTransGen g.Asks (g.scanRoutineName e m).2 m' →
      e ≠ e' →
        ((g.scanRoutineName e m).1 = (g.scanRoutineName e' m').1 →
          ∃ k, g.NamedLike e e' k ∨ g.NamedLike e' e k) ∧
        (g.StartFree → ((g.predicateMethodName e m).1 = (g.predicateMethodName e' m').1 ↔
          (g.scanRoutineName e m).1 = (g.scanRoutineName e' m').1))) ∧
    ∀ e e', g.NamedLike e e' 0 →
      (g.scanRoutineName e (g.scanRoutineName e' g.memory).2).1
        = (g.scanRoutineName e' g.memory).1 := by
  refine ⟨fun m m' e e' hm hask hne => ?_, fun e e' h => scanRoutineName_eq_of_namedLike hg h⟩
  have he : (g.scanRoutineName e' m').2.scanRoutineNames.lookup e
      = some (g.scanRoutineName e m).1 := by
    refine Asks.lookup (.scanRoutineName e' m') ?_
    induction hask with
    | refl => exact lookup_scanRoutineName g e m
    | tail _ hlast ih => exact hlast.lookup ih
  have hnamed : g.NamedRoutines (g.scanRoutineName e' m').2 := by
    refine hg.namedRoutines (Relation.ReflTransGen.trans hm ?_)
    exact (Relation.ReflTransGen.head (.scanRoutineName e m) hask).tail (.scanRoutineName e' m')
  have he' := lookup_scanRoutineName g e' m'
  refine ⟨fun heq => ?_, fun hstart => ⟨fun heq => ?_, fun heq => ?_⟩⟩
  · exact hnamed.namedLike_of_eq hg.developed.wellFormed hapart hne (heq ▸ he) he'
  · exact hnamed.replaceAll_inj hstart he he' heq
  · exact congrArg (replaceAll (g.identifierStart "check") (g.identifierStart "scan")) heq

/-- A production that is named like the place of a node: `P : x*` and `P_0_0 : y`. -/
def namedLikePlace : Grammar :=
  { Grammar.new {} with
    nodes := #[{ shape := .terminal 0, parent := .expansion 1 },
      { shape := .zeroOrMore 0, parent := .production 0 },
      { shape := .terminal 1, parent := .production 1 }]
    productions := #[{ name := "P", root := 1 }, { name := "P_0_0", root := 2 }] }

/-- The builder makes `namedLikePlace`. -/
theorem namedLikePlace_built : namedLikePlace.Built :=
  (Built.new {}).step (.addNode (.terminal 0) rfl)
    |>.step (.addNode (.zeroOrMore 0) rfl)
    |>.step (.addProduction "P" 1 rfl)
    |>.step (.addNode (.terminal 1) rfl)
    |>.step (.addProduction "P_0_0" 2 rfl)

/-- The second root is named like the first node, and may get its name. -/
theorem routineNames_clash_namedLikePlace :
    namedLikePlace.Built ∧ namedLikePlace.NamesApart ∧ namedLikePlace.NamedLike 2 0 0 ∧
      (namedLikePlace.scanRoutineName 2 (namedLikePlace.scanRoutineName 0
          namedLikePlace.memory).2).1
        = (namedLikePlace.scanRoutineName 0 namedLikePlace.memory).1 := by
  have hinner : ¬ namedLikePlace.IsRoot 0 := by
    rintro ⟨p, hp⟩
    cases hp
  have hlike : namedLikePlace.NamedLike 2 0 0 := ⟨hinner, 1, rfl, by decide +kernel⟩
  have hapart : namedLikePlace.NamesApart := by decide +kernel
  exact ⟨namedLikePlace_built, hapart, hlike,
    (routineNames_clash namedLikePlace_built hapart).2 2 0 hlike⟩

/-- Two productions whose names differ in a prefix of the names of routines: `check_A : x` and
`scan_A : y`. -/
def namedWithPrefix : Grammar :=
  { Grammar.new {} with
    nodes := #[{ shape := .terminal 0, parent := .production 0 },
      { shape := .terminal 1, parent := .production 1 }]
    productions := #[{ name := "check_A", root := 0 }, { name := "scan_A", root := 1 }] }

/-- The builder makes `namedWithPrefix`. -/
theorem namedWithPrefix_built : namedWithPrefix.Built :=
  (Built.new {}).step (.addNode (.terminal 0) rfl)
    |>.step (.addProduction "check_A" 0 rfl)
    |>.step (.addNode (.terminal 1) rfl)
    |>.step (.addProduction "scan_A" 1 rfl)

/-- **Names that clash.** In the first grammar, a root and another node have one name. In the second
one, the names of the routines are different, and those of the predicates are not. -/
theorem routineNames_twoGrammars :
    (namedLikePlace.Built ∧ namedLikePlace.NamesApart ∧
      (∀ p < namedLikePlace.productions.size,
        isIdentifier (namedLikePlace.production p).name = true) ∧
      (namedLikePlace.scanRoutineName 2 (namedLikePlace.scanRoutineName 0
          namedLikePlace.memory).2).1
        = (namedLikePlace.scanRoutineName 0 namedLikePlace.memory).1) ∧
    namedWithPrefix.Built ∧ namedWithPrefix.NamesApart ∧
      (∀ p < namedWithPrefix.productions.size,
        isIdentifier (namedWithPrefix.production p).name = true) ∧
      (namedWithPrefix.scanRoutineName 1 (namedWithPrefix.scanRoutineName 0
          namedWithPrefix.memory).2).1
        ≠ (namedWithPrefix.scanRoutineName 0 namedWithPrefix.memory).1 ∧
      (namedWithPrefix.predicateMethodName 1 (namedWithPrefix.predicateMethodName 0
          namedWithPrefix.memory).2).1
        = (namedWithPrefix.predicateMethodName 0 namedWithPrefix.memory).1 :=
  ⟨⟨namedLikePlace_built, by decide +kernel, by decide +kernel, by decide +kernel⟩,
    namedWithPrefix_built, by decide +kernel, by decide +kernel, by decide +kernel,
    by decide +kernel⟩

end Grammar

end GrammarAnalysis
