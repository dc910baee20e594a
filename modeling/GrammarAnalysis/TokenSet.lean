import GrammarAnalysis.Fault

/-!
# Token Sets

A token set is a finite set of token ordinals, kept as 64-bit words: bit `k` of word `i` tells
whether `64 * i + k` is a member. It can be marked *incomplete*: what the analysis of one
production can tell about the tokens that follow an expansion may be only a part of them.

Two sets are compared word by word, so a set must not end in words without members: adding
members never leaves such a word at the end, and the operations that remove members drop those
that they leave there.

The operations on words are given for the positions of the bits, which are natural numbers. A token
ordinal is a number of 32 bits, and whoever asks a set for a token, adds or removes one asks for the
bit at that position. Beyond these positions only a complement sets bits, where it is taken for more
tokens than there are ordinals: no token is found there, the words and the number of members have
the bits nonetheless, and the listing cuts their positions down to 32 bits.

The tables of a generated parser hold a token set as its words; `TokenSet.words` is that view,
padded for the number of tokens that the tables are built for.

## Main definitions

* `TokenSet.contains`, `set`, `clear`, `union`, `complement`, `toList` — the bits by their
  positions;
* `TokenSet.get`, `insert`, `erase`, `complementWithin`, `iter` — the tokens by their ordinals.

## Main results

* `TokenSet.word_set`, `word_clear`, `word_union`, `word_complement` — what each operation does
  to the words;
* `TokenSet.mem_set`, `mem_clear`, `mem_union`, `mem_complement` — what each operation does to
  the members.
-/

namespace GrammarAnalysis

/-- The number of bits of a word. -/
abbrev wordBits : Nat := 64

/-- A block of 64 consecutive positions, one bit for each. -/
abbrev Word : Type := BitVec wordBits

/-- A finite set of token ordinals, which may be known to be only a part of the set meant. -/
structure TokenSet where
  blocks : List Word := []
  incomplete : Bool := false
deriving DecidableEq, Repr

/-- A list of words without the words at its end that have no bit set. -/
def trimBlocks : List Word → List Word
  | [] => []
  | w :: rest =>
    match trimBlocks rest with
    | [] => if w = 0 then [] else [w]
    | v :: kept => w :: v :: kept

namespace TokenSet

instance : EmptyCollection TokenSet := ⟨{}⟩

instance : Inhabited TokenSet := ⟨∅⟩

/-- The word at an index: no bit is set beyond the blocks that are kept. -/
def word (s : TokenSet) (i : Nat) : Word := (s.blocks[i]?).getD 0

/-- The bit at a position is set. -/
def contains (s : TokenSet) (n : Nat) : Bool := (s.word (n / wordBits)).getLsbD (n % wordBits)

instance : Membership Nat TokenSet := ⟨fun s n => s.contains n = true⟩

instance (n : Nat) (s : TokenSet) : Decidable (n ∈ s) :=
  inferInstanceAs (Decidable (s.contains n = true))

/-- The set with at least `size` blocks, those that are added without members. -/
def resize (s : TokenSet) (size : Nat) : TokenSet :=
  { s with blocks := s.blocks.rightpad size 0 }

/-- The set without the blocks at its end that have no members. -/
def trim (s : TokenSet) : TokenSet := { s with blocks := trimBlocks s.blocks }

/-- Sets the bit at a position. -/
def set (s : TokenSet) (n : Nat) : TokenSet :=
  let s := s.resize (n / wordBits + 1)
  { s with blocks := s.blocks.modify (n / wordBits) (· ||| .twoPow wordBits (n % wordBits)) }

/-- Clears the bit at a position. -/
def clear (s : TokenSet) (n : Nat) : TokenSet :=
  if n / wordBits < s.blocks.length then
    { s with
      blocks :=
        s.blocks.modify (n / wordBits) (· &&& ~~~ BitVec.twoPow wordBits (n % wordBits)) }.trim
  else
    s

/-- Adds the members of `t`. Whether the result is incomplete depends on `s` alone. -/
def union (s t : TokenSet) : TokenSet :=
  let s := s.resize t.blocks.length
  { s with blocks := s.blocks.mapIdx fun i w => w ||| t.word i }

/-- Marks the set as incomplete, or as complete. -/
def withIncomplete (s : TokenSet) (incomplete : Bool) : TokenSet :=
  { s with incomplete := incomplete }

/-- The bits of word `i` at positions below `n`: all of them, those below a partial
last word's end, or none. -/
def maskBelow (n i : Nat) : Word :=
  let count := min (n - i * wordBits) wordBits
  if count = wordBits then .allOnes wordBits else .twoPow wordBits count - 1

/-- Reverses the bits at the positions below `n`. -/
def complement (s : TokenSet) (n : Nat) : TokenSet :=
  let count := (n + wordBits - 1) / wordBits
  let s := s.resize count
  { s with blocks := s.blocks.mapIdx fun i w => if i < count then w ^^^ maskBelow n i else w }.trim

/-- The set with the bit at one position. -/
def ofToken (n : Nat) : TokenSet := (∅ : TokenSet).set n

/-- The set with the bits at the positions of a list. -/
def ofList (l : List Nat) : TokenSet := l.foldl set ∅

/-- The positions of the bits that are set, in increasing order. -/
def toList (s : TokenSet) : List Nat :=
  s.blocks.zipIdx.flatMap fun (w, i) =>
    ((List.range wordBits).filter w.getLsbD).map (i * wordBits + ·)

/-- The number of members. -/
def cardinality (s : TokenSet) : Nat := (s.blocks.map fun w => w.cpop.toNat).foldr (· + ·) 0

/-- The set has no member. -/
def isEmpty (s : TokenSet) : Bool := s.blocks.all (· = 0)

/-- The words of the set, at least as many as the tables for `tokenCount` tokens have. -/
def words (s : TokenSet) (tokenCount : Nat) : List Nat :=
  (s.resize (1 + tokenCount / wordBits)).blocks.map BitVec.toNat

/-! ### Token ordinals -/

/-- The ordinal of a token, as a set is asked for it: a number of 32 bits. -/
abbrev TokenId : Type := UInt32

/-- The token is a member. -/
def get (s : TokenSet) (o : TokenId) : Bool := s.contains o.toNat

/-- Adds a token. -/
protected def insert (s : TokenSet) (o : TokenId) : TokenSet := s.set o.toNat

/-- Removes a token. -/
def erase (s : TokenSet) (o : TokenId) : TokenSet := s.clear o.toNat

/-- The set of one token. -/
def ofId (o : TokenId) : TokenSet := (∅ : TokenSet).insert o

/-- The set of the tokens of a list. -/
def ofIds (l : List TokenId) : TokenSet := l.foldl TokenSet.insert ∅

/-- The largest number of tokens that can be rounded up to whole words in 64 bits. -/
def countMax : Nat := UInt64.size - wordBits - 1

/-- Reverses the membership of the tokens below a token count. It fails for a count that cannot be
rounded up to whole words. -/
def complementWithin (s : TokenSet) (tokenCount : Nat) : Except Fault TokenSet :=
  if tokenCount ≤ countMax then .ok (s.complement tokenCount) else .error .overflow

/-- Lists the members: the positions of the bits, each cut down to an ordinal. -/
def iter (s : TokenSet) : List TokenId := s.toList.map UInt32.ofNat

/-- The text of a set: its members between braces, and a mark if it is incomplete. -/
def render (s : TokenSet) : String :=
  "\x7b" ++ ", ".intercalate (s.iter.map toString) ++ "\x7d"
    ++ if s.incomplete then "+?" else ""

/-! ### Words -/

/-- A position is a member if its bit is set. -/
theorem mem_iff_getLsbD {s : TokenSet} {n : Nat} :
    n ∈ s ↔ (s.word (n / wordBits)).getLsbD (n % wordBits) = true := Iff.rfl

/-- The words of the empty set are zero. -/
@[simp] theorem word_empty (i : Nat) : (∅ : TokenSet).word i = 0 := rfl

/-- The words beyond the blocks are zero. -/
theorem word_of_le {s : TokenSet} {i : Nat} (h : s.blocks.length ≤ i) : s.word i = 0 := by
  simp [word, h]

/-- Resizing a set keeps its words. -/
@[simp] theorem word_resize (s : TokenSet) (size i : Nat) :
    (s.resize size).word i = s.word i := by
  simp only [word, resize, List.rightpad, List.getElem?_append, List.getElem?_replicate]
  split
  · rfl
  · rw [List.getElem?_eq_none (by omega)]
    split <;> rfl

/-- A set has as many blocks as it is resized to, but no fewer than before. -/
@[simp] theorem length_resize (s : TokenSet) (size : Nat) :
    (s.resize size).blocks.length = max size s.blocks.length := by
  simp only [resize, List.rightpad, List.length_append, List.length_replicate]
  omega

/-- Trimming drops blocks that are zero only. -/
theorem getElem?_trimBlocks (l : List Word) (i : Nat) :
    ((trimBlocks l)[i]?).getD 0 = (l[i]?).getD 0 := by
  induction l generalizing i with
  | nil => rfl
  | cons w rest ih =>
    rw [trimBlocks]
    split
    · next hnil =>
      have hrest : ∀ j : Nat, (rest[j]?).getD 0 = 0 := fun j => by rw [← ih, hnil]; rfl
      cases i with
      | zero => split <;> simp_all
      | succ i =>
        rw [List.getElem?_cons_succ, hrest]
        split <;> simp
    · next hcons =>
      cases i with
      | zero => rfl
      | succ i => rw [List.getElem?_cons_succ, List.getElem?_cons_succ, ← ih, hcons]

/-- Trimming a set keeps its words. -/
@[simp] theorem word_trim (s : TokenSet) (i : Nat) : s.trim.word i = s.word i :=
  getElem?_trimBlocks s.blocks i

/-- Setting a position sets its bit in the word that has it. -/
theorem word_set (s : TokenSet) (n i : Nat) :
    (s.set n).word i =
      if i = n / wordBits then s.word i ||| .twoPow wordBits (n % wordBits) else s.word i := by
  rw [← word_resize s (n / wordBits + 1) i]
  have hlen := length_resize s (n / wordBits + 1)
  simp only [set, word, List.getElem?_modify]
  split
  · next h =>
    subst h
    rw [if_pos rfl, List.getElem?_eq_getElem (by omega)]
    rfl
  · next h => rw [if_neg (Ne.symm h), id_map']

/-- Clearing a position clears its bit in the word that has it. -/
theorem word_clear (s : TokenSet) (n i : Nat) :
    (s.clear n).word i =
      if i = n / wordBits then s.word i &&& ~~~ .twoPow wordBits (n % wordBits)
      else s.word i := by
  rw [clear]
  split
  · next hlt =>
    rw [word_trim]
    simp only [word, List.getElem?_modify]
    split
    · next h =>
      subst h
      rw [if_pos rfl, List.getElem?_eq_getElem hlt]
      rfl
    · next h => rw [if_neg (Ne.symm h), id_map']
  · next hle =>
    split
    · next h => simp [h, word_of_le (Nat.le_of_not_lt hle)]
    · rfl

/-- Word by word, what is done to a block beyond the last one is left out where it does
nothing. -/
theorem word_mapIdx (s : TokenSet) (f : Nat → Word → Word) {i : Nat}
    (h : s.blocks.length ≤ i → f i 0 = 0) :
    ({ s with blocks := s.blocks.mapIdx f } : TokenSet).word i = f i (s.word i) := by
  simp only [word, List.getElem?_mapIdx]
  by_cases hi : i < s.blocks.length
  · rw [List.getElem?_eq_getElem hi]
    rfl
  · rw [List.getElem?_eq_none (by omega)]
    exact (h (by omega)).symm

/-- The words of a union are the unions of the words. -/
@[simp] theorem word_union (s t : TokenSet) (i : Nat) :
    (s.union t).word i = s.word i ||| t.word i := by
  rw [union, word_mapIdx, word_resize]
  intro h
  rw [length_resize] at h
  simp [word_of_le (s := t) (i := i) (by omega)]

/-- The words below a power of two have the bits below its exponent. -/
theorem getLsbD_twoPow_sub_one {count k : Nat} (hcount : count < wordBits) :
    (BitVec.twoPow wordBits count - 1).getLsbD k = decide (k < count) := by
  have hone : (1 : Word) ≤ .twoPow wordBits count := by
    rw [BitVec.le_def, BitVec.toNat_twoPow_of_lt hcount]
    exact Nat.one_le_two_pow
  rw [← BitVec.testBit_toNat, BitVec.toNat_sub_of_le hone, BitVec.toNat_twoPow_of_lt hcount]
  exact Nat.testBit_two_pow_sub_one count k

/-- The mask of a block has the bits of the positions below `n`. -/
theorem getLsbD_maskBelow {n i k : Nat} (hk : k < wordBits) :
    (maskBelow n i).getLsbD k = decide (i * wordBits + k < n) := by
  simp only [maskBelow]
  split
  · rw [BitVec.getLsbD_allOnes]
    exact decide_eq_decide.mpr (by omega)
  · rw [getLsbD_twoPow_sub_one (by omega)]
    exact decide_eq_decide.mpr (by omega)

/-- The complement flips the bits of the positions below `n`. -/
theorem word_complement (s : TokenSet) (n i : Nat) :
    (s.complement n).word i = s.word i ^^^ maskBelow n i := by
  have hbeyond : ¬ i < (n + wordBits - 1) / wordBits → maskBelow n i = 0 := fun h => by
    refine BitVec.eq_of_getLsbD_eq fun k hk => ?_
    have hle : (i + 1) * wordBits ≥ n + wordBits := by
      have := Nat.div_lt_iff_lt_mul (x := n + wordBits - 1) (y := i + 1) (k := wordBits) (by decide)
      omega
    rw [getLsbD_maskBelow hk, decide_eq_false (by rw [Nat.add_mul] at hle; omega)]
    simp
  rw [complement, word_trim, word_mapIdx, word_resize]
  · split
    · rfl
    · next h => simp [hbeyond h]
  · intro h
    rw [length_resize] at h
    rw [if_neg (by omega)]

/-! ### Members -/

/-- Nothing is a member of the empty set. -/
@[simp] theorem not_mem_empty {n : Nat} : n ∉ (∅ : TokenSet) := by
  simp [mem_iff_getLsbD]

/-- Two ordinals have the same word and the same bit of it exactly when they are equal. -/
theorem getLsbD_twoPow_mod {m n : Nat} (h : m / wordBits = n / wordBits) :
    (BitVec.twoPow wordBits (n % wordBits)).getLsbD (m % wordBits) = decide (m = n) := by
  rw [BitVec.getLsbD_twoPow, decide_eq_true (Nat.mod_lt n (by decide)), Bool.true_and]
  refine decide_eq_decide.mpr ⟨fun hmod => ?_, fun hmn => by rw [hmn]⟩
  rw [← Nat.div_add_mod n wordBits, ← Nat.div_add_mod m wordBits, h, hmod]

/-- Setting a position adds it to the members. -/
@[simp] theorem mem_set {s : TokenSet} {m n : Nat} : m ∈ s.set n ↔ m = n ∨ m ∈ s := by
  rw [mem_iff_getLsbD, mem_iff_getLsbD, word_set]
  split
  · next h =>
    rw [BitVec.getLsbD_or, getLsbD_twoPow_mod h, Bool.or_eq_true, decide_eq_true_iff, or_comm]
  · next h =>
    have hne : m ≠ n := fun hmn => h (by rw [hmn])
    simp [hne]

/-- Clearing a position removes it from the members. -/
@[simp] theorem mem_clear {s : TokenSet} {m n : Nat} : m ∈ s.clear n ↔ m ∈ s ∧ m ≠ n := by
  rw [mem_iff_getLsbD, mem_iff_getLsbD, word_clear]
  split
  · next h =>
    rw [BitVec.getLsbD_and, BitVec.getLsbD_not, getLsbD_twoPow_mod h,
      decide_eq_true (Nat.mod_lt m (by decide))]
    simp
  · next h =>
    have hne : m ≠ n := fun hmn => h (by rw [hmn])
    simp [hne]

/-- A member of a union is a member of either set. -/
@[simp] theorem mem_union {s t : TokenSet} {n : Nat} : n ∈ s.union t ↔ n ∈ s ∨ n ∈ t := by
  simp [mem_iff_getLsbD]

/-- The complement has the positions below `n` that the set has not, and from `n` on those of the
set. -/
@[simp] theorem mem_complement {s : TokenSet} {m n : Nat} :
    m ∈ s.complement n ↔ (if m < n then m ∉ s else m ∈ s) := by
  have hm := Nat.div_add_mod' m wordBits
  rw [mem_iff_getLsbD, mem_iff_getLsbD, word_complement, BitVec.getLsbD_xor,
    getLsbD_maskBelow (Nat.mod_lt m (by decide)), hm]
  split <;> simp [*]

/-- The set of one position has this member only. -/
@[simp] theorem mem_ofToken {m n : Nat} : m ∈ ofToken n ↔ m = n := by
  simp [ofToken]

/-- Setting the positions of a list adds these to the members. -/
theorem mem_foldl_set {l : List Nat} {s : TokenSet} {n : Nat} :
    n ∈ l.foldl set s ↔ n ∈ l ∨ n ∈ s := by
  induction l generalizing s with
  | nil => simp
  | cons m rest ih =>
    rw [List.foldl_cons, ih, mem_set, List.mem_cons, or_left_comm, or_assoc]

/-- The set of a list of positions has these as its members. -/
@[simp] theorem mem_ofList {l : List Nat} {n : Nat} : n ∈ ofList l ↔ n ∈ l := by
  simp [ofList, mem_foldl_set]

end TokenSet

end GrammarAnalysis
