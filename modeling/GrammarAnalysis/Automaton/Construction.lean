import GrammarAnalysis.Automaton.Basic
import GrammarAnalysis.Regex

/-!
# Construction of Automata

Every construct of a regular expression becomes a *fragment* of the automaton: fresh states, of
which one is its start and one its finish. A word is matched by the construct exactly when it
can be spelled on the way from the start to the finish.

The construction is structural on the tree. What a reference stands for is given as a function
(`expand`), so that each use of a named expression gets states of its own.

Case can be ignored in the texts of a tree and not in its classes, since a text is matched without
regard to case as well if the whole lexicon is.

## Main definitions

* `CaseFolding` — where case is ignored;
* `Fragment` — the start and the finish of a construct;
* `Automaton.chain` — fragments in series;
* `Quantifier.copies` — a repetition, unfolded;
* `Regex.assemble` — the fragment of a tree.
-/

namespace GrammarAnalysis

/-- Where case is ignored in a tree. -/
structure CaseFolding where
  /-- Case is ignored in the classes. -/
  classes : Bool
  /-- Case is ignored in the texts. -/
  texts : Bool
deriving DecidableEq, Repr

/-- One flag for the classes and the texts of a tree. -/
instance : Coe Bool CaseFolding where
  coe ignoreCase := ⟨ignoreCase, ignoreCase⟩

/-- The part of an automaton that a construct was turned into. -/
structure Fragment where
  start : Nat
  finish : Nat
deriving DecidableEq, Repr

namespace Automaton

/-- A fragment of one state, which matches the empty word. -/
def addPoint (A : Automaton) : Fragment × Automaton :=
  let (id, A) := A.addState {}
  (⟨id, id⟩, A)

/-- The two states of a fragment without a connection between them. -/
def addPair (A : Automaton) : Fragment × Automaton :=
  let (start, A) := A.addState {}
  let (finish, A) := A.addState {}
  (⟨start, finish⟩, A)

/-- A fragment that matches one code point of the ranges. -/
def addClass (A : Automaton) (ranges : List CharRange) : Fragment × Automaton :=
  let (f, A) := A.addPair
  (f, A.modify f.start fun s => { s with moves := ranges, next := some f.finish })

/-- The moves of one character, with its case variants if case is ignored. -/
def characterMoves (ignoreCase : Bool) (c : Nat) : List CharRange :=
  if ignoreCase then
    let upper := (CaseMap.simpleUpper c).getD c
    let lower := (CaseMap.simpleLower c).getD c
    OrderedSet.toList (OrderedSet.ofList [CharRange.point upper, .point lower, .point c])
  else
    [.point c]

/-- Goes on from `source` with a state for each character; the last one is the finish. -/
def addCharacters (ignoreCase : Bool) : List Nat → Nat → Automaton → Nat × Automaton
  | [], source, A => (source, A)
  | c :: rest, source, A =>
    let (target, A) := A.addState {}
    let A := A.modify source fun s =>
      { s with moves := characterMoves ignoreCase c, next := some target }
    addCharacters ignoreCase rest target A

/-- A fragment that matches a literal text. -/
def addText (A : Automaton) (ignoreCase : Bool) (image : String) : Fragment × Automaton :=
  let (start, A) := A.addState {}
  let (finish, A) := addCharacters ignoreCase (image.toList.map Char.toNat) start A
  (⟨start, finish⟩, A)

/-- Connects fragments in series between two states. -/
def connect (source : Nat) : List Fragment → Nat → Automaton → Automaton
  | [], target, A => A.addEpsilon source target
  | f :: rest, target, A => connect f.finish rest target (A.addEpsilon source f.start)

/-- Fragments in series. A single one is left as it is. -/
def chain (A : Automaton) : List Fragment → Fragment × Automaton
  | [f] => (f, A)
  | fragments =>
    let (f, A) := A.addPair
    (f, connect f.start fragments f.finish A)

/-- Puts an inner fragment between the states of an outer one, with a way around the inner
fragment if `skip` is set, and a way back through it if `again` is set. -/
def enclose (A : Automaton) (outer inner : Fragment) (skip again : Bool) : Automaton :=
  let A := A.addEpsilon outer.start inner.start
  let A := A.addEpsilon inner.finish outer.finish
  let A := if skip then A.addEpsilon outer.start outer.finish else A
  if again then A.addEpsilon inner.finish inner.start else A

end Automaton

/-- One copy of the operand of a repetition. -/
inductive Copy where
  /-- The operand itself. -/
  | plain
  /-- The operand, enclosed so that it can be skipped, or matched again. -/
  | enclosed (skip again : Bool)
deriving DecidableEq, Repr

/-- A repetition as a series of copies of its operand: as many plain copies as it asks for, then
either one that can be matched any number of times or as many as can be skipped. -/
def Quantifier.copies : Quantifier → List Copy
  | star => [.enclosed true true]
  | plus => [.enclosed false true]
  | optional => [.enclosed true false]
  | times min none => List.replicate min .plain ++ [.enclosed true true]
  | times min (some max) =>
    List.replicate min .plain ++ List.replicate (max - min) (.enclosed true false)

/-- A construction step: what it adds to an automaton, and the fragment that it makes there. -/
abbrev Assembly := Automaton → Except Fault (Fragment × Automaton)

/-- One copy of an operand. The enclosing states come before those of the operand. -/
def Copy.assemble (operand : Assembly) : Copy → Assembly
  | plain, A => operand A
  | enclosed skip again, A => do
    let (outer, A) := A.addPair
    let (inner, A) ← operand A
    return (outer, A.enclose outer inner skip again)

/-- The copies of an operand, one after the other. -/
def assembleCopies (operand : Assembly) :
    List Copy → Automaton → Except Fault (List Fragment × Automaton)
  | [], A => .ok ([], A)
  | copy :: rest, A => do
    let (f, A) ← copy.assemble operand A
    let (fs, A) ← assembleCopies operand rest A
    return (f :: fs, A)

namespace Regex

mutual

/-- The fragment of a tree. `expand` makes the fragment of a named expression. -/
def assemble (folding : CaseFolding) (expand : String → Assembly) : Regex → Assembly
  | chars set negated, A => do
    let ranges ← set.orderedRanges folding.classes negated
    return A.addClass ranges
  | text image, A => .ok (A.addText folding.texts image)
  | concat parts, A => do
    let (fragments, A) ← assembleAll folding expand parts A
    return A.chain fragments
  | choice [alternative], A => assemble folding expand alternative A
  | choice alternatives, A => do
    let (f, A) := A.addPair
    let A ← assembleBetween folding expand f alternatives A
    return (f, A)
  -- Further operands are not read.
  | repeated q (body :: _), A => do
    let (fragments, A) ← assembleCopies (assemble folding expand body) q.copies A
    return A.chain fragments
  | repeated q [], A => if q.copies.isEmpty then .ok (A.chain []) else .error .index
  | reference name, A => expand name A
  | endOfInput, A => .ok A.addPoint

/-- The fragments of the trees of a list, one after the other. -/
def assembleAll (folding : CaseFolding) (expand : String → Assembly) :
    List Regex → Automaton → Except Fault (List Fragment × Automaton)
  | [], A => .ok ([], A)
  | r :: rest, A => do
    let (f, A) ← assemble folding expand r A
    let (fs, A) ← assembleAll folding expand rest A
    return (f :: fs, A)

/-- The fragments of the trees of a list, side by side between the states of an outer one. -/
def assembleBetween (folding : CaseFolding) (expand : String → Assembly) (outer : Fragment) :
    List Regex → Automaton → Except Fault Automaton
  | [], A => .ok A
  | r :: rest, A => do
    let (inner, A) ← assemble folding expand r A
    assembleBetween folding expand outer rest (A.enclose outer inner false false)

end

end Regex

end GrammarAnalysis
