import GrammarAnalysis.Proofs.Automaton.Recognition
import GrammarAnalysis.Proofs.Lexicon.Construction
import GrammarAnalysis.Proofs.Regex.Nullability

/-!
# The Check for the Empty Word and the Automaton

Whether a pattern matches the empty word is decided twice: by the check, which goes through the tree
and looks into the patterns that it refers to, and by the fragment that is made for the pattern,
which may let one pass without consuming anything. Where all names resolve without coming by
themselves again, and neither a repetition without an operand nor the end of the input is met, what
the check finds can be passed. The converse holds if no repetition has more than one operand: the
check asks all of them, and the fragment is made of the first one.

## Main definitions

* `Regex.EndFree`: the end of the input is not met;
* `Regex.Unary`: no repetition with several operands is met.

## Main results

* `Lexicon.nil_mem_of_matchesEmpty`, `Lexicon.matchesEmpty_of_nil_mem`: the check and the words of
  the pattern;
* `Lexicon.matchesEmpty_iff_reaches`: the check and the fragment of the pattern.
-/

namespace GrammarAnalysis

namespace Regex

/-- The end of the input does not occur, in the tree and in what its names stand for. -/
def EndFree (named : String → Option Regex) (r : Regex) : Prop :=
  ∀ tree, Relation.ReflTransGen (Refers named) r tree → ¬ tree.Part .endOfInput

/-- No repetition has operands that are not read, in the tree and in what its names stand for. -/
def Unary (named : String → Option Regex) (r : Regex) : Prop :=
  ∀ tree, Relation.ReflTransGen (Refers named) r tree → tree.Single

variable {named : String → Option Regex} {r tree : Regex}

/-- What a whole tree refers to is whole. -/
theorem Whole.refers (h : r.Whole named) (ht : Refers named r tree) : tree.Whole named :=
  fun e he => h e (.head ht he)

/-- What a unary tree refers to is unary. -/
theorem Unary.refers (h : r.Unary named) (ht : Refers named r tree) : tree.Unary named :=
  fun e he => h e (.head ht he)

/-- What a tree without the end of the input refers to is without it. -/
theorem EndFree.refers (h : r.EndFree named) (ht : Refers named r tree) : tree.EndFree named :=
  fun e he => h e (.head ht he)

end Regex

namespace Lexicon

open Automaton Regex

variable {L : Lexicon} {tree : Regex} {folding : CaseFolding}

/-- What the check goes by at a name, where `visiting` led to the pattern with this tree: as no name
comes by itself again, the check does not stop at the pattern of the name but looks into it. -/
theorem Room.matchesEmptyWithin_name {budget id : Nat} {visiting : List Nat} {name : String}
    (hroom : L.Room (budget + 1) visiting tree) (hexp : tree.Expandable L.namedTree)
    (htree : (L.pattern id).tree = some tree) (hname : tree.Part (.reference name)) :
    ∃ tree' target, Refers L.namedTree tree tree' ∧ (L.pattern target).tree = some tree' ∧
      L.Room budget (id :: visiting) tree' ∧ L.namedToken name = some target ∧
      target ∉ id :: visiting ∧ wordsOf folding L.namedTree name =
        tree'.languageIn folding L.namedTree := by
  cases hexp with
  | intro hresolve hrefers =>
      have hid := hroom.not_mem (.intro hresolve hrefers) htree
      obtain ⟨tree', htree'⟩ := Option.isSome_iff_exists.mp (hresolve name hname)
      obtain ⟨target, htarget, hpattern⟩ := Option.bind_eq_some_iff.mp htree'
      have hstep : Refers L.namedTree tree tree' := ⟨name, hname, htree'⟩
      have hroom' := hroom.step hid htree hstep
      refine ⟨tree', target, hstep, hpattern, hroom', htarget,
        hroom'.not_mem (hrefers tree' hstep) hpattern, ?_⟩
      rw [wordsOf, htree']

/-- What the check finds from some pattern on does match the empty word. -/
theorem nil_mem_of_matchesEmptyWithin (hexp : tree.Expandable L.namedTree) :
    ∀ {budget id : Nat} {visiting : List Nat}, (L.pattern id).tree = some tree →
      L.Room budget visiting tree → tree.Whole L.namedTree →
      L.matchesEmptyWithin budget (id :: visiting) id →
        [] ∈ tree.languageIn folding L.namedTree := by
  have hexp' := hexp
  induction hexp with
  | @intro tree _ hrefers ih =>
      intro budget id visiting htree hroom hwhole h
      obtain ⟨budget, rfl⟩ := Nat.exists_eq_add_of_le' hroom.budget_pos
      rw [matchesEmptyWithin, htree] at h
      rw [languageIn_eq hexp']
      refine nil_mem_of_nullableWith tree (fun name hname h => ?_) (hwhole tree .refl) h
      obtain ⟨tree', target, hstep, hpattern, hroom', htarget, hnew, hwords⟩ :=
        hroom.matchesEmptyWithin_name hexp' htree hname
      simp only [htarget, if_neg hnew] at h
      rw [hwords]
      exact ih tree' hstep (hrefers tree' hstep) hpattern hroom' (hwhole.refers hstep) h

/-- The check finds from some pattern on what matches the empty word. -/
theorem matchesEmptyWithin_of_nil_mem (hexp : tree.Expandable L.namedTree) :
    ∀ {budget id : Nat} {visiting : List Nat}, (L.pattern id).tree = some tree →
      L.Room budget visiting tree → tree.Unary L.namedTree → tree.EndFree L.namedTree →
      [] ∈ tree.languageIn folding L.namedTree →
        L.matchesEmptyWithin budget (id :: visiting) id := by
  have hexp' := hexp
  induction hexp with
  | @intro tree _ hrefers ih =>
      intro budget id visiting htree hroom hunary hend h
      obtain ⟨budget, rfl⟩ := Nat.exists_eq_add_of_le' hroom.budget_pos
      rw [languageIn_eq hexp'] at h
      rw [matchesEmptyWithin, htree]
      refine nullableWith_of_nil_mem tree (fun name hname h => ?_) (hunary tree .refl)
        (hend tree .refl) h
      obtain ⟨tree', target, hstep, hpattern, hroom', htarget, hnew, hwords⟩ :=
        hroom.matchesEmptyWithin_name hexp' htree hname
      rw [hwords] at h
      simp only [htarget, if_neg hnew]
      exact ih tree' hstep (hrefers tree' hstep) hpattern hroom' (hunary.refers hstep)
        (hend.refers hstep) h

/-- **What the check finds** has the empty word, however many operands its repetitions have. -/
theorem nil_mem_of_matchesEmpty {id : Nat} (htree : (L.pattern id).tree = some tree)
    (hwhole : tree.Whole L.namedTree) (hexp : tree.Expandable L.namedTree)
    (h : L.matchesEmpty id) : [] ∈ tree.languageIn folding L.namedTree :=
  nil_mem_of_matchesEmptyWithin hexp htree (room_nil L tree) hwhole h

/-- **The check finds** a pattern that has the empty word, if its repetitions have no operands that
are not read. -/
theorem matchesEmpty_of_nil_mem {id : Nat} (htree : (L.pattern id).tree = some tree)
    (hexp : tree.Expandable L.namedTree) (hunary : tree.Unary L.namedTree)
    (hend : tree.EndFree L.namedTree) (h : [] ∈ tree.languageIn folding L.namedTree) :
    L.matchesEmpty id :=
  matchesEmptyWithin_of_nil_mem hexp htree (room_nil L tree) hunary hend h

/-- **The check and the automaton.** Where every repetition has an operand, the end of the input
does not occur, and the names resolve without coming by themselves again, a pattern that the check
takes to match the empty word has a fragment with a path from its start to its finish that consumes
nothing. If no repetition has more than one operand, then only such a pattern does, so that the
check and the fragment agree. The construction fails only if some class of the expanded tree cannot
be turned into ranges. -/
theorem matchesEmpty_iff_reaches {id : Nat} (htree : (L.pattern id).tree = some tree)
    (hwhole : tree.Whole L.namedTree) (hexp : tree.Expandable L.namedTree)
    (hend : tree.EndFree L.namedTree) (ignoreCase : Bool) (A : Automaton) :
    (∃ f B, L.expand ignoreCase id A = .ok (f, B) ∧
      (L.matchesEmpty id → B.Reaches f.start f.finish) ∧
      (tree.Unary L.namedTree → (L.matchesEmpty id ↔ B.Reaches f.start f.finish))) ∨
    L.expand ignoreCase id A = .error .overflow ∧ tree.Overflows ignoreCase L.namedTree := by
  cases hexpand : L.expand ignoreCase id A with
  | ok made =>
      obtain ⟨f, B⟩ := made
      have hrealizes := (makes_expand hexp htree A f B hexpand).2
      have hreaches : B.Reaches f.start f.finish ↔
          [] ∈ tree.languageIn (L.folding ignoreCase) L.namedTree := by
        rw [← hrealizes.leads_iff]
        exact ⟨fun hreaches => hreaches.leads (.refl _), Leads.reaches⟩
      have hfound : L.matchesEmpty id → B.Reaches f.start f.finish := fun h =>
        hreaches.mpr (nil_mem_of_matchesEmpty htree hwhole hexp h)
      exact .inl ⟨f, B, rfl, hfound, fun hunary => ⟨hfound, fun h =>
        matchesEmpty_of_nil_mem htree hexp hunary hend (hreaches.mp h)⟩⟩
  | error fault =>
      obtain ⟨rfl, hoverflows⟩ := faults_expandWithin hwhole _ [] id tree htree .refl A fault
        hexpand
      exact .inr ⟨rfl, hoverflows⟩

/-- A repetition and its first operand are the only parts of it, if the operand has no parts. -/
theorem part_repeated {q : Quantifier} {body e : Regex} {further : List Regex}
    (hbody : ∀ e, body.Part e → e = body) (h : (Regex.repeated q (body :: further)).Part e) :
    e = .repeated q (body :: further) ∨ e = body := by
  cases h with
  | self => exact .inl rfl
  | repeated h => exact .inr (hbody e h)

/-- A lexicon with an optional sign and a digit, and a pattern that refers to the sign twice, once
in a repetition with more copies than it allows for, and to the digit in a repetition without any
copy. -/
def signs : Lexicon :=
  { patterns := #[{ givenLabel := "EOF", ordinal := some 0, tree := some .endOfInput },
      { givenLabel := "SIGN", tree := some (.quantified .optional (.text "-")) },
      { givenLabel := "DIGIT", tree := some (.text "0") },
      { givenLabel := "SIGNS", tree := some (.concat [.reference "SIGN",
          .quantified (.times 2 (some 1)) (.reference "SIGN"),
          .quantified (.times 0 (some 0)) (.reference "DIGIT")]) }]
    ordinals := #[0]
    namedTokens := [("SIGN", 1), ("DIGIT", 2)] }

/-- The repetitions of `SIGNS` have one operand each, the check takes it to match the empty word,
and its fragment can be passed without consuming anything. -/
theorem matchesEmpty_iff_reaches_signs :
    let tree := Regex.concat [.reference "SIGN",
      .quantified (.times 2 (some 1)) (.reference "SIGN"),
      .quantified (.times 0 (some 0)) (.reference "DIGIT")]
    (signs.pattern 3).tree = some tree ∧ tree.Whole signs.namedTree ∧
      tree.Expandable signs.namedTree ∧ tree.EndFree signs.namedTree ∧
      tree.Unary signs.namedTree ∧ signs.matchesEmpty 3 ∧
      ∃ f B, signs.expand false 3 .start = .ok (f, B) ∧
        (signs.matchesEmpty 3 ↔ B.Reaches f.start f.finish) ∧ B.Reaches f.start f.finish := by
  intro tree
  have htree : (signs.pattern 3).tree = some tree := rfl
  have hnames : ∀ name, tree.Part (.reference name) → name = "SIGN" ∨ name = "DIGIT" :=
    fun name hname => by
      have hmem : name ∈ ["SIGN", "SIGN", "DIGIT"] := mem_references hname
      simpa using hmem
  have hrefers : ∀ t, Refers signs.namedTree tree t →
      t = .quantified .optional (.text "-") ∨ t = .text "0" := by
    rintro t ⟨name, hname, ht⟩
    rcases hnames name hname with rfl | rfl
    · exact .inl (Option.some.inj ht).symm
    · exact .inr (Option.some.inj ht).symm
  have hleaf : ∀ t, Refers signs.namedTree tree t → t.references = [] := fun t ht => by
    rcases hrefers t ht with rfl | rfl <;> rfl
  have hexp : tree.Expandable signs.namedTree := by
    refine .intro (fun name hname => ?_) fun t ht => expandable_of_references_eq_nil (hleaf t ht)
    rcases hnames name hname with rfl | rfl <;> rfl
  have hreach : ∀ t, Relation.ReflTransGen (Refers signs.namedTree) tree t →
      t = tree ∨ t = .quantified .optional (.text "-") ∨ t = .text "0" := fun t ht => by
    rcases Relation.ReflTransGen.cases_head ht with heq | ⟨s, hs, ht⟩
    · exact .inl heq.symm
    · rw [eq_of_references_eq_nil (hleaf s hs) ht]
      exact .inr (hrefers s hs)
  have hparts : ∀ t, Relation.ReflTransGen (Refers signs.namedTree) tree t → ∀ e, t.Part e →
      e ≠ .endOfInput ∧ ∀ q operands, e = .repeated q operands → operands.length = 1 :=
    fun t ht e he => by
      have hone : ∀ q body, quantified q body ≠ .endOfInput ∧ ∀ q' operands,
          quantified q body = .repeated q' operands → operands.length = 1 :=
        fun q body => ⟨nofun, fun q' operands heq => (Regex.repeated.inj heq).2 ▸ rfl⟩
      rcases hreach t ht with rfl | rfl | rfl
      · simp only [tree] at he
        cases he with
        | self => exact ⟨nofun, nofun⟩
        | concat hr he =>
            rcases List.mem_cons.mp hr with rfl | hr
            · cases he
              exact ⟨nofun, nofun⟩
            · rcases List.mem_pair.mp hr with rfl | rfl <;>
                rcases part_repeated (fun _ he => by cases he; rfl) he with rfl | rfl <;>
                first | exact hone _ _ | exact ⟨nofun, nofun⟩
      · rcases part_repeated (fun _ he => by cases he; rfl) he with rfl | rfl
        · exact hone _ _
        · exact ⟨nofun, nofun⟩
      · cases he
        exact ⟨nofun, nofun⟩
  have hwhole : tree.Whole signs.namedTree := fun t ht q hq =>
    absurd ((hparts t ht _ hq).2 q [] rfl) Nat.zero_ne_one
  have hend : tree.EndFree signs.namedTree := fun t ht hq => (hparts t ht _ hq).1 rfl
  have hunary : tree.Unary signs.namedTree := fun t ht q body further hpart =>
    List.eq_nil_of_length_eq_zero (Nat.succ.inj ((hparts t ht _ hpart).2 q _ rfl))
  have hempty : signs.matchesEmpty 3 := by decide +kernel
  have hok : (signs.expand false 3 .start).toBool = true := by decide +kernel
  refine ⟨htree, hwhole, hexp, hend, hunary, hempty, ?_⟩
  rcases matchesEmpty_iff_reaches htree hwhole hexp hend false .start with
    ⟨f, B, hB, hfound, hiff⟩ | ⟨herror, -⟩
  · exact ⟨f, B, hB, hiff hunary, hfound hempty⟩
  · rw [herror] at hok
    cases hok

/-- A repetition of two operands, of which only the first one matches the empty word. -/
def emptyOrLetter : Regex := .repeated .plus [.text "", .text "a"]

/-- A repetition of what is outside of a class that has no complement. -/
def outsideOfAll : Regex := .quantified .star (.chars (.range 0 codePointMax) true)

/-- A lexicon with these two repetitions. -/
def oddRepetitions : Lexicon :=
  { patterns := #[{ givenLabel := "EOF", ordinal := some 0, tree := some .endOfInput },
      { givenLabel := "EMPTY", tree := some emptyOrLetter },
      { givenLabel := "NONE", tree := some outsideOfAll }]
    ordinals := #[0] }

/-- The check takes the repetition of two operands not to match the empty word, and its fragment can
be passed without consuming anything. The check takes the other repetition to match the empty word,
and there is no fragment for it. -/
theorem matchesEmpty_oddRepetitions :
    ((oddRepetitions.pattern 1).tree = some emptyOrLetter ∧
      emptyOrLetter.Whole oddRepetitions.namedTree ∧
      emptyOrLetter.Expandable oddRepetitions.namedTree ∧
      emptyOrLetter.EndFree oddRepetitions.namedTree ∧ oddRepetitions.matchesEmpty 1 = false ∧
      ∃ f B, oddRepetitions.expand false 1 .start = .ok (f, B) ∧ B.Reaches f.start f.finish) ∧
    (oddRepetitions.pattern 2).tree = some outsideOfAll ∧
      outsideOfAll.Whole oddRepetitions.namedTree ∧
      outsideOfAll.Expandable oddRepetitions.namedTree ∧
      outsideOfAll.EndFree oddRepetitions.namedTree ∧ oddRepetitions.matchesEmpty 2 = true ∧
      oddRepetitions.expand false 2 .start = .error .overflow := by
  constructor
  · have hpart : ∀ e, emptyOrLetter.Part e → e = emptyOrLetter ∨ e = .text "" := fun e he =>
      part_repeated (fun _ he => by cases he; rfl) he
    have hexp : emptyOrLetter.Expandable oddRepetitions.namedTree :=
      expandable_of_references_eq_nil rfl
    have hnil : [] ∈ emptyOrLetter.languageIn (oddRepetitions.folding false)
        oddRepetitions.namedTree := by
      rw [languageIn_eq hexp, emptyOrLetter, language, Quantifier.nil_mem_language]
      exact mem_language_text.mpr .nil
    refine ⟨rfl, fun t ht q hq => ?_, hexp, fun t ht he => ?_, by decide +kernel, ?_⟩
    · rw [eq_of_references_eq_nil rfl ht] at hq
      rcases hpart _ hq with h | h <;> cases h
    · rw [eq_of_references_eq_nil rfl ht] at he
      rcases hpart _ he with h | h <;> cases h
    · have hok : (oddRepetitions.expand false 1 .start).toBool = true := by decide +kernel
      cases hexpand : oddRepetitions.expand false 1 .start with
      | error fault =>
          rw [hexpand] at hok
          cases hok
      | ok made =>
          have hleads := (makes_expand hexp rfl .start made.1 made.2 hexpand).2.leads_iff []
          exact ⟨made.1, made.2, rfl, (hleads.mpr hnil).reaches⟩
  · have hpart : ∀ e, outsideOfAll.Part e →
        e = outsideOfAll ∨ e = .chars (.range 0 codePointMax) true := fun e he =>
      part_repeated (fun _ he => by cases he; rfl) he
    refine ⟨rfl, fun t ht q hq => ?_, expandable_of_references_eq_nil rfl, fun t ht he => ?_,
      by decide +kernel, ?_⟩
    · rw [eq_of_references_eq_nil rfl ht] at hq
      rcases hpart _ hq with h | h <;> cases h
    · rw [eq_of_references_eq_nil rfl ht] at he
      rcases hpart _ he with h | h <;> cases h
    · have htest : (match oddRepetitions.expand false 2 .start with
          | .error fault => some fault
          | .ok _ => none) = some .overflow := by decide +kernel
      split at htest
      · rename_i fault hfault
        rw [hfault, Option.some.inj htest]
      · cases htest

end Lexicon

end GrammarAnalysis
