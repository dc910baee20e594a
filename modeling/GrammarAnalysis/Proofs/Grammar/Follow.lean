import GrammarAnalysis.Proofs.Grammar.FirstFinal
import GrammarAnalysis.Proofs.Grammar.Sizes
import GrammarAnalysis.Proofs.Grammar.Surroundings

/-!
# Follow Sets

What can come after a node is read off the derivations: a node *occurs* in a derivation of a
production with some nodes still to come (`Grammar.Occurs`), and a token follows the node there
if these nodes derive a string that begins with it (`Grammar.Followed`).

A follow set is made up from what comes after a node in its production, and from one loop: the
closest one that the node ends. A node can end more than one loop (`Grammar.Ends`). Going round
another loop than the closest, the parser comes to tokens that can be missing from the set, even
if the set is not marked incomplete.

## Main definitions

* `Grammar.Occurs`, `Grammar.Followed`: what comes after a node in a derivation;
* `Grammar.Ends`: the loops that go on after a node.

## Main results

* `Grammar.Followed.mem_or`: what a follow set can miss is the beginning of a loop and, where it
  is marked incomplete, what comes after the production;
* `Grammar.followed_of_ends`: after a node that ends a loop, the loop can begin again;
* `Grammar.followSet_complete_iff`: which follow sets are complete;
* `Grammar.nestedLoops_followSet`: one that is not.
-/

namespace GrammarAnalysis

namespace Grammar

/-! ### Occurrences in derivations -/

/-- In a derivation of `r`, a node occurs. What comes before it derives some string; after it
come the nodes of `inner`, which belong to the production that the node is in, and then those of
`outer`, where that production was entered. -/
inductive Occurs (g : Grammar) (r : Nat) : Nat → List Nat → List Nat → Prop
  | root : Occurs g r r [] []
  | operand {a c : Nat} {inner outer before post w : List Nat} : Occurs g r a inner outer →
      (g.shape a).isNonTerminal = false → g.Expands [] a (before ++ c :: post) →
        g.Derives [] before w → Occurs g r c (post ++ inner) outer
  | enter {a p : Nat} {name : String} {inner outer : List Nat} : Occurs g r a inner outer →
      g.shape a = .nonTerminal name → g.productionNamed name = some p →
        Occurs g r (g.root p) [] (inner ++ outer)

/-- The node occurs in some derivation of `r`. -/
def Appears (g : Grammar) (r e : Nat) : Prop :=
  ∃ inner outer y v, g.Occurs r e inner outer ∧ g.Derives [] [e] y ∧
    g.Derives [] (inner ++ outer) v

/-- The nodes of a list derive a string that begins with the token. -/
def Begins (g : Grammar) (es : List Nat) (t : Nat) : Prop :=
  ∃ q w, g.Derives [] es (q :: w) ∧ (g.lexicon.pattern q).ordinal = some t

/-- In a derivation of `r`, what the node derives is followed directly by the token. -/
def Followed (g : Grammar) (r e t : Nat) : Prop :=
  ∃ inner outer y, g.Occurs r e inner outer ∧ g.Derives [] [e] y ∧ g.Begins (inner ++ outer) t

/-- In a derivation of `r`, what the node derives is followed directly by the token, which
belongs to the same production. -/
def FollowedInside (g : Grammar) (r e t : Nat) : Prop :=
  ∃ inner outer y v, g.Occurs r e inner outer ∧ g.Derives [] [e] y ∧ g.Begins inner t ∧
    g.Derives [] outer v

/-- After the operand, nothing has to be matched in its parent. -/
def Trails (g : Grammar) (c a : Nat) : Prop :=
  g.isSequence a = true → ∀ u ∈ g.unitsAfter a c, g.possiblyEmpty u = true

/-- The node is at the end of the body of a loop: after it, nothing has to be matched before the
loop goes on. -/
inductive Ends (g : Grammar) : Nat → Nat → Prop
  | body {c l : Nat} : c ∈ g.children l → (g.shape l).isLoop = true → Ends g c l
  | through {c a l : Nat} : c ∈ g.children a → g.Trails c a → Ends g a l → Ends g c l

variable {g : Grammar} {r : Nat}

/-- What a node derives where it occurs is a part of a string of the root. -/
theorem Occurs.derives {e : Nat} {inner outer : List Nat} (h : g.Occurs r e inner outer)
    {y v : List Nat} (hy : g.Derives [] [e] y) (hv : g.Derives [] (inner ++ outer) v) :
    ∃ u, g.Derives [] [r] (u ++ y ++ v) := by
  induction h generalizing y v with
  | root =>
      rw [List.nil_append, derives_nil] at hv
      subst hv
      refine ⟨[], ?_⟩
      rw [List.nil_append, List.append_nil]
      exact hy
  | @operand a c inner outer before post w _ _ hform hbefore ih =>
      rw [List.append_assoc] at hv
      obtain ⟨v₁, v₂, rfl, hpost, hrest⟩ := hv.split
      have ha : g.Derives [] [a] (w ++ (y ++ v₁)) :=
        hform.derives (hbefore.append (derives_cons_iff.mpr ⟨y, v₁, rfl, hy, hpost⟩))
      obtain ⟨u, hu⟩ := ih ha hrest
      refine ⟨u ++ w, ?_⟩
      simp only [List.append_assoc] at hu ⊢
      exact hu
  | @enter a p name inner outer _ hshape hp ih =>
      have ha : g.Derives [] [a] y :=
        (Expands.nonTerminal hshape hp List.not_mem_nil).derives hy
      exact ih ha hv

/-! ### The tokens that a derivation begins with -/

/-- Two lists together begin with a token of the first one or, if this can be empty, of the
second one. -/
theorem begins_append_iff {es fs : List Nat} {t : Nat} :
    g.Begins (es ++ fs) t ↔ (g.Begins es t ∧ ∃ v, g.Derives [] fs v) ∨
      (g.Derives [] es [] ∧ g.Begins fs t) := by
  constructor
  · rintro ⟨q, w, hd, hq⟩
    obtain ⟨u, v, huv, hu, hv⟩ := hd.split
    cases u with
    | nil =>
        rw [List.nil_append] at huv
        exact .inr ⟨hu, q, w, huv ▸ hv, hq⟩
    | cons q' u =>
        obtain ⟨rfl, -⟩ := List.cons.inj huv
        exact .inl ⟨⟨q, u, hu, hq⟩, v, hv⟩
  · rintro (⟨⟨q, w, hd, hq⟩, v, hv⟩ | ⟨hempty, q, w, hd, hq⟩)
    · exact ⟨q, w ++ v, hd.append hv, hq⟩
    · exact ⟨q, w, hempty.append hd, hq⟩

/-- A leading unit of two lists leads the first, or the second after nothing but possibly empty
units. -/
theorem mem_leadingUnits_append {n : Nat} {es fs : List Nat}
    (h : n ∈ g.leadingUnits (es ++ fs)) :
    n ∈ g.leadingUnits es ∨ (∀ x ∈ es, g.possiblyEmpty x = true) ∧ n ∈ g.leadingUnits fs := by
  obtain ⟨before, rest, hsplit, hbefore⟩ := mem_leadingUnits_iff.mp h
  rcases List.append_eq_append_iff.mp hsplit with ⟨more, rfl, rfl⟩ | ⟨others, rfl, hothers⟩
  · obtain ⟨hes, hmore⟩ := List.forall_mem_append.mp hbefore
    exact .inr ⟨hes, mem_leadingUnits_iff.mpr ⟨more, rest, rfl, hmore⟩⟩
  · cases others with
    | nil =>
        rw [List.append_nil]
        exact .inr ⟨hbefore, mem_leadingUnits_iff.mpr ⟨[], rest, hothers.symm, nofun⟩⟩
    | cons x others =>
        obtain ⟨rfl, -⟩ := List.cons.inj hothers
        exact .inl (mem_leadingUnits_iff.mpr ⟨before, others, rfl, hbefore⟩)

/-- A token at the front of a leading node of an expansion is at the front of the node. -/
theorem Fringe.of_expands {e n t : Nat} {form : List Nat} (h : g.Expands [] e form)
    (hn : n ∈ g.leadingUnits form) (ht : g.Fringe .front [] n t) : g.Fringe .front [] e t := by
  have hmem := mem_of_mem_leadingUnits hn
  have houter : ∀ body, body ∈ g.outer .front e → n = body ∨ n = e →
      g.Fringe .front [] e t := fun body hbody hn => by
    rcases hn with rfl | rfl
    · exact .outer hbody ht
    · exact ht
  cases h with
  | sequence hshape =>
      refine .outer ?_ ht
      simp only [Grammar.outer, hshape, Side.order]
      exact hn
  | @choice a alternatives hshape ha =>
      refine houter a ?_ (.inl (List.mem_singleton.mp hmem))
      simp only [Grammar.outer, hshape, Shape.children]
      exact ha
  | stop hshape | skip hshape | empty hshape => exact absurd hmem List.not_mem_nil
  | @again body hshape | @more body hshape =>
      refine houter body ?_ (by simpa using hmem)
      simp only [Grammar.outer, hshape, Shape.children, List.mem_singleton]
  | @once body hshape | @take body hshape | @parentheses body hshape =>
      refine houter body ?_ (.inl (List.mem_singleton.mp hmem))
      simp only [Grammar.outer, hshape, Shape.children, List.mem_singleton]
  | nonTerminal hshape hp he =>
      rw [List.mem_singleton.mp hmem] at ht
      exact .nonTerminal hshape hp he ht

/-- **The first token of a string is at the front of a leading node.** -/
theorem Derives.leading (hg : g.WellFormed) {es w : List Nat} {q t : Nat}
    (h : g.Derives [] es w) (hw : w.head? = some q)
    (hq : (g.lexicon.pattern q).ordinal = some t) :
    ∃ n ∈ g.leadingUnits es, g.Fringe .front [] n t := by
  have hhead : ∀ e rest, e ∈ g.leadingUnits (e :: rest) := fun e rest => by
    rw [leadingUnits]
    split <;> exact List.mem_cons_self
  induction h with
  | nil => cases hw
  | @terminal e pattern rest w hshape _ _ =>
      cases hw
      exact ⟨e, hhead e rest, .terminal hshape hq⟩
  | @expand e form rest w hform _ ih =>
      obtain ⟨n, hn, ht⟩ := ih hw
      rcases mem_leadingUnits_append hn with hn | ⟨hall, hn⟩
      · exact ⟨e, hhead e rest, .of_expands hform hn ht⟩
      · have hempty := (possiblyEmpty_iff hg e).mpr
          (hform.derives ((derives_iff_possiblyEmpty hg).mpr hall))
        refine ⟨n, ?_, ht⟩
        rw [leadingUnits, if_pos hempty]
        exact List.mem_cons_of_mem e hn

/-- A token that a list begins with is at the front of a leading node. -/
theorem Begins.leading (hg : g.WellFormed) {es : List Nat} {t : Nat} (h : g.Begins es t) :
    ∃ n ∈ g.leadingUnits es, g.Fringe .front [] n t := by
  obtain ⟨q, w, hd, hq⟩ := h
  exact hd.leading hg rfl hq

/-- A token that a node begins with is in its first set. -/
theorem Begins.fringe (hg : g.WellFormed) {e t : Nat} (h : g.Begins [e] t) :
    g.Fringe .front [] e t := by
  obtain ⟨n, hn, ht⟩ := h.leading hg
  rw [List.mem_singleton.mp (mem_of_mem_leadingUnits hn)] at ht
  exact ht

/-! ### Going down in a derivation -/

/-- The place of a node in an expansion: it is a unit of a sequence, another operand, or the
loop itself that goes on. -/
inductive Place (g : Grammar) (a c : Nat) (before post : List Nat) : Prop
  | unit (h : g.shape a = .sequence (before ++ c :: post))
  | operand (h : c ∈ g.children a) (hseq : g.isSequence a = false)
      (hpost : post = [] ∨ (g.shape a).isLoop = true ∧ post = [a])
  | again (h : c = a) (hpost : post = [])

/-- A list around an element that has one element is this element. -/
theorem append_cons_eq_singleton {α : Type} {before post : List α} {c x : α}
    (h : before ++ c :: post = [x]) : c = x ∧ post = [] := by
  cases before with
  | nil => exact List.cons.inj h
  | cons y before =>
      obtain ⟨-, h⟩ := List.cons.inj h
      exact absurd h (by simp)

/-- A list around an element that has two elements has it first or second. -/
theorem append_cons_eq_pair {α : Type} {before post : List α} {c x y : α}
    (h : before ++ c :: post = [x, y]) : c = x ∧ post = [y] ∨ c = y ∧ post = [] := by
  cases before with
  | nil => exact .inl (List.cons.inj h)
  | cons z before =>
      obtain ⟨-, h⟩ := List.cons.inj h
      exact .inr (append_cons_eq_singleton h)

/-- An operand that is no unit of a sequence: behind it stands nothing, or the loop that it is the
body of. -/
theorem Place.of_shape {a c : Nat} {before post : List Nat} {shape : Shape}
    (hshape : g.shape a = shape) (hc : c ∈ shape.children) (hseq : shape.isSequence = false)
    (hpost : post = [] ∨ shape.isLoop = true ∧ post = [a]) : g.Place a c before post := by
  subst hshape
  exact .operand hc hseq hpost

/-- One of the nodes that a node is replaced by has a place in it. -/
theorem Expands.place {a c : Nat} {before post : List Nat}
    (h : g.Expands [] a (before ++ c :: post)) (hname : (g.shape a).isNonTerminal = false) :
    g.Place a c before post := by
  rw [expands_iff] at h
  cases hshape : g.shape a with
  | sequence units =>
      rw [hshape] at h
      exact .unit (h ▸ hshape)
  | choice alternatives =>
      rw [hshape] at h
      obtain ⟨x, hx, h⟩ := h
      obtain ⟨rfl, rfl⟩ := append_cons_eq_singleton h
      exact .of_shape hshape hx rfl (.inl rfl)
  | zeroOrMore body =>
      rw [hshape] at h
      rcases h with h | h
      · exact absurd h (by simp)
      · rcases append_cons_eq_pair h with ⟨rfl, rfl⟩ | ⟨rfl, rfl⟩
        · exact .of_shape hshape (.head _) rfl (.inr ⟨rfl, rfl⟩)
        · exact .again rfl rfl
  | oneOrMore body =>
      rw [hshape] at h
      rcases h with h | h
      · obtain ⟨rfl, rfl⟩ := append_cons_eq_singleton h
        exact .of_shape hshape (.head _) rfl (.inl rfl)
      · rcases append_cons_eq_pair h with ⟨rfl, rfl⟩ | ⟨rfl, rfl⟩
        · exact .of_shape hshape (.head _) rfl (.inr ⟨rfl, rfl⟩)
        · exact .again rfl rfl
  | zeroOrOne body =>
      rw [hshape] at h
      rcases h with h | h
      · exact absurd h (by simp)
      · obtain ⟨rfl, rfl⟩ := append_cons_eq_singleton h
        exact .of_shape hshape (.head _) rfl (.inl rfl)
  | parentheses body =>
      rw [hshape] at h
      obtain ⟨rfl, rfl⟩ := append_cons_eq_singleton h
      exact .of_shape hshape (.head _) rfl (.inl rfl)
  | nonTerminal name =>
      rw [hshape] at hname
      cases hname
  | terminal pattern =>
      rw [hshape] at h
      exact h.elim
  | empty kind =>
      rw [hshape] at h
      exact absurd h (by simp)

/-- What comes after a node in its production is in what `after` finds, or a loop begins again
that the node ends; and if nothing need come, `after` finds the end. -/
structure Continues (g : Grammar) (x : Nat) (inner : List Nat) : Prop where
  begins : ∀ t, g.Begins inner t →
    (∃ n ∈ (g.after x).1, g.Fringe .front [] n t) ∨ ∃ l, g.Ends x l ∧ g.Begins [l] t
  ends : g.Derives [] inner [] → (g.after x).2 = true

/-- A unit trails its sequence if the units after it are possibly empty. -/
theorem trails_unit (ht : g.TreeShaped) {a c : Nat} {before post : List Nat}
    (ha : g.shape a = .sequence (before ++ c :: post)) :
    g.Trails c a ↔ ∀ u ∈ post, g.possiblyEmpty u = true := by
  have hchildren : g.children a = before ++ c :: post := by
    rw [children, ha, Shape.children]
  have hseq : g.isSequence a = true := by rw [isSequence, ha, Shape.isSequence]
  rw [Trails, unitsAfter_eq (ht.nodup_children a) hchildren]
  exact ⟨fun h => h hseq, fun h _ => h⟩

section

variable (hg : g.WellFormed) (ht : g.TreeShaped) (hl : g.NoLookaheads)

include hg ht hl

/-- Nothing comes after a root in its production. -/
theorem continues_root {p : Nat} (hp : p < g.productions.size) : g.Continues (g.root p) [] := by
  refine ⟨fun t h => ?_, fun _ => ?_⟩
  · obtain ⟨q, w, hd, -⟩ := h
    cases derives_nil.mp hd
  · rw [after_root hg ht (hl.apart hg) hp]

/-- What comes after a unit is the rest of the sequence, then what comes after the sequence. -/
theorem Continues.unit {a c : Nat} {before post inner : List Nat} (h : g.Continues a inner)
    (ha : g.shape a = .sequence (before ++ c :: post)) : g.Continues c (post ++ inner) := by
  have hafter := after_unit hg ht (hl.apart hg) ha
  have hmem : c ∈ g.children a := by
    rw [children, ha]
    exact List.mem_append_right _ List.mem_cons_self
  have hall : g.Derives [] post [] → post.all g.possiblyEmpty = true := fun hpost =>
    List.all_eq_true.mpr ((derives_iff_possiblyEmpty hg).mp hpost)
  refine ⟨fun t hbegin => ?_, fun hd => ?_⟩
  · rcases begins_append_iff.mp hbegin with ⟨hbegin, -⟩ | ⟨hempty, hbegin⟩
    · obtain ⟨n, hn, hfringe⟩ := hbegin.leading hg
      refine .inl ⟨n, ?_, hfringe⟩
      rw [hafter]
      exact List.mem_append_left _ hn
    · have hpost := hall hempty
      rcases h.begins t hbegin with ⟨n, hn, hfringe⟩ | ⟨l, hend, hloop⟩
      · refine .inl ⟨n, ?_, hfringe⟩
        rw [hafter, hpost]
        exact List.mem_append_right _ hn
      · have htrail := (trails_unit ht ha).mpr (List.all_eq_true.mp hpost)
        exact .inr ⟨l, .through hmem htrail hend, hloop⟩
  · obtain ⟨u, v, huv, hu, hv⟩ := hd.split
    obtain ⟨rfl, rfl⟩ := List.append_eq_nil_iff.mp huv.symm
    rw [hafter, hall hu, h.ends hv]
    rfl

/-- What comes after another operand comes after its parent, once a loop has gone on. -/
theorem Continues.operand {a c : Nat} {post inner : List Nat} (h : g.Continues a inner)
    (hc : c ∈ g.children a) (hseq : g.isSequence a = false)
    (hpost : post = [] ∨ (g.shape a).isLoop = true ∧ post = [a]) :
    g.Continues c (post ++ inner) := by
  have hafter := after_operand hg ht (hl.apart hg) hc hseq
  have htrail : g.Trails c a := fun hs => by
    rw [hseq] at hs
    cases hs
  have hup : ∀ t, g.Begins inner t →
      (∃ n ∈ (g.after c).1, g.Fringe .front [] n t) ∨ ∃ l, g.Ends c l ∧ g.Begins [l] t :=
    fun t hbegin => by
      rw [hafter]
      rcases h.begins t hbegin with hn | ⟨l, hend, hloop⟩
      · exact .inl hn
      · exact .inr ⟨l, .through hc htrail hend, hloop⟩
  rcases hpost with rfl | ⟨hloop, rfl⟩
  · exact ⟨hup, fun hd => hafter ▸ h.ends hd⟩
  · refine ⟨fun t hbegin => ?_, fun hd => ?_⟩
    · rcases begins_append_iff.mp hbegin with ⟨hbegin, -⟩ | ⟨-, hbegin⟩
      · exact .inr ⟨a, .body hc hloop, hbegin⟩
      · exact hup t hbegin
    · obtain ⟨u, v, huv, -, hv⟩ := hd.split
      obtain ⟨rfl, rfl⟩ := List.append_eq_nil_iff.mp huv.symm
      rw [hafter]
      exact h.ends hv

/-- **What comes after a node that occurs in a derivation** is what comes after it in its
production, whichever production that is. -/
theorem Occurs.continues {p e : Nat} {inner outer : List Nat} (hp : p < g.productions.size)
    (h : g.Occurs (g.root p) e inner outer) : g.Continues e inner := by
  induction h with
  | root => exact continues_root hg ht hl hp
  | operand _ hname hform _ ih =>
      cases hform.place hname with
      | unit ha => exact ih.unit hg ht hl ha
      | operand hc hseq hpost => exact ih.operand hg ht hl hc hseq hpost
      | again heq hpost =>
          subst heq hpost
          exact ih
  | enter _ _ hp' _ => exact continues_root hg ht hl (productionNamed_lt hp')

end

/-! ### Going round a loop again -/

/-- An operand occurs because its parent does. -/
theorem Occurs.parent (ht : g.TreeShaped) {p c a : Nat} {inner outer : List Nat}
    (hp : p < g.productions.size) (h : g.Occurs (g.root p) c inner outer)
    (hc : c ∈ g.children a) :
    ∃ before post inner' w, g.Occurs (g.root p) a inner' outer ∧
      (g.shape a).isNonTerminal = false ∧ g.Expands [] a (before ++ c :: post) ∧
      g.Derives [] before w ∧ inner = post ++ inner' := by
  induction h with
  | root => exact absurd hc (ht.root_not_mem hp a)
  | @operand b c inner outer before post w hb hname hform hbefore ih =>
      have here : b = a → ∃ before' post' inner' w, g.Occurs (g.root p) a inner' outer ∧
          (g.shape a).isNonTerminal = false ∧ g.Expands [] a (before' ++ c :: post') ∧
          g.Derives [] before' w ∧ post ++ inner = post' ++ inner' := by
        rintro rfl
        exact ⟨before, post, inner, w, hb, hname, hform, hbefore, rfl⟩
      cases hform.place hname with
      | unit hshape =>
          refine here (ht.parent_unique ?_ hc)
          rw [children, hshape]
          exact List.mem_append_right _ List.mem_cons_self
      | operand hmem _ _ => exact here (ht.parent_unique hmem hc)
      | again heq hpost =>
          subst heq hpost
          exact ih hc
  | enter _ _ hp' _ => exact absurd hc (ht.root_not_mem (productionNamed_lt hp') a)

/-- A loop can always go on after its body. -/
theorem Expands.again_of_isLoop {c a : Nat} (hc : c ∈ g.children a)
    (hloop : (g.shape a).isLoop = true) : g.Expands [] a ([] ++ c :: [a]) := by
  rw [children] at hc
  cases hshape : g.shape a with
  | zeroOrMore body =>
      rw [hshape] at hc
      rw [List.mem_singleton.mp hc]
      exact .again hshape
  | oneOrMore body =>
      rw [hshape] at hc
      rw [List.mem_singleton.mp hc]
      exact .more hshape
  | _ =>
      rw [hshape] at hloop
      cases hloop

/-- An operand that ends its parent can be the last one that derives a token. -/
theorem Expands.last (hg : g.WellFormed) (ht : g.TreeShaped) {c a : Nat}
    {before post : List Nat} (h : g.Expands [] a (before ++ c :: post))
    (hname : (g.shape a).isNonTerminal = false) (hc : c ∈ g.children a)
    (htrail : g.Trails c a) :
    ∃ post', g.Expands [] a (before ++ c :: post') ∧ g.Derives [] post' [] := by
  cases h.place hname with
  | unit hshape =>
      exact ⟨post, h, (derives_iff_possiblyEmpty hg).mpr ((trails_unit ht hshape).mp htrail)⟩
  | operand _ _ hpost =>
      rcases hpost with rfl | ⟨hloop, rfl⟩
      · exact ⟨[], h, .nil⟩
      · cases hshape : g.shape a with
        | zeroOrMore body => exact ⟨[a], h, .expand (.stop hshape) .nil⟩
        | oneOrMore body =>
            rw [expands_iff, hshape] at h
            rcases h with h | h
            · exact absurd (append_cons_eq_singleton h).2 (by simp)
            · rcases append_cons_eq_pair h with ⟨rfl, -⟩ | ⟨-, hnil⟩
              · have hbefore : before = [] := by
                  have hlen := congrArg List.length h
                  rw [List.length_append] at hlen
                  exact List.eq_nil_of_length_eq_zero (by simpa using hlen)
                subst hbefore
                exact ⟨[], .once hshape, .nil⟩
              · cases hnil
        | _ =>
            rw [hshape] at hloop
            cases hloop
  | again heq _ => exact absurd (hg.child_lt a c hc) (heq ▸ Nat.lt_irrefl _)

/-- Where a node occurs that ends a loop, it also occurs with the loop still to go on. -/
theorem Occurs.again (hg : g.WellFormed) (ht : g.TreeShaped) {p e l t : Nat}
    (hp : p < g.productions.size) (hend : g.Ends e l) {inner outer v : List Nat}
    (h : g.Occurs (g.root p) e inner outer) (hv : g.Derives [] inner v)
    (hbegin : g.Begins [l] t) :
    ∃ inner', g.Occurs (g.root p) e inner' outer ∧ g.Begins inner' t := by
  induction hend generalizing inner v with
  | @body c l hc hloop =>
      obtain ⟨before, post, inner', u, hocc, hname, -, -, rfl⟩ := h.parent ht hp hc
      obtain ⟨-, v₂, -, -, hrest⟩ := hv.split
      exact ⟨[l] ++ inner', hocc.operand hname (.again_of_isLoop hc hloop) .nil,
        begins_append_iff.mpr (.inl ⟨hbegin, v₂, hrest⟩)⟩
  | @through c a l hc htrail _ ih =>
      obtain ⟨before, post, inner', u, hocc, hname, hform, hbefore, rfl⟩ := h.parent ht hp hc
      obtain ⟨-, v₂, -, -, hrest⟩ := hv.split
      obtain ⟨inner₂, hocc₂, hbegin₂⟩ := ih hocc hrest hbegin
      obtain ⟨post', hform', hpost'⟩ := hform.last hg ht hname hc htrail
      exact ⟨post' ++ inner₂, hocc₂.operand hname hform' hbefore,
        begins_append_iff.mpr (.inr ⟨hpost', hbegin₂⟩)⟩

/-- **After a node that ends a loop, the loop can begin again.** -/
theorem followedInside_of_ends (hg : g.WellFormed) (ht : g.TreeShaped) {p e l t : Nat}
    (hp : p < g.productions.size) (h : g.Appears (g.root p) e) (hend : g.Ends e l)
    (hbegin : g.Begins [l] t) : g.FollowedInside (g.root p) e t := by
  obtain ⟨inner, outer, y, v, hocc, hy, hv⟩ := h
  obtain ⟨v₁, v₂, -, hinner, houter⟩ := hv.split
  obtain ⟨inner', hocc', hbegin'⟩ := hocc.again hg ht hp hend hinner hbegin
  exact ⟨inner', outer, y, v₂, hocc', hy, hbegin', houter⟩

/-! ### The followers of a node -/

section

variable (hg : g.WellFormed) (ht : g.TreeShaped) (hl : g.NoLookaheads)

include hg ht hl

/-- A node at the end of a loop is found to be there. -/
theorem endOfLoopWithin_of_ends {c l budget : Nat} (h : g.Ends c l) (hb : g.size < c + budget) :
    g.endOfLoopWithin budget c = true := by
  induction h generalizing budget with
  | @body c l hc hloop =>
      have hlt := hg.child_lt l c hc
      have hsize := lt_size_of_mem_children hc
      obtain ⟨b, rfl⟩ : ∃ b, budget = b + 1 + 1 := ⟨budget - 2, by omega⟩
      have hseq : g.isSequence l = false := by
        rw [isSequence]
        cases hshape : g.shape l with
        | sequence units =>
            rw [hshape] at hloop
            cases hloop
        | _ => rfl
      rw [endOfLoopWithin, (parentNode_iff hg ht (hl.apart hg)).mpr hc]
      simp only [hseq, Bool.false_and, Bool.false_eq_true, if_false]
      rw [endOfLoopWithin, if_pos hloop]
      simp
  | @through c a l hc htrail _ ih =>
      have hlt := hg.child_lt a c hc
      have hsize := lt_size_of_mem_children hc
      obtain ⟨b, rfl⟩ : ∃ b, budget = b + 1 := ⟨budget - 1, by omega⟩
      have hall : (g.isSequence a && !(g.unitsAfter a c).all g.possiblyEmpty) = false := by
        cases hseq : g.isSequence a with
        | false => rfl
        | true => simpa using htrail hseq
      rw [endOfLoopWithin, (parentNode_iff hg ht (hl.apart hg)).mpr hc]
      simp only [hall, Bool.false_eq_true, if_false]
      rw [ih (by omega)]
      simp

/-- A node that ends a loop is found to do so. -/
theorem isAtEndOfLoop_of_ends {c l : Nat} (h : g.Ends c l) : g.isAtEndOfLoop c = true :=
  endOfLoopWithin_of_ends hg ht hl h (by rw [depth]; omega)

/-- The closest loop is among the followers of a node that ends a loop. -/
theorem mem_followers_loop {e l : Nat} (hend : g.Ends e l)
    (hfirst : g.firstLoopAncestor e = some l) : l ∈ (g.followers e).1 := by
  have hloop := isAtEndOfLoop_of_ends hg ht hl hend
  simp [followers, hloop, hfirst]

omit hg ht hl in
/-- What comes after a node in its production is among its followers. -/
theorem mem_followers_after {e n : Nat} (h : n ∈ (g.after e).1) : n ∈ (g.followers e).1 := by
  rw [after] at h
  simp [followers, h]

/-- **What a follow set can miss inside of a production** is the beginning of a loop that the
node ends and that is not the closest one. -/
theorem FollowedInside.mem_or {p e t : Nat} (hp : p < g.productions.size)
    (h : g.FollowedInside (g.root p) e t) :
    (∃ n ∈ (g.followers e).1, g.Fringe .front [] n t) ∨
      ∃ l, g.Ends e l ∧ g.firstLoopAncestor e ≠ some l ∧ g.Begins [l] t := by
  obtain ⟨inner, outer, -, -, hocc, -, hbegin, -⟩ := h
  rcases (hocc.continues hg ht hl hp).begins t hbegin with ⟨n, hn, hfringe⟩ | ⟨l, hend, hloop⟩
  · exact .inl ⟨n, mem_followers_after hn, hfringe⟩
  · by_cases hfirst : g.firstLoopAncestor e = some l
    · exact .inl ⟨l, mem_followers_loop hg ht hl hend hfirst, hloop.fringe hg⟩
    · exact .inr ⟨l, hend, hfirst, hloop⟩

/-- A token that follows a node, but not inside of its production, comes after the end of the
production. -/
theorem Followed.inside_or_open {p e t : Nat} (hp : p < g.productions.size)
    (h : g.Followed (g.root p) e t) :
    g.FollowedInside (g.root p) e t ∨ (g.followers e).2 = true := by
  obtain ⟨inner, outer, y, hocc, hy, hbegin⟩ := h
  rcases begins_append_iff.mp hbegin with ⟨hbegin, v, hv⟩ | ⟨hempty, -⟩
  · exact .inl ⟨inner, outer, y, v, hocc, hy, hbegin, hv⟩
  · exact .inr ((hocc.continues hg ht hl hp).ends hempty)

end

/-- A follow set is marked as incomplete if the followers were cut. -/
theorem followSet_incomplete {e : Nat} {m m' : Memory} {s : TokenSet}
    (h : g.followSet e m = .ok (s, m')) : s.incomplete = (g.followers e).2 := by
  cases hs : g.firstSets (g.followers e).1 m with
  | error fault =>
      rw [followSet] at h
      simp only [hs, bind, Except.bind] at h
      cases h
  | ok answer =>
      rw [followSet_of_firstSets hs] at h
      cases h
      rfl

/-- **Which follow sets are complete.** A follow set has all the tokens that follow the node
inside of its production just if it has the tokens that begin the loops which the node ends,
other than the closest loop. A set that is not marked incomplete need not look further: no
other token follows the node in a derivation. -/
theorem followSet_complete_iff (hg : g.Developed) (ht : g.TreeShaped) (hl : g.NoLookaheads)
    (hpattern : g.PatternsExist) {m : Memory} (hm : g.Remembers m) {p : Nat}
    (hp : p < g.productions.size) (e : Nat) :
    ∃ s m', g.followSet e m = .ok (s, m') ∧
      ((∀ t, g.FollowedInside (g.root p) e t → t ∈ s) ↔
        (g.Appears (g.root p) e → ∀ l, g.Ends e l → g.firstLoopAncestor e ≠ some l →
          ∀ t, g.Begins [l] t → t ∈ s)) ∧
      (∀ t, g.Followed (g.root p) e t →
        g.FollowedInside (g.root p) e t ∨ s.incomplete = true) := by
  have hw := hg.wellFormed
  have hplain : g.PlainLookaheads := fun x lookahead hx => by
    rw [hl x] at hx
    cases hx
  obtain ⟨s, m', hs, -, hmem⟩ :=
    answers_followSet hw hplain hpattern e m (hg.exact hplain hpattern hm)
  refine ⟨s, m', hs, ⟨fun hall happears l hend _ t hbegin => ?_, fun hloops t h => ?_⟩,
    fun t h => ?_⟩
  · exact hall t (followedInside_of_ends hw ht hp happears hend hbegin)
  · rcases h.mem_or hw ht hl hp with hn | ⟨l, hend, hfirst, hbegin⟩
    · exact (hmem t).mpr hn
    · obtain ⟨inner, outer, y, v, hocc, hy, ⟨q, w, hd, -⟩, hv⟩ := h
      exact hloops ⟨inner, outer, y, _, hocc, hy, hd.append hv⟩ l hend hfirst t hbegin
  · rw [followSet_incomplete hs]
    exact h.inside_or_open hw ht hl hp

/-! ### A loop in a loop -/

/-- A loop in a loop, before the tokens are registered: `( x (a)* )* y`. -/
def nestedLoopsUnchecked : Grammar :=
  { Grammar.new {} with
    lexicon := { (Grammar.new {}).lexicon with
      patterns := #[{ givenLabel := "EOF", ordinal := some 0, tree := some .endOfInput },
        { givenLabel := "", tree := some (.text "x"), production := some 0 },
        { givenLabel := "", tree := some (.text "a"), production := some 1 },
        { givenLabel := "", tree := some (.text "y"), production := some 2 }]
      tokenProductions := #[
        { lexicalStates := [defaultLexicalState], explicit := false
          entries := [{ pattern := 1 }] },
        { lexicalStates := [defaultLexicalState], explicit := false
          entries := [{ pattern := 2 }] },
        { lexicalStates := [defaultLexicalState], explicit := false
          entries := [{ pattern := 3 }] }] }
    nodes := #[{ shape := .terminal 1, parent := .expansion 3 },
      { shape := .terminal 2, parent := .expansion 2 },
      { shape := .zeroOrMore 1, parent := .expansion 3 },
      { shape := .sequence [0, 2], parent := .expansion 4 },
      { shape := .zeroOrMore 3, parent := .expansion 6 },
      { shape := .terminal 3, parent := .expansion 6 },
      { shape := .sequence [4, 5], parent := .production 0 }]
    productions := #[{ name := "P", root := 6 }] }

/-- A loop in a loop: `( x (a)* )* y`. The tokens are numbered from 1. -/
def nestedLoops : Grammar := nestedLoopsUnchecked.check

/-- The builder makes `nestedLoopsUnchecked`. -/
theorem nestedLoopsUnchecked_built : nestedLoopsUnchecked.Built :=
  (Built.new {}).step (.addLiteral "x" rfl)
    |>.step (.addLiteral "a" rfl)
    |>.step (.addNode (.zeroOrMore 1) rfl)
    |>.step (.addNode (.sequence [0, 2]) rfl)
    |>.step (.addNode (.zeroOrMore 3) rfl)
    |>.step (.addLiteral "y" rfl)
    |>.step (.addNode (.sequence [4, 5]) rfl)
    |>.step (.addProduction "P" 6 rfl)

/-- The builder and the checks make `nestedLoops`. -/
theorem nestedLoops_developed : nestedLoops.Developed := by
  obtain ⟨options, h⟩ := nestedLoopsUnchecked_built.developed
  exact ⟨options, h.tail (.inr (.check _))⟩

/-- The expansions of `nestedLoops` are trees. -/
theorem nestedLoops_treeShaped : nestedLoops.TreeShaped := by
  unfold TreeShaped
  decide

/-- No node of `nestedLoops` has a lookahead. -/
theorem nestedLoops_noLookaheads : nestedLoops.NoLookaheads
  | 0 | 1 | 2 | 3 | 4 | 5 | 6 | _ + 7 => rfl

/-- The patterns of the terminals are registered, so they exist. -/
theorem nestedLoops_registered : ∀ e pattern, nestedLoops.shape e = .terminal pattern →
    ∃ ordinal, (nestedLoops.lexicon.pattern pattern).ordinal = some ordinal
  | 0, _, h | 1, _, h | 5, _, h => by cases h; exact ⟨_, rfl⟩
  | 2, _, h | 3, _, h | 4, _, h | 6, _, h | _ + 7, _, h => nomatch h

/-- The patterns of the terminals of `nestedLoops` exist. -/
theorem nestedLoops_patternsExist : nestedLoops.PatternsExist
  | 0, _, h | 1, _, h | 5, _, h => by cases h; decide
  | 2, _, h | 3, _, h | 4, _, h | 6, _, h | _ + 7, _, h => nomatch h

/-- Which tokens the follow set of `a` has to have, in `( x (a)* )* y`. -/
theorem followSet_complete_iff_nestedLoops :
    nestedLoops.Developed ∧ nestedLoops.TreeShaped ∧ nestedLoops.NoLookaheads ∧
      nestedLoops.PatternsExist ∧ nestedLoops.Remembers nestedLoops.memory ∧
      0 < nestedLoops.productions.size ∧
      ∃ s m', nestedLoops.followSet 1 nestedLoops.memory = .ok (s, m') ∧
        ((∀ t, nestedLoops.FollowedInside (nestedLoops.root 0) 1 t → t ∈ s) ↔
          (nestedLoops.Appears (nestedLoops.root 0) 1 → ∀ l, nestedLoops.Ends 1 l →
            nestedLoops.firstLoopAncestor 1 ≠ some l → ∀ t, nestedLoops.Begins [l] t → t ∈ s)) ∧
        (∀ t, nestedLoops.Followed (nestedLoops.root 0) 1 t →
          nestedLoops.FollowedInside (nestedLoops.root 0) 1 t ∨ s.incomplete = true) :=
  ⟨nestedLoops_developed, nestedLoops_treeShaped, nestedLoops_noLookaheads,
    nestedLoops_patternsExist, .refl, by decide,
    followSet_complete_iff nestedLoops_developed nestedLoops_treeShaped nestedLoops_noLookaheads
      nestedLoops_patternsExist .refl (by decide) 1⟩

/-- **A follow set with a token missing.** In `( x (a)* )* y`, the token `x` can follow `a`: the
inner loop ends, and the outer loop goes on. The follow set of `a` has no `x`, and it is not
marked incomplete. -/
theorem nestedLoops_followSet :
    nestedLoops.Developed ∧ nestedLoops.TreeShaped ∧ nestedLoops.NoLookaheads ∧
      (∀ e name, nestedLoops.shape e = .nonTerminal name →
        ∃ p, nestedLoops.productionNamed name = some p) ∧
      (∀ e pattern, nestedLoops.shape e = .terminal pattern →
        ∃ ordinal, (nestedLoops.lexicon.pattern pattern).ordinal = some ordinal) ∧
      nestedLoops.Followed (nestedLoops.root 0) 1 1 ∧
      ∃ s m', nestedLoops.followSet 1 nestedLoops.memory = .ok (s, m') ∧
        1 ∉ s ∧ s.incomplete = false := by
  have h4 : nestedLoops.Occurs 6 4 ([5] ++ []) [] :=
    .operand .root rfl (.sequence rfl : nestedLoops.Expands [] 6 ([] ++ 4 :: [5])) .nil
  have h3 : nestedLoops.Occurs 6 3 ([4] ++ [5]) [] :=
    .operand h4 rfl (.again rfl : nestedLoops.Expands [] 4 ([] ++ 3 :: [4])) .nil
  have h2 : nestedLoops.Occurs 6 2 ([] ++ [4, 5]) [] :=
    .operand h3 rfl (.sequence rfl : nestedLoops.Expands [] 3 ([0] ++ 2 :: []))
      (.terminal rfl .nil)
  have h1 : nestedLoops.Occurs 6 1 ([2] ++ [4, 5]) [] :=
    .operand h2 rfl (.again rfl : nestedLoops.Expands [] 2 ([] ++ 1 :: [2])) .nil
  -- the inner loop stops, and the outer one goes round once more
  have hbegin : nestedLoops.Begins [2, 4, 5] 1 :=
    ⟨1, [3], .expand (.stop rfl) (.expand (.again rfl) (.expand (.sequence rfl) (.terminal rfl
      (.expand (.stop rfl) (.expand (.stop rfl) (.terminal rfl .nil)))))), rfl⟩
  refine ⟨nestedLoops_developed, nestedLoops_treeShaped, nestedLoops_noLookaheads, ?_,
    nestedLoops_registered, ⟨_, _, [2], h1, .terminal rfl .nil, hbegin⟩, _, _, rfl, ?_, rfl⟩
  · exact fun
      | 0, _, h | 1, _, h | 2, _, h | 3, _, h | 4, _, h | 5, _, h | 6, _, h | _ + 7, _, h =>
        nomatch h
  · decide

end Grammar

end GrammarAnalysis
