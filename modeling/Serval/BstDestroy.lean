import Serval.BstWalk

/-! # Destruction of the whole tree

The loop has no stack: a left child is moved to the right once the right side is gone, and the loop climbs by the parent
pointers.
-/
namespace BstDestroy

open BstModel BstLayout BstTraversal List Option Function

variable {α : Type}

/-- The loop of `__bst_destroy_subtree`, from the node `n`. -/
def bstDestroySubtree (root : Ptr) : ℕ → Bst α → Ptr → Option (Bst α)
  | 0, _, _ => none
  | fuel + 1, t, n => do
    let nd ← t.heap n
    if n = root ∧ nd.left = none ∧ nd.right = none then
      let t ← bstNodeOrphan t n
      bstNodeFree t n
    else
      match nd.right, nd.left with
      | none, none =>
        let parent := nd.parent
        let t ← bstNodeOrphan t n
        let t ← bstNodeFree t n
        bstDestroySubtree root fuel t parent
      | none, some l => bstDestroySubtree root fuel (t.write n { nd with right := some l, left := none }) n
      | some r, _ => bstDestroySubtree root fuel t r

/-- A node is passed at most three times: on the way down, to move its left child, and to free it. -/
def bstDestroy (t : Bst α) : Option (Bst α) :=
  match t.root with
  | some r =>
    if t.entries > 0 then do
      let t ← bstDestroySubtree r (3 * t.brk) t r
      return { t with root := none, entries := 0 }
    else some t
  | none => some t

inductive Tree (α : Type) where
  | nil
  | node (n : Ptr) (nd : BstNode α) (l r : Tree α)

namespace Tree

def nodes : Tree α → List Ptr
  | nil => []
  | node n _ l r => n :: (l.nodes ++ r.nodes)

def logged (n : Ptr) (nd : BstNode α) : List (Ptr × α) :=
  match nd.priv, nd.ops with
  | some a, some ops => if ops.destroy then [(n, a)] else []
  | _, _ => []

/-- The calls of the destroy callback, latest first: the right side, the left side, and the node itself. -/
def log : Tree α → List (Ptr × α)
  | nil => []
  | node n nd l r => logged n nd ++ (l.log ++ r.log)

def discount (e : UInt32) (nd : BstNode α) : UInt32 := if nd.priv.isSome then e - 1 else e

def entries (e : UInt32) : Tree α → UInt32
  | nil => e
  | node _ nd l r => discount (l.entries (r.entries e)) nd

def Owns (heap : Ptr → Option (BstNode α)) : Tree α → Ptr → Option Ptr → Prop
  | nil, _, link => link = none
  | node n nd l r, parent, link => link = some n ∧ heap n = some nd ∧ nd.parent = parent ∧
      l.Owns heap n nd.left ∧ r.Owns heap n nd.right

theorem Owns.congr {heap heap' : Ptr → Option (BstNode α)} {T : Tree α} {parent : Ptr} {link : Option Ptr}
    (h : T.Owns heap parent link) (hsame : ∀ a ∈ T.nodes, heap' a = heap a) : T.Owns heap' parent link := by
  induction T generalizing parent link with
  | nil => exact h
  | node n nd l r ihl ihr =>
    obtain ⟨hlink, hn, hpar, hl, hr⟩ := h
    refine ⟨hlink, (hsame n (by simp [nodes])).trans hn, hpar, ihl hl ?_, ihr hr ?_⟩
    · intro a ha
      exact hsame a (by simp [nodes, ha])
    · intro a ha
      exact hsame a (by simp [nodes, ha])

def Due (heap : Ptr → Option (BstNode α)) (a : Ptr) (v : α) : Prop :=
  ∃ nd ops, heap a = some nd ∧ nd.priv = some v ∧ nd.ops = some ops ∧ ops.destroy = true

variable {heap : Ptr → Option (BstNode α)}

theorem mem_logged {n a : Ptr} {nd : BstNode α} {v : α} (hn : heap n = some nd) :
    (a, v) ∈ logged n nd ↔ a = n ∧ Due heap a v := by
  constructor
  · intro h
    unfold logged at h
    split at h
    next w ops hpriv hops =>
      split at h
      next hdestroy =>
        cases mem_singleton.mp h
        exact ⟨rfl, nd, ops, hn, hpriv, hops, hdestroy⟩
      · cases h
    · cases h
  · rintro ⟨rfl, nd', ops, hn', hpriv, hops, hdestroy⟩
    cases hn.symm.trans hn'
    simp [logged, hpriv, hops, hdestroy]

theorem Owns.mem_log {T : Tree α} {parent : Ptr} {link : Option Ptr}
    (h : T.Owns heap parent link) (a : Ptr) (v : α) : (a, v) ∈ T.log ↔ a ∈ T.nodes ∧ Due heap a v := by
  induction T generalizing parent link with
  | nil => simp [log, nodes]
  | node n nd l r ihl ihr =>
    obtain ⟨-, hn, -, hl, hr⟩ := h
    rw [log, nodes, mem_append, mem_append, mem_cons, mem_append, mem_logged hn, ihl hl, ihr hr,
      or_and_right, or_and_right]

theorem log_sublist (T : Tree α) : (T.log.map Prod.fst).Sublist T.nodes := by
  induction T with
  | nil => exact .slnil
  | node n nd l r ihl ihr =>
    have hself : ((logged n nd).map Prod.fst).Sublist [n] := by
      unfold logged
      split
      · split
        · exact .refl [n]
        · exact nil_sublist _
      · exact nil_sublist _
    rw [log, nodes, map_append, map_append]
    exact hself.append (ihl.append ihr)

end Tree

open BstDestroy.Tree

def cleared (t : Bst α) (T : Tree α) (n : Ptr) (nd : BstNode α) : Bst α :=
  { t with
    heap := fun a => if a ∈ T.nodes then none else if a = n then some { nd with right := none } else t.heap a
    entries := T.entries t.entries
    destroyed := T.log ++ t.destroyed }

/-- From a node whose right side is `T` the loop comes back to the node with the right side gone. -/
def Clears (root : Ptr) (T : Tree α) : Prop :=
  ∀ (t : Bst α) (n : Ptr) (nd : BstNode α), t.heap n = some nd → T.Owns t.heap n nd.right → (n :: T.nodes).Nodup →
    root ∉ T.nodes → ∃ k ≤ 3 * T.nodes.length, ∀ fuel,
      bstDestroySubtree root (fuel + k) t n = bstDestroySubtree root fuel (cleared t T n nd) n

theorem clears_nil (root : Ptr) : Clears root (nil : Tree α) := by
  intro t n nd hn hright _ _
  have hnd : { nd with right := none } = nd := by
    have : nd.right = none := hright
    rw [← this]
  have hsame : cleared t nil n nd = t := by
    have hheap : (fun a => if a = n then some nd else t.heap a) = t.heap := by
      funext a
      by_cases ha : a = n
      · rw [if_pos ha, ha, hn]
      · rw [if_neg ha]
    simp [cleared, nodes, Tree.entries, log, hnd, hheap]
  exact ⟨0, Nat.zero_le _, fun fuel => by rw [hsame]; rfl⟩

def bare (t : Bst α) (l r : Tree α) (n : Ptr) (nd : BstNode α) : Bst α :=
  { t with
    heap := fun a => if a ∈ l.nodes ++ r.nodes then none
      else if a = n then some { nd with left := none, right := none } else t.heap a
    entries := l.entries (r.entries t.entries)
    destroyed := l.log ++ (r.log ++ t.destroyed) }

theorem left_moved {t : Bst α} {root n : Ptr} {nd : BstNode α} (hn : t.heap n = some { nd with right := none }) :
    ∃ k ≤ 1, ∀ fuel, bstDestroySubtree root (fuel + k) t n =
      bstDestroySubtree root fuel (t.write n { nd with right := nd.left, left := none }) n := by
  cases hleft : nd.left with
  | none =>
    have hsame : t.write n { nd with right := none, left := none } = t := by
      have hnd : { nd with right := none, left := none } = { nd with right := none } := by rw [← hleft]
      rw [Bst.write, hnd, ← hn, update_eq_self]
    exact ⟨0, Nat.zero_le _, fun fuel => by rw [hsame]; rfl⟩
  | some l =>
    refine ⟨1, le_rfl, fun fuel => ?_⟩
    rw [bstDestroySubtree]
    simp [hn, hleft]

variable {t : Bst α} {root n : Ptr} {nd : BstNode α} {l r : Tree α}

theorem children_cleared (hcl : Clears root l) (hcr : Clears root r) (hn : t.heap n = some nd)
    (hl : l.Owns t.heap n nd.left) (hr : r.Owns t.heap n nd.right) (hnodup : (n :: (l.nodes ++ r.nodes)).Nodup)
    (hroot : root ∉ l.nodes ++ r.nodes) :
    ∃ k ≤ 3 * (l.nodes ++ r.nodes).length + 1, ∀ fuel,
      bstDestroySubtree root (fuel + k) t n = bstDestroySubtree root fuel (bare t l r n nd) n := by
  obtain ⟨hnmem, hlr⟩ := nodup_cons.mp hnodup
  obtain ⟨hnl, hnr⟩ := not_or.mp (mem_append.not.mp hnmem)
  obtain ⟨hndl, hndr, hdisj⟩ := nodup_append.mp hlr
  obtain ⟨hrootl, hrootr⟩ := not_or.mp (mem_append.not.mp hroot)
  obtain ⟨k₁, hk₁, h₁⟩ := hcr t n nd hn hr (nodup_cons.mpr ⟨hnr, hndr⟩) hrootr
  have hn₁ : (cleared t r n nd).heap n = some { nd with right := none } := by simp [cleared, hnr]
  obtain ⟨k₂, hk₂, h₂⟩ := @left_moved _ _ root _ _ hn₁
  have hl₂ : l.Owns ((cleared t r n nd).write n { nd with right := nd.left, left := none }).heap n nd.left := by
    refine hl.congr fun a ha => ?_
    have han : a ≠ n := fun he => hnl (he ▸ ha)
    have har : a ∉ r.nodes := fun hmem => hdisj a ha a hmem rfl
    simp [Bst.write, cleared, han, har]
  obtain ⟨k₃, hk₃, h₃⟩ := hcl ((cleared t r n nd).write n { nd with right := nd.left, left := none }) n
    { nd with right := nd.left, left := none } (by simp [Bst.write]) hl₂ (nodup_cons.mpr ⟨hnl, hndl⟩) hrootl
  have hbare : cleared ((cleared t r n nd).write n { nd with right := nd.left, left := none }) l n
      { nd with right := nd.left, left := none } = bare t l r n nd := by
    have hheap : ∀ a, (cleared ((cleared t r n nd).write n { nd with right := nd.left, left := none }) l n
        { nd with right := nd.left, left := none }).heap a = (bare t l r n nd).heap a := by
      intro a
      by_cases hal : a ∈ l.nodes
      · simp [cleared, bare, hal]
      · by_cases han : a = n
        · subst han
          simp [cleared, bare, hnl, hnr]
        · simp [cleared, bare, hal, han, Bst.write]
    simp only [cleared, bare, Bst.mk.injEq] at hheap ⊢
    exact ⟨rfl, rfl, funext hheap, rfl, rfl⟩
  refine ⟨k₃ + k₂ + k₁, ?_, fun fuel => ?_⟩
  · rw [length_append]
    omega
  · rw [← add_assoc, ← add_assoc, h₁, h₂, h₃, hbare]

theorem orphan_eq (hn : t.heap n = some nd) :
    ∃ nd' : BstNode α, (nd'.parent = nd.parent ∧ nd'.left = nd.left ∧ nd'.right = nd.right) ∧
      bstNodeOrphan t n = some { t with
        heap := Function.update t.heap n (some nd')
        entries := discount t.entries nd
        destroyed := logged n nd ++ t.destroyed } := by
  cases hpriv : nd.priv with
  | none =>
    refine ⟨nd, ⟨rfl, rfl, rfl⟩, ?_⟩
    rw [← hn, update_eq_self]
    simp [bstNodeOrphan, hn, hpriv, discount, logged]
  | some a =>
    refine ⟨{ nd with ops := none, priv := none }, ⟨rfl, rfl, rfl⟩, ?_⟩
    cases hops : nd.ops with
    | none => simp [bstNodeOrphan, hn, hpriv, hops, discount, logged, Bst.write]
    | some ops =>
      cases hdestroy : ops.destroy <;> simp [bstNodeOrphan, hn, hpriv, hops, hdestroy, discount, logged, Bst.write]

def freed (t : Bst α) (n : Ptr) (nd : BstNode α) (parent : Ptr) (pd : BstNode α) : Bst α :=
  { t with
    heap := fun a => if a = n then none else if a = parent then some { pd with right := none } else t.heap a
    entries := discount t.entries nd
    destroyed := logged n nd ++ t.destroyed }

theorem child_freed {pd : BstNode α} (hn : t.heap n = some nd) (hpar : t.heap nd.parent = some pd)
    (hright : pd.right = some n) (hne : nd.parent ≠ n) :
    (bstNodeOrphan t n).bind (bstNodeFree · n) = some (freed t n nd nd.parent pd) := by
  obtain ⟨nd', ⟨hparent, -, -⟩, horphan⟩ := orphan_eq hn
  rw [horphan, Option.bind_some, bstNodeFree]
  simp only [update_self, Option.bind_eq_bind, Option.bind_some, hparent, ne_eq, hne, not_false_eq_true, if_true,
    update_of_ne hne, hpar, hright, Option.pure_def, Bst.write, freed, some.injEq, Bst.mk.injEq, and_true,
    true_and]
  funext a
  by_cases ha : a = n
  · rw [ha, update_self, if_pos rfl]
  · rw [if_neg ha, update_of_ne ha]
    by_cases hp : a = nd.parent
    · rw [hp, update_self, if_pos rfl]
    · rw [if_neg hp, update_of_ne hp, update_of_ne ha]

theorem root_freed (hn : t.heap n = some nd) (hself : nd.parent = n) :
    (bstNodeOrphan t n).bind (bstNodeFree · n) = some { t with
      root := none
      heap := Function.update t.heap n none
      entries := discount t.entries nd
      destroyed := logged n nd ++ t.destroyed } := by
  obtain ⟨nd', ⟨hparent, -, -⟩, horphan⟩ := orphan_eq hn
  rw [horphan, bind_some, bstNodeFree]
  simp [hparent, hself]

theorem clears_node {m : Ptr} {md : BstNode α} (hcl : Clears root l) (hcr : Clears root r) :
    Clears root (node m md l r) := by
  intro t n nd hn hown hnodup hroot
  obtain ⟨hlink, hm, hpar, hl, hr⟩ := hown
  obtain ⟨hnmem, hT⟩ := nodup_cons.mp hnodup
  obtain ⟨hrootm, hrootlr⟩ := not_or.mp (mem_cons.not.mp hroot)
  obtain ⟨hnm, hnlr⟩ := not_or.mp (mem_cons.not.mp hnmem)
  obtain ⟨hmlr, -⟩ := nodup_cons.mp hT
  obtain ⟨k, hk, hchildren⟩ := children_cleared hcl hcr hm hl hr hT hrootlr
  have hdown : ∀ fuel, bstDestroySubtree root (fuel + 1) t n = bstDestroySubtree root fuel t m := by
    intro fuel
    rw [bstDestroySubtree]
    simp [hn, hlink]
  have hm' : (bare t l r m md).heap m = some { md with left := none, right := none } := by
    simp only [bare, if_neg hmlr, if_true]
  have hn' : (bare t l r m md).heap md.parent = some nd := by
    rw [hpar]
    simp only [bare, if_neg hnlr, if_neg hnm, hn]
  have hup : ∀ fuel, bstDestroySubtree root (fuel + 1) (bare t l r m md) m =
      bstDestroySubtree root fuel (cleared t (node m md l r) n nd) n := by
    intro fuel
    have hfree := child_freed hm' hn' hlink (hpar ▸ hnm)
    have hsame : freed (bare t l r m md) m { md with left := none, right := none } md.parent nd =
        cleared t (node m md l r) n nd := by
      have hheap : ∀ a, (freed (bare t l r m md) m { md with left := none, right := none } md.parent nd).heap a =
          (cleared t (node m md l r) n nd).heap a := by
        intro a
        by_cases ham : a = m
        · simp [freed, cleared, nodes, ham]
        · by_cases han : a = n
          · subst han
            simp [freed, cleared, nodes, hpar, ham, mem_append.not.mp hnlr]
          · simp [freed, bare, cleared, nodes, ham, han, hpar]
      simp only [freed, bare, cleared, Bst.mk.injEq] at hheap ⊢
      refine ⟨trivial, rfl, funext hheap, trivial, ?_⟩
      simp only [log, logged, append_assoc]
    rw [← hsame, ← hpar, bstDestroySubtree]
    simp only [hm', bind_eq_bind, bind_some, Ne.symm hrootm, false_and, if_false]
    rw [← bind_assoc, hfree, bind_some]
  refine ⟨1 + k + 1, ?_, fun fuel => ?_⟩
  · simp only [nodes, length_cons]
    omega
  · rw [← add_assoc, ← add_assoc, hdown, hchildren, hup]

theorem clears (root : Ptr) (T : Tree α) : Clears root T := by
  induction T with
  | nil => exact clears_nil root
  | node m md l r ihl ihr => exact clears_node ihl ihr

theorem destroySubtree_spec (hn : t.heap n = some nd) (hself : nd.parent = n) (hl : l.Owns t.heap n nd.left)
    (hr : r.Owns t.heap n nd.right) (hnodup : (n :: (l.nodes ++ r.nodes)).Nodup) {fuel : ℕ}
    (hfuel : 3 * (n :: (l.nodes ++ r.nodes)).length ≤ fuel) :
    ∃ t', bstDestroySubtree n fuel t n = some t' ∧
      (∀ a, t'.heap a = if a ∈ n :: (l.nodes ++ r.nodes) then none else t.heap a) ∧
      t'.destroyed = (node n nd l r).log ++ t.destroyed := by
  obtain ⟨hnmem, -⟩ := nodup_cons.mp hnodup
  obtain ⟨k, hk, hchildren⟩ := children_cleared (clears n l) (clears n r) hn hl hr hnodup hnmem
  have hn' : (bare t l r n nd).heap n = some { nd with left := none, right := none } := by
    simp only [bare, if_neg hnmem, if_true]
  obtain ⟨rest, rfl⟩ : ∃ rest, fuel = rest + 1 + k := by
    rw [length_cons] at hfuel
    exact ⟨fuel - 1 - k, by omega⟩
  have hlast : bstDestroySubtree n (rest + 1 + k) t n = (bstNodeOrphan (bare t l r n nd) n).bind (bstNodeFree · n) := by
    rw [hchildren, bstDestroySubtree]
    simp only [hn', bind_eq_bind, bind_some, and_self, if_true]
  refine ⟨_, hlast.trans (root_freed hn' hself), ?_, ?_⟩
  · intro a
    by_cases ha : a = n
    · simp [ha]
    · simp [ha, bare]
  · simp only [log, logged, bare, append_assoc]

theorem prefix_cases {p q : List Bool} (h : p <+: q) : q = p ∨ ∃ b, p ++ [b] <+: q := by
  obtain ⟨s, rfl⟩ := h
  cases s with
  | nil => exact .inl (append_nil p)
  | cons b s => exact .inr ⟨b, s, by simp⟩

theorem not_child_prefix (p : List Bool) (b : Bool) : ¬ p ++ [b] <+: p := by
  intro h
  have hlen := h.length_le
  rw [length_append, length_singleton] at hlen
  omega

variable {pos : List Bool → Option Ptr} {F : Finset (List Bool)}

theorem card_child_lt (hF : ∀ q, q ∈ F ↔ pos q ≠ none) {p : List Bool} (hp : pos p ≠ none) (b : Bool) :
    (F.filter (p ++ [b] <+: ·)).card < (F.filter (p <+: ·)).card := by
  apply Finset.card_lt_card
  refine Finset.ssubset_iff_subset_ne.mpr ⟨?_, ?_⟩
  · exact Finset.monotone_filter_right F fun q _ hq => (prefix_append p [b]).trans hq
  · intro heq
    have hmem : p ∈ F.filter (p <+: ·) := Finset.mem_filter.mpr ⟨(hF p).mpr hp, prefix_rfl⟩
    rw [← heq] at hmem
    exact not_child_prefix p b (Finset.mem_filter.mp hmem).2

/-- What lies below a bit string is a tree of nodes, each of them once. By induction on their number. -/
theorem exists_tree (hl : Layout t pos) (hF : ∀ q, q ∈ F ↔ pos q ≠ none) (k : ℕ) :
    ∀ p parent, (F.filter (p <+: ·)).card = k → (pos p ≠ none → pos p.dropLast = some parent) →
      ∃ T : Tree α, T.Owns t.heap parent (pos p) ∧ T.nodes.Nodup ∧
        ∀ a, a ∈ T.nodes ↔ ∃ q, p <+: q ∧ pos q = some a := by
  induction k using Nat.strong_induction_on with
  | _ k ih =>
    intro p parent hcard hparent
    cases hp : pos p with
    | none =>
      refine ⟨nil, rfl, nodup_nil, fun a => ⟨(fun ha => by cases ha), ?_⟩⟩
      rintro ⟨q, hpq, hq⟩
      exact absurd hp (hl.prefix_some hpq (by simp [hq]))
    | some n =>
      obtain ⟨nd, hn, hok⟩ := hl.node p n hp
      have hchild : ∀ b, ∃ T : Tree α, T.Owns t.heap n (childAt nd b) ∧ T.nodes.Nodup ∧
          ∀ a, a ∈ T.nodes ↔ ∃ q, p ++ [b] <+: q ∧ pos q = some a := by
        intro b
        rw [hok.child b]
        exact ih _ (hcard ▸ card_child_lt hF (by simp [hp]) b) (p ++ [b]) n rfl (fun _ => by rw [dropLast_concat, hp])
      obtain ⟨l, hlo, hlnodup, hlmem⟩ := hchild false
      obtain ⟨r, hro, hrnodup, hrmem⟩ := hchild true
      have hpar : nd.parent = parent := by
        have := hparent (by simp [hp])
        rw [hok.parent] at this
        exact some.inj this
      have hself : ∀ b, ¬ ∃ q, p ++ [b] <+: q ∧ pos q = some n := by
        rintro b ⟨q, hpq, hq⟩
        rw [hl.inj _ _ _ hq hp] at hpq
        exact not_child_prefix p b hpq
      refine ⟨node n nd l r, ⟨rfl, hn, hpar, hlo, hro⟩, ?_, ?_⟩
      · refine nodup_cons.mpr ⟨?_, nodup_append.mpr ⟨hlnodup, hrnodup, ?_⟩⟩
        · rw [mem_append, hlmem, hrmem]
          exact not_or.mpr ⟨hself false, hself true⟩
        · rintro a ha _ hb rfl
          obtain ⟨q, hpq, hq⟩ := (hlmem a).mp ha
          obtain ⟨q', hpq', hq'⟩ := (hrmem a).mp hb
          obtain rfl := hl.inj _ _ _ hq hq'
          rcases List.prefix_or_prefix_of_prefix hpq hpq' with h | h
          · exact (apart_siblings p).1 h
          · exact (apart_siblings p).2 h
      · intro a
        simp only [nodes, mem_cons, mem_append, hlmem, hrmem]
        constructor
        · rintro (rfl | ⟨q, hpq, hq⟩ | ⟨q, hpq, hq⟩)
          · exact ⟨p, prefix_rfl, hp⟩
          · exact ⟨q, (prefix_append p _).trans hpq, hq⟩
          · exact ⟨q, (prefix_append p _).trans hpq, hq⟩
        · rintro ⟨q, hpq, hq⟩
          rcases prefix_cases hpq with rfl | ⟨b, hb⟩
          · exact .inl (some.inj (hq.symm.trans hp))
          · cases b with
            | false => exact .inr (.inl ⟨q, hb, hq⟩)
            | true => exact .inr (.inr ⟨q, hb, hq⟩)

theorem tree_of_layout (h : Layout t pos) : ∃ T : Tree α, T.Owns t.heap (t.root.getD 0) t.root ∧ T.nodes.Nodup ∧
    (∀ a, a ∈ T.nodes ↔ ∃ p, pos p = some a) ∧ T.nodes.length ≤ t.brk := by
  obtain ⟨F, hF, -⟩ := exists_nodes h
  obtain ⟨T, hown, hnodup, hmem⟩ := exists_tree h hF _ [] ((pos []).getD 0) rfl (by
    intro hroot
    obtain ⟨n, hn⟩ := ne_none_iff_exists'.mp hroot
    simp [hn])
  have hmem' : ∀ a, a ∈ T.nodes ↔ ∃ p, pos p = some a := by
    intro a
    rw [hmem]
    exact exists_congr fun p => and_iff_right List.nil_prefix
  refine ⟨T, h.root ▸ hown, hnodup, hmem', ?_⟩
  rw [← toFinset_card_of_nodup hnodup, ← Finset.card_range t.brk]
  refine Finset.card_le_card fun a ha => ?_
  obtain ⟨p, hp⟩ := (hmem' a).mp (mem_toFinset.mp ha)
  exact Finset.mem_range.mpr (h.fresh p a hp)

/-- Destroying a tree with an entry: it returns, calls the destroy callback once for every active node that has
one, frees every node, leaves all other memory alone, and the tree is empty. -/
theorem destroy_frees_all {M : BitMap α} (h : Represents t pos M) (hentries : t.entries ≠ 0) :
    ∃ t' calls, bstDestroy t = some t' ∧ t'.root = none ∧ t'.entries = 0 ∧
      (∀ p a, pos p = some a → t'.heap a = none) ∧ (∀ a, (∀ p, pos p ≠ some a) → t'.heap a = t.heap a) ∧
      t'.destroyed = calls ++ t.destroyed ∧ (calls.map Prod.fst).Nodup ∧
      ∀ a v, (a, v) ∈ calls ↔ (∃ p, pos p = some a) ∧ Due t.heap a v := by
  have hbound : ∃ p v, M.lookup p = some v := by
    by_contra hnone
    push Not at hnone
    have hempty : M = ∅ := Finmap.ext_lookup fun p => by
      rw [Finmap.lookup_empty]
      exact eq_none_iff_forall_ne_some.mpr (hnone p)
    rw [h.entries, hempty] at hentries
    exact hentries rfl
  obtain ⟨p, v, hv⟩ := hbound
  obtain ⟨m, -, hm, -⟩ := h.bound_node hv
  obtain ⟨n, hroot⟩ := ne_none_iff_exists'.mp (h.prefix_some (List.nil_prefix (l := p)) (by simp [hm]))
  obtain ⟨T, hown, hnodup, hmem', hlen⟩ := tree_of_layout h.toLayout
  rw [h.root, hroot] at hown
  cases T with
  | nil => cases hown
  | node n' nd l r =>
    have hlog := hown.mem_log
    obtain ⟨hlink, hn, hself, hl, hr⟩ := hown
    cases hlink
    obtain ⟨t', hrun, hheap, hdestroyed⟩ := @destroySubtree_spec _ _ _ _ _ _ hn hself hl hr hnodup (3 * t.brk)
      (Nat.mul_le_mul_left 3 hlen)
    have hpos : t.entries > 0 := UInt32.pos_iff_ne_zero.mpr hentries
    refine ⟨{ t' with root := none, entries := 0 }, (node n nd l r).log, ?_, rfl, rfl, ?_, ?_, hdestroyed,
      (log_sublist _).nodup hnodup, ?_⟩
    · simp only [bstDestroy, h.root, hroot, hpos, if_true, hrun, Option.bind_eq_bind, Option.bind_some, Option.pure_def]
    · intro p a hp
      exact (hheap a).trans (if_pos ((hmem' a).mpr ⟨p, hp⟩))
    · intro a ha
      exact (hheap a).trans (if_neg fun hin => by
        obtain ⟨p, hp⟩ := (hmem' a).mp hin
        exact ha p hp)
    · intro a v
      rw [hlog, hmem']

open BstRefinement.Counterexample in
/-- The default service and a child of the root. -/
theorem destroy_frees_all_both :
    both.entries ≠ 0 ∧ ∃ t' calls, bstDestroy both = some t' ∧ t'.root = none ∧ t'.entries = 0 ∧
      t'.destroyed = calls ++ both.destroyed ∧ (calls.map Prod.fst).Nodup := by
  have hentries : both.entries ≠ 0 := by decide
  obtain ⟨pos, hrep⟩ := BstRefinement.reachable_represents both_reachable
  obtain ⟨t', calls, hrun, hroot, hzero, -, -, hcalls, hnodup, -⟩ := destroy_frees_all hrep hentries
  exact ⟨hentries, t', calls, hrun, hroot, hzero, hcalls, hnodup⟩

/-- The child is destroyed before the root. -/
example : (bstDestroy BstRefinement.Counterexample.both).map Bst.destroyed = some [(0, 7), (1, 8)] := by decide

end BstDestroy
