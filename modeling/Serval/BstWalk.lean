import Serval.BstTraversal
import Serval.BstRefinement

/-! # A function that releases nodes, applied to the whole tree

The function may look at anything and keep a state of its own. The calls are recorded.
-/
namespace BstWalk

open BstModel BstLayout BstRelease BstTraversal List Finmap BstRefinement BstRefinement.Counterexample Option

variable {α τ : Type}

structure Call where
  node : Ptr
  released : Bool
  ret : ℕ
  deriving DecidableEq

structure Walker (α τ : Type) where
  tree : Bst α
  arg : τ
  calls : List Call

abbrev Func (α τ : Type) := τ → Bst α → Ptr → τ × Bool × ℕ

def callback (func : Func α τ) (s : Walker α τ) (n : Ptr) : Option (Walker α τ × ℤ) := do
  let (arg, released, ret) := func s.arg s.tree n
  let tree ← if released then bstNodeRelease s.tree n else some s.tree
  return (⟨tree, arg, ⟨n, released, ret⟩ :: s.calls⟩, ret)

/-- The calls `new` are made on the active nodes of `P`, once on each; the nodes that they release are gone
from the map, and no other. -/
structure Calls (pos pos' : List Bool → Option Ptr) (M M' : BitMap α) (P : List Bool → Prop) (new : List Call) :
    Prop where
  once : ∃ qs : List (List Bool), qs.Nodup ∧ (∀ q, q ∈ qs ↔ P q ∧ q ∈ M) ∧ new.map (fun c => some c.node) = qs.map pos
  map : ∀ q, M'.lookup q = if ∃ c ∈ new, pos q = some c.node ∧ c.released = true then none else M.lookup q
  shrinks : ∀ q, pos' q = pos q ∨ pos' q = none

variable {func : Func α τ} {pos pos₁ pos' : List Bool → Option Ptr} {M M₁ M' : BitMap α} {P P₁ : List Bool → Prop}
  {new : List Call} {p : List Bool}

theorem Calls.skip (hp : p ∉ M) (hP : ∀ q, q ∈ M → (P₁ q ↔ P q ∧ q ≠ p)) (h : Calls pos pos' M M' P₁ new) :
    Calls pos pos' M M' P new := by
  obtain ⟨qs, hnodup, hmem, hnodes⟩ := h.once
  refine ⟨⟨qs, hnodup, fun q => ?_, hnodes⟩, h.map, h.shrinks⟩
  rw [hmem]
  constructor
  · rintro ⟨hq, hM⟩
    exact ⟨((hP q hM).mp hq).1, hM⟩
  · rintro ⟨hq, hM⟩
    exact ⟨(hP q hM).mpr ⟨hq, fun he => hp (he ▸ hM)⟩, hM⟩

theorem Calls.cons {c : Call} (hinj : ∀ p q a, pos p = some a → pos q = some a → p = q) (hc : pos p = some c.node)
    (hp : p ∈ M) (hPp : P p) (hP : ∀ q, q ∈ M → (P₁ q ↔ P q ∧ q ≠ p)) (hkeep : ∀ q, P₁ q → pos₁ q = pos q)
    (hshrinks : ∀ q, pos₁ q = pos q ∨ pos₁ q = none)
    (hM₁ : ∀ q, M₁.lookup q = if q = p ∧ c.released = true then none else M.lookup q)
    (h : Calls pos₁ pos' M₁ M' P₁ new) : Calls pos pos' M M' P (c :: new) := by
  obtain ⟨qs, hnodup, hmem, hnodes⟩ := h.once
  have hsame : ∀ q, P₁ q → q ∈ M → q ∈ M₁ := by
    intro q hq hM
    obtain ⟨v, hv⟩ := mem_iff.mp hM
    have hne : q ≠ p := ((hP q hM).mp hq).2
    exact mem_of_lookup_eq_some (by rw [hM₁, if_neg (fun hb => hne hb.1), hv])
  have hsub : ∀ q, q ∈ M₁ → q ∈ M := by
    intro q hq
    obtain ⟨v, hv⟩ := mem_iff.mp hq
    rw [hM₁] at hv
    split at hv
    · cases hv
    · exact mem_of_lookup_eq_some hv
  have hqs : ∀ q, q ∈ qs ↔ P₁ q ∧ q ∈ M := by
    intro q
    rw [hmem]
    exact ⟨fun hq => ⟨hq.1, hsub q hq.2⟩, fun hq => ⟨hq.1, hsame q hq.1 hq.2⟩⟩
  have hnodes' : new.map (fun c => some c.node) = qs.map pos := by
    rw [hnodes]
    exact map_congr_left fun q hq => hkeep q ((hqs q).mp hq).1
  refine ⟨⟨p :: qs, nodup_cons.mpr ⟨?_, hnodup⟩, ?_, by rw [map_cons, map_cons, hnodes', hc]⟩, ?_, ?_⟩
  · intro hpq
    exact ((hP p hp).mp ((hqs p).mp hpq).1).2 rfl
  · intro q
    rw [mem_cons, hqs]
    constructor
    · rintro (rfl | ⟨hq, hM⟩)
      · exact ⟨hPp, hp⟩
      · exact ⟨((hP q hM).mp hq).1, hM⟩
    · rintro ⟨hq, hM⟩
      by_cases hqp : q = p
      · exact .inl hqp
      · exact .inr ⟨(hP q hM).mpr ⟨hq, hqp⟩, hM⟩
  · intro q
    have hold : (∃ c' ∈ new, pos₁ q = some c'.node ∧ c'.released = true) ↔
        ∃ c' ∈ new, pos q = some c'.node ∧ c'.released = true := by
      constructor
      · rintro ⟨c', hc', hq, hrel⟩
        refine ⟨c', hc', ?_, hrel⟩
        rcases hshrinks q with heq | hnone
        · rw [← heq, hq]
        · rw [hnone] at hq
          cases hq
      · rintro ⟨c', hc', hq, hrel⟩
        -- the call was on a node below the stack, which is still where it was
        have hmem' : some c'.node ∈ qs.map pos := by
          rw [← hnodes']
          exact mem_map.mpr ⟨c', hc', rfl⟩
        obtain ⟨q', hq', hnode⟩ := mem_map.mp hmem'
        obtain rfl := hinj _ _ _ hq hnode
        exact ⟨c', hc', (hkeep q ((hqs q).mp hq').1).trans hq, hrel⟩
    have hself : pos q = some c.node ∧ c.released = true ↔ q = p ∧ c.released = true := by
      refine and_congr_left fun _ => ⟨fun hq => hinj _ _ _ hq hc, ?_⟩
      rintro rfl
      exact hc
    rw [h.map, hM₁]
    simp only [hold, exists_mem_cons_iff, hself]
    by_cases hnew : ∃ c' ∈ new, pos q = some c'.node ∧ c'.released = true
    · rw [if_pos hnew, if_pos (.inr hnew)]
    · simp [hnew]
  · intro q
    rcases h.shrinks q with heq | hnone
    · rcases hshrinks q with heq' | hnone'
      · exact .inl (heq.trans heq')
      · exact .inr (heq.trans hnone')
    · exact .inr hnone

def SparesRoot (func : Func α τ) (s : Walker α τ) (pos : List Bool → Option Ptr) (M : BitMap α) : Prop :=
  ∀ n, pos [] = some n → [] ∈ M → pos [false] = none → pos [true] = none → (func s.arg s.tree n).2.1 = false

theorem callback_spec {s : Walker α τ} (h : Represents s.tree pos M) {n : Ptr} (hn : pos p = some n) (hp : p ∈ M)
    (hroot : p = [] → SparesRoot func s pos M) :
    ∃ s' pos' M' c, callback func s n = some (s', (c.ret : ℤ)) ∧ c.node = n ∧ s'.calls = c :: s.calls ∧
      Represents s'.tree pos' M' ∧ Pruned pos pos' p ∧
      ∀ q, M'.lookup q = if q = p ∧ c.released = true then none else M.lookup q := by
  rcases hfunc : func s.arg s.tree n with ⟨arg, released, ret⟩
  cases released with
  | false =>
    refine ⟨⟨s.tree, arg, ⟨n, false, ret⟩ :: s.calls⟩, pos, M, ⟨n, false, ret⟩, ?_, rfl, rfl, h, Pruned.refl pos p, ?_⟩
    · simp [callback, hfunc]
    · simp
  | true =>
    have hsafe : Releasable pos p := by
      rintro rfl
      by_contra hchild
      rw [not_or, not_not, not_not] at hchild
      have hno := hroot rfl n hn hp hchild.1 hchild.2
      rw [hfunc] at hno
      cases hno
    obtain ⟨t', pos', hrel, hrep, hpruned, -⟩ := release_spec h hn hp hsafe
    refine ⟨⟨t', arg, ⟨n, true, ret⟩ :: s.calls⟩, pos', M.erase p, ⟨n, true, ret⟩, ?_, rfl, rfl, hrep, hpruned, ?_⟩
    · simp [callback, hfunc, hrel]
    · intro q
      by_cases hq : q = p
      · subst hq
        simp
      · simp [hq, lookup_erase_ne]

theorem walk_spec (func : Func α τ) (F : Finset (List Bool)) (fuel : ℕ) :
    ∀ (s : Walker α τ) (pos : List Bool → Option Ptr) (M : BitMap α) (ps : List (List Bool)) (stack :
    List Ptr) (count : ℤ),
      Represents s.tree pos M → ps.Pairwise Apart → Stacked pos ps stack → (∀ q, Below ps q → (q ∈ F ↔ pos q ≠ none)) →
      (F.filter (Below ps)).card < fuel → ([] ∈ ps → SparesRoot func s pos M) →
      ∃ s' pos' M' new, bstSubtreeFunc Walker.tree (callback func) fuel s stack count =
          some (s', count + (new.map fun c => (c.ret : ℤ)).sum) ∧ s'.calls = new.reverse ++ s.calls ∧
        Represents s'.tree pos' M' ∧ Calls pos pos' M M' (Below ps) new := by
  induction fuel with
  | zero =>
    intro s pos M ps stack count _ _ _ _ hlt
    omega
  | succ fuel ih =>
    intro s pos M ps stack count hrep hapart hstack hF hlt hroot
    cases hstack with
    | nil =>
      refine ⟨s, pos, M, [], by simp [bstSubtreeFunc], rfl, hrep, ⟨[], nodup_nil, ?_, rfl⟩, ?_, fun _ => .inl rfl⟩
      · simp [Below]
      · simp
    | @cons p n rest stack hp hstack =>
      obtain ⟨nd, hn, hok, hl⟩ := hrep.node_lookup hp
      have hself : Below (p :: rest) p := ⟨p, by simp, prefix_rfl⟩
      have hpF : p ∈ F.filter (Below (p :: rest)) := Finset.mem_filter.mpr ⟨(hF p hself).mpr (by simp [hp]), hself⟩
      have hcard : (F.filter (Below (kids pos p ++ rest))).card < fuel := by
        rw [pending_kids hrep.toLayout hapart hF, Finset.card_erase_of_mem hpF]
        have := Finset.card_pos.mpr ⟨p, hpF⟩
        omega
      have hP : ∀ q, q ∈ M → (Below (kids pos p ++ rest) q ↔ Below (p :: rest) q ∧ q ≠ p) := by
        intro q hq
        obtain ⟨v, hv⟩ := mem_iff.mp hq
        obtain ⟨m, -, hm, -⟩ := hrep.bound_node hv
        exact below_kids hrep.toLayout hapart (by simp [hm])
      have hnil : [] ∉ kids pos p ++ rest := fun hmem =>
        below_ne_nil hapart ⟨[], hmem, prefix_rfl⟩ rfl
      cases hpriv : nd.priv with
      | none =>
        have hidle : p ∉ M := lookup_eq_none.mp (hl.trans hpriv)
        obtain ⟨s', pos', M', new, hrun, hcalls, hrep', hnew⟩ := ih s pos M (kids pos p ++ rest)
          (nd.left.toList ++ nd.right.toList ++ stack) count hrep (kids_apart pos hapart) (stacked_kids hok hstack)
          (fun q hq => hF q (below_of_kids hq)) hcard (fun hmem => absurd hmem hnil)
        refine ⟨s', pos', M', new, ?_, hcalls, hrep', hnew.skip hidle hP⟩
        rw [← hrun, bstSubtreeFunc]
        simp [hn, bstSubtreeVisit, hpriv]
      | some v =>
        have hactive : p ∈ M := mem_of_lookup_eq_some (hl.trans hpriv)
        obtain ⟨s₁, pos₁, M₁, c, hcall, hnode, hcalls₁, hrep₁, hpruned, hM₁⟩ :=
          callback_spec hrep hp hactive (fun he => hroot (by simp [he]))
        have hkeep : ∀ q, Below (kids pos p ++ rest) q → pos₁ q = pos q :=
          fun q hq => hpruned.elsewhere q (below_off_path hapart hq)
        obtain ⟨s', pos', M', new, hrun, hcalls, hrep', hnew⟩ := ih s₁ pos₁ M₁ (kids pos p ++ rest)
          (nd.left.toList ++ nd.right.toList ++ stack) (count + c.ret) hrep₁ (kids_apart pos hapart)
          ((stacked_kids hok hstack).congr fun q hq => hkeep q ⟨q, hq, prefix_rfl⟩)
          (fun q hq => by rw [hkeep q hq]; exact hF q (below_of_kids hq)) hcard (fun hmem => absurd hmem hnil)
        refine ⟨s', pos', M', c :: new, ?_, ?_, hrep',
          hnew.cons hrep.inj (hp.trans (congrArg some hnode.symm)) hactive hself hP hkeep hpruned.shrinks hM₁⟩
        · have hnonneg : ¬ (c.ret : ℤ) < 0 := by omega
          rw [map_cons, sum_cons, ← add_assoc, ← hrun, bstSubtreeFunc]
          simp only [hn, bind_eq_bind, bind_some, bstSubtreeVisit, hpriv, isSome_some, if_true, hcall,
            hnonneg, if_false]
        · rw [hcalls, hcalls₁, reverse_cons, append_assoc]
          rfl

/-- An active root without children is released before anything else is called. -/
theorem walk_undefined {s : Walker α τ} (h : Represents s.tree pos M) {r : Ptr} (hr : pos [] = some r)
    (hroot : ¬ SparesRoot func s pos M) (fuel : ℕ) (count : ℤ) :
    bstSubtreeFunc Walker.tree (callback func) fuel s [r] count = none := by
  simp only [SparesRoot, not_forall, Bool.not_eq_false] at hroot
  obtain ⟨n, hn, hM, h0, h1, hrel⟩ := hroot
  cases hr.symm.trans hn
  obtain ⟨v, hv⟩ := mem_iff.mp hM
  obtain ⟨nd, hnd, -, hl⟩ := h.node_lookup hn
  have hcall : callback func s r = none := by simp [callback, hrel, release_childless_root h hn hM h0 h1]
  cases fuel with
  | zero => rfl
  | succ fuel => simp [bstSubtreeFunc, hnd, bstSubtreeVisit, hl.symm.trans hv, hcall]

/-- The function is called once on every node that was active at the start, and on no other, and the sum of its
results is returned. Afterwards the active nodes are those that it has not released, where they were. All this if and
only if it does not release a root without children. -/
theorem subtree_calls_once {t : Bst α} (h : Represents t pos M) (func : Func α τ) (arg : τ) {r : Ptr}
    (hr : t.root = some r) :
    (∃ (s' : Walker α τ) (qs : List (List Bool)),
      bstSubtreeFunc Walker.tree (callback func) (t.brk + 1) ⟨t, arg, []⟩ [r] 0 =
          some (s', (s'.calls.map fun c => (c.ret : ℤ)).sum) ∧
        qs.Nodup ∧ (∀ q, q ∈ qs ↔ q ∈ M) ∧ (s'.calls.reverse.map fun c => some c.node) = qs.map pos ∧
        ∃ pos' M', Represents s'.tree pos' M' ∧
          (∀ q, q ∈ M' ↔ q ∈ M ∧ ¬ ∃ c ∈ s'.calls, pos q = some c.node ∧ c.released = true) ∧
          ∀ q ∈ M', pos' q = pos q ∧ M'.lookup q = M.lookup q) ↔ SparesRoot func ⟨t, arg, []⟩ pos M := by
  constructor
  · rintro ⟨s', -, hrun, -⟩
    by_contra hroot
    rw [@walk_undefined _ _ func pos M ⟨t, arg, []⟩ h r (h.root ▸ hr) hroot] at hrun
    cases hrun
  intro hroot
  obtain ⟨F, hF, hcard⟩ := exists_nodes h.toLayout
  have hlt : (F.filter (Below [[]])).card < t.brk + 1 :=
    Nat.lt_succ_of_le ((Finset.card_filter_le _ _).trans hcard)
  obtain ⟨s', pos', M', new, hrun, hcalls, hrep', hnew⟩ := walk_spec func F (t.brk + 1) ⟨t, arg, []⟩ pos M [[]] [r] 0 h
    (pairwise_singleton _ _) (.cons (h.root ▸ hr) .nil) (fun q _ => hF q) hlt (fun _ => hroot)
  have hrev : s'.calls = new.reverse := by rw [hcalls, append_nil]
  obtain ⟨qs, hnodup, hmem, hnodes⟩ := hnew.once
  refine ⟨s', qs, ?_, hnodup, ?_, ?_, pos', M', hrep', ?_, ?_⟩
  · rw [hrun, zero_add, hrev, map_reverse, sum_reverse]
  · intro q
    rw [hmem]
    exact and_iff_right ⟨[], by simp, List.nil_prefix⟩
  · rw [hrev, reverse_reverse, hnodes]
  · intro q
    simp only [hrev, mem_reverse]
    rw [mem_iff, mem_iff, hnew.map]
    by_cases hrel : ∃ c ∈ new, pos q = some c.node ∧ c.released = true
    · rw [if_pos hrel]
      simp [hrel]
    · rw [if_neg hrel, and_iff_left hrel]
  · intro q hq
    obtain ⟨v, hv⟩ := mem_iff.mp hq
    constructor
    · rcases hnew.shrinks q with heq | hnone
      · exact heq
      · obtain ⟨n, -, hn, -⟩ := hrep'.bound_node hv
        rw [hnone] at hn
        cases hn
    · rw [hnew.map] at hv ⊢
      split at hv
      · cases hv
      next hrel => rw [if_neg hrel]

namespace Sample

def releaseAll : Func ℕ Unit := fun _ _ _ => ((), true, 1)

end Sample

open Sample BstRefinement.Counterexample in
/-- Both entries are released: the default service, which still has a child then, and after it the child. -/
theorem subtree_calls_once_both :
    ∃ s' qs, bstSubtreeFunc Walker.tree (callback releaseAll) (both.brk + 1) ⟨both, (), []⟩ [0] 0 =
        some (s', (s'.calls.map fun c => (c.ret : ℤ)).sum) ∧
      List.Nodup qs ∧ ∀ q, q ∈ qs ↔ q ∈ bothMap := by
  obtain ⟨pos, hrep⟩ := BstRefinement.reachable_represents both_reachable
  have hspares : SparesRoot releaseAll ⟨both, (), []⟩ pos bothMap := by
    intro n _ _ _ hchild
    rw [← hrep.nodeAt_eq] at hchild
    cases hchild
  obtain ⟨s', qs, hrun, hnodup, hmem, -⟩ := (subtree_calls_once hrep releaseAll () rfl).mpr hspares
  exact ⟨s', qs, hrun, hnodup, hmem⟩

open Sample BstRefinement.Counterexample in
/-- With the default service alone the release has no outcome: it goes on from the freed root. -/
theorem release_only_root_undefined :
    (∃ pos, Represents onlyDefault pos defaultMap) ∧ callback releaseAll ⟨onlyDefault, (), []⟩ 0 = none ∧
      ∀ fuel, bstSubtreeFunc Walker.tree (callback releaseAll) fuel ⟨onlyDefault, (), []⟩ [0] 0 = none := by
  refine ⟨BstRefinement.reachable_represents onlyDefault_reachable, rfl, fun fuel => ?_⟩
  cases fuel with
  | zero | succ fuel => rfl

end BstWalk
