import Serval.BstLookup
import Mathlib.Data.UInt

/-! # Insertion

`bst_node_new` extends the path of the key node by node. A failed allocation leaves a
shorter path of inactive nodes behind, which represents the same map.
-/
namespace BstInsert

open BitString BstModel BstLayout BstLookup List Option Finmap Function

variable {α : Type} {t : Bst α} {pos : List Bool → Option Ptr} {M : BitMap α}

@[simp] theorem childAt_setChild (pd : BstNode α) (b c : Bool) (n : Ptr) :
    childAt (setChild pd b n) c = if c = b then some n else childAt pd c := by
  cases b <;> cases c <;> rfl

@[simp] theorem setChild_priv (pd : BstNode α) (b : Bool) (n : Ptr) : (setChild pd b n).priv = pd.priv := by
  cases b <;> rfl
@[simp] theorem setChild_ops (pd : BstNode α) (b : Bool) (n : Ptr) : (setChild pd b n).ops = pd.ops := by
  cases b <;> rfl
@[simp] theorem setChild_parent (pd : BstNode α) (b : Bool) (n : Ptr) : (setChild pd b n).parent = pd.parent := by
  cases b <;> rfl
@[simp] theorem setChild_prefixBits (pd : BstNode α) (b : Bool) (n : Ptr) :
    (setChild pd b n).prefixBits = pd.prefixBits := by cases b <;> rfl
@[simp] theorem setChild_nodePrefix (pd : BstNode α) (b : Bool) (n : Ptr) :
    (setChild pd b n).nodePrefix = pd.nodePrefix := by cases b <;> rfl
@[simp] theorem setChild_setChild (pd : BstNode α) (b : Bool) (n : Ptr) :
    setChild (setChild pd b n) b n = setChild pd b n := by cases b <;> rfl

theorem write_self {n : Ptr} {nd : BstNode α} (h : t.heap n = some nd) : t.write n nd = t := by
  unfold Bst.write
  rw [← h, update_eq_self]

theorem bitsOf_ne_succ (key : List UInt8) (i : ℕ) : bitsOf key i ≠ bitsOf key (i + 1) := by
  intro h
  have := congrArg List.length h
  simp at this

def fresh (parent : Ptr) (key : List UInt8) (i : ℕ) : BstNode α :=
  { parent := parent, left := none, right := none, ops := none, priv := none
    prefixBits := i + 1, nodePrefix := copyPrefix key (i + 1) }

def extend (t : Bst α) (parent : Ptr) (pd : BstNode α) (key : List UInt8) (i : ℕ) : Bst α :=
  { (t.write parent (setChild pd (bitAt key i) t.brk)).write t.brk (fresh parent key i) with
    brk := t.brk + 1 }

theorem update_eq_some {q r : List Bool} {a c : Ptr} (h : update pos q (some a) r = some c) :
    r = q ∧ c = a ∨ r ≠ q ∧ pos r = some c := by
  by_cases hr : r = q
  · subst hr
    rw [update_self] at h
    exact .inl ⟨rfl, (some.inj h).symm⟩
  · rw [update_of_ne hr] at h
    exact .inr ⟨hr, h⟩

variable {p : List Bool} {bits : ℕ} {ops : Option BstNodeOps}

theorem nodeOk_setChild {pos' : List Bool → Option Ptr} {pd : BstNode α} {n : Ptr} (hok : NodeOk pos p pd) {b : Bool}
    (hb : pos' (p ++ [b]) = some n) (hc : ∀ c, c ≠ b → pos' (p ++ [c]) = pos (p ++ [c]))
    (hp : pos' p.dropLast = pos p.dropLast) : NodeOk pos' p (setChild pd b n) := by
  refine ⟨by simpa using hok.depth, ?_, ?_, by simpa using hok.stored, by simpa using hok.idle⟩
  · intro c
    rw [childAt_setChild]
    split
    · next hcb => rw [hcb, hb]
    · next hcb => rw [hc c hcb, hok.child]
  · rw [hp, hok.parent, setChild_parent]

section Extend

variable (h : Holds t pos M) {key : List UInt8} {i : ℕ} {parent : Ptr} {pd : BstNode α}
  (hp : pos (bitsOf key i) = some parent)

include h hp

theorem extend_heap (pd : BstNode α) : (extend t parent pd key i).heap t.brk = some (fresh parent key i) ∧
    (extend t parent pd key i).heap parent = some (setChild pd (bitAt key i) t.brk) ∧
    ∀ q a, pos q = some a → q ≠ bitsOf key i → (extend t parent pd key i).heap a = t.heap a := by
  have hpar : parent ≠ t.brk := (h.fresh _ _ hp).ne
  refine ⟨by simp [extend, Bst.write], by simp [extend, Bst.write, hpar], ?_⟩
  intro q a hq hqi
  have hbrk : a ≠ t.brk := (h.fresh _ _ hq).ne
  have hne : a ≠ parent := by
    rintro rfl
    exact hqi (h.inj _ _ _ hq hp)
  simp [extend, Bst.write, hbrk, hne]

variable (hnew : pos (bitsOf key (i + 1)) = none)

include hnew

theorem nodeOk_fresh (hi : i + 1 ≤ 8 * key.length) :
    NodeOk (update pos (bitsOf key (i + 1)) (some t.brk)) (bitsOf key (i + 1)) (fresh parent key i : BstNode α) := by
  refine ⟨by simp [fresh], ?_, ?_, stored_copyPrefix hi, fun _ => rfl⟩
  · intro b
    have hb : pos (bitsOf key (i + 1) ++ [b]) = none := by
      by_contra hc
      obtain ⟨a, ha⟩ := h.parent_some hc
      rw [hnew] at ha
      cases ha
    rw [update_of_ne (by simp), hb]
    cases b <;> rfl
  · rw [bitsOf_succ, dropLast_concat, ← bitsOf_succ, update_of_ne (bitsOf_ne_succ key i), hp]
    rfl

theorem nodeOk_extended {q : List Bool} {a : Ptr} (hq : pos q = some a) (hpd : t.heap parent = some pd) :
    ∃ nd, (extend t parent pd key i).heap a = some nd ∧ NodeOk (update pos (bitsOf key (i + 1)) (some t.brk)) q nd := by
  obtain ⟨nd, hn, hok⟩ := h.node _ _ hq
  obtain ⟨-, hparheap, hheap⟩ := extend_heap h hp pd
  have hparent : update pos (bitsOf key (i + 1)) (some t.brk) q.dropLast = pos q.dropLast := by
    apply update_of_ne
    intro he
    rw [← he, hok.parent] at hnew
    cases hnew
  by_cases hqi : q = bitsOf key i
  · subst hqi
    cases hq.symm.trans hp
    cases hn.symm.trans hpd
    refine ⟨_, hparheap, nodeOk_setChild hok ?_ ?_ hparent⟩
    · rw [← bitsOf_succ, update_self]
    · intro c hc
      apply update_of_ne
      rw [bitsOf_succ]
      simpa using hc
  · refine ⟨nd, by rw [hheap q a hq hqi, hn], hok.congr ?_ hparent⟩
    intro b
    apply update_of_ne
    rw [bitsOf_succ]
    intro he
    exact hqi (append_inj_left' he rfl)

theorem extend_holds (hi : i + 1 ≤ 8 * key.length) (hpd : t.heap parent = some pd) :
    Holds (extend t parent pd key i) (update pos (bitsOf key (i + 1)) (some t.brk)) M := by
  obtain ⟨hnewheap, hparheap, hheap⟩ := extend_heap h hp pd
  refine ⟨⟨?_, ?_, ?_, ?_⟩, ?_⟩
  · rw [update_of_ne (by simp [bitsOf_succ])]
    exact h.root
  · intro p q a hpa hqa
    rcases update_eq_some hpa with ⟨rfl, rfl⟩ | ⟨-, hpa⟩
    · rcases update_eq_some hqa with ⟨rfl, -⟩ | ⟨-, hqa⟩
      · rfl
      · exact absurd (h.fresh _ _ hqa) (lt_irrefl _)
    · rcases update_eq_some hqa with ⟨rfl, rfl⟩ | ⟨-, hqa⟩
      · exact absurd (h.fresh _ _ hpa) (lt_irrefl _)
      · exact h.inj _ _ _ hpa hqa
  · intro q a hqa
    rcases update_eq_some hqa with ⟨rfl, rfl⟩ | ⟨-, hqa⟩
    · exact ⟨_, hnewheap, nodeOk_fresh h hp hnew hi⟩
    · exact nodeOk_extended h hp hnew hqa hpd
  · intro q a hqa
    rcases update_eq_some hqa with ⟨-, rfl⟩ | ⟨-, hqa⟩
    · exact Nat.lt_succ_self _
    · exact Nat.lt_succ_of_lt (h.fresh _ _ hqa)
  · intro q
    by_cases hq : q = bitsOf key (i + 1)
    · subst hq
      rw [h.lookup, hnew, update_self]
      simp [hnewheap, fresh]
    · rw [update_of_ne hq, h.lookup]
      cases ha : pos q with
      | none => rfl
      | some a =>
        by_cases hqi : q = bitsOf key i
        · subst hqi
          cases ha.symm.trans hp
          simp [hparheap, hpd]
        · simp [hheap q a ha hqi]

end Extend

theorem node_new_step {key : List UInt8} {fuel i mem : ℕ} {parent : Ptr} {pd : BstNode α}
    (hpd : t.heap parent = some pd) (hd : pd.prefixBits = i) (hpar : parent ≠ t.brk) :
    bstNodeNew key bits (fuel + 1) t parent mem = match mem with
      | 0 => some (t, none)
      | m + 1 =>
        if i + 1 ≠ bits then bstNodeNew key bits fuel (extend t parent pd key i) t.brk m
        else some (extend t parent pd key i, some t.brk) := by
  cases mem with
  | zero => simp [bstNodeNew, bstCreateNode, hpd]
  | succ m =>
    -- the loop links the child once more, to the same effect
    have hlink : (extend t parent pd key i).heap parent = some (setChild pd (bitAt key i) t.brk) := by
      simp [extend, Bst.write, hpar]
    have hcreate : bstCreateNode t parent key (m + 1) = some (extend t parent pd key i, some t.brk) := by
      simp [bstCreateNode, hpd, hd, extend, fresh, checkBit_eq_bitAt]
    have hagain : (extend t parent pd key i).write parent (setChild pd (bitAt key i) t.brk) =
        extend t parent pd key i := write_self hlink
    simp only [bstNodeNew, hcreate, hlink, bind_eq_bind, bind_some,
      setChild_prefixBits, hd, checkBit_eq_bitAt, setChild_setChild, hagain, Nat.add_sub_cancel]
    rfl

def Grown (pos pos' : List Bool → Option Ptr) (k : List Bool) : Prop := ∀ q, ¬ q <+: k → pos' q = pos q

/-- With memory for the missing nodes the path of the key is completed, and otherwise the
call returns NULL; the map is the same in both cases. -/
theorem node_new_spec {key : List UInt8} (hb : bits ≤ 8 * key.length) (fuel : ℕ) :
    ∀ (i mem : ℕ) (t : Bst α) (pos : List Bool → Option Ptr) (parent : Ptr), Holds t pos M →
      i < bits → bits - i ≤ fuel → pos (bitsOf key i) = some parent →
      pos (bitsOf key (i + 1)) = none →
      ∃ t' pos' r, bstNodeNew key bits fuel t parent mem = some (t', r) ∧ Holds t' pos' M ∧
        t'.entries = t.entries ∧ Grown pos pos' (bitsOf key bits) ∧
        ((r = none ∧ mem < bits - i) ∨ ∃ n, r = some n ∧ bits - i ≤ mem ∧ pos' (bitsOf key bits) = some n) := by
  induction fuel with
  | zero => intro i mem t pos parent _ hi hf; omega
  | succ fuel ih =>
    intro i mem t pos parent h hi hf hp hnew
    obtain ⟨pd, hpd, hok⟩ := h.node _ _ hp
    have hd : pd.prefixBits = i := by simpa using hok.depth
    rw [node_new_step hpd hd (h.fresh _ _ hp).ne]
    cases mem with
    | zero => exact ⟨t, pos, none, rfl, h, rfl, fun _ _ => rfl, .inl ⟨rfl, by omega⟩⟩
    | succ m =>
      have hext := extend_holds h hp hnew (by omega) hpd
      have hgrown : Grown pos (update pos (bitsOf key (i + 1)) (some t.brk)) (bitsOf key bits) := by
        intro q hq
        refine update_of_ne ?_ _ _
        rintro rfl
        exact hq (bitsOf_mono key (by omega))
      by_cases hend : i + 1 = bits
      · refine ⟨_, _, some t.brk, by simp [hend], hext, rfl, hgrown, .inr ⟨_, rfl, by omega, ?_⟩⟩
        rw [← hend, update_self]
      · have hnext : update pos (bitsOf key (i + 1)) (some t.brk)
            (bitsOf key (i + 1 + 1)) = none := by
          rw [update_of_ne (bitsOf_ne_succ key (i + 1)).symm]
          exact Layout.none_past h.toLayout hnew (by omega)
        obtain ⟨t', pos', r, hrun, hholds, hent, hrest, hres⟩ :=
          ih (i + 1) m _ _ t.brk hext (by omega) (by omega) (update_self ..) hnext
        refine ⟨t', pos', r, by simpa [hend] using hrun, hholds, hent, fun q hq => (hrest q hq).trans (hgrown q hq), ?_⟩
        rcases hres with ⟨rfl, hm⟩ | ⟨n, rfl, hm, hn⟩
        · exact .inl ⟨rfl, by omega⟩
        · exact .inr ⟨n, rfl, by omega, hn⟩

def InitSucceeds (ops : Option BstNodeOps) : Prop :=
  ∀ f, ops.bind BstNodeOps.init = some f → ∀ n, 0 ≤ f n

theorem node_init_active (h : Holds t pos M) {n : Ptr} (hp : pos p = some n)
    (hm : p ∈ M) (ops : Option BstNodeOps) (v : α) : bstNodeInit t n ops v = some (t, -1) := by
  obtain ⟨nd, hn, -, hl⟩ := h.node_lookup hp
  have hs : nd.priv.isSome := by rw [← hl]; exact lookup_isSome.mpr hm
  simp only [bstNodeInit, hn, bind_eq_bind, bind_some, hs, if_true]
  split <;> rfl

theorem node_init_inactive (h : Holds t pos M) {n : Ptr} (hp : pos p = some n) (hm : p ∉ M) (hops : InitSucceeds ops)
    (v : α) : ∃ t', bstNodeInit t n ops v = some (t', 0) ∧ Holds t' pos (M.insert p v) ∧ t'.entries = t.entries := by
  obtain ⟨nd, hn, hok, hl⟩ := h.node_lookup hp
  have hpriv : nd.priv = none := by rw [← hl]; exact lookup_eq_none.mpr hm
  refine ⟨t.write n { nd with ops := ops, priv := some v }, ?_, ?_, rfl⟩
  · simp only [bstNodeInit, hn, bind_eq_bind, bind_some, hok.idle hpriv, hpriv,
      isSome_none, Bool.false_eq_true, ↓reduceIte]
    cases hf : ops.bind BstNodeOps.init with
    | none => rfl
    | some f =>
      have := hops f hf n
      simp [not_lt.mpr this]
  · refine h.write hp ⟨hok.depth, hok.child, hok.parent, hok.stored, by simp⟩
      (by simp [lookup_insert]) ?_
    intro q hq
    exact lookup_insert_of_ne _ hq

theorem card_insert_new {v : α} (hm : p ∉ M) : (M.insert p v).keys.card = M.keys.card + 1 := by
  have : (M.insert p v).keys = insert p M.keys := by
    ext q
    simp [Finmap.mem_keys, Finmap.mem_insert]
  rw [this, Finset.card_insert_of_notMem (by simpa [Finmap.mem_keys] using hm)]

/-- The number of nodes an insertion has to allocate: a new root if the tree counts no
entry, and a node for every prefix of the key that has none. -/
def missing (t : Bst α) (key : List UInt8) (bits : ℕ) : ℕ :=
  if t.entries = 0 then bits + 1
  else ((List.range (bits + 1)).filter fun l => (nodeAt t (bitsOf key l)).isNone).length

theorem missing_eq (h : Layout t pos) {key : List UInt8} {j : ℕ} {m : Ptr}
    (he : t.entries ≠ 0) (hj : j ≤ bits) (hm : pos (bitsOf key j) = some m)
    (hend : j < bits → pos (bitsOf key (j + 1)) = none) : missing t key bits = bits - j := by
  have hcount : ∀ n, n ≤ bits →
      ((List.range (n + 1)).filter fun l => (nodeAt t (bitsOf key l)).isNone).length = n - j := by
    intro n hn
    induction n with
    | zero =>
      have h0 : pos [] ≠ none :=
        h.prefix_some (bitsOf_mono key (Nat.zero_le j)) (by simp [hm])
      simp [h.nodeAt_eq, isNone_iff_eq_none, h0]
    | succ n ih =>
      rw [range_succ, filter_append, length_append, ih (by omega)]
      simp only [h.nodeAt_eq, filter_cons, filter_nil]
      by_cases hnj : n + 1 ≤ j
      · have : pos (bitsOf key (n + 1)) ≠ none :=
          h.prefix_some (bitsOf_mono key hnj) (by simp [hm])
        simp [isNone_iff_eq_none, this]
        omega
      · have : pos (bitsOf key (n + 1)) = none :=
          Layout.none_past h (hend (by omega)) (by omega)
        simp [this]
        omega
  simp only [missing, he, ↓reduceIte]
  exact hcount bits le_rfl

/-- Insertion below an existing root. `j` is the depth at which the descent stops. -/
theorem node_insert_spec (h : Holds t pos M) {key : List UInt8}
    (hb : bits ≤ 8 * key.length) (hops : InitSucceeds ops) (v : α) (mem : ℕ) {r : Ptr} (hr : t.root = some r) :
    ∃ j m t' pos' res, j ≤ bits ∧ pos (bitsOf key j) = some m ∧ (j < bits → pos (bitsOf key (j + 1)) = none) ∧
      bstNodeInsertPrefix t r ops v key bits mem = some (t', res) ∧ t'.entries = t.entries ∧
      Grown pos pos' (bitsOf key bits) ∧
      ((res = none ∧ (bitsOf key bits ∈ M ∨ mem < bits - j) ∧ Holds t' pos' M) ∨
        ∃ n, res = some n ∧ bitsOf key bits ∉ M ∧ bits - j ≤ mem ∧
          Holds t' pos' (M.insert (bitsOf key bits) v) ∧ pos' (bitsOf key bits) = some n) := by
  obtain ⟨j, m, prev', hj, hfind, hm, hend, -⟩ := root_descent_spec h.toLayout key bits none hr
  obtain ⟨md, hmd, hok⟩ := h.node _ _ hm
  have hd : md.prefixBits = j := by simpa using hok.depth
  refine ⟨j, m, ?_⟩
  by_cases hlt : j < bits
  · -- the path has to be extended first
    have habsent : bitsOf key bits ∉ M := by
      rw [← lookup_eq_none, h.lookup, Layout.none_past h.toLayout (hend hlt) hlt]
      rfl
    obtain ⟨t₁, pos₁, r₁, hnew, hholds, hent, hgrown, hres⟩ :=
      node_new_spec hb bits j mem t pos m h hlt (by omega) hm (hend hlt)
    rcases hres with ⟨rfl, hmem⟩ | ⟨n, rfl, hmem, hn⟩
    · refine ⟨t₁, pos₁, none, hj, hm, hend, ?_, hent, hgrown, .inl ⟨rfl, .inr hmem, hholds⟩⟩
      simp [bstNodeInsertPrefix, hfind, hmd, hd, hlt, hnew]
    · obtain ⟨t₂, hinit, hholds₂, hent₂⟩ := node_init_inactive hholds hn habsent hops v
      refine ⟨t₂, pos₁, some n, hj, hm, hend, ?_, hent₂.trans hent, hgrown, .inr ⟨n, rfl, habsent, hmem, hholds₂, hn⟩⟩
      simp [bstNodeInsertPrefix, hfind, hmd, hd, hlt, hnew, hinit]
  · obtain rfl : j = bits := by omega
    by_cases hin : bitsOf key j ∈ M
    · have hinit := node_init_active h hm hin ops v
      refine ⟨t, pos, none, hj, hm, hend, ?_, rfl, fun _ _ => rfl, .inl ⟨rfl, .inl hin, h⟩⟩
      simp [bstNodeInsertPrefix, hfind, hmd, hd, hinit]
    · obtain ⟨t₂, hinit, hholds₂, hent₂⟩ := node_init_inactive h hm hin hops v
      refine ⟨t₂, pos, some m, hj, hm, hend, ?_, hent₂, fun _ _ => rfl, .inr ⟨m, rfl, hin, by omega, hholds₂, hm⟩⟩
      simp [bstNodeInsertPrefix, hfind, hmd, hd, hinit]

def CountExact (M : BitMap α) : Prop := M.keys.card % 2 ^ 32 = 0 → M.keys.card = 0

theorem entries_eq_zero (h : Represents t pos M) (hc : CountExact M) : t.entries = 0 ↔ M = ∅ := by
  rw [h.entries]
  constructor
  · intro he
    have hmod : M.keys.card % 2 ^ 32 = 0 := by
      simpa using congrArg UInt32.toNat he
    have hkeys := Finset.card_eq_zero.mp (hc hmod)
    apply ext_lookup
    intro p
    have : p ∉ M := by
      rw [← Finmap.mem_keys, hkeys]
      simp
    simp [lookup_eq_none.mpr this]
  · rintro rfl
    simp

theorem root_some (h : Holds t pos M) (hne : M ≠ ∅) : ∃ r, t.root = some r := by
  have : ∃ p, p ∈ M := by
    by_contra hno
    apply hne
    apply ext_lookup
    intro p
    rw [lookup_eq_none.mpr (fun hp => hno ⟨p, hp⟩), lookup_empty]
  obtain ⟨p, hp⟩ := this
  obtain ⟨v, hv⟩ := mem_iff.mp hp
  obtain ⟨n, -, hn, -⟩ := h.bound_node hv
  rw [h.root]
  exact ne_none_iff_exists'.mp (h.prefix_some (q := p) List.nil_prefix (by simp [hn]))

theorem alloc_root_holds (t : Bst α) :
    Holds (bstAllocRoot t) (update (fun _ => none) [] (some t.brk)) (∅ : BitMap α) := by
  have hpos : ∀ (p : List Bool) a, update (fun _ => none) [] (some t.brk) p = some a → p = [] ∧ a = t.brk := by
    intro p a hp
    by_cases h0 : p = []
    · subst h0
      rw [update_self] at hp
      exact ⟨rfl, (some.inj hp).symm⟩
    · rw [update_of_ne h0] at hp
      cases hp
  refine ⟨⟨by simp [bstAllocRoot], ?_, ?_, ?_⟩, ?_⟩
  · intro p q a hp hq
    rw [(hpos p a hp).1, (hpos q a hq).1]
  · intro p a hp
    obtain ⟨rfl, rfl⟩ := hpos p a hp
    refine ⟨_, update_self .., rfl, ?_, by simp, ⟨rfl, rfl, fun i _ => by simp [bitAt]⟩, fun _ => rfl⟩
    intro b
    rw [update_of_ne (by simp)]
    cases b <;> rfl
  · intro p a hp
    obtain ⟨-, rfl⟩ := hpos p a hp
    exact Nat.lt_succ_self _
  · intro p
    rw [lookup_empty]
    by_cases h0 : p = []
    · subst h0
      simp [bstAllocRoot, Bst.write]
    · rw [update_of_ne h0]
      rfl

theorem Holds.setEntries (h : Holds t pos M) (e : UInt32) : Holds { t with entries := e } pos M :=
  { h with }

def InsertedAt (t : Bst α) (M : BitMap α) (key : List UInt8) (bits mem : ℕ) (v : α)
    (t' : Bst α) (res : Option Ptr) (pos' : List Bool → Option Ptr) : Prop :=
  (res = none ∧ (bitsOf key bits ∈ M ∨ mem < missing t key bits) ∧ Represents t' pos' M) ∨
    ∃ n, res = some n ∧ bitsOf key bits ∉ M ∧ missing t key bits ≤ mem ∧
      Represents t' pos' (M.insert (bitsOf key bits) v) ∧ pos' (bitsOf key bits) = some n

/-- The two ways an insertion can end: NULL and the same map, because the bit string is
bound or an allocation fails; or a node, and exactly that bit string bound. -/
def InsertOutcome (t : Bst α) (M : BitMap α) (key : List UInt8) (bits mem : ℕ) (v : α)
    (t' : Bst α) (res : Option Ptr) : Prop :=
  ∃ pos', (res = none ∧ (bitsOf key bits ∈ M ∨ mem < missing t key bits) ∧ Represents t' pos' M) ∨
    ∃ n, res = some n ∧ bitsOf key bits ∉ M ∧ missing t key bits ≤ mem ∧
      Represents t' pos' (M.insert (bitsOf key bits) v) ∧ pos' (bitsOf key bits) = some n

def counted (t : Bst α) : Option Ptr → Bst α
  | none => t
  | some _ => { t with entries := t.entries + 1 }

theorem insert_at_root (h : Represents t pos M) {key : List UInt8}
    (hb : bits ≤ 8 * key.length) (hops : InitSucceeds ops) (v : α)
    (mem mem₁ : ℕ) {t₁ : Bst α} {pos₁ : List Bool → Option Ptr} {r : Ptr}
    (hholds : Holds t₁ pos₁ M) (hent : t₁.entries = t.entries) (hr : t₁.root = some r)
    (hmiss : ∀ j m, j ≤ bits → pos₁ (bitsOf key j) = some m → (j < bits → pos₁ (bitsOf key (j + 1)) = none) →
      (mem₁ < bits - j ↔ mem < missing t key bits)) :
    ∃ t₂ res pos', bstNodeInsertPrefix t₁ r ops v key bits mem₁ = some (t₂, res) ∧
      Grown pos₁ pos' (bitsOf key bits) ∧ InsertedAt t M key bits mem v (counted t₂ res) res pos' := by
  obtain ⟨j, m, t₂, pos', res, hj, hm, hend, hins, hent', hgrown, hres⟩ :=
    node_insert_spec hholds hb hops v mem₁ hr
  have hiff := hmiss j m hj hm hend
  refine ⟨t₂, res, pos', hins, hgrown, ?_⟩
  rcases hres with ⟨rfl, hwhy, hholds'⟩ | ⟨n, rfl, habsent, hmem, hholds', hn⟩
  · refine .inl ⟨rfl, hwhy.imp_right hiff.mp, hholds', ?_⟩
    rw [counted, hent', hent, h.entries]
  · refine .inr ⟨n, rfl, habsent, ?_, ⟨Holds.setEntries hholds' _, ?_⟩, hn⟩
    · by_contra hlt
      exact absurd (hiff.mpr (by omega)) (by omega)
    · rw [card_insert_new habsent]
      simp [counted, hent', hent, h.entries]

/-- `bst_insert_prefix` always returns. The old nodes stay where they are, or there was no entry and the tree
has a new root. -/
theorem insert_grown (h : Represents t pos M) (hc : CountExact M) {key : List UInt8}
    (hb : bits ≤ 8 * key.length) (hops : InitSucceeds ops) (v : α) (mem : ℕ) :
    ∃ t' res pos', bstInsertPrefix t ops v key bits mem = some (t', res) ∧
      (Grown pos pos' (bitsOf key bits) ∨ M = ∅ ∧ Grown (fun _ => none) pos' (bitsOf key bits)) ∧
      InsertedAt t M key bits mem v t' res pos' := by
  by_cases he : t.entries = 0
  · obtain rfl := (entries_eq_zero h hc).mp he
    cases mem with
    | zero =>
      refine ⟨{ t with root := none }, none, fun _ => none, by simp [bstInsertPrefix, he],
        .inr ⟨rfl, fun _ _ => rfl⟩, .inl ⟨rfl, .inr (by simp [missing, he]), ⟨⟨⟨rfl, ?_, ?_, ?_⟩, ?_⟩, ?_⟩⟩⟩
      · simp
      · simp
      · simp
      · simp
      · simpa using he
    | succ mem =>
      have hdepth : ∀ j m, update (fun _ => none) [] (some t.brk) (bitsOf key j) = some m → j = 0 := by
        intro j m hm
        by_contra hj
        have hne : bitsOf key j ≠ [] := fun h0 => hj (by simpa using congrArg List.length h0)
        rw [update_of_ne hne] at hm
        cases hm
      obtain ⟨t₂, res, pos', hrun, hgrown, hout⟩ := insert_at_root h hb hops v (mem + 1) mem
        (alloc_root_holds t) rfl rfl (by
          intro j m _ hm _
          obtain rfl := hdepth j m hm
          simp only [missing, he, ↓reduceIte]
          omega)
      refine ⟨_, res, pos', ?_, .inr ⟨rfl, fun q hq => (hgrown q hq).trans ?_⟩, hout⟩
      · have hroot : (bstAllocRoot t).root = some t.brk := rfl
        cases res <;> simp [bstInsertPrefix, he, hroot, hrun, counted]
      · refine update_of_ne ?_ _ _
        rintro rfl
        exact hq List.nil_prefix
  · have hne : M ≠ ∅ := fun h0 => he ((entries_eq_zero h hc).mpr h0)
    obtain ⟨r, hr⟩ := root_some h.toHolds hne
    obtain ⟨t₂, res, pos', hrun, hgrown, hout⟩ := insert_at_root h hb hops v mem mem h.toHolds rfl hr
      (fun j m hj hm hend => by rw [missing_eq h.toLayout he hj hm hend])
    refine ⟨_, res, pos', ?_, .inl hgrown, hout⟩
    cases res <;> simp [bstInsertPrefix, he, hr, hrun, counted]

theorem missing_le (t : Bst α) (key : List UInt8) (bits : ℕ) : missing t key bits ≤ bits + 1 := by
  rw [missing]
  split
  · exact le_rfl
  · exact (length_filter_le _ _).trans (length_range).le

theorem trimmed_grown {t' : Bst α} {pos' : List Bool → Option Ptr} {k : List Bool} {v : α} (h : Layout t' pos')
    (hk : pos' k ≠ none) (hgrown : Grown pos pos' k) (htrimmed : Trimmed pos M) : Trimmed pos' (M.insert k v) := by
  intro q hq hnode hleaf
  by_cases hqk : q <+: k
  · obtain ⟨s, rfl⟩ := hqk
    cases s with
    | nil => exact mem_insert.mpr (.inl (append_nil q).symm)
    | cons b s =>
      have hchild : q ++ [b] <+: q ++ b :: s := ⟨s, by simp⟩
      exact absurd (hleaf b) (h.prefix_some hchild hk)
  · refine mem_insert.mpr (.inr (htrimmed q hq (by rwa [← hgrown q hqk]) fun b => ?_))
    have hqb : ¬ q ++ [b] <+: k := fun hb => hqk ((prefix_append q [b]).trans hb)
    rw [← hgrown _ hqb, hleaf b]

theorem insert_spec (h : Represents t pos M) (hc : CountExact M) {key : List UInt8}
    (hb : bits ≤ 8 * key.length) (hops : InitSucceeds ops) (v : α) (mem : ℕ) :
    ∃ t' res, bstInsertPrefix t ops v key bits mem = some (t', res) ∧ InsertOutcome t M key bits mem v t' res := by
  obtain ⟨t', res, pos', hrun, -, hout⟩ := insert_grown h hc hb hops v mem
  exact ⟨t', res, hrun, pos', hout⟩

end BstInsert
