import Serval.BstInsert
import Serval.BstRelease

/-! # The trie refines a finite map, along whole runs

The abstract side is the map that a client keeps by looking at what each call returns.
-/
namespace BstRefinement

open BitString BstModel BstLayout BstLookup BstInsert BstRelease

variable {α : Type}

inductive Op (α : Type) where
  | insert (ops : Option BstNodeOps) (priv : α) (key : List UInt8) (bits mem : ℕ)
  | remove (key : List UInt8) (bits : ℕ)
  | release (p : List Bool)

inductive Ret where
  | node (n : Option Ptr)
  | int (r : ℤ)
  | void
  deriving DecidableEq, Repr

def run (t : Bst α) : Op α → Option (Bst α × Ret)
  | .insert ops priv key bits mem => do
    let (t, n) ← bstInsertPrefix t ops priv key bits mem
    return (t, .node n)
  | .remove key bits => do
    let (t, r) ← bstRemovePrefix t key bits
    return (t, .int r)
  | .release p => do
    let n ← nodeAt t p
    let t ← bstNodeRelease t n
    return (t, .void)

/-- What a client records: add on a non-NULL insert, erase on a remove that returns 1 and
on every release. -/
def track (M : BitMap α) : Op α → Ret → BitMap α
  | .insert _ priv key bits _, .node (some _) => M.insert (bitsOf key bits) priv
  | .remove key bits, .int r => if r = 1 then M.erase (bitsOf key bits) else M
  | .release p, _ => M.erase p
  | _, _ => M

/-- The calls a client may make: the prefix lies inside the key, the `init` callback
succeeds, and only active nodes are released. -/
def Legal (M : BitMap α) : Op α → Prop
  | .insert ops _ key bits _ => bits ≤ 8 * key.length ∧ InitSucceeds ops
  | .remove key bits => bits ≤ 8 * key.length
  | .release p => p ∈ M

/-- The calls that stay clear of two defects: an insertion that finds the 32-bit entry count wrapped to zero replaces
the root, and a release of a root without a child frees it and goes on reading it. -/
def Careful (t : Bst α) (M : BitMap α) : Op α → Prop
  | .insert .. => CountExact M
  | .remove .. => True
  | .release p => p = [] → nodeAt t [false] ≠ none ∨ nodeAt t [true] ≠ none

inductive Reachable (ok : Bst α → BitMap α → Op α → Prop) : Bst α → BitMap α → Prop where
  | init : Reachable ok bstInit ∅
  | step {t M t' r} (op : Op α) : Reachable ok t M → Legal M op → ok t M op →
      run t op = some (t', r) → Reachable ok t' (track M op r)

def LongestMatch (t : Bst α) (M : BitMap α) (mtch : Option (Ptr → Bool)) (k : List Bool) : Option Ptr → Prop
  | none => ∀ q n, q <+: k → q ∈ M → nodeAt t q = some n → nodeMatches mtch n = false
  | some n => ∃ q nd, nodeAt t q = some n ∧ t.heap n = some nd ∧ nd.priv = M.lookup q ∧
      IsLongest (fun q => q ∈ M ∧ ∃ n, nodeAt t q = some n ∧ nodeMatches mtch n) k q

structure Agrees (ok : Bst α → BitMap α → Op α → Prop) (t : Bst α) (M : BitMap α) : Prop where
  bound : ∀ q v, M.lookup q = some v → ∃ n nd, nodeAt t q = some n ∧ t.heap n = some nd ∧ nd.priv = some v
  insert : ∀ ops priv key bits mem, Legal M (.insert ops priv key bits mem) → ok t M (.insert ops priv key bits mem) →
    ∃ t' n, run t (.insert ops priv key bits mem) = some (t', .node n) ∧
      (n = none ↔ bitsOf key bits ∈ M ∨ mem < missing t key bits)
  remove : ∀ key bits, Legal M (.remove key bits) → ok t M (.remove key bits) →
    ∃ t' r, run t (.remove key bits) = some (t', .int r) ∧ (r = 1 ↔ bitsOf key bits ∈ M)
  release : ∀ p, Legal M (.release p) → ok t M (.release p) → ∃ t', run t (.release p) = some (t', .void)
  find : ∀ key bits mtch, bits ≤ 8 * key.length → ∃ n, bstFindLongestPrefixMatch t key bits mtch = some n ∧
      LongestMatch t M mtch (bitsOf key bits) n

variable {M : BitMap α} {t : Bst α}

theorem release_node {pos} (h : Represents t pos M) {p : List Bool}
    (hm : p ∈ M) (hc : Careful t M (.release p)) :
    ∃ n t' pos', nodeAt t p = some n ∧ bstNodeRelease t n = some t' ∧ Represents t' pos' (M.erase p) := by
  obtain ⟨v, hv⟩ := Finmap.mem_iff.mp hm
  obtain ⟨n, -, hn, -⟩ := h.bound_node hv
  have hs : Releasable pos p := by
    intro hp
    simpa [h.nodeAt_eq] using hc hp
  obtain ⟨t', pos', hrun, hrep, -⟩ := release_spec h hn hm hs
  exact ⟨n, t', pos', by rw [h.nodeAt_eq, hn], hrun, hrep⟩

theorem step_represents {t t' : Bst α} {pos} {op : Op α} {r : Ret}
    (h : Represents t pos M) (hl : Legal M op) (hc : Careful t M op)
    (hr : run t op = some (t', r)) : ∃ pos', Represents t' pos' (track M op r) := by
  cases op with
  | insert ops priv key bits mem =>
    obtain ⟨t₁, n, hins, pos', hout⟩ := insert_spec h hc hl.1 hl.2 priv mem
    simp only [run, hins] at hr
    cases hr
    rcases hout with ⟨rfl, -, hrep⟩ | ⟨a, rfl, -, -, hrep, -⟩
    · exact ⟨pos', hrep⟩
    · exact ⟨pos', hrep⟩
  | remove key bits =>
    obtain ⟨t₁, n, hrem, hout⟩ := remove_spec h key bits
    simp only [run, hrem] at hr
    cases hr
    rcases hout with ⟨rfl, -, hrep⟩ | ⟨rfl, -, rfl⟩
    · exact ⟨pos, hrep⟩
    · exact ⟨pos, h⟩
  | release p =>
    obtain ⟨n, t₁, pos', hn, hrel, hrep⟩ := release_node h hl hc
    simp only [run, hn, hrel, Option.bind_eq_bind, Option.bind_some] at hr
    cases hr
    exact ⟨pos', hrep⟩

theorem reachable_represents (h : Reachable Careful t M) : ∃ pos, Represents t pos M := by
  induction h with
  | init => exact ⟨_, represents_init⟩
  | step op _ hl hc hr ih =>
    obtain ⟨pos, hrep⟩ := ih
    exact step_represents hrep hl hc hr

theorem find_longest_match {pos} (h : Represents t pos M)
    (key : List UInt8) (bits : ℕ) (mtch : Option (Ptr → Bool)) :
    ∃ n, bstFindLongestPrefixMatch t key bits mtch = some n ∧ LongestMatch t M mtch (bitsOf key bits) n := by
  obtain ⟨res, hfind, hres⟩ := find_match_spec h.toLayout key bits mtch
  refine ⟨res, hfind, ?_⟩
  cases res with
  | none =>
    intro q n hq hm hn
    rw [h.nodeAt_eq] at hn
    have := hres q n hq hn
    rw [hit_iff h.toHolds hn, not_and] at this
    simpa using this hm
  | some n =>
    obtain ⟨q, hq, hlong⟩ := hres
    obtain ⟨nd, hn, -, hl⟩ := h.node_lookup hq
    have hiff : ∀ r, (∃ m, pos r = some m ∧ Hit t mtch m) ↔ r ∈ M ∧ ∃ m, nodeAt t r = some m ∧ nodeMatches mtch m := by
      intro r
      rw [h.nodeAt_eq]
      constructor
      · rintro ⟨m, hm, hit⟩
        obtain ⟨hin, hmatch⟩ := (hit_iff h.toHolds hm).mp hit
        exact ⟨hin, m, hm, hmatch⟩
      · rintro ⟨hin, m, hm, hmatch⟩
        exact ⟨m, hm, (hit_iff h.toHolds hm).mpr ⟨hin, hmatch⟩⟩
    exact ⟨q, nd, by rw [h.nodeAt_eq, hq], hn, hl.symm, hlong.isPrefix, (hiff q).mp hlong.holds,
      fun r hr hp => hlong.longest r hr ((hiff r).mpr hp)⟩

/-- In every run of careful calls the trie agrees with the tracked map. -/
theorem trie_refines_map (h : Reachable Careful t M) : Agrees Careful t M := by
  obtain ⟨pos, hrep⟩ := reachable_represents h
  constructor
  · intro q v hv
    obtain ⟨n, nd, hn, hnd, -, hp⟩ := hrep.bound_node hv
    exact ⟨n, nd, by rw [hrep.nodeAt_eq, hn], hnd, hp⟩
  · intro ops priv key bits mem hl hc
    obtain ⟨t', n, hins, pos', hout⟩ := insert_spec hrep hc hl.1 hl.2 priv mem
    refine ⟨t', n, by simp [run, hins], ?_⟩
    rcases hout with ⟨rfl, hwhy, -⟩ | ⟨a, rfl, habs, hmem, -, -⟩
    · simpa using hwhy
    · simp [habs, hmem]
  · intro key bits _ _
    obtain ⟨t', r, hrem, hout⟩ := remove_spec hrep key bits
    refine ⟨t', r, by simp [run, hrem], ?_⟩
    rcases hout with ⟨rfl, hin, -⟩ | ⟨rfl, hout, -⟩
    · simpa using hin
    · simpa using hout
  · intro p hl hc
    obtain ⟨n, t', pos', hn, hrel, -⟩ := release_node hrep hl hc
    exact ⟨t', by simp [run, hn, hrel]⟩
  · intro key bits mtch _
    exact find_longest_match hrep key bits mtch

def srvOps : Option BstNodeOps := some ⟨some fun _ => 0, true⟩

theorem srvOps_init : InitSucceeds srvOps := by
  rintro f hf n
  obtain rfl : (fun _ => 0) = f := Option.some.inj hf
  exact le_rfl

namespace Counterexample

def addDefault : Op ℕ := .insert srvOps 7 [] 0 1

def onlyDefault : Bst ℕ := ((bstInsertPrefix bstInit srvOps 7 [] 0 1).getD (bstInit, none)).1

theorem onlyDefault_run : run bstInit addDefault = some (onlyDefault, .node (some 0)) := rfl

def addOne : Op ℕ := .insert srvOps 8 [128] 1 1

def both : Bst ℕ := ((bstInsertPrefix onlyDefault srvOps 8 [128] 1 1).getD (bstInit, none)).1

def defaultMap : BitMap ℕ := track ∅ addDefault (.node (some 0))

def bothMap : BitMap ℕ := track defaultMap addOne (.node (some 1))

theorem onlyDefault_reachable : Reachable Careful onlyDefault defaultMap :=
  .step addDefault .init ⟨Nat.zero_le _, srvOps_init⟩ (fun _ => rfl) onlyDefault_run

theorem both_reachable : Reachable Careful both bothMap :=
  .step addOne onlyDefault_reachable ⟨by decide, srvOps_init⟩ (fun h => absurd h (by decide)) rfl

def released : Bst ℕ := (bstNodeRelease both 0).getD bstInit

end Counterexample

open Counterexample in
/-- One insertion of the empty prefix and one release of its node are enough: the release
is a legal call, and its outcome rests on freed memory. -/
theorem release_of_childless_root_fails :
    ¬ ∀ (t : Bst ℕ) (M : BitMap ℕ), Reachable (fun _ _ _ => True) t M → Agrees (fun _ _ _ => True) t M := by
  intro hall
  have hreach : Reachable (fun _ _ _ => True) onlyDefault defaultMap :=
    .step addDefault .init ⟨Nat.zero_le _, srvOps_init⟩ trivial onlyDefault_run
  have hbound : [] ∈ defaultMap := Finmap.mem_insert.mpr (.inl rfl)
  obtain ⟨t', ht'⟩ := (hall _ _ hreach).release [] hbound trivial
  have hundef : run onlyDefault (.release []) = none := rfl
  rw [hundef] at ht'
  cases ht'

open Counterexample in
/-- Two prefixes are inserted, and the root, which has a child, is released. -/
theorem trie_refines_map_released : (released.heap 0).map BstNode.priv = some none ∧
    bstFindLongestPrefixMatch released [192] 8 none = some (some 1) ∧ Agrees Careful released (bothMap.erase []) := by
  have hbound : [] ∈ bothMap := Finmap.mem_insert.mpr (.inr (Finmap.mem_insert.mpr (.inl rfl)))
  have hchild : nodeAt both [true] = some 1 := rfl
  have hreach : Reachable Careful released (bothMap.erase []) :=
    .step (.release []) both_reachable hbound (fun _ => .inr (by simp [hchild])) rfl
  exact ⟨rfl, rfl, trie_refines_map hreach⟩

end BstRefinement
