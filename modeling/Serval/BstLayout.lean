import Serval.BstModel
import Mathlib.Data.Finmap

/-! # The shape of the trie in memory

A layout gives every bit string the address of its node. The proofs carry it as a function, because every
operation changes it at a few bit strings only.
-/
namespace BstLayout

open BitString BstModel List

variable {α : Type}

theorem checkBit_eq_bitAt (key : List UInt8) (i : ℕ) : checkBit key i = bitAt key i := by
  have single : ∀ (x : UInt8) (k : ℕ), k < 8 → ((x &&& (1 <<< UInt8.ofNat k)) != 0) = x.toNat.testBit k := by
    intro x k hk
    have hs : ((1 : UInt8) <<< UInt8.ofNat k).toNat = 2 ^ k := by
      interval_cases k <;> decide
    rw [Bool.eq_iff_iff, bne_iff_ne, ne_eq, ← UInt8.toNat_inj, UInt8.toNat_and, hs, Nat.and_two_pow]
    cases x.toNat.testBit k <;> simp
  exact single _ _ (by omega)

theorem endmask_testBit (bits : ℕ) {k : ℕ} (hk : k < 8) :
    (endmask bits).toNat.testBit k = decide (7 - k < bits % 8) := by
  have h : bits % 8 < 8 := Nat.mod_lt _ (by omega)
  unfold endmask
  generalize bits % 8 = r at h ⊢
  interval_cases r <;> interval_cases k <;> decide

variable {key : List UInt8}

theorem bitAt_copyPrefix {bits i : ℕ} (hb : bits ≤ 8 * key.length)
    (hi : i < bits) : bitAt (copyPrefix key bits) i = bitAt key i := by
  have hs : i / 8 < prefixSize bits := by
    unfold prefixSize prefixByte
    split <;> omega
  have hk : i / 8 < key.length := by omega
  unfold copyPrefix
  by_cases hm : bits % 8 = 0
  · simp [bitAt, hm, hs]
  · simp only [bitAt, ne_eq, hm, not_false_eq_true, ↓reduceIte, getD_eq_getElem?_getD,
      getElem?_modify, getElem?_take, hs, getElem?_eq_getElem hk]
    by_cases hl : prefixSize bits - 1 = i / 8
    · have hsize : prefixSize bits = bits / 8 + 1 := by simp [prefixSize, prefixByte, hm]
      have hmask := endmask_testBit bits (show 7 - i % 8 < 8 by omega)
      simp only [hl, ↓reduceIte, Option.map_eq_map, Option.map_some, Option.getD_some,
        UInt8.toNat_and, Nat.testBit_and, hmask]
      have : 7 - (7 - i % 8) < bits % 8 := by omega
      simp [this]
    · simp [hl]

theorem bitsOf_copyPrefix {bits : ℕ} (hb : bits ≤ 8 * key.length) :
    bitsOf (copyPrefix key bits) bits = bitsOf key bits :=
  bitsOf_congr fun _ hi => bitAt_copyPrefix hb hi

/-- The bytes of a bit string: as many as it needs, and the bits after it are zero. -/
structure Stored (p : List Bool) (bytes : List UInt8) : Prop where
  path : bitsOf bytes p.length = p
  size : bytes.length = prefixSize p.length
  rest : ∀ i, p.length ≤ i → bitAt bytes i = false

theorem prefixSize_le {bits : ℕ} (hb : bits ≤ 8 * key.length) : prefixSize bits ≤ key.length := by
  unfold prefixSize prefixByte
  split <;> omega

theorem stored_copyPrefix {bits : ℕ} (hb : bits ≤ 8 * key.length) :
    Stored (bitsOf key bits) (copyPrefix key bits) := by
  have hlen : (copyPrefix key bits).length = prefixSize bits := by
    have htake := length_take_of_le (prefixSize_le hb)
    unfold copyPrefix
    split
    · rw [length_modify, htake]
    · exact htake
  refine ⟨by rw [length_bitsOf, bitsOf_copyPrefix hb], by rw [length_bitsOf, hlen], fun i hi => ?_⟩
  rw [length_bitsOf] at hi
  by_cases hin : i / 8 < prefixSize bits
  · -- the last byte, which is masked
    have hmod : bits % 8 ≠ 0 := by
      intro h0
      simp only [prefixSize, prefixByte, h0, ne_eq, not_true_eq_false, if_false] at hin
      omega
    have hsize : prefixSize bits = bits / 8 + 1 := by simp [prefixSize, prefixByte, hmod]
    have hlast : i / 8 = bits / 8 := by omega
    have hmask := endmask_testBit bits (show 7 - i % 8 < 8 by omega)
    have hout : ¬ 7 - (7 - i % 8) < bits % 8 := by omega
    have hbyte : bits / 8 < (key.take (prefixSize bits)).length := by
      rw [length_take_of_le (prefixSize_le hb)]
      omega
    simp only [bitAt, copyPrefix, hmod, ne_eq, not_false_eq_true, if_true, hsize, Nat.add_sub_cancel, hlast,
      getD_eq_getElem?_getD, getElem?_modify_eq]
    rw [← hsize, getElem?_eq_getElem hbyte]
    simp only [Option.map_eq_map, Option.map_some, Option.getD_some, UInt8.toNat_and, Nat.testBit_and, hmask]
    simp [hout]
  · rw [bitAt, getD_eq_default _ _ (by omega)]
    simp

def childAt (nd : BstNode α) (b : Bool) : Option Ptr := if b then nd.right else nd.left

def nodeAt (t : Bst α) (p : List Bool) : Option Ptr :=
  p.foldl (fun n b => n.bind fun a => (t.heap a).bind fun nd => childAt nd b) t.root

/-- A node as it stands at `p`: its depth, its links, and the bit string it stores. The parent of the root is the root
itself. -/
structure NodeOk (pos : List Bool → Option Ptr) (p : List Bool) (nd : BstNode α) : Prop where
  depth : nd.prefixBits = p.length
  child : ∀ b, childAt nd b = pos (p ++ [b])
  parent : pos p.dropLast = some nd.parent
  stored : Stored p nd.nodePrefix
  idle : nd.priv = none → nd.ops = none

variable {p : List Bool} {t : Bst α} {nd : BstNode α}

theorem NodeOk.congr {pos pos' : List Bool → Option Ptr} (h : NodeOk pos p nd)
    (hchild : ∀ b, pos' (p ++ [b]) = pos (p ++ [b])) (hparent : pos' p.dropLast = pos p.dropLast) : NodeOk pos' p nd :=
  ⟨h.depth, fun b => (h.child b).trans (hchild b).symm, hparent.trans h.parent, h.stored, h.idle⟩

structure Layout (t : Bst α) (pos : List Bool → Option Ptr) : Prop where
  root : t.root = pos []
  inj : ∀ p q a, pos p = some a → pos q = some a → p = q
  node : ∀ p a, pos p = some a → ∃ nd, t.heap a = some nd ∧ NodeOk pos p nd
  fresh : ∀ p a, pos p = some a → a < t.brk

theorem Layout.nodeAt_eq {pos} (h : Layout t pos) (p : List Bool) : nodeAt t p = pos p := by
  induction p using List.reverseRecOn with
  | nil => exact h.root
  | append_singleton p b ih =>
    unfold nodeAt at ih ⊢
    rw [foldl_concat, ih]
    cases hp : pos p with
    | none =>
      cases hq : pos (p ++ [b]) with
      | none => rfl
      | some a =>
        obtain ⟨nd, _, hok⟩ := h.node _ a hq
        have := hok.parent
        simp [hp] at this
    | some a =>
      obtain ⟨nd, hn, hok⟩ := h.node p a hp
      simp [hn, hok.child b]

theorem Layout.parent_some {pos} (h : Layout t pos) {b : Bool} (hp : pos (p ++ [b]) ≠ none) : ∃ a, pos p = some a := by
  obtain ⟨a, ha⟩ := Option.ne_none_iff_exists'.mp hp
  obtain ⟨nd, _, hok⟩ := h.node _ a ha
  exact ⟨nd.parent, by simpa using hok.parent⟩

theorem Layout.prefix_some {pos} (h : Layout t pos) {q : List Bool}
    (hpq : p <+: q) (hq : pos q ≠ none) : pos p ≠ none := by
  obtain ⟨s, rfl⟩ := hpq
  induction s using List.reverseRecOn with
  | nil => simpa using hq
  | append_singleton s b ih =>
    rw [← append_assoc] at hq
    obtain ⟨a, ha⟩ := h.parent_some hq
    exact ih (by simp [ha])

theorem Layout.write {pos} (h : Layout t pos) {n : Ptr}
    (hp : pos p = some n) (hok : NodeOk pos p nd) : Layout (t.write n nd) pos := by
  refine ⟨h.root, h.inj, ?_, h.fresh⟩
  intro q a hq
  by_cases ha : a = n
  · subst a
    obtain rfl := h.inj _ _ _ hp hq
    exact ⟨nd, by simp [Bst.write], hok⟩
  · obtain ⟨md, hm, hmok⟩ := h.node q a hq
    exact ⟨md, by simpa [Bst.write, ha] using hm, hmok⟩

abbrev BitMap (α : Type) := Finmap (fun _ : List Bool => α)

/-- The active nodes are exactly the nodes of the bit strings that `M` binds, with the
same values. -/
structure Holds (t : Bst α) (pos : List Bool → Option Ptr) (M : BitMap α) : Prop
    extends Layout t pos where
  lookup : ∀ p, M.lookup p = ((pos p).bind t.heap).bind BstNode.priv

/-- The tree stands for the map `M`; `entries` counts its bindings modulo `2^32`. -/
structure Represents (t : Bst α) (pos : List Bool → Option Ptr) (M : BitMap α) : Prop
    extends Holds t pos M where
  entries : t.entries = UInt32.ofNat M.keys.card

theorem represents_init : Represents (bstInit : Bst α) (fun _ => none) ∅ := by
  refine ⟨⟨⟨rfl, ?_, ?_, ?_⟩, ?_⟩, ?_⟩ <;> simp [bstInit]

theorem Holds.node_lookup {pos M} (h : Holds t pos M) {n : Ptr} (hp : pos p = some n) :
    ∃ nd, t.heap n = some nd ∧ NodeOk pos p nd ∧ M.lookup p = nd.priv := by
  obtain ⟨nd, hn, hok⟩ := h.node p n hp
  exact ⟨nd, hn, hok, by simp [h.lookup, hp, hn]⟩

theorem Holds.bound_node {pos M} (h : Holds t pos M) {v : α} (hv : M.lookup p = some v) :
    ∃ n nd, pos p = some n ∧ t.heap n = some nd ∧ NodeOk pos p nd ∧ nd.priv = some v := by
  cases hp : pos p with
  | none => simp [h.lookup, hp] at hv
  | some n =>
    obtain ⟨nd, hn, hok, hl⟩ := h.node_lookup hp
    exact ⟨n, nd, rfl, hn, hok, hl ▸ hv⟩

theorem Holds.write {pos M M'} (h : Holds t pos M) {n : Ptr} (hp : pos p = some n)
    (hok : NodeOk pos p nd) (hself : M'.lookup p = nd.priv) (hother : ∀ q, q ≠ p → M'.lookup q = M.lookup q) :
    Holds (t.write n nd) pos M' := by
  refine ⟨h.toLayout.write hp hok, ?_⟩
  intro q
  by_cases hq : q = p
  · subst hq
    simp [hself, hp, Bst.write]
  · rw [hother q hq, h.lookup q]
    cases ha : pos q with
    | none => rfl
    | some a =>
      have hne : a ≠ n := by
        rintro rfl
        exact hq (h.inj _ _ _ ha hp)
      simp [Bst.write, hne]

def Trimmed (pos : List Bool → Option Ptr) (M : BitMap α) : Prop :=
  ∀ q, q ≠ [] → pos q ≠ none → (∀ b, pos (q ++ [b]) = none) → q ∈ M

theorem Trimmed.mono {pos} {M M' : BitMap α} (h : Trimmed pos M) (hsub : ∀ q ∈ M, q ∈ M') : Trimmed pos M' :=
  fun q hq hnode hleaf => hsub q (h q hq hnode hleaf)

end BstLayout
