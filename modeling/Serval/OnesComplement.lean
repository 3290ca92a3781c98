import Mathlib.Data.List.Basic
import Mathlib.Algebra.Order.Ring.Nat

/-! # The ones' complement checksum

A block with its own checksum stored in it, at an even offset, has the checksum zero.
-/
namespace OnesComplement

open List

def add (a b : ℕ) : ℕ := (a + b) % 65536 + (a + b) / 65536

def words : List UInt8 → List ℕ
  | [] => []
  | [b] => [b.toNat * 256]
  | b :: c :: rest => (b.toNat * 256 + c.toNat) :: words rest

def sum (ws : List ℕ) : ℕ := ws.foldr add 0

def checksum (bs : List UInt8) : UInt16 := UInt16.ofNat (65535 - sum (words bs))

def bytes (w : UInt16) : List UInt8 := [UInt8.ofNat (w.toNat / 256), UInt8.ofNat w.toNat]

variable (w : UInt16) {pre : List UInt8} {a b : ℕ}

@[simp] theorem length_bytes : (bytes w).length = 2 := rfl

theorem words_le (bs : List UInt8) : ∀ w ∈ words bs, w ≤ 65535 := by
  induction bs using words.induct with
  | case1 => simp [words]
  | case2 b =>
    have hb := b.toNat_lt
    simp only [words, mem_singleton, forall_eq]
    omega
  | case3 b c rest ih =>
    have hb := b.toNat_lt
    have hc := c.toNat_lt
    rw [words, forall_mem_cons]
    exact ⟨by omega, ih⟩

theorem words_append (h : Even pre.length) (post : List UInt8) : words (pre ++ post) = words pre ++ words post := by
  induction pre using words.induct with
  | case1 => rfl
  | case2 b => simp at h
  | case3 b c rest ih =>
    have hrest : Even rest.length := by
      rw [length_cons, length_cons] at h
      grind
    simp [words, ih hrest]

theorem words_bytes (post : List UInt8) : words (bytes w ++ post) = w.toNat :: words post := by
  have hw := w.toNat_lt
  simp only [bytes, cons_append, nil_append, words, UInt8.toNat_ofNat']
  congr 1
  omega

theorem add_eq (ha : a ≤ 65535) (hb : b ≤ 65535) : add a b = if a + b < 65536 then a + b else a + b - 65535 := by
  rw [add]
  split <;> omega

theorem add_le (ha : a ≤ 65535) (hb : b ≤ 65535) : add a b ≤ 65535 := by
  rw [add_eq ha hb]
  split <;> omega

theorem sum_le {ws : List ℕ} (h : ∀ w ∈ ws, w ≤ 65535) : sum ws ≤ 65535 := by
  induction ws with
  | nil => exact Nat.zero_le _
  | cons w ws ih =>
    rw [forall_mem_cons] at h
    exact add_le h.1 (ih h.2)

theorem add_left_comm {c : ℕ} (ha : a ≤ 65535) (hb : b ≤ 65535) (hc : c ≤ 65535) :
    add a (add b c) = add b (add a c) := by
  rw [add_eq ha (add_le hb hc), add_eq hb (add_le ha hc), add_eq hb hc, add_eq ha hc]
  grind

theorem sum_middle {l r : List ℕ} {w : ℕ} (hl : ∀ x ∈ l, x ≤ 65535) (hw : w ≤ 65535)
    (hr : ∀ x ∈ r, x ≤ 65535) : sum (l ++ w :: r) = add w (sum (l ++ r)) := by
  induction l with
  | nil => rfl
  | cons x l ih =>
    rw [forall_mem_cons] at hl
    have hs : sum (l ++ r) ≤ 65535 := by
      apply sum_le
      intro y hy
      rcases mem_append.mp hy with hy | hy
      · exact hl.2 y hy
      · exact hr y hy
    calc sum (x :: (l ++ w :: r)) = add x (sum (l ++ w :: r)) := rfl
      _ = add x (add w (sum (l ++ r))) := by rw [ih hl.2]
      _ = add w (add x (sum (l ++ r))) := add_left_comm hl.1 hw hs

theorem checksum_stored (h : Even pre.length) (post : List UInt8) :
    checksum (pre ++ bytes (checksum (pre ++ bytes 0 ++ post)) ++ post) = 0 := by
  have hsum : ∀ w : UInt16, sum (words (pre ++ bytes w ++ post)) = add w.toNat (sum (words pre ++ words post)) := by
    intro w
    have hw := w.toNat_lt
    rw [append_assoc, words_append h, words_bytes]
    exact sum_middle (words_le pre) (by omega) (words_le post)
  have hle : sum (words pre ++ words post) ≤ 65535 := by
    rw [← words_append h]
    exact sum_le (words_le _)
  have hzero : sum (words (pre ++ bytes 0 ++ post)) = sum (words pre ++ words post) := by
    rw [hsum, UInt16.toNat_zero]
    simp only [add]
    omega
  have hcheck : (checksum (pre ++ bytes 0 ++ post)).toNat = 65535 - sum (words pre ++ words post) := by
    rw [checksum, hzero, UInt16.toNat_ofNat']
    omega
  have htotal : sum (words (pre ++ bytes (checksum (pre ++ bytes 0 ++ post)) ++ post)) = 65535 := by
    rw [hsum, hcheck]
    simp only [add]
    omega
  rw [checksum, htotal]
  rfl

end OnesComplement
