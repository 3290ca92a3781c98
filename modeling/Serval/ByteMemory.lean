import Mathlib.Data.List.Basic
import Mathlib.Algebra.Order.Ring.Nat

/-! # Byte memory

Memory is a byte for every address. Blocks are read and written as lists of bytes.
-/
namespace ByteMemory

open List

abbrev Mem := ℕ → UInt8

def read (m : Mem) (a n : ℕ) : List UInt8 := (List.range n).map fun i => m (a + i)

def write (m : Mem) (a : ℕ) (bs : List UInt8) : Mem :=
  fun b => if a ≤ b then bs.getD (b - a) (m b) else m b

def memmove (m : Mem) (dst src n : ℕ) : Mem := write m dst (read m src n)

def word32 (bs : List UInt8) : UInt32 :=
  UInt32.ofNat ((bs.getD 0 0).toNat * 2 ^ 24 + (bs.getD 1 0).toNat * 2 ^ 16 +
    (bs.getD 2 0).toNat * 2 ^ 8 + (bs.getD 3 0).toNat)

def bytes32 (w : UInt32) : List UInt8 :=
  [UInt8.ofNat (w.toNat / 2 ^ 24), UInt8.ofNat (w.toNat / 2 ^ 16), UInt8.ofNat (w.toNat / 2 ^ 8), UInt8.ofNat w.toNat]

variable {m m' : Mem} {a b n k : ℕ} {bs : List UInt8}

section

variable (m a n)

@[simp] theorem length_read : (read m a n).length = n := by simp [read]

@[simp] theorem read_zero : read m a 0 = [] := rfl

theorem read_succ : read m a (n + 1) = m a :: read m (a + 1) n := by
  simp [read, range_succ_eq_map, Function.comp_def, add_right_comm, add_assoc]

theorem read_add (k : ℕ) : read m a (n + k) = read m a n ++ read m (a + n) k := by
  simp [read, range_add, Function.comp_def, add_assoc]

end

theorem getElem?_read (m : Mem) (a : ℕ) {i : ℕ} (h : i < n) : (read m a n)[i]? = some (m (a + i)) := by
  simp [read, h]

theorem read_congr (h : ∀ b, a ≤ b → b < a + n → m b = m' b) : read m a n = read m' a n := by
  apply map_congr_left
  intro i hi
  exact h (a + i) (Nat.le_add_right a i) (Nat.add_lt_add_left (mem_range.mp hi) a)

theorem read_eq_append {e rest : List UInt8} (h : read m a n = e ++ rest) :
    read m a e.length = e ∧ read m (a + e.length) rest.length = rest := by
  have hn : n = e.length + rest.length := by rw [← length_read m a n, h, length_append]
  rw [hn, read_add] at h
  exact append_inj h (length_read ..)

theorem read_slice (m : Mem) (a : ℕ) {i n k : ℕ} (h : i + k ≤ n) : ((read m a n).drop i).take k = read m (a + i) k := by
  obtain ⟨j, rfl⟩ := Nat.exists_eq_add_of_le h
  rw [add_assoc, read_add, drop_left' (length_read ..), read_add, take_left' (length_read ..)]

theorem slice_congr (h : read m a n = read m' b n) {i k : ℕ} (hik : i + k ≤ n) :
    read m (a + i) k = read m' (b + i) k := by
  rw [← read_slice m a hik, h, read_slice m' b hik]

theorem byte_congr (h : read m a n = read m' b n) {i : ℕ} (hi : i < n) : m (a + i) = m' (b + i) := by
  simpa [read_succ] using slice_congr h (show i + 1 ≤ n from hi)

theorem write_of_mem {i : ℕ} (h : i < bs.length) : write m a bs (a + i) = bs[i] := by
  simp [write, getD_eq_getElem?_getD, h]

theorem write_of_notMem (h : b < a ∨ a + bs.length ≤ b) : write m a bs b = m b := by
  rw [write]
  split
  · rw [getD_eq_getElem?_getD, getElem?_eq_none (by omega), Option.getD_none]
  · rfl

theorem write_nil (m : Mem) (a : ℕ) : write m a [] = m := by
  funext b
  exact write_of_notMem (by simp [Nat.lt_or_ge])

theorem write_append (m : Mem) (a : ℕ) (xs ys : List UInt8) :
    write (write m a xs) (a + xs.length) ys = write m a (xs ++ ys) := by
  funext b
  by_cases hb : b < a + xs.length
  · rw [write_of_notMem (.inl hb), write, write]
    split
    · rw [getD_eq_getElem?_getD, getD_eq_getElem?_getD, getElem?_append_left (by omega)]
    · rfl
  · obtain ⟨i, rfl⟩ := Nat.exists_eq_add_of_le (not_lt.mp hb)
    have hi : a + xs.length + i - a = xs.length + i := by omega
    rw [write, if_pos (Nat.le_add_right ..), write_of_notMem (.inr (Nat.le_add_right ..)), write, if_pos (by omega), hi,
      Nat.add_sub_cancel_left, getD_eq_getElem?_getD, getD_eq_getElem?_getD,
      getElem?_append_right (Nat.le_add_right ..), Nat.add_sub_cancel_left]

theorem read_write_self (m : Mem) (a : ℕ) (bs : List UInt8) : read (write m a bs) a bs.length = bs := by
  apply ext_getElem (length_read ..)
  intro i _ h
  simp only [read, getElem_map, getElem_range]
  exact write_of_mem h

theorem read_write_disjoint (m : Mem) (bs : List UInt8) (h : a + n ≤ b ∨ b + bs.length ≤ a) :
    read (write m b bs) a n = read m a n := by
  apply read_congr
  intro c hac hcn
  apply write_of_notMem
  omega

section

variable (m a k bs)

theorem read_write_start (n : ℕ) : read (write m a bs) a (bs.length + n) = bs ++ read m (a + bs.length) n := by
  rw [read_add, read_write_self, read_write_disjoint _ _ (.inr (le_refl _))]

theorem read_write_end : read (write m (a + k) bs) a (k + bs.length) = read m a k ++ bs := by
  rw [read_add, read_write_self, read_write_disjoint _ _ (.inl (le_refl _))]

theorem read_write_within (n : ℕ) :
    read (write m (a + k) bs) a (k + bs.length + n) = read m a k ++ bs ++ read m (a + k + bs.length) n := by
  rw [read_add, read_write_end, ← add_assoc, read_write_disjoint _ _ (.inr (le_refl _))]

end

theorem read_write_replace {front old new back : List UInt8} (h : read m a n = front ++ old ++ back)
    (hnew : new.length = old.length) : read (write m (a + front.length) new) a n = front ++ new ++ back := by
  have hn : n = front.length + new.length + back.length := by
    rw [← length_read m a n, h, hnew, length_append, length_append]
  obtain ⟨hfront, hback⟩ := read_eq_append h
  rw [length_append, ← hnew, ← add_assoc] at hback
  rw [hn, read_write_within, hback, (read_eq_append hfront).1]

theorem byte_of_read {front back : List UInt8} {x : UInt8} (h : read m a n = front ++ [x] ++ back) :
    m (a + front.length) = x := by
  have hback := (read_eq_append (append_assoc .. ▸ h)).2
  rw [singleton_append, length_cons, read_succ] at hback
  exact (cons.inj hback).1

@[simp] theorem length_bytes32 (w : UInt32) : (bytes32 w).length = 4 := rfl

theorem word32_bytes32 (w : UInt32) (rest : List UInt8) : word32 (bytes32 w ++ rest) = w := by
  have hw := w.toNat_lt
  rw [← UInt32.toNat_inj]
  simp only [word32, bytes32, cons_append, getD_cons_zero, getD_cons_succ,
    nil_append, UInt8.toNat_ofNat', UInt32.toNat_ofNat']
  omega

@[simp] theorem word32_of_bytes32 (w : UInt32) : word32 (bytes32 w) = w := by
  simpa using word32_bytes32 w []

end ByteMemory
