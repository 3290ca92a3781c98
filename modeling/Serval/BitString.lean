import Mathlib.Data.List.Range
import Mathlib.Data.Nat.Bitwise
import Mathlib.Tactic.IntervalCases

/-! # Bit strings read out of byte strings

Bits are numbered from the most significant bit of the first byte. A byte string
stands for every bit string that it starts with; reads past its end give zero.
-/
namespace BitString

open List

def bitAt (bs : List UInt8) (i : ℕ) : Bool := (bs.getD (i / 8) 0).toNat.testBit (7 - i % 8)

def bitsOf (bs : List UInt8) (n : ℕ) : List Bool := (List.range n).map (bitAt bs)

variable (bs : List UInt8) {i n : ℕ}

@[simp] theorem length_bitsOf (n : ℕ) : (bitsOf bs n).length = n := by
  simp [bitsOf]

@[simp] theorem bitsOf_zero : bitsOf bs 0 = [] := rfl

theorem bitsOf_succ (n : ℕ) : bitsOf bs (n + 1) = bitsOf bs n ++ [bitAt bs n] := by
  simp [bitsOf, range_succ]

theorem take_bitsOf (h : i ≤ n) : (bitsOf bs n).take i = bitsOf bs i := by
  simp only [bitsOf, ← map_take, take_range, Nat.min_eq_left h]

theorem bitsOf_mono (h : i ≤ n) : bitsOf bs i <+: bitsOf bs n :=
  take_bitsOf bs h ▸ List.take_prefix _ _

theorem prefix_bitsOf {bs : List UInt8} {n : ℕ} {q : List Bool} (h : q <+: bitsOf bs n) :
    q.length ≤ n ∧ q = bitsOf bs q.length := by
  have hl : q.length ≤ n := by simpa using h.length_le
  refine ⟨hl, ?_⟩
  rw [← take_bitsOf bs hl]
  exact prefix_iff_eq_take.mp h

theorem bitsOf_congr {a b : List UInt8} {n : ℕ} (h : ∀ i < n, bitAt a i = bitAt b i) : bitsOf a n = bitsOf b n := by
  apply map_congr_left
  intro i hi
  exact h i (mem_range.mp hi)

end BitString
