import Mathlib.Data.Nat.Notation
import Mathlib.Logic.Function.Basic

/-! # A heap of cells

Cells are taken one after another and given back one by one. An address is used for one cell only, so that giving back
a cell twice has no result.
-/
namespace CellHeap

open Function

variable {α : Type*}

structure Heap (α : Type*) where
  cell : ℕ → Option α
  brk : ℕ
  fresh : ∀ a, brk ≤ a → cell a = none

def Heap.clear (h : Heap α) (a : ℕ) : Heap α where
  cell := Function.update h.cell a none
  brk := h.brk
  fresh := fun b hb => by
    by_cases hba : b = a
    · rw [hba, update_self]
    · rw [update_of_ne hba]
      exact h.fresh b hb

def Heap.alloc (h : Heap α) (x : α) : Heap α where
  cell := Function.update h.cell h.brk (some x)
  brk := h.brk + 1
  fresh := fun b hb => by
    rw [update_of_ne (by omega)]
    exact h.fresh b (by omega)

def Heap.free (h : Heap α) (a : ℕ) : Option (Heap α) := (h.cell a).map fun _ => h.clear a

section

variable {h : Heap α} {a : ℕ} {x : α}

@[simp] theorem brk_clear : (h.clear a).brk = h.brk := rfl

@[simp] theorem brk_alloc : (h.alloc x).brk = h.brk + 1 := rfl

@[simp] theorem cell_clear_self : (h.clear a).cell a = none := update_self ..

theorem cell_clear_of_ne {b : ℕ} (hne : b ≠ a) : (h.clear a).cell b = h.cell b := update_of_ne hne ..

@[simp] theorem cell_alloc_self : (h.alloc x).cell h.brk = some x := update_self ..

theorem cell_alloc_of_ne {b : ℕ} (hne : b ≠ h.brk) : (h.alloc x).cell b = h.cell b := update_of_ne hne ..

theorem lt_brk_of_cell (hx : h.cell a = some x) : a < h.brk := by
  by_contra hge
  rw [h.fresh a (by omega)] at hx
  cases hx

theorem free_of_cell (hx : h.cell a = some x) : h.free a = some (h.clear a) := by
  rw [Heap.free, hx, Option.map_some]

end

end CellHeap
