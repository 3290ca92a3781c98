import Mathlib.Algebra.BigOperators.Group.List.Basic
import Mathlib.Algebra.Order.Ring.Nat
import Mathlib.Data.Nat.Find

/-! # Choosing by cumulated weights

The elements of a list own consecutive intervals of numbers, as long as their weights. A sequence that climbs by steps
that fit into an interval does not miss it.
-/
namespace WeightedChoice

open List

variable {α : Type*} (w : α → ℕ)

def total (l : List α) : ℕ := (l.map w).sum

@[simp] theorem total_nil : total w [] = 0 := rfl

@[simp] theorem total_cons (x : α) (l : List α) : total w (x :: l) = w x + total w l := rfl

@[simp] theorem total_append (l l' : List α) : total w (l ++ l') = total w l + total w l' := by
  simp [total]

/-- The list from the first element on at which the cumulated weight reaches the sample; `sum` is what has been
passed. -/
def choose (sample : ℕ) : ℕ → List α → List α
  | _, [] => []
  | sum, x :: rest => if sample ≤ sum + w x then x :: rest else choose sample (sum + w x) rest

variable {w} {sample sum : ℕ} {l : List α}

theorem length_choose_le : (choose w sample sum l).length ≤ l.length := by
  induction l generalizing sum with
  | nil => exact le_refl _
  | cons x rest ih =>
    rw [choose]
    split
    · exact le_refl _
    · exact Nat.le_succ_of_le ih

/-- An element is chosen exactly by the numbers of its interval. The first one has the numbers up to `sum` as well. -/
theorem choose_eq_iff {ahead rest : List α} {x : α} : choose w sample sum (ahead ++ x :: rest) = x :: rest ↔
      (ahead = [] ∨ sum + total w ahead < sample) ∧ sample ≤ sum + total w ahead + w x := by
  induction ahead generalizing sum with
  | nil =>
    rw [nil_append, choose]
    by_cases hle : sample ≤ sum + w x
    · simp [hle]
    · -- what is chosen behind `x` is shorter than the list from `x` on
      have hlen := @length_choose_le _ w sample (sum + w x) rest
      have hne : choose w sample (sum + w x) rest ≠ x :: rest := by
        intro h
        rw [h, length_cons] at hlen
        omega
      simp [hle, hne]
  | cons y ahead ih =>
    rw [cons_append, choose, total_cons]
    by_cases hle : sample ≤ sum + w y
    · have hne : y :: (ahead ++ x :: rest) ≠ x :: rest := by
        intro h
        have hlen := congrArg List.length h
        simp only [length_cons, length_append] at hlen
        omega
      simp only [hle, ↓reduceIte, hne, false_iff, reduceCtorEq, false_or]
      omega
    · simp only [hle, ↓reduceIte, ih, reduceCtorEq, false_or]
      cases ahead with
      | nil | cons z ahead => simp; omega

theorem exists_chosen (hne : l ≠ []) (h : sample ≤ sum + total w l) :
    ∃ ahead x rest, l = ahead ++ x :: rest ∧ choose w sample sum l = x :: rest := by
  induction l generalizing sum with
  | nil => exact absurd rfl hne
  | cons x rest ih =>
    rw [choose]
    by_cases hle : sample ≤ sum + w x
    · exact ⟨[], x, rest, rfl, by simp [hle]⟩
    · rw [total_cons] at h
      have hrest : rest ≠ [] := by
        rintro rfl
        simp at h
        omega
      obtain ⟨ahead, y, behind, rfl, hchosen⟩ := @ih (sum + w x) hrest (by omega)
      exact ⟨x :: ahead, y, behind, rfl, by simp [hle, hchosen]⟩

/-- A sequence that starts at or below `a`, ends above it and climbs by `d` at most comes into the `d` numbers above
`a`. -/
theorem exists_hit {f : ℕ → ℕ} {a d last : ℕ} (hstart : f 0 ≤ a) (hend : a < f last)
    (hstep : ∀ r, r < last → f (r + 1) ≤ f r + d) : ∃ r ≤ last, a < f r ∧ f r ≤ a + d := by
  have hex : ∃ r, a < f r := ⟨last, hend⟩
  let r := Nat.find hex
  have habove : a < f r := Nat.find_spec hex
  have hle : r ≤ last := Nat.find_min' hex hend
  refine ⟨r, hle, habove, ?_⟩
  cases hr : r with
  | zero =>
    rw [hr] at habove
    omega
  | succ k =>
    have hbelow : f k ≤ a := not_lt.mp (Nat.find_min hex (show k < r by omega))
    have hclimb := hstep k (by omega)
    omega

end WeightedChoice
