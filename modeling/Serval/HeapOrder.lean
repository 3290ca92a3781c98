import Mathlib.Order.RelClasses
import Mathlib.Logic.Equiv.Basic
import Mathlib.Data.Nat.Basic

/-! # Binary heaps in an array

The children of place `i` are `2 * i + 1` and `2 * i + 2`. While an element moves, the order is broken at one
place only: towards its parent (`OrderedUp`), or towards its children (`OrderedDown`).
-/
namespace HeapOrder

open Function Equiv

variable {ι : Type*} {lt : ι → ι → Prop} {m : ℕ → ι} {n i : ℕ}

def parent (i : ℕ) : ℕ := (i - 1) / 2

theorem parent_lt (hi : 0 < i) : parent i < i := by
  unfold parent
  omega

theorem child_cases {c : ℕ} (hc : 0 < c) (h : parent c = i) : c = 2 * i + 1 ∨ c = 2 * i + 2 := by
  unfold parent at h
  omega

def Ordered (lt : ι → ι → Prop) (m : ℕ → ι) (n : ℕ) : Prop :=
  ∀ j, 0 < j → j < n → ¬ lt (m j) (m (parent j))

/-- The element at `i` may be less than its parent. What is below it is not less than either. -/
structure OrderedUp (lt : ι → ι → Prop) (m : ℕ → ι) (n i : ℕ) : Prop where
  other : ∀ j, 0 < j → j < n → j ≠ i → ¬ lt (m j) (m (parent j))
  below : 0 < i → ∀ c, 0 < c → c < n → parent c = i → ¬ lt (m c) (m (parent i))

structure OrderedDown (lt : ι → ι → Prop) (m : ℕ → ι) (n i : ℕ) : Prop where
  other : ∀ j, 0 < j → j < n → parent j ≠ i → ¬ lt (m j) (m (parent j))
  below : 0 < i → ∀ c, 0 < c → c < n → parent c = i → ¬ lt (m c) (m (parent i))

theorem Ordered.mono {k : ℕ} (h : Ordered lt m n) (hk : k ≤ n) : Ordered lt m k :=
  fun j hj hjk => h j hj (by omega)

theorem Ordered.congr_lt {lt' : ι → ι → Prop} (h : Ordered lt m n)
    (hlt : ∀ i j, i < n → j < n → (lt' (m i) (m j) ↔ lt (m i) (m j))) : Ordered lt' m n := by
  intro j hj hjn
  rw [hlt j (parent j) hjn ((parent_lt hj).trans hjn)]
  exact h j hj hjn

theorem Ordered.append (h : Ordered lt m n) (x : ι) : OrderedUp lt (Function.update m n x) (n + 1) n := by
  have hsame : ∀ j, j < n → Function.update m n x j = m j := fun j hj => update_of_ne (by omega) _ _
  refine ⟨fun j hj hjn hne => ?_, fun _ c hc hcn hpar => ?_⟩
  · have hlt : j < n := by omega
    rw [hsame j hlt, hsame _ ((parent_lt hj).trans hlt)]
    exact h j hj hlt
  · have := parent_lt hc
    omega

theorem OrderedUp.done (h : OrderedUp lt m n i) (hi : 0 < i → i < n → ¬ lt (m i) (m (parent i))) : Ordered lt m n := by
  intro j hj hjn
  by_cases hji : j = i
  · subst hji
    exact hi hj hjn
  · exact h.other j hj hjn hji

theorem OrderedDown.done (h : OrderedDown lt m n i)
    (hi : ∀ c, 0 < c → c < n → parent c = i → ¬ lt (m c) (m i)) : Ordered lt m n := by
  intro j hj hjn
  by_cases hji : parent j = i
  · rw [hji]
    exact hi j hj hjn hji
  · exact h.other j hj hjn hji

section Weak

variable [IsStrictWeakOrder ι lt]

theorem not_lt_trans {a b c : ι} (hab : ¬ lt b a) (hbc : ¬ lt c b) : ¬ lt c a := by
  intro hca
  have hba : ¬ lt a b := fun h => hbc (trans_of lt hca h)
  have hcb : ¬ lt b c := fun h => hab (trans_of lt h hca)
  have hinc := IsStrictWeakOrder.incomp_trans a b c ⟨hba, hab⟩ ⟨hcb, hbc⟩
  exact hinc.2 hca

theorem Ordered.root_least (h : Ordered lt m n) : ∀ j, j < n → ¬ lt (m j) (m 0) := by
  intro j
  induction j using Nat.strong_induction_on with
  | _ j ih =>
    intro hjn
    by_cases hj : j = 0
    · subst hj
      exact irrefl_of lt _
    · have hpos : 0 < j := Nat.pos_of_ne_zero hj
      have hpar := parent_lt hpos
      exact not_lt_trans (ih _ hpar (hpar.trans hjn)) (h j hpos hjn)

theorem OrderedUp.step (h : OrderedUp lt m n i) (hi : 0 < i) (hin : i < n) (hlt : lt (m i) (m (parent i))) :
    OrderedUp lt (m ∘ swap i (parent i)) n (parent i) := by
  have hpar := parent_lt hi
  have hup : 0 < parent i → ¬ lt (m (parent i)) (m (parent (parent i))) :=
    fun hp => h.other _ hp (hpar.trans hin) (by omega)
  have hgrand : 0 < parent i → parent (parent i) ≠ i ∧ parent (parent i) ≠ parent i := by
    intro hp
    have := parent_lt hp
    omega
  constructor
  · intro j hj hjn hne
    simp only [comp_apply]
    by_cases hji : j = i
    · rw [hji, swap_apply_left, swap_apply_right]
      exact asymm_of lt hlt
    · rw [swap_apply_of_ne_of_ne hji hne]
      by_cases hpi : parent j = i
      · rw [hpi, swap_apply_left]
        exact h.below hi j hj hjn hpi
      · by_cases hpp : parent j = parent i
        · rw [hpp, swap_apply_right]
          have hsib := h.other j hj hjn hji
          rw [hpp] at hsib
          exact not_lt_trans (asymm_of lt hlt) hsib
        · rw [swap_apply_of_ne_of_ne hpi hpp]
          exact h.other j hj hjn hji
  · intro hp c hc hcn hcp
    obtain ⟨hne, hne'⟩ := hgrand hp
    simp only [comp_apply]
    rw [swap_apply_of_ne_of_ne hne hne']
    by_cases hci : c = i
    · rw [hci, swap_apply_left]
      exact hup hp
    · have hcne : c ≠ parent i := by
        have := parent_lt hc
        omega
      rw [swap_apply_of_ne_of_ne hci hcne]
      have hsib := h.other c hc hcn hci
      rw [hcp] at hsib
      exact not_lt_trans (hup hp) hsib

theorem OrderedDown.step {s : ℕ} (h : OrderedDown lt m n i) (hs : 0 < s) (hsn : s < n) (hpar : parent s = i)
    (hlt : lt (m s) (m i)) (hleast : ∀ c, 0 < c → c < n → parent c = i → ¬ lt (m c) (m s)) :
    OrderedDown lt (m ∘ swap i s) n s := by
  have his : i < s := hpar ▸ parent_lt hs
  constructor
  · intro j hj hjn hne
    simp only [comp_apply]
    by_cases hji : j = i
    · -- the child that has moved up, against the parent of `i`
      subst hji
      have hup := parent_lt hj
      rw [swap_apply_left, swap_apply_of_ne_of_ne (by omega) (by omega)]
      exact h.below hj s hs hsn hpar
    · by_cases hjs : j = s
      · rw [hjs, hpar, swap_apply_left, swap_apply_right]
        exact asymm_of lt hlt
      · rw [swap_apply_of_ne_of_ne hji hjs]
        by_cases hpi : parent j = i
        · rw [hpi, swap_apply_left]
          exact hleast j hj hjn hpi
        · rw [swap_apply_of_ne_of_ne hpi hne]
          exact h.other j hj hjn hpi
  · intro _ c hc hcn hcs
    simp only [comp_apply]
    have hsc : s < c := hcs ▸ parent_lt hc
    rw [hpar, swap_apply_left, swap_apply_of_ne_of_ne (by omega) (by omega)]
    have hchild := h.other c hc hcn (by omega)
    rwa [hcs] at hchild

theorem Ordered.replace (h : Ordered lt m n) {x : ι} (hfits : 0 < i → ¬ lt x (m (parent i))) :
    OrderedDown lt (Function.update m i x) n i := by
  constructor
  · intro j hj hjn hne
    rw [update_of_ne hne]
    by_cases hji : j = i
    · rw [hji, update_self]
      exact hfits (hji ▸ hj)
    · rw [update_of_ne hji]
      exact h j hj hjn
  · intro hi c hc hcn hci
    have hic : i < c := hci ▸ parent_lt hc
    have hup := parent_lt hi
    rw [update_of_ne (by omega), update_of_ne (by omega)]
    have hchild := h c hc hcn
    rw [hci] at hchild
    exact not_lt_trans (h i hi (by omega)) hchild

end Weak

end HeapOrder
