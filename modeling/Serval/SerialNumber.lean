import Mathlib.Algebra.Order.Ring.Nat

/-! # Serial numbers

Counters of 32 bits that wrap around, compared by the sign of their difference. Seen from a base, numbers less than half
the circle ahead compare as their distances do.
-/
namespace SerialNumber

open UInt32

def before (a b : UInt32) : Bool := decide ((a - b).toInt32 < 0)

def after (a b : UInt32) : Bool := before b a

def ahead (base x : UInt32) : ℕ := (x - base).toNat

section

variable (a base x b : UInt32)

theorem before_iff : before a b = true ↔ 2 ^ 31 ≤ ahead b a := by
  have hlt : ahead b a < 2 ^ 32 := (a - b).toNat_lt
  have hint : (a - b).toInt32.toInt = ((ahead b a : ℕ) : ℤ).bmod (2 ^ 32) :=
    BitVec.toInt_eq_toNat_bmod _
  rw [before, decide_eq_true_iff, Int32.lt_iff_toInt_lt, hint, Int32.toInt_zero, Int.bmod_def]
  omega

theorem not_before_iff : before a b = false ↔ ahead b a < 2 ^ 31 := by
  have h := before_iff a b
  rw [← Bool.not_eq_true, h, not_le]

theorem ahead_lt : ahead base x < 2 ^ 32 := (x - base).toNat_lt

theorem ahead_eq : ahead base x = (2 ^ 32 - base.toNat + x.toNat) % 2 ^ 32 := by
  rw [ahead, UInt32.toNat_sub]

@[simp] theorem ahead_self : ahead x x = 0 := by simp [ahead]

end

variable {a base x y : UInt32}

theorem ahead_inj (h : ahead base x = ahead base y) : x = y := by
  rw [ahead_eq, ahead_eq] at h
  have hb := base.toNat_lt
  have hx := x.toNat_lt
  have hy := y.toNat_lt
  apply toNat.inj
  omega

theorem ahead_succ (h : ahead base x + 1 < 2 ^ 32) : ahead base (x + 1) = ahead base x + 1 := by
  rw [ahead_eq] at h ⊢
  rw [ahead_eq, UInt32.toNat_add]
  have hb := base.toNat_lt
  have hx := x.toNat_lt
  simp only [UInt32.toNat_one]
  omega

theorem ahead_succ_self (x : UInt32) : ahead x (x + 1) = 1 := by
  rw [ahead_succ (by simp), ahead_self]

theorem ahead_succ_le (base x : UInt32) : ahead base (x + 1) ≤ ahead base x + 1 := by
  rw [ahead_eq, ahead_eq, UInt32.toNat_add]
  have hb := base.toNat_lt
  have hx := x.toNat_lt
  simp only [UInt32.toNat_one]
  omega

theorem ahead_trans {b c : UInt32} (h : ahead a b + ahead b c < 2 ^ 32) : ahead a c = ahead a b + ahead b c := by
  rw [ahead_eq, ahead_eq] at h
  rw [ahead_eq, ahead_eq, ahead_eq]
  have ha := a.toNat_lt
  have hb := b.toNat_lt
  have hc := c.toNat_lt
  omega

/-- Seen from a base, numbers less than half the circle ahead compare as their distances do. -/
theorem before_iff_lt (hx : ahead base x < 2 ^ 31)
    (hy : ahead base y < 2 ^ 31) : before x y = true ↔ ahead base x < ahead base y := by
  rw [before_iff]
  rw [ahead_eq] at hx hy ⊢
  rw [ahead_eq, ahead_eq]
  have hb := base.toNat_lt
  have hxn := x.toNat_lt
  have hyn := y.toNat_lt
  omega

theorem not_after_of_le (h : ahead base x ≤ ahead base y) (hy : ahead base y < 2 ^ 31) : after x y = false := by
  rw [after, ← Bool.not_eq_true, before_iff_lt hy (lt_of_le_of_lt h hy)]
  exact not_lt.mpr h

theorem before_self (x : UInt32) : before x x = false := by
  rw [not_before_iff, ahead_self]
  decide

theorem after_succ_self (x : UInt32) : after (x + 1) x = true := by
  have hself : ahead x x < 2 ^ 31 := by rw [ahead_self]; decide
  have hsucc : ahead x (x + 1) < 2 ^ 31 := by rw [ahead_succ_self]; decide
  rw [after, before_iff_lt hself hsucc, ahead_self, ahead_succ_self]
  decide

theorem after_of_not_before {b : UInt32} (h : before a b = false) (hne : a ≠ b) : after a b = true := by
  rw [not_before_iff, ahead_eq] at h
  rw [after, before_iff, ahead_eq]
  have ha := a.toNat_lt
  have hb := b.toNat_lt
  have hne : a.toNat ≠ b.toNat := fun heq => hne (toNat.inj heq)
  omega

theorem eq_or_eq_succ (h : before a x = false) (h' : after a (x + 1) = false) : a = x ∨ a = x + 1 := by
  rw [not_before_iff] at h
  rw [after, not_before_iff, ahead_eq, UInt32.toNat_add] at h'
  have ha := a.toNat_lt
  have hx := x.toNat_lt
  simp only [UInt32.toNat_one] at h'
  have hahead : ahead x a = 0 ∨ ahead x a = 1 := by
    rw [ahead_eq] at h ⊢
    omega
  rcases hahead with heq | heq
  · exact .inl (ahead_inj (heq.trans (ahead_self x).symm))
  · exact .inr (ahead_inj (heq.trans (ahead_succ_self x).symm))

theorem ahead_succ_of_not_before {v : UInt32} (h : before v x = false) :
    1 ≤ ahead x (v + 1) ∧ ahead x (v + 1) ≤ 2 ^ 31 := by
  rw [not_before_iff] at h
  rw [ahead_succ (by omega)]
  omega

theorem before_of_ahead_succ {v : UInt32} (h : ahead (v + 1) x < 2 ^ 31) : before v x = true := by
  rw [before_iff]
  rw [ahead_eq] at h ⊢
  rw [UInt32.toNat_add] at h
  have hv := v.toNat_lt
  have hx := x.toNat_lt
  simp only [UInt32.toNat_one] at h
  omega

end SerialNumber
