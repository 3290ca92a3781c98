import Mathlib.Algebra.BigOperators.Ring.List
import Serval.ServiceIterator
import Serval.WeightedChoice

/-! # The target of an anycast

`service_iter_init` scales a random number to the sum of the weights, with 32 bits behind the point. The numbers have 64
bits, and that is enough.
-/
namespace ServiceAnycast

open ServiceTargets ServiceIterator WeightedChoice UInt32

def share (t : Target) : ℕ := t.weight.toNat * 2 ^ 32

def sampleOf (random : UInt64) (normalizer : UInt32) : UInt64 :=
  (random <<< 32) / UInt64.ofNat RAND_MAX * normalizer.toUInt64

section Arithmetic

variable {random : ℕ} {normalizer : UInt32}

theorem quotient_le (h : random ≤ RAND_MAX) : random * 2 ^ 32 / RAND_MAX ≤ 2 ^ 32 := by
  apply Nat.div_le_of_le_mul
  rw [mul_comm]
  exact Nat.mul_le_mul_left _ h

theorem sample_le (h : random ≤ RAND_MAX) (n : ℕ) : random * 2 ^ 32 / RAND_MAX * n ≤ n * 2 ^ 32 := by
  rw [mul_comm]
  exact Nat.mul_le_mul_left _ (quotient_le h)

theorem sample_lt (h : random ≤ RAND_MAX) : random * 2 ^ 32 / RAND_MAX * normalizer.toNat < 2 ^ 64 := by
  have hle := sample_le h normalizer.toNat
  have hlt := normalizer.toNat_lt
  omega

theorem toNat_sampleOf (h : random ≤ RAND_MAX) :
    (sampleOf (.ofNat random) normalizer).toNat = random * 2 ^ 32 / RAND_MAX * normalizer.toNat := by
  have hmax : RAND_MAX = 2147483647 := rfl
  have hofNat : (UInt64.ofNat random).toNat = random := UInt64.toNat_ofNat_of_lt' (show random < 2 ^ 64 by omega)
  have hshift : (UInt64.ofNat random <<< 32).toNat = random * 2 ^ 32 := by
    rw [UInt64.toNat_shiftLeft, hofNat, Nat.shiftLeft_eq]
    apply Nat.mod_eq_of_lt
    show random * 2 ^ 32 < 2 ^ 64
    omega
  have hdiv : ((UInt64.ofNat random <<< 32) / UInt64.ofNat RAND_MAX).toNat = random * 2 ^ 32 / RAND_MAX := by
    rw [UInt64.toNat_div, hshift]
    rfl
  rw [sampleOf, UInt64.toNat_mul, hdiv, toNat_toUInt64]
  exact Nat.mod_eq_of_lt (sample_lt h)

theorem sampleOf_eq (h : random ≤ RAND_MAX) :
    UInt64.ofNat ((random <<< 32) / RAND_MAX) * normalizer.toUInt64 = sampleOf (.ofNat random) normalizer := by
  apply UInt64.toNat.inj
  have hle := quotient_le h
  rw [toNat_sampleOf h, Nat.shiftLeft_eq, UInt64.toNat_mul, toNat_toUInt64,
    UInt64.toNat_ofNat_of_lt' (show random * 2 ^ 32 / RAND_MAX < 2 ^ 64 by omega)]
  exact Nat.mod_eq_of_lt (sample_lt h)

end Arithmetic

theorem sampleTarget_eq {sample sum : UInt64} {ts : List Target} (h : sum.toNat + total share ts < 2 ^ 64) :
    sampleTarget sample sum ts = choose share sample.toNat sum.toNat ts := by
  induction ts generalizing sum with
  | nil => rfl
  | cons t rest ih =>
    rw [total_cons] at h
    have hshift : (t.weight.toUInt64 <<< 32).toNat = share t := by
      have hlt := t.weight.toNat_lt
      rw [UInt64.toNat_shiftLeft, toNat_toUInt64, Nat.shiftLeft_eq]
      apply Nat.mod_eq_of_lt
      show t.weight.toNat * 2 ^ 32 < 2 ^ 64
      omega
    have hsum : (sum + (t.weight.toUInt64 <<< 32)).toNat = sum.toNat + share t := by
      rw [UInt64.toNat_add, hshift]
      exact Nat.mod_eq_of_lt (by omega)
    rw [sampleTarget, choose]
    simp only [UInt64.le_iff_toNat_le, hsum]
    split
    · rfl
    · rw [ih (by rw [hsum]; omega), hsum]

def weights (ts : List Target) : ℕ := total (fun t => t.weight.toNat) ts

theorem total_share (ts : List Target) : total share ts = weights ts * 2 ^ 32 := by
  rw [weights, total, total, ← List.sum_map_mul_right]
  rfl

/-- An entry whose first set is there to sample from: it has targets and is not for multicast, and its normalizer is the
sum of the weights, none of which is 0. -/
structure Samples (se : ServiceEntry) (set : TargetSet) : Prop where
  first : se.targetSet.head? = some set
  counted : se.count ≠ 0
  filled : set.list ≠ []
  anycast : set.flags &&& SVSF_MULTICAST = 0
  normalizer : set.normalizer.toNat = weights set.list
  positive : ∀ t ∈ set.list, 1 ≤ t.weight.toNat

def sampled (ts : List Target) : ServiceIter × ℤ := (⟨.anycast, none, some ts, none⟩, 0)

section Init

variable {se : ServiceEntry} {set : TargetSet} {random : ℕ}

theorem init_anycast (h : Samples se set) (hrandom : random ≤ RAND_MAX) : serviceIterInit se .anycast random =
      sampled (choose share (sampleOf (.ofNat random) set.normalizer).toNat 0 set.list) := by
  have hlt := set.normalizer.toNat_lt
  have hfit : (0 : UInt64).toNat + total share set.list < 2 ^ 64 := by
    rw [total_share, ← h.normalizer, UInt64.toNat_zero]
    omega
  obtain ⟨rest, hsets⟩ : ∃ rest, se.targetSet = set :: rest := List.head?_eq_some_iff.mp h.first
  rw [serviceIterInit, hsets]
  simp only [h.counted, h.anycast, ↓reduceIte, ne_eq, not_true_eq_false, and_false]
  rw [sampleOf_eq hrandom, sampleTarget_eq hfit]
  rfl

theorem sampled_inj {ts ts' : List Target} : sampled ts = sampled ts' ↔ ts = ts' := by
  simp [sampled]

theorem exists_sampled (h : Samples se set) (hrandom : random ≤ RAND_MAX) :
    ∃ ahead t rest, set.list = ahead ++ t :: rest ∧ serviceIterInit se .anycast random = sampled (t :: rest) := by
  have hle := sample_le hrandom set.normalizer.toNat
  rw [← toNat_sampleOf hrandom, h.normalizer, ← total_share] at hle
  obtain ⟨ahead, t, rest, hsplit, hchosen⟩ := exists_chosen h.filled (hle.trans_eq (zero_add _).symm)
  exact ⟨ahead, t, rest, hsplit, by rw [init_anycast h hrandom, hchosen]⟩

/-- Two neighbouring random numbers give samples that lie less than three normalizers apart. -/
theorem sample_step (n r : ℕ) : (r + 1) * 2 ^ 32 / RAND_MAX * n ≤ r * 2 ^ 32 / RAND_MAX * n + 3 * n := by
  have hquotient : (r + 1) * 2 ^ 32 / RAND_MAX ≤ r * 2 ^ 32 / RAND_MAX + 3 := by
    have hmax : RAND_MAX = 2147483647 := rfl
    rw [hmax]
    omega
  calc (r + 1) * 2 ^ 32 / RAND_MAX * n ≤ (r * 2 ^ 32 / RAND_MAX + 3) * n := Nat.mul_le_mul_right n hquotient
    _ = r * 2 ^ 32 / RAND_MAX * n + 3 * n := add_mul _ _ _

/-- Every random number selects a target inside the loop, the one whose interval the sample lies in. A target whose
weight is not too small beside the normalizer is selected by some number. -/
theorem anycast_selects (h : Samples se set) : (∀ r ≤ RAND_MAX, ∃ s, (sampleOf (.ofNat r) set.normalizer).toNat = s ∧
      s = r * 2 ^ 32 / RAND_MAX * set.normalizer.toNat ∧
      (∃ ahead t rest, set.list = ahead ++ t :: rest ∧ serviceIterInit se .anycast r = sampled (t :: rest)) ∧
      ∀ ahead t rest, set.list = ahead ++ t :: rest → (serviceIterInit se .anycast r = sampled (t :: rest) ↔
          (ahead = [] ∨ weights ahead * 2 ^ 32 < s) ∧ s ≤ weights (ahead ++ [t]) * 2 ^ 32)) ∧
    ∀ ahead t rest, set.list = ahead ++ t :: rest →
      (set.normalizer.toNat + (RAND_MAX - 1)) / RAND_MAX + 1 ≤ t.weight.toNat →
      ∃ r ≤ RAND_MAX, serviceIterInit se .anycast r = sampled (t :: rest) := by
  have hinterval : ∀ s ahead t rest, set.list = ahead ++ t :: rest → (choose share s 0 set.list = t :: rest ↔
        (ahead = [] ∨ weights ahead * 2 ^ 32 < s) ∧ s ≤ weights (ahead ++ [t]) * 2 ^ 32) := by
    intro s ahead t rest hsplit
    rw [hsplit, choose_eq_iff, zero_add, ← total_share, ← total_share, total_append, total_cons, total_nil, add_zero]
  constructor
  · intro r hr
    refine ⟨_, rfl, toNat_sampleOf hr, exists_sampled h hr, ?_⟩
    intro ahead t rest hsplit
    rw [init_anycast h hr, sampled_inj, hinterval _ ahead t rest hsplit]
  · intro ahead t rest hsplit hweight
    have hnormalizer := h.normalizer
    rw [hsplit, weights, total_append, total_cons] at hnormalizer
    have hlt := set.normalizer.toNat_lt
    have hpositive := h.positive t (by simp [hsplit])
    -- three normalizers fit into the interval of the target
    have hwide : 3 * set.normalizer.toNat ≤ t.weight.toNat * 2 ^ 32 := by
      have hmax : RAND_MAX = 2147483647 := rfl
      rw [hmax] at hweight
      omega
    have hlast : weights ahead * 2 ^ 32 < RAND_MAX * 2 ^ 32 / RAND_MAX * set.normalizer.toNat := by
      rw [Nat.mul_div_cancel_left _ (by decide), weights]
      omega
    obtain ⟨r, hr, habove, hbelow⟩ := @exists_hit (fun r => r * 2 ^ 32 / RAND_MAX * set.normalizer.toNat) _ _
      RAND_MAX (by simp) hlast fun r _ => sample_step set.normalizer.toNat r
    refine ⟨r, hr, ?_⟩
    rw [init_anycast h hr, sampled_inj, hinterval _ ahead t rest hsplit, toNat_sampleOf hr]
    refine ⟨.inr habove, hbelow.trans ?_⟩
    rw [weights, weights, total_append, total_cons, total_nil]
    omega

end Init

namespace Sample

def light : Target := ⟨.forward, 1, {}, .oif 1, [10, 0, 0, 1]⟩
def heavy : Target := ⟨.forward, 3, {}, .oif 1, [10, 0, 0, 2]⟩

def both : TargetSet := ⟨[light, heavy], 4, 1, 0, 2⟩

def entry : ServiceEntry := ⟨[both], 2⟩

theorem entry_samples : Samples entry both where
  first := rfl
  counted := by decide
  filled := by decide
  anycast := by decide
  normalizer := by decide
  positive := by decide

end Sample

open Sample in
/-- The greatest random number selects a target, and the heavier target is selected by some number. -/
theorem anycast_selects_heavy :
    (∃ ahead t rest, both.list = ahead ++ t :: rest ∧ serviceIterInit entry .anycast RAND_MAX = sampled (t :: rest)) ∧
      ∃ r ≤ RAND_MAX, serviceIterInit entry .anycast r = sampled [heavy] := by
  obtain ⟨hselects, hreached⟩ := anycast_selects entry_samples
  obtain ⟨s, -, -, hinside, -⟩ := hselects RAND_MAX (le_refl _)
  exact ⟨hinside, hreached [light] heavy [] rfl (by decide)⟩

end ServiceAnycast
