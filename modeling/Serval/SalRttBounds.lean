import Serval.SalRtt

/-! # The bounds of the retransmission timeout

The estimator mixes a signed working variable with unsigned 32-bit fields. It is compared with one that has no
result as soon as a value does not fit its type.
-/
namespace SalRttBounds

open SerialNumber SalRtt List Option UInt32

def store (z : ℤ) : Option UInt32 := if 0 ≤ z ∧ z < 2 ^ 32 then some (UInt32.ofInt z) else none

/-- A value of the signed working variable, which has 64 bits. -/
def long (z : ℤ) : Option ℤ := if -2 ^ 63 ≤ z ∧ z < 2 ^ 63 then some z else none

def deviation (err : ℤ) (mdev : UInt32) : Option ℤ :=
  if err < 0 then
    (long (-err)).bind fun m => (long (m - ↑(mdev.toNat / 4))).bind fun m => some (if 0 < m then m / 8 else m)
  else long (err - ↑(mdev.toNat / 4))

def raise (mdev mdevMax rttvar : UInt32) : UInt32 × UInt32 :=
  if mdevMax < mdev then (mdev, if rttvar < mdev then mdev else rttvar) else (mdevMax, rttvar)

def letDown (mdevMax rttvar : UInt32) : Option UInt32 :=
  if mdevMax < rttvar then
    (store (rttvar.toNat - mdevMax.toNat)).bind fun gap => store (rttvar.toNat - gap.toNat / 4)
  else some rttvar

/-- `serval_sal_rtt_estimator` where every assignment is checked. -/
def estimatorChecked (una nxt : UInt32) (r : Rtt) (mrtt : UInt32) : Option Rtt :=
  (long (if mrtt = 0 then 1 else mrtt.toNat)).bind fun m =>
    if r.srtt ≠ 0 then
      (long (m - ↑(r.srtt.toNat / 8))).bind fun err =>
        (store (r.srtt.toNat + err)).bind fun srtt =>
          (deviation err r.mdev).bind fun dev => (store (r.mdev.toNat + dev)).bind fun mdev =>
            let top := raise mdev r.mdevMax r.rttvar
            if after una r.rttSeq then
              (letDown top.1 top.2).bind fun var =>
                some { r with srtt := srtt, mdev := mdev, mdevMax := SAL_RTO_MIN, rttvar := var, rttSeq := nxt }
            else some { r with srtt := srtt, mdev := mdev, mdevMax := top.1, rttvar := top.2 }
    else
      (long (m * 8)).bind fun m8 => (store m8).bind fun srtt =>
        (long (m * 2)).bind fun m2 => (store m2).bind fun mdev =>
          let var := if mdev < SAL_RTO_MIN then SAL_RTO_MIN else mdev
          some { r with srtt := srtt, mdev := mdev, mdevMax := var, rttvar := var, rttSeq := nxt }

def updateChecked (una nxt : UInt32) (r : Rtt) (seqRtt : UInt32) : Option Rtt :=
  (estimatorChecked una nxt r seqRtt).bind fun r =>
    (store ↑(r.srtt.toNat / 8 + r.rttvar.toNat)).bind fun rto =>
      some { servalSalBoundRto { r with rto := rto } with backoff := 0 }

structure Sample where
  una : UInt32
  nxt : UInt32
  rtt : UInt32
  deriving DecidableEq, Repr

def feed (r : Rtt) (s : Sample) : Rtt := servalSalUpdateRtt s.una s.nxt r s.rtt

def feedAll (r : Rtt) (samples : List Sample) : Rtt := samples.foldl feed r

def feedChecked (r : Rtt) (samples : List Sample) : Option Rtt :=
  samples.foldlM (fun r s => updateChecked s.una s.nxt r s.rtt) r

def rttLimit : ℕ := 2 ^ 28

structure Bounded (r : Rtt) : Prop where
  srtt : r.srtt.toNat ≤ 8 * rttLimit
  /-- so that an eighth of it is not 0 -/
  sampled : r.srtt = 0 ∨ 8 ≤ r.srtt.toNat
  mdev : r.mdev.toNat ≤ 4 * rttLimit
  mdevMax : SAL_RTO_MIN.toNat ≤ r.mdevMax.toNat ∧ r.mdevMax.toNat ≤ 4 * rttLimit
  rttvar : SAL_RTO_MIN.toNat ≤ r.rttvar.toNat ∧ r.rttvar.toNat ≤ 4 * rttLimit

variable {una nxt : UInt32} {r : Rtt} {z : ℤ}

theorem store_eq (h : 0 ≤ z) (h' : z < 2 ^ 32) :
    store z = some (UInt32.ofInt z) ∧ ((UInt32.ofInt z).toNat : ℤ) = z := by
  refine ⟨if_pos ⟨h, h'⟩, ?_⟩
  rw [UInt32.ofInt, Int.emod_eq_of_lt h h', toNat_ofNat_of_lt' (show z.toNat < 4294967296 by omega)]
  omega

theorem long_eq (h : -2 ^ 63 ≤ z) (h' : z < 2 ^ 63) : long z = some z := if_pos ⟨h, h'⟩

section

variable (a : UInt32) {err : ℤ} {mdev mdevMax rttvar : UInt32}

theorem ofInt_toNat : UInt32.ofInt a.toNat = a := by
  have := a.toNat_lt
  have := (@store_eq a.toNat (by omega) (by omega)).2
  exact UInt32.toNat_inj.mp (by omega)

theorem toNat_shiftRight_three : (a >>> 3).toNat = a.toNat / 8 := by
  rw [UInt32.toNat_shiftRight, Nat.shiftRight_eq_div_pow]
  rfl

theorem toNat_shiftRight_two : (a >>> 2).toNat = a.toNat / 4 := by
  rw [UInt32.toNat_shiftRight, Nat.shiftRight_eq_div_pow]
  rfl

theorem init_bounded : Bounded Rtt.init := by
  constructor <;> decide

def measured (mrtt : UInt32) : ℤ := if mrtt = 0 then 1 else mrtt.toNat

theorem measured_bounds {mrtt : UInt32} (h : mrtt.toNat < rttLimit) : 1 ≤ measured mrtt ∧ measured mrtt ≤ rttLimit := by
  rw [measured]
  by_cases hz : mrtt = 0
  · rw [if_pos hz]
    exact ⟨le_rfl, by decide⟩
  · rw [if_neg hz]
    have : mrtt.toNat ≠ 0 := fun h => hz (UInt32.toNat_inj.mp h)
    omega

/-- The change of the mean deviation, as the estimator computes it from the error and from a
quarter of the deviation. -/
def change (err : ℤ) (quarter : ℕ) : ℤ :=
  let dev := (if err < 0 then -err else err) - quarter
  if err < 0 ∧ 0 < dev then dev / 8 else dev

theorem change_bounds {quarter : ℕ} (h : -rttLimit ≤ err) (h' : err ≤ rttLimit) :
    -(quarter : ℤ) ≤ change err quarter ∧ change err quarter ≤ rttLimit - quarter := by
  rw [change]
  by_cases hneg : err < 0
  · simp only [hneg, if_true, true_and]
    split <;> omega
  · simp only [hneg, if_false, false_and]
    omega

theorem deviation_eq (mdev : UInt32) (h : -rttLimit ≤ err) (h' : err ≤ rttLimit) :
    deviation err mdev = some (change err (mdev.toNat / 4)) := by
  have hlimit : (rttLimit : ℤ) = 268435456 := rfl
  have := mdev.toNat_lt
  rw [deviation, change]
  by_cases hneg : err < 0
  · simp only [hneg, if_true, true_and]
    rw [long_eq (by omega) (by omega), bind_some, long_eq (by omega) (by omega), bind_some]
  · simp only [hneg, if_false, false_and]
    exact long_eq (by omega) (by omega)

theorem raise_bounds {low high : ℕ} (hd : mdev.toNat ≤ high)
    (hx : low ≤ mdevMax.toNat ∧ mdevMax.toNat ≤ high) (hv : low ≤ rttvar.toNat ∧ rttvar.toNat ≤ high) :
    (low ≤ (raise mdev mdevMax rttvar).1.toNat ∧ (raise mdev mdevMax rttvar).1.toNat ≤ high) ∧
      low ≤ (raise mdev mdevMax rttvar).2.toNat ∧ (raise mdev mdevMax rttvar).2.toNat ≤ high := by
  rw [raise]
  by_cases hlt : mdevMax < mdev
  · have hd' : low ≤ mdev.toNat ∧ mdev.toNat ≤ high :=
      ⟨hx.1.trans (lt_iff_toNat_lt.mp hlt).le, hd⟩
    rw [if_pos hlt]
    refine ⟨hd', ?_⟩
    by_cases hvar : rttvar < mdev
    · simpa only [if_pos hvar] using hd'
    · simpa only [if_neg hvar] using hv
  · rw [if_neg hlt]
    exact ⟨hx, hv⟩

theorem toNat_sub_quarter (h : mdevMax < rttvar) :
    (rttvar - ((rttvar - mdevMax) >>> 2)).toNat = rttvar.toNat - (rttvar.toNat - mdevMax.toNat) / 4 := by
  have hgap := UInt32.toNat_sub_of_le _ _ (UInt32.le_of_lt h)
  rw [UInt32.toNat_sub_of_le, toNat_shiftRight_two, hgap]
  rw [UInt32.le_iff_toNat_le, toNat_shiftRight_two]
  omega

theorem letDown_eq (mdevMax rttvar : UInt32) : letDown mdevMax rttvar =
    some (if mdevMax < rttvar then rttvar - ((rttvar - mdevMax) >>> 2) else rttvar) := by
  rw [letDown]
  by_cases hlt : mdevMax < rttvar
  · have hnat := UInt32.lt_iff_toNat_lt.mp hlt
    have := rttvar.toNat_lt
    have hgap := @store_eq (rttvar.toNat - mdevMax.toNat) (by omega) (by omega)
    rw [if_pos hlt, if_pos hlt, hgap.1, bind_some]
    have hvar := @store_eq (rttvar.toNat - (UInt32.ofInt (rttvar.toNat - mdevMax.toNat)).toNat / 4)
      (by omega) (by omega)
    rw [hvar.1]
    apply congrArg some
    apply UInt32.toNat_inj.mp
    rw [toNat_sub_quarter hlt]
    omega
  · rw [if_neg hlt, if_neg hlt]

theorem letDown_bounds {var : UInt32} {low high : ℕ} (h : letDown mdevMax rttvar = some var)
    (hx : low ≤ mdevMax.toNat) (hv : low ≤ rttvar.toNat ∧ rttvar.toNat ≤ high) :
    low ≤ var.toNat ∧ var.toNat ≤ high := by
  cases (letDown_eq mdevMax rttvar).symm.trans h
  by_cases hlt : mdevMax < rttvar
  · have := lt_iff_toNat_lt.mp hlt
    rw [if_pos hlt, toNat_sub_quarter hlt]
    omega
  · rw [if_neg hlt]
    exact hv

theorem rtoMin_le : SAL_RTO_MIN.toNat ≤ 4 * rttLimit := by decide

theorem floor_bounds (h : mdev.toNat ≤ 4 * rttLimit) :
    SAL_RTO_MIN.toNat ≤ (if mdev < SAL_RTO_MIN then SAL_RTO_MIN else mdev).toNat ∧
      (if mdev < SAL_RTO_MIN then SAL_RTO_MIN else mdev).toNat ≤ 4 * rttLimit := by
  by_cases hlt : mdev < SAL_RTO_MIN
  · rw [if_pos hlt]
    exact ⟨le_rfl, rtoMin_le⟩
  · rw [if_neg hlt]
    exact ⟨UInt32.le_iff_toNat_le.mp (UInt32.not_lt.mp hlt), h⟩

end

def nextSrtt (r : Rtt) (mrtt : UInt32) : ℤ := r.srtt.toNat + (measured mrtt - ↑(r.srtt.toNat / 8))

def nextMdev (r : Rtt) (mrtt : UInt32) : ℤ :=
  r.mdev.toNat + change (measured mrtt - ↑(r.srtt.toNat / 8)) (r.mdev.toNat / 4)

theorem estimator_next_eq (una nxt mrtt : UInt32) (h : r.srtt ≠ 0) :
    servalSalRttEstimator una nxt r mrtt = let mdev := UInt32.ofInt (nextMdev r mrtt)
      let top := raise mdev r.mdevMax r.rttvar
      if after una r.rttSeq then
        { r with
          srtt := UInt32.ofInt (nextSrtt r mrtt), mdev := mdev, mdevMax := SAL_RTO_MIN
          rttvar := if top.1 < top.2 then top.2 - ((top.2 - top.1) >>> 2) else top.2, rttSeq := nxt }
      else { r with srtt := UInt32.ofInt (nextSrtt r mrtt), mdev := mdev, mdevMax := top.1, rttvar := top.2 } := by
  rw [nextMdev, nextSrtt, ← toNat_shiftRight_three, ← toNat_shiftRight_two, change, measured]
  refine (if_pos h).trans ?_
  simp only [raise]
  generalize UInt32.ofInt (↑r.mdev.toNat + _) = mdev
  by_cases hlt : r.mdevMax < mdev
  · simp only [if_pos hlt]
  · simp only [if_neg hlt]

section Sampled

variable {mrtt : UInt32} (hrtt : mrtt.toNat < rttLimit)
include hrtt

def Sampled (una nxt : UInt32) (r : Rtt) (mrtt : UInt32) : Prop :=
  estimatorChecked una nxt r mrtt = some (servalSalRttEstimator una nxt r mrtt) ∧
    Bounded (servalSalRttEstimator una nxt r mrtt) ∧ 8 ≤ (servalSalRttEstimator una nxt r mrtt).srtt.toNat

theorem sampled_first (una nxt : UInt32) (h : r.srtt = 0) : Sampled una nxt r mrtt := by
  have hm := measured_bounds hrtt
  have hlimit : rttLimit = 268435456 := rfl
  have hs := @store_eq (measured mrtt * 8) (by omega) (by omega)
  have hd := @store_eq (measured mrtt * 2) (by omega) (by omega)
  have hvar := @floor_bounds (UInt32.ofInt (measured mrtt * 2)) (by omega)
  have heq : servalSalRttEstimator una nxt r mrtt = let mdev := UInt32.ofInt (measured mrtt * 2)
      let var := if mdev < SAL_RTO_MIN then SAL_RTO_MIN else mdev
      { r with
        srtt := UInt32.ofInt (measured mrtt * 8), mdev := mdev, mdevMax := var, rttvar := var, rttSeq := nxt } :=
    if_neg (not_not.mpr h)
  rw [Sampled, heq]
  refine ⟨?_, ⟨?_, .inr ?_, ?_, hvar, hvar⟩, ?_⟩
  · rw [estimatorChecked, ← measured, long_eq (by omega) (by omega), bind_some, if_neg (not_not.mpr h),
      long_eq (by omega) (by omega), bind_some, hs.1, bind_some, long_eq (by omega) (by omega),
      bind_some, hd.1, bind_some]
  all_goals dsimp only; omega

/-- Seven eighths of an estimate of at least 8 are at least 7, and the measurement is at least 1. -/
theorem sampled_next (hb : Bounded r) (una nxt : UInt32) (h : r.srtt ≠ 0) : Sampled una nxt r mrtt := by
  have hm := measured_bounds hrtt
  have hlimit : rttLimit = 268435456 := rfl
  have hlow : 8 ≤ r.srtt.toNat := hb.sampled.resolve_left h
  have hsrtt := hb.srtt
  have hmdev := hb.mdev
  have herr : -rttLimit ≤ measured mrtt - ↑(r.srtt.toNat / 8) ∧ measured mrtt - ↑(r.srtt.toNat / 8) ≤ rttLimit := by
    omega
  have hchange := @change_bounds _ (r.mdev.toNat / 4) herr.1 herr.2
  have hs := @store_eq (nextSrtt r mrtt) (by rw [nextSrtt]; omega) (by rw [nextSrtt]; omega)
  have hd := @store_eq (nextMdev r mrtt) (by rw [nextMdev]; omega) (by rw [nextMdev]; omega)
  have hs' : 8 ≤ (UInt32.ofInt (nextSrtt r mrtt)).toNat ∧ (UInt32.ofInt (nextSrtt r mrtt)).toNat ≤ 8 * rttLimit := by
    rw [nextSrtt] at hs ⊢
    omega
  have hd' : (UInt32.ofInt (nextMdev r mrtt)).toNat ≤ 4 * rttLimit := by
    rw [nextMdev] at hd ⊢
    omega
  obtain ⟨hmax, hvar⟩ := raise_bounds hd' hb.mdevMax hb.rttvar
  have heq := estimator_next_eq una nxt mrtt h
  have hchecked : estimatorChecked una nxt r mrtt = some (servalSalRttEstimator una nxt r mrtt) := by
    rw [heq]
    rw [nextSrtt] at hs ⊢
    rw [nextMdev] at hd ⊢
    rw [estimatorChecked, ← measured, long_eq (by omega) (by omega), bind_some, if_pos h,
      long_eq (by omega) (by omega), bind_some, hs.1, bind_some, deviation_eq r.mdev herr.1 herr.2,
      bind_some, hd.1, bind_some]
    by_cases ha : after una r.rttSeq = true
    · simp only [ha, if_true, letDown_eq, bind_some]
    · simp only [ha, if_false, Bool.false_eq_true]
  refine ⟨hchecked, ?_⟩
  rw [heq]
  by_cases ha : after una r.rttSeq = true
  · simp only [ha, if_true]
    exact ⟨⟨hs'.2, .inr hs'.1, hd', ⟨le_rfl, rtoMin_le⟩, letDown_bounds (letDown_eq _ _) hmax.1 hvar⟩, hs'.1⟩
  · simp only [ha, if_false, Bool.false_eq_true]
    exact ⟨⟨hs'.2, .inr hs'.1, hd', hmax, hvar⟩, hs'.1⟩

theorem sampled (hb : Bounded r) (una nxt : UInt32) : Sampled una nxt r mrtt := by
  by_cases h : r.srtt = 0
  · exact sampled_first hrtt una nxt h
  · exact sampled_next hrtt hb una nxt h

end Sampled

theorem Bounded.with_rto (hb : Bounded r) (rto : UInt32) (backoff : UInt8) :
    Bounded { r with rto := rto, backoff := backoff } := { hb with }

theorem rto_toNat (hb : Bounded r) : ((r.srtt >>> 3) + r.rttvar).toNat = r.srtt.toNat / 8 + r.rttvar.toNat := by
  have := hb.srtt
  have := hb.rttvar
  have hlimit : rttLimit = 268435456 := rfl
  rw [UInt32.toNat_add, toNat_shiftRight_three, Nat.mod_eq_of_lt (by omega)]

theorem boundRto_eq (r : Rtt) : servalSalBoundRto r =
    { r with rto := if SAL_RTO_MAX < r.rto then SAL_RTO_MAX else r.rto } := by
  rw [servalSalBoundRto]
  split <;> rfl

section Feed

variable {s : Sample} (hb : Bounded r) (hrtt : s.rtt.toNat < rttLimit)
include hb hrtt

theorem feed_bounded : Bounded (feed r s) := by
  rw [feed, servalSalUpdateRtt, servalSalSetRto, boundRto_eq]
  exact (sampled hrtt hb s.una s.nxt).2.1.with_rto _ _

theorem updateChecked_eq : updateChecked s.una s.nxt r s.rtt = some (feed r s) := by
  obtain ⟨hchecked, hest, -⟩ := sampled hrtt hb s.una s.nxt
  have hrto := rto_toNat hest
  have := ((servalSalRttEstimator s.una s.nxt r s.rtt).srtt >>> 3 +
    (servalSalRttEstimator s.una s.nxt r s.rtt).rttvar).toNat_lt
  rw [updateChecked, hchecked, bind_some, ← hrto, (store_eq (by omega) (by omega)).1, bind_some, ofInt_toNat]
  rfl

/-- An eighth of the estimate is at least 1 and the variance at least the smallest timeout, so the
timeout needs no bound from below. -/
theorem feed_rto : 0 < (feed r s).srtt ∧ SAL_RTO_MIN < (feed r s).rto ∧ (feed r s).rto ≤ SAL_RTO_MAX := by
  obtain ⟨-, hest, hpos⟩ := sampled hrtt hb s.una s.nxt
  have hvar := hest.rttvar
  refine ⟨?_, ?_, updateRtt_rto_le _ _ _ _⟩
  · rw [feed, servalSalUpdateRtt, servalSalSetRto, boundRto_eq, lt_iff_toNat_lt]
    exact Nat.lt_of_lt_of_le (by decide) hpos
  · rw [feed, servalSalUpdateRtt, servalSalSetRto, boundRto_eq]
    show SAL_RTO_MIN < if _ then _ else _
    split
    · decide
    · rw [lt_iff_toNat_lt, rto_toNat hest]
      omega

end Feed

theorem feedAll_bounded {samples : List Sample} (h : ∀ s ∈ samples, s.rtt.toNat < rttLimit) (hb : Bounded r) :
    Bounded (feedAll r samples) := by
  induction samples generalizing r with
  | nil => exact hb
  | cons s samples ih =>
    apply ih fun t ht => h t (mem_cons_of_mem s ht)
    exact feed_bounded hb (h s mem_cons_self)

theorem feedChecked_eq {samples : List Sample} (h : ∀ s ∈ samples, s.rtt.toNat < rttLimit) (hb : Bounded r) :
    feedChecked r samples = some (feedAll r samples) := by
  induction samples generalizing r with
  | nil => rfl
  | cons s samples ih =>
    have hs := h s mem_cons_self
    rw [feedChecked, foldlM_cons, updateChecked_eq hb hs]
    exact ih (fun t ht => h t (mem_cons_of_mem s ht)) (feed_bounded hb hs)

/-- From the initial fields, for every sequence of samples and of sequence numbers: no value is
too large or negative for its type, the variance is never below the smallest timeout, and after
every sample the estimate is not 0 and the timeout lies between its two bounds. -/
theorem rto_bounds (samples : List Sample) (h : ∀ s ∈ samples, s.rtt.toNat < rttLimit) :
    feedChecked Rtt.init samples = some (feedAll Rtt.init samples) ∧ SAL_RTO_MIN ≤ (feedAll Rtt.init samples).rttvar ∧
      (samples ≠ [] → 0 < (feedAll Rtt.init samples).srtt ∧ SAL_RTO_MIN < (feedAll Rtt.init samples).rto ∧
        (feedAll Rtt.init samples).rto ≤ SAL_RTO_MAX) := by
  refine ⟨feedChecked_eq h init_bounded, ?_, fun hne => ?_⟩
  · exact le_iff_toNat_le.mpr (feedAll_bounded h init_bounded).rttvar.1
  · -- the last sample is taken from a state that the others have kept within the bounds
    obtain ⟨before, last, rfl⟩ := (eq_nil_or_concat samples).resolve_left hne
    rw [concat_eq_append] at h ⊢
    rw [feedAll, foldl_append]
    have hbefore : ∀ s ∈ before, s.rtt.toNat < rttLimit := fun s hs => h s (mem_append_left _ hs)
    apply feed_rto (feedAll_bounded hbefore init_bounded)
    exact h last (mem_append_right _ mem_cons_self)

/-- Three samples, the largest in the middle, with a round trip completed between them. -/
theorem rto_bounds_spike : feedAll Rtt.init [⟨1, 2, 3⟩, ⟨2, 3, 268435455⟩, ⟨9, 10, 0⟩] ≠ Rtt.init ∧
      SAL_RTO_MIN < (feedAll Rtt.init [⟨1, 2, 3⟩, ⟨2, 3, 268435455⟩, ⟨9, 10, 0⟩]).rto :=
  ⟨by decide +kernel, ((rto_bounds [⟨1, 2, 3⟩, ⟨2, 3, 268435455⟩, ⟨9, 10, 0⟩] (by decide)).2.2 nofun).2.1⟩

end SalRttBounds
