import Serval.SerialNumber

/-! # The retransmission timeout

The estimate of the round trip time of control packets, and the timeout computed from it. Times
are in jiffies, of which the user-level stack has 100 in a second.
-/
namespace SalRtt

open SerialNumber

def HZ : UInt32 := 100
def SAL_RTO_MAX : UInt32 := 120 * HZ
def SAL_RTO_MIN : UInt32 := HZ / 5
def SAL_TIMEOUT_INIT : UInt32 := 3 * HZ

structure Rtt where
  srtt : UInt32
  mdev : UInt32
  mdevMax : UInt32
  rttvar : UInt32
  rttSeq : UInt32
  rto : UInt32
  backoff : UInt8
  deriving DecidableEq, Repr

def Rtt.init : Rtt :=
  ⟨0, SAL_TIMEOUT_INIT, SAL_TIMEOUT_INIT, SAL_TIMEOUT_INIT, 0, SAL_TIMEOUT_INIT, 0⟩

/-- The measurement is computed in a signed long and stored in 32 bits. -/
def servalSalRttEstimator (una nxt : UInt32) (r : Rtt) (mrtt : UInt32) : Rtt :=
  let m : ℤ := if mrtt = 0 then 1 else mrtt.toNat
  if r.srtt ≠ 0 then
    let m := m - (r.srtt >>> 3).toNat
    let dev := (if m < 0 then -m else m) - (r.mdev >>> 2).toNat
    -- a finer gain where the round trip time decreases
    let dev := if m < 0 ∧ 0 < dev then dev / 8 else dev
    let r := { r with srtt := UInt32.ofInt (r.srtt.toNat + m), mdev := UInt32.ofInt (r.mdev.toNat + dev) }
    let r := if r.mdevMax < r.mdev then
        { r with mdevMax := r.mdev, rttvar := if r.rttvar < r.mdev then r.mdev else r.rttvar }
      else r
    if after una r.rttSeq then
      { r with
        rttvar := if r.mdevMax < r.rttvar then r.rttvar - ((r.rttvar - r.mdevMax) >>> 2) else r.rttvar
        rttSeq := nxt
        mdevMax := SAL_RTO_MIN }
    else r
  else
    let mdev := UInt32.ofInt (m * 2)
    let var := if mdev < SAL_RTO_MIN then SAL_RTO_MIN else mdev
    { r with srtt := UInt32.ofInt (m * 8), mdev := mdev, mdevMax := var, rttvar := var, rttSeq := nxt }

def servalSalBoundRto (r : Rtt) : Rtt := if SAL_RTO_MAX < r.rto then { r with rto := SAL_RTO_MAX } else r

def servalSalSetRto (r : Rtt) : Rtt := servalSalBoundRto { r with rto := (r.srtt >>> 3) + r.rttvar }

def servalSalUpdateRtt (una nxt : UInt32) (r : Rtt) (seqRtt : UInt32) : Rtt :=
  { servalSalSetRto (servalSalRttEstimator una nxt r seqRtt) with backoff := 0 }

theorem updateRtt_rto_le (una nxt : UInt32) (r : Rtt) (seqRtt : UInt32) :
    (servalSalUpdateRtt una nxt r seqRtt).rto ≤ SAL_RTO_MAX := by
  show (servalSalBoundRto _).rto ≤ SAL_RTO_MAX
  rw [servalSalBoundRto]
  split
  · exact UInt32.le_refl _
  · rename_i h
    exact UInt32.not_lt.mp h

end SalRtt
