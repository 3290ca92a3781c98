import Mathlib.Data.Vector.Basic
import Serval.ByteMemory

/-! # Hexadecimal text

The conversions between bytes and text of `netinet/serval.h`. A text is the bytes of its memory, the `NUL` where it ends
included or not; the bytes of a source do not overlap with what is written.
-/
namespace HexText

open ByteMemory List

/-- The digits of `serval_ntohex`. -/
def hex (v : UInt8) : UInt8 := if v < 10 then 48 + v else 87 + v

/-- The value is -1 for what is no digit. -/
def hextobyte (c : UInt8) : Option UInt8 :=
  if 48 ≤ c ∧ c ≤ 57 then some (c - 48)
  else
    let d := c ||| 0x20
    if 97 ≤ d ∧ d ≤ 102 then some (d - 97 + 10) else none

/-- `src_len` wraps where the second decrement of a round finds it at zero. -/
def hextonLoop : List UInt8 → UInt64 → ℕ → Mem → ℕ → ℤ × Mem
  | [], _, _, m, _ => (1, m)
  | c :: src, srcLen, dstLen, m, ptr =>
    if c = 0 ∨ dstLen = 0 ∨ srcLen = 0 then (1, m)
    else match hextobyte c with
      | none => (0, m)
      | some value =>
        match src with
        | [] => (1, write m ptr [value * 16])
        | c' :: src' =>
          if c' ≠ 0 ∧ srcLen - 1 ≠ 0 then
            match hextobyte c' with
            | none => (0, m)
            | some ret => hextonLoop src' (srcLen - 1 - 1) (dstLen - 1) (write m ptr [value * 16 + ret]) (ptr + 1)
          else
            hextonLoop (c' :: src') (if c' = 0 then srcLen - 1 else srcLen - 1 - 1) (dstLen - 1)
              (write m ptr [value * 16]) (ptr + 1)

def servalHexton (src : List UInt8) (srcLen : UInt64) (m : Mem) (dst dstLen : ℕ) : ℤ × Mem :=
  hextonLoop src srcLen dstLen m dst

def ntohexLoop : List UInt8 → ℕ → ℕ → Mem → ℕ → Option (Mem × ℕ × ℕ)
  | _, 0, dstLen, m, ptr => some (m, ptr, dstLen)
  | src, srcLen + 1, dstLen, m, ptr =>
    if 1 < dstLen then do
      let b ← src.head?
      let m := write m ptr [hex (b >>> 4)]
      if 1 < dstLen - 1 then
        ntohexLoop src.tail srcLen (dstLen - 2) (write m (ptr + 1) [hex (b &&& 0xf)]) (ptr + 2)
      else ntohexLoop src srcLen (dstLen - 1) m (ptr + 1)
    else some (m, ptr, dstLen)

/-- The memory, and the pointer that is returned. -/
def servalNtohex (src : List UInt8) (srcLen : ℕ) (m : Mem) (dst dstLen : ℕ) : Option (Mem × ℕ) := do
  let (m, ptr, dstLen) ← ntohexLoop src srcLen dstLen m dst
  return (if dstLen = 0 then m else write m ptr [0], dst)

abbrev ServiceId := List.Vector UInt8 32

def servalNtop (src : ServiceId) (m : Mem) (dst len : ℕ) : Option (Mem × ℕ) := servalNtohex src.toList 32 m dst len

def servalPton (src : List UInt8) (m : Mem) (dst : ℕ) : ℤ × Mem := servalHexton src 64 m dst 32

/-! ## What the texts say -/

def hexPair (b : UInt8) : List UInt8 := [hex (b >>> 4), hex (b &&& 0xf)]

def hexText (bs : List UInt8) : List UInt8 := bs.flatMap hexPair

def value (c : UInt8) : UInt8 := (hextobyte c).getD 0

/-- A digit without a second one is the high half of its byte. -/
def bytesOf : List UInt8 → List UInt8
  | [] => []
  | [c] => [value c * 16]
  | c :: c' :: cs => (value c * 16 + value c') :: bytesOf cs

/-- The characters up to the `NUL`. -/
def text (s : List UInt8) : List UInt8 := s.takeWhile (· ≠ 0)

/-- What is left of the characters `cs`: their bytes if all are digits, otherwise those of some pairs at the front. -/
structure Converted (cs : List UInt8) (m : Mem) (dst : ℕ) (r : ℤ × Mem) : Prop where
  digits : (∀ c ∈ cs, (hextobyte c).isSome) → r = (1, write m dst (bytesOf cs))
  other : (∃ c ∈ cs, hextobyte c = none) → r.1 = 0 ∧
    ∃ k, 2 * k ≤ cs.length ∧ r.2 = write m dst (bytesOf (cs.take (2 * k)))

/-- The limit is not met within a byte, or what follows is not converted for another reason. -/
def Limited (s : List UInt8) (srcLen dstLen : ℕ) : Prop :=
  2 ∣ srcLen ∨ (text s).length ≤ srcLen ∨ 2 * dstLen ≤ srcLen + 1 ∨ ∃ c ∈ (text s).take srcLen, hextobyte c = none

variable {s cs : List UInt8} {c c' v w : UInt8} {m : Mem} {dst dstLen : ℕ} {srcLen : UInt64} {r : ℤ × Mem}

variable (b : UInt8) (src bs : List UInt8)

@[simp] theorem length_hexText : (hexText bs).length = 2 * bs.length := by
  simp [hexText, hexPair, mul_comm]

theorem hexText_cons : hexText (b :: bs) = hex (b >>> 4) :: hex (b &&& 0xf) :: hexText bs := rfl

theorem ntohexLoop_full (srcLen : ℕ) (m : Mem) (ptr : ℕ) : ntohexLoop src srcLen 1 m ptr = some (m, ptr, 1) := by
  cases srcLen <;> rfl

/-- The loop writes what fits before the last byte of the buffer. -/
theorem ntohexLoop_spec (k : ℕ) (m : Mem) (ptr : ℕ) :
    ntohexLoop src src.length (k + 1) m ptr = some (write m ptr ((hexText src).take k),
      ptr + ((hexText src).take k).length, k + 1 - ((hexText src).take k).length) := by
  induction src generalizing k m ptr with
  | nil => simp [ntohexLoop, hexText, write_nil]
  | cons b src ih =>
    rcases k with _ | _ | k
    · simp [ntohexLoop_full, write_nil]
    · simp [ntohexLoop, ntohexLoop_full, hexText_cons]
    · have hpair := write_append m ptr [hex (b >>> 4)] [hex (b &&& 0xf)]
      have hrest := write_append m ptr (hexPair b) ((hexText src).take k)
      simp only [length_singleton, singleton_append] at hpair
      rw [length_cons, ntohexLoop, if_pos (by omega), head?_cons, Option.bind_eq_bind, Option.bind_some,
        if_pos (by omega), hpair]
      refine (ih k _ (ptr + 2)).trans ?_
      rw [hexText_cons, take_succ_cons, take_succ_cons, length_cons, length_cons]
      refine congrArg some (Prod.ext hrest (Prod.ext ?_ ?_)) <;> dsimp only <;> omega

theorem ntohex_spec (hpos : 1 ≤ dstLen) (m : Mem) (dst : ℕ) : servalNtohex src src.length m dst dstLen =
      some (write m dst ((hexText src).take (min (2 * src.length) (dstLen - 1)) ++ [0]), dst) := by
  obtain ⟨k, rfl⟩ := Nat.exists_eq_add_of_le' hpos
  have hle : ((hexText src).take k).length ≤ k := length_take_le ..
  have htake : (hexText src).take (min (2 * src.length) k) = (hexText src).take k := by
    rw [Nat.min_comm, ← length_hexText, ← take_take, take_length]
  rw [servalNtohex, ntohexLoop_spec, Nat.add_sub_cancel, htake, ← write_append]
  exact congrArg (fun m => some (m, dst)) (if_neg (by omega))

/-! ## Reading -/

theorem Converted.nil : Converted [] m dst (1, m) :=
  ⟨fun _ => by rw [bytesOf, write_nil], fun ⟨c, hc, _⟩ => absurd hc not_mem_nil⟩

theorem Converted.bad (hc : c ∈ cs) (h : hextobyte c = none) : Converted cs m dst (0, m) :=
  ⟨fun hall => by simpa [h] using hall c hc, fun _ => ⟨rfl, 0, Nat.zero_le _, (write_nil m dst).symm⟩⟩

theorem Converted.single (h : hextobyte c = some v) : Converted [c] m dst (1, write m dst [v * 16]) :=
  ⟨fun _ => by simp [bytesOf, value, h], fun ⟨d, hd, hnone⟩ => by simp_all⟩

theorem Converted.pair (h : hextobyte c = some v) (h' : hextobyte c' = some w)
    (hr : Converted cs (write m dst [v * 16 + w]) (dst + 1) r) : Converted (c :: c' :: cs) m dst r := by
  have hbytes : ∀ l, write (write m dst [v * 16 + w]) (dst + 1) (bytesOf l) = write m dst (bytesOf (c :: c' :: l)) := by
    intro l
    simpa [bytesOf, value, h, h'] using write_append m dst [v * 16 + w] (bytesOf l)
  constructor
  · intro hall
    rw [← hbytes]
    exact hr.digits fun d hd => hall d (by simp [hd])
  · rintro ⟨d, hd, hnone⟩
    have hmem : d ∈ cs := by
      rcases mem_cons.mp hd with rfl | hd
      · simp [h] at hnone
      rcases mem_cons.mp hd with rfl | hd
      · simp [h'] at hnone
      · exact hd
    obtain ⟨hzero, k, hk, hwrite⟩ := hr.other ⟨d, hmem, hnone⟩
    refine ⟨hzero, k + 1, by simp only [length_cons]; omega, ?_⟩
    rw [hwrite, hbytes, Nat.mul_succ, take_succ_cons, take_succ_cons]

theorem text_cons (hc : c ≠ 0) : text (c :: s) = c :: text s := by simp [text, hc]

theorem text_of_zero (hc : c = 0) : text (c :: s) = [] := by simp [text, hc]

theorem toNat_pred {n : UInt64} (h : n ≠ 0) : (n - 1).toNat + 1 = n.toNat := by
  have hpos : n.toNat ≠ 0 := fun h0 => h (UInt64.toNat_inj.mp h0)
  have hsub := UInt64.toNat_sub_of_le n 1 (UInt64.le_iff_toNat_le.mpr (pos_of_ne_zero hpos))
  rw [hsub]
  exact Nat.sub_add_cancel (pos_of_ne_zero hpos)

theorem limit_succ (hs : srcLen ≠ 0) (hd : dstLen ≠ 0) :
    min srcLen.toNat (2 * dstLen) = min (srcLen - 1).toNat (2 * dstLen - 1) + 1 := by
  have := toNat_pred hs
  omega

theorem limit_pair (hs : srcLen ≠ 0) (hs' : srcLen - 1 ≠ 0) (hd : dstLen ≠ 0) :
    min srcLen.toNat (2 * dstLen) = min (srcLen - 1 - 1).toNat (2 * (dstLen - 1)) + 1 + 1 := by
  have := toNat_pred hs
  have := toNat_pred hs'
  omega

/-- One round of the loop takes a pair, or is the last one. -/
theorem hextonLoop_spec (hlimited : Limited s srcLen.toNat dstLen) :
    Converted ((text s).take (min srcLen.toNat (2 * dstLen))) m dst (hextonLoop s srcLen dstLen m dst) := by
  fun_induction hextonLoop s srcLen dstLen m dst with
  | case1 => simpa [text] using Converted.nil
  | case2 c src srcLen dstLen m ptr hstop =>
    have hnone : (text (c :: src)).take (min srcLen.toNat (2 * dstLen)) = [] := by
      rcases hstop with rfl | rfl | rfl <;> simp [text]
    rw [hnone]
    exact .nil
  | case3 c src srcLen dstLen m ptr hgo hnone =>
    simp only [not_or] at hgo
    rw [text_cons hgo.1, limit_succ hgo.2.2 hgo.2.1, take_succ_cons]
    exact .bad mem_cons_self hnone
  | case4 c srcLen dstLen m ptr hgo v hv =>
    simp only [not_or] at hgo
    rw [text_cons hgo.1, limit_succ hgo.2.2 hgo.2.1, take_succ_cons, text, takeWhile_nil, take_nil]
    exact .single hv
  | case5 c srcLen dstLen m ptr hgo v hv c' src hpair hnone =>
    simp only [not_or] at hgo
    rw [text_cons hgo.1, text_cons hpair.1, limit_pair hgo.2.2 hpair.2 hgo.2.1, take_succ_cons, take_succ_cons]
    exact .bad (by simp) hnone
  | case6 c srcLen dstLen m ptr hgo v hv c' src hpair w hw ih =>
    simp only [not_or] at hgo
    have hpred := toNat_pred hgo.2.2
    have hpred' := toNat_pred hpair.2
    rw [Limited, text_cons hgo.1, text_cons hpair.1, length_cons, length_cons, ← hpred, ← hpred', take_succ_cons,
      take_succ_cons, exists_mem_cons_iff, exists_mem_cons_iff] at hlimited
    rw [text_cons hgo.1, text_cons hpair.1, limit_pair hgo.2.2 hpair.2 hgo.2.1, take_succ_cons, take_succ_cons]
    refine .pair hv hw (ih ?_)
    rw [Limited]
    rcases hlimited with h | h | h | h | h | h
    · exact .inl (by omega)
    · exact .inr (.inl (by omega))
    · exact .inr (.inr (.inl (by omega)))
    · cases hv.symm.trans h
    · cases hw.symm.trans h
    · exact .inr (.inr (.inr h))
  | case7 c srcLen dstLen m ptr hgo v hv c' src hlast ih =>
    simp only [not_or] at hgo
    have hlimit := limit_succ hgo.2.2 hgo.2.1
    have hpred := toNat_pred hgo.2.2
    rw [Limited, text_cons hgo.1] at hlimited
    rw [text_cons hgo.1]
    by_cases hc' : c' = 0
    · rw [text_of_zero hc', hlimit, take_succ_cons, take_nil, hextonLoop, if_pos (.inl hc')]
      exact .single hv
    · have hone : (srcLen - 1).toNat = 0 := by simp [not_not.mp fun hne => hlast ⟨hc', hne⟩]
      rw [text_cons hc', length_cons, length_cons, ← hpred, hone, take_succ_cons, take_zero] at hlimited
      have hfull : dstLen - 1 = 0 := by
        rcases hlimited with h | h | h | ⟨d, hd, hnone⟩
        · omega
        · omega
        · omega
        · cases mem_singleton.mp hd
          cases hv.symm.trans hnone
      rw [hlimit, hone, Nat.zero_min, take_succ_cons, take_zero, hextonLoop, if_pos (.inr (.inl hfull))]
      exact .single hv

theorem length_bytesOf (cs : List UInt8) : (bytesOf cs).length = (cs.length + 1) / 2 := by
  fun_induction bytesOf cs with
  | case1 => rfl
  | case2 => simp
  | case3 c c' cs ih =>
    simp only [length_cons, ih]
    omega

theorem hextonLoop_frame {a ptr : ℕ} (ha : a < ptr) (s : List UInt8) (srcLen : UInt64) (dstLen : ℕ) (m : Mem) :
    (hextonLoop s srcLen dstLen m ptr).2 a = m a := by
  fun_induction hextonLoop s srcLen dstLen m ptr with
  | case1 | case2 | case3 | case5 => rfl
  | case4 => exact write_of_notMem (.inl ha)
  | case6 c srcLen dstLen m ptr hgo v hv c' src hpair w hw ih => rw [ih (by omega), write_of_notMem (.inl ha)]
  | case7 c srcLen dstLen m ptr hgo v hv c' src hlast ih => rw [ih (by omega), write_of_notMem (.inl ha)]

theorem write_head (m : Mem) (ptr : ℕ) (x : UInt8) : write m ptr [x] ptr = x := by
  simp [write]

/-- A call that returns 1 has written a first byte which does not depend on the memory. -/
theorem hextonLoop_writes (hc : c ≠ 0) (hd : dstLen ≠ 0) (hs : srcLen ≠ 0) : ∃ x, ∀ m ptr,
    (hextonLoop (c :: s) srcLen dstLen m ptr).1 = 1 → (hextonLoop (c :: s) srcLen dstLen m ptr).2 ptr = x := by
  have hgo : ¬(c = 0 ∨ dstLen = 0 ∨ srcLen = 0) := by simp [hc, hd, hs]
  cases hv : hextobyte c with
  | none => exact ⟨0, fun m ptr h => by simp [hextonLoop, hgo, hv] at h⟩
  | some v =>
    cases s with
    | nil => exact ⟨v * 16, fun m ptr _ => by simp [hextonLoop, hgo, hv, write_head]⟩
    | cons c' src =>
      by_cases hpair : c' ≠ 0 ∧ srcLen - 1 ≠ 0
      · cases hw : hextobyte c' with
        | none => exact ⟨0, fun m ptr h => by simp [hextonLoop, hgo, hv, hpair, hw] at h⟩
        | some w =>
          refine ⟨v * 16 + w, fun m ptr _ => ?_⟩
          rw [hextonLoop, if_neg hgo]
          simp only [hv, if_pos hpair, hw]
          rw [hextonLoop_frame (Nat.lt_succ_self ptr), write_head]
      · refine ⟨v * 16, fun m ptr _ => ?_⟩
        rw [hextonLoop, if_neg hgo]
        simp only [hv, if_neg hpair]
        rw [hextonLoop_frame (Nat.lt_succ_self ptr), write_head]

theorem cons_of_text (h : 0 < (text s).length) : ∃ c src, s = c :: src ∧ c ≠ 0 := by
  cases s with
  | nil => cases h
  | cons c src =>
    refine ⟨c, src, rfl, fun hc => ?_⟩
    rw [text_of_zero hc] at h
    cases h

/-- Behind a lone digit the limit is lost, and the next byte is written. -/
theorem hextonLoop_overruns {j : ℕ} (hodd : srcLen.toNat = 2 * j + 1) (hlong : 2 * j + 1 < (text s).length)
    (hroom : j + 2 ≤ dstLen) (hdigits : ∀ c ∈ (text s).take (2 * j + 1), hextobyte c ≠ none) : ∃ x, ∀ m dst,
      (hextonLoop s srcLen dstLen m dst).1 = 1 → (hextonLoop s srcLen dstLen m dst).2 (dst + j + 1) = x := by
  induction j generalizing s srcLen dstLen with
  | zero =>
    obtain ⟨c, s, rfl, hc⟩ := cons_of_text (by omega : 0 < (text s).length)
    rw [text_cons hc, length_cons] at hlong
    obtain ⟨c', s, rfl, hc'⟩ := cons_of_text (by omega : 0 < (text s).length)
    rw [text_cons hc, take_succ_cons, forall_mem_cons] at hdigits
    obtain ⟨v, hv⟩ := Option.ne_none_iff_exists'.mp hdigits.1
    obtain rfl : srcLen = 1 := UInt64.toNat_inj.mp hodd
    obtain ⟨x, hx⟩ := @hextonLoop_writes s c' (dstLen - 1) (1 - 1 - 1) hc' (by omega) (by decide)
    have hgo : ¬(c = 0 ∨ dstLen = 0 ∨ (1 : UInt64) = 0) := by simp [hc]; omega
    refine ⟨x, fun m dst => ?_⟩
    rw [hextonLoop, if_neg hgo]
    simpa [hv, hc'] using hx (write m dst [v * 16]) (dst + 1)
  | succ j ih =>
    obtain ⟨c, s, rfl, hc⟩ := cons_of_text (by omega : 0 < (text s).length)
    rw [text_cons hc, length_cons] at hlong
    obtain ⟨c', s, rfl, hc'⟩ := cons_of_text (by omega : 0 < (text s).length)
    rw [text_cons hc', length_cons] at hlong
    rw [text_cons hc, text_cons hc', show 2 * (j + 1) + 1 = 2 * j + 1 + 1 + 1 by omega, take_succ_cons, take_succ_cons,
      forall_mem_cons, forall_mem_cons] at hdigits
    obtain ⟨v, hv⟩ := Option.ne_none_iff_exists'.mp hdigits.1
    obtain ⟨w, hw⟩ := Option.ne_none_iff_exists'.mp hdigits.2.1
    have hs : srcLen ≠ 0 := by rintro rfl; cases hodd
    have hpred := toNat_pred hs
    have hs' : srcLen - 1 ≠ 0 := by intro h; simp [h] at hpred; omega
    have hpred' := toNat_pred hs'
    obtain ⟨x, hx⟩ := @ih s (dstLen - 1) (srcLen - 1 - 1) (by omega) (by omega) (by omega) hdigits.2.2
    have hgo : ¬(c = 0 ∨ dstLen = 0 ∨ srcLen = 0) := by simp [hc, hs]; omega
    refine ⟨x, fun m dst => ?_⟩
    rw [hextonLoop, if_neg hgo, show dst + (j + 1) + 1 = dst + 1 + j + 1 by omega]
    simpa [hv, hw, hc', hs'] using hx (write m dst [v * 16 + w]) (dst + 1)

theorem hexton_limited_iff (s : List UInt8) (srcLen : UInt64) (dstLen : ℕ) :
    (∀ m dst, Converted ((text s).take (min srcLen.toNat (2 * dstLen))) m dst (servalHexton s srcLen m dst dstLen)) ↔
      Limited s srcLen.toNat dstLen := by
  refine ⟨fun hall => ?_, fun hlimited m dst => hextonLoop_spec hlimited⟩
  by_contra hnot
  simp only [Limited, not_or, not_exists, not_and, not_le] at hnot
  obtain ⟨hodd, hlong, hroom, hdigits⟩ := hnot
  obtain ⟨j, hj⟩ : ∃ j, srcLen.toNat = 2 * j + 1 := ⟨srcLen.toNat / 2, by omega⟩
  rw [hj] at hlong hroom hdigits
  obtain ⟨x, hx⟩ := @hextonLoop_overruns s dstLen srcLen j hj hlong (by omega) hdigits
  -- a memory that has another byte there before
  have hconv := hall (fun _ => x + 1) 0
  rw [hj, Nat.min_eq_left (by omega)] at hconv
  have hrun := hconv.digits fun c hc => Option.ne_none_iff_isSome.mp (hdigits c hc)
  have hbyte := hx (fun _ => x + 1) 0 (by rw [← servalHexton, hrun])
  rw [← servalHexton, hrun] at hbyte
  have hsame : write (fun _ => x + 1) 0 (bytesOf ((text s).take (2 * j + 1))) (0 + j + 1) = x + 1 := by
    apply write_of_notMem
    rw [length_bytesOf, length_take]
    omega
  exact absurd (hsame.symm.trans hbyte) (by simp)

/-! ## Both ways -/

theorem hexPair_digits : hextobyte (hex (b >>> 4)) = some (b >>> 4) ∧ hextobyte (hex (b &&& 0xf)) = some (b &&& 0xf) ∧
      hex (b >>> 4) ≠ 0 ∧ hex (b &&& 0xf) ≠ 0 ∧ (b >>> 4) * 16 + (b &&& 0xf) = b := by
  obtain ⟨b⟩ := b
  revert b
  decide +kernel

theorem text_hexText (rest : List UInt8) : text (hexText bs ++ 0 :: rest) = hexText bs := by
  induction bs with
  | nil => rfl
  | cons b bs ih =>
    obtain ⟨-, -, hhigh, hlow, -⟩ := hexPair_digits b
    rw [hexText_cons, cons_append, cons_append, text_cons hhigh, text_cons hlow, ih]

theorem digits_hexText : (∀ c ∈ hexText bs, (hextobyte c).isSome) ∧ bytesOf (hexText bs) = bs := by
  induction bs with
  | nil => exact ⟨by simp [hexText], rfl⟩
  | cons b bs ih =>
    obtain ⟨hhigh, hlow, -, -, hsum⟩ := hexPair_digits b
    rw [hexText_cons]
    constructor
    · simpa [hhigh, hlow] using ih.1
    · rw [bytesOf, value, value, hhigh, hlow, ih.2]
      exact congrArg (· :: bs) hsum

theorem pton_ntop (id : ServiceId) {len : ℕ} (hlen : 65 ≤ len) (m : Mem) (dst : ℕ) :
    ∃ m', servalNtop id m dst len = some (m', dst) ∧
      ∀ m₁ out, servalPton (read m' dst len) m₁ out = (1, write m₁ out id.toList) := by
  have hid : id.toList.length = 32 := id.toList_length
  have hall : (hexText id.toList).length = 64 := by rw [length_hexText, hid]
  have hspec := @ntohex_spec len id.toList (by omega) m dst
  rw [hid, take_of_length_le (by omega)] at hspec
  refine ⟨_, hspec, fun m₁ out => ?_⟩
  obtain ⟨n, rfl⟩ : ∃ n, len = (hexText id.toList ++ [0]).length + n :=
    Nat.exists_eq_add_of_le (by simp only [length_append, hall]; exact hlen)
  rw [read_write_start, append_assoc, singleton_append]
  generalize read m _ n = rest
  have hconverted := @hextonLoop_spec (hexText id.toList ++ 0 :: rest) m₁ out 32 64 (.inl (by decide))
  rw [text_hexText, take_of_length_le (by rw [hall]; decide)] at hconverted
  rw [servalPton, servalHexton, hconverted.digits (digits_hexText _).1, (digits_hexText _).2]

/-- All three conversions, at every length. The second is right for every memory exactly if its limit is kept. -/
theorem hex_text_correct (s : List UInt8) (srcLen : UInt64) (dstLen : ℕ) (id : ServiceId) :
    (1 ≤ dstLen → ∀ m dst, servalNtohex s s.length m dst dstLen =
      some (write m dst ((hexText s).take (min (2 * s.length) (dstLen - 1)) ++ [0]), dst)) ∧
    ((∀ m dst, Converted ((text s).take (min srcLen.toNat (2 * dstLen))) m dst (servalHexton s srcLen m dst dstLen)) ↔
      Limited s srcLen.toNat dstLen) ∧
    (bytesOf ((text s).take (min srcLen.toNat (2 * dstLen)))).length ≤ dstLen ∧
    (65 ≤ dstLen → ∀ m dst, ∃ m', servalNtop id m dst dstLen = some (m', dst) ∧
      ∀ m₁ out, servalPton (read m' dst dstLen) m₁ out = (1, write m₁ out id.toList)) := by
  refine ⟨fun h => ntohex_spec s h, hexton_limited_iff s srcLen dstLen, ?_, fun h => pton_ntop id h⟩
  rw [length_bytesOf, length_take]
  omega

theorem hex_text_correct_abc :
    servalHexton [97, 98, 99, 0] 4 (fun _ => 0) 0 2 = (1, write (fun _ => 0) 0 [0xab, 0xc0]) :=
  ((hex_text_correct [97, 98, 99, 0] 4 2 (List.Vector.replicate 32 0)).2.1.mpr (.inl (by decide)) _ 0).digits
    (by decide +kernel)

/-- Of `"abc"` one character is to be converted, and all three are. -/
theorem hexton_overruns : (servalHexton [97, 98, 99] 1 (fun _ => 0) 0 2).1 = 1 ∧
      read (servalHexton [97, 98, 99] 1 (fun _ => 0) 0 2).2 0 2 = [0xa0, 0xbc] ∧
      bytesOf ((text [97, 98, 99]).take 1) = [0xa0] := by
  decide +kernel

end HexText
