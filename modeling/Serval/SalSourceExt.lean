import Serval.SalBuild

/-! # Recording addresses in the SOURCE extension

A host that forwards a packet notes the packet's destination there. What lies in front of the gap that it opens moves
towards the head of the buffer.
-/
namespace SalSourceExt

open ByteMemory SkBuff SalHeader

def ENOMEM : ℤ := 12

def saddr (m : Mem) (iph : ℕ) : List UInt8 := read m (iph + 12) 4
def daddr (m : Mem) (iph : ℕ) : List UInt8 := read m (iph + 16) 4

def extLength (m : Mem) (ext : ℕ) : ℕ := (m (ext + 1)).toNat

def getAddr (sxt n : ℕ) : ℕ := sxt + 4 + n * 4

/-- `SAL_SOURCE_EXT_GET_LAST_ADDR`. The number of addresses is unsigned: below a length of four it wraps around, and
the index behind it is minus eight. -/
def getLastAddr (sxt length : ℕ) : ℕ := if length < 4 then sxt - 4 else sxt + numAddrs length * 4

inductive SourceExtRes where
  | ipExists
  | ipNone
  | none
  deriving DecidableEq, Repr

def servalSalSourceExtCheck (m : Mem) (ctx : SalContext) (ipaddr : List UInt8) : SourceExtRes :=
  match ctx.srcExt with
  | none => .none
  | some sxt =>
    if (List.range (numAddrs (extLength m sxt))).any fun i => read m (getAddr sxt i) 4 == ipaddr then
      .ipExists
    else .ipNone

/-- The buffer, pushed back to its IP header, with the headroom that is needed, and whether it is a copy. -/
def expandHeadroom (skb : Skb) (extraLen size hardHeaderLen : ℕ) (alloc : Bool) : Option (Skb × Bool) :=
  if skbHeadroom skb < extraLen + size + hardHeaderLen then
    if alloc then some (skbCopyExpand skb extraLen, true) else none
  else some (skb, false)

def gapOffset (m : Mem) (ctx : SalContext) : ℕ :=
  match ctx.srcExt with
  | some sxt => getLastAddr sxt (extLength m sxt) - ctx.hdr + 4
  | none => ctx.length

def setHeaders (skb : Skb) (size : ℕ) : Skb :=
  { skb with networkHeader := skb.data, transportHeader := skb.data + size }

def openGap (skb : Skb) (off size extraLen : ℕ) : Option Skb := do
  let iph := skb.networkHeader
  let skb ← skbPush skb extraLen
  let skb := { skb with mem := memmove skb.mem skb.data iph (size + off), networkHeader := skb.data }
  let skb := pskbPull skb size
  return { skb with transportHeader := skb.data }

def fillSource (m : Mem) (iph sh : ℕ) (ctx : SalContext) (extLen : ℕ) : Mem :=
  match ctx.srcExt with
  | some src =>
    let sxt := sh + (src - ctx.hdr)
    let m := write m sxt [setExtType .source (m sxt), UInt8.ofNat extLen]
    write m (getLastAddr sxt (extLength m sxt)) (daddr m iph)
  | none =>
    let sxt := sh + ctx.length
    let m := write m sxt [setExtType .source (m sxt), UInt8.ofNat extLen]
    let m := write m (getAddr sxt 0) (saddr m iph)
    write m (getAddr sxt 1) (daddr m iph)

def setLength (m : Mem) (sh salLen : ℕ) : Mem :=
  write (write m (sh + 10) (OnesComplement.bytes 0)) (sh + 8) [UInt8.ofNat (salLen >>> 2)]

def fillHeader (skb : Skb) (ctx : SalContext) (extraLen extLen : ℕ) : Skb :=
  let m := fillSource skb.mem skb.networkHeader skb.transportHeader ctx extLen
  { skb with mem := setLength m skb.transportHeader (ctx.length + extraLen) }

/-- Everything behind the test for the address. `ctx` points into the buffer itself, or into `other`, of which this
one is a copy. In the first case an old buffer that has been expanded is freed, and the extension cannot be read any
more. -/
def growHeader (skb : Skb) (ctx : SalContext) (other : Option Mem)
    (extraLen extLen hardHeaderLen : ℕ) (alloc : Bool) : Option (Skb × ℤ) := do
  let off := gapOffset (other.getD skb.mem) ctx
  let size := skb.transportHeader - skb.networkHeader
  let skb ← skbPush skb size
  match expandHeadroom skb extraLen size hardHeaderLen alloc with
  | none => return (skb, -ENOMEM)
  | some (skb, copied) =>
    if copied && other.isNone && ctx.srcExt.isSome then none
    else
      let skb ← openGap (setHeaders skb size) off size extraLen
      return (fillHeader skb ctx extraLen extLen, extraLen)

def servalSalAddSourceExt (skb : Skb) (ctx : SalContext) (other : Option Mem)
    (hardHeaderLen : ℕ) (alloc : Bool) : Option (Skb × ℤ) :=
  let m := other.getD skb.mem
  match servalSalSourceExtCheck m ctx (daddr skb.mem skb.networkHeader) with
  | .ipNone =>
    growHeader skb ctx other 4 ((ctx.srcExt.map (extLength m)).getD 0 + 4) hardHeaderLen alloc
  | .none => growHeader skb ctx other 12 12 hardHeaderLen alloc
  | .ipExists => some (skb, -1)

structure Received (skb : Skb) : Prop where
  data : skb.data = skb.transportHeader
  iph : skb.networkHeader + 20 ≤ skb.transportHeader

def Copies (skb : Skb) (extraLen hardHeaderLen : ℕ) : Prop :=
  skb.networkHeader < extraLen + (skb.transportHeader - skb.networkHeader) + hardHeaderLen

instance (skb : Skb) (extraLen hardHeaderLen : ℕ) : Decidable (Copies skb extraLen hardHeaderLen) :=
  inferInstanceAs (Decidable (_ < _))

/-- The buffer with a gap `off` bytes behind the start of the SAL header: all that the packet
held is there, in front of the gap or behind it. -/
structure Opened (skb skb' : Skb) (off extraLen : ℕ) : Prop where
  transport : skb'.transportHeader = skb'.networkHeader + (skb.transportHeader - skb.networkHeader)
  data : skb'.data = skb'.transportHeader
  len : skb'.len = skb.len + extraLen
  ip : ∀ i k, i + k ≤ skb.transportHeader - skb.networkHeader →
    read skb'.mem (skb'.networkHeader + i) k = read skb.mem (skb.networkHeader + i) k
  front : ∀ i k, i + k ≤ off → read skb'.mem (skb'.transportHeader + i) k = read skb.mem (skb.transportHeader + i) k
  back : ∀ i k, off ≤ i →
    read skb'.mem (skb'.transportHeader + extraLen + i) k = read skb.mem (skb.transportHeader + i) k

variable {skb : Skb} {ctx : SalContext} {other : Option Mem}
  {off extraLen extLen hardHeaderLen : ℕ} {alloc : Bool}

theorem openGap_eq {size : ℕ} (hroom : extraLen ≤ skb.data) (hsize : size ≤ skb.len) :
    openGap skb off size extraLen = some
      ⟨memmove skb.mem (skb.data - extraLen) skb.networkHeader (size + off),
        skb.data - extraLen + size, skb.len + extraLen - size, skb.data - extraLen,
        skb.data - extraLen + size⟩ := by
  have hlen : ¬ skb.len + extraLen < size := by omega
  simp [openGap, skbPush_eq hroom, pskbPull, hlen]

/-- The gap is opened in the packet itself or in an expanded copy: `shift` is by how much the
copy lies further from the head. -/
theorem openGap_spec (h : Received skb) {s : Skb} (shift : ℕ)
    (hmem : ∀ a k, read s.mem (a + shift) k = read skb.mem a k) (hdata : s.data = skb.networkHeader + shift)
    (hlen : s.len = skb.len + (skb.transportHeader - skb.networkHeader)) (hroom : extraLen ≤ s.data) :
    ∃ skb', openGap (setHeaders s (skb.transportHeader - skb.networkHeader)) off
        (skb.transportHeader - skb.networkHeader) extraLen = some skb' ∧
      Opened skb skb' off extraLen := by
  have hiph := h.iph
  obtain ⟨size, hsize⟩ : ∃ size, size = skb.transportHeader - skb.networkHeader := ⟨_, rfl⟩
  rw [← hsize] at hlen ⊢
  refine ⟨_, openGap_eq hroom (le_trans (Nat.le_add_left _ _) hlen.ge), ?_⟩
  simp only [setHeaders]
  have hmoved : ∀ i k, i + k ≤ size + off → read (memmove s.mem (s.data - extraLen) s.data (size + off))
        (s.data - extraLen + i) k = read skb.mem (skb.networkHeader + i) k := by
    intro i k hik
    have hwhole : read (memmove s.mem (s.data - extraLen) s.data (size + off))
        (s.data - extraLen) (size + off) = read skb.mem skb.networkHeader (size + off) := by
      have hself := read_write_self s.mem (s.data - extraLen)
        (read s.mem s.data (size + off))
      rw [length_read] at hself
      rw [memmove, hself, hdata, hmem]
    rw [← read_slice _ _ hik, hwhole, read_slice _ _ hik]
  constructor
  · simp only [hsize]
  · rfl
  · simp only [hlen]
    omega
  · intro i k hik
    exact hmoved i k (by omega)
  · intro i k hik
    simp only
    rw [add_assoc, hmoved (size + i) k (by omega), ← add_assoc,
      show skb.networkHeader + size = skb.transportHeader by omega]
  · intro i k hik
    simp only [memmove]
    rw [read_write_disjoint _ _ (.inr (by rw [length_read]; omega)),
      show s.data - extraLen + size + extraLen + i = skb.transportHeader + i + shift by omega, hmem]

def atIpHeader (skb : Skb) : Skb :=
  { skb with
    data := skb.networkHeader
    len := skb.len + (skb.transportHeader - skb.networkHeader) }

theorem skbPush_ipHeader (h : Received skb) :
    skbPush skb (skb.transportHeader - skb.networkHeader) = some (atIpHeader skb) := by
  have hiph := h.iph
  have hdata := h.data
  rw [skbPush_eq (by omega), atIpHeader,
    show skb.data - (skb.transportHeader - skb.networkHeader) = skb.networkHeader by omega]

theorem expandHeadroom_copies (halloc : alloc = true) (hc : Copies skb extraLen hardHeaderLen) :
    expandHeadroom (atIpHeader skb) extraLen (skb.transportHeader - skb.networkHeader) hardHeaderLen
      alloc = some (skbCopyExpand (atIpHeader skb) extraLen, true) := by
  rw [Copies] at hc
  simp [expandHeadroom, skbHeadroom, atIpHeader, hc, halloc]

theorem expandHeadroom_stays (alloc : Bool) (hc : ¬ Copies skb extraLen hardHeaderLen) :
    expandHeadroom (atIpHeader skb) extraLen (skb.transportHeader - skb.networkHeader) hardHeaderLen
      alloc = some (atIpHeader skb, false) := by
  rw [Copies] at hc
  simp only [expandHeadroom, skbHeadroom, atIpHeader, hc, ↓reduceIte]

theorem growHeader_cases (h : Received skb) (ctx : SalContext) (other : Option Mem)
    (extraLen extLen hardHeaderLen : ℕ) (alloc : Bool) :
    if Copies skb extraLen hardHeaderLen ∧ alloc = false then
      ∃ s, growHeader skb ctx other extraLen extLen hardHeaderLen alloc = some (s, -ENOMEM)
    else if Copies skb extraLen hardHeaderLen ∧ other = none ∧ ctx.srcExt.isSome then
      growHeader skb ctx other extraLen extLen hardHeaderLen alloc = none
    else ∃ s, Opened skb s (gapOffset (other.getD skb.mem) ctx) extraLen ∧
      growHeader skb ctx other extraLen extLen hardHeaderLen alloc =
        some (fillHeader s ctx extraLen extLen, (extraLen : ℤ)) := by
  have hpush := skbPush_ipHeader h
  by_cases hcopies : Copies skb extraLen hardHeaderLen
  · cases halloc : alloc with
    | false =>
      rw [if_pos ⟨hcopies, rfl⟩]
      rw [Copies] at hcopies
      exact ⟨atIpHeader skb, by
        simp [growHeader, hpush, expandHeadroom, skbHeadroom, atIpHeader, hcopies]⟩
    | true =>
      have hexp := expandHeadroom_copies rfl hcopies
      rw [if_neg (by simp)]
      split
      · rename_i hfreed
        simp [growHeader, hpush, hexp, hfreed.2.1, hfreed.2.2]
      · rename_i hkept
        have hlive : other = none → ctx.srcExt = none := by simpa [hcopies] using hkept
        obtain ⟨s, hs, hopened⟩ := openGap_spec h extraLen
          (read_copyExpand (atIpHeader skb) extraLen) rfl rfl (Nat.le_add_left _ _)
        exact ⟨s, hopened, by simpa [growHeader, hpush, hexp, hs] using hlive⟩
  · rw [if_neg (fun hc => hcopies hc.1), if_neg (fun hc => hcopies hc.1)]
    have hexp := expandHeadroom_stays alloc hcopies
    rw [Copies] at hcopies
    obtain ⟨s, hs, hopened⟩ := openGap_spec h 0 (s := atIpHeader skb) (fun _ _ => rfl) rfl rfl
      (show extraLen ≤ skb.networkHeader by omega)
    exact ⟨s, hopened, by simp [growHeader, hpush, hexp, hs]⟩

end SalSourceExt
