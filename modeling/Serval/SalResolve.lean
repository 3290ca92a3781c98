import Serval.SalSourceExt
import Serval.ServiceTable

/-! # Resolving a received packet

The way of a packet through a host that forwards. What the host answers during one pass is an argument. Statistics,
locks and reference counts are left out.
-/
namespace SalResolve

open ByteMemory SkBuff SalHeader SalSourceExt ServiceTargets ServiceIterator ServiceTable BstModel Option OnesComplement

def IPPROTO_SERVAL : UInt8 := 144
def SERVAL_PROTO_TCP : UInt8 := 6
def SERVAL_PROTO_UDP : UInt8 := 17

inductive PacketType where
  | host
  | broadcast
  | multicast
  | otherhost
  deriving DecidableEq, Repr

/-- What the host answers: the random number, the type of the packet, the devices' header lengths, the allocations,
and the socket of the flow. -/
structure Env where
  random : ℕ
  pktType : PacketType
  hardHeaderLen : UInt32 → Option ℕ
  copied : Bool
  alloc : Bool
  flowSk : Option Sock

inductive ResolveResult where
  | error
  | noMatch
  | demux
  | forward
  | delay
  | drop
  deriving DecidableEq, Repr

structure Resolution where
  ret : ResolveResult
  sk : Option Sock
  sent : List Skb

def iphLen (m : Mem) (iph : ℕ) : ℕ := ((m iph).toNat % 16) <<< 2

def storeTransportCsum (skb : Skb) (off : ℕ) (proto : UInt8) : Skb :=
  let th := skb.transportHeader
  let m := write skb.mem (th + off) (bytes 0)
  let pseudo := saddr m skb.networkHeader ++ daddr m skb.networkHeader ++ [0, proto] ++
    bytes (UInt16.ofNat skb.len)
  let csum := checksum (pseudo ++ read m th skb.len)
  { skb with mem := write m (th + off) (bytes csum) }

def servalSalUpdateTransportCsum (skb : Skb) (protocol : UInt8) : Skb :=
  if protocol = SERVAL_PROTO_TCP then storeTransportCsum skb 16 6
  else if protocol = SERVAL_PROTO_UDP then storeTransportCsum skb 6 17
  else skb

def ipSendCheck (m : Mem) (iph : ℕ) : Mem :=
  let m := write m (iph + 10) (bytes 0)
  write m (iph + 10) (bytes (checksum (read m iph (iphLen m iph))))

def servalIpv4ForwardOut (skb : Skb) : Skb :=
  let iph := skb.networkHeader
  let m := write skb.mem (iph + 8) [skb.mem (iph + 8) - 1]
  let m := write m (iph + 2) (bytes (UInt16.ofNat skb.len))
  { skb with mem := ipSendCheck m iph }

/-- The packet with the new destination and all checksums, from the SAL header back to the IP
header. A destination of less than four bytes cannot be read. -/
def sendOn (skb : Skb) (dst : List UInt8) (protocol : UInt8) (hdrLen iphLen : ℕ) : Option Skb :=
  if dst.length < 4 then none
  else do
    let skb := { skb with mem := write skb.mem (skb.networkHeader + 16) (dst.take 4) }
    let skb := pskbPull skb hdrLen
    let skb := servalSalUpdateTransportCsum { skb with transportHeader := skb.data } protocol
    let skb ← skbPush skb hdrLen
    let skb := { skb with transportHeader := skb.data }
    let skb := { skb with mem := servalSalSendCheck skb.mem skb.transportHeader }
    let skb ← skbPush skb iphLen
    return servalIpv4ForwardOut skb

/-- The part of the loop for a FORWARD target. Only without a further target the packet itself is used up. -/
def forwardTarget (env : Env) (skb : Skb) (ctx : SalContext) (hdrLen : ℕ) (target : Target)
    (last : Bool) : Option (Option (ℕ × List Skb)) :=
  if env.pktType ≠ .host ∧ env.pktType ≠ .otherhost then some none
  else if !last && !env.copied then some none
  else match env.hardHeaderLen target.out.asOif with
    | none => some none
    | some hardHeaderLen => do
      let cskb := if last then skb else skbCopy skb
      let iphLen := iphLen cskb.mem cskb.networkHeader
      let (cskb, ret) ← servalSalAddSourceExt cskb ctx (if last then none else some skb.mem)
        hardHeaderLen env.alloc
      if ret < 0 then return some (hdrLen, [])
      else
        let hdrLen := hdrLen + ret.toNat
        let cskb ← sendOn cskb target.dst (protocol skb.mem skb.transportHeader) hdrLen iphLen
        return some (hdrLen, [cskb])

/-- The loop over the targets. A DELAY rule passes NULL to `delay_queue_skb`, which reads it
unless it gets no memory. -/
def resolveLoop (env : Env) (skb : Skb) (ctx : SalContext) :
    ℕ → ℕ → ServiceIter → Option Target → ResolveResult → List Skb → Option Resolution
  | 0, _, _, _, _, _ => none
  | _ + 1, _, _, none, ret, sent => some ⟨ret, none, sent⟩
  | fuel + 1, hdrLen, iter, some target, _, sent => do
    let (iter, nextTarget) ← serviceIterNext iter
    match target.type with
    | .demux =>
      let sk ← target.out.asSk
      return ⟨.demux, some sk, sent⟩
    | .delay => if env.alloc then none else some ⟨.delay, none, sent⟩
    | .drop => return ⟨.drop, none, sent⟩
    | _ =>
      match ← forwardTarget env skb ctx hdrLen target nextTarget.isNone with
      | none => return ⟨.drop, none, sent⟩
      | some (hdrLen, out) => resolveLoop env skb ctx fuel hdrLen iter nextTarget .forward (sent ++ out)

def serviceFind (tbl : Table) (srvid : List UInt8) (bits : ℕ) : Option (Option ServiceEntry) := do
  match ← bstFindLongestPrefixMatch tbl.tree srvid bits (some fun _ => true) with
  | none => return none
  | some n =>
    let se ← getService tbl n
    return some se

def servalSalResolveService (tbl : Table) (env : Env) (skb : Skb) (ctx : SalContext)
    (srvid : List UInt8) : Option Resolution := do
  match ← serviceFind tbl srvid SERVICE_ID_MAX_PREFIX_BITS with
  | none => return ⟨.noMatch, none, []⟩
  | some se =>
    let (iter, ret) := serviceIterInit se .anycast env.random
    if ret < 0 then return ⟨.error, none, []⟩
    else
      let (iter, target) ← serviceIterNext iter
      resolveLoop env skb ctx (iterFuel se + 1) ctx.length iter target .noMatch []

def servalSalResolve (tbl : Table) (env : Env) (skb : Skb) (ctx : SalContext) : Option Resolution :=
  if ctx.length ≤ SAL_HEADER_LEN then some ⟨.error, none, []⟩
  else match ctx.srvExt0 with
    | none => some ⟨.error, none, []⟩
    | some ext => servalSalResolveService tbl env skb ctx (read skb.mem (ext + 4) 32)

def servalSalDemuxFlow (env : Env) (ctx : SalContext) : Option Sock :=
  if ctx.ctrlExt.isSome ∧ ctx.flags &&& SVH_SYN ≠ 0 ∧ ctx.flags &&& SVH_ACK = 0 then none
  else env.flowSk

def acceptHeader (skb : Skb) : Option SalContext :=
  let salLength := hdrLength skb.mem skb.transportHeader
  let (ctx, ret) := servalSalParseHdr skb.mem skb.transportHeader .all
  if skb.len < SAL_HEADER_LEN then none
  else if SAL_HEADER_LEN < salLength ∧ skb.len < salLength then none
  else if ret ≠ 0 then none
  else if servalSalCsum skb.mem skb.transportHeader ctx.length ≠ 0 then none
  else some ctx

def pullIp (skb : Skb) : Skb :=
  let skb := pskbPull skb (iphLen skb.mem skb.networkHeader)
  { skb with transportHeader := skb.data }

def servalSalRcv (tbl : Table) (env : Env) (skb : Skb) : Option Resolution :=
  match acceptHeader skb with
  | none => some ⟨.drop, none, []⟩
  | some ctx =>
    match servalSalDemuxFlow env ctx with
    | some sk => some ⟨.demux, some sk, []⟩
    | none => servalSalResolve tbl env skb ctx

def servalIpv4Rcv (tbl : Table) (env : Env) (skb : Skb) : Option Resolution :=
  if skb.mem (skb.networkHeader + 9) ≠ IPPROTO_SERVAL then some ⟨.noMatch, none, []⟩
  else if skb.len < iphLen skb.mem skb.networkHeader then some ⟨.drop, none, []⟩
  else servalSalRcv tbl env (pullIp skb)

section Inversion

variable {tbl : Table} {env : Env} {skb s : Skb} {ctx : SalContext} {r : Resolution}

/-- How a packet `s` comes to be sent: the destination is recorded in the packet received, which
is sent on to the destination of a target. -/
def Passed (env : Env) (skb : Skb) (ctx : SalContext) (s : Skb) : Prop :=
  ∃ (target : Target) (hardHeaderLen : ℕ) (skb' : Skb) (ret : ℤ),
    env.hardHeaderLen target.out.asOif = some hardHeaderLen ∧
    servalSalAddSourceExt skb ctx none hardHeaderLen env.alloc = some (skb', ret) ∧ 0 ≤ ret ∧
    sendOn skb' target.dst (protocol skb.mem skb.transportHeader) (ctx.length + ret.toNat)
      (iphLen skb.mem skb.networkHeader) = some s

theorem forwardTarget_sent {n : ℕ} {target : Target} {out : List Skb}
    (h : forwardTarget env skb ctx ctx.length target true = some (some (n, out))) (hs : s ∈ out) :
    Passed env skb ctx s := by
  simp only [forwardTarget, Bool.not_true, Bool.false_and, Bool.false_eq_true, ↓reduceIte] at h
  split at h
  · cases h
  · split at h
    · cases h
    · rename_i hardHeaderLen hdev
      obtain ⟨⟨skb', ret⟩, hadd, h⟩ := bind_eq_some_iff.mp h
      simp only at h
      split at h
      · cases h
        cases hs
      · rename_i hret
        obtain ⟨s', hsend, h⟩ := bind_eq_some_iff.mp h
        cases h
        rw [List.mem_singleton] at hs
        subst hs
        exact ⟨target, hardHeaderLen, skb', ret, hdev, hadd, not_lt.mp hret, hsend⟩

theorem anycast_set (se : ServiceEntry) (random : ℕ) : (serviceIterInit se .anycast random).1.set = none := by
  unfold serviceIterInit
  split
  · rfl
  · split
    · rfl
    · split
      · rfl
      · rfl

theorem anycast_next {iter iter' : ServiceIter} {target : Option Target} (hset : iter.set = none)
    (hnext : serviceIterNext iter = some (iter', target)) : ∃ iter'', serviceIterNext iter' = some (iter'', none) := by
  have hdone : iter'.pos = none := by
    cases hpos : iter.pos with
    | none =>
      simp only [serviceIterNext, hset, hpos] at hnext
      cases hnext
      rfl
    | some pos =>
      cases pos with
      | nil => simp [serviceIterNext, hset, hpos] at hnext
      | cons t rest =>
        simp only [serviceIterNext, hset, hpos] at hnext
        cases hnext
        rfl
  exact ⟨{ iter' with lastPos := iter'.pos }, by simp [serviceIterNext, hdone]⟩

theorem resolveLoop_sent {fuel : ℕ} {iter iter' : ServiceIter} {target : Option Target}
    (hlast : serviceIterNext iter = some (iter', none))
    (h : resolveLoop env skb ctx fuel ctx.length iter target .noMatch [] = some r) (hs : s ∈ r.sent) :
    Passed env skb ctx s := by
  cases fuel with
  | zero => cases h
  | succ fuel =>
    cases target with
    | none =>
      cases h
      cases hs
    | some target =>
      simp only [resolveLoop, hlast, bind_eq_bind, bind_some, isNone_none] at h
      split at h
      · obtain ⟨sk, -, h⟩ := bind_eq_some_iff.mp h
        cases h
        cases hs
      · split at h
        · cases h
        · cases h
          cases hs
      · cases h
        cases hs
      · obtain ⟨out, hforward, h⟩ := bind_eq_some_iff.mp h
        cases out with
        | none =>
          cases h
          cases hs
        | some out =>
          cases fuel with
          | zero => cases h
          | succ fuel =>
            cases h
            exact forwardTarget_sent hforward hs

theorem resolveService_sent {srvid : List UInt8}
    (h : servalSalResolveService tbl env skb ctx srvid = some r) (hs : s ∈ r.sent) : Passed env skb ctx s := by
  obtain ⟨found, -, h⟩ := bind_eq_some_iff.mp h
  cases found with
  | none =>
    cases h
    cases hs
  | some se =>
    simp only at h
    split at h
    · cases h
      cases hs
    · obtain ⟨⟨iter, target⟩, hnext, h⟩ := bind_eq_some_iff.mp h
      obtain ⟨iter', hlast⟩ := anycast_next (anycast_set se env.random) hnext
      exact resolveLoop_sent hlast h hs

theorem resolve_sent (h : servalSalResolve tbl env skb ctx = some r) (hs : s ∈ r.sent) : Passed env skb ctx s := by
  unfold servalSalResolve at h
  split at h
  · cases h
    cases hs
  · split at h
    · cases h
      cases hs
    · exact resolveService_sent h hs

theorem rcv_sent (h : servalIpv4Rcv tbl env skb = some r) (hs : s ∈ r.sent) :
    ∃ ctx, iphLen skb.mem skb.networkHeader ≤ skb.len ∧ acceptHeader (pullIp skb) = some ctx ∧
      Passed env (pullIp skb) ctx s := by
  unfold servalIpv4Rcv at h
  split at h
  · cases h
    cases hs
  · split at h
    · cases h
      cases hs
    · rename_i hlen
      unfold servalSalRcv at h
      split at h
      · cases h
        cases hs
      · rename_i ctx hctx
        refine ⟨ctx, not_lt.mp hlen, hctx, ?_⟩
        split at h
        · cases h
          cases hs
        · exact resolve_sent h hs

end Inversion

section Sending

variable {skb s : Skb}

theorem updateTransportCsum_eq (skb : Skb) (protocol : UInt8) :
    ∃ m, servalSalUpdateTransportCsum skb protocol = { skb with mem := m } ∧
      ∀ a k, a + k ≤ skb.transportHeader → read m a k = read skb.mem a k := by
  have hstore : ∀ off proto, ∃ m, storeTransportCsum skb off proto = { skb with mem := m } ∧
      ∀ a k, a + k ≤ skb.transportHeader → read m a k = read skb.mem a k := by
    intro off proto
    refine ⟨_, rfl, ?_⟩
    intro a k h
    rw [read_write_disjoint _ _ (.inl (by omega)), read_write_disjoint _ _ (.inl (by omega))]
  unfold servalSalUpdateTransportCsum
  split
  · exact hstore 16 6
  · split
    · exact hstore 6 17
    · exact ⟨skb.mem, rfl, fun _ _ _ => rfl⟩

theorem read_forwardOut (skb : Skb) {a k : ℕ} (h : a + k ≤ skb.networkHeader + 2 ∨ skb.networkHeader + 12 ≤ a) :
    read (servalIpv4ForwardOut skb).mem a k = read skb.mem a k := by
  simp only [servalIpv4ForwardOut, ipSendCheck]
  rw [read_write_disjoint, read_write_disjoint, read_write_disjoint, read_write_disjoint] <;>
    simp <;> omega

/-- The packet that goes out: headers where they were, the target's destination, and the rest as it was up to the
checksums. -/
structure SentOn (skb s : Skb) (dst : List UInt8) (hdrLen size : ℕ) : Prop where
  data : s.data = skb.networkHeader
  network : s.networkHeader = skb.networkHeader
  transport : s.transportHeader = skb.transportHeader
  len : s.len = skb.len + size
  dst : daddr s.mem s.networkHeader = dst.take 4
  ip : ∀ a k, a + k ≤ skb.networkHeader + 2 ∨ skb.networkHeader + 12 ≤ a ∧ a + k ≤ skb.networkHeader + 16 →
      read s.mem a k = read skb.mem a k
  sal : ∀ a k, skb.transportHeader ≤ a → a + k ≤ skb.transportHeader + 10 ∨
    skb.transportHeader + 12 ≤ a ∧ a + k ≤ skb.transportHeader + hdrLen → read s.mem a k = read skb.mem a k

theorem sendOn_eq {dst : List UInt8} {hdrLen size : ℕ} (protocol : UInt8) (hdata : skb.data = skb.transportHeader)
    (hto : skb.transportHeader = skb.networkHeader + size) (hlen : hdrLen ≤ skb.len) (hdst : ¬ dst.length < 4) :
    ∃ m, (∀ a k, a + k ≤ skb.transportHeader + hdrLen →
        read m a k = read (write skb.mem (skb.networkHeader + 16) (dst.take 4)) a k) ∧
      sendOn skb dst protocol hdrLen size = some (servalIpv4ForwardOut
        ⟨servalSalSendCheck m skb.transportHeader, skb.networkHeader, skb.len + size,
          skb.networkHeader, skb.transportHeader⟩) := by
  obtain ⟨m, hm, hframe⟩ := updateTransportCsum_eq
    ⟨write skb.mem (skb.networkHeader + 16) (dst.take 4), skb.transportHeader + hdrLen,
      skb.len - hdrLen, skb.networkHeader, skb.transportHeader + hdrLen⟩ protocol
  have hpull : ¬ skb.len < hdrLen := not_lt.mpr hlen
  have hback : ¬ skb.transportHeader + hdrLen < hdrLen := by omega
  have hip : ¬ skb.transportHeader < size := by omega
  have hnet : skb.transportHeader - size = skb.networkHeader := by omega
  refine ⟨m, hframe, ?_⟩
  simp only [sendOn, hdst, ↓reduceIte, pskbPull, hpull, hdata, hm, skbPush, hback,
    Nat.add_sub_cancel, Nat.sub_add_cancel hlen, bind_eq_bind, bind_some, hip, hnet]
  rfl

theorem sendOn_spec {dst : List UInt8} {protocol : UInt8} {hdrLen size : ℕ} (hdata : skb.data = skb.transportHeader)
    (hto : skb.transportHeader = skb.networkHeader + size) (hsize : 20 ≤ size) (hhdr : SAL_HEADER_LEN ≤ hdrLen)
    (hlen : hdrLen ≤ skb.len) (h : sendOn skb dst protocol hdrLen size = some s) : SentOn skb s dst hdrLen size := by
  have hbase : 12 ≤ hdrLen := hhdr
  have hdst : ¬ dst.length < 4 := by
    intro hshort
    simp [sendOn, hshort] at h
  have hfour : (dst.take 4).length = 4 := by rw [List.length_take]; omega
  obtain ⟨m, hframe, hrun⟩ := sendOn_eq protocol hdata hto hlen hdst
  cases hrun.symm.trans h
  -- the three stages of the memory: destination, transport checksum, then the two headers
  have hread : ∀ a k, (a + k ≤ skb.networkHeader + 2 ∨ skb.networkHeader + 12 ≤ a) →
      (a + k ≤ skb.transportHeader + 10 ∨ skb.transportHeader + 12 ≤ a) →
      a + k ≤ skb.transportHeader + hdrLen →
      read (servalIpv4ForwardOut ⟨servalSalSendCheck m skb.transportHeader, skb.networkHeader,
        skb.len + size, skb.networkHeader, skb.transportHeader⟩).mem a k =
        read (write skb.mem (skb.networkHeader + 16) (dst.take 4)) a k := by
    intro a k hip hsal hbefore
    exact (read_forwardOut ⟨servalSalSendCheck m skb.transportHeader, skb.networkHeader,
      skb.len + size, skb.networkHeader, skb.transportHeader⟩ hip).trans
        ((SalFormat.read_sendCheck m hsal).trans (hframe a k hbefore))
  constructor
  · rfl
  · rfl
  · rfl
  · rfl
  · have hself := read_write_self skb.mem (skb.networkHeader + 16) (dst.take 4)
    rw [hfour] at hself
    exact (hread (skb.networkHeader + 16) 4 (.inr (by omega)) (.inl (by omega))
      (by omega)).trans hself
  · intro a k h
    rw [hread a k (by omega) (.inl (by omega)) (by omega), read_write_disjoint _ _ (by rw [hfour]; omega)]
  · intro a k hfrom h
    rw [hread a k (.inr (by omega)) (by omega) (by omega), read_write_disjoint _ _ (by rw [hfour]; omega)]

end Sending

end SalResolve
