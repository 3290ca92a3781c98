import Mathlib.Data.Vector.Basic
import Serval.SalParse
import Serval.SkBuff

/-! # Building a SAL header

The sender pushes the extensions and then the base header in front of the packet. Fields that
it does not assign keep what the memory held before.
-/
namespace SalBuild

open ByteMemory SkBuff SalHeader SalFormat SalParse

inductive SalState where
  | init
  | connected
  | request
  | respond
  | finwait1
  | finwait2
  | timewait
  | closed
  | closewait
  | lastack
  | listen
  | closing
  deriving DecidableEq, Repr

inductive SockType where
  | stream
  | dgram
  deriving DecidableEq, Repr

structure ServalSock where
  skState : SalState
  skType : SockType
  skProtocol : UInt8
  localFlowid : List.Vector UInt8 4
  peerFlowid : List.Vector UInt8 4
  localSrvid : List.Vector UInt8 32
  peerSrvid : List.Vector UInt8 32
  localNonce : List.Vector UInt8 8
  rcvNxt : UInt32

structure SalSkbCb where
  flags : UInt8
  verno : UInt32

def SalSkbCb.has (cb : SalSkbCb) (flag : UInt16) : Bool := cb.flags.toUInt16 &&& flag != 0

def addExt (fill : Mem → ℕ → List UInt8) (n : ℕ) (skb : Skb) : Option (Skb × ℕ) := do
  let skb ← skbPush skb n
  return ({ skb with mem := write skb.mem skb.data (fill skb.mem skb.data) }, n)

def controlFlagByte (cb : SalSkbCb) (old : UInt8) : UInt8 :=
  UInt8.ofNat ((cb.has SVH_SYN).toNat * 128 + (cb.has SVH_RSYN).toNat * 64 +
    (cb.has SVH_ACK).toNat * 32 + (cb.has SVH_NACK).toNat * 16 + (cb.has SVH_RST).toNat * 8 +
    (cb.has SVH_FIN).toNat * 4 + old.toNat % 4)

def controlExtBytes (sk : ServalSock) (cb : SalSkbCb) (m : Mem) (a : ℕ) : List UInt8 :=
  [setExtType .control (m a), 20, controlFlagByte cb (m (a + 2)), m (a + 3)] ++
    (bytes32 cb.verno ++ (bytes32 sk.rcvNxt ++ sk.localNonce.toList))

def servalSalAddCtrlExt (sk : ServalSock) (cb : SalSkbCb) (skb : Skb) : Option (Skb × ℕ) :=
  addExt (controlExtBytes sk cb) 20 skb

def serviceExtBytes (srvid : List.Vector UInt8 32) (m : Mem) (a : ℕ) : List UInt8 :=
  [setExtType .service (m a), 36, m (a + 2), m (a + 3)] ++ srvid.toList

def servalSalAddServiceExt (srvid : List.Vector UInt8 32) (skb : Skb) : Option (Skb × ℕ) :=
  addExt (serviceExtBytes srvid) 36 skb

def wantsControl (cb : SalSkbCb) : Bool :=
  cb.has SVH_SYN || cb.has SVH_RSYN || cb.has SVH_FIN || cb.has SVH_RST || cb.has SVH_ACK

def addExtensions (sk : ServalSock) (cb : SalSkbCb) (skb : Skb) : Option (Skb × ℕ) :=
  if wantsControl cb then
    if cb.has SVH_SYN || cb.has SVH_CONN_ACK then do
      let (skb, n) ← servalSalAddServiceExt sk.peerSrvid skb
      let (skb, k) ← servalSalAddCtrlExt sk cb skb
      return (skb, n + k)
    else servalSalAddCtrlExt sk cb skb
  else if sk.skState = .init ∧ sk.skType = .dgram then do
    let (skb, n) ← servalSalAddServiceExt sk.localSrvid skb
    let (skb, k) ← servalSalAddServiceExt sk.peerSrvid skb
    return (skb, n + k)
  else some (skb, 0)

def baseHeaderBytes (sk : ServalSock) (hdrLen : ℕ) (m : Mem) (a : ℕ) : List UInt8 :=
  sk.localFlowid.toList ++ (sk.peerFlowid.toList ++ [UInt8.ofNat (hdrLen >>> 2), sk.skProtocol, m (a + 10), m (a + 11)])

def servalSalBuildHeader (sk : ServalSock) (cb : SalSkbCb) (skb : Skb) : Option Skb := do
  let (skb, n) ← addExtensions sk cb skb
  let skb ← skbPush skb SAL_HEADER_LEN
  return { skb with
    mem := write skb.mem skb.data (baseHeaderBytes sk (n + SAL_HEADER_LEN) skb.mem skb.data) }

theorem extType_setExtType (type : ExtType) (b : UInt8) : extType (setExtType type b) = some type := by
  have hcode : type.code ≤ 4 := by cases type <;> decide
  have hnibble : (setExtType type b).toNat / 16 = type.code := by
    rw [setExtType, UInt8.toNat_ofNat']
    omega
  rw [extType, hnibble]
  cases type <;> rfl

theorem controlFlags_bits : ∀ s r a n t f : Bool, ∀ low < 4,
    controlFlags (UInt8.ofNat (s.toNat * 128 + r.toNat * 64 + a.toNat * 32 + n.toNat * 16 +
      t.toNat * 8 + f.toNat * 4 + low)) =
    UInt16.ofNat (s.toNat + r.toNat * 2 + a.toNat * 4 + n.toNat * 8 + t.toNat * 16 + f.toNat * 32) := by
  decide

theorem flags_bits (x : UInt8) : x.toUInt16 &&& 63 =
    UInt16.ofNat ((x.toUInt16 &&& 1 != 0).toNat + (x.toUInt16 &&& 2 != 0).toNat * 2 +
      (x.toUInt16 &&& 4 != 0).toNat * 4 + (x.toUInt16 &&& 8 != 0).toNat * 8 +
      (x.toUInt16 &&& 16 != 0).toNat * 16 + (x.toUInt16 &&& 32 != 0).toNat * 32) := by
  obtain ⟨x⟩ := x
  revert x
  decide +kernel

theorem controlFlags_flagByte (cb : SalSkbCb) (old : UInt8) :
    controlFlags (controlFlagByte cb old) = cb.flags.toUInt16 &&& 63 := by
  rw [flags_bits]
  exact controlFlags_bits _ _ _ _ _ _ _ (Nat.mod_lt _ (by decide))

structure IsService (e : Ext) (srvid : List.Vector UInt8 32) : Prop where
  type : e.type = .service
  length : e.bytes.length = 36
  srvid : e.srvid = srvid.toList

structure IsControl (e : Ext) (sk : ServalSock) (cb : SalSkbCb) : Prop where
  type : e.type = .control
  length : e.bytes.length = 20
  flags : e.flags = cb.flags.toUInt16 &&& 63
  verno : e.verno = cb.verno
  ackno : e.ackno = sk.rcvNxt
  nonce : e.nonce = sk.localNonce.toList

inductive Carries (sk : ServalSock) (cb : SalSkbCb) : List Ext → Prop where
  | control {c : Ext} : wantsControl cb → ¬ (cb.has SVH_SYN || cb.has SVH_CONN_ACK) →
      IsControl c sk cb → Carries sk cb [c]
  | request {c s : Ext} : wantsControl cb → (cb.has SVH_SYN || cb.has SVH_CONN_ACK) →
      IsControl c sk cb → IsService s sk.peerSrvid → Carries sk cb [c, s]
  | datagram {p l : Ext} : ¬ wantsControl cb → sk.skState = .init ∧ sk.skType = .dgram →
      IsService p sk.peerSrvid → IsService l sk.localSrvid → Carries sk cb [p, l]
  | data : ¬ wantsControl cb → ¬ (sk.skState = .init ∧ sk.skType = .dgram) → Carries sk cb []

section

variable (sk : ServalSock) (srvid : List.Vector UInt8 32) (cb : SalSkbCb) (m : Mem) (a : ℕ)

theorem length_controlExtBytes : (controlExtBytes sk cb m a).length = 20 := by
  simp [controlExtBytes]

theorem length_serviceExtBytes : (serviceExtBytes srvid m a).length = 36 := by
  simp [serviceExtBytes]

def controlExt (sk : ServalSock) (cb : SalSkbCb) (m : Mem) (a : ℕ) : Ext where
  type := .control
  bytes := controlExtBytes sk cb m a
  hasType := by simp [controlExtBytes, extType_setExtType]
  hasLength := by
    rw [if_neg (by decide), length_controlExtBytes]
    rfl
  min := by rw [length_controlExtBytes]; decide
  addrs := by simp

def serviceExt (srvid : List.Vector UInt8 32) (m : Mem) (a : ℕ) : Ext where
  type := .service
  bytes := serviceExtBytes srvid m a
  hasType := by simp [serviceExtBytes, extType_setExtType]
  hasLength := by
    rw [if_neg (by decide), length_serviceExtBytes]
    rfl
  min := by rw [length_serviceExtBytes]; decide
  addrs := by simp

theorem isService : IsService (serviceExt srvid m a) srvid where
  type := rfl
  length := length_serviceExtBytes srvid m a
  srvid := by
    change (srvid.toList).take 32 = srvid.toList
    simp

theorem isControl : IsControl (controlExt sk cb m a) sk cb where
  type := rfl
  length := length_controlExtBytes sk cb m a
  flags := controlFlags_flagByte cb (m (a + 2))
  verno := word32_bytes32 cb.verno []
  ackno := word32_bytes32 sk.rcvNxt []
  nonce := by
    change (sk.localNonce.toList).take 8 = sk.localNonce.toList
    simp

end

def Stacked (skb : Skb) (exts : List Ext) : Prop :=
  read skb.mem skb.data (encode exts).length = encode exts

theorem stacked_nil (skb : Skb) : Stacked skb [] := rfl

variable {skb : Skb} {e : Ext} {b : ℕ}

section

variable (sk : ServalSock) (cb : SalSkbCb) {exts : List Ext}

theorem addExt_stacked (fill : Mem → ℕ → List UInt8) {n : ℕ} {exts : List Ext} (h : Stacked skb exts)
    (hroom : n ≤ skb.data) (he : e.bytes = fill skb.mem (skb.data - n)) (hn : e.bytes.length = n) :
    ∃ skb', addExt fill n skb = some (skb', n) ∧ Stacked skb' (e :: exts) ∧ skb'.data + n = skb.data := by
  refine ⟨⟨write skb.mem (skb.data - n) e.bytes, skb.data - n, skb.len + n, skb.networkHeader,
    skb.transportHeader⟩, ?_, ?_, Nat.sub_add_cancel hroom⟩
  · rw [addExt, skbPush_eq hroom, he]
    rfl
  · rw [Stacked, encode_cons, List.length_append, hn]
    exact (read_pushed hroom hn _).trans (by rw [h])

theorem addService_stacked (srvid : List.Vector UInt8 32) {exts : List Ext}
    (h : Stacked skb exts) (hroom : 36 ≤ skb.data) :
    ∃ skb' e, servalSalAddServiceExt srvid skb = some (skb', 36) ∧ IsService e srvid ∧
      Stacked skb' (e :: exts) ∧ skb'.data + 36 = skb.data := by
  have he := isService srvid skb.mem (skb.data - 36)
  obtain ⟨skb', hrun, hst, hdata⟩ := addExt_stacked (serviceExtBytes srvid) h hroom rfl he.length
  exact ⟨skb', _, hrun, he, hst, hdata⟩

theorem addCtrl_stacked (h : Stacked skb exts) (hroom : 20 ≤ skb.data) :
    ∃ skb' e, servalSalAddCtrlExt sk cb skb = some (skb', 20) ∧ IsControl e sk cb ∧
      Stacked skb' (e :: exts) ∧ skb'.data + 20 = skb.data := by
  have he := isControl sk cb skb.mem (skb.data - 20)
  obtain ⟨skb', hrun, hst, hdata⟩ := addExt_stacked (controlExtBytes sk cb) h hroom rfl he.length
  exact ⟨skb', _, hrun, he, hst, hdata⟩

theorem addExtensions_spec (skb : Skb) (hroom : 72 ≤ skb.data) :
    ∃ skb' exts, addExtensions sk cb skb = some (skb', (encode exts).length) ∧
      Carries sk cb exts ∧ Stacked skb' exts ∧ skb'.data + (encode exts).length = skb.data := by
  unfold addExtensions
  by_cases hctrl : wantsControl cb = true
  · by_cases hsrv : (cb.has SVH_SYN || cb.has SVH_CONN_ACK) = true
    · obtain ⟨skb₁, s, hrun₁, hs, hst₁, hd₁⟩ :=
        addService_stacked sk.peerSrvid (stacked_nil skb) (by omega)
      obtain ⟨skb₂, c, hrun₂, hc, hst₂, hd₂⟩ := addCtrl_stacked sk cb hst₁ (by omega)
      refine ⟨skb₂, [c, s], ?_, .request hctrl hsrv hc hs, hst₂, ?_⟩
      · simp [hctrl, hsrv, hrun₁, hrun₂, hs.length, hc.length]
      · simp [hs.length, hc.length]
        omega
    · obtain ⟨skb', c, hrun, hc, hst, hd⟩ := addCtrl_stacked sk cb (stacked_nil skb) (by omega)
      refine ⟨skb', [c], ?_, .control hctrl hsrv hc, hst, ?_⟩
      · simp [hctrl, hsrv, hrun, hc.length]
      · simp [hc.length, hd]
  · by_cases hdgram : sk.skState = .init ∧ sk.skType = .dgram
    · obtain ⟨skb₁, l, hrun₁, hl, hst₁, hd₁⟩ :=
        addService_stacked sk.localSrvid (stacked_nil skb) (by omega)
      obtain ⟨skb₂, p, hrun₂, hp, hst₂, hd₂⟩ :=
        addService_stacked sk.peerSrvid hst₁ (by omega)
      refine ⟨skb₂, [p, l], ?_, .datagram hctrl hdgram hp hl, hst₂, ?_⟩
      · simp [hctrl, hdgram, hrun₁, hrun₂, hl.length, hp.length]
      · simp [hl.length, hp.length]
        omega
    · exact ⟨skb, [], by simp [hctrl, hdgram], .data hctrl hdgram, stacked_nil skb, rfl⟩

section

variable {sk cb}

theorem Carries.permitted (h : Carries sk cb exts) : Permitted exts := by
  cases h with
  | control _ _ hc =>
    refine ⟨⟨?_, ?_, ?_⟩, ?_⟩ <;> simp [ofType, hc.type, MAX_NUM_SAL_EXTENSIONS]
  | request _ _ hc hs =>
    refine ⟨⟨?_, ?_, ?_⟩, ?_⟩ <;> simp [ofType, hc.type, hs.type, MAX_NUM_SAL_EXTENSIONS]
  | datagram _ _ hp hl =>
    refine ⟨⟨?_, ?_, ?_⟩, ?_⟩ <;> simp [ofType, hp.type, hl.type, MAX_NUM_SAL_EXTENSIONS]
  | data => refine ⟨⟨?_, ?_, ?_⟩, ?_⟩ <;> simp

theorem Carries.words (h : Carries sk cb exts) : (encode exts).length % 4 = 0 ∧ (encode exts).length ≤ 72 := by
  cases h with
  | control _ _ hc => simp [hc.length]
  | request _ _ hc hs => simp [hc.length, hs.length]
  | datagram _ _ hp hl => simp [hp.length, hl.length]
  | data => simp

end

theorem length_baseHeaderBytes (n : ℕ) (m : Mem) (a : ℕ) : (baseHeaderBytes sk n m a).length = SAL_HEADER_LEN := by
  simp [baseHeaderBytes, SAL_HEADER_LEN]

theorem baseHeader_fields {sk : ServalSock} {n k : ℕ} {m m' : Mem} {a : ℕ} {rest : List UInt8}
    (h : read m a k = baseHeaderBytes sk n m' b ++ rest) :
    srcFlowid m a = sk.localFlowid.toList ∧ dstFlowid m a = sk.peerFlowid.toList ∧
      shl m a = UInt8.ofNat (n >>> 2) ∧ protocol m a = sk.skProtocol ∧
      read m (a + SAL_HEADER_LEN) rest.length = rest := by
  obtain ⟨hbase, hrest⟩ := read_eq_append h
  rw [length_baseHeaderBytes] at hbase hrest
  obtain ⟨hsrc, htail⟩ := read_eq_append hbase
  obtain ⟨hdst, htail⟩ := read_eq_append htail
  rw [List.Vector.toList_length] at hsrc hdst htail
  rw [List.Vector.toList_length] at hdst htail
  simp only [List.length_cons, List.length_nil, read_succ, read_zero, List.cons.injEq] at htail
  exact ⟨hsrc, hdst, htail.1, htail.2.1, hrest⟩

theorem build_spec (hroom : 84 ≤ skb.data) :
    ∃ skb' exts, servalSalBuildHeader sk cb skb = some skb' ∧ Carries sk cb exts ∧
      Contains skb'.mem skb'.data exts ∧ srcFlowid skb'.mem skb'.data = sk.localFlowid.toList ∧
      dstFlowid skb'.mem skb'.data = sk.peerFlowid.toList ∧ protocol skb'.mem skb'.data = sk.skProtocol := by
  obtain ⟨skb₁, exts, hrun, hcarries, hst, hdata⟩ := addExtensions_spec sk cb skb (by omega)
  obtain ⟨hmod, hle⟩ := hcarries.words
  have hroom₁ : SAL_HEADER_LEN ≤ skb₁.data := by rw [SAL_HEADER_LEN]; omega
  have hread := read_pushed hroom₁ (length_baseHeaderBytes sk ((encode exts).length + SAL_HEADER_LEN)
    skb₁.mem (skb₁.data - SAL_HEADER_LEN)) (encode exts).length
  rw [hst] at hread
  obtain ⟨hsrc, hdst, hshl, hprot, hbody⟩ := baseHeader_fields hread
  refine ⟨⟨write skb₁.mem (skb₁.data - SAL_HEADER_LEN) (baseHeaderBytes sk
      ((encode exts).length + SAL_HEADER_LEN) skb₁.mem (skb₁.data - SAL_HEADER_LEN)),
    skb₁.data - SAL_HEADER_LEN, skb₁.len + SAL_HEADER_LEN, skb₁.networkHeader,
    skb₁.transportHeader⟩, exts, ?_, hcarries, ⟨?_, hbody, hcarries.permitted⟩, hsrc, hdst, hprot⟩
  · simp only [servalSalBuildHeader, hrun, Option.bind_eq_bind, Option.bind_some, skbPush_eq hroom₁]
    rfl
  · rw [hdrLength, hshl, UInt8.toNat_ofNat', Nat.shiftRight_eq_div_pow, Nat.shiftLeft_eq, SAL_HEADER_LEN]
    omega

end

structure RoundTrip (sk : ServalSock) (cb : SalSkbCb) (m : Mem) (sh : ℕ) : Prop where
  accepted : (servalSalParseHdr m sh .all).2 = 0
  csum : servalSalCsum m sh (hdrLength m sh) = 0
  protocol : protocol m sh = sk.skProtocol
  srcFlowid : srcFlowid m sh = sk.localFlowid.toList
  dstFlowid : dstFlowid m sh = sk.peerFlowid.toList
  control : cb.flags.toUInt16 &&& 63 ≠ 0 → (servalSalParseHdr m sh .all).1.flags = cb.flags.toUInt16 &&& 63 ∧
    (servalSalParseHdr m sh .all).1.verno = cb.verno ∧
    (servalSalParseHdr m sh .all).1.ackno = sk.rcvNxt ∧
    ∃ a, (servalSalParseHdr m sh .all).1.ctrlExt = some a ∧ read m (a + 12) 8 = sk.localNonce.toList
  service : (cb.has SVH_SYN || cb.has SVH_CONN_ACK) = true → ∃ a, (servalSalParseHdr m sh .all).1.srvExt0 = some a ∧
      read m (a + 4) 32 = sk.peerSrvid.toList
  datagram : cb.flags.toUInt16 &&& 63 = 0 → sk.skState = .init → sk.skType = .dgram →
    ∃ a b, (servalSalParseHdr m sh .all).1.srvExt0 = some a ∧ (servalSalParseHdr m sh .all).1.srvExt1 = some b ∧
      read m (a + 4) 32 = sk.peerSrvid.toList ∧ read m (b + 4) 32 = sk.localSrvid.toList

/-- The packets whose flags all travel: with a control extension, or none needed, or as an unconnected datagram. -/
def Encodable (sk : ServalSock) (cb : SalSkbCb) : Prop :=
  wantsControl cb ∨ (¬ cb.has SVH_NACK ∧ (¬ cb.has SVH_CONN_ACK ∨ sk.skState = .init ∧ sk.skType = .dgram))

theorem control_bits (x : UInt8) :
    (x.toUInt16 &&& 63 != 0) = (wantsControl ⟨x, 0⟩ || (⟨x, 0⟩ : SalSkbCb).has SVH_NACK) := by
  obtain ⟨x⟩ := x
  revert x
  decide +kernel

theorem travels_iff (cb : SalSkbCb) : cb.flags.toUInt16 &&& 63 ≠ 0 ↔ wantsControl cb ∨ cb.has SVH_NACK := by
  rw [← bne_iff_ne, control_bits, Bool.or_eq_true]
  rfl

theorem nonce_at {m : Mem} (h : read m b e.bytes.length = e.bytes)
    (hlen : e.bytes.length = 20) : read m (b + 12) 8 = e.nonce := by
  rw [Ext.nonce, ← h]
  exact (read_slice m b (by omega)).symm

theorem srvid_at {m : Mem} (h : read m b e.bytes.length = e.bytes)
    (hlen : e.bytes.length = 36) : read m (b + 4) 32 = e.srvid := by
  rw [Ext.srvid, ← h]
  exact (read_slice m b (by omega)).symm

section Clauses

variable {sk : ServalSock} {cb : SalSkbCb} {exts : List Ext} {m : Mem} {sh : ℕ} {ctx : SalContext}

theorem control_clause (h : Describes ctx sh exts) (hc : IsControl e sk cb)
    (hfound : found .control (sh + SAL_HEADER_LEN) exts = [(b, e)]) (hat : read m b e.bytes.length = e.bytes) :
    ctx.flags = cb.flags.toUInt16 &&& 63 ∧ ctx.verno = cb.verno ∧ ctx.ackno = sk.rcvNxt ∧
      ∃ a, ctx.ctrlExt = some a ∧ read m (a + 12) 8 = sk.localNonce.toList := by
  refine ⟨?_, ?_, ?_, b, ?_, ?_⟩
  · simp [h.flags, hfound, hc.flags]
  · simp [h.verno, hfound, hc.verno]
  · simp [h.ackno, hfound, hc.ackno]
  · simp [h.ctrlExt, hfound]
  · rw [nonce_at hat hc.length, hc.nonce]

theorem srvid_eq {srvid : List.Vector UInt8 32} (hs : IsService e srvid)
    (hat : read m b e.bytes.length = e.bytes) : read m (b + 4) 32 = srvid.toList := by
  rw [srvid_at hat hs.length, hs.srvid]

theorem flags_lost (h : Describes ctx sh exts)
    (hfound : found .control (sh + SAL_HEADER_LEN) exts = []) : ctx.flags = 0 := by
  simp [h.flags, hfound]

theorem not_nack (hflags : ctx.flags = 0) (h : cb.flags.toUInt16 &&& 63 ≠ 0 → ctx.flags = cb.flags.toUInt16 &&& 63) :
    ¬ cb.has SVH_NACK := by
  intro hnack
  have htravel := (travels_iff cb).mpr (.inr hnack)
  exact htravel ((h htravel).symm.trans hflags)

theorem not_travels (hwant : ¬ wantsControl cb) (henc : Encodable sk cb) : ¬ cb.flags.toUInt16 &&& 63 ≠ 0 := by
  rw [travels_iff]
  rcases henc with h | ⟨h, -⟩
  · exact absurd h hwant
  · exact fun ho => ho.elim hwant h

theorem clauses_iff (hcarries : Carries sk cb exts) (hcont : Contains m sh exts) (h : Describes ctx sh exts) :
    ((cb.flags.toUInt16 &&& 63 ≠ 0 → ctx.flags = cb.flags.toUInt16 &&& 63 ∧ ctx.verno = cb.verno ∧
        ctx.ackno = sk.rcvNxt ∧ ∃ a, ctx.ctrlExt = some a ∧ read m (a + 12) 8 = sk.localNonce.toList) ∧
      ((cb.has SVH_SYN || cb.has SVH_CONN_ACK) = true → ∃ a, ctx.srvExt0 = some a ∧
        read m (a + 4) 32 = sk.peerSrvid.toList) ∧
      (cb.flags.toUInt16 &&& 63 = 0 → sk.skState = .init → sk.skType = .dgram →
        ∃ a b, ctx.srvExt0 = some a ∧ ctx.srvExt1 = some b ∧
          read m (a + 4) 32 = sk.peerSrvid.toList ∧ read m (b + 4) 32 = sk.localSrvid.toList)) ↔
    Encodable sk cb := by
  have hat : ∀ b e, (b, e) ∈ place (sh + SAL_HEADER_LEN) exts → read m b e.bytes.length = e.bytes :=
    fun b e hm => (place_inside hcont.body hm).2.2
  cases hcarries with
  | @control e hwant hno hc =>
    have htravel := (travels_iff cb).mpr (.inl hwant)
    refine ⟨fun _ => .inl hwant, fun _ => ⟨fun _ => ?_, fun hs => absurd hs hno, fun h0 => absurd h0 htravel⟩⟩
    exact control_clause h hc (by simp [found, place, ofType, hc.type])
      (hat (sh + SAL_HEADER_LEN) e (by simp [place]))
  | @request e s hwant hyes hc hs =>
    have htravel := (travels_iff cb).mpr (.inl hwant)
    refine ⟨fun _ => .inl hwant, fun _ => ⟨fun _ => ?_, fun _ => ?_, fun h0 => absurd h0 htravel⟩⟩
    · exact control_clause h hc (by simp [found, place, ofType, hc.type, hs.type])
        (hat (sh + SAL_HEADER_LEN) e (by simp [place]))
    · refine ⟨sh + SAL_HEADER_LEN + e.bytes.length, ?_, srvid_eq hs (hat _ s (by simp [place]))⟩
      simp [h.srvExt0, found, place, ofType, hc.type, hs.type]
  | @datagram p l hwant hd hp hl =>
    have hflags := flags_lost h (by simp [found, place, ofType, hp.type, hl.type])
    have hboth : ctx.srvExt0 = some (sh + SAL_HEADER_LEN) ∧
        ctx.srvExt1 = some (sh + SAL_HEADER_LEN + p.bytes.length) := by
      simp [h.srvExt0, h.srvExt1, found, place, ofType, hp.type, hl.type]
    have hpeer := srvid_eq hp (hat (sh + SAL_HEADER_LEN) p (by simp [place]))
    have hlocal := srvid_eq hl (hat (sh + SAL_HEADER_LEN + p.bytes.length) l (by simp [place]))
    constructor
    · rintro ⟨hctrl, -, -⟩
      exact .inr ⟨not_nack hflags fun ht => (hctrl ht).1, .inr hd⟩
    · intro henc
      exact ⟨fun ht => absurd ht (not_travels hwant henc), fun _ => ⟨_, hboth.1, hpeer⟩,
        fun _ _ _ => ⟨_, _, hboth.1, hboth.2, hpeer, hlocal⟩⟩
  | data hwant hd =>
    have hflags := flags_lost h rfl
    have hsrv : ctx.srvExt0 = none := h.srvExt0
    constructor
    · rintro ⟨hctrl, hservice, -⟩
      refine .inr ⟨not_nack hflags fun ht => (hctrl ht).1, .inl fun hack => ?_⟩
      obtain ⟨a, ha, -⟩ := hservice (by simp [hack])
      cases hsrv.symm.trans ha
    · intro henc
      refine ⟨fun ht => absurd ht (not_travels hwant henc), fun hs => ?_, fun _ hi ht => absurd ⟨hi, ht⟩ hd⟩
      rcases henc with hw | ⟨-, hack | hdg⟩
      · exact absurd hw hwant
      · simp only [wantsControl, Bool.or_eq_true, not_or] at hwant
        simp [hwant, hack] at hs
      · exact absurd hdg hd

end Clauses

/-- For every socket, every control block and every buffer with room for the header: what the
sender builds comes back from the parser as it should exactly if the packet is encodable. -/
theorem build_parse_iff (sk : ServalSock) (cb : SalSkbCb) {skb : Skb} (hroom : 84 ≤ skb.data) :
    ∃ skb', servalSalBuildHeader sk cb skb = some skb' ∧
      (RoundTrip sk cb (servalSalSendCheck skb'.mem skb'.data) skb'.data ↔ Encodable sk cb) := by
  obtain ⟨skb', exts, hrun, hcarries, hbuilt, hsrc, hdst, hprot⟩ := build_spec sk cb hroom
  refine ⟨skb', hrun, ?_⟩
  have hcont := contains_sendCheck hbuilt
  obtain ⟨c, hparse, hdesc, -⟩ := parse_contains hcont
  have hiff := clauses_iff hcarries hcont hdesc
  have hcsum : servalSalCsum (servalSalSendCheck skb'.mem skb'.data) skb'.data
      (hdrLength (servalSalSendCheck skb'.mem skb'.data) skb'.data) = 0 :=
    csum_sendCheck (by rw [hbuilt.length]; omega)
  constructor
  · intro h
    have hctrl := h.control
    have hservice := h.service
    have hdatagram := h.datagram
    rw [hparse] at hctrl hservice hdatagram
    exact hiff.mp ⟨hctrl, hservice, hdatagram⟩
  · intro henc
    obtain ⟨hctrl, hservice, hdatagram⟩ := hiff.mpr henc
    constructor
    · rw [hparse]
    · exact hcsum
    · rw [protocol, byte_sendCheck _ (.inl (by omega))]
      exact hprot
    · exact (read_sendCheck _ (.inl (by omega))).trans hsrc
    · exact (read_sendCheck _ (.inl (by omega))).trans hdst
    · rw [hparse]
      exact hctrl
    · rw [hparse]
      exact hservice
    · rw [hparse]
      exact hdatagram

namespace Counterexample

def socket : ServalSock :=
  ⟨.connected, .stream, 6, .replicate 4 1, .replicate 4 2, .replicate 32 3, .replicate 32 4, .replicate 8 5, 7⟩

def emptyBuffer : Skb := ⟨fun _ => 0, 84, 0, 0, 0⟩

def nack : SalSkbCb := ⟨8, 9⟩

def nackPacket : Skb := (servalSalBuildHeader socket nack emptyBuffer).getD emptyBuffer

theorem nackPacket_built : servalSalBuildHeader socket nack emptyBuffer = some nackPacket := rfl

theorem nackPacket_flags : (servalSalParseHdr (servalSalSendCheck nackPacket.mem nackPacket.data)
    nackPacket.data .all).1.flags = 0 := rfl

end Counterexample

open Counterexample in
/-- A packet with nothing but NACK: the header is built without a control extension, and the
parsed flags are zero. -/
theorem nack_is_lost : ∃ skb', servalSalBuildHeader socket nack emptyBuffer = some skb' ∧
    ¬ RoundTrip socket nack (servalSalSendCheck skb'.mem skb'.data) skb'.data := by
  refine ⟨nackPacket, nackPacket_built, ?_⟩
  intro h
  have hflags := (h.control (by decide)).1
  rw [nackPacket_flags] at hflags
  exact absurd hflags (by decide)

open Counterexample in
/-- A SYN of that socket. -/
theorem build_parse_iff_syn : ∃ skb', servalSalBuildHeader socket ⟨1, 9⟩ emptyBuffer = some skb' ∧
    (RoundTrip socket ⟨1, 9⟩ (servalSalSendCheck skb'.mem skb'.data) skb'.data ↔ Encodable socket ⟨1, 9⟩) :=
  build_parse_iff socket ⟨1, 9⟩ (show 84 ≤ emptyBuffer.data by decide)

end SalBuild
