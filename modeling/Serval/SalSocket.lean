import Serval.SalRtt
import Serval.SalResolve

/-! # A socket of the service access layer

A packet is the fields of its headers; what the rest of the host answers is an argument. Statistics, wake-ups, locks and
reference counts are left out.
-/
namespace SalSocket

open SerialNumber SalRtt SalBuild SalResolve

abbrev Addr := UInt32
abbrev FlowId := UInt32
abbrev Nonce := List.Vector UInt8 8
abbrev ServiceId := List.Vector UInt8 32

inductive RsynState where
  | initial
  | sent
  | recv
  | sentRecv
  deriving DecidableEq, Repr

/-- The flags of a control block. The last two do not travel. -/
structure Flags where
  syn : Bool := false
  rsyn : Bool := false
  ack : Bool := false
  nack : Bool := false
  rst : Bool := false
  fin : Bool := false
  connAck : Bool := false
  retrans : Bool := false
  deriving DecidableEq, Repr

def Flags.or (f g : Flags) : Flags :=
  ⟨f.syn || g.syn, f.rsyn || g.rsyn, f.ack || g.ack, f.nack || g.nack, f.rst || g.rst, f.fin || g.fin,
    f.connAck || g.connAck, f.retrans || g.retrans⟩

def Flags.wire (f : Flags) : Flags := { f with connAck := false, retrans := false }

def Flags.wantsControl (f : Flags) : Bool := f.syn || f.rsyn || f.fin || f.rst || f.ack

structure CtrlSkb where
  flags : Flags
  verno : UInt32
  stamp : UInt32 := 0
  transport : Bool := false
  deriving DecidableEq, Repr

structure CtrlExt where
  flags : Flags
  verno : UInt32
  ackno : UInt32
  nonce : Nonce
  length : ℕ
  deriving DecidableEq

structure SrvExt where
  srvid : ServiceId
  length : ℕ
  deriving DecidableEq

structure SrcExt where
  addrs : List Addr
  length : ℕ
  deriving DecidableEq

structure Segment where
  saddr : Addr
  daddr : Addr
  ipProtocol : UInt8
  srcFlowid : FlowId
  dstFlowid : FlowId
  protocol : UInt8
  ctrl : Option CtrlExt := none
  srv0 : Option SrvExt := none
  srv1 : Option SrvExt := none
  source : Option SrcExt := none
  transport : Bool := false
  deriving DecidableEq

structure Packet extends Segment where
  dev : ℕ
  pktType : PacketType
  deriving DecidableEq

/-- What `ctx->flags`, `ctx->verno` and `ctx->ackno` are after parsing. -/
def Segment.flags (p : Segment) : Flags := (p.ctrl.map (·.flags)).getD {}
def Segment.verno (p : Segment) : UInt32 := (p.ctrl.map (·.verno)).getD 0
def Segment.ackno (p : Segment) : UInt32 := (p.ctrl.map (·.ackno)).getD 0

structure SndSeq where
  una : UInt32
  nxt : UInt32
  wnd : UInt32
  iss : UInt32
  deriving DecidableEq, Repr

structure RcvSeq where
  nxt : UInt32
  wnd : UInt32
  iss : UInt32
  deriving DecidableEq, Repr

structure Timers where
  xmit : Option ℕ := none
  tw : Option ℕ := none
  keepalive : Option ℕ := none
  deriving DecidableEq, Repr

structure Shutdown where
  rcv : Bool := false
  snd : Bool := false
  deriving DecidableEq, Repr

structure RequestSock where
  peerSrvid : ServiceId
  targetSrvid : ServiceId
  localFlowid : FlowId
  peerFlowid : FlowId
  rmtAddr : Addr
  locAddr : Addr
  replySaddr : Addr
  rcvSeq : UInt32
  issSeq : UInt32
  localNonce : Nonce
  peerNonce : Nonce
  expires : ℕ
  deriving DecidableEq

structure Sock where
  skState : SalState
  skType : SockType
  skProtocol : UInt8
  skErr : ℕ
  skErrSoft : ℕ
  shutdown : Shutdown
  dead : Bool
  destroyed : Bool
  boundDevIf : ℕ
  saddr : Addr
  daddr : Addr
  salState : RsynState
  migDevIf : ℕ
  migDaddr : Addr
  hashKeyLen : ℕ
  established : Bool
  srvidPrefixBits : ℕ
  localFlowid : FlowId
  peerFlowid : FlowId
  localSrvid : ServiceId
  peerSrvid : ServiceId
  synQueue : List RequestSock
  acceptQueue : List RequestSock
  requestQlen : ℕ
  maxRequestQlen : ℕ
  ackBacklog : ℕ
  maxAckBacklog : ℕ
  ctrlQueue : Option CtrlSkb
  sendHead : Bool
  localNonce : Nonce
  peerNonce : Nonce
  snd : SndSeq
  rcv : RcvSeq
  retransmits : UInt8
  rtt : Rtt
  timers : Timers
  deriving DecidableEq

def DEFAULT_MAX_REQUEST_QLEN : ℕ := 500

def skAlloc (type : SockType) (protocol : UInt8) : Sock where
  skState := .init
  skType := type
  skProtocol := protocol
  skErr := 0
  skErrSoft := 0
  shutdown := {}
  dead := false
  destroyed := false
  boundDevIf := 0
  saddr := 0
  daddr := 0
  salState := .initial
  migDevIf := 0
  migDaddr := 0
  hashKeyLen := 0
  established := false
  srvidPrefixBits := 0
  localFlowid := 0
  peerFlowid := 0
  localSrvid := List.Vector.replicate 32 0
  peerSrvid := List.Vector.replicate 32 0
  synQueue := []
  acceptQueue := []
  requestQlen := 0
  maxRequestQlen := 0
  ackBacklog := 0
  maxAckBacklog := 0
  ctrlQueue := none
  sendHead := false
  localNonce := List.Vector.replicate 8 0
  peerNonce := List.Vector.replicate 8 0
  snd := ⟨0, 0, 0, 0⟩
  rcv := ⟨0, 0, 0⟩
  retransmits := 0
  rtt := Rtt.init
  timers := {}

def servalSockInit (sk : Sock) (nonce : Nonce) (iss : UInt32) : Sock :=
  { sk with
    skState := .init
    salState := .initial
    requestQlen := 0
    maxRequestQlen := DEFAULT_MAX_REQUEST_QLEN
    acceptQueue := []
    synQueue := []
    timers := {}
    ctrlQueue := none
    sendHead := false
    localNonce := nonce
    hashKeyLen := 0
    rcv := { sk.rcv with nxt := 0, wnd := 1 }
    snd := ⟨0, 0, 1, iss⟩
    retransmits := 0
    rtt := { Rtt.init with rttSeq := sk.rtt.rttSeq } }

inductive Output where
  | sent (seg : Segment)
  | delTarget (srvid : ServiceId) (bits : ℕ)
  deriving DecidableEq

/-- What became of a resolution: an error before the first target, or the addresses of the packets sent, the source
address of the last device, and the result. -/
inductive Resolved where
  | failed (err : ℤ)
  | done (legs : List (Addr × Addr)) (saddr : Addr) (err : ℤ)
  deriving DecidableEq

structure Answer where
  alloc : Bool := true
  copied : Bool := true
  xmit : ℤ := 0
  resolved : Resolved := .failed (-99)
  deriving DecidableEq

inductive TransportCall where
  | sendFin
  | sendActiveReset
  | rcvReset
  | writeErr
  | done
  | updateRtt (rtt : UInt32)
  deriving DecidableEq, Repr

/-- The return values of the transport's callbacks (`none` for one that does not exist), what it calls when it
receives a packet, and the length of its header in a SYN-ACK. -/
structure Transport where
  buildSyn : ℤ := 0
  buildSynack : ℤ := 0
  buildAck : ℤ := 0
  connRequest : ℤ := 0
  childSock : ℤ := 0
  requestState : ℤ := 0
  respondState : ℤ := 0
  close : Option ℤ := none
  receive : List TransportCall := []
  synackLen : ℕ := 8
  deriving DecidableEq

/-- The flow identifier, nonce and sequence number that a new request gets, and what its memory
holds where nothing is assigned. -/
structure NewRequest where
  flowid : FlowId
  nonce : Nonce
  iss : UInt32
  peerSrvid : ServiceId
  deriving DecidableEq

/-- What does not change during one call: the clock, the devices with their addresses, limits and times, the
transport, and what can be allocated. -/
structure Env where
  now : ℕ
  devs : ℕ → Option Addr
  maxRetransmits : ℕ
  keepalive : ℕ
  transport : Transport
  newRequest : Option NewRequest
  cloned : Bool

/-- A socket with what it has sent, and the answers that its next attempts to send get. -/
structure World where
  sk : Sock
  out : List Output
  tape : List Answer
  deriving DecidableEq

def ENODEV : ℤ := 19
def ENOMEM : ℤ := 12
def ENOBUFS : ℤ := 105
def ECONNREFUSED : ℕ := 111
def EPIPE : ℕ := 32
def ECONNRESET : ℕ := 104
def ETIMEDOUT : ℕ := 110
def SAL_TIMEWAIT_LEN : ℕ := 6000
def SAL_FIN_TIMEOUT : ℕ := SAL_TIMEWAIT_LEN

def World.setSk (w : World) (sk : Sock) : World := { w with sk := sk }

def World.answer (w : World) : Answer × World := (w.tape.headD {}, { w with tape := w.tape.tail })

def salTimeStamp (env : Env) : UInt32 := UInt32.ofNat env.now

def servalSockClearXmitTimer (w : World) : World :=
  w.setSk { w.sk with timers := { w.sk.timers with xmit := none } }

def servalSockResetXmitTimer (env : Env) (w : World) (expires : ℕ) : World :=
  w.setSk { w.sk with timers := { w.sk.timers with
    xmit := some (env.now + min expires SAL_RTO_MAX.toNat) } }

def servalSockUnhash (w : World) : World :=
  if w.sk.hashKeyLen = 0 then w
  else if w.sk.skState = .listen ∨ w.sk.skState = .init then
    { w with
      sk := { w.sk with hashKeyLen := 0 }
      out := w.out ++ [.delTarget w.sk.localSrvid
        (if w.sk.srvidPrefixBits = 0 then ServiceTable.SERVICE_ID_MAX_PREFIX_BITS
        else w.sk.srvidPrefixBits)] }
  else if w.sk.established then w.setSk { w.sk with established := false, hashKeyLen := 0 }
  else w

def servalSockSetState (w : World) (newState : SalState) : World :=
  let w := if newState = .closed then servalSockUnhash w else w
  w.setSk { w.sk with skState := newState }

def servalSockSetSalState (w : World) (newState : RsynState) : World :=
  w.setSk { w.sk with salState := newState }

def servalSockDestroy (w : World) : World :=
  if !w.sk.dead then w
  else w.setSk { w.sk with
    timers := { w.sk.timers with xmit := none, tw := none }
    ctrlQueue := none
    destroyed := true }

def servalSockDone (w : World) : World :=
  let w := servalSockSetState w .closed
  let w := w.setSk { w.sk with
    timers := { w.sk.timers with xmit := none, keepalive := none }
    shutdown := ⟨true, true⟩ }
  if w.sk.dead then servalSockDestroy w else w

def servalSalDone (w : World) : World := servalSockDone w

def servalSalBuildHeader (sk : Sock) (skb : CtrlSkb) (saddr daddr : Addr) : Segment :=
  let datagram : Bool := sk.skState = .init ∧ sk.skType = .dgram
  { saddr := saddr
    daddr := daddr
    ipProtocol := IPPROTO_SERVAL
    srcFlowid := sk.localFlowid
    dstFlowid := sk.peerFlowid
    protocol := sk.skProtocol
    ctrl := if skb.flags.wantsControl then
      some ⟨skb.flags.wire, skb.verno, sk.rcv.nxt, sk.localNonce, 20⟩ else none
    srv0 := if skb.flags.wantsControl then
      if skb.flags.syn || skb.flags.connAck then some ⟨sk.peerSrvid, 36⟩ else none
      else if datagram then some ⟨sk.peerSrvid, 36⟩ else none
    srv1 := if !skb.flags.wantsControl && datagram then some ⟨sk.localSrvid, 36⟩ else none
    transport := skb.transport }

def World.emit (w : World) (err : ℤ) (seg : Segment) : World :=
  if err < 0 then w else { w with out := w.out ++ [.sent seg] }

def queueXmit (env : Env) (w : World) (a : Answer) (dev : Option ℕ) (skb : CtrlSkb) : World × ℤ :=
  if dev.isNone && (env.devs w.sk.boundDevIf).isNone then (w, -ENODEV)
  else (w.emit a.xmit (servalSalBuildHeader w.sk skb w.sk.saddr w.sk.daddr), a.xmit)

/-- A packet with RSYN leaves by the device to migrate to, and in RSYN_RECV it goes to the new address of the peer. -/
def servalSalDoXmit (env : Env) (w : World) (a : Answer) (skb : CtrlSkb) : World × ℤ :=
  if !skb.flags.rsyn then queueXmit env w a none skb
  else
    let migDev := env.devs w.sk.migDevIf
    let tempDaddr := w.sk.daddr
    let w := w.setSk { w.sk with saddr := migDev.getD w.sk.saddr }
    let w := if w.sk.salState = .recv then w.setSk { w.sk with daddr := w.sk.migDaddr } else w
    let (w, err) := queueXmit env w a (migDev.map fun _ => w.sk.migDevIf) skb
    let w := if migDev.isSome then
        w.setSk { w.sk with saddr := (env.devs w.sk.boundDevIf).getD w.sk.saddr } else w
    let w := if w.sk.salState = .recv then w.setSk { w.sk with daddr := tempDaddr } else w
    (w, err)

def sendsAtOnce : SalState → Bool
  | .connected | .finwait1 | .finwait2 | .closing | .closewait => true
  | _ => false

def servalSalTransmitSkb (env : Env) (w : World) (a : Answer) (skb : CtrlSkb) (useCopy : Bool) : World × ℤ :=
  if useCopy && !a.copied then (w, -ENOBUFS)
  else if sendsAtOnce w.sk.skState || w.sk.daddr != 0 then servalSalDoXmit env w a skb
  else match a.resolved with
    | .failed err => (w, err)
    | .done legs saddr err =>
      ({ w with
          sk := { w.sk with saddr := saddr, daddr := 0 }
          out := w.out ++ legs.map fun leg => .sent (servalSalBuildHeader w.sk skb leg.1 leg.2) }, err)

/-- Also returns the flags of the packet removed. The queue holds one packet at most. -/
def servalSalCleanRtxQueue (env : Env) (w : World) (ackno : UInt32) (all : Bool) : World × Flags :=
  match w.sk.ctrlQueue with
  | none => (w, {})
  | some skb =>
    if after ackno skb.verno || all then
      let rtt := if skb.flags.retrans || all then w.sk.rtt
        else servalSalUpdateRtt w.sk.snd.una w.sk.snd.nxt w.sk.rtt (salTimeStamp env - skb.stamp)
      let w := w.setSk { w.sk with ctrlQueue := none, sendHead := false, rtt := rtt, retransmits := 0 }
      (servalSockClearXmitTimer w, skb.flags)
    else (servalSockResetXmitTimer env w w.sk.rtt.rto.toNat, {})

def servalSalQueueCtrlSkb (w : World) (skb : CtrlSkb) : World :=
  w.setSk { w.sk with ctrlQueue := some skb, sendHead := true, snd := { w.sk.snd with una := skb.verno } }

def servalSalWriteXmit (env : Env) (w : World) (a : Answer) : World × ℤ :=
  match w.sk.ctrlQueue with
  | none => (w, 0)
  | some skb =>
    if w.sk.sendHead && w.sk.snd.nxt - w.sk.snd.una ≤ w.sk.snd.wnd then
      let skb := { skb with stamp := salTimeStamp env }
      let w := w.setSk { w.sk with ctrlQueue := some skb }
      let (w, err) := servalSalTransmitSkb env w a skb true
      if err < 0 then (w, err) else (w.setSk { w.sk with sendHead := false }, err)
    else (w, 0)

/-- The new packet takes the place of the one in the queue, and its flags in addition. -/
def servalSalQueueAndPush (env : Env) (w : World) (a : Answer) (skb : CtrlSkb) : World × ℤ :=
  let (w, flags) := servalSalCleanRtxQueue env w 0 true
  let w := servalSalQueueCtrlSkb w { skb with flags := skb.flags.or flags }
  let w := servalSockResetXmitTimer env w w.sk.rtt.rto.toNat
  servalSalWriteXmit env w a

def servalSalSendSyn (env : Env) (w : World) (verno : UInt32) : World × ℤ :=
  let (a, w) := w.answer
  if !a.alloc then (w, -ENOMEM)
  else if env.transport.buildSyn ≠ 0 then (w, env.transport.buildSyn)
  else
    let w := w.setSk { w.sk with snd := { w.sk.snd with nxt := verno + 1 } }
    servalSalQueueAndPush env w a ⟨{ syn := true }, verno, 0, true⟩

/-- `addr` is the address that may stand behind the service identifier. -/
def servalSalConnect (env : Env) (w : World) (srvid : ServiceId) (addr : Option Addr) : World × ℤ :=
  let w := w.setSk { w.sk with peerSrvid := srvid, daddr := addr.getD w.sk.daddr }
  servalSalSendSyn env w w.sk.snd.iss

def servalSalSendRsyn (env : Env) (w : World) (verno : UInt32) : World × ℤ :=
  if w.sk.skState = .request ∨ w.sk.skState = .listen ∨ w.sk.skState = .closed then (w, -1)
  else
    let w := match w.sk.salState with
      | .initial => servalSockSetSalState w .sent
      | .recv => servalSockSetSalState w .sentRecv
      | .sent | .sentRecv => w
    let (a, w) := w.answer
    -- a FIN that has been sent and not acknowledged is sent again
    let fin : Bool := w.sk.skState = .finwait1 ∨ w.sk.skState = .closing ∨ w.sk.skState = .lastack
    servalSalQueueAndPush env w a ⟨{ rsyn := true, fin := fin }, verno, 0, false⟩

/-- The number is used up also where no RSYN can be sent. -/
def servalSalMigrate (env : Env) (w : World) : World × ℤ :=
  let verno := w.sk.snd.nxt
  let w := w.setSk { w.sk with snd := { w.sk.snd with nxt := verno + 1 } }
  servalSalSendRsyn env w verno

/-- `serval_sock_migrate_flow`: the device first, then the migration. -/
def servalSockMigrate (env : Env) (w : World) (newDev : ℕ) : World × ℤ :=
  servalSalMigrate env (w.setSk { w.sk with migDevIf := newDev })

def servalSalSendFin (env : Env) (w : World) : World × ℤ :=
  let (a, w) := w.answer
  let verno := w.sk.snd.nxt
  let w := w.setSk { w.sk with snd := { w.sk.snd with nxt := verno + 1 } }
  let flags : Flags := match w.sk.salState with
    | .sent => { fin := true, rsyn := true }
    | .recv => { fin := true, rsyn := true, ack := true }
    | .initial | .sentRecv => { fin := true }
  servalSalQueueAndPush env w a ⟨flags, verno, 0, false⟩

def servalSalSendAck (env : Env) (w : World) : World × ℤ :=
  let (a, w) := w.answer
  if !a.alloc then (w, -ENOMEM)
  else servalSalTransmitSkb env w a ⟨{ ack := true }, w.sk.snd.nxt, 0, false⟩ false

def servalSalSendActiveReset (env : Env) (w : World) : World :=
  let (a, w) := w.answer
  if !a.alloc then w
  else (servalSalTransmitSkb env w a ⟨{ rst := true, ack := true }, w.sk.snd.nxt, 0, false⟩ false).1

def servalSalRcvReset (w : World) : World :=
  match w.sk.skState with
  | .request => servalSalDone (w.setSk { w.sk with skErr := ECONNREFUSED })
  | .closewait => servalSalDone (w.setSk { w.sk with skErr := EPIPE })
  | .closed => w
  | _ => servalSalDone (w.setSk { w.sk with skErr := ECONNRESET })

/-- Closing by the application. A transport that has a callback sends the FIN when it is done, or
asks for a reset. -/
def servalSalClose (env : Env) (w : World) : World :=
  let finish (w : World) : World := match env.transport.close with
    | none => (servalSalSendFin env w).1
    | some err => if 0 < err then servalSalSendActiveReset env (servalSockSetState w .closed) else w
  match w.sk.skState with
  | .closewait => finish (servalSockSetState w .lastack)
  | .connected | .respond => finish (servalSockSetState w .finwait1)
  | .finwait1 | .finwait2 | .closing | .timewait => w
  | _ => servalSalDone w

inductive Finishes (env : Env) (w : World) : World → Prop where
  | fin (h : env.transport.close = none) : Finishes env w (servalSalSendFin env w).1
  | reset {err : ℤ} (h : env.transport.close = some err) (hpos : 0 < err) :
      Finishes env w (servalSalSendActiveReset env (servalSockSetState w .closed))
  | transport {err : ℤ} (h : env.transport.close = some err) (hpos : ¬0 < err) : Finishes env w w

/-- What a close can do: the socket goes to LAST-ACK or FIN-WAIT-1; or it is closed already, or done with. -/
theorem close_cases (env : Env) (w : World) : (∃ s, (w.sk.skState = .closewait ∧ s = .lastack ∨
        (w.sk.skState = .connected ∨ w.sk.skState = .respond) ∧ s = .finwait1) ∧
      Finishes env (servalSockSetState w s) (servalSalClose env w)) ∨
    servalSalClose env w = w ∨ servalSalClose env w = servalSalDone w := by
  have hfinish (s : SalState)
      (hfin : env.transport.close = none → servalSalClose env w = (servalSalSendFin env (servalSockSetState w s)).1)
      (herr : ∀ err, env.transport.close = some err → servalSalClose env w =
        if 0 < err then servalSalSendActiveReset env (servalSockSetState (servalSockSetState w s) .closed)
        else servalSockSetState w s) :
      Finishes env (servalSockSetState w s) (servalSalClose env w) := by
    cases hclose : env.transport.close with
    | none =>
      rw [hfin hclose]
      exact .fin hclose
    | some err =>
      rw [herr err hclose]
      by_cases hpos : 0 < err
      · rw [if_pos hpos]
        exact .reset hclose hpos
      · rw [if_neg hpos]
        exact .transport hclose hpos
  cases hs : w.sk.skState with
  | closewait =>
    refine .inl ⟨.lastack, .inl ⟨rfl, rfl⟩, hfinish _ ?_ ?_⟩
    · intro hclose
      simp only [servalSalClose, hs, hclose]
    · intro err hclose
      simp only [servalSalClose, hs, hclose]
  | connected =>
    refine .inl ⟨.finwait1, .inr ⟨.inl rfl, rfl⟩, hfinish _ ?_ ?_⟩
    · intro hclose
      simp only [servalSalClose, hs, hclose]
    · intro err hclose
      simp only [servalSalClose, hs, hclose]
  | respond =>
    refine .inl ⟨.finwait1, .inr ⟨.inr rfl, rfl⟩, hfinish _ ?_ ?_⟩
    · intro hclose
      simp only [servalSalClose, hs, hclose]
    · intro err hclose
      simp only [servalSalClose, hs, hclose]
  | finwait1 | finwait2 | closing | timewait => exact .inr (.inl (by simp only [servalSalClose, hs]))
  | _ => exact .inr (.inr (by simp only [servalSalClose, hs]))

def servalSalRexmit (env : Env) (w : World) : World :=
  match w.sk.ctrlQueue with
  | none => w
  | some skb =>
    let (a, w) := w.answer
    let skb := { skb with flags := { skb.flags with retrans := true } }
    (servalSalTransmitSkb env (w.setSk { w.sk with ctrlQueue := some skb }) a skb true).1

def servalSalWriteErr (w : World) : World :=
  servalSalDone (w.setSk { w.sk with
    skErr := if w.sk.skErrSoft ≠ 0 then w.sk.skErrSoft else ETIMEDOUT })

def servalSalRexmitTimeout (env : Env) (w : World) : World :=
  if w.sk.retransmits.toNat = env.maxRetransmits then servalSalWriteErr w
  else
    let w := servalSalRexmit env w
    let w := w.setSk { w.sk with
      rtt := { w.sk.rtt with backoff := w.sk.rtt.backoff + 1 }
      retransmits := w.sk.retransmits + 1 }
    -- the shift of a 32-bit number uses five bits of the backoff
    servalSockResetXmitTimer env w
      (min (w.sk.rtt.rto <<< w.sk.rtt.backoff.toUInt32) SAL_RTO_MAX).toNat

def servalSalTimewaitTimeout (w : World) : World := servalSalDone w

def servalSalKeepaliveTimeout (env : Env) (w : World) (owned keepopen : Bool) : World :=
  let reset (len : ℕ) : World := w.setSk { w.sk with
    timers := { w.sk.timers with keepalive := some (env.now + len) } }
  if owned then reset 5
  else if w.sk.skState = .listen then w
  else if w.sk.skState = .finwait2 ∧ w.sk.dead then servalSalDone w
  else if !keepopen || w.sk.skState = .closed then w
  else reset env.keepalive

def transportCall (env : Env) (w : World) : TransportCall → World
  | .sendFin => (servalSalSendFin env w).1
  | .sendActiveReset => servalSalSendActiveReset env w
  | .rcvReset => servalSalRcvReset w
  | .writeErr => servalSalWriteErr w
  | .done => servalSalDone w
  | .updateRtt rtt => w.setSk { w.sk with
      rtt := servalSalUpdateRtt w.sk.snd.una w.sk.snd.nxt w.sk.rtt rtt }

def transportReceive (env : Env) (w : World) : World :=
  env.transport.receive.foldl (transportCall env) w

end SalSocket
