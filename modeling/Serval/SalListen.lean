import Serval.SalInput

/-! # A listening socket

Requests wait in two queues: for the acknowledgment of the client, and to be accepted by the application. Only
the answer to a SYN can run out of headroom, which ends the stack.
-/
namespace SalListen

open SalRtt SalBuild SalSocket SalInput

def MAX_SAL_HDR : ℕ := 32 + 20 + 20 + 12 + 20 + 2 * 36
def MAX_SERVAL_UDP_HDR : ℕ := MAX_SAL_HDR + 8
def MAX_SERVAL_TCP_HEADER : ℕ := MAX_SAL_HDR + 128
def IPPROTO_UDP : UInt8 := 17

def maxHeader : SockType → ℕ
  | .dgram => MAX_SERVAL_UDP_HDR
  | .stream => MAX_SERVAL_TCP_HEADER

def SrcExt.append (ext : SrcExt) (addr : Addr) : SrcExt := ⟨ext.addrs ++ [addr], ext.length + 4⟩

def synackSegment (rsk : RequestSock) (p : Packet) (saddr : Addr) : Segment :=
  { saddr := saddr
    daddr := rsk.rmtAddr
    ipProtocol := SalResolve.IPPROTO_SERVAL
    srcFlowid := rsk.localFlowid
    dstFlowid := rsk.peerFlowid
    protocol := p.protocol
    ctrl := some {
      flags := { syn := true, ack := true }
      verno := rsk.issSeq
      ackno := rsk.rcvSeq + 1
      nonce := rsk.localNonce
      length := 20 }
    source := p.source.map (SrcExt.append · rsk.locAddr)
    transport := true }

def synackLength (env : Env) (p : Packet) : ℕ :=
  env.transport.synackLen + (p.source.map (·.length + 4)).getD 0 + 20 + 12 + 20

def servalSalSendSynack (env : Env) (w : World) (rsk : RequestSock) (p : Packet) : Option World :=
  let (a, w) := w.answer
  if !a.alloc then some w
  else if env.transport.buildSynack ≠ 0 then some w
  else if maxHeader w.sk.skType < synackLength env p then none
  else
    let saddr := if rsk.replySaddr = 0 then (env.devs p.dev).getD 0 else rsk.replySaddr
    some (w.emit a.xmit (synackSegment rsk p saddr))

/-- Where the client is, and the source address of the answer. A client behind a NAT expects the answer from the first
forwarder. -/
def requestAddrs (p : Packet) (myaddr : Addr) : Addr × Addr :=
  match p.source with
  | some ext =>
    (ext.addrs.getD 0 0, if p.ipProtocol = IPPROTO_UDP then ext.addrs.getD 1 0 else myaddr)
  | none => (p.saddr, if p.pktType = .broadcast then myaddr else p.daddr)

def newRequestSock (env : Env) (p : Packet) (ctrl : CtrlExt) (srv : SrvExt) (new : NewRequest)
    (myaddr : Addr) : RequestSock :=
  { peerSrvid := new.peerSrvid
    targetSrvid := srv.srvid
    localFlowid := new.flowid
    peerFlowid := p.srcFlowid
    rmtAddr := (requestAddrs p myaddr).1
    locAddr := myaddr
    replySaddr := (requestAddrs p myaddr).2
    rcvSeq := p.verno
    issSeq := new.iss
    localNonce := new.nonce
    peerNonce := ctrl.nonce
    expires := env.now + SAL_TIMEOUT_INIT.toNat }

def servalSockReqskQueueAdd (env : Env) (w : World) (rsk : RequestSock) : World :=
  w.setSk { w.sk with
    synQueue := rsk :: w.sk.synQueue
    requestQlen := w.sk.requestQlen + 1
    timers := if w.sk.requestQlen = 0 then
        { w.sk.timers with keepalive := some (env.now + SAL_TIMEOUT_INIT.toNat) }
      else w.sk.timers }

def servalSalRcvSyn (env : Env) (w : World) (p : Packet) : Option World :=
  if !hasValidControlExtension w.sk p || !hasServiceExtension p.srv0 then some w
  else if w.sk.maxRequestQlen < w.sk.requestQlen then some w
  else if w.sk.maxAckBacklog < w.sk.ackBacklog then some w
  else match p.ctrl, p.srv0, env.devs p.dev, env.newRequest with
    | some ctrl, some srv, some myaddr, some new =>
      if env.transport.connRequest ≠ 0 then some w
      else
        let rsk := newRequestSock env p ctrl srv new myaddr
        servalSalSendSynack env (servalSockReqskQueueAdd env w rsk) rsk p
    | _, _, _, _ => some w

def servalSalFindRsk (sk : Sock) (p : Packet) : Option RequestSock :=
  (sk.synQueue ++ sk.acceptQueue).find? (·.peerFlowid = p.srcFlowid)

/-- The clone of the listening socket after `serval_sock_init`, with the fields of the request.
It is put into the table of flows. -/
def servalSalCreateRespondSock (parent : Sock) (rsk : RequestSock) : Sock :=
  { servalSockInit parent rsk.localNonce rsk.issSeq with
    skState := .respond
    skErr := 0
    saddr := rsk.locAddr
    daddr := rsk.rmtAddr
    hashKeyLen := 4
    established := true
    localFlowid := rsk.localFlowid
    peerFlowid := rsk.peerFlowid
    localSrvid := rsk.targetSrvid
    peerSrvid := rsk.peerSrvid
    ackBacklog := 0
    peerNonce := rsk.peerNonce
    snd := ⟨rsk.issSeq, rsk.issSeq + 1, 1, rsk.issSeq⟩
    rcv := ⟨rsk.rcvSeq + 1, 1, rsk.rcvSeq⟩ }

def acceptRequest (w : World) (rsk : RequestSock) : World :=
  w.setSk { w.sk with
    synQueue := w.sk.synQueue.erase rsk
    acceptQueue := w.sk.acceptQueue ++ [rsk]
    requestQlen := w.sk.requestQlen - 1
    ackBacklog := w.sk.ackBacklog + 1
    timers := if w.sk.requestQlen = 1 then { w.sk.timers with keepalive := none } else w.sk.timers }

def servalAcceptDequeue (sk : Sock) : Option (RequestSock × Sock) :=
  match sk.acceptQueue with
  | [] => none
  | rsk :: rest => some (rsk, { sk with acceptQueue := rest, ackBacklog := sk.ackBacklog - 1 })

def requestOf (sk : Sock) (p : Packet) : Option RequestSock :=
  match sk.synQueue.find? (·.localFlowid = p.dstFlowid), p.ctrl with
  | some rsk, some ctrl =>
    if rsk.peerNonce ≠ ctrl.nonce then none
    else if p.verno ≠ rsk.rcvSeq + 1 then none
    else if p.ackno ≠ rsk.issSeq + 1 then none
    else some rsk
  | _, _ => none

def servalSalRequestSockHandle (env : Env) (w : World) (p : Packet) : World × Option Sock :=
  match requestOf w.sk p with
  | none => (w, none)
  | some rsk =>
    if !env.cloned || env.transport.childSock < 0 then (w, none)
    else (acceptRequest w rsk, some (servalSalCreateRespondSock w.sk rsk))

def servalSalListenStateProcess (env : Env) (w : World) (p : Packet) : Option (World × Option World) :=
  if p.flags.syn && !p.flags.ack then
    match servalSalFindRsk w.sk p with
    | some rsk => (servalSalSendSynack env w rsk p).map (·, none)
    | none => (servalSalRcvSyn env w p).map (·, none)
  else if p.flags.ack then
    match servalSalRequestSockHandle env w p with
    | (w, none) => some (w, none)
    | (w, some child) => some (w, some (connProcess env ⟨child, [], w.tape⟩ p))
  else some (servalSalSendReset w p, none)

def servalSalStateProcess (env : Env) (w : World) (p : Packet) : Option (World × Option World) :=
  let (w, go) := controlProcess env w p
  if !go then some (w, none)
  else if w.sk.skState = .listen then servalSalListenStateProcess env w p
  else some (dispatch env w p, none)

theorem stateProcess_conn {env : Env} {w : World} {p : Packet}
    (h : (controlProcess env w p).2 = true → (controlProcess env w p).1.sk.skState ≠ .listen) :
    servalSalStateProcess env w p = some (connProcess env w p, none) := by
  rw [servalSalStateProcess, connProcess]
  rcases hr : controlProcess env w p with ⟨w₁, go⟩
  rw [hr] at h
  cases go
  · rfl
  · simp [h rfl]

end SalListen
