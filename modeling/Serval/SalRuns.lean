import Serval.SalRefine

/-! # Runs of a socket

A socket takes one event after the other. The environment and the answers of the host are new
for each event; what has left the socket is kept.
-/
namespace SalRuns

open SalSocket SalInput SalListen SalControl SalRefine

/-- `none` is the end of the stack. The child of a listening socket is a socket of its own. -/
def step (env : Env) (w : World) : Event → Option World
  | .packet p => (servalSalStateProcess env w p).map (·.1)
  | .close => some (servalSalClose env w)
  | .migrate dev => some (servalSockMigrate env w dev).1
  | .rexmitTimeout => some (servalSalRexmitTimeout env w)
  | .timewaitTimeout => some (servalSalTimewaitTimeout w)
  | .keepaliveTimeout owned keepopen => some (servalSalKeepaliveTimeout env w owned keepopen)
  | .transport call => some (transportCall env w call)
  | .orphan => some (w.setSk { w.sk with dead := true })

def Established (sk : Sock) : Prop := sk.skState ≠ .listen ∧ sk.skState ≠ .request

instance (sk : Sock) : Decidable (Established sk) := inferInstanceAs (Decidable (_ ∧ _))

variable {env : Env} {w w' : World} {e : Event} {p : Packet}

theorem stateProcess_established (env : Env) (p : Packet) (h : Established w.sk) :
    servalSalStateProcess env w p = some (connProcess env w p, none) := by
  refine stateProcess_conn fun hgo => ?_
  obtain ⟨-, hstate, -⟩ := (@controlProcess_does env _ w _ rfl h.1 h.2).2 hgo
  rw [hstate]
  exact h.1

theorem step_packet (h : Established w.sk) : step env w (.packet p) = some (connProcess env w p) := by
  rw [step, stateProcess_established env p h]
  rfl

def numbers (env : Env) : Event → ℕ
  | .packet _ => finCalls env
  | .close => 1
  | .migrate _ => 1
  | .transport call => finCount [call]
  | _ => 0

theorem step_does (h : Established w.sk) (hstep : step env w e = some w') :
    Does env e (ctl w.sk) (numbers env e) w w' := by
  cases e with
  | packet p =>
    rw [step_packet h] at hstep
    cases hstep
    exact connProcess_does rfl h.1 h.2
  | close =>
    cases hstep
    exact close_does rfl
  | migrate dev =>
    cases hstep
    exact migrate_does rfl
  | rexmitTimeout =>
    cases hstep
    exact rexmitTimeout_does rfl
  | timewaitTimeout =>
    cases hstep
    exact done_does
  | keepaliveTimeout owned keepopen =>
    cases hstep
    exact keepaliveTimeout_does
  | transport call =>
    cases hstep
    exact transportCall_does (.inl rfl)
  | orphan =>
    cases hstep
    exact .of_eq rfl rfl

def Steps (ok : Env → World → Event → World → Prop) (w w' : World) : Prop :=
  ∃ env tape e, step env { w with tape := tape } e = some w' ∧ ok env { w with tape := tape } e w'

def Run (ok : Env → World → Event → World → Prop) : World → World → Prop := Relation.ReflTransGen (Steps ok)

/-! The examples have datagram sockets, whose transport has few callbacks, on hosts with two
devices. -/

def udpTransport : Transport := {}

def exampleEnv (addr₁ addr₂ : Addr) : Env where
  now := 0
  devs dev := if dev = 1 then some addr₁ else if dev = 2 then some addr₂ else none
  maxRetransmits := 16
  keepalive := 0
  transport := udpTransport
  newRequest := none
  cloned := true

def exampleNonce (n : UInt8) : Nonce := List.Vector.replicate 8 n

def exampleSock (saddr daddr : Addr) (flowid peerFlowid : FlowId) (nonce peerNonce : UInt8) (nxt rcv : UInt32) : Sock :=
  { servalSockInit (skAlloc .dgram 17) (exampleNonce nonce) (nxt - 1) with
    skState := .connected
    boundDevIf := 1
    saddr := saddr
    daddr := daddr
    hashKeyLen := 4
    established := true
    localFlowid := flowid
    peerFlowid := peerFlowid
    peerNonce := exampleNonce peerNonce
    snd := ⟨nxt, nxt, 1, nxt - 1⟩
    rcv := ⟨rcv, 1, rcv - 1⟩ }

def examplePacket (saddr daddr : Addr) (src dst : FlowId) (nonce : UInt8) (flags : Flags)
    (verno ackno : UInt32) : Packet where
  saddr := saddr
  daddr := daddr
  ipProtocol := SalResolve.IPPROTO_SERVAL
  srcFlowid := src
  dstFlowid := dst
  protocol := 17
  ctrl := some ⟨flags, verno, ackno, exampleNonce nonce, 20⟩
  dev := 1
  pktType := .host

end SalRuns
