import Serval.SalListener

/-! # The requests of a listening socket

SYNs are told apart by the flow identifier alone. As long as that is enough, each client has a
request of its own.
-/
namespace SalRequests

open SalSocket SalInput SalListen SalRefine SalRuns SalListener List

variable {env : Env} {w w' : World} {p q : Packet} {rsk : RequestSock}

def IsSyn (p : Packet) : Prop := p.flags.syn = true ∧ p.flags.ack = false

def clientAddr (p : Packet) : Addr := (requestAddrs p 0).1

def nonceOf (p : Packet) : Option Nonce := p.ctrl.map (·.nonce)

structure RequestFor (p : Packet) (rsk : RequestSock) : Prop where
  rmtAddr : rsk.rmtAddr = clientAddr p
  peerFlowid : rsk.peerFlowid = p.srcFlowid
  peerNonce : some rsk.peerNonce = nonceOf p

def requests (sk : Sock) : List RequestSock := sk.synQueue ++ sk.acceptQueue

theorem requestFor_of_requests (h : Requests env p rsk) : RequestFor p rsk := by
  obtain ⟨ctrl, srv, new, myaddr, hctrl, -, -, -, rfl⟩ := h.new
  refine ⟨?_, rfl, by simp [nonceOf, hctrl, newRequestSock]⟩
  simp only [newRequestSock, clientAddr, requestAddrs]
  split <;> rfl

structure Room (env : Env) (sk : Sock) (p : Packet) : Prop where
  ctrl : hasValidControlExtension sk p = true
  srv : hasServiceExtension p.srv0 = true
  qlen : sk.requestQlen ≤ sk.maxRequestQlen
  backlog : sk.ackBacklog ≤ sk.maxAckBacklog
  dev : (env.devs p.dev).isSome = true
  new : env.newRequest.isSome = true
  transport : env.transport.connRequest = 0

theorem rcvSyn_room (hsyn : IsSyn p) (h : Room env w.sk p) : ∃ rsk, Requests env p rsk ∧
      servalSalRcvSyn env w p = servalSalSendSynack env (servalSockReqskQueueAdd env w rsk) rsk p := by
  obtain ⟨myaddr, hdev⟩ := Option.isSome_iff_exists.mp h.dev
  obtain ⟨new, hnew⟩ := Option.isSome_iff_exists.mp h.new
  have hctrl : ∃ ctrl, p.ctrl = some ctrl := by
    have := h.ctrl
    cases hc : p.ctrl <;> simp_all [hasValidControlExtension]
  have hsrv : ∃ srv, p.srv0 = some srv := by
    have := h.srv
    cases hs : p.srv0 <;> simp_all [hasServiceExtension]
  obtain ⟨ctrl, hctrl⟩ := hctrl
  obtain ⟨srv, hsrv⟩ := hsrv
  refine ⟨newRequestSock env p ctrl srv new myaddr, ⟨hsyn, _, _, _, _, hctrl, hsrv, hdev, hnew, rfl⟩, ?_⟩
  rw [servalSalRcvSyn, if_neg (by simp [h.ctrl, h.srv]), if_neg (not_lt.mpr h.qlen), if_neg (not_lt.mpr h.backlog)]
  simp only [hctrl, hsrv, hdev, hnew, h.transport, ne_eq, not_true_eq_false, if_false]

structure Sends (env : Env) (w : World) : Prop where
  alloc : (w.tape.headD {}).alloc = true
  xmit : 0 ≤ (w.tape.headD {}).xmit
  transport : env.transport.buildSynack = 0

theorem sendSynack_sends (h : Sends env w) (hfits : synackLength env p ≤ maxHeader w.sk.skType) :
    ∃ saddr w', servalSalSendSynack env w rsk p = some w' ∧ w'.sk = w.sk ∧
      w'.out = w.out ++ [.sent (synackSegment rsk p saddr)] := by
  set saddr := if rsk.replySaddr = 0 then (env.devs p.dev).getD 0 else rsk.replySaddr with hsaddr
  refine ⟨saddr, { w with out := w.out ++ [.sent (synackSegment rsk p saddr)], tape := w.tape.tail }, ?_, rfl, rfl⟩
  have halloc : (w.answer.1).alloc = true := h.alloc
  have hxmit : ¬(w.answer.1).xmit < 0 := not_lt.mpr h.xmit
  have hlen : ¬maxHeader (w.answer.2).sk.skType < synackLength env p := not_lt.mpr hfits
  simp only [servalSalSendSynack, halloc, h.transport, hlen, World.emit, hxmit]
  rfl

structure Arrival where
  env : Env
  before : World
  packet : Packet
  after : World

inductive Listens : List Arrival → List RequestSock → World → Prop where
  | start (w : World) (hlisten : w.sk.skState = .listen) (hempty : requests w.sk = []) : Listens [] [] w
  | packet {trace : List Arrival} {taken : List RequestSock} {w w' : World} (env : Env) (tape : List Answer)
      (p : Packet) (child : Option World) : Listens trace taken w → Benign env w.sk p →
      servalSalStateProcess env { w with tape := tape } p = some (w', child) →
      Listens (trace ++ [⟨env, { w with tape := tape }, p, w'⟩]) taken w'
  | accept {trace : List Arrival} {taken : List RequestSock} {w : World} (rsk : RequestSock) (sk : Sock) :
      Listens trace taken w → servalAcceptDequeue w.sk = some (rsk, sk) →
      Listens trace (taken ++ [rsk]) (w.setSk sk)

def Distinguished (sk : Sock) (p : Packet) : Prop :=
  ∀ rsk ∈ requests sk, rsk.peerFlowid = p.srcFlowid → RequestFor p rsk

structure Arrival.Admitted (a : Arrival) : Prop where
  syn : IsSyn a.packet
  room : Room a.env a.before.sk a.packet

theorem findRsk_mem (h : servalSalFindRsk w.sk p = some rsk) : rsk ∈ requests w.sk ∧ rsk.peerFlowid = p.srcFlowid := by
  rw [servalSalFindRsk] at h
  exact ⟨mem_of_find?_eq_some h, by simpa using find?_some h⟩

theorem listenEffect_requests {sk sk' : Sock} (h : ListenEffect env p sk sk') :
    (∀ rsk ∈ requests sk, rsk ∈ requests sk') ∧ ∀ rsk ∈ requests sk', rsk ∈ requests sk ∨ Requests env p rsk := by
  cases h with
  | unchanged => exact ⟨fun _ h => h, fun _ h => .inl h⟩
  | added rsk hrsk =>
    constructor
    · intro r hr
      exact mem_cons_of_mem _ hr
    · intro r hr
      rcases mem_cons.mp hr with rfl | hr
      · exact .inr hrsk
      · exact .inl hr
  | moved rsk hmem =>
    simp only [requests, mem_append, mem_singleton]
    constructor
    · rintro r (hr | hr)
      · by_cases heq : r = rsk
        · exact .inr (.inr heq)
        · exact .inl ((mem_erase_of_ne heq).mpr hr)
      · exact .inr (.inl hr)
    · rintro r (hr | hr | rfl)
      · exact .inl (.inl (mem_of_mem_erase hr))
      · exact .inl (.inr hr)
      · exact .inl (.inl hmem)

theorem admitted_request {child : Option World} (hlisten : w.sk.skState = .listen)
    (hbenign : Benign env w.sk p) (hsyn : IsSyn p) (hroom : Room env w.sk p) (hd : Distinguished w.sk p)
    (hprocess : servalSalStateProcess env w p = some (w', child)) :
    ∃ rsk ∈ requests w'.sk, RequestFor p rsk ∧
      (Sends env w → ∃ saddr, w'.out = w.out ++ [.sent (synackSegment rsk p saddr)]) := by
  have hfits := hbenign.fits hlisten hsyn.1 hsyn.2
  rw [stateProcess_listen hlisten hbenign, servalSalListenStateProcess, if_pos (by simp [hsyn.1, hsyn.2])] at hprocess
  cases hfind : servalSalFindRsk w.sk p with
  | some rsk =>
    obtain ⟨hmem, hflow⟩ := findRsk_mem hfind
    simp only [hfind] at hprocess
    obtain ⟨w₁, heq⟩ := @sendSynack_fits env w p rsk hfits
    have hsk := (sendSynack_out heq).1
    rw [heq] at hprocess
    cases hprocess
    refine ⟨rsk, hsk ▸ hmem, hd rsk hmem hflow, fun hsends => ?_⟩
    obtain ⟨saddr, w₂, heq₂, -, hout⟩ := @sendSynack_sends env w p rsk hsends hfits
    cases heq.symm.trans heq₂
    exact ⟨saddr, hout⟩
  | none =>
    simp only [hfind] at hprocess
    obtain ⟨rsk, hrsk, heq⟩ := rcvSyn_room hsyn hroom
    rw [heq] at hprocess
    obtain ⟨w₁, heq₁⟩ := @sendSynack_fits env (servalSockReqskQueueAdd env w rsk) p rsk hfits
    have hsk := (sendSynack_out heq₁).1
    rw [heq₁] at hprocess
    cases hprocess
    refine ⟨rsk, ?_, requestFor_of_requests hrsk, fun hsends => ?_⟩
    · rw [hsk]
      exact mem_cons_self
    · obtain ⟨saddr, w₂, heq₂, -, hout⟩ :=
        @sendSynack_sends env (servalSockReqskQueueAdd env w rsk) p rsk { hsends with } hfits
      cases heq₁.symm.trans heq₂
      exact ⟨saddr, hout⟩

theorem acceptDequeue_cases {sk sk' : Sock} (h : servalAcceptDequeue sk = some (rsk, sk')) :
    ∃ rest, sk.acceptQueue = rsk :: rest ∧ sk' = { sk with acceptQueue := rest, ackBacklog := sk.ackBacklog - 1 } := by
  rw [servalAcceptDequeue] at h
  split at h
  · cases h
  next rest hqueue =>
    cases h
    exact ⟨rest, hqueue, rfl⟩

section Run
variable {trace : List Arrival} {taken : List RequestSock}

theorem Listens.listen (h : Listens trace taken w) : w.sk.skState = .listen := by
  induction h with
  | start w hlisten => exact hlisten
  | @packet trace taken w w' env tape p child _ hbenign hprocess ih =>
    rw [stateProcess_listen (w := { w with tape := tape }) ih hbenign] at hprocess
    obtain ⟨heffect, hreplies⟩ := listenStateProcess_effect hprocess
    exact (heffect.undisturbed hreplies).skState.trans ih
  | @accept trace taken w rsk sk _ hdequeue ih =>
    obtain ⟨rest, -, rfl⟩ := acceptDequeue_cases hdequeue
    exact ih

theorem arrival_requests {tape : List Answer} {child : Option World} (hlisten : w.sk.skState = .listen)
    (hbenign : Benign env w.sk p) (hprocess : servalSalStateProcess env { w with tape := tape } p = some (w', child)) :
    (∀ rsk ∈ requests w.sk, rsk ∈ requests w'.sk) ∧
      ∀ rsk ∈ requests w'.sk, rsk ∈ requests w.sk ∨ Requests env p rsk := by
  rw [stateProcess_listen (w := { w with tape := tape }) hlisten hbenign] at hprocess
  exact listenEffect_requests (listenStateProcess_effect hprocess).1

theorem Listens.request_from_syn (h : Listens trace taken w) :
    ∀ rsk ∈ requests w.sk, ∃ a ∈ trace, Requests a.env a.packet rsk := by
  induction h with
  | start w _ hempty => simp [hempty]
  | packet env tape p child hrun hbenign hprocess ih =>
    intro rsk hrsk
    rcases (arrival_requests hrun.listen hbenign hprocess).2 rsk hrsk with hrsk | hrsk
    · obtain ⟨a, ha, hmade⟩ := ih rsk hrsk
      exact ⟨a, by simp [ha], hmade⟩
    · exact ⟨_, mem_append_right _ (mem_singleton_self _), hrsk⟩
  | @accept trace taken w rsk sk _ hdequeue ih =>
    intro r hr
    refine ih r ?_
    obtain ⟨rest, hqueue, rfl⟩ := acceptDequeue_cases hdequeue
    simp only [requests, World.setSk, mem_append] at hr ⊢
    rw [hqueue]
    exact hr.imp id (mem_cons_of_mem _)

structure Answered (a : Arrival) (m : Segment) : Prop where
  out : a.after.out = a.before.out ++ [.sent m]
  flags : m.flags = { syn := true, ack := true }
  daddr : m.daddr = clientAddr a.packet
  dstFlowid : m.dstFlowid = a.packet.srcFlowid

/-- Every SYN that was admitted and told apart has its request, which may have been taken, and is answered. -/
theorem Listens.admitted_has_request (h : Listens trace taken w)
    (hd : ∀ a ∈ trace, IsSyn a.packet → Distinguished a.before.sk a.packet) :
    ∀ a ∈ trace, a.Admitted → ∃ rsk ∈ requests w.sk ++ taken,
      RequestFor a.packet rsk ∧ (Sends a.env a.before → ∃ m, Answered a m) := by
  induction h with
  | start => simp
  | @packet trace taken w w' env tape p child hrun hbenign hprocess ih =>
    intro a ha hadmitted
    rcases mem_append.mp ha with ha | ha
    · obtain ⟨rsk, hrsk, hrest⟩ := ih (fun b hb => hd b (by simp [hb])) a ha hadmitted
      refine ⟨rsk, ?_, hrest⟩
      rcases mem_append.mp hrsk with hrsk | hrsk
      · exact mem_append_left _ ((arrival_requests hrun.listen hbenign hprocess).1 rsk hrsk)
      · exact mem_append_right _ hrsk
    · obtain rfl := mem_singleton.mp ha
      obtain ⟨rsk, hrsk, hfor, hsent⟩ := admitted_request (w := { w with tape := tape }) hrun.listen hbenign
        hadmitted.syn hadmitted.room (hd _ (by simp) hadmitted.syn) hprocess
      refine ⟨rsk, mem_append_left _ hrsk, hfor, fun hsends => ?_⟩
      obtain ⟨saddr, hout⟩ := hsent hsends
      exact ⟨_, hout, rfl, hfor.rmtAddr, hfor.peerFlowid⟩
  | @accept trace taken w rsk sk _ hdequeue ih =>
    intro a ha hadmitted
    obtain ⟨r, hr, hrest⟩ := ih hd a ha hadmitted
    refine ⟨r, ?_, hrest⟩
    obtain ⟨rest, hqueue, rfl⟩ := acceptDequeue_cases hdequeue
    simp only [requests, World.setSk, mem_append, mem_singleton] at hr ⊢
    rw [hqueue, mem_cons] at hr
    tauto

def DifferentClients (p q : Packet) : Prop := clientAddr p ≠ clientAddr q ∨ nonceOf p ≠ nonceOf q

structure SameClient (p q : Packet) : Prop where
  addr : clientAddr p = clientAddr q
  flowid : p.srcFlowid = q.srcFlowid
  nonce : nonceOf p = nonceOf q

theorem RequestFor.sameClient (hp : RequestFor p rsk) (hq : RequestFor q rsk) : SameClient p q where
  addr := hp.rmtAddr.symm.trans hq.rmtAddr
  flowid := hp.peerFlowid.symm.trans hq.peerFlowid
  nonce := hp.peerNonce.symm.trans hq.peerNonce

theorem RequestFor.ne {rsk' : RequestSock} (hp : RequestFor p rsk) (hq : RequestFor q rsk')
    (hdiff : DifferentClients p q) : rsk ≠ rsk' := by
  rintro rfl
  have hsame := hp.sameClient hq
  rcases hdiff with h | h
  · exact h hsame.addr
  · exact h hsame.nonce

theorem Listens.duplicate_from_client (h : Listens trace taken w)
    (hd : ∀ a ∈ trace, IsSyn a.packet → Distinguished a.before.sk a.packet) :
    ∀ pre a post, trace = pre ++ a :: post → IsSyn a.packet → ∀ rsk, servalSalFindRsk a.before.sk a.packet = some rsk →
        ∃ b ∈ pre, SameClient b.packet a.packet ∧ Requests b.env b.packet rsk := by
  induction h with
  | start => simp
  | @packet trace taken w w' env tape p child hrun hbenign hprocess ih =>
    intro pre a post heq hsyn rsk hfind
    rcases eq_nil_or_concat post with rfl | ⟨post', x, rfl⟩
    · obtain ⟨rfl, ha⟩ := append_inj' heq rfl
      obtain rfl := (cons.inj ha).1
      obtain ⟨hmem, hflow⟩ := findRsk_mem hfind
      obtain ⟨b, hb, hmade⟩ := hrun.request_from_syn rsk hmem
      have hfor := hd _ (by simp) hsyn rsk hmem hflow
      exact ⟨b, hb, (requestFor_of_requests hmade).sameClient hfor, hmade⟩
    · rw [concat_eq_append, ← cons_append, ← append_assoc] at heq
      exact ih (fun b hb => hd b (by simp [hb])) pre a post' (append_inj' heq rfl).1 hsyn rsk hfind
  | accept _ _ _ _ ih => exact ih hd

/-- As long as no SYN has the flow identifier of another client's request, two clients that are
admitted have separate requests, each of their SYNs is answered at its source, and only SYNs of
the same client are duplicates. -/
theorem clients_have_separate_requests (h : Listens trace taken w)
    (hd : ∀ a ∈ trace, IsSyn a.packet → Distinguished a.before.sk a.packet) :
    (∀ a ∈ trace, ∀ b ∈ trace, a.Admitted → b.Admitted → DifferentClients a.packet b.packet →
      ∃ r ∈ requests w.sk ++ taken, ∃ s ∈ requests w.sk ++ taken,
        r ≠ s ∧ RequestFor a.packet r ∧ RequestFor b.packet s) ∧
    (∀ a ∈ trace, a.Admitted → Sends a.env a.before →
      ∃ m, a.after.out = a.before.out ++ [.sent m] ∧ m.flags = { syn := true, ack := true } ∧
        m.daddr = clientAddr a.packet ∧ m.dstFlowid = a.packet.srcFlowid) ∧
    (∀ pre a post, trace = pre ++ a :: post → IsSyn a.packet → ∀ rsk, servalSalFindRsk a.before.sk a.packet = some rsk →
        ∃ b ∈ pre, SameClient b.packet a.packet ∧ Requests b.env b.packet rsk) := by
  refine ⟨fun a ha b hb hadm hadm' hdiff => ?_, fun a ha hadm hsends => ?_, h.duplicate_from_client hd⟩
  · obtain ⟨r, hr, hfor, -⟩ := h.admitted_has_request hd a ha hadm
    obtain ⟨s, hs, hfor', -⟩ := h.admitted_has_request hd b hb hadm'
    exact ⟨r, hr, s, hs, hfor.ne hfor' hdiff, hfor, hfor'⟩
  · obtain ⟨_, -, -, hanswered⟩ := h.admitted_has_request hd a ha hadm
    obtain ⟨m, hm⟩ := hanswered hsends
    exact ⟨m, hm.out, hm.flags, hm.daddr, hm.dstFlowid⟩

end Run

def afterSyn (flowid : FlowId) (w : World) (p : Packet) : World :=
  ((servalSalStateProcess (serverEnv flowid) w p).map (·.1)).getD w

def listening : World := ⟨exampleListener, [], []⟩

theorem exampleSyn_room {sk : Sock} {flowid clientFlowid : FlowId} {saddr : Addr} {nonce : UInt8}
    (hqlen : sk.requestQlen ≤ sk.maxRequestQlen) (hbacklog : sk.ackBacklog ≤ sk.maxAckBacklog) :
    Room (serverEnv flowid) sk (exampleSyn saddr clientFlowid nonce) where
  ctrl := by simp [hasValidControlExtension, exampleSyn, examplePacket]
  srv := by simp [hasServiceExtension, exampleSyn]
  qlen := hqlen
  backlog := hbacklog
  dev := by rfl
  new := by rfl
  transport := rfl

def afterFirst : World := afterSyn 40 listening (exampleSyn 20 1 6)

def afterSecond : World := afterSyn 41 { afterFirst with tape := [] } (exampleSyn 30 2 8)

def twoArrivals : List Arrival :=
  [⟨serverEnv 40, listening, exampleSyn 20 1 6, afterFirst⟩,
    ⟨serverEnv 41, { afterFirst with tape := [] }, exampleSyn 30 2 8, afterSecond⟩]

theorem listens_two : Listens twoArrivals [] afterSecond := by
  have hfirst : Listens [⟨serverEnv 40, listening, exampleSyn 20 1 6, afterFirst⟩] [] afterFirst :=
    .packet (serverEnv 40) [] (exampleSyn 20 1 6) none (.start listening rfl rfl) (exampleSyn_benign rfl rfl)
      (by decide +kernel)
  exact .packet (serverEnv 41) [] (exampleSyn 30 2 8) none hfirst
    (exampleSyn_benign (by decide +kernel) (by decide +kernel)) (by decide +kernel)

theorem two_distinguished : ∀ a ∈ twoArrivals, IsSyn a.packet → Distinguished a.before.sk a.packet := by
  have hsecond : ∀ rsk ∈ requests afterFirst.sk, rsk.peerFlowid ≠ 2 := by decide +kernel
  intro a ha _ rsk hrsk hflow
  simp only [twoArrivals, mem_cons, not_mem_nil, or_false] at ha
  rcases ha with rfl | rfl
  · exact absurd hrsk (by simp [listening, exampleListener, requests, servalSockInit])
  · exact absurd hflow (hsecond rsk hrsk)

/-- They get separate requests, -/
theorem two_clients_separate : ∃ r ∈ requests afterSecond.sk ++ [], ∃ s ∈ requests afterSecond.sk ++ [],
      r ≠ s ∧ RequestFor (exampleSyn 20 1 6) r ∧ RequestFor (exampleSyn 30 2 8) s :=
  (clients_have_separate_requests listens_two two_distinguished).1 _ mem_cons_self _
    (mem_cons_of_mem _ mem_cons_self) ⟨⟨rfl, rfl⟩, exampleSyn_room (by decide) (by decide)⟩
    ⟨⟨rfl, rfl⟩, exampleSyn_room (by decide +kernel) (by decide +kernel)⟩ (.inl (by decide))

def afterSameFlowid : World := afterSyn 41 { afterFirst with tape := [] } (exampleSyn 30 1 8)

/-- and with the same flow identifier the second client gets none: both answers go to the first. -/
theorem second_client_answered_at_first : clientAddr (exampleSyn 20 1 6) = 20 ∧ clientAddr (exampleSyn 30 1 8) = 30 ∧
      (requests afterSameFlowid.sk).map (·.rmtAddr) = [20] ∧
      (sent afterSameFlowid.out).map (·.daddr) = [20, 20] := by
  decide +kernel

end SalRequests
