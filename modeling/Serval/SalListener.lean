import Serval.SalRuns

/-! # What packets do to a socket without a connection

A listening socket, or a datagram socket that is bound to a service. The processing of resets and migrations, which
comes before that of the state, does not spare them.
-/
namespace SalListener

open SalSocket SalInput SalListen SalControl SalRefine SalRuns List
open Bool hiding not_true

variable {env : Env} {w w' w'' : World} {p : Packet} {rsk : RequestSock}

def Replies (w w' : World) : Prop := ∃ ms : List Segment, w'.out = w.out ++ ms.map .sent

theorem Replies.refl : Replies w w := ⟨[], by simp⟩

theorem Replies.trans (h₁ : Replies w w') (h₂ : Replies w' w'') : Replies w w'' := by
  obtain ⟨ms₁, h₁⟩ := h₁
  obtain ⟨ms₂, h₂⟩ := h₂
  exact ⟨ms₁ ++ ms₂, by simp [h₂, h₁]⟩

theorem sendAck_replies : Replies w (servalSalSendAck env w).1 := by
  obtain ⟨ms, hout, -⟩ := (sendAck_transmits env w).xmit
  exact ⟨ms, hout⟩

theorem sendSynack_out (h : servalSalSendSynack env w rsk p = some w') :
    w'.sk = w.sk ∧ (w'.out = w.out ∨ ∃ saddr, w'.out = w.out ++ [.sent (synackSegment rsk p saddr)]) := by
  rw [servalSalSendSynack] at h
  rcases hans : w.answer with ⟨a, w₁⟩
  obtain ⟨-, rfl⟩ := Prod.mk.inj hans
  simp only [hans] at h
  split at h
  · cases h
    exact ⟨rfl, .inl rfl⟩
  · split at h
    · cases h
      exact ⟨rfl, .inl rfl⟩
    · split at h
      · cases h
      · cases h
        rw [World.emit]
        split
        · exact ⟨rfl, .inl rfl⟩
        · exact ⟨rfl, .inr ⟨_, rfl⟩⟩

theorem sendSynack_fits (hfits : synackLength env p ≤ maxHeader w.sk.skType) :
    ∃ w', servalSalSendSynack env w rsk p = some w' := by
  rw [servalSalSendSynack]
  rcases hans : w.answer with ⟨a, w₁⟩
  cases hans
  simp only
  split
  · exact ⟨_, rfl⟩
  · split
    · exact ⟨_, rfl⟩
    · rw [if_neg (Nat.not_lt.mpr hfits)]
      exact ⟨_, rfl⟩

def MadeFrom (env : Env) (p : Packet) (rsk : RequestSock) : Prop :=
  ∃ ctrl srv new myaddr, p.ctrl = some ctrl ∧ p.srv0 = some srv ∧ env.devs p.dev = some myaddr ∧
    env.newRequest = some new ∧ rsk = newRequestSock env p ctrl srv new myaddr

structure Requests (env : Env) (p : Packet) (rsk : RequestSock) : Prop where
  syn : p.flags.syn = true ∧ p.flags.ack = false
  new : MadeFrom env p rsk

inductive ListenEffect (env : Env) (p : Packet) (sk : Sock) : Sock → Prop where
  | unchanged : ListenEffect env p sk sk
  | added (rsk : RequestSock) (hrsk : Requests env p rsk) (timers : Timers)
      (hxmit : timers.xmit = sk.timers.xmit) (htw : timers.tw = sk.timers.tw) :
      ListenEffect env p sk { sk with
        synQueue := rsk :: sk.synQueue
        requestQlen := sk.requestQlen + 1
        timers := timers }
  | moved (rsk : RequestSock) (hmem : rsk ∈ sk.synQueue) (timers : Timers)
      (hxmit : timers.xmit = sk.timers.xmit) (htw : timers.tw = sk.timers.tw) :
      ListenEffect env p sk { sk with
        synQueue := sk.synQueue.erase rsk
        acceptQueue := sk.acceptQueue ++ [rsk]
        requestQlen := sk.requestQlen - 1
        ackBacklog := sk.ackBacklog + 1
        timers := timers }

theorem reqskQueueAdd_effect (hrsk : Requests env p rsk) :
    ListenEffect env p w.sk (servalSockReqskQueueAdd env w rsk).sk :=
  .added rsk hrsk _ (by dsimp only; split <;> rfl) (by dsimp only; split <;> rfl)

structure Acknowledges (p : Packet) (rsk : RequestSock) : Prop where
  flowid : rsk.localFlowid = p.dstFlowid
  nonce : ∃ ctrl, p.ctrl = some ctrl ∧ rsk.peerNonce = ctrl.nonce
  verno : p.verno = rsk.rcvSeq + 1
  ackno : p.ackno = rsk.issSeq + 1

theorem requestOf_spec (h : requestOf w.sk p = some rsk) : rsk ∈ w.sk.synQueue ∧ Acknowledges p rsk := by
  rw [requestOf] at h
  split at h
  next hfind hctrl =>
    split at h
    · cases h
    next hnonce =>
      split at h
      · cases h
      next hverno =>
        split at h
        · cases h
        next hackno =>
          cases h
          exact ⟨mem_of_find?_eq_some hfind, by simpa using find?_some hfind,
            ⟨_, hctrl, not_not.mp hnonce⟩, not_not.mp hverno, not_not.mp hackno⟩
  · cases h

theorem acceptRequest_effect (hmem : rsk ∈ w.sk.synQueue) : ListenEffect env p w.sk (acceptRequest w rsk).sk :=
  .moved rsk hmem _ (by dsimp only; split <;> rfl) (by dsimp only; split <;> rfl)

theorem rcvSyn_cases (h : servalSalRcvSyn env w p = some w') : w' = w ∨ ∃ rsk, MadeFrom env p rsk ∧
      servalSalSendSynack env (servalSockReqskQueueAdd env w rsk) rsk p = some w' := by
  have hnone : some w = some w' → w' = w ∨ ∃ rsk, MadeFrom env p rsk ∧
      servalSalSendSynack env (servalSockReqskQueueAdd env w rsk) rsk p = some w' :=
    fun h => .inl (Option.some.inj h).symm
  rw [servalSalRcvSyn] at h
  split at h
  · exact hnone h
  · split at h
    · exact hnone h
    · split at h
      · exact hnone h
      · split at h
        next ctrl srv myaddr new hctrl hsrv hdev hnew =>
          split at h
          · exact hnone h
          · exact .inr ⟨_, ⟨ctrl, srv, new, myaddr, hctrl, hsrv, hdev, hnew, rfl⟩, h⟩
        · exact hnone h

theorem rcvSyn_fits (hfits : synackLength env p ≤ maxHeader w.sk.skType) : ∃ w', servalSalRcvSyn env w p = some w' := by
  rw [servalSalRcvSyn]
  split
  · exact ⟨_, rfl⟩
  · split
    · exact ⟨_, rfl⟩
    · split
      · exact ⟨_, rfl⟩
      · split
        · split
          · exact ⟨_, rfl⟩
          · exact sendSynack_fits hfits
        · exact ⟨_, rfl⟩

def SynackOf (rsk : RequestSock) (m : Segment) : Prop := ∃ p saddr, m = synackSegment rsk p saddr

/-- What a packet does to a listening socket: it is refused, a SYN is answered once more or makes a request, and an
acknowledgment turns a request into a child. -/
inductive Listened (env : Env) (p : Packet) (w : World) : World → Option World → List Segment → Prop where
  | refused {w' : World} {ms : List Segment} : w'.sk = w.sk → (∀ m ∈ ms, m = resetSegment p) →
      Listened env p w w' none ms
  | repeated {w' : World} {rsk : RequestSock} {ms : List Segment} : servalSalFindRsk w.sk p = some rsk →
      w'.sk = w.sk → (∀ m ∈ ms, SynackOf rsk m) → Listened env p w w' none ms
  | requested {w' : World} {rsk : RequestSock} {ms : List Segment} : Requests env p rsk →
      w'.sk = (servalSockReqskQueueAdd env w rsk).sk → (∀ m ∈ ms, SynackOf rsk m) → Listened env p w w' none ms
  | accepted {rsk : RequestSock} : p.flags.ack = true → requestOf w.sk p = some rsk →
      Listened env p w (acceptRequest w rsk)
        (some (connProcess env ⟨servalSalCreateRespondSock w.sk rsk, [], w.tape⟩ p)) []

theorem sendSynack_sent (h : servalSalSendSynack env w rsk p = some w') :
    w'.sk = w.sk ∧ ∃ ms : List Segment, w'.out = w.out ++ ms.map .sent ∧ ∀ m ∈ ms, SynackOf rsk m := by
  obtain ⟨hsk, hout | ⟨saddr, hout⟩⟩ := sendSynack_out h
  · exact ⟨hsk, [], by simp [hout], by simp⟩
  · exact ⟨hsk, [synackSegment rsk p saddr], hout, fun m hm => ⟨p, saddr, mem_singleton.mp hm⟩⟩

theorem sendReset_sent : (servalSalSendReset w p).sk = w.sk ∧
    ∃ ms : List Segment, (servalSalSendReset w p).out = w.out ++ ms.map .sent ∧ ∀ m ∈ ms, m = resetSegment p := by
  obtain ⟨hsk, hout | hout⟩ := sendReset_cases w p
  · exact ⟨hsk, [], by simp [hout], by simp⟩
  · exact ⟨hsk, [resetSegment p], hout, by simp⟩

theorem listenStateProcess_cases {child : Option World} (h : servalSalListenStateProcess env w p = some (w', child)) :
    ∃ ms, w'.out = w.out ++ ms.map .sent ∧ Listened env p w w' child ms := by
  rw [servalSalListenStateProcess] at h
  split at h
  next hsyn =>
    simp only [and_eq_true, not_eq_true'] at hsyn
    split at h
    next rsk hfind =>
      obtain ⟨w₁, hw₁, heq⟩ := Option.map_eq_some_iff.mp h
      cases heq
      obtain ⟨hsk, ms, hout, hms⟩ := sendSynack_sent hw₁
      exact ⟨ms, hout, .repeated hfind hsk hms⟩
    · obtain ⟨w₁, hw₁, heq⟩ := Option.map_eq_some_iff.mp h
      cases heq
      rcases rcvSyn_cases hw₁ with rfl | ⟨rsk, hmade, hsynack⟩
      · exact ⟨[], by simp, .refused rfl (by simp)⟩
      · obtain ⟨hsk, ms, hout, hms⟩ := sendSynack_sent hsynack
        exact ⟨ms, hout, .requested ⟨hsyn, hmade⟩ hsk hms⟩
  · split at h
    next hack =>
      rw [servalSalRequestSockHandle] at h
      cases hreq : requestOf w.sk p with
      | none =>
        simp only [hreq] at h
        cases h
        exact ⟨[], by simp, .refused rfl (by simp)⟩
      | some rsk =>
        simp only [hreq] at h
        by_cases hclone : (!env.cloned || decide (env.transport.childSock < 0)) = true
        · rw [if_pos hclone] at h
          cases h
          exact ⟨[], by simp, .refused rfl (by simp)⟩
        · rw [if_neg hclone] at h
          cases h
          exact ⟨[], by simp [acceptRequest, World.setSk], .accepted hack hreq⟩
    · cases h
      obtain ⟨hsk, ms, hout, hms⟩ := @sendReset_sent w p
      exact ⟨ms, hout, .refused hsk hms⟩

theorem listenStateProcess_effect {child : Option World}
    (h : servalSalListenStateProcess env w p = some (w', child)) : ListenEffect env p w.sk w'.sk ∧ Replies w w' := by
  obtain ⟨ms, hout, hlistened⟩ := listenStateProcess_cases h
  refine ⟨?_, ms, hout⟩
  cases hlistened with
  | refused hsk | repeated _ hsk => exact hsk ▸ .unchanged
  | requested hrsk hsk => exact hsk ▸ reqskQueueAdd_effect hrsk
  | accepted _ hreq => exact acceptRequest_effect (requestOf_spec hreq).1

theorem listenStateProcess_fits
    (hfits : p.flags.syn = true → p.flags.ack = false → synackLength env p ≤ maxHeader w.sk.skType) :
    ∃ w' child, servalSalListenStateProcess env w p = some (w', child) := by
  rw [servalSalListenStateProcess]
  split
  next hsyn =>
    simp only [and_eq_true, not_eq_true'] at hsyn
    have hfits := hfits hsyn.1 hsyn.2
    split
    next rsk _ =>
      obtain ⟨w', heq⟩ := @sendSynack_fits env w p rsk hfits
      exact ⟨w', none, by rw [heq]; rfl⟩
    · obtain ⟨w', heq⟩ := rcvSyn_fits hfits
      exact ⟨w', none, by rw [heq]; rfl⟩
  · split
    · rcases servalSalRequestSockHandle env w p with ⟨w₁, _ | child⟩
      · exact ⟨_, _, rfl⟩
      · exact ⟨_, _, rfl⟩
    · exact ⟨_, _, rfl⟩

/-- What does not change: the state, the error, the shutdown mask, the registration with the
service, and that no timer runs which could change them. -/
structure Undisturbed (w w' : World) : Prop where
  skState : w'.sk.skState = w.sk.skState
  skErr : w'.sk.skErr = w.sk.skErr
  shutdown : w'.sk.shutdown = w.sk.shutdown
  hashKeyLen : w'.sk.hashKeyLen = w.sk.hashKeyLen
  xmit : w'.sk.timers.xmit = w.sk.timers.xmit
  tw : w'.sk.timers.tw = w.sk.timers.tw
  replies : Replies w w'

theorem Undisturbed.of_sk (hsk : w'.sk = w.sk) (hreplies : Replies w w') : Undisturbed w w' := by
  constructor <;> first | rw [hsk] | exact hreplies

theorem Undisturbed.trans (h₁ : Undisturbed w w') (h₂ : Undisturbed w' w'') : Undisturbed w w'' where
  skState := h₂.skState.trans h₁.skState
  skErr := h₂.skErr.trans h₁.skErr
  shutdown := h₂.shutdown.trans h₁.shutdown
  hashKeyLen := h₂.hashKeyLen.trans h₁.hashKeyLen
  xmit := h₂.xmit.trans h₁.xmit
  tw := h₂.tw.trans h₁.tw
  replies := h₁.replies.trans h₂.replies

theorem ListenEffect.undisturbed (h : ListenEffect env p w.sk w'.sk) (hreplies : Replies w w') : Undisturbed w w' := by
  generalize hsk : w'.sk = sk' at h
  cases h with
  | unchanged => exact .of_sk hsk hreplies
  | added rsk hrsk timers hxmit htw | moved rsk hmem timers hxmit htw =>
    constructor <;> first | exact hreplies | simp [hsk, hxmit, htw]

theorem sendAck_undisturbed : Undisturbed w (servalSalSendAck env w).1 := by
  obtain ⟨s, d, hsk⟩ := sendAck_frame env w
  constructor <;> first | exact sendAck_replies | rw [hsk]

theorem rcvRsynack_undisturbed : Undisturbed w (servalSalRcvRsynack env w p).1 := by
  have hack : ∀ sk : Sock, Undisturbed w (w.setSk sk) → Undisturbed w (servalSalSendAck env (w.setSk sk)).1 :=
    fun sk h => h.trans sendAck_undisturbed
  rw [servalSalRcvRsynack]
  split
  · split
    · exact .of_sk rfl .refl
    · split
      · exact .of_sk rfl .refl
      · exact hack _ ⟨rfl, rfl, rfl, rfl, rfl, rfl, .refl⟩
  · exact hack _ ⟨rfl, rfl, rfl, rfl, rfl, rfl, .refl⟩
  · exact sendAck_undisturbed
  · exact sendAck_undisturbed

structure Benign (env : Env) (sk : Sock) (p : Packet) : Prop where
  rst : hasValidVerno p sk = true → p.flags.rst = false
  rsynack : sk.skState = .listen → p.flags.rsyn = true → p.flags.ack = false
  rsyn : sk.skState = .init → p.flags.rsyn = true → p.flags.ack = false →
    hasValidVerno p sk = true → hasValidControlExtension sk p = false
  fits : sk.skState = .listen → p.flags.syn = true → p.flags.ack = false → synackLength env p ≤ maxHeader sk.skType

theorem stateProcess_through (hlisten : w.sk.skState = .listen) (hrst : p.flags.rst = false)
    (hrsynack : p.flags.rsyn = true → p.flags.ack = false) :
    servalSalStateProcess env w p = servalSalListenStateProcess env w p := by
  have hverno : hasValidVerno p w.sk = true := by simp [hasValidVerno, hlisten]
  have hcontrol : controlProcess env w p = (w, true) := by
    rw [controlProcess]
    split
    · rfl
    · simp only [hverno, hrst, Bool.not_true, false_eq_true, if_false]
      cases hrsyn : p.flags.rsyn
      · rfl
      · have hrefused : servalSalRcvRsyn env w p = (w, -1) := by
          simp [servalSalRcvRsyn, hlisten]
        simp [hrsynack hrsyn, hrefused]
  simp [servalSalStateProcess, hcontrol, hlisten]

theorem stateProcess_listen (hlisten : w.sk.skState = .listen) (h : Benign env w.sk p) :
    servalSalStateProcess env w p = servalSalListenStateProcess env w p :=
  stateProcess_through hlisten (h.rst (by simp [hasValidVerno, hlisten])) (h.rsynack hlisten)

theorem listen_packet (hlisten : w.sk.skState = .listen) (h : Benign env w.sk p) :
    ∃ w' child, servalSalStateProcess env w p = some (w', child) ∧ ListenEffect env p w.sk w'.sk ∧ Replies w w' := by
  rw [stateProcess_listen hlisten h]
  obtain ⟨w', child, heq⟩ := listenStateProcess_fits (h.fits hlisten)
  exact ⟨w', child, heq, listenStateProcess_effect heq⟩

theorem dispatch_init (hinit : w.sk.skState = .init) (hreceive : env.transport.receive = []) :
    dispatch env w p = w := by
  simp only [dispatch, hinit, servalSalInitStateProcess, transportReceive, hreceive, foldl_nil]
  split
  · split
    · split <;> rfl
    · rfl
  · rfl

theorem init_packet (hinit : w.sk.skState = .init) (hreceive : env.transport.receive = []) (h : Benign env w.sk p) :
    ∃ w', servalSalStateProcess env w p = some (w', none) ∧ Undisturbed w w' := by
  refine ⟨_, stateProcess_established env p ⟨by simp [hinit], by simp [hinit]⟩, ?_⟩
  have hdispatch : ∀ w₁ : World, Undisturbed w w₁ → Undisturbed w (dispatch env w₁ p) := by
    intro w₁ hw₁
    rw [dispatch_init (hw₁.skState.trans hinit) hreceive]
    exact hw₁
  have hsame : Undisturbed w w := .of_sk rfl .refl
  rw [connProcess, controlProcess]
  by_cases hctrl : p.ctrl.isNone = true
  · rw [if_pos hctrl]
    exact hdispatch w hsame
  · rw [if_neg hctrl]
    cases hverno : hasValidVerno p w.sk
    · exact sendAck_undisturbed
    · simp only [h.rst hverno, Bool.not_true, false_eq_true, if_false]
      cases hrsyn : p.flags.rsyn
      · exact hdispatch w hsame
      · cases hack : p.flags.ack
        · have hrefused : servalSalRcvRsyn env w p = (w, -1) := by
            simp [servalSalRcvRsyn, h.rsyn hinit hrsyn hack hverno]
          simp only [hrefused, if_true]
          exact hdispatch w hsame
        · exact hdispatch _ rcvRsynack_undisturbed

/-- Packets, and the timers that are set. The receive function of UDP calls nothing of the
service access layer. -/
def Passive (env : Env) (w : World) : Event → Prop
  | .packet p => Benign env w.sk p ∧ (w.sk.skState = .init → env.transport.receive = [])
  | .rexmitTimeout => w.sk.timers.xmit.isSome = true
  | .timewaitTimeout => w.sk.timers.tw.isSome = true
  | .keepaliveTimeout _ _ => True
  | _ => False

/-- The sockets that wait for packets, without a timer that would end the waiting. -/
structure Waiting (sk : Sock) : Prop where
  skState : sk.skState = .listen ∨ sk.skState = .init
  xmit : sk.timers.xmit = none
  tw : sk.timers.tw = none

theorem keepaliveTimeout_undisturbed {owned keepopen : Bool} (h : Waiting w.sk) :
    Undisturbed w (servalSalKeepaliveTimeout env w owned keepopen) := by
  rcases keepaliveTimeout_cases env w owned keepopen with ⟨timer, htimer⟩ | ⟨-, hstate⟩
  · rw [htimer]
    exact ⟨rfl, rfl, rfl, rfl, rfl, rfl, .refl⟩
  · rcases h.skState with hs | hs <;> exact nomatch hs.symm.trans hstate

theorem step_undisturbed {e : Event} (h : Waiting w.sk) (hpassive : Passive env w e)
    (hstep : step env w e = some w') : Undisturbed w w' := by
  cases e with
  | packet p =>
    obtain ⟨hbenign, hreceive⟩ := hpassive
    rw [step] at hstep
    rcases h.skState with hs | hs
    · obtain ⟨w₂, child, heq, heffect, hreplies⟩ := listen_packet hs hbenign
      rw [heq] at hstep
      cases hstep
      exact heffect.undisturbed hreplies
    · obtain ⟨w₂, heq, hw₂⟩ := init_packet hs (hreceive hs) hbenign
      rw [heq] at hstep
      cases hstep
      exact hw₂
  | keepaliveTimeout owned keepopen =>
    cases hstep
    exact keepaliveTimeout_undisturbed h
  | rexmitTimeout => simp [Passive, h.xmit] at hpassive
  | timewaitTimeout => simp [Passive, h.tw] at hpassive
  | close | migrate | transport | orphan => exact hpassive.elim

/-- No run of packets and timers changes the state of a waiting socket, its error, its shutdown
mask or its registration, and in LISTEN each packet has one of three effects. -/
theorem waiting_socket_undisturbed (hw : Waiting w.sk) (hrun : Run (fun env w e _ => Passive env w e) w w') :
    Undisturbed w w' ∧ (w'.sk.skState = .listen → ∀ env tape p, Benign env w'.sk p →
        ∃ w'' child, servalSalStateProcess env { w' with tape := tape } p = some (w'', child) ∧
          ListenEffect env p w'.sk w''.sk ∧ Replies w' w'') := by
  constructor
  · induction hrun with
    | refl => exact .of_sk rfl .refl
    | @tail w₁ w₂ _ hstep ih =>
      obtain ⟨env, tape, e, hstep, hpassive⟩ := hstep
      have hwaiting : Waiting w₁.sk :=
        ⟨ih.skState ▸ hw.skState, ih.xmit.trans hw.xmit, ih.tw.trans hw.tw⟩
      have hnext : Undisturbed { w₁ with tape := tape } w₂ := step_undisturbed hwaiting hpassive hstep
      exact ih.trans { hnext with }
  · intro hlisten env tape p hbenign
    obtain ⟨w'', child, heq, heffect, hreplies⟩ :=
      @listen_packet env { w' with tape := tape } p hlisten hbenign
    exact ⟨w'', child, heq, heffect, hreplies⟩

def exampleService : ServiceId := List.Vector.replicate 32 7

def exampleListener : Sock :=
  { servalSockInit (skAlloc .dgram 17) (exampleNonce 0) 0 with
    skState := .listen
    hashKeyLen := 256
    srvidPrefixBits := 256
    localSrvid := exampleService
    maxAckBacklog := 8 }

def serverEnv (flowid : FlowId) : Env :=
  { exampleEnv 10 11 with newRequest := some ⟨flowid, exampleNonce 3, 900, List.Vector.replicate 32 0⟩ }

def exampleSyn (saddr : Addr) (flowid : FlowId) (nonce : UInt8) : Packet :=
  { examplePacket saddr 10 flowid 0 nonce { syn := true } 500 0 with srv0 := some ⟨exampleService, 36⟩ }

theorem exampleSyn_benign {sk : Sock} {flowid clientFlowid : FlowId} {saddr : Addr} {nonce : UInt8}
    (hlisten : sk.skState = .listen) (htype : sk.skType = .dgram) :
    Benign (serverEnv flowid) sk (exampleSyn saddr clientFlowid nonce) where
  rst _ := rfl
  rsynack _ h := absurd h (by simp [exampleSyn, examplePacket, Segment.flags])
  rsyn h := absurd h (by simp [hlisten])
  fits _ _ _ := by
    rw [htype]
    exact (by decide : 60 ≤ 184)

/-- A SYN leaves the listening socket in its state, -/
theorem syn_leaves_listener : ∃ w', Run (fun env w e _ => Passive env w e) ⟨exampleListener, [], []⟩ w' ∧
      Undisturbed ⟨exampleListener, [], []⟩ w' := by
  obtain ⟨w', child, heq, -, -⟩ :=
    @listen_packet (serverEnv 40) ⟨exampleListener, [], []⟩ (exampleSyn 20 1 6) rfl
      (exampleSyn_benign rfl rfl)
  have hrun : Run (fun env w e _ => Passive env w e) ⟨exampleListener, [], []⟩ w' :=
    .single ⟨serverEnv 40, [], .packet (exampleSyn 20 1 6), by rw [step, heq]; rfl,
      exampleSyn_benign rfl rfl, fun h => absurd h (by decide)⟩
  exact ⟨w', hrun, (waiting_socket_undisturbed ⟨.inl rfl, rfl, rfl⟩ hrun).1⟩

def serviceReset : Packet :=
  { examplePacket 66 10 9 0 9 { rst := true } 0 0 with srv0 := some ⟨exampleService, 36⟩ }

/-- and a reset from anyone closes it and takes its service out of the table. -/
theorem reset_closes_listener : (servalSalStateProcess (serverEnv 40) ⟨exampleListener, [], []⟩ serviceReset).map
        (fun r => (r.1.sk.skState, r.1.sk.skErr, r.1.sk.hashKeyLen, r.1.out)) =
      some (.closed, ECONNRESET, 0, [.delTarget exampleService 256]) := by
  decide +kernel

end SalListener
