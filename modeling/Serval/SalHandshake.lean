import Serval.SalListener

/-! # The client's side of the handshake

What a socket in REQUEST does with a packet.
-/
namespace SalHandshake

open SalSocket SalInput SalListen SalControl SalRefine SalRuns

variable {env : Env} {w w' : World} {p : Packet}

def requestAnswered (sk : Sock) (p : Packet) (ctrl : CtrlExt) : Sock :=
  { sk with
    boundDevIf := p.dev
    daddr := match p.source with
      | some ext => SrcExt.lastAddr ext
      | none => p.saddr
    saddr := p.daddr
    peerNonce := ctrl.nonce
    peerFlowid := p.srcFlowid
    rcv := { sk.rcv with nxt := p.verno + 1 } }

def handshakeAck (sk : Sock) : Segment :=
  servalSalBuildHeader sk ⟨{ ack := true, connAck := true }, sk.snd.nxt, 0, true⟩ sk.saddr sk.daddr

structure Answers (sk : Sock) (p : Packet) : Prop where
  valid : hasValidControlExtension sk p = true
  syn : p.flags.syn = true
  acceptable : ackAcceptable sk p = true

theorem transmit_connected {a : Answer} {skb : CtrlSkb} (hstate : w.sk.skState = .connected)
    (hrsyn : skb.flags.rsyn = false) :
    (servalSalTransmitSkb env w a skb false).1 = w ∨ (servalSalTransmitSkb env w a skb false).1 =
        { w with out := w.out ++ [.sent (servalSalBuildHeader w.sk skb w.sk.saddr w.sk.daddr)] } := by
  simp only [servalSalTransmitSkb, hstate, sendsAtOnce, Bool.false_and, Bool.true_or, Bool.false_eq_true,
    if_false, if_true, servalSalDoXmit, hrsyn, Bool.not_false]
  exact queueXmit_out ..

def requestConnect (env : Env) (w : World) : World :=
  let (a, w) := w.answer
  if !a.alloc then w
  else if env.transport.buildAck ≠ 0 then w
  else (servalSalTransmitSkb env w a ⟨{ ack := true, connAck := true }, w.sk.snd.nxt, 0, true⟩ false).1

theorem requestConnect_cases (hstate : w.sk.skState = .connected) :
    (requestConnect env w).sk = w.sk ∧ ((requestConnect env w).out = w.out ∨
        (requestConnect env w).out = w.out ++ [.sent (handshakeAck w.sk)]) := by
  rw [requestConnect]
  rcases hans : w.answer with ⟨a, w₁⟩
  obtain ⟨-, rfl⟩ := Prod.mk.inj hans
  simp only
  split
  · exact ⟨rfl, .inl rfl⟩
  · split
    · exact ⟨rfl, .inl rfl⟩
    · rcases @transmit_connected env { w with tape := w.tape.tail } a
        ⟨{ ack := true, connAck := true }, w.sk.snd.nxt, 0, true⟩ hstate rfl with h | h <;> rw [h]
      · exact ⟨rfl, .inl rfl⟩
      · exact ⟨rfl, .inr rfl⟩

theorem requestStateProcess_answers {ctrl : CtrlExt} (hctrl : p.ctrl = some ctrl) (h : Answers w.sk p) :
    servalSalRequestStateProcess env w p =
      let w₁ := (ackAccept env w p).setSk (requestAnswered (ackAccept env w p).sk p ctrl)
      if env.transport.requestState ≠ 0 then w₁
      else requestConnect env (servalSockSetState w₁ .connected) := by
  have hack : p.flags.ack = true := by
    have := h.acceptable
    simp only [ackAcceptable, Bool.and_eq_true] at this
    exact this.1.1
  simp only [servalSalRequestStateProcess, hctrl, h.valid, h.syn, hack, servalSalAckProcess, h.acceptable,
    Bool.and_true, Bool.not_true, Bool.false_eq_true, if_false, if_true, ne_eq, not_true_eq_false]
  rfl

theorem requestStateProcess_cases (env : Env) (w : World) (p : Packet) :
    servalSalRequestStateProcess env w p = w ∨ ∃ ctrl, p.ctrl = some ctrl ∧ Answers w.sk p := by
  rw [servalSalRequestStateProcess]
  cases hctrl : p.ctrl with
  | none => exact .inl rfl
  | some ctrl =>
    simp only
    split
    · exact .inl rfl
    next hvalid =>
      split
      · exact .inl rfl
      next hflags =>
        simp only [Bool.not_eq_true', Bool.not_eq_false, Bool.and_eq_true] at hvalid hflags
        rw [servalSalAckProcess]
        cases hack : ackAcceptable w.sk p
        · exact .inl rfl
        · exact .inr ⟨ctrl, rfl, hvalid, hflags.1, hack⟩

/-! ## Waiting for the answer -/

inductive Waits (devs : ℕ → Option Addr) (c : Ctl) : List Segment → Ctl → Prop where
  | same : Waits devs c [] c
  | closed {queue destroyed} : queue = c.queue ∨ queue = none →
      Waits devs c [] { c with skState := .closed, queue := queue, destroyed := destroyed }
  | rexmit {f v ms c'} : c.queue = some (f, v) →
      Xmit devs { c with queue := some ({ f with retrans := true }, v) } { f with retrans := true } v ms c' →
      Waits devs c ms c'
  | ack {ms c'} : Xmit devs c { ack := true } c.nxt ms c' → Waits devs c ms c'

def Waited (env : Env) (w w' : World) : Prop :=
  ∃ ms, sent w'.out = sent w.out ++ ms ∧ Waits env.devs (ctl w.sk) ms (ctl w'.sk)

theorem Waited.of_eq (hctl : ctl w'.sk = ctl w.sk) (hout : sent w'.out = sent w.out) : Waited env w w' :=
  ⟨[], by simp [hout], hctl ▸ .same⟩

theorem done_waited {w₀ : World} (hctl : ctl w.sk = ctl w₀.sk) (hout : w.out = w₀.out) :
    Waited env w₀ (servalSalDone w) := by
  obtain ⟨queue, destroyed, hqueue, hdone⟩ := done_ctl w
  rw [hctl] at hqueue hdone
  refine ⟨[], by rw [done_sent, hout, List.append_nil], hdone ▸ .closed ?_⟩
  exact hqueue.imp And.left And.left

theorem rexmit_waited : Waited env w (servalSalRexmit env w) := by
  cases hq : w.sk.ctrlQueue with
  | none =>
    rw [servalSalRexmit, hq]
    exact .of_eq rfl rfl
  | some skb =>
    obtain ⟨ms, hout, hxmit⟩ := (rexmit_transmits env hq).sent_out
    exact ⟨ms, hout, .rexmit (queue_ctl hq) hxmit⟩

theorem sendAck_waited : Waited env w (servalSalSendAck env w).1 := by
  obtain ⟨ms, hout, hxmit⟩ := (sendAck_transmits env w).sent_out
  exact ⟨ms, hout, .ack hxmit⟩

def isLocal : Event → Bool
  | .close | .rexmitTimeout | .timewaitTimeout | .keepaliveTimeout _ _ | .orphan => true
  | .packet _ | .migrate _ | .transport _ => false

theorem step_waited {e : Event} (hstate : w.sk.skState = .request ∨ w.sk.skState = .closed)
    (he : isLocal e = true) (hstep : step env w e = some w') : Waited env w w' := by
  cases e with
  | packet | migrate | transport => cases he
  | close =>
    cases hstep
    have hclose : servalSalClose env w = servalSalDone w := by
      rcases hstate with h | h <;> simp only [servalSalClose, h]
    rw [hclose]
    exact done_waited rfl rfl
  | rexmitTimeout =>
    cases hstep
    rw [servalSalRexmitTimeout]
    split
    · exact done_waited rfl rfl
    · exact rexmit_waited
  | timewaitTimeout =>
    cases hstep
    exact done_waited rfl rfl
  | keepaliveTimeout owned keepopen =>
    cases hstep
    rcases keepaliveTimeout_cases env w owned keepopen with ⟨timer, h⟩ | ⟨h, -⟩ <;> rw [h]
    · exact .of_eq rfl rfl
    · exact done_waited rfl rfl
  | orphan =>
    cases hstep
    exact .of_eq rfl rfl

theorem request_packet (hstate : w.sk.skState = .request) (hsal : w.sk.salState = .initial)
    (hsyn : p.flags.syn = true → p.flags.rsyn = false ∧ p.flags.rst = false) :
    ∃ w', step env w (.packet p) = some w' ∧ (Waited env w w' ∨
        ∃ ctrl, p.ctrl = some ctrl ∧ Answers w.sk p ∧ w' = servalSalRequestStateProcess env w p) := by
  have hverno : hasValidVerno p w.sk = true := by simp [hasValidVerno, hstate]
  -- what follows where the common processing has left the socket in REQUEST
  have hdispatch : ∀ w₁ : World, w₁.sk.skState = .request → dispatch env w₁ p = servalSalRequestStateProcess env w₁ p :=
    fun w₁ h => by rw [dispatch, h]
  have hplain : ∀ w₁ : World, p.flags.syn = false → servalSalRequestStateProcess env w₁ p = w₁ := by
    intro w₁ hnot
    rcases requestStateProcess_cases env w₁ p with h | ⟨ctrl, -, hanswers⟩
    · exact h
    · simp [hanswers.syn] at hnot
  have hgo : controlProcess env w p = (w, true) → ∃ w', step env w (.packet p) = some w' ∧ (Waited env w w' ∨
        ∃ ctrl, p.ctrl = some ctrl ∧ Answers w.sk p ∧ w' = servalSalRequestStateProcess env w p) := by
    intro hcontrol
    refine ⟨servalSalRequestStateProcess env w p, ?_, ?_⟩
    · simp [step, servalSalStateProcess, hcontrol, hstate, hdispatch w hstate]
    · rcases requestStateProcess_cases env w p with h | ⟨ctrl, hctrl, hanswers⟩
      · exact .inl (by rw [h]; exact .of_eq rfl rfl)
      · exact .inr ⟨ctrl, hctrl, hanswers, rfl⟩
  cases hctrl : p.ctrl with
  | none => exact hctrl ▸ hgo (by simp [controlProcess, hctrl])
  | some ctrl =>
    rw [← hctrl]
    cases hrst : p.flags.rst with
    | true =>
      refine ⟨servalSalRcvReset w, ?_, .inl ?_⟩
      · simp [step, servalSalStateProcess, controlProcess, hctrl, hverno, hrst]
      · rw [servalSalRcvReset]
        split
        case h_3 => exact .of_eq rfl rfl
        all_goals exact done_waited rfl rfl
    | false =>
      cases hrsyn : p.flags.rsyn with
      | false => exact hgo (by simp [controlProcess, hctrl, hverno, hrst, hrsyn])
      | true =>
        have hnot : p.flags.syn = false := by
          cases hs : p.flags.syn
          · rfl
          · simp [(hsyn hs).1] at hrsyn
        cases hack : p.flags.ack with
        | false =>
          have hrefused : (servalSalRcvRsyn env w p).1 = w := by
            rcases rcvRsyn_cases env w p with h | ⟨-, hrefuses, -⟩
            · exact h
            · simp [hstate, refusesRsyn] at hrefuses
          exact hgo (by simp [controlProcess, hctrl, hverno, hrst, hrsyn, hack, hrefused])
        | true =>
          have hrsynack : servalSalRcvRsynack env w p = servalSalSendAck env w := by
            simp only [servalSalRcvRsynack, hsal]
          have hrequest : (servalSalSendAck env w).1.sk.skState = .request := by
            obtain ⟨s, d, h⟩ := sendAck_frame env w
            rw [h]
            exact hstate
          refine ⟨(servalSalSendAck env w).1, ?_, .inl sendAck_waited⟩
          simp [step, servalSalStateProcess, controlProcess, hctrl, hverno, hrst, hrsyn, hack, hrsynack, hrequest,
            hdispatch _ hrequest, hplain _ hnot]

def Ctl.answered (c : Ctl) (p : Packet) (ctrl : CtrlExt) (daddr : Addr) : Ctl :=
  { c with
    skState := .connected
    queue := c.acked p.ackno
    una := p.ackno
    boundDevIf := p.dev
    daddr := daddr
    saddr := p.daddr
    peerNonce := ctrl.nonce
    peerFlowid := p.srcFlowid
    rcv := p.verno + 1 }

theorem answered_ctl {ctrl : CtrlExt} (hsal : w.sk.salState = .initial) (hctrl : p.ctrl = some ctrl)
    (h : Answers w.sk p) (htransport : env.transport.requestState = 0) :
    (∃ daddr, ctl (servalSalRequestStateProcess env w p).sk = Ctl.answered (ctl w.sk) p ctrl daddr) ∧
      ((servalSalRequestStateProcess env w p).out = w.out ∨ (servalSalRequestStateProcess env w p).out =
          w.out ++ [.sent (handshakeAck (servalSalRequestStateProcess env w p).sk)]) := by
  rw [requestStateProcess_answers hctrl h]
  simp only [htransport, ne_eq, not_true_eq_false, if_false]
  set w₁ := servalSockSetState ((ackAccept env w p).setSk (requestAnswered (ackAccept env w p).sk p ctrl)) .connected
    with hw₁
  have hout : w₁.out = w.out := (ackAccept_kept env w p).1
  have haccept : ctl (ackAccept env w p).sk = { ctl w.sk with queue := (ctl w.sk).acked p.ackno, una := p.ackno } := by
    rw [ackAccept_ctl, Ctl.accept, Ctl.settle_of_not_migrating (by simp [ctl, hsal, migrating])]
  obtain ⟨hsk, hsent⟩ := @requestConnect_cases env w₁ rfl
  rw [hsk]
  refine ⟨⟨w₁.sk.daddr, ?_⟩, by rw [← hout]; exact hsent⟩
  change { ctl (ackAccept env w p).sk with
    skState := .connected, boundDevIf := p.dev, daddr := w₁.sk.daddr, saddr := p.daddr, peerNonce := ctrl.nonce,
    peerFlowid := p.srcFlowid, rcv := p.verno + 1 } = _
  rw [haccept]
  rfl

/-! ## Connecting -/

/-- `serval_connect` of an unconnected socket: it leaves the service table, if it is there, and
enters the table of flows. -/
def servalConnect (env : Env) (w : World) (srvid : ServiceId) (addr : Option Addr) : World :=
  let w := servalSockSetState (servalSockUnhash w) .request
  let w := w.setSk { w.sk with hashKeyLen := 4, established := true }
  let (w, err) := servalSalConnect env w srvid addr
  if err < 0 then servalSockSetState w .closed else w

def Ctl.synQueued (c : Ctl) (iss : UInt32) (daddr : Addr) : Ctl :=
  { c with
    skState := .request
    daddr := daddr
    una := iss
    nxt := iss + 1
    queue := some ({ syn := true }, iss) }

theorem sendSyn_cases (env : Env) (w : World) (verno : UInt32) :
    servalSalSendSyn env w verno = ({ w with tape := w.tape.tail }, -ENOMEM) ∨ env.transport.buildSyn ≠ 0 ∧
        servalSalSendSyn env w verno = ({ w with tape := w.tape.tail }, env.transport.buildSyn) ∨
      servalSalSendSyn env w verno = servalSalQueueAndPush env
        { w with sk := { w.sk with snd := { w.sk.snd with nxt := verno + 1 } }, tape := w.tape.tail }
        (w.tape.headD {}) ⟨{ syn := true }, verno, 0, true⟩ := by
  rw [servalSalSendSyn]
  rcases hans : w.answer with ⟨a, w₁⟩
  cases hans
  dsimp only
  split
  · exact .inl rfl
  · split
    next hbuild => exact .inr (.inl ⟨hbuild, rfl⟩)
    · exact .inr (.inr rfl)

theorem connect_sendSyn (env : Env) (w : World) (srvid : ServiceId) (addr : Option Addr) : ∃ w₁, w₁.sk = { w.sk with
        skState := .request, hashKeyLen := 4, established := true, peerSrvid := srvid
        daddr := addr.getD w.sk.daddr } ∧ sent w₁.out = sent w.out ∧
      servalConnect env w srvid addr = if (servalSalSendSyn env w₁ w.sk.snd.iss).2 < 0 then
          servalSockSetState (servalSalSendSyn env w₁ w.sk.snd.iss).1 .closed
        else (servalSalSendSyn env w₁ w.sk.snd.iss).1 := by
  obtain ⟨len, est, hsk⟩ := unhash_frame w
  refine ⟨(servalSockSetState (servalSockUnhash w) .request).setSk { (servalSockUnhash w).sk with
    skState := .request, hashKeyLen := 4, established := true, peerSrvid := srvid
    daddr := addr.getD (servalSockUnhash w).sk.daddr }, ?_, unhash_sent w, ?_⟩
  · rw [hsk]
    rfl
  · rw [show w.sk.snd.iss = (servalSockUnhash w).sk.snd.iss by rw [hsk]]
    rfl

/-- There is no memory for the SYN, or it is in the queue, also where sending it has failed. -/
theorem connect_cases {srvid : ServiceId} {addr : Option Addr} (hqueue : w.sk.ctrlQueue = none)
    (htransport : env.transport.buildSyn = 0) :
    ∃ ms, sent (servalConnect env w srvid addr).out = sent w.out ++ ms ∧ ((∃ daddr, ms = [] ∧
          ctl (servalConnect env w srvid addr).sk = { ctl w.sk with skState := .closed, daddr := daddr }) ∨
        ∃ daddr c s, Xmit env.devs (Ctl.synQueued (ctl w.sk) w.sk.snd.iss daddr) { syn := true } w.sk.snd.iss ms c ∧
          (s = .request ∨ s = .closed) ∧
          ctl (servalConnect env w srvid addr).sk = { c with skState := s }) := by
  obtain ⟨w₁, hsk, hout, heq⟩ := connect_sendSyn env w srvid addr
  have hctl : ctl w₁.sk = { ctl w.sk with skState := .request, daddr := w₁.sk.daddr } := by
    rw [hsk]
    rfl
  have hpending : (ctl w₁.sk).pending = {} := by
    rw [hctl]
    simp [Ctl.pending, ctl, hqueue]
  rw [heq]
  rcases sendSyn_cases env w₁ w.sk.snd.iss with hsyn | ⟨hbuild, -⟩ | hsyn
  · rw [hsyn, if_pos (show -ENOMEM < 0 by decide)]
    refine ⟨[], ?_, .inl ⟨w₁.sk.daddr, rfl, ?_⟩⟩
    · rw [setState_sent, List.append_nil]
      exact hout
    · rw [setState_ctl]
      change { ctl w₁.sk with skState := .closed } = _
      rw [hctl]
  · exact absurd htransport hbuild
  · rw [hsyn]
    set w₂ : World := { w₁ with
      sk := { w₁.sk with snd := { w₁.sk.snd with nxt := w.sk.snd.iss + 1 } }, tape := w₁.tape.tail } with hw₂
    have hpending₂ : (ctl w₂.sk).pending = {} := hpending
    have henqueue : (ctl w₂.sk).enqueue { syn := true } w.sk.snd.iss =
        Ctl.synQueued (ctl w.sk) w.sk.snd.iss w₁.sk.daddr := by
      rw [Ctl.enqueue, hpending₂]
      change { ctl w₁.sk with
        nxt := w.sk.snd.iss + 1, queue := some ({ syn := true }, w.sk.snd.iss), una := w.sk.snd.iss } = _
      rw [hctl]
      rfl
    obtain ⟨ms, hsent, hxmit⟩ := queueAndPush_sent env w₂ (w₁.tape.headD {}) ⟨{ syn := true }, w.sk.snd.iss, 0, true⟩
    simp only [henqueue, hpending₂] at hxmit
    have hsent' : sent (servalSalQueueAndPush env w₂ (w₁.tape.headD {})
        ⟨{ syn := true }, w.sk.snd.iss, 0, true⟩).1.out = sent w.out ++ ms := hsent.trans (congrArg (· ++ ms) hout)
    have hstate : (ctl (servalSalQueueAndPush env w₂ (w₁.tape.headD {})
        ⟨{ syn := true }, w.sk.snd.iss, 0, true⟩).1.sk).skState = .request := by
      obtain ⟨s, d, hframe⟩ := hxmit.frame
      rw [hframe]
      rfl
    generalize servalSalQueueAndPush env w₂ (w₁.tape.headD {}) ⟨{ syn := true }, w.sk.snd.iss, 0, true⟩ = r
      at hxmit hsent' hstate
    refine ⟨ms, ?_, .inr ⟨w₁.sk.daddr, ctl r.1.sk, if r.2 < 0 then .closed else .request, hxmit, ?_, ?_⟩⟩
    · split
      · rw [setState_sent, hsent']
      · exact hsent'
    · split
      · exact .inr rfl
      · exact .inl rfl
    · split
      · exact setState_ctl _ _
      · rw [← hstate]

end SalHandshake
