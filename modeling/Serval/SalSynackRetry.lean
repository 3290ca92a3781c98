import Serval.SalHandshake

/-! # A SYN-ACK that cannot be processed to the end

`serval_sal_request_state_process` takes the acknowledgment and the fields of the server before it asks the
transport and before it has the ACK.
-/
namespace SalSynackRetry

open SerialNumber SalRtt SalSocket SalInput SalControl SalRefine SalRuns SalHandshake Option

variable {env env' : Env} {w : World} {p : Packet} {ctrl : CtrlExt}

def withRtt (w : World) (rtt : Rtt) : World := w.setSk { w.sk with rtt := rtt }

def Recorded (sk : Sock) (p : Packet) : Prop := ∀ ctrl, p.ctrl = some ctrl → requestAnswered sk p ctrl = sk

/-- The SYN is in the queue, the timer runs, and what the socket knows of its peer and of the numbers is what it was. -/
structure StillWaits (sk sk' : Sock) : Prop where
  state : sk'.skState = .request
  syn : ∃ skb, sk.ctrlQueue = some skb ∧ sk'.ctrlQueue = some skb
  timer : sk'.timers.xmit.isSome = true
  snd : sk'.snd = sk.snd
  peer : sk'.boundDevIf = sk.boundDevIf ∧ sk'.daddr = sk.daddr ∧ sk'.saddr = sk.saddr ∧
    sk'.peerNonce = sk.peerNonce ∧ sk'.peerFlowid = sk.peerFlowid ∧ sk'.rcv = sk.rcv

/-! ## The acknowledgment -/

def moved (sk : Sock) (ackno : UInt32) : Sock := { sk with snd := { sk.snd with una := ackno } }

def emptied (sk : Sock) (ackno : UInt32) (rtt : Rtt) : Sock :=
  { sk with
    ctrlQueue := none, sendHead := false, rtt := rtt, retransmits := 0
    timers := { sk.timers with xmit := none }, snd := { sk.snd with una := ackno } }

def rearmed (env : Env) (sk : Sock) (ackno : UInt32) : Sock :=
  { sk with
    timers := { sk.timers with xmit := some (env.now + min sk.rtt.rto.toNat SAL_RTO_MAX.toNat) }
    snd := { sk.snd with una := ackno } }

/-- What an acknowledgment outside of a migration makes of the socket. The estimate is changed only
where the queue is emptied. -/
def acknowledged (env : Env) (sk : Sock) (ackno : UInt32) (rtt : Rtt) : Sock :=
  match sk.ctrlQueue with
  | none => moved sk ackno
  | some skb => if after ackno skb.verno then emptied sk ackno rtt else rearmed env sk ackno

section

variable {sk : Sock} {skb : CtrlSkb} {ackno : UInt32}

theorem acknowledged_none (h : sk.ctrlQueue = none) (ackno : UInt32) (rtt : Rtt) :
    acknowledged env sk ackno rtt = moved sk ackno := by
  rw [acknowledged, h]

theorem acknowledged_removed (h : sk.ctrlQueue = some skb)
    (hack : after ackno skb.verno = true) (rtt : Rtt) : acknowledged env sk ackno rtt = emptied sk ackno rtt := by
  simp only [acknowledged, h, hack, if_true]

theorem acknowledged_kept (h : sk.ctrlQueue = some skb)
    (hack : after ackno skb.verno = false) (rtt : Rtt) : acknowledged env sk ackno rtt = rearmed env sk ackno := by
  simp only [acknowledged, h, hack, if_false, Bool.false_eq_true]

theorem ackAccept_plain (h : migrating w.sk.salState = false) :
    ackAccept env w p = let w₁ := (servalSalCleanRtxQueue env w p.ackno false).1
      w₁.setSk { w₁.sk with snd := { w₁.sk.snd with una := p.ackno } } := by
  have hkept : (servalSalCleanRtxQueue env w p.ackno false).1.sk.salState = w.sk.salState :=
    congrArg Ctl.salState (cleanRtxQueue_ctl env w p.ackno false)
  rw [ackAccept, h]
  cases hs : w.sk.salState with
  | initial | sent =>
    rw [hs] at hkept
    simp only [World.setSk, hkept]
  | recv | sentRecv =>
    rw [hs] at h
    cases h

theorem ackAccept_eq (env : Env) (p : Packet) (h : migrating w.sk.salState = false) :
    ∃ rtt, ackAccept env w p = w.setSk (acknowledged env w.sk p.ackno rtt) := by
  rw [ackAccept_plain h, servalSalCleanRtxQueue]
  cases hq : w.sk.ctrlQueue with
  | none =>
    refine ⟨w.sk.rtt, ?_⟩
    rw [acknowledged_none hq, moved]
  | some skb =>
    by_cases hack : after p.ackno skb.verno = true
    · simp only [hack, Bool.or_false, if_true, acknowledged_removed hq hack]
      exact ⟨_, rfl⟩
    · simp only [hack, Bool.or_false, if_false, Bool.false_eq_true]
      refine ⟨w.sk.rtt, ?_⟩
      rw [acknowledged_kept hq (Bool.not_eq_true _ ▸ hack)]
      rfl

section

variable (env sk ackno) (rtt : Rtt)

theorem acknowledged_numbers : (acknowledged env sk ackno rtt).salState = sk.salState ∧
      (acknowledged env sk ackno rtt).snd.una = ackno ∧ (acknowledged env sk ackno rtt).snd.nxt = sk.snd.nxt := by
  rw [acknowledged]
  split
  · exact ⟨rfl, rfl, rfl⟩
  · split <;> exact ⟨rfl, rfl, rfl⟩

theorem acknowledged_state : (acknowledged env sk ackno rtt).skState = sk.skState := by
  rw [acknowledged]
  split
  · rfl
  · split <;> rfl

end

/-! ## The same SYN-ACK again -/

theorem answers_ctrl (h : Answers sk p) : ∃ ctrl, p.ctrl = some ctrl := by
  cases hctrl : p.ctrl with
  | none => simpa [hasValidControlExtension, hctrl] using h.valid
  | some ctrl => exact ⟨ctrl, rfl⟩

/-- The fields of the server do not depend on how often they are taken, and a second
acknowledgment finds the queue as the first has left it. -/
theorem answered_again (env env' : Env) (sk : Sock) (p : Packet) (ctrl : CtrlExt) (rtt₁ rtt₂ rtt₃ : Rtt) :
    requestAnswered (acknowledged env' (requestAnswered (acknowledged env sk p.ackno rtt₁) p ctrl) p.ackno rtt₂)
        p ctrl =
      { requestAnswered (acknowledged env' sk p.ackno rtt₃) p ctrl with
        rtt := (requestAnswered (acknowledged env sk p.ackno rtt₁) p ctrl).rtt } := by
  cases hq : sk.ctrlQueue with
  | none =>
    have hq' : (requestAnswered (moved sk p.ackno) p ctrl).ctrlQueue = none := hq
    simp only [acknowledged_none hq, acknowledged_none hq']
    rfl
  | some skb =>
    by_cases hack : after p.ackno skb.verno = true
    · have hq' : (requestAnswered (emptied sk p.ackno rtt₁) p ctrl).ctrlQueue = none := rfl
      simp only [acknowledged_removed hq hack, acknowledged_none hq']
      rfl
    · replace hack : after p.ackno skb.verno = false := Bool.not_eq_true _ ▸ hack
      have hq' : (requestAnswered (rearmed env sk p.ackno) p ctrl).ctrlQueue = some skb := hq
      simp only [acknowledged_kept hq hack, acknowledged_kept hq' hack]
      rfl

theorem answers_again (h : Answers sk p) (hctrl : p.ctrl = some ctrl) (rtt : Rtt) :
    Answers (requestAnswered (acknowledged env sk p.ackno rtt) p ctrl) p where
  valid := by
    have hvalid := h.valid
    have hsyn := h.syn
    simp only [Segment.flags, hctrl, map_some, getD_some] at hsyn
    simp only [hasValidControlExtension, hctrl, hsyn, Bool.true_or, Bool.and_true] at hvalid ⊢
    exact hvalid
  syn := h.syn
  acceptable := by
    obtain ⟨hsal, huna, hnxt⟩ := acknowledged_numbers env sk p.ackno rtt
    have hack := h.acceptable
    simp only [ackAcceptable, Bool.and_eq_true] at hack ⊢
    refine ⟨⟨hack.1.1, ?_⟩, ?_⟩
    · show (!before p.ackno (acknowledged env sk p.ackno rtt).snd.una) = true
      rw [huna, before_self, Bool.not_false]
    · show (!(after p.ackno (acknowledged env sk p.ackno rtt).snd.nxt &&
        !migrating (acknowledged env sk p.ackno rtt).salState)) = true
      rw [hnxt, hsal]
      exact hack.2

end

def proceed (env : Env) (w : World) : World :=
  if env.transport.requestState ≠ 0 then w else requestConnect env (servalSockSetState w .connected)

theorem requestStateProcess_eq (env : Env) (hctrl : p.ctrl = some ctrl) (h : Answers w.sk p)
    (hmig : migrating w.sk.salState = false) :
    ∃ rtt, servalSalRequestStateProcess env w p =
      proceed env (w.setSk (requestAnswered (acknowledged env w.sk p.ackno rtt) p ctrl)) := by
  obtain ⟨rtt, hack⟩ := ackAccept_eq env p hmig
  refine ⟨rtt, ?_⟩
  rw [requestStateProcess_answers hctrl h, hack]
  rfl

theorem queueXmit_withRtt (w : World) (a : Answer) (skb : CtrlSkb) (rtt : Rtt) :
    (queueXmit env (withRtt w rtt) a none skb).1 = withRtt (queueXmit env w a none skb).1 rtt := by
  by_cases hdev : (env.devs w.sk.boundDevIf).isNone = true
  · have hdev' : (env.devs (withRtt w rtt).sk.boundDevIf).isNone = true := hdev
    simp only [queueXmit, hdev, hdev', isNone_none, Bool.and_true, if_true]
  · have hdev' : ¬(env.devs (withRtt w rtt).sk.boundDevIf).isNone = true := hdev
    simp only [queueXmit, hdev, hdev', Bool.and_false, if_false, Bool.false_eq_true, World.emit]
    split <;> rfl

theorem requestConnect_connected (hstate : w.sk.skState = .connected) :
    requestConnect env w = if !(w.tape.headD {}).alloc then { w with tape := w.tape.tail }
      else if env.transport.buildAck ≠ 0 then { w with tape := w.tape.tail }
      else (queueXmit env { w with tape := w.tape.tail } (w.tape.headD {}) none
        ⟨{ ack := true, connAck := true }, w.sk.snd.nxt, 0, true⟩).1 := by
  simp only [requestConnect, World.answer, servalSalTransmitSkb, hstate, sendsAtOnce, Bool.false_and, Bool.true_or,
    Bool.false_eq_true, if_false, if_true, servalSalDoXmit, Bool.not_false]

theorem requestConnect_failed (hstate : w.sk.skState = .connected)
    (hfail : (w.tape.headD {}).alloc = false ∨ env.transport.buildAck ≠ 0) :
    requestConnect env w = { w with tape := w.tape.tail } := by
  rw [requestConnect_connected hstate]
  by_cases halloc : (!(w.tape.headD {}).alloc) = true
  · rw [if_pos halloc]
  · rw [if_neg halloc, if_pos (hfail.resolve_left fun hno => halloc (by rw [hno]; rfl))]

theorem requestConnect_withRtt (hstate : w.sk.skState = .connected) (rtt : Rtt) :
    requestConnect env (withRtt w rtt) = withRtt (requestConnect env w) rtt := by
  have hstate' : (withRtt w rtt).sk.skState = .connected := hstate
  rw [requestConnect_connected hstate, requestConnect_connected hstate']
  by_cases halloc : (!(w.tape.headD {}).alloc) = true
  · rw [if_pos halloc]
    exact if_pos halloc
  · rw [if_neg halloc]
    apply (if_neg halloc).trans
    by_cases hbuild : env.transport.buildAck ≠ 0
    · rw [if_pos hbuild, if_pos hbuild]
      rfl
    · rw [if_neg hbuild, if_neg hbuild]
      exact queueXmit_withRtt { w with tape := w.tape.tail } _ _ rtt

theorem proceed_withRtt (w : World) (rtt : Rtt) : proceed env (withRtt w rtt) = withRtt (proceed env w) rtt := by
  rw [proceed, proceed]
  by_cases herr : env.transport.requestState ≠ 0
  · rw [if_pos herr, if_pos herr]
  · rw [if_neg herr, if_neg herr]
    exact @requestConnect_withRtt env (servalSockSetState w .connected) rfl rtt

theorem process_again (env env' : Env) (tape : List Answer) (hctrl : p.ctrl = some ctrl) (h : Answers w.sk p)
    (hmig : migrating w.sk.salState = false) (herr : env.transport.requestState ≠ 0) :
    let w' := servalSalRequestStateProcess env w p
    servalSalRequestStateProcess env' { w' with tape := tape } p =
      withRtt (servalSalRequestStateProcess env' { w with tape := tape } p) w'.sk.rtt := by
  obtain ⟨rtt₁, hfirst⟩ := requestStateProcess_eq env hctrl h hmig
  rw [proceed, if_pos herr] at hfirst
  set sk₁ := requestAnswered (acknowledged env w.sk p.ackno rtt₁) p ctrl
  have hagain : Answers sk₁ p := answers_again h hctrl rtt₁
  have hmig' : migrating sk₁.salState = false := by
    show migrating (acknowledged env w.sk p.ackno rtt₁).salState = false
    rw [(acknowledged_numbers env w.sk p.ackno rtt₁).1, hmig]
  obtain ⟨rtt₂, hsecond⟩ := @requestStateProcess_eq ⟨sk₁, w.out, tape⟩ p ctrl env' hctrl hagain hmig'
  obtain ⟨rtt₃, hfresh⟩ := @requestStateProcess_eq { w with tape := tape } p ctrl env' hctrl h hmig
  have hsame : requestAnswered (acknowledged env' sk₁ p.ackno rtt₂) p ctrl =
      { requestAnswered (acknowledged env' w.sk p.ackno rtt₃) p ctrl with rtt := sk₁.rtt } :=
    answered_again env env' w.sk p ctrl rtt₁ rtt₂ rtt₃
  simp only [hfirst, hfresh, ← proceed_withRtt]
  apply hsecond.trans
  simp only [hsame]
  rfl

/-- The SYN-ACK acknowledges nothing of what the socket waits for, and says nothing new about the server. -/
structure Idle (sk : Sock) (p : Packet) : Prop where
  settled : migrating sk.salState = false
  syn : ∃ skb, sk.ctrlQueue = some skb ∧ after p.ackno skb.verno = false
  ackno : p.ackno = sk.snd.una
  recorded : Recorded sk p

theorem Idle.stillWaits (h : Idle w.sk p) (hstate : w.sk.skState = .request) (hanswers : Answers w.sk p)
    (herr : env.transport.requestState ≠ 0) : StillWaits w.sk (servalSalRequestStateProcess env w p).sk := by
  obtain ⟨ctrl, hctrl⟩ := answers_ctrl hanswers
  obtain ⟨rtt, hfirst⟩ := requestStateProcess_eq env hctrl hanswers h.settled
  obtain ⟨syn, hq, hkept⟩ := h.syn
  have hsk : requestAnswered (rearmed env w.sk p.ackno) p ctrl =
      { w.sk with timers := (rearmed env w.sk p.ackno).timers } := by
    rw [h.ackno]
    exact congrArg (fun sk => { sk with timers := (rearmed env w.sk w.sk.snd.una).timers }) (h.recorded ctrl hctrl)
  rw [hfirst, proceed, if_pos herr, acknowledged_kept hq hkept, hsk]
  exact ⟨hstate, ⟨syn, hq, hq⟩, rfl, rfl, rfl, rfl, rfl, rfl, rfl, rfl⟩

/-- With the fields of the server as they were, taking them again changes nothing. -/
theorem recorded_of_peer {sk sk₁ : Sock} (h : StillWaits sk (requestAnswered sk₁ p ctrl)) :
    requestAnswered sk p ctrl = sk := by
  obtain ⟨hdev, hdaddr, hsaddr, hnonce, hflowid, hrcv⟩ := h.peer
  have hnxt : p.verno + 1 = sk.rcv.nxt := congrArg (·.nxt) hrcv
  simp only [requestAnswered] at hdev hdaddr hsaddr hnonce hflowid ⊢
  rw [hdev, hdaddr, hsaddr, hnonce, hflowid, hnxt]

theorem idle_of_waits (hanswers : Answers w.sk p) (herr : env.transport.requestState ≠ 0)
    (h : StillWaits w.sk (servalSalRequestStateProcess env w p).sk) : Idle w.sk p := by
  obtain ⟨ctrl, hctrl⟩ := answers_ctrl hanswers
  rw [requestStateProcess_answers hctrl hanswers, if_pos herr] at h
  have hctl := @ackAccept_ctl env w p
  obtain ⟨s, d, m, hframe⟩ := (ctl w.sk).accept_frame p
  rw [hframe] at hctl
  obtain ⟨skb, hq, hq'⟩ := h.syn
  -- what is left of the queue is what the acknowledgment has not taken
  have hqueue : (ackAccept env w p).sk.ctrlQueue.map (fun skb => (skb.flags, skb.verno)) = (ctl w.sk).acked p.ackno :=
    congrArg Ctl.queue hctl
  have hleft : ((ctl w.sk).acked p.ackno).isSome = true := by
    rw [← hqueue, show (ackAccept env w p).sk.ctrlQueue = some skb from hq']
    rfl
  have hkeeps : after p.ackno skb.verno = false ∧ migrating w.sk.salState = false := by
    simpa [Ctl.acked, ctl, hq, Option.filter] using hleft
  refine ⟨hkeeps.2, ⟨skb, hq, hkeeps.1⟩, ?_, ?_⟩
  · exact (congrArg Ctl.una hctl).symm.trans (congrArg (·.una) h.snd)
  · intro ctrl' hctrl'
    cases hctrl.symm.trans hctrl'
    exact recorded_of_peer h

/-- Without an ACK the socket is nevertheless CONNECTED. -/
theorem ack_failed (h : Answers w.sk p) (hok : env.transport.requestState = 0)
    (hfail : (w.tape.headD {}).alloc = false ∨ env.transport.buildAck ≠ 0) :
    (servalSalRequestStateProcess env w p).sk.skState = .connected := by
  obtain ⟨ctrl, hctrl⟩ := answers_ctrl h
  rw [requestStateProcess_answers hctrl h, if_neg (not_not.mpr hok), requestConnect_failed rfl]
  · rfl
  · exact hfail.imp_left ((ackAccept_kept env w p).2 ▸ ·)

/-- Where a SYN-ACK cannot be processed to the end, the socket waits as it did and takes the SYN-ACK as if it were the
first one when it comes again, exactly if it is the transport that has refused it and it acknowledges nothing and says
nothing new. Whenever the transport has refused it, the socket is in REQUEST, and takes it again but for the estimate.
-/
theorem synack_retried (hstate : w.sk.skState = .request) (h : Answers w.sk p)
    (hfail : env.transport.requestState ≠ 0 ∨ (w.tape.headD {}).alloc = false ∨ env.transport.buildAck ≠ 0) :
    let w' := servalSalRequestStateProcess env w p
    let Again := ∀ env' tape, servalSalRequestStateProcess env' { w' with tape := tape } p =
      withRtt (servalSalRequestStateProcess env' { w with tape := tape } p) w'.sk.rtt
    (StillWaits w.sk w'.sk ∧ Again ↔ env.transport.requestState ≠ 0 ∧ Idle w.sk p) ∧
      (env.transport.requestState ≠ 0 → migrating w.sk.salState = false → w'.sk.skState = .request ∧ Again) := by
  obtain ⟨ctrl, hctrl⟩ := answers_ctrl h
  refine ⟨⟨?_, ?_⟩, ?_⟩
  · rintro ⟨hwaits, -⟩
    by_cases hok : env.transport.requestState = 0
    · cases (ack_failed h hok (hfail.resolve_left (not_not.mpr hok))).symm.trans hwaits.state
    · exact ⟨hok, idle_of_waits h hok hwaits⟩
  · rintro ⟨herr, hidle⟩
    exact ⟨hidle.stillWaits hstate h herr, fun env' tape => process_again env env' tape hctrl h hidle.settled herr⟩
  · intro herr hmig
    refine ⟨?_, fun env' tape => process_again env env' tape hctrl h hmig herr⟩
    obtain ⟨rtt, hfirst⟩ := requestStateProcess_eq env hctrl h hmig
    rw [hfirst, proceed, if_pos herr]
    exact (acknowledged_state env w.sk p.ackno rtt).trans hstate

namespace Sample

def host : Env := exampleEnv 20 30

def refusing : Env := { host with transport := { requestState := -1 } }

def waiting : World :=
  (servalSalConnect host ⟨{ servalSockInit (skAlloc .dgram 17) (exampleNonce 6) 500 with
    skState := .request, localFlowid := 1, boundDevIf := 1, saddr := 20 }, [], []⟩
    (List.Vector.replicate 32 1) (some 10)).1

def synack (ackno : UInt32) : Packet := examplePacket 10 20 2 1 7 { syn := true, ack := true } 900 ackno

def told : World := servalSalRequestStateProcess refusing waiting (synack 500)

theorem told_answers : Answers told.sk (synack 500) := ⟨by decide +kernel, by decide, by decide +kernel⟩

theorem told_recorded : Recorded told.sk (synack 500) := by
  intro ctrl hctrl
  cases hctrl
  decide +kernel

end Sample

open Sample in
/-- The SYN-ACK comes once more, the transport refuses it again, and the socket still waits. -/
theorem synack_retried_told : StillWaits told.sk
    (servalSalRequestStateProcess refusing told (synack 500)).sk :=
  ((synack_retried (by decide +kernel) told_answers (.inl (by decide))).1.mpr
    ⟨by decide, by decide +kernel, ⟨⟨{ syn := true }, 500, 0, true⟩, by decide +kernel, by decide +kernel⟩,
      by decide +kernel, told_recorded⟩).1

/-- The answer acknowledges the SYN, and then the transport refuses it: no SYN, no timer, another `snd_una` and
another peer are left. Where only the ACK cannot be allocated, the socket is CONNECTED and has sent nothing. -/
theorem synack_lost :
    (Sample.waiting.sk.ctrlQueue.isSome ∧ Sample.waiting.sk.timers.xmit.isSome ∧ Sample.waiting.sk.snd.una = 500) ∧
      (let w := connProcess Sample.refusing Sample.waiting (Sample.synack 501)
      w.sk.skState = .request ∧ w.sk.ctrlQueue = none ∧ w.sk.timers = {} ∧ w.sk.snd.una = 501 ∧
        w.sk.peerNonce ≠ Sample.waiting.sk.peerNonce ∧ w.sk.peerFlowid ≠ Sample.waiting.sk.peerFlowid) ∧
      let w := connProcess Sample.host { Sample.waiting with tape := [⟨false, true, 0, .failed (-99)⟩] }
        (Sample.synack 501)
      w.sk.skState = .connected ∧ w.sk.ctrlQueue = none ∧ w.out = Sample.waiting.out ∧
        (connProcess Sample.host w (Sample.synack 501)).out =
          w.out ++ [.sent (servalSalBuildHeader w.sk ⟨{ ack := true }, 501, 0, false⟩ 20 10)] := by
  decide +kernel

end SalSynackRetry
