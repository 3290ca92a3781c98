import Serval.SalHandshake

/-! # The end of a connection

The states after a close wait for the acknowledgment of the FIN. What they accept is any acknowledgment that is not
older than the last one.
-/
namespace SalTeardown

open SerialNumber SalSocket SalInput SalListen SalControl SalRefine SalRuns SalListener SalHandshake
open SalBuild (SalState)
open Bool hiding not_false not_true

variable {env : Env} {w w' : World} {e : Event} {p : Packet}

/-! ## What keeps the control queue -/

structure SameQueue (sk sk' : Sock) : Prop where
  skState : sk'.skState = sk.skState
  ctrlQueue : sk'.ctrlQueue = sk.ctrlQueue
  snd : sk'.snd = sk.snd

variable {sk sk' : Sock}

theorem SameQueue.refl : SameQueue sk sk := ⟨rfl, rfl, rfl⟩

section

variable {b : Bool} {a : Answer} {call : TransportCall} {skb : CtrlSkb}

theorem SameQueue.trans {sk'' : Sock} (h₁ : SameQueue sk sk') (h₂ : SameQueue sk' sk'') : SameQueue sk sk'' :=
  ⟨h₂.1.trans h₁.1, h₂.2.trans h₁.2, h₂.3.trans h₁.3⟩

theorem sendAck_same : SameQueue w.sk (servalSalSendAck env w).1.sk := by
  obtain ⟨s, d, h⟩ := sendAck_frame env w
  rw [h]
  exact ⟨rfl, rfl, rfl⟩

theorem ackIf_same : SameQueue w.sk (if b then (servalSalSendAck env w).1 else w).sk := by
  split
  · exact sendAck_same
  · exact .refl

theorem rcvFin_same : SameQueue w.sk (servalSalRcvFin env w p).1.sk := by
  rw [servalSalRcvFin]
  split
  · exact .refl
  · have hfin : SameQueue w.sk (finReceived w p).sk := ⟨rfl, rfl, rfl⟩
    exact hfin.trans sendAck_same

theorem rcvRsynack_same : SameQueue w.sk (servalSalRcvRsynack env w p).1.sk := by
  obtain ⟨_, _, _, _, _, _, -, hsk⟩ := rcvRsynack_frame env w p
  rw [hsk]
  exact ⟨rfl, rfl, rfl⟩

theorem ackProcess_refused (h : ackAcceptable w.sk p = false) : servalSalAckProcess env w p = (w, -1) := by
  simp [servalSalAckProcess, h]

theorem ackProcess_accepted (h : ackAcceptable w.sk p = true) :
    servalSalAckProcess env w p = (ackAccept env w p, 0) := by
  simp [servalSalAckProcess, h]

/-! ## The FIN in the queue -/

def FinQueued (sk : Sock) : Prop :=
  ∃ skb, sk.ctrlQueue = some skb ∧ skb.flags.fin = true ∧ skb.verno = sk.snd.una

theorem FinQueued.of_eq (h : FinQueued sk) (hqueue : sk'.ctrlQueue = sk.ctrlQueue)
    (hsnd : sk'.snd = sk.snd) : FinQueued sk' := by
  rw [FinQueued, hqueue, hsnd]
  exact h

theorem FinQueued.same (h : FinQueued sk) (hsame : SameQueue sk sk') : FinQueued sk' :=
  h.of_eq hsame.ctrlQueue hsame.snd

theorem FinQueued.pending (h : FinQueued sk) : (ctl sk).pending.fin = true := by
  obtain ⟨skb, hqueue, hfin, -⟩ := h
  simp [Ctl.pending, ctl, hqueue, hfin]

theorem finQueued_of_ctl {f : Flags} {v : UInt32} (hqueue : (ctl sk).queue = some (f, v))
    (hfin : f.fin = true) (huna : (ctl sk).una = v) : FinQueued sk := by
  obtain ⟨skb, hskb, heq⟩ := Option.map_eq_some_iff.mp hqueue
  cases heq
  exact ⟨skb, hskb, hfin, huna.symm⟩

theorem queueAndPush_finQueued (hfin : skb.flags.fin = true ∨ (ctl w.sk).pending.fin = true) :
    FinQueued (servalSalQueueAndPush env w a skb).1.sk := by
  obtain ⟨ms, -, hxmit⟩ := queueAndPush_sent env w a skb
  obtain ⟨s, d, hctl⟩ := hxmit.frame
  refine finQueued_of_ctl (congrArg Ctl.queue hctl) ?_ (congrArg Ctl.una hctl)
  simpa [Flags.or] using hfin

theorem queueAndPush_skState : (servalSalQueueAndPush env w a skb).1.sk.skState = w.sk.skState := by
  obtain ⟨ms, -, hxmit⟩ := queueAndPush_sent env w a skb
  obtain ⟨s, d, hctl⟩ := hxmit.frame
  exact congrArg Ctl.skState hctl

theorem rcvRsyn_finQueued (h : FinQueued w.sk) : FinQueued (servalSalRcvRsyn env w p).1.sk := by
  rcases rcvRsyn_cases env w p with heq | ⟨-, -, w₁, a, hsk, -, heq⟩
  · rw [heq]
    exact h
  · have hw₁ : FinQueued w₁.sk := by
      rw [hsk]
      exact h.same ⟨rfl, rfl, rfl⟩
    rcases heq with heq | heq <;> rw [heq]
    · exact hw₁
    · exact queueAndPush_finQueued (.inr hw₁.pending)

theorem setState_skState (w : World) (s : SalState) : (servalSockSetState w s).sk.skState = s :=
  congrArg Ctl.skState (setState_ctl w s)

theorem done_skState (w : World) : (servalSalDone w).sk.skState = .closed := by
  obtain ⟨_, _, _, _, _, -, hsk⟩ := done_frame w
  rw [hsk]

theorem rcvReset_skState (w : World) : (servalSalRcvReset w).sk.skState = .closed := by
  rw [servalSalRcvReset]
  split
  case h_3 h => exact h
  all_goals exact done_skState _

theorem ackIf_acceptable : ackAcceptable (if b then (servalSalSendAck env w).1 else w).sk p = ackAcceptable w.sk p := by
  split
  · obtain ⟨s, d, h⟩ := sendAck_frame env w
    rw [h]
    rfl
  · rfl

theorem rcvRsynack_acceptable : ackAcceptable (servalSalRcvRsynack env w p).1.sk p = ackAcceptable w.sk p := by
  obtain ⟨_, _, _, _, _, _, hmigrating, hsk⟩ := rcvRsynack_frame env w p
  rw [hsk, ackAcceptable, ackAcceptable, hmigrating]

theorem controlProcess_finQueued (hrst : p.flags.rst = false) :
    (FinQueued w.sk → FinQueued (controlProcess env w p).1.sk) ∧ (controlProcess env w p).1.sk.skState = w.sk.skState ∧
      ackAcceptable (controlProcess env w p).1.sk p = ackAcceptable w.sk p := by
  rw [controlProcess]
  split
  · exact ⟨id, rfl, rfl⟩
  · split
    · obtain ⟨s, d, hsk⟩ := sendAck_frame env w
      refine ⟨fun h => h.same sendAck_same, sendAck_same.skState, ?_⟩
      rw [hsk]
      rfl
    · rw [if_neg (by simp [hrst])]
      split
      · split
        · exact ⟨fun h => h.same rcvRsynack_same, rcvRsynack_same.skState, rcvRsynack_acceptable⟩
        next hack =>
          refine ⟨rcvRsyn_finQueued, (rcvRsyn_frame env w p).1, ?_⟩
          simp [ackAcceptable, hack]
      · exact ⟨id, rfl, rfl⟩

/-! ## The transport -/

theorem sendFin_finQueued : FinQueued (servalSalSendFin env w).1.sk ∧
    (servalSalSendFin env w).1.sk.skState = w.sk.skState := by
  rw [sendFin_pushes]
  exact ⟨queueAndPush_finQueued (.inl (by cases w.sk.salState <;> rfl)), queueAndPush_skState⟩

theorem sendActiveReset_same : SameQueue w.sk (servalSalSendActiveReset env w).sk := by
  obtain ⟨s, d, hsk⟩ := (sendActiveReset_transmits env w).sk
  rw [hsk]
  exact ⟨rfl, rfl, rfl⟩

def Quiet (call : TransportCall) : Prop := call ≠ .rcvReset ∧ call ≠ .writeErr ∧ call ≠ .done

theorem transportCall_closes (h : ¬Quiet call) : (transportCall env w call).sk.skState = .closed := by
  cases call with
  | rcvReset => exact rcvReset_skState w
  | writeErr => exact done_skState _
  | done => exact done_skState w
  | sendFin | sendActiveReset | updateRtt => exact absurd ⟨by simp, by simp, by simp⟩ h

theorem transportCall_keeps (h : Quiet call) : (transportCall env w call).sk.skState = w.sk.skState ∧
      (FinQueued w.sk → FinQueued (transportCall env w call).sk) := by
  cases call with
  | sendFin => exact ⟨sendFin_finQueued.2, fun _ => sendFin_finQueued.1⟩
  | sendActiveReset => exact ⟨sendActiveReset_same.skState, fun h => h.same sendActiveReset_same⟩
  | updateRtt rtt => exact ⟨rfl, fun h => h⟩
  | rcvReset => exact absurd rfl h.1
  | writeErr => exact absurd rfl h.2.1
  | done => exact absurd rfl h.2.2

end

def QuietReceive (env : Env) : Prop := ∀ call ∈ env.transport.receive, Quiet call

theorem receiveIf_keeps (hquiet : QuietReceive env) {b : Bool} :
    (if b then transportReceive env w else w).sk.skState = w.sk.skState ∧
      (FinQueued w.sk → FinQueued (if b then transportReceive env w else w).sk) := by
  have hcalls : ∀ calls : List TransportCall, (∀ call ∈ calls, Quiet call) → ∀ w : World,
      (calls.foldl (transportCall env) w).sk.skState = w.sk.skState ∧
        (FinQueued w.sk → FinQueued (calls.foldl (transportCall env) w).sk) := by
    intro calls
    induction calls with
    | nil => exact fun _ w => ⟨rfl, fun h => h⟩
    | cons call calls ih =>
      intro h w
      obtain ⟨hstate, hfin⟩ := @transportCall_keeps env w call (h call (by simp))
      obtain ⟨hstate', hfin'⟩ := ih (fun c hc => h c (by simp [hc])) (transportCall env w call)
      exact ⟨hstate'.trans hstate, hfin' ∘ hfin⟩
  split
  · exact hcalls _ hquiet w
  · exact ⟨rfl, fun h => h⟩

/-! ## A packet in the states that wait for the acknowledgment -/

def Pending (sk : Sock) : Prop := finPending sk.skState = true ∧ FinQueued sk

theorem Pending.same (h : Pending sk) (hsame : SameQueue sk sk') : Pending sk' :=
  ⟨hsame.skState ▸ h.1, h.2.same hsame⟩

theorem refused_stages (hquiet : QuietReceive env) (hs : finPending w.sk.skState = true) :
    Stages env p w.sk.skState False
      (fun w' => Pending w'.sk ∧ ackAcceptable w'.sk p = false) (Pending ·.sk) (Pending ·.sk) (Pending ·.sk)
      (Pending ·.sk) where
  ackFirst h := ⟨h.1.same sendAck_same, (ackIf_acceptable (b := true)).trans h.2⟩
  accept h hack := by simp [h.2] at hack
  process _ h := by
    rw [ackProcess_refused h.2]
    exact h.1
  unprocessed h := h.1
  fin _ h := h.same rcvFin_same
  respond _ h := h.same ⟨rfl, rfl, rfl⟩
  noFin h := h
  state {w' t} hnext h := by
    obtain ⟨_, _, hsk⟩ := setState_frame w' t
    rw [hsk]
    refine ⟨?_, h.2.of_eq rfl rfl⟩
    cases hstate : w.sk.skState <;> cases t <;> simp_all [Next, finPending]
  sameState h := h
  timer h := h.same ⟨rfl, rfl, rfl⟩
  ackLast h := h.same sendAck_same
  receive {w'} h := by
    obtain ⟨hstate, hfin⟩ := receiveIf_keeps (w := w') (b := true) hquiet
    exact ⟨(congrArg finPending hstate).trans h.1, hfin h.2⟩
  noReceive h := h
  closewait hc := by simp [hc, finPending] at hs
  done _ hnot := hnot.elim
  reset hc := by simp [hc, finPending] at hs
  request hc := by simp [hc, finPending] at hs

theorem dispatch_refused (hquiet : QuietReceive env) (h : Pending w.sk)
    (hack : ackAcceptable w.sk p = false) : Pending (dispatch env w p).sk :=
  (refused_stages hquiet h.1).dispatch rfl ⟨h, hack⟩

def FinTaken (env : Env) (w : World) (p : Packet) : Prop :=
  p.flags.fin = true → (servalSalRcvFin env (ackAccept env w p) p).2 = 0

/-- The FIN has a valid control extension, and the host can acknowledge it. -/
structure Ready (env : Env) (w : World) (p : Packet) : Prop where
  state : w.sk.skState = .finwait1
  valid : hasValidControlExtension w.sk p = true
  dev : (env.devs w.sk.boundDevIf).isSome = true
  answers : ∀ a ∈ w.tape, a.alloc = true ∧ a.xmit = 0

theorem Ready.sendAck (h : Ready env w p) :
    (servalSalSendAck env w).2 = 0 ∧ Ready env (servalSalSendAck env w).1 p := by
  have hgood : (w.tape.headD {}).alloc = true ∧ (w.tape.headD {}).xmit = 0 := by
    cases htape : w.tape with
    | nil => exact ⟨rfl, rfl⟩
    | cons a tape => exact h.answers a (by simp [htape])
  have hdev : (env.devs w.sk.boundDevIf).isNone = false := by simpa using h.dev
  have hrest : ∀ a ∈ w.tape.tail, a.alloc = true ∧ a.xmit = 0 := fun a ha => h.answers a (List.mem_of_mem_tail ha)
  simp only [servalSalSendAck, World.answer, hgood.1, servalSalTransmitSkb, h.state, sendsAtOnce,
    servalSalDoXmit, queueXmit,
    hdev, World.emit, hgood.2, Bool.not_true, Bool.false_and, Bool.true_or, Bool.and_false, false_eq_true,
      if_false, if_true,
    Bool.not_false, lt_irrefl]
  exact ⟨trivial, h.state, h.valid, h.dev, hrest⟩

theorem Ready.rcvRsynack (h : Ready env w p) : Ready env (servalSalRcvRsynack env w p).1 p := by
  rw [servalSalRcvRsynack]
  split
  · split
    · exact h
    next addr hdev =>
      split
      · exact h
      · refine (Ready.sendAck ?_).2
        exact ⟨h.state, h.valid, (congrArg Option.isSome hdev).trans rfl, h.answers⟩
  · refine (Ready.sendAck ?_).2
    exact ⟨h.state, h.valid, h.dev, h.answers⟩
  · exact h.sendAck.2
  · exact h.sendAck.2

theorem Ready.controlProcess (h : Ready env w p) (hrst : p.flags.rst = false) (hack : p.flags.ack = true) :
    Ready env (controlProcess env w p).1 p := by
  rw [SalInput.controlProcess]
  split
  · exact h
  · split
    · exact h.sendAck.2
    · rw [if_neg (by simp [hrst])]
      split
      · exact h.rcvRsynack
      · exact h

theorem Ready.finTaken (h : Ready env w p) : FinTaken env w p := by
  intro _
  have hctl := @ackAccept_ctl env w p
  obtain ⟨s, d, m, hframe⟩ := (ctl w.sk).accept_frame p
  rw [hframe] at hctl
  have hstate : (ackAccept env w p).sk.skState = w.sk.skState := congrArg Ctl.skState hctl
  have hdev : (ackAccept env w p).sk.boundDevIf = w.sk.boundDevIf := congrArg Ctl.boundDevIf hctl
  have hnonce : (ackAccept env w p).sk.peerNonce = w.sk.peerNonce := congrArg Ctl.peerNonce hctl
  have hvalid : hasValidControlExtension (ackAccept env w p).sk p = true := by
    rw [hasValidControlExtension, hnonce]
    exact h.valid
  rw [servalSalRcvFin, hvalid]
  refine (@Ready.sendAck env (finReceived (ackAccept env w p) p) p ⟨hstate.trans h.state, hvalid, ?_, ?_⟩).1
  · exact (congrArg (fun dev => (env.devs dev).isSome) hdev).trans h.dev
  · exact (ackAccept_kept env w p).2.symm ▸ h.answers

theorem dispatch_accepted (hquiet : QuietReceive env) (hstate : finPending w.sk.skState = true)
    (hack : ackAcceptable w.sk p = true) (hfin : w.sk.skState = .finwait1 → FinTaken env w p) :
    finPending (dispatch env w p).sk.skState = false := by
  rw [dispatch]
  cases hs : w.sk.skState <;> simp only [hs, finPending, false_eq_true] at hstate
  case finwait1 =>
    simp only [servalSalFinwait1StateProcess, ackProcess_accepted hack, (receiveIf_keeps hquiet).1,
      decide_true, if_true]
    split
    next h =>
      rw [if_pos (hfin hs h)]
      rfl
    · rfl
  case closing =>
    simp only [servalSalClosingStateProcess, ackProcess_accepted hack, (receiveIf_keeps hquiet).1, if_true]
    rw [ackIf_same.skState]
    rfl
  case lastack =>
    have haccepted : ackAcceptable (if p.flags.fin then (servalSalSendAck env w).1 else w).sk p = true := by
      rw [ackIf_acceptable]
      exact hack
    simp only [servalSalLastackStateProcess, ackProcess_accepted haccepted, if_true]
    rw [done_skState]
    rfl

theorem not_pending_of_eq (hstate : w'.sk.skState = w.sk.skState) (h : finPending w.sk.skState = false) :
    finPending w'.sk.skState = false := hstate ▸ h

theorem not_pending_stages (hquiet : QuietReceive env) (hs : finPending w.sk.skState = false) :
    Stages env p w.sk.skState True (finPending ·.sk.skState = false) (finPending ·.sk.skState = false)
      (finPending ·.sk.skState = false) (finPending ·.sk.skState = false) (finPending ·.sk.skState = false) where
  ackFirst := not_pending_of_eq sendAck_same.skState
  accept _ _ := trivial
  process _ := not_pending_of_eq ackProcess_frame.2
  unprocessed h := h
  fin _ := not_pending_of_eq rcvFin_same.skState
  respond _ h := h
  noFin h := h
  state {w' t} hnext _ := by
    rw [setState_skState]
    cases hstate : w.sk.skState <;> cases t <;> simp_all [Next, finPending]
  sameState h := h
  timer h := h
  ackLast := not_pending_of_eq sendAck_same.skState
  receive := not_pending_of_eq (receiveIf_keeps (b := true) hquiet).1
  noReceive h := h
  closewait _ _ _ := by rw [setState_skState]; rfl
  done _ _ _ := by rw [done_skState]; rfl
  reset _ := not_pending_of_eq (congrArg Sock.skState sendReset_sent.1)
  request {w'} _ h := by
    rcases requestStateProcess_cases env w' p with heq | ⟨ctrl, hctrl, hanswers⟩
    · rwa [heq]
    · have hack : finPending (servalSalAckProcess env w' p).1.sk.skState = false :=
        not_pending_of_eq ackProcess_frame.2 h
      rw [ackProcess_accepted hanswers.acceptable] at hack
      rw [requestStateProcess_answers hctrl hanswers]
      simp only
      split
      · exact hack
      · rw [(requestConnect_cases rfl).1]
        rfl

theorem dispatch_not_pending (hquiet : QuietReceive env) (hstate : finPending w.sk.skState = false) :
    finPending (dispatch env w p).sk.skState = false :=
  (not_pending_stages hquiet hstate).dispatch rfl hstate

/-! ## Events -/

theorem controlProcess_reset (hrst : p.flags.rst = true) : (controlProcess env w p).2 = false ∧
      (SameQueue w.sk (controlProcess env w p).1.sk ∨ (controlProcess env w p).1.sk.skState = .closed) := by
  rw [controlProcess]
  split
  next hctrl => simp [Segment.flags, Option.isNone_iff_eq_none.mp hctrl] at hrst
  · split
    · exact ⟨rfl, .inl sendAck_same⟩
    · exact ⟨rfl, .inr (rcvReset_skState w)⟩

def FinInQueue (sk : Sock) : Prop := finPending sk.skState = true → FinQueued sk

theorem FinInQueue.of_not (h : finPending sk.skState = false) : FinInQueue sk :=
  fun hstate => by simp [h] at hstate

theorem FinInQueue.of_closed (h : sk.skState = .closed) : FinInQueue sk :=
  .of_not (by rw [h]; rfl)

theorem FinInQueue.same (h : FinInQueue sk) (hsame : SameQueue sk sk') : FinInQueue sk' :=
  fun hstate => (h (hsame.skState ▸ hstate)).same hsame

theorem stateProcess_finInQueue {child : Option World} (hquiet : QuietReceive env)
    (htaken : p.flags.rst = false → w.sk.skState = .finwait1 → ackAcceptable w.sk p = true →
      FinTaken env (controlProcess env w p).1 p)
    (h : FinInQueue w.sk) (hstep : servalSalStateProcess env w p = some (w', child)) : FinInQueue w'.sk := by
  rw [servalSalStateProcess] at hstep
  cases hrst : p.flags.rst
  · obtain ⟨hqueued, hstate, hacceptable⟩ := @controlProcess_finQueued env w p hrst
    generalize controlProcess env w p = r at hstep hqueued hstate hacceptable htaken
    obtain ⟨w₁, go⟩ := r
    simp only at hstep hqueued hstate hacceptable htaken
    have hw₁ : FinInQueue w₁.sk := fun hpending => hqueued (h (hstate ▸ hpending))
    cases go
    · cases hstep
      exact hw₁
    · simp only [Bool.not_true, false_eq_true, if_false] at hstep
      split at hstep
      next hlisten =>
        obtain ⟨heffect, hreplies⟩ := listenStateProcess_effect hstep
        refine .of_not ?_
        rw [(heffect.undisturbed hreplies).skState, hlisten]
        rfl
      next hlisten =>
        cases hstep
        cases hpending : finPending w₁.sk.skState
        · exact .of_not (dispatch_not_pending hquiet hpending)
        · cases hack : ackAcceptable w₁.sk p
          · exact fun _ => (dispatch_refused hquiet ⟨hpending, hw₁ hpending⟩ hack).2
          · refine .of_not (dispatch_accepted hquiet hpending hack fun hs => ?_)
            exact htaken hrst (hstate ▸ hs) (hacceptable ▸ hack)
  · obtain ⟨hgo, hcontrol⟩ := @controlProcess_reset env w p hrst
    simp only [hgo, Bool.not_false, if_true] at hstep
    cases hstep
    rcases hcontrol with hsame | hclosed
    · exact h.same hsame
    · exact .of_closed hclosed

/-- The states in which a close is passed on to the transport. -/
def closes : SalState → Bool
  | .connected | .respond | .closewait => true
  | _ => false

theorem close_finInQueue (hclose : closes w.sk.skState = true → ∀ err, env.transport.close = some err → 0 < err)
    (h : FinInQueue w.sk) : FinInQueue (servalSalClose env w).sk := by
  rcases close_cases env w with ⟨s, hstate, hfinish⟩ | hsame | hdone
  · -- what follows the change of state sends the FIN, or closes the socket
    generalize servalSalClose env w = w' at hfinish
    cases hfinish with
    | fin => exact fun _ => sendFin_finQueued.1
    | reset => exact .of_closed sendActiveReset_same.skState
    | transport hcb hpos =>
      refine absurd (hclose ?_ _ hcb) hpos
      rcases hstate with ⟨hs, -⟩ | ⟨hs | hs, -⟩ <;> rw [hs] <;> rfl
  · rw [hsame]
    exact h
  · rw [hdone]
    exact .of_closed (done_skState w)

theorem migrate_finInQueue {dev : ℕ} : FinInQueue (servalSockMigrate env w dev).1.sk := by
  cases hrefuses : refusesRsyn w.sk.skState
  · rw [migrate_pushes env w dev hrefuses]
    cases hpending : finPending w.sk.skState
    · refine .of_not ?_
      rw [queueAndPush_skState]
      exact hpending
    · exact fun _ => queueAndPush_finQueued (.inl hpending)
  · rw [migrate_refused env w dev hrefuses]
    refine .of_not ?_
    change finPending w.sk.skState = false
    cases hs : w.sk.skState <;> simp_all [refusesRsyn, finPending]

theorem rexmit_finQueued (h : FinQueued w.sk) : FinQueued (servalSalRexmit env w).sk := by
  obtain ⟨skb, hq, hfin, hverno⟩ := h
  obtain ⟨s, d, hsk⟩ := rexmit_frame env w
  rw [hsk, hq]
  exact ⟨_, rfl, hfin, hverno⟩

theorem rexmit_skState : (servalSalRexmit env w).sk.skState = w.sk.skState := by
  obtain ⟨s, d, hsk⟩ := rexmit_frame env w
  rw [hsk]

/-- The receive function of the transport does not close the socket, and a FIN that comes with an acceptable
acknowledgment in FIN-WAIT-1 can be acknowledged. -/
structure Immediate (env : Env) (w : World) (e : Event) : Prop where
  receive : QuietReceive env
  fin : ∀ p, e = .packet p → w.sk.skState = .finwait1 → p.flags.fin = true → ackAcceptable w.sk p = true → Ready env w p

/-- Whether the transport has been told to close, and has not sent the FIN yet. -/
def owes (env : Env) (w : World) (owed : Bool) : Event → Bool
  | .close => owed || (closes w.sk.skState && env.transport.close.any (· ≤ 0))
  | .transport .sendFin => false
  | _ => owed

theorem packet_finInQueue (hok : Immediate env w (.packet p)) (h : FinInQueue w.sk)
    (hstep : step env w (.packet p) = some w') : FinInQueue w'.sk := by
  rw [step] at hstep
  obtain ⟨⟨w₁, child⟩, hprocess, rfl⟩ := Option.map_eq_some_iff.mp hstep
  refine stateProcess_finInQueue hok.receive (fun hrst hs hacceptable hfin => ?_) h hprocess
  have hack : p.flags.ack = true := by
    simp only [ackAcceptable, and_eq_true] at hacceptable
    exact hacceptable.1.1
  exact ((hok.fin p rfl hs hfin hacceptable).controlProcess hrst hack).finTaken hfin

theorem step_finInQueue {owed : Bool} (hok : Immediate env w e) (hstep : step env w e = some w')
    (h : owed = false → FinInQueue w.sk) (howes : owes env w owed e = false) : FinInQueue w'.sk := by
  cases e with
  | packet p => exact packet_finInQueue hok (h howes) hstep
  | close =>
    cases hstep
    obtain ⟨howed, hclose⟩ := or_eq_false_iff.mp howes
    refine close_finInQueue (fun hs err herr => ?_) (h howed)
    simpa [hs, herr] using hclose
  | migrate dev =>
    cases hstep
    exact migrate_finInQueue
  | rexmitTimeout =>
    cases hstep
    rw [servalSalRexmitTimeout]
    split
    · exact .of_closed (done_skState _)
    · exact fun hpending => rexmit_finQueued (h howes (rexmit_skState ▸ hpending))
  | timewaitTimeout =>
    cases hstep
    exact .of_closed (done_skState w)
  | keepaliveTimeout owned keepopen =>
    cases hstep
    rcases keepaliveTimeout_cases env w owned keepopen with ⟨timer, htimer⟩ | ⟨hdone, -⟩
    · rw [htimer]
      exact h howes
    · rw [hdone]
      exact .of_closed (done_skState w)
  | transport call =>
    cases hstep
    by_cases hsend : call = .sendFin
    · rw [hsend]
      exact fun _ => sendFin_finQueued.1
    by_cases hquiet : Quiet call
    · obtain ⟨hstate, hfin⟩ := @transportCall_keeps env w call hquiet
      have howed : owed = false := by
        cases call <;> first | exact howes | exact absurd rfl hsend
      exact fun hpending => hfin (h howed (hstate ▸ hpending))
    · exact .of_closed (transportCall_closes hquiet)
  | orphan =>
    cases hstep
    exact h howes

/-- A run, and whether the transport owes a FIN at its end. -/
inductive Closing (w₀ : World) : World → Bool → Prop where
  | refl : Closing w₀ w₀ false
  | step {env : Env} {w w' : World} {owed : Bool} {tape : List Answer} {e : Event} : Closing w₀ w owed →
      Immediate env { w with tape := tape } e → step env { w with tape := tape } e = some w' →
      Closing w₀ w' (owes env w owed e)

theorem run_finInQueue {owed : Bool} (hrun : Closing w w' owed) (h : FinInQueue w.sk) (howed : owed = false) :
    FinInQueue w'.sk := by
  induction hrun with
  | refl => exact h
  | step _ hok hstep ih => exact step_finInQueue hok hstep ih howed

/-! ## The acknowledgment of the FIN -/

def Acknowledged : SalState → SalState → Prop
  | .finwait1, .finwait2 | .finwait1, .timewait | .closing, .timewait | .lastack, .closed => True
  | _, _ => False

instance (s s' : SalState) : Decidable (Acknowledged s s') := by
  unfold Acknowledged
  split <;> infer_instance

def QueueSent (w : World) : Prop :=
  ∀ skb, w.sk.ctrlQueue = some skb → ∃ seg ∈ sent w.out, seg.flags = skb.flags.wire ∧ seg.verno = skb.verno

theorem Acknowledged.pending {s s' : SalState} (h : Acknowledged s s') :
    finPending s = true ∧ finPending s' = false := by
  cases s <;> cases s' <;> simp_all [Acknowledged, finPending]

theorem acceptable_of_left (hquiet : QuietReceive env) (hrst : p.flags.rst = false) (h : Pending w.sk)
    (hstep : step env w (.packet p) = some w') (hleft : finPending w'.sk.skState = false) :
    ackAcceptable w.sk p = true := by
  have hestablished : Established w.sk := by
    constructor <;> (intro hs; simp [Pending, hs, finPending] at h)
  rw [step_packet hestablished] at hstep
  cases hstep
  obtain ⟨hqueued, hstate, hacceptable⟩ := @controlProcess_finQueued env w p hrst
  by_contra hack
  rw [connProcess] at hleft
  generalize controlProcess env w p = r at hqueued hstate hacceptable hleft
  obtain ⟨w₁, go⟩ := r
  have hpending : Pending w₁.sk := ⟨hstate ▸ h.1, hqueued h.2⟩
  cases go
  · exact absurd hpending.1 (by simpa using hleft)
  · have hrefused : ackAcceptable w₁.sk p = false := by simpa [hacceptable] using hack
    exact absurd (dispatch_refused hquiet hpending hrefused).1 (by simpa using hleft)

/-- In every run, whatever the transport does when it is told to close, a packet without RST that comes when no FIN is
owed ends the waiting for the acknowledgment of the FIN only if it acknowledges a FIN that has been sent, unless it
repeats the number that is acknowledged already. -/
theorem fin_acknowledged {tape : List Answer} {w'' : World} (hstart : finPending w.sk.skState = false)
    (hrun : Closing w w' false) (hquiet : QuietReceive env)
    (hsent : QueueSent w') (hrst : p.flags.rst = false) (hackno : p.ackno ≠ w'.sk.snd.una)
    (hstep : step env { w' with tape := tape } (.packet p) = some w'')
    (hleft : Acknowledged w'.sk.skState w''.sk.skState) :
    p.flags.ack = true ∧ ∃ seg ∈ sent w'.out, seg.flags.fin = true ∧ after p.ackno seg.verno = true := by
  obtain ⟨hpending, hleft⟩ := hleft.pending
  have hqueued : FinQueued w'.sk := run_finInQueue hrun (.of_not hstart) rfl hpending
  have hack : ackAcceptable w'.sk p = true :=
    acceptable_of_left (w := { w' with tape := tape }) hquiet hrst ⟨hpending, hqueued⟩ hstep hleft
  simp only [ackAcceptable, and_eq_true, not_eq_true'] at hack
  obtain ⟨skb, hskb, hfin, hverno⟩ := hqueued
  obtain ⟨seg, hseg, hflags, hsegverno⟩ := hsent skb hskb
  refine ⟨hack.1.1, seg, hseg, by rw [hflags]; exact hfin, ?_⟩
  rw [hsegverno, hverno]
  exact after_of_not_before hack.1.2 hackno

def opened : World := ⟨exampleSock 10 20 1 2 5 6 100 200, [], []⟩

def closedOnce : World := servalSalClose (exampleEnv 10 11) opened

def finAck (ackno : UInt32) : Packet := examplePacket 20 10 2 1 6 { ack := true } 200 ackno

/-- A stream whose transport sends the FIN after it has been told to close, and then asks for the acknowledgment. -/
def streamEnv : Env := { exampleEnv 10 11 with transport := { close := some 0 } }

def owing : World := servalSalClose streamEnv opened

def closedStream : World := (servalSalSendFin streamEnv { owing with tape := [] }).1

theorem stream_immediate (w : World) (hne : ∀ p, e ≠ .packet p) : Immediate streamEnv w e :=
  ⟨fun call h => by simp [streamEnv] at h, fun p h => absurd h (hne p)⟩

theorem stream_closing : Closing opened closedStream false := by
  have hclose : Closing opened owing true :=
    @Closing.step opened streamEnv _ _ _ [] .close .refl (stream_immediate _ fun p h => by cases h) rfl
  exact @Closing.step _ streamEnv _ _ _ [] (.transport .sendFin) hclose (stream_immediate _ fun p h => by cases h) rfl

/-- The acknowledgment of the FIN, -/
theorem fin_acknowledged_after_close : owing.out = [] ∧ (finAck 101).flags.ack = true ∧
      ∃ seg ∈ sent closedStream.out, seg.flags.fin = true ∧ after (finAck 101).ackno seg.verno = true := by
  have hsent : QueueSent closedStream := by
    intro skb hskb
    refine ⟨_, List.mem_singleton.mpr rfl, ?_⟩
    cases hskb
    exact ⟨by decide +kernel, by decide +kernel⟩
  refine ⟨by decide +kernel, ?_⟩
  exact fin_acknowledged (by decide) stream_closing (fun call h => by simp [streamEnv] at h) hsent (by decide)
    (by decide +kernel) (@step_packet streamEnv { closedStream with tape := [] } _ (by decide +kernel))
    (by decide +kernel)

/-- and the same change of state by an acknowledgment of what came before the FIN. -/
theorem old_ack_ends_finwait1 : closedOnce.sk.skState = .finwait1 ∧
      (connProcess (exampleEnv 10 11) closedOnce (finAck 100)).sk.skState = .finwait2 ∧
      ∀ seg ∈ sent closedOnce.out, after (finAck 100).ackno seg.verno = false := by
  decide +kernel

end SalTeardown
