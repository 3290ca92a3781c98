import Serval.SalSocket

/-! # Receiving control packets

What a socket does with a packet, in every state but LISTEN.
-/
namespace SalInput

open SerialNumber SalBuild SalSocket

/-- In LISTEN and REQUEST every number is valid, elsewhere what is not old, and the
acknowledgments. -/
def hasValidVerno (p : Packet) (sk : Sock) : Bool :=
  sk.skState = .listen || sk.skState = .request || !before p.verno sk.rcv.nxt ||
    p.flags = { ack := true } || p.flags = { rsyn := true, ack := true }

def hasValidControlExtension (sk : Sock) (p : Packet) : Bool :=
  match p.ctrl with
  | none => false
  | some ctrl => ctrl.length = 20 && (ctrl.flags.syn || ctrl.nonce = sk.peerNonce)

def hasServiceExtension (srv : Option SrvExt) : Bool :=
  match srv with
  | none => false
  | some ext => ext.length = 36

def SrcExt.lastAddr (ext : SrcExt) : Addr := ext.addrs.getLast?.getD 0

def migrationCompleted (w : World) : World :=
  w.setSk { w.sk with daddr := w.sk.migDaddr, migDaddr := 0 }

def migrating : RsynState → Bool
  | .recv | .sentRecv => true
  | .initial | .sent => false

/-- `serval_sal_ack_process` from the point where the acknowledgment is accepted. -/
def ackAccept (env : Env) (w : World) (p : Packet) : World :=
  let w := (servalSalCleanRtxQueue env w p.ackno (migrating w.sk.salState)).1
  let w := w.setSk { w.sk with snd := { w.sk.snd with una := p.ackno } }
  match w.sk.salState with
  | .recv => if p.flags.rsyn then w else migrationCompleted (servalSockSetSalState w .initial)
  | .sentRecv => if p.flags.rsyn then w else migrationCompleted (servalSockSetSalState w .sent)
  | .initial | .sent => w

/-- Not older than the last one, and nothing that was not sent, except during a migration. -/
def ackAcceptable (sk : Sock) (p : Packet) : Bool :=
  p.flags.ack && !before p.ackno sk.snd.una &&
    !(after p.ackno sk.snd.nxt && !migrating sk.salState)

def servalSalAckProcess (env : Env) (w : World) (p : Packet) : World × ℤ :=
  if ackAcceptable w.sk p then (ackAccept env w p, 0) else (w, -1)

def servalSalRcvRsynack (env : Env) (w : World) (p : Packet) : World × ℤ :=
  match w.sk.salState with
  | .sent =>
    match env.devs w.sk.migDevIf with
    | none => (w, -1)
    | some addr =>
      if p.ackno ≠ w.sk.snd.una + 1 then (w, -1)
      else servalSalSendAck env (w.setSk { w.sk with
        salState := .initial
        saddr := addr
        boundDevIf := w.sk.migDevIf
        migDevIf := 0 })
  | .sentRecv => servalSalSendAck env (w.setSk { w.sk with salState := .recv, migDaddr := p.saddr })
  | .initial | .recv => servalSalSendAck env w

def servalSalRcvRsyn (env : Env) (w : World) (p : Packet) : World × ℤ :=
  if !hasValidControlExtension w.sk p then (w, -1)
  else if w.sk.skState = .closed ∨ w.sk.skState = .listen ∨ w.sk.skState = .request then (w, -1)
  else
    let salState : RsynState := match w.sk.salState with
      | .initial | .recv => .recv
      | .sent | .sentRecv => .sentRecv
    let w := w.setSk { w.sk with
      salState := salState
      rcv := { w.sk.rcv with nxt := p.verno + 1 }
      migDaddr := p.saddr }
    let (a, w) := w.answer
    if !a.alloc then (w, -ENOMEM)
    else servalSalQueueAndPush env w a ⟨{ rsyn := true, ack := true }, w.sk.snd.nxt, salTimeStamp env, false⟩

def finReceived (w : World) (p : Packet) : World :=
  w.setSk { w.sk with
    shutdown := { w.sk.shutdown with rcv := true }
    rcv := { w.sk.rcv with nxt := p.verno + 1 } }

def servalSalRcvFin (env : Env) (w : World) (p : Packet) : World × ℤ :=
  if !hasValidControlExtension w.sk p then (w, -1) else servalSalSendAck env (finReceived w p)

def servalSalTimewait (env : Env) (w : World) (state : SalState) (timeo : ℕ) : World :=
  let w := servalSockSetState w state
  let rto := ((w.sk.rtt.rto <<< 2) - (w.sk.rtt.rto >>> 1)).toNat
  w.setSk { w.sk with timers := { w.sk.timers with
    tw := some (env.now + if timeo < rto then rto else timeo) } }

def servalSalConnectedStateProcess (env : Env) (w : World) (p : Packet) : World :=
  let w := (servalSalAckProcess env w p).1
  let (w, shouldClose) := if p.flags.fin then
      let (w, err) := servalSalRcvFin env w p
      (w, decide (err = 0))
    else (w, false)
  let w := if p.transport || p.flags.fin then transportReceive env w else w
  if shouldClose then servalSockSetState w .closewait else w

def servalSalClosewaitStateProcess (env : Env) (w : World) (p : Packet) : World :=
  let w := if p.flags.fin then (servalSalSendAck env w).1 else w
  let w := (servalSalAckProcess env w p).1
  if p.transport then transportReceive env w else w

def servalSalRequestStateProcess (env : Env) (w : World) (p : Packet) : World :=
  match p.ctrl with
  | none => w
  | some ctrl =>
    if !hasValidControlExtension w.sk p then w
    else if !(p.flags.syn && p.flags.ack) then w
    else
      let (w, err) := servalSalAckProcess env w p
      if err ≠ 0 then w
      else
        let w := w.setSk { w.sk with
          boundDevIf := p.dev
          daddr := match p.source with
            | some ext => SrcExt.lastAddr ext
            | none => p.saddr
          saddr := p.daddr
          peerNonce := ctrl.nonce
          peerFlowid := p.srcFlowid
          rcv := { w.sk.rcv with nxt := p.verno + 1 } }
        if env.transport.requestState ≠ 0 then w
        else
          let w := servalSockSetState w .connected
          let (a, w) := w.answer
          if !a.alloc then w
          else if env.transport.buildAck ≠ 0 then w
          else (servalSalTransmitSkb env w a ⟨{ ack := true, connAck := true }, w.sk.snd.nxt, 0, true⟩
            false).1

def servalSalRespondStateProcess (env : Env) (w : World) (p : Packet) : World :=
  if !hasValidControlExtension w.sk p then w
  else
    let (w, err) := servalSalAckProcess env w p
    if err ≠ 0 then w
    else
      let w := w.setSk { w.sk with boundDevIf := p.dev, daddr := p.saddr }
      if env.transport.respondState ≠ 0 then w else servalSockSetState w .connected

def servalSalFinwait1StateProcess (env : Env) (w : World) (p : Packet) : World :=
  let (w, ackErr) := servalSalAckProcess env w p
  let ackOk : Bool := ackErr = 0
  let w := if p.flags.fin then
      let (w, err) := servalSalRcvFin env w p
      if err = 0 then
        if ackOk then servalSalTimewait env w .timewait SAL_TIMEWAIT_LEN
        else servalSockSetState w .closing
      else w
    else if ackOk then servalSalTimewait env w .finwait2 SAL_FIN_TIMEOUT
    else w
  if p.transport || p.flags.fin then transportReceive env w else w

def servalSalFinwait2StateProcess (env : Env) (w : World) (p : Packet) : World :=
  let w := if p.flags.fin then
      let (w, err) := servalSalRcvFin env w p
      if err = 0 then servalSalTimewait env w .timewait SAL_TIMEWAIT_LEN else w
    else w
  if p.transport || p.flags.fin then transportReceive env w else w

def servalSalClosingStateProcess (env : Env) (w : World) (p : Packet) : World :=
  let (w, err) := servalSalAckProcess env w p
  let w := if err = 0 then servalSalTimewait env w .timewait SAL_TIMEWAIT_LEN else w
  let w := if p.flags.fin then (servalSalSendAck env w).1 else w
  if p.transport then transportReceive env w else w

def servalSalLastackStateProcess (env : Env) (w : World) (p : Packet) : World :=
  let w := if p.flags.fin then (servalSalSendAck env w).1 else w
  let (w, err) := servalSalAckProcess env w p
  let w := if p.transport then transportReceive env w else w
  if err = 0 then servalSalDone w else w

def servalSalInitStateProcess (env : Env) (w : World) (p : Packet) : World :=
  if w.sk.hashKeyLen ≠ 0 ∧ p.srv0.isSome ∧ p.srv1.isSome then
    if p.transport then transportReceive env w else w
  else w

def servalSalTimewaitStateProcess (env : Env) (w : World) (p : Packet) : World :=
  if p.flags.fin then (servalSalSendAck env w).1 else w

/-- The first part of `serval_sal_state_process`, for the control extension, and whether the
second part follows. -/
def controlProcess (env : Env) (w : World) (p : Packet) : World × Bool :=
  if p.ctrl.isNone then (w, true)
  else if !hasValidVerno p w.sk then ((servalSalSendAck env w).1, false)
  else if p.flags.rst then (servalSalRcvReset w, false)
  else if p.flags.rsyn then
    if p.flags.ack then ((servalSalRcvRsynack env w p).1, true) else ((servalSalRcvRsyn env w p).1, true)
  else (w, true)

/-- The flags are added as the numbers that they are: 1 for SYN, and 32 for FIN. -/
def resetAckno (p : Packet) : UInt32 :=
  p.verno + (if p.flags.syn then 1 else 0) + (if p.flags.fin then 32 else 0)

def resetSegment (p : Packet) : Segment :=
  { saddr := p.daddr
    daddr := p.saddr
    ipProtocol := SalResolve.IPPROTO_SERVAL
    srcFlowid := p.dstFlowid
    dstFlowid := p.srcFlowid
    protocol := p.protocol
    ctrl := some {
      flags := { rst := true, ack := !p.flags.ack }
      verno := if p.flags.ack then p.ackno else 0
      ackno := if p.flags.ack then 0 else resetAckno p
      nonce := (p.ctrl.map (·.nonce)).getD (List.Vector.replicate 8 0)
      length := 20 } }

def servalSalSendReset (w : World) (p : Packet) : World :=
  if p.flags.rst then w
  else
    let (a, w) := w.answer
    if !a.alloc then w else w.emit a.xmit (resetSegment p)

/-- The second part of `serval_sal_state_process`, for all states but LISTEN. -/
def dispatch (env : Env) (w : World) (p : Packet) : World :=
  match w.sk.skState with
  | .init => if w.sk.skType = .dgram then servalSalInitStateProcess env w p else w
  | .connected => servalSalConnectedStateProcess env w p
  | .request => servalSalRequestStateProcess env w p
  | .respond => servalSalRespondStateProcess env w p
  | .finwait1 => servalSalFinwait1StateProcess env w p
  | .finwait2 => servalSalFinwait2StateProcess env w p
  | .closing => servalSalClosingStateProcess env w p
  | .lastack => servalSalLastackStateProcess env w p
  | .timewait => servalSalTimewaitStateProcess env w p
  | .closewait => servalSalClosewaitStateProcess env w p
  | .closed => servalSalSendReset w p
  | .listen => w

def connProcess (env : Env) (w : World) (p : Packet) : World :=
  let (w, go) := controlProcess env w p
  if go then dispatch env w p else w

/-! ## Stages -/

/-- The changes of state before the transport gets the packet; most of them need an acknowledgment that was accepted. -/
def Next (accepted : Prop) : SalState → SalState → Prop
  | .respond, .connected | .finwait2, .timewait | .finwait1, .closing => True
  | .finwait1, .timewait | .finwait1, .finwait2 | .closing, .timewait => accepted
  | _, _ => False

/-- What is to be shown to follow a packet through the second part, from the state `s`: `A` holds until the
acknowledgment is looked at, `B` after that, `C` after the FIN, `D` after the change of state, and `E` after the
transport. -/
structure Stages (env : Env) (p : Packet) (s : SalState) (accepted : Prop) (A B C D E : World → Prop) : Prop where
  ackFirst : ∀ {w}, A w → A (servalSalSendAck env w).1
  accept : ∀ {w}, A w → ackAcceptable w.sk p = true → accepted
  process : ∀ {w}, s ≠ .closed → A w → B (servalSalAckProcess env w p).1
  unprocessed : ∀ {w}, A w → B w
  fin : ∀ {w}, p.flags.fin = true → B w → C (servalSalRcvFin env w p).1
  respond : ∀ {w}, s = .respond → B w → C (w.setSk { w.sk with boundDevIf := p.dev, daddr := p.saddr })
  noFin : ∀ {w}, B w → C w
  state : ∀ {w t}, Next accepted s t → C w → D (servalSockSetState w t)
  sameState : ∀ {w}, C w → D w
  timer : ∀ {w tw}, D w → D (w.setSk { w.sk with timers := { w.sk.timers with tw := tw } })
  ackLast : ∀ {w}, D w → D (servalSalSendAck env w).1
  receive : ∀ {w}, D w → E (transportReceive env w)
  noReceive : ∀ {w}, D w → E w
  closewait : ∀ {w}, s = .connected → p.flags.fin = true → E w → E (servalSockSetState w .closewait)
  done : ∀ {w}, s = .lastack → accepted → E w → E (servalSalDone w)
  reset : ∀ {w}, s = .closed → A w → E (servalSalSendReset w p)
  request : ∀ {w}, s = .request → A w → E (servalSalRequestStateProcess env w p)

section

variable {env : Env} {p : Packet} {s : SalState} {accepted : Prop} {A B C D E : World → Prop} {w : World}
  (h : Stages env p s accepted A B C D E)
include h

theorem Stages.receiveIf (b : Bool) (hw : D w) : E (if b then transportReceive env w else w) := by
  split
  · exact h.receive hw
  · exact h.noReceive hw

theorem Stages.ackFirstIf (b : Bool) (hw : A w) : A (if b then (servalSalSendAck env w).1 else w) := by
  split
  · exact h.ackFirst hw
  · exact hw

theorem Stages.ackLastIf (b : Bool) (hw : D w) : D (if b then (servalSalSendAck env w).1 else w) := by
  split
  · exact h.ackLast hw
  · exact hw

theorem Stages.accept_of_ok (hw : A w) (hok : (servalSalAckProcess env w p).2 = 0) : accepted := by
  refine h.accept hw ?_
  by_contra hrefused
  rw [servalSalAckProcess, if_neg hrefused] at hok
  cases hok

theorem Stages.timewait {t : SalState} {timeo : ℕ} (hnext : Next accepted s t) (hw : C w) :
    D (servalSalTimewait env w t timeo) := h.timer (h.state hnext hw)

theorem Stages.dispatch (hs : w.sk.skState = s) (hw : A w) : E (dispatch env w p) := by
  have hpass : E w := h.noReceive (h.sameState (h.noFin (h.unprocessed hw)))
  have hprocess := @h.process w
  rw [SalInput.dispatch, hs]
  cases s with
  | listen => exact hpass
  | closed => exact h.reset rfl hw
  | request => exact h.request rfl hw
  | timewait => exact h.noReceive (h.ackLastIf _ (h.sameState (h.noFin (h.unprocessed hw))))
  | init =>
    simp only [servalSalInitStateProcess]
    split
    · split
      · exact h.receiveIf _ (h.sameState (h.noFin (h.unprocessed hw)))
      · exact hpass
    · exact hpass
  | closewait =>
    exact h.receiveIf _ (h.sameState (h.noFin (h.process (by simp) (h.ackFirstIf _ hw))))
  | lastack =>
    have hfirst := h.ackFirstIf p.flags.fin hw
    simp only [servalSalLastackStateProcess]
    generalize (if p.flags.fin = true then (servalSalSendAck env w).1 else w) = w₁ at hfirst ⊢
    have hE := h.receiveIf p.transport (h.sameState (h.noFin (h.process (by simp) hfirst)))
    split
    next herr => exact h.done rfl (h.accept_of_ok hfirst herr) hE
    · exact hE
  | respond =>
    simp only [servalSalRespondStateProcess]
    split
    · exact hpass
    · split
      · exact h.noReceive (h.sameState (h.noFin (hprocess (by simp) hw)))
      · split
        · exact h.noReceive (h.sameState (h.respond rfl (hprocess (by simp) hw)))
        · exact h.noReceive (h.state trivial (h.respond rfl (hprocess (by simp) hw)))
  | closing =>
    simp only [servalSalClosingStateProcess]
    refine h.receiveIf _ (h.ackLastIf _ ?_)
    split
    next herr => exact h.timewait (h.accept_of_ok hw herr) (h.noFin (hprocess (by simp) hw))
    · exact h.sameState (h.noFin (hprocess (by simp) hw))
  | finwait2 =>
    simp only [servalSalFinwait2StateProcess]
    refine h.receiveIf _ ?_
    split
    next hfin =>
      split
      · exact h.timewait trivial (h.fin hfin (h.unprocessed hw))
      · exact h.sameState (h.fin hfin (h.unprocessed hw))
    · exact h.sameState (h.noFin (h.unprocessed hw))
  | finwait1 =>
    simp only [servalSalFinwait1StateProcess, decide_eq_true_eq]
    refine h.receiveIf _ ?_
    split
    next hfin =>
      have hC := h.fin hfin (hprocess (by simp) hw)
      split
      · split
        next herr => exact h.timewait (h.accept_of_ok hw herr) hC
        · exact h.state trivial hC
      · exact h.sameState hC
    · split
      next herr => exact h.timewait (h.accept_of_ok hw herr) (h.noFin (hprocess (by simp) hw))
      · exact h.sameState (h.noFin (hprocess (by simp) hw))
  | connected =>
    simp only [servalSalConnectedStateProcess]
    cases hfin : p.flags.fin
    · exact h.receiveIf _ (h.sameState (h.noFin (hprocess (by simp) hw)))
    · have hE := h.receiveIf (p.transport || true) (h.sameState (h.fin hfin (hprocess (by simp) hw)))
      simp only [if_true]
      split
      · exact h.closewait rfl hfin hE
      · exact hE

end

end SalInput
