import Serval.SalRexmit
import Serval.SalHandshake

/-! # The code of a socket refines the retransmission machine

Every call on a socket and everything that comes in is a sequence of actions of the machine.
-/
namespace SalRexmitRefine

open SerialNumber SalRtt SalSocket SalInput SalListen SalControl SalRefine SalRuns SalRexmit SalBuild
open SalListener SalHandshake

/-- From the first world the second one is reached by actions of the machine, however often the
packet in the queue has been sent again before. -/
def Rexmits (env : Env) (i : Input) (start : Rx) (w w' : World) : Prop :=
  ∀ n, ∃ n', Acts env i start (rx w.sk) n (rx w'.sk) n'

variable {env : Env} {i : Input} {start : Rx} {w w' w'' : World}

theorem Rexmits.trans (h₁ : Rexmits env i start w w') (h₂ : Rexmits env i start w' w'') :
    Rexmits env i start w w'' := by
  intro n
  obtain ⟨n₁, hacts₁⟩ := h₁ n
  obtain ⟨n₂, hacts₂⟩ := h₂ n₁
  exact ⟨n₂, hacts₁.trans hacts₂⟩

theorem Rexmits.of_eq (h : rx w'.sk = rx w.sk) : Rexmits env i start w w' := fun n => ⟨n, h ▸ .refl⟩

theorem Rexmits.refl : Rexmits env i start w w := .of_eq rfl

theorem Rexmits.act {r : Rx} (h : ∀ n, Act env i start (rx w.sk) n r n) (hr : rx w'.sk = r) :
    Rexmits env i start w w' := fun n => ⟨n, hr ▸ (h n).acts⟩

/-! ## Sending -/

section

variable (env w)

theorem transmit_rx (a : Answer) (skb : CtrlSkb) (useCopy : Bool) :
    rx (servalSalTransmitSkb env w a skb useCopy).1.sk = rx w.sk := by
  obtain ⟨s, d, hsk⟩ := (transmit_transmits env w a skb useCopy).sk
  rw [hsk]
  rfl

theorem sendAck_rx : rx (servalSalSendAck env w).1.sk = rx w.sk := by
  obtain ⟨s, d, hsk⟩ := sendAck_frame env w
  rw [hsk]
  rfl

theorem sendActiveReset_rx : rx (servalSalSendActiveReset env w).sk = rx w.sk := by
  obtain ⟨s, d, hsk⟩ := (sendActiveReset_transmits env w).sk
  rw [hsk]
  rfl

/-! ## States -/

theorem setState_rx (s : SalState) : rx (servalSockSetState w s).sk = { rx w.sk with state := s } := by
  obtain ⟨len, est, hsk⟩ := setState_frame w s
  rw [hsk]
  rfl

end

theorem setState_rexmits {s : SalState} (hs : s ≠ .closed) (hopen : w.sk.skState ≠ .closed) :
    Rexmits env i start w (servalSockSetState w s) :=
  .act (fun _ => .state hs hopen) (setState_rx w s)

theorem setClosed_rexmits : Rexmits env i start w (servalSockSetState w .closed) :=
  .act (fun _ => .closed) (setState_rx w .closed)

theorem done_rexmits (h : rx w'.sk = rx w.sk) : Rexmits env i start w (servalSalDone w') := by
  obtain ⟨len, est, tw, queue, destroyed, hqueue, hsk⟩ := done_frame w'
  have hrx : rx (servalSalDone w').sk = { rx w'.sk with
      state := .closed, xmit := none, queue := queue.map fun skb => (skb.verno, skb.flags.retrans)
      destroyed := destroyed } := by
    rw [hsk]
    rfl
  refine .act (fun _ => .done ?_) (h ▸ hrx)
  rw [← h]
  rcases hqueue with ⟨rfl, rfl⟩ | ⟨rfl, rfl⟩
  · exact .inl ⟨rfl, rfl⟩
  · exact .inr ⟨rfl, rfl⟩

theorem rcvReset_rexmits : Rexmits env i start w (servalSalRcvReset w) := by
  rw [servalSalRcvReset]
  split
  case h_3 => exact .refl
  all_goals exact done_rexmits rfl

theorem writeErr_rexmits : Rexmits env i start w (servalSalWriteErr w) := done_rexmits rfl

/-! ## The queue -/

theorem writeXmit_rx (env : Env) (w : World) (a : Answer) :
    ∃ b, rx (servalSalWriteXmit env w a).1.sk = { rx w.sk with sendHead := b } := by
  rw [servalSalWriteXmit]
  cases hq : w.sk.ctrlQueue with
  | none => exact ⟨_, rfl⟩
  | some skb =>
    simp only
    split
    · set w₁ := w.setSk { w.sk with ctrlQueue := some { skb with stamp := salTimeStamp env } } with hw₁
      have hrx : rx w₁.sk = rx w.sk := by simp [hw₁, World.setSk, rx, hq]
      have htransmit := transmit_rx env w₁ a { skb with stamp := salTimeStamp env } true
      split
      · exact ⟨_, htransmit.trans hrx⟩
      · refine ⟨false, ?_⟩
        rw [← hrx, ← htransmit]
        rfl
    · exact ⟨_, rfl⟩

theorem queueAndPush_rx (env : Env) (w : World) (a : Answer) (skb : CtrlSkb) (hnew : skb.flags.retrans = false) :
    ∃ b, rx (servalSalQueueAndPush env w a skb).1.sk = (rx w.sk).push env.now skb.verno w.sk.snd.nxt b := by
  rw [servalSalQueueAndPush]
  set w₂ := servalSockResetXmitTimer env (servalSalQueueCtrlSkb (servalSalCleanRtxQueue env w 0 true).1
    { skb with flags := skb.flags.or (servalSalCleanRtxQueue env w 0 true).2 }) w.sk.rtt.rto.toNat with hw₂
  have hrx : rx w₂.sk = (rx w.sk).push env.now skb.verno w.sk.snd.nxt true := by
    cases hq : w.sk.ctrlQueue with
    | none => simp [hw₂, servalSalCleanRtxQueue, hq, servalSockResetXmitTimer, servalSalQueueCtrlSkb, World.setSk,
        Flags.or, rx, Rx.push, Rx.again, hnew]
    | some skb' => simp [hw₂, servalSalCleanRtxQueue, hq, servalSockResetXmitTimer, servalSockClearXmitTimer,
        servalSalQueueCtrlSkb, World.setSk, Flags.or, rx, Rx.push, Rx.again, hnew]
  have hrto : (servalSalQueueCtrlSkb (servalSalCleanRtxQueue env w 0 true).1
      { skb with flags := skb.flags.or (servalSalCleanRtxQueue env w 0 true).2 }).sk.rtt = w.sk.rtt := by
    cases hq : w.sk.ctrlQueue <;> simp [servalSalCleanRtxQueue, hq, servalSalQueueCtrlSkb, World.setSk,
      servalSockClearXmitTimer]
  simp only [hrto]
  obtain ⟨b, hb⟩ := writeXmit_rx env w₂ a
  exact ⟨b, by rw [hb, hrx]; rfl⟩

theorem push_rexmits {a : Answer} {skb : CtrlSkb} (hnew : skb.flags.retrans = false)
    (hrx : rx w'.sk = { rx w.sk with nxt := w'.sk.snd.nxt })
    (hnxt : w'.sk.snd.nxt = skb.verno ∨ w'.sk.snd.nxt = skb.verno + 1) :
    Rexmits env i start w (servalSalQueueAndPush env w' a skb).1 := by
  intro n
  obtain ⟨b, hpush⟩ := queueAndPush_rx env w' a skb hnew
  rw [hrx] at hpush
  exact ⟨0, hpush ▸ (Act.push hnxt).acts⟩

theorem sendFin_rexmits : Rexmits env i start w (servalSalSendFin env w).1 := by
  rw [sendFin_pushes]
  exact push_rexmits (by cases w.sk.salState <;> rfl) rfl (.inr rfl)

theorem migrate_rexmits {dev : ℕ} (hi : i = .event (.migrate dev)) :
    Rexmits env i (rx w.sk) w (servalSockMigrate env w dev).1 := by
  cases hrefuses : refusesRsyn w.sk.skState
  · rw [migrate_pushes env w dev hrefuses]
    exact push_rexmits rfl rfl (.inr rfl)
  · rw [migrate_refused env w dev hrefuses]
    exact .act (fun _ => .burn hi hrefuses) rfl

theorem rexmit_rx (env : Env) (w : World) :
    rx (servalSalRexmit env w).sk = { rx w.sk with queue := (rx w.sk).queue.map fun q => (q.1, true) } := by
  rw [servalSalRexmit]
  cases hq : w.sk.ctrlQueue with
  | none => simp [rx, hq]
  | some skb =>
    refine (transmit_rx ..).trans ?_
    simp [rx, hq, World.setSk]

theorem rexmitTimeout_rx (hne : w.sk.retransmits.toNat ≠ env.maxRetransmits) :
    rx (servalSalRexmitTimeout env w).sk = (rx w.sk).rexmit env.now := by
  have hrx := rexmit_rx env w
  rw [servalSalRexmitTimeout, if_neg hne]
  generalize servalSalRexmit env w = w₁ at hrx ⊢
  have hretransmits : w₁.sk.retransmits = w.sk.retransmits := congrArg Rx.retransmits hrx
  have hrtt : w₁.sk.rtt = w.sk.rtt := congrArg Rx.rtt hrx
  have hfields (timer : Option ℕ) (retransmits : UInt8) (rtt : Rtt) :
      rx { w₁.sk with retransmits := retransmits, rtt := rtt, timers := { w₁.sk.timers with xmit := timer } } =
        { rx w₁.sk with retransmits := retransmits, rtt := rtt, xmit := timer } := rfl
  simp only [servalSockResetXmitTimer, World.setSk, hrtt, hretransmits]
  rw [hfields, hrx]
  rfl

theorem rexmitTimeout_rexmits (hi : i = .event .rexmitTimeout) (harmed : w.sk.timers.xmit.isSome = true) :
    Rexmits env i (rx w.sk) w (servalSalRexmitTimeout env w) := by
  by_cases hmax : w.sk.retransmits.toNat = env.maxRetransmits
  · rw [servalSalRexmitTimeout, if_pos hmax]
    exact writeErr_rexmits
  · exact fun n => ⟨n + 1, rexmitTimeout_rx hmax ▸ (Act.rexmit hi harmed hmax).acts⟩

theorem keepaliveTimeout_rexmits {owned keepopen : Bool} :
    Rexmits env i start w (servalSalKeepaliveTimeout env w owned keepopen) := by
  rcases keepaliveTimeout_cases env w owned keepopen with ⟨timer, h⟩ | ⟨h, -⟩ <;> rw [h]
  · exact .of_eq rfl
  · exact done_rexmits rfl

theorem close_rexmits : Rexmits env i start w (servalSalClose env w) := by
  rcases close_cases env w with ⟨s, hstate, hfinish⟩ | hsame | hdone
  · have hs : s ≠ .closed ∧ w.sk.skState ≠ .closed := by
      rcases hstate with ⟨h, rfl⟩ | ⟨h | h, rfl⟩
      all_goals exact ⟨by simp, by simp [h]⟩
    generalize servalSalClose env w = w' at hfinish
    refine (setState_rexmits hs.1 hs.2).trans ?_
    cases hfinish with
    | fin => exact sendFin_rexmits
    | reset => exact setClosed_rexmits.trans (.of_eq (sendActiveReset_rx ..))
    | transport => exact .refl
  · rw [hsame]
    exact .refl
  · rw [hdone]
    exact done_rexmits rfl

theorem transportCall_rexmits {call : TransportCall} (hcall : Makes env i call) :
    Rexmits env i start w (transportCall env w call) := by
  cases call with
  | sendFin => exact sendFin_rexmits
  | sendActiveReset => exact .of_eq (sendActiveReset_rx ..)
  | rcvReset => exact rcvReset_rexmits
  | writeErr => exact writeErr_rexmits
  | done => exact done_rexmits rfl
  | updateRtt m => exact .act (fun _ => .sample hcall) rfl

theorem transportCall_state {call : TransportCall} (h : closes call = false) :
    (transportCall env w call).sk.skState = w.sk.skState := by
  cases call with
  | sendFin =>
    have hflags : (finFlags w.sk.salState).retrans = false := by cases w.sk.salState <;> rfl
    rw [transportCall, sendFin_pushes]
    obtain ⟨b, hb⟩ := queueAndPush_rx env _ _ ⟨finFlags w.sk.salState, w.sk.snd.nxt, 0, false⟩ hflags
    exact congrArg Rx.state hb
  | sendActiveReset => exact congrArg Rx.state (sendActiveReset_rx env w)
  | updateRtt => rfl
  | rcvReset | writeErr | done => cases h

section Packet
variable {p : Packet} (hi : i = .event (.packet p))
include hi

theorem transportReceive_rexmits : Rexmits env i start w (transportReceive env w) := by
  have hcalls (calls : List TransportCall) (hmem : ∀ call ∈ calls, call ∈ env.transport.receive) (w : World) :
      Rexmits env i start w (calls.foldl (transportCall env) w) := by
    induction calls generalizing w with
    | nil => exact .refl
    | cons call calls ih =>
      have hmakes : Makes env i call := ⟨_, hi, .inr ⟨p, rfl, hmem call (by simp)⟩⟩
      exact (transportCall_rexmits hmakes).trans (ih (fun c hc => hmem c (by simp [hc])) _)
  exact hcalls _ (fun _ h => h) w

omit hi in
theorem transportReceive_state (h : ∀ call ∈ env.transport.receive, closes call = false) :
    (transportReceive env w).sk.skState = w.sk.skState := by
  rw [transportReceive]
  generalize env.transport.receive = calls at h
  induction calls generalizing w with
  | nil => rfl
  | cons call calls ih =>
    exact (ih fun c hc => h c (by simp [hc])).trans (transportCall_state (h call (by simp)))

omit hi in
theorem rcvFin_rx : rx (servalSalRcvFin env w p).1.sk = rx w.sk := by
  rw [servalSalRcvFin]
  split
  · rfl
  · exact sendAck_rx ..

omit hi in
theorem rcvRsynack_rx : rx (servalSalRcvRsynack env w p).1.sk = rx w.sk := by
  obtain ⟨_, _, _, _, _, _, -, hsk⟩ := rcvRsynack_frame env w p
  rw [hsk]
  rfl

omit hi in
theorem rcvRsyn_rx : rx (servalSalRcvRsyn env w p).1.sk = rx w.sk ∨
    ∃ b, rx (servalSalRcvRsyn env w p).1.sk = (rx w.sk).push env.now w.sk.snd.nxt w.sk.snd.nxt b := by
  rcases rcvRsyn_cases env w p with h | ⟨-, -, w₁, a, hsk, -, h⟩
  · exact .inl (by rw [h])
  · have hrx : rx w₁.sk = rx w.sk := by rw [hsk]; rfl
    have hnxt : w₁.sk.snd.nxt = w.sk.snd.nxt := congrArg Rx.nxt hrx
    rcases h with h | h <;> rw [h]
    · exact .inl hrx
    · obtain ⟨b, hb⟩ := queueAndPush_rx env w₁ a
        ⟨{ rsyn := true, ack := true }, w₁.sk.snd.nxt, salTimeStamp env, false⟩ rfl
      exact .inr ⟨b, by rw [hb, hrx, hnxt]⟩

/-! ### Acknowledgments -/

omit hi in
theorem ackAccept_rx : rx (ackAccept env w p).sk =
    { rx (servalSalCleanRtxQueue env w p.ackno (migrating w.sk.salState)).1.sk with una := p.ackno } := by
  rw [ackAccept]
  generalize (servalSalCleanRtxQueue env w p.ackno (migrating w.sk.salState)).1 = w₁
  obtain ⟨⟨⟩, out, tape⟩ := w₁
  cases ‹RsynState› <;> cases p.flags.rsyn <;> rfl

omit hi in
theorem ackProcess_rexmits (hagain : start.again = true → (rx w.sk).again = true) :
    Rexmits env i start w (servalSalAckProcess env w p).1 := by
  rw [servalSalAckProcess]
  split
  next hacceptable =>
    have hold : before p.ackno w.sk.snd.una = false := by
      simp only [ackAcceptable, Bool.and_eq_true, Bool.not_eq_true'] at hacceptable
      exact hacceptable.1.2
    have hrx := @ackAccept_rx env w p
    rw [servalSalCleanRtxQueue] at hrx
    cases hq : w.sk.ctrlQueue with
    | none =>
      rw [hq] at hrx
      exact .act (fun _ => .ackIdle (by simp [rx, hq])) hrx
    | some skb =>
      have hqueue : (rx w.sk).queue = some (skb.verno, skb.flags.retrans) := by simp [rx, hq]
      have hinherits : start.again = true → skb.flags.retrans = true := by simpa [Rx.again, hqueue] using hagain
      simp only [hq] at hrx
      by_cases hremoved : (after p.ackno skb.verno || migrating w.sk.salState) = true
      · rw [if_pos hremoved] at hrx
        refine fun n => ⟨0, hrx ▸ (Act.ackRemoved hqueue hinherits ?_).acts⟩
        by_cases hretrans : (skb.flags.retrans || migrating w.sk.salState) = true
        · exact .inl (if_pos hretrans)
        · refine .inr ⟨by simpa using (Bool.or_eq_false_iff.mp (by simpa using hretrans)).1, _, if_neg hretrans⟩
      · rw [if_neg hremoved] at hrx
        exact .act (fun _ => .ackKept hqueue hold (Bool.or_eq_false_iff.mp (by simpa using hremoved)).1) hrx
  · exact .refl

/-! ### States -/

variable (hagain : start.again = true → (rx w.sk).again = true)
include hagain

omit hi in
theorem request_rexmits (hopen : w.sk.skState ≠ .closed) :
    Rexmits env i start w (servalSalRequestStateProcess env w p) := by
  rcases requestStateProcess_cases env w p with h | ⟨ctrl, hctrl, hanswers⟩
  · rw [h]
    exact .refl
  · rw [requestStateProcess_answers hctrl hanswers]
    have hack : (servalSalAckProcess env w p).1 = ackAccept env w p := by
      rw [servalSalAckProcess, if_pos hanswers.acceptable]
    refine (ackProcess_rexmits (p := p) hagain).trans ?_
    have hstate := (@ackProcess_frame env w p).2
    rw [hack] at hstate ⊢
    simp only
    split
    · exact .of_eq rfl
    · have hconnect := (@requestConnect_cases env (servalSockSetState ((ackAccept env w p).setSk
        (requestAnswered (ackAccept env w p).sk p ctrl)) .connected) rfl).1
      exact .act (fun _ => .state (by simp) (hstate.trans_ne hopen)) ((congrArg rx hconnect).trans (setState_rx ..))

omit hagain in
theorem rexmits_stages (hstart : start.state = w.sk.skState) : Stages env p w.sk.skState True
    (fun w' => Rexmits env i start w w' ∧ w'.sk.skState = w.sk.skState ∧ (start.again = true → (rx w'.sk).again = true))
    (fun w' => Rexmits env i start w w' ∧ w'.sk.skState = w.sk.skState)
    (fun w' => Rexmits env i start w w' ∧ w'.sk.skState = w.sk.skState)
    (fun w' => Rexmits env i start w w' ∧ (w.sk.skState = .connected → w'.sk.skState = .connected))
    (fun w' => Rexmits env i start w w' ∧ (w.sk.skState = .connected →
      (∀ call ∈ env.transport.receive, closes call = false) → w'.sk.skState ≠ .closed)) where
  ackFirst {w'} h := by
    have hrx := sendAck_rx env w'
    exact ⟨h.1.trans (.of_eq hrx), (congrArg Rx.state hrx).trans h.2.1, fun ha => by rw [hrx]; exact h.2.2 ha⟩
  accept _ _ := trivial
  process _ h := ⟨h.1.trans (ackProcess_rexmits h.2.2), ackProcess_frame.2.trans h.2.1⟩
  unprocessed h := ⟨h.1, h.2.1⟩
  fin _ h := ⟨h.1.trans (.of_eq rcvFin_rx), (congrArg Rx.state rcvFin_rx).trans h.2⟩
  respond _ h := ⟨h.1.trans (.of_eq rfl), h.2⟩
  noFin h := h
  state hnext h := by
    obtain ⟨-, hnot, hopen, hconn, -⟩ := next_spec hnext
    exact ⟨h.1.trans (setState_rexmits hnot (h.2.trans_ne hopen)), fun hs => absurd hs hconn⟩
  sameState h := ⟨h.1, h.2.trans⟩
  timer h := ⟨h.1.trans (.of_eq rfl), h.2⟩
  ackLast h := ⟨h.1.trans (.of_eq (sendAck_rx ..)), fun hs => (congrArg Rx.state (sendAck_rx ..)).trans (h.2 hs)⟩
  receive h := ⟨h.1.trans (transportReceive_rexmits hi), fun hs hquiet => by
    simp [transportReceive_state hquiet, h.2 hs]⟩
  noReceive h := ⟨h.1, fun hs _ => by simp [h.2 hs]⟩
  closewait {w'} hs hfin h := by
    refine ⟨h.1.trans ?_, fun _ _ => (congrArg Rx.state (setState_rx w' .closewait)).trans_ne (by simp)⟩
    -- the state is set whatever the transport has done to the socket
    by_cases hquiet : ∀ call ∈ env.transport.receive, closes call = false
    · exact setState_rexmits (by simp) (h.2 hs hquiet)
    · push Not at hquiet
      obtain ⟨call, hcall, hcloses⟩ := hquiet
      exact .act (fun _ => .revive (hstart.trans hs) ⟨p, hi, hfin⟩ hcall (by simpa using hcloses)) (setState_rx ..)
  done hs _ h := ⟨h.1.trans (done_rexmits rfl), fun hc => by simp [hs] at hc⟩
  reset hs h := ⟨h.1.trans (.of_eq (congrArg rx sendReset_sent.1)), fun hc => by simp [hs] at hc⟩
  request hs h := ⟨h.1.trans (request_rexmits h.2.2 (by simp [h.2.1, hs])), fun hc => by simp [hs] at hc⟩

theorem dispatch_rexmits (hstart : start.state = w.sk.skState) : Rexmits env i start w (dispatch env w p) :=
  ((rexmits_stages hi hstart).dispatch rfl ⟨.refl, rfl, hagain⟩).1

omit hi hagain in
/-- The part that all states share keeps the state where it goes on, and the mark of a packet that
was sent again. -/
theorem controlProcess_rexmits : Rexmits env i (rx w.sk) w (controlProcess env w p).1 ∧
      ((controlProcess env w p).2 = true → (controlProcess env w p).1.sk.skState = w.sk.skState ∧
        ((rx w.sk).again = true → (rx (controlProcess env w p).1.sk).again = true)) := by
  have hsame {w' : World} {b : Bool} (hrx : rx w'.sk = rx w.sk) : Rexmits env i (rx w.sk) w w' ∧
      (b = true → w'.sk.skState = w.sk.skState ∧ ((rx w.sk).again = true → (rx w'.sk).again = true)) :=
    ⟨.of_eq hrx, fun _ => ⟨congrArg Rx.state hrx, fun h => by rwa [hrx]⟩⟩
  rw [controlProcess]
  split
  · exact hsame rfl
  · split
    · exact hsame (sendAck_rx env w)
    · split
      · exact ⟨rcvReset_rexmits, by simp⟩
      · split
        · split
          · exact hsame rcvRsynack_rx
          · rcases @rcvRsyn_rx env w p with hrx | ⟨b, hrx⟩
            · exact hsame hrx
            · exact ⟨fun n => ⟨0, hrx ▸ (Act.push (.inl rfl)).acts⟩, fun _ => ⟨congrArg Rx.state hrx, by
                rw [hrx]
                exact id⟩⟩
        · exact hsame rfl

omit hi hagain in
theorem listenEffect_rx {sk sk' : Sock} (h : ListenEffect env p sk sk') : rx sk' = rx sk := by
  cases h with
  | unchanged => rfl
  | added rsk _ timers hxmit | moved rsk _ timers hxmit => simp only [rx, hxmit]

omit hagain in
theorem stateProcess_rexmits {child : Option World} (h : servalSalStateProcess env w p = some (w', child)) :
    Rexmits env i (rx w.sk) w w' := by
  obtain ⟨hcontrol, hgo⟩ := @controlProcess_rexmits env i w p
  rw [servalSalStateProcess] at h
  rcases hr : controlProcess env w p with ⟨w₁, go⟩
  rw [hr] at hcontrol hgo h
  cases go
  · cases h
    exact hcontrol
  · obtain ⟨hstate, hagain⟩ := hgo rfl
    simp only [Bool.not_true, Bool.false_eq_true, if_false] at h
    refine hcontrol.trans ?_
    split at h
    · exact .of_eq (listenEffect_rx (listenStateProcess_effect h).1)
    · cases h
      exact dispatch_rexmits hi hagain hstate.symm

end Packet

/-! ## Inputs -/

def stepIn (env : Env) (w : World) : Input → Option World
  | .event e => step env w e
  | .connect srvid addr => some (if w.sk.skState = .listen then w else servalConnect env w srvid addr)

theorem connect_rexmits {srvid : ServiceId} {addr : Option Addr} (hi : i = .connect srvid addr) :
    Rexmits env i start w (servalConnect env w srvid addr) := by
  have hmakes : ∃ srvid addr, i = .connect srvid addr := ⟨srvid, addr, hi⟩
  obtain ⟨w₁, hsk, -, heq⟩ := connect_sendSyn env w srvid addr
  have hrx : rx w₁.sk = { rx w.sk with state := .request } := by
    rw [hsk]
    rfl
  -- nothing has been sent: the state is set to CLOSED on an error
  have hclosed {w' : World} (hw' : rx w'.sk = rx w₁.sk) : Rexmits env i start w (servalSockSetState w' .closed) :=
    .act (fun _ => .closed) (by rw [setState_rx, hw', hrx])
  rw [heq]
  rcases sendSyn_cases env w₁ w.sk.snd.iss with hsyn | ⟨hbuild, hsyn⟩ | hsyn <;> rw [hsyn]
  · rw [if_pos (show -ENOMEM < 0 by decide)]
    exact hclosed rfl
  · dsimp only
    split
    · exact hclosed rfl
    next herr => exact .act (fun _ => .connectFailed hmakes (by omega)) hrx
  · obtain ⟨b, hpush⟩ := queueAndPush_rx env
      { w₁ with sk := { w₁.sk with snd := { w₁.sk.snd with nxt := w.sk.snd.iss + 1 } }, tape := w₁.tape.tail }
      (w₁.tape.headD {}) ⟨{ syn := true }, w.sk.snd.iss, 0, true⟩ rfl
    generalize servalSalQueueAndPush env _ _ _ = r at hpush
    have hconnect : Rexmits env i start w r.1 := by
      refine fun n => ⟨0, ?_⟩
      rw [hpush]
      change Acts env i start (rx w.sk) n ((rx w₁.sk).push env.now w.sk.snd.iss (w.sk.snd.iss + 1) b) 0
      rw [hrx]
      exact (Act.connect hmakes).acts
    split
    · exact hconnect.trans setClosed_rexmits
    · exact hconnect

theorem stepIn_rexmits (h : stepIn env w i = some w')
    (harmed : i = .event .rexmitTimeout → w.sk.timers.xmit.isSome = true) : Rexmits env i (rx w.sk) w w' := by
  cases i with
  | connect srvid addr =>
    cases h
    split
    · exact .refl
    · exact connect_rexmits rfl
  | event e =>
    cases e with
    | packet p =>
      obtain ⟨⟨w₁, child⟩, hp, rfl⟩ := Option.map_eq_some_iff.mp h
      exact stateProcess_rexmits rfl hp
    | close =>
      cases h
      exact close_rexmits
    | migrate dev =>
      cases h
      exact migrate_rexmits rfl
    | rexmitTimeout =>
      cases h
      exact rexmitTimeout_rexmits rfl (harmed rfl)
    | timewaitTimeout =>
      cases h
      exact done_rexmits rfl
    | keepaliveTimeout owned keepopen =>
      cases h
      exact keepaliveTimeout_rexmits
    | transport call =>
      cases h
      exact transportCall_rexmits ⟨_, rfl, .inl rfl⟩
    | orphan =>
      cases h
      exact .of_eq rfl

end SalRexmitRefine
