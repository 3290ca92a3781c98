import Serval.SalTeardown

/-! # Packets with a wrong nonce

The nonce is looked at where a FIN or an RSYN is processed, and not where the packet arrives.
-/
namespace SalNonce

open SerialNumber SalSocket SalInput SalControl SalRefine SalRuns SalListen

variable {env : Env} {w : World} {p : Packet} {sk sk' : Sock}

structure Unchanged (sk sk' : Sock) : Prop where
  skState : sk'.skState = sk.skState
  salState : sk'.salState = sk.salState
  saddr : sk'.saddr = sk.saddr
  daddr : sk'.daddr = sk.daddr
  migDaddr : sk'.migDaddr = sk.migDaddr
  snd : sk'.snd = sk.snd
  rcv : sk'.rcv = sk.rcv
  ctrlQueue : sk'.ctrlQueue = sk.ctrlQueue
  skErr : sk'.skErr = sk.skErr

theorem unchanged_of_eq (h : sk' = sk) : Unchanged sk sk' := by
  rw [h]
  exact ⟨rfl, rfl, rfl, rfl, rfl, rfl, rfl, rfl, rfl⟩

def HasPeer (sk : Sock) : Prop := sendsAtOnce sk.skState = true ∨ sk.daddr ≠ 0

theorem sendAck_sk (h : HasPeer w.sk) : (servalSalSendAck env w).1.sk = w.sk := by
  have htransmits := sendAck_transmits env w
  obtain ⟨s, d, hsk⟩ := htransmits.sk
  obtain ⟨ms, -, hxmit⟩ := htransmits.sent_out
  rw [hsk] at hxmit ⊢
  have hd : d = w.sk.daddr := hxmit.daddr h
  have hs : s = w.sk.saddr := (hxmit.saddr h).resolve_right (by simp)
  rw [hs, hd]

theorem ackIf_sk {b : Bool} (h : b = true → HasPeer w.sk) :
    (if b then (servalSalSendAck env w).1 else w).sk = w.sk := by
  cases b
  · rfl
  · exact sendAck_sk (h rfl)

/-! ## Acknowledgments -/

/-- An acknowledgment that says nothing new. -/
structure Repeats (sk : Sock) (p : Packet) : Prop where
  una : p.ackno = sk.snd.una
  ctrlQueue : ∀ skb, sk.ctrlQueue = some skb → (after p.ackno skb.verno || migrating sk.salState) = false
  salState : migrating sk.salState = true → p.flags.rsyn = true

theorem Repeats.accept (env : Env) (h : Repeats w.sk p) : ∃ t, (ackAccept env w p).sk = { w.sk with timers := t } := by
  have hclean : ∃ t, (servalSalCleanRtxQueue env w p.ackno (migrating w.sk.salState)).1.sk =
      { w.sk with timers := t } := by
    rw [servalSalCleanRtxQueue]
    split
    · exact ⟨_, rfl⟩
    next skb hq =>
      rw [h.ctrlQueue skb hq]
      exact ⟨_, rfl⟩
  obtain ⟨t, ht⟩ := hclean
  refine ⟨t, ?_⟩
  have hsal := h.salState
  rw [ackAccept]
  generalize (servalSalCleanRtxQueue env w p.ackno (migrating w.sk.salState)).1 = w₁ at ht ⊢
  obtain ⟨sk₁, out, tape⟩ := w₁
  obtain rfl : sk₁ = _ := ht
  simp only [World.setSk, h.una]
  cases hs : w.sk.salState <;> simp_all [migrating]

theorem Repeats.unchanged (h : Repeats w.sk p) : Unchanged w.sk (ackAccept env w p).sk := by
  obtain ⟨t, ht⟩ := h.accept env
  rw [ht]
  exact ⟨rfl, rfl, rfl, rfl, rfl, rfl, rfl, rfl, rfl⟩

theorem repeats_of_accept (hsnd : (ackAccept env w p).sk.snd = w.sk.snd)
    (hqueue : (ackAccept env w p).sk.ctrlQueue = w.sk.ctrlQueue)
    (hsal : (ackAccept env w p).sk.salState = w.sk.salState) : Repeats w.sk p := by
  have hctl := ackAccept_ctl env w p
  obtain ⟨s, d, m, hframe⟩ := (ctl w.sk).accept_frame p
  have hsettled := (ctl w.sk).accept_salState p
  rw [← hctl] at hsettled hframe
  refine ⟨?_, fun skb hq => ?_, fun hmigrating => ?_⟩
  · rw [← hsnd]
    exact (congrArg Ctl.una hframe).symm
  · have hkept : (ctl w.sk).acked p.ackno = (ctl w.sk).queue :=
      (congrArg Ctl.queue hframe).symm.trans (by simp only [ctl, hqueue])
    simpa [ctl, Ctl.acked, hq] using hkept
  · have hsame : settled w.sk.salState p.flags.rsyn = w.sk.salState := hsettled.symm.trans hsal
    cases hs : w.sk.salState <;> cases hr : p.flags.rsyn <;> simp_all [migrating, settled]

theorem accept_unchanged_iff : Unchanged w.sk (ackAccept env w p).sk ↔ Repeats w.sk p :=
  ⟨fun h => repeats_of_accept h.snd h.ctrlQueue h.salState, Repeats.unchanged⟩

theorem ackProcess_unchanged_iff :
    Unchanged w.sk (servalSalAckProcess env w p).1.sk ↔ (ackAcceptable w.sk p = true → Repeats w.sk p) := by
  rw [servalSalAckProcess]
  split
  next h => simp only [h, true_imp_iff, accept_unchanged_iff]
  next h => exact iff_of_true (unchanged_of_eq rfl) fun hack => absurd hack h

theorem ackProcess_valid : hasValidControlExtension (servalSalAckProcess env w p).1.sk p =
    hasValidControlExtension w.sk p := by
  have hnonce : (servalSalAckProcess env w p).1.sk.peerNonce = w.sk.peerNonce := by
    rw [servalSalAckProcess]
    split
    · obtain ⟨s, d, m, hframe⟩ := (ctl w.sk).accept_frame p
      exact congrArg Ctl.peerNonce ((ackAccept_ctl env w p).trans hframe)
    · rfl
  simp only [hasValidControlExtension, hnonce]

/-! ## The states -/

/-- A SYN passes the check of the control extension with any nonce. -/
def unchecked (p : Packet) : Bool :=
  match p.ctrl with
  | none => false
  | some ctrl => ctrl.length = 20 && ctrl.flags.syn

/-- What the state does with a packet that has a wrong nonce leaves the socket as it is. -/
def Idle (env : Env) (sk : Sock) (p : Packet) : Prop :=
  match sk.skState with
  | .connected => (p.flags.fin = true → unchecked p = false) ∧
      (ackAcceptable sk p = true → Repeats sk p)
  | .closewait => ackAcceptable sk p = true → Repeats sk p
  | .finwait1 => (p.flags.fin = true → unchecked p = false) ∧
      (ackAcceptable sk p = true → p.flags.fin = true ∧ Repeats sk p)
  | .finwait2 => p.flags.fin = true → unchecked p = false
  | .respond => unchecked p = true → ackAcceptable sk p = true →
      Repeats sk p ∧ p.saddr = sk.daddr ∧ env.transport.respondState ≠ 0
  | .closing | .lastack => ackAcceptable sk p = false
  | _ => True

theorem rcvFin_invalid (h : hasValidControlExtension w.sk p = false) : servalSalRcvFin env w p = (w, -1) := by
  simp [servalSalRcvFin, h]

theorem rcvFin_valid (h : hasValidControlExtension w.sk p = true) :
    (servalSalRcvFin env w p).1.sk.rcv.nxt = p.verno + 1 := by
  obtain ⟨s, d, hsk⟩ := sendAck_frame env (finReceived w p)
  simp only [servalSalRcvFin, h, Bool.not_true, Bool.false_eq_true, if_false, hsk]
  rfl

/-- A number that is not old is not the one before the expected one. -/
theorem not_unchanged_of_rcv (hverno : before p.verno sk.rcv.nxt = false) (h : sk'.rcv.nxt = p.verno + 1) :
    ¬Unchanged sk sk' := by
  intro hsame
  rw [← hsame.rcv, h] at hverno
  simp [before] at hverno

section

variable (hreceive : p.transport = true ∨ p.flags.fin = true → env.transport.receive = [])
  (hpeer : p.flags.fin = true → HasPeer w.sk) (hverno : p.flags.fin = true → before p.verno w.sk.rcv.nxt = false)

include hreceive in
theorem receiveIf_eq {b : Bool} (w : World) (hb : b = true → p.transport = true ∨ p.flags.fin = true) :
    (if b then transportReceive env w else w) = w := by
  split
  next h => simp [transportReceive, hreceive (hb h)]
  · rfl

include hreceive hverno

theorem connected_unchanged_iff : Unchanged w.sk (servalSalConnectedStateProcess env w p).sk ↔
    (p.flags.fin = true → hasValidControlExtension w.sk p = false) ∧
      (ackAcceptable w.sk p = true → Repeats w.sk p) := by
  have hvalid := @ackProcess_valid env w p
  rw [← @ackProcess_unchanged_iff env, servalSalConnectedStateProcess]
  generalize (servalSalAckProcess env w p).1 = w₁ at hvalid ⊢
  simp only
  rw [receiveIf_eq hreceive _ (by simp)]
  cases hfin : p.flags.fin
  · simp
  · cases hV : hasValidControlExtension w₁.sk p
    · simp [rcvFin_invalid hV, ← hvalid, hV]
    · have hrcv := @rcvFin_valid env w₁ p hV
      refine iff_of_false (not_unchanged_of_rcv (hverno hfin) ?_) (by simp [← hvalid, hV])
      simp only [if_true]
      split
      · exact hrcv
      · exact hrcv

theorem finwait1_unchanged_iff (hs : w.sk.skState = .finwait1) :
    Unchanged w.sk (servalSalFinwait1StateProcess env w p).sk ↔
      (p.flags.fin = true → hasValidControlExtension w.sk p = false) ∧
        (ackAcceptable w.sk p = true → p.flags.fin = true ∧ Repeats w.sk p) := by
  have hvalid := @ackProcess_valid env w p
  have hiff := @ackProcess_unchanged_iff env w p
  have hack : (servalSalAckProcess env w p).2 = 0 ↔ ackAcceptable w.sk p = true := by
    rw [servalSalAckProcess]
    split <;> simp_all
  rw [servalSalFinwait1StateProcess]
  generalize servalSalAckProcess env w p = r at hvalid hiff hack ⊢
  obtain ⟨w₁, err⟩ := r
  simp only at hvalid hiff hack ⊢
  rw [receiveIf_eq hreceive _ (by simp)]
  cases hfin : p.flags.fin
  · by_cases herr : err = 0
    · have hmoved : ∀ w₂ : World, w₂.sk.skState = .finwait2 → ¬Unchanged w.sk w₂.sk := by
        intro w₂ h hsame
        simp [hsame.skState, hs] at h
      refine iff_of_false (hmoved _ ?_) fun h => by simpa using (h.2 (hack.mp herr)).1
      simp only [herr, Bool.false_eq_true, if_false, decide_true, if_true]
      rfl
    · have hrefused : ackAcceptable w.sk p ≠ true := fun h => herr (hack.mpr h)
      simpa [herr, hrefused] using hiff
  · cases hV : hasValidControlExtension w₁.sk p
    · simp [rcvFin_invalid hV, ← hvalid, hV, hiff]
    · have hrcv := @rcvFin_valid env w₁ p hV
      refine iff_of_false (not_unchanged_of_rcv (hverno hfin) ?_) (by simp [← hvalid, hV])
      simp only [if_true]
      split
      · split <;> exact hrcv
      · exact hrcv

theorem finwait2_unchanged_iff : Unchanged w.sk (servalSalFinwait2StateProcess env w p).sk ↔
    (p.flags.fin = true → hasValidControlExtension w.sk p = false) := by
  rw [servalSalFinwait2StateProcess]
  simp only
  rw [receiveIf_eq hreceive _ (by simp)]
  cases hfin : p.flags.fin
  · simp [unchanged_of_eq]
  · cases hV : hasValidControlExtension w.sk p
    · simp [rcvFin_invalid hV, unchanged_of_eq]
    · have hrcv := @rcvFin_valid env w p hV
      refine iff_of_false (not_unchanged_of_rcv (hverno hfin) ?_) (by simp)
      simp only [if_true]
      split
      · exact hrcv
      · exact hrcv

omit hverno
include hpeer

theorem closewait_unchanged_iff : Unchanged w.sk (servalSalClosewaitStateProcess env w p).sk ↔
    (ackAcceptable w.sk p = true → Repeats w.sk p) := by
  have hsent : (if p.flags.fin then (servalSalSendAck env w).1 else w).sk = w.sk := ackIf_sk hpeer
  rw [servalSalClosewaitStateProcess, receiveIf_eq hreceive _ .inl, ← hsent]
  exact ackProcess_unchanged_iff

theorem closing_unchanged_iff (hs : w.sk.skState = .closing) :
    Unchanged w.sk (servalSalClosingStateProcess env w p).sk ↔ ackAcceptable w.sk p = false := by
  rw [servalSalClosingStateProcess]
  simp only
  rw [receiveIf_eq hreceive _ .inl]
  cases hack : ackAcceptable w.sk p
  · rw [SalTeardown.ackProcess_refused hack]
    exact iff_of_true (unchanged_of_eq (ackIf_sk hpeer)) rfl
  · rw [SalTeardown.ackProcess_accepted hack]
    refine iff_of_false (fun hsame => ?_) (by simp)
    have hstate := hsame.skState
    rw [SalTeardown.ackIf_same.skState, hs] at hstate
    cases hstate

theorem lastack_unchanged_iff (hs : w.sk.skState = .lastack) :
    Unchanged w.sk (servalSalLastackStateProcess env w p).sk ↔ ackAcceptable w.sk p = false := by
  have hsent : (if p.flags.fin then (servalSalSendAck env w).1 else w).sk = w.sk := ackIf_sk hpeer
  rw [servalSalLastackStateProcess, ← hsent]
  simp only
  rw [receiveIf_eq hreceive _ .inl]
  generalize (if p.flags.fin then (servalSalSendAck env w).1 else w) = w₁ at hsent ⊢
  cases hack : ackAcceptable w₁.sk p
  · rw [SalTeardown.ackProcess_refused hack]
    exact iff_of_true (unchanged_of_eq rfl) rfl
  · rw [SalTeardown.ackProcess_accepted hack]
    refine iff_of_false (fun hsame => ?_) (by simp)
    have hstate := hsame.skState
    simp [SalTeardown.done_skState, hsent, hs] at hstate

omit hreceive hpeer in
theorem respond_unchanged_iff (hs : w.sk.skState = .respond) :
    Unchanged w.sk (servalSalRespondStateProcess env w p).sk ↔
      (hasValidControlExtension w.sk p = true → ackAcceptable w.sk p = true →
        Repeats w.sk p ∧ p.saddr = w.sk.daddr ∧ env.transport.respondState ≠ 0) := by
  rw [servalSalRespondStateProcess]
  cases hV : hasValidControlExtension w.sk p
  · simp [unchanged_of_eq]
  · cases hack : ackAcceptable w.sk p
    · simp [SalTeardown.ackProcess_refused hack, unchanged_of_eq]
    · rw [SalTeardown.ackProcess_accepted hack]
      simp only [Bool.not_true, Bool.false_eq_true, if_false, true_imp_iff, ne_eq, not_true]
      split
      next htransport =>
        refine ⟨fun h => ⟨repeats_of_accept h.snd h.ctrlQueue h.salState, h.daddr, htransport⟩, fun h => ?_⟩
        obtain ⟨t, ht⟩ := h.1.accept env
        exact ht ▸ ⟨rfl, rfl, rfl, h.2.1, rfl, rfl, rfl, rfl, rfl⟩
      next htransport =>
        refine iff_of_false (fun hsame => ?_) fun h => htransport h.2.2
        have hstate := hsame.skState
        rw [hs] at hstate
        cases hstate

end

theorem dispatch_unchanged_iff (hlisten : w.sk.skState ≠ .listen) (hrequest : w.sk.skState ≠ .request)
    (hclosed : w.sk.skState ≠ .closed) (hvalid : hasValidControlExtension w.sk p = unchecked p)
    (hreceive : p.transport = true ∨ p.flags.fin = true → env.transport.receive = [])
    (hpeer : p.flags.fin = true → HasPeer w.sk) (hverno : p.flags.fin = true → before p.verno w.sk.rcv.nxt = false) :
    Unchanged w.sk (dispatch env w p).sk ↔ Idle env w.sk p := by
  rw [dispatch, Idle, ← hvalid]
  cases hs : w.sk.skState with
  | listen => exact absurd hs hlisten
  | request => exact absurd hs hrequest
  | closed => exact absurd hs hclosed
  | init =>
    refine iff_of_true (unchanged_of_eq ?_) trivial
    simp only [servalSalInitStateProcess, receiveIf_eq hreceive _ .inl, ite_self]
  | timewait => exact iff_of_true (unchanged_of_eq (ackIf_sk hpeer)) trivial
  | connected => exact connected_unchanged_iff hreceive hverno
  | respond => exact respond_unchanged_iff hs
  | finwait1 => exact finwait1_unchanged_iff hreceive hverno hs
  | finwait2 => exact finwait2_unchanged_iff hreceive hverno
  | closing => exact closing_unchanged_iff hreceive hpeer hs
  | lastack => exact lastack_unchanged_iff hreceive hpeer hs
  | closewait => exact closewait_unchanged_iff hreceive hpeer

/-! ## The control extension -/

def RsynackHarmless (env : Env) (sk : Sock) (p : Packet) : Prop :=
  sk.salState ≠ .sentRecv ∧ (sk.salState = .sent → env.devs sk.migDevIf = none ∨ p.ackno ≠ sk.snd.una + 1)

theorem rcvRsynack_sk (h : RsynackHarmless env w.sk p) (hpeer : HasPeer w.sk) :
    (servalSalRcvRsynack env w p).1.sk = w.sk := by
  rw [servalSalRcvRsynack]
  cases hsal : w.sk.salState with
  | initial | recv => exact sendAck_sk hpeer
  | sentRecv => exact absurd hsal h.1
  | sent =>
    rcases h.2 hsal with hdev | hackno
    · simp [hdev]
    · simp only
      split
      · rfl
      · simp [hackno]

/-- A RSYN-ACK that is taken leaves a substate in which no RSYN-ACK is taken any more. -/
theorem rcvRsynack_salState (h : ¬RsynackHarmless env w.sk p) :
    (servalSalRcvRsynack env w p).1.sk.salState ≠ w.sk.salState ∧
      ((servalSalRcvRsynack env w p).1.sk.salState = .initial ∨
      (servalSalRcvRsynack env w p).1.sk.salState = .recv) := by
  have hsent : ∀ w₁ : World, (servalSalSendAck env w₁).1.sk.salState = w₁.sk.salState := by
    intro w₁
    obtain ⟨s, d, hsk⟩ := sendAck_frame env w₁
    rw [hsk]
  rw [servalSalRcvRsynack]
  cases hsal : w.sk.salState with
  | initial | recv => exact absurd ⟨by simp [hsal], by simp [hsal]⟩ h
  | sentRecv => simp [hsent, World.setSk]
  | sent =>
    obtain ⟨addr, hdev⟩ : ∃ addr, env.devs w.sk.migDevIf = some addr :=
      Option.ne_none_iff_exists'.mp fun hdev => h ⟨by simp [hsal], fun _ => .inl hdev⟩
    have hackno : p.ackno = w.sk.snd.una + 1 := not_not.mp fun hno => h ⟨by simp [hsal], fun _ => .inr hno⟩
    simp [hdev, hackno, hsent, World.setSk]

theorem rcvRsyn_valid (hrefuses : refusesRsyn w.sk.skState = false) (h : hasValidControlExtension w.sk p = true) :
    (servalSalRcvRsyn env w p).1.sk.rcv.nxt = p.verno + 1 := by
  have hstate : ¬(w.sk.skState = .closed ∨ w.sk.skState = .listen ∨ w.sk.skState = .request) := by
    cases hs : w.sk.skState <;> simp_all [refusesRsyn]
  rw [servalSalRcvRsyn, h, if_neg (by simp), if_neg hstate]
  cases w.sk.salState
  all_goals
    simp only
    split
    · rfl
    · obtain ⟨ms, -, hxmit⟩ := queueAndPush_sent env _ _ _
      obtain ⟨s, d, hctl⟩ := hxmit.frame
      exact congrArg Ctl.rcv hctl

section

variable {start c c' : Ctl} {ms : List Segment}

theorem act_rcv (h : Act env (.packet p) start c ms c') (hc : c.rcv = p.verno + 1) : c'.rcv = p.verno + 1 := by
  cases h with
  | ack hx | activeReset hx | sendFin _ hx | rexmit _ _ hx =>
    obtain ⟨s, d, rfl⟩ := hx.frame
    exact hc
  | rsyn he | fin he => cases he; rfl
  | rsynack he _ hx =>
    cases he
    obtain ⟨s, d, rfl⟩ := hx.frame
    rfl
  | accept =>
    obtain ⟨s, d, m, hframe⟩ := c.accept_frame _
    rw [hframe]
    exact hc
  | refused he | migrate he => cases he
  | reset | done | state | rsynackDone | rsynackCross | respond => exact hc

theorem act_salState (hrsyn : p.flags.rsyn = true) (hack : p.flags.ack = true)
    (h : Act env (.packet p) start c ms c') (hc : c.salState = .initial ∨ c.salState = .recv) :
    c'.salState = c.salState := by
  cases h with
  | ack hx | activeReset hx | sendFin _ hx | rexmit _ _ hx =>
    obtain ⟨s, d, rfl⟩ := hx.frame
    rfl
  | rsyn he h | rsynack he h =>
    cases he
    simp [h.ack] at hack
  | accept he =>
    cases he
    rw [Ctl.accept_salState, hrsyn]
    cases c.salState <;> rfl
  | rsynackDone _ _ _ _ hsent => simp [hsent] at hc
  | rsynackCross _ _ _ _ hcross => simp [hcross] at hc
  | refused he | migrate he => cases he
  | reset | done | state | fin | respond => rfl

end

/-- What the control extension has brought about and the actions of a state keep is there in the end. -/
theorem connProcess_after {P : Ctl → Prop} (hlisten : w.sk.skState ≠ .listen) (hrequest : w.sk.skState ≠ .request)
    (hgo : (controlProcess env w p).2 = true)
    (hstep : ∀ {c ms c'}, P c → Act env (.packet p) (ctl w.sk) c ms c' → P c')
    (h : P (ctl (controlProcess env w p).1.sk)) : P (ctl (connProcess env w p).sk) := by
  obtain ⟨hrst, hstate, hverno, hsettled⟩ := (@controlProcess_does env _ w p rfl hlisten hrequest).2 hgo
  obtain ⟨_, _, -, -, hacts⟩ := dispatch_does rfl hrst hverno (fun hopen => hsettled (hstate ▸ hopen)) hstate.symm
    (hstate ▸ hrequest)
  simp only [connProcess, hgo, if_true]
  exact hacts.preserves hstep h

/-- A packet with a wrong nonce whose number is valid and that has no effect. -/
structure Ignorable (env : Env) (sk : Sock) (p : Packet) : Prop where
  rst : p.flags.rst = false
  rsynack : p.flags.rsyn = true → p.flags.ack = true → RsynackHarmless env sk p
  rsyn : p.flags.rsyn = true → p.flags.ack = false → unchecked p = false
  idle : Idle env sk p

theorem validControlExtension_wrong_nonce {ctrl : CtrlExt} (hctrl : p.ctrl = some ctrl) (hnonce :
    ctrl.nonce ≠ sk.peerNonce) :
    hasValidControlExtension sk p = unchecked p := by
  simp [hasValidControlExtension, unchecked, hctrl, hnonce]

section

variable (hlisten : w.sk.skState ≠ .listen) (hrequest : w.sk.skState ≠ .request) (hclosed : w.sk.skState ≠ .closed)
  (hctrl : p.ctrl.isNone = false) (hvalid : hasValidVerno p w.sk = true) (hrst : p.flags.rst = false)
  (hrsyn : p.flags.rsyn = true)

include hlisten hrequest hctrl hvalid hrst hrsyn

theorem rsynack_taken (hack : p.flags.ack = true) (h : ¬RsynackHarmless env w.sk p) :
    (connProcess env w p).sk.salState ≠ w.sk.salState := by
  have hcontrol : controlProcess env w p = ((servalSalRcvRsynack env w p).1, true) := by
    simp [controlProcess, hctrl, hvalid, hrst, hrsyn, hack]
  obtain ⟨hchanged, hfinal⟩ := rcvRsynack_salState h
  have hkept := @connProcess_after env w p
    (fun c => c.salState = (servalSalRcvRsynack env w p).1.sk.salState) hlisten hrequest (by rw [hcontrol])
    (fun hc h => (act_salState hrsyn hack h (hc ▸ hfinal)).trans hc) (by rw [hcontrol]; rfl)
  exact ne_of_eq_of_ne hkept hchanged

include hclosed in
theorem rsyn_taken (hack : p.flags.ack = false) (h : hasValidControlExtension w.sk p = true) :
    (connProcess env w p).sk.rcv.nxt = p.verno + 1 := by
  have hcontrol : controlProcess env w p = ((servalSalRcvRsyn env w p).1, true) := by
    simp [controlProcess, hctrl, hvalid, hrst, hrsyn, hack]
  have hrefuses : refusesRsyn w.sk.skState = false := by
    cases hs : w.sk.skState <;> simp_all [refusesRsyn]
  exact @connProcess_after env w p (fun c => c.rcv = p.verno + 1) hlisten hrequest (by rw [hcontrol])
    (fun hc h => act_rcv h hc) (by rw [hcontrol]; exact rcvRsyn_valid hrefuses h)

end

def victim : World := ⟨exampleSock 10 20 1 2 5 6 100 200, [], []⟩

end SalNonce
