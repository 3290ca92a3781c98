import Serval.SalTeardown
import Serval.SalPair

/-! # The FIN that waits for its acknowledgment

A FIN with the number `f` stays in the control queue, under whatever packet takes its place there, until a
number after `f` is acknowledged.
-/
namespace SalPendingFin

open SerialNumber SalSocket SalInput SalControl SalRefine SalRuns SalTeardown SalPair SalBuild

variable {env : Env} {w w' : World} {e : Event} {p : Packet} {f : UInt32} {n m : ℕ} {sk sk' : Sock}

structure FinKept (f : UInt32) (n : ℕ) (sk : Sock) : Prop where
  queued : FinQueued sk
  order : ahead f sk.snd.una ≤ ahead f sk.snd.nxt
  nxt : ahead f sk.snd.nxt ≤ n

theorem FinKept.of_eq (h : FinKept f n sk) (hqueue : sk'.ctrlQueue = sk.ctrlQueue) (hsnd : sk'.snd = sk.snd) :
    FinKept f n sk' :=
  ⟨h.queued.of_eq hqueue hsnd, by rw [hsnd]; exact h.order, by rw [hsnd]; exact h.nxt⟩

theorem FinKept.same (h : FinKept f n sk) (hsame : SameQueue sk sk') : FinKept f n sk' :=
  h.of_eq hsame.ctrlQueue hsame.snd

theorem FinKept.mono (h : FinKept f n sk) (hle : n ≤ m) : FinKept f m sk :=
  ⟨h.queued, h.order, h.nxt.trans hle⟩

structure Open (sk : Sock) : Prop where
  connected : Connected sk
  state : sk.skState ≠ .closed

theorem Open.of_eq (h : Open sk) (hstate : sk'.skState = sk.skState) : Open sk' :=
  ⟨by rw [Connected, hstate]; exact h.connected, hstate ▸ h.state⟩

/-! ## What takes the place of the FIN -/

theorem queueAndPush_finKept {a : Answer} {skb : CtrlSkb} (hfin : skb.flags.fin = true ∨ (ctl w.sk).pending.fin = true)
    (horder : ahead f skb.verno ≤ ahead f w.sk.snd.nxt) (hnxt : ahead f w.sk.snd.nxt ≤ n) :
    FinKept f n (servalSalQueueAndPush env w a skb).1.sk := by
  obtain ⟨ms, -, hxmit⟩ := queueAndPush_sent env w a skb
  obtain ⟨s, d, hctl⟩ := hxmit.frame
  have huna : (servalSalQueueAndPush env w a skb).1.sk.snd.una = skb.verno := congrArg Ctl.una hctl
  have hnxt' : (servalSalQueueAndPush env w a skb).1.sk.snd.nxt = w.sk.snd.nxt := congrArg Ctl.nxt hctl
  exact ⟨queueAndPush_finQueued hfin, by rw [huna, hnxt']; exact horder, by rw [hnxt']; exact hnxt⟩

theorem ahead_next {x : UInt32} (hx : ahead f x ≤ n) (hn : n + 1 < 2 ^ 31) :
    ahead f x ≤ ahead f (x + 1) ∧ ahead f (x + 1) ≤ n + 1 := by
  rw [ahead_succ (by omega)]
  omega

theorem sendFin_finKept (hnxt : ahead f w.sk.snd.nxt ≤ n) (hn : n + 1 < 2 ^ 31) :
    FinKept f (n + 1) (servalSalSendFin env w).1.sk := by
  rw [sendFin_pushes]
  obtain ⟨horder, hnext⟩ := ahead_next hnxt hn
  exact queueAndPush_finKept (.inl (by cases w.sk.salState <;> rfl)) horder hnext

theorem rcvRsyn_finKept (h : FinKept f n w.sk) : FinKept f n (servalSalRcvRsyn env w p).1.sk := by
  rcases rcvRsyn_cases env w p with heq | ⟨-, -, w₁, a, hsk, -, heq⟩
  · rw [heq]
    exact h
  · have hw₁ : FinKept f n w₁.sk := by
      rw [hsk]
      exact h.same ⟨rfl, rfl, rfl⟩
    rcases heq with heq | heq <;> rw [heq]
    · exact hw₁
    · exact queueAndPush_finKept (.inr hw₁.queued.pending) le_rfl hw₁.nxt

theorem migrate_finKept {dev : ℕ} (h : FinKept f n w.sk) (hn : n + 1 < 2 ^ 31) :
    FinKept f (n + 1) (servalSockMigrate env w dev).1.sk ∧
      (servalSockMigrate env w dev).1.sk.skState = w.sk.skState := by
  obtain ⟨horder, hnext⟩ := ahead_next h.nxt hn
  cases hrefuses : refusesRsyn w.sk.skState
  · rw [migrate_pushes env w dev hrefuses]
    exact ⟨queueAndPush_finKept (.inr h.queued.pending) horder hnext, queueAndPush_skState⟩
  · rw [migrate_refused env w dev hrefuses]
    exact ⟨⟨h.queued, h.order.trans horder, hnext⟩, rfl⟩

theorem rexmit_finKept (h : FinKept f n w.sk) : FinKept f n (servalSalRexmit env w).sk := by
  have hqueued := @rexmit_finQueued env w h.queued
  obtain ⟨s, d, hsk⟩ := rexmit_frame env w
  rw [hsk] at hqueued ⊢
  exact ⟨hqueued, h.order, h.nxt⟩

/-! ## The transport -/

theorem transportCall_finKept {call : TransportCall} (hquiet : Quiet call) (h : FinKept f n w.sk)
    (hn : n + finCount [call] < 2 ^ 31) : FinKept f (n + finCount [call]) (transportCall env w call).sk := by
  cases call with
  | sendFin => exact sendFin_finKept h.nxt hn
  | sendActiveReset => exact (h.same sendActiveReset_same).mono (Nat.le_add_right n _)
  | updateRtt rtt => exact h.of_eq rfl rfl
  | rcvReset => exact absurd rfl hquiet.1
  | writeErr => exact absurd rfl hquiet.2.1
  | done => exact absurd rfl hquiet.2.2

theorem calls_finKept (calls : List TransportCall) (hquiet : ∀ call ∈ calls, Quiet call) (h : FinKept f n w.sk)
    (hn : n + finCount calls < 2 ^ 31) : FinKept f (n + finCount calls) (calls.foldl (transportCall env) w).sk := by
  induction calls generalizing w n with
  | nil => exact h
  | cons call calls ih =>
    have hcount : finCount (call :: calls) = finCount [call] + finCount calls := by
      simp [finCount, List.count_cons, add_comm]
    rw [hcount, ← add_assoc] at hn ⊢
    exact ih (fun c hc => hquiet c (by simp [hc])) (transportCall_finKept (hquiet call (by simp)) h (by omega)) hn

/-! ## Acknowledgments that are not after the FIN -/

/-- The acknowledgment says nothing new: it repeats the number that is acknowledged already, and
that is the FIN's own. -/
theorem FinKept.repeated (h : FinKept f n sk) (hn : n < 2 ^ 31) (hack : ackAcceptable sk p = true)
    (hafter : after p.ackno f = false) (hmig : migrating sk.salState = false) : p.ackno = sk.snd.una := by
  have horder := h.order
  have hnxt := h.nxt
  simp only [ackAcceptable, hmig, Bool.not_false, Bool.and_true, Bool.and_eq_true, Bool.not_eq_true', after] at hack
  obtain ⟨⟨-, hold⟩, hnew⟩ := hack
  rw [not_before_iff] at hold hnew
  -- from `f` on, the numbers come in the order una, ackno, nxt
  have hackno : ahead f p.ackno = ahead f sk.snd.una + ahead sk.snd.una p.ackno := ahead_trans (by omega)
  have hlast : ahead sk.snd.una sk.snd.nxt = ahead sk.snd.una p.ackno + ahead p.ackno sk.snd.nxt :=
    ahead_trans (by omega)
  have hbound : ahead f sk.snd.nxt = ahead f sk.snd.una + ahead sk.snd.una sk.snd.nxt := by
    rw [ahead_eq, ahead_eq] at horder
    rw [ahead_eq, ahead_eq, ahead_eq]
    have hf := f.toNat_lt
    have huna := sk.snd.una.toNat_lt
    have hnxt := sk.snd.nxt.toNat_lt
    omega
  have hself : ahead f f < 2 ^ 31 := by rw [ahead_self]; decide
  have hlt := before_iff_lt hself (show ahead f p.ackno < 2 ^ 31 by omega)
  rw [after] at hafter
  rw [hafter, ahead_self] at hlt
  have hzero : ahead sk.snd.una p.ackno = 0 := by
    simp only [Bool.false_eq_true, false_iff, not_lt, Nat.le_zero] at hlt
    omega
  exact ahead_inj (hzero.trans (ahead_self _).symm)

/-- What the socket processes is no acknowledgment of the FIN, and comes neither while the peer
migrates nor in LASTACK. -/
def Unacknowledged (f : UInt32) (sk : Sock) (p : Packet) : Prop :=
  ackAcceptable sk p = true → after p.ackno f = false ∧ migrating sk.salState = false ∧ sk.skState ≠ .lastack

theorem ackProcess_same (h : FinKept f n w.sk) (hn : n < 2 ^ 31) (hack : Unacknowledged f w.sk p) :
    SameQueue w.sk (servalSalAckProcess env w p).1.sk := by
  cases hacceptable : ackAcceptable w.sk p
  · rw [ackProcess_refused hacceptable]
    exact .refl
  · rw [ackProcess_accepted hacceptable]
    obtain ⟨hafter, hmig, -⟩ := hack hacceptable
    have hackno := h.repeated hn hacceptable hafter hmig
    obtain ⟨skb, hskb, -, hverno⟩ := h.queued
    have hstays : (after p.ackno skb.verno || migrating w.sk.salState) = false := by
      rw [hackno, hverno, hmig, after, before_self]
      rfl
    simp only [ackAccept, servalSalCleanRtxQueue, hskb, hstays, Bool.false_eq_true, if_false]
    have hsame : SameQueue w.sk { w.sk with snd := { w.sk.snd with una := p.ackno } } :=
      ⟨rfl, rfl, by rw [hackno]⟩
    cases hsal : w.sk.salState with
    | initial | sent =>
      simp only [servalSockResetXmitTimer, World.setSk, hsal]
      exact ⟨rfl, rfl, hsame.snd⟩
    | recv | sentRecv => simp [hsal, migrating] at hmig

/-! ## A packet -/

structure FinWaits (f : UInt32) (n : ℕ) (sk : Sock) : Prop extends FinKept f n sk, Open sk

theorem FinWaits.same (h : FinWaits f n sk) (hsame : SameQueue sk sk') : FinWaits f n sk' :=
  ⟨h.toFinKept.same hsame, h.toOpen.of_eq hsame.skState⟩

theorem FinWaits.mono {m : ℕ} (h : FinWaits f n sk) (hnm : n ≤ m) : FinWaits f m sk := ⟨h.toFinKept.mono hnm, h.toOpen⟩

theorem FinWaits.setState {s : SalState} (h : FinWaits f n w.sk) (hconnected : unconnected s = false)
    (hopen : s ≠ .closed) : FinWaits f n (servalSockSetState w s).sk := by
  obtain ⟨_, _, hsk⟩ := setState_frame w s
  rw [hsk]
  exact ⟨h.toFinKept.of_eq rfl rfl, hconnected, hopen⟩

theorem finWaits_stages (hquiet : QuietReceive env) (hn : n + finCalls env < 2 ^ 31) :
    Stages env p w.sk.skState (w.sk.skState ≠ .lastack)
      (fun w' => FinWaits f n w'.sk ∧ Unacknowledged f w'.sk p ∧ w'.sk.skState = w.sk.skState) (FinWaits f n ·.sk)
      (FinWaits f n ·.sk) (FinWaits f n ·.sk) (FinWaits f (n + finCalls env) ·.sk) where
  ackFirst {w'} h := by
    refine ⟨h.1.same sendAck_same, ?_, sendAck_same.skState.trans h.2.2⟩
    obtain ⟨s, d, hsk⟩ := sendAck_frame env w'
    rw [hsk]
    exact h.2.1
  accept h hack := h.2.2 ▸ (h.2.1 hack).2.2
  process _ h := h.1.same (ackProcess_same h.1.toFinKept (by omega) h.2.1)
  unprocessed h := h.1
  fin _ h := h.same rcvFin_same
  respond _ h := h.same ⟨rfl, rfl, rfl⟩
  noFin h := h
  state hnext h := h.setState (next_spec hnext).1 (next_spec hnext).2.1
  sameState h := h
  timer h := h.same ⟨rfl, rfl, rfl⟩
  ackLast h := h.same sendAck_same
  receive {w'} h := ⟨calls_finKept _ hquiet h.toFinKept hn,
    h.toOpen.of_eq (receiveIf_keeps (w := w') (b := true) hquiet).1⟩
  noReceive h := h.mono (Nat.le_add_right n _)
  closewait _ _ h := h.setState rfl (by simp)
  done hs hnot := absurd hs hnot
  reset hs h := absurd (h.2.2.trans hs) h.1.state
  request hs h := by
    have hconnected := h.1.connected
    simp [Connected, h.2.2, hs, unconnected] at hconnected

theorem dispatch_finWaits (hquiet : QuietReceive env) (h : FinWaits f n w.sk) (hn : n + finCalls env < 2 ^ 31)
    (hack : Unacknowledged f w.sk p) : FinWaits f (n + finCalls env) (dispatch env w p).sk :=
  (finWaits_stages hquiet hn).dispatch rfl ⟨h, hack, rfl⟩

theorem rcvRsynack_migrating : migrating (servalSalRcvRsynack env w p).1.sk.salState = migrating w.sk.salState := by
  obtain ⟨_, _, _, _, _, _, hmigrating, hsk⟩ := rcvRsynack_frame env w p
  rw [hsk]
  exact hmigrating

theorem controlProcess_finWaits (hrst : p.flags.rst = false) (h : FinWaits f n w.sk) (hack : Unacknowledged f w.sk p) :
    FinWaits f n (controlProcess env w p).1.sk ∧
      ((controlProcess env w p).2 = true → Unacknowledged f (controlProcess env w p).1.sk p) := by
  rw [controlProcess]
  split
  · exact ⟨h, fun _ => hack⟩
  · split
    · exact ⟨h.same sendAck_same, by simp⟩
    · rw [if_neg (by simp [hrst])]
      split
      · split
        · refine ⟨h.same rcvRsynack_same, fun _ => ?_⟩
          rw [Unacknowledged, rcvRsynack_acceptable, rcvRsynack_migrating, rcvRsynack_same.skState]
          exact hack
        next hnoack =>
          refine ⟨⟨rcvRsyn_finKept h.toFinKept, h.toOpen.of_eq (rcvRsyn_frame env w p).1⟩, fun _ hacceptable => ?_⟩
          simp [ackAcceptable, hnoack] at hacceptable
      · exact ⟨h, fun _ => hack⟩

theorem connProcess_finWaits (hquiet : QuietReceive env) (h : FinWaits f n w.sk) (hn : n + finCalls env < 2 ^ 31)
    (hack : Unacknowledged f w.sk p) (hopen : p.flags.rst = true → (connProcess env w p).sk.skState ≠ .closed) :
    FinWaits f (n + finCalls env) (connProcess env w p).sk := by
  rw [connProcess] at hopen ⊢
  cases hrst : p.flags.rst
  · obtain ⟨hwaits, hack'⟩ := @controlProcess_finWaits env w p f n hrst h hack
    generalize controlProcess env w p = r at hwaits hack' ⊢
    obtain ⟨w₁, go⟩ := r
    cases go
    · exact hwaits.mono (Nat.le_add_right n _)
    · exact dispatch_finWaits hquiet hwaits hn (hack' rfl)
  · obtain ⟨hgo, hsame⟩ := @controlProcess_reset env w p hrst
    have hopen := hopen hrst
    simp only [hgo, Bool.false_eq_true, if_false] at hopen ⊢
    rcases hsame with hsame | hclosed
    · exact (h.same hsame).mono (Nat.le_add_right n _)
    · exact absurd hclosed hopen

/-! ## Runs -/

/-- Until now no number after `f` has been acknowledged, and neither a reset nor anything but a
packet has closed the socket. -/
structure NotYet (f : UInt32) (env : Env) (w : World) (e : Event) (w' : World) : Prop where
  ack : ∀ p, e = .packet p → Unacknowledged f w.sk p
  opened : (∀ p, e = .packet p → p.flags.rst = true) → w'.sk.skState ≠ .closed
  receive : QuietReceive env

theorem close_finWaits (h : FinWaits f n w.sk) (hn : n + 1 < 2 ^ 31)
    (hopen : (servalSalClose env w).sk.skState ≠ .closed) : FinWaits f (n + 1) (servalSalClose env w).sk := by
  rcases close_cases env w with ⟨s, hstate, hfinish⟩ | hsame | hdone
  · have h₁ : FinWaits f n (servalSockSetState w s).sk := by
      rcases hstate with ⟨-, rfl⟩ | ⟨-, rfl⟩
      · exact h.setState rfl (by simp)
      · exact h.setState rfl (by simp)
    generalize servalSalClose env w = w' at hfinish hopen
    cases hfinish with
    | fin => exact ⟨sendFin_finKept h₁.nxt hn, h₁.toOpen.of_eq sendFin_finQueued.2⟩
    | reset => exact absurd sendActiveReset_same.skState hopen
    | transport => exact h₁.mono (Nat.le_add_right n _)
  · rw [hsame]
    exact h.mono (Nat.le_add_right n _)
  · rw [hdone] at hopen
    exact absurd (done_skState w) hopen

theorem step_finWaits (h : FinWaits f n w.sk) (hok : NotYet f env w e w') (hn : n + numbers env e < 2 ^ 31)
    (hstep : step env w e = some w') : FinWaits f (n + numbers env e) w'.sk := by
  have hclosed : (∀ p, e ≠ .packet p) → w'.sk.skState ≠ .closed :=
    fun hne => hok.opened fun p hp => absurd hp (hne p)
  cases e with
  | packet p =>
    rw [step_packet h.connected.established] at hstep
    cases hstep
    exact connProcess_finWaits hok.receive h hn (hok.ack p rfl)
      (fun hrst => hok.opened fun q hq => Event.packet.inj hq ▸ hrst)
  | close =>
    cases hstep
    rw [numbers] at hn ⊢
    exact close_finWaits h hn (hclosed (by simp))
  | migrate dev =>
    cases hstep
    rw [numbers] at hn ⊢
    obtain ⟨hkept, hstate⟩ := @migrate_finKept env w f n dev h.toFinKept hn
    exact ⟨hkept, h.toOpen.of_eq hstate⟩
  | rexmitTimeout =>
    cases hstep
    have hopen := hclosed (by simp)
    rw [servalSalRexmitTimeout] at hopen ⊢
    split at hopen
    · exact absurd (done_skState _) hopen
    next hmax =>
      rw [if_neg hmax]
      exact ⟨(rexmit_finKept h.toFinKept).of_eq rfl rfl, h.toOpen.of_eq rexmit_skState⟩
  | timewaitTimeout =>
    cases hstep
    exact absurd (done_skState w) (hclosed (by simp))
  | keepaliveTimeout owned keepopen =>
    cases hstep
    rcases keepaliveTimeout_cases env w owned keepopen with ⟨timer, htimer⟩ | ⟨hdone, -⟩
    · rw [htimer]
      exact h.same ⟨rfl, rfl, rfl⟩
    · exact absurd (hdone ▸ done_skState w) (hclosed (by simp))
  | transport call =>
    cases hstep
    rw [numbers] at hn ⊢
    by_cases hquiet : Quiet call
    · exact ⟨transportCall_finKept hquiet h.toFinKept hn, h.toOpen.of_eq (transportCall_keeps hquiet).1⟩
    · exact absurd (transportCall_closes hquiet) (hclosed (by simp))
  | orphan =>
    cases hstep
    exact h.same ⟨rfl, rfl, rfl⟩

inductive CountedRun (ok : Env → World → Event → World → Prop) (w : World) : ℕ → World → Prop where
  | refl : CountedRun ok w 0 w
  | tail {n w' env tape e w''} : CountedRun ok w n w' → step env { w' with tape := tape } e = some w'' →
      ok env { w' with tape := tape } e w'' → CountedRun ok w (n + numbers env e) w''

theorem run_finWaits (hrun : CountedRun (NotYet f) w n w') (h : FinWaits f m w.sk) (hn : m + n < 2 ^ 31) :
    FinWaits f (m + n) w'.sk := by
  induction hrun with
  | refl => exact h
  | @tail n w' env tape e w'' _ hstep hok ih =>
    rw [← add_assoc] at hn ⊢
    have hw' : FinWaits f (m + n) ({ w' with tape := tape } : World).sk := ih (by omega)
    exact step_finWaits hw' hok hn hstep

/-- In every run of a socket with a peer in which fewer than 2^31 numbers are used up: once a FIN
with the number `f` has been queued, the packet in the control queue is a FIN until a number after
`f` is acknowledged or the socket is closed. -/
theorem fin_kept_until_acknowledged (hconnected : Connected w.sk) (hopen : w.sk.skState ≠ .closed)
    (hrun : CountedRun (NotYet w.sk.snd.nxt) (servalSalSendFin env w).1 n w') (hn : 1 + n < 2 ^ 31) :
    ∃ skb, w'.sk.ctrlQueue = some skb ∧ skb.flags.fin = true := by
  have hself : ahead w.sk.snd.nxt w.sk.snd.nxt ≤ 0 := (ahead_self _).le
  have hstart : FinWaits w.sk.snd.nxt 1 (servalSalSendFin env w).1.sk :=
    ⟨sendFin_finKept hself (by decide), (Open.mk hconnected hopen).of_eq sendFin_finQueued.2⟩
  obtain ⟨skb, hskb, hfin, -⟩ := (run_finWaits hrun hstart hn).queued
  exact ⟨skb, hskb, hfin⟩

/-! ## Runs of one socket -/

def host : Env := exampleEnv 10 11

def rsyn : Packet := examplePacket 21 10 2 1 6 { rsyn := true } 200 100

def finOut : World := (servalSalSendFin host opened).1

def answered : World := connProcess host finOut rsyn

theorem fin_kept_under_answer :
    opened.sk.skState = .connected ∧ ∃ skb, answered.sk.ctrlQueue = some skb ∧ skb.flags.fin = true := by
  have hok : NotYet 100 host finOut (.packet rsyn) answered := by
    refine ⟨fun p hp => ?_, fun _ => by decide +kernel, fun call h => by simp [host, exampleEnv, udpTransport] at h⟩
    cases hp
    intro hack
    exact absurd hack (by decide)
  have hstep : step host { finOut with tape := [] } (.packet rsyn) = some answered := rfl
  have hrun : CountedRun (NotYet 100) finOut 0 answered := .tail .refl hstep hok
  have hconnected : Connected opened.sk := rfl
  exact ⟨rfl, fin_kept_until_acknowledged hconnected (by decide) hrun (by decide)⟩

def answeredFirst : World := connProcess host opened rsyn

def finAfter : World := (servalSalSendFin host answeredFirst).1

def answerAck : Packet := examplePacket 21 10 2 1 6 { ack := true } 201 100

def lost : World := connProcess host finAfter answerAck

theorem fin_dropped_while_peer_migrates : step host opened (.packet rsyn) = some answeredFirst ∧
    step host answeredFirst (.transport .sendFin) = some finAfter ∧
    finAfter.sk.ctrlQueue.map (fun skb => (skb.flags.fin, skb.verno)) = some (true, 100) ∧
    step host finAfter (.packet answerAck) = some lost ∧
    after answerAck.ackno 100 = false ∧ lost.sk.ctrlQueue = none ∧ lost.sk.skState = .connected :=
  ⟨rfl, rfl, by decide +kernel, rfl, by decide, by decide +kernel, by decide +kernel⟩

end SalPendingFin
