import Serval.SalPair

/-! # The request of a migration

From its RSYN until the answer a socket keeps the RSYN in its control queue, as long as no
acknowledgment without RSYN covers it.
-/
namespace SalPendingRsyn

open SerialNumber SalSocket SalInput SalControl SalRefine SalRuns SalPair

variable {env : Env} {e : Event} {start c c' : Ctl} {ms : List Segment} {n : ℕ}

/-- The request of this side has not been answered. -/
def requesting : RsynState → Bool
  | .sent | .sentRecv => true
  | .initial | .recv => false

theorem requesting_received (s : RsynState) : requesting (received s) = requesting s ∧ received s ≠ .sent := by
  cases s <;> decide

/-- In RSYN_SENT there is no number after that of the RSYN. A closed socket uses up numbers for
migrations that it refuses, and stays closed. -/
structure Held (start c : Ctl) : Prop where
  queue : c.destroyed = false → requesting c.salState = true →
    ∃ f v, c.queue = some (f, v) ∧ f.rsyn = true ∧ (c.salState = .sent → v = c.una)
  nxt : start.skState ≠ .closed → c.salState = .sent → c.nxt = c.una + 1
  closed : start.skState = .closed → c.skState = .closed

theorem Held.congr (h : Held start c) (hsal : c'.salState = c.salState) (huna : c'.una = c.una)
    (hnxt : c'.nxt = c.nxt) (hqueue : c'.queue = c.queue) (hdestroyed : c'.destroyed = c.destroyed)
    (hstate : start.skState = .closed → c.skState = .closed → c'.skState = .closed) : Held start c' := by
  obtain ⟨hrsyn, hn, hclosed⟩ := h
  refine ⟨?_, ?_, fun hstart => hstate hstart (hclosed hstart)⟩
  · rw [hdestroyed, hsal, hqueue, huna]
    exact hrsyn
  · rw [hsal, hnxt, huna]
    exact hn

theorem Held.of_no_request (hsal : requesting c.salState = false)
    (hclosed : start.skState = .closed → c.skState = .closed) : Held start c :=
  ⟨fun _ h => by simp [hsal] at h, fun _ h => by simp [h, requesting] at hsal, hclosed⟩

theorem held_xmit {devs : ℕ → Option Addr} {f : Flags} {v : UInt32} (hx : Xmit devs c f v ms c')
    (h : Held start c) : Held start c' := by
  obtain ⟨s, d, rfl⟩ := hx.frame
  exact h.congr rfl rfl rfl rfl rfl fun _ h => h

theorem Held.enqueue {f : Flags} {v : UInt32} (hf : (f.or c.pending).rsyn = true)
    (hnxt : c.salState = .sent → c.nxt = v + 1) (hclosed : start.skState = .closed → c.skState = .closed) :
    Held start (c.enqueue f v) :=
  ⟨fun _ _ => ⟨_, _, rfl, hf, fun _ => rfl⟩, fun _ => hnxt, hclosed⟩

structure PlainAck (sk : Sock) (p : Packet) : Prop where
  rsyn : p.flags.rsyn = false
  rst : p.flags.rst = false
  verno : hasValidVerno p sk = true
  acceptable : ackAcceptable sk p = true

/-- While the request is pending there is no acknowledgment without RSYN, except for one that
repeats the last number, and the device to migrate to exists. -/
structure NoPlainAck (env : Env) (sk : Sock) (e : Event) : Prop where
  sent : ∀ p, e = .packet p → sk.salState = .sent → PlainAck sk p → p.ackno = sk.snd.una
  sentRecv : ∀ p, e = .packet p → sk.salState = .sentRecv → ¬PlainAck sk p
  dev : ∀ p, e = .packet p → sk.salState = .sent → p.flags.rsyn = true → p.flags.ack = true →
    p.ackno = sk.snd.una + 1 → (env.devs sk.migDevIf).isSome = true

theorem plainAck_of_settled {sk : Sock} {p : Packet} (hsettled : Settled env (ctl sk) c p) (hrst : p.flags.rst = false)
    (hrsyn : p.flags.rsyn = false) (hacceptable : c.acceptable p = true) : PlainAck sk p := by
  refine ⟨hrsyn, hrst, ?_, ?_⟩
  · rcases hsettled.verno with h | h | h
    · simp [hasValidVerno, show before p.verno sk.rcv.nxt = false from h]
    · simp [hasValidVerno, h]
    · simp [h] at hrsyn
  · obtain ⟨s, d, rfl⟩ := hsettled.plain hrsyn
    exact hacceptable

theorem Held.accept_repeated {p : Packet} (h : Held start c) (hsal : c.salState = .sent)
    (hackno : p.ackno = c.una) : Held start (c.accept p) := by
  have haccept : c.accept p = { c with queue := c.acked p.ackno, una := p.ackno } :=
    Ctl.settle_of_not_migrating (by simp [hsal, migrating]) _
  rw [haccept, hackno]
  refine ⟨fun hdestroyed hrequesting => ?_, h.nxt, h.closed⟩
  obtain ⟨f, v, hqueue, hf, hv⟩ := h.queue hdestroyed hrequesting
  refine ⟨f, v, ?_, hf, hv⟩
  simp [Ctl.acked, hqueue, hv hsal, hsal, after, before_self, migrating]

theorem act_held {sk : Sock} (hok : NoPlainAck env sk e) (hconn : Connected sk)
    (h : Act env e (ctl sk) c ms c') (hc : Held (ctl sk) c) : Held (ctl sk) c' := by
  cases h with
  | ack hx | activeReset hx => exact held_xmit hx hc
  | reset => exact hc
  | @done _ queue destroyed hqueue =>
    rcases hqueue with ⟨rfl, rfl⟩ | ⟨-, rfl⟩
    · exact hc.congr rfl rfl rfl rfl rfl fun _ _ => rfl
    · exact ⟨fun h => by simp at h, hc.nxt, fun _ => rfl⟩
  | state _ hopen _ => exact hc.congr rfl rfl rfl rfl rfl fun h => absurd h hopen
  | rsynackDone | rsynackCross => exact .of_no_request rfl hc.closed
  | rsyn =>
    obtain ⟨hsal, hsent⟩ := requesting_received sk.salState
    refine ⟨fun hdestroyed hrequesting => ?_, fun _ h => absurd h hsent, hc.closed⟩
    obtain ⟨f, v, hqueue, hf, -⟩ := hc.queue hdestroyed (hsal.symm.trans hrequesting)
    exact ⟨f, v, hqueue, hf, fun h => absurd h hsent⟩
  | rsynack _ _ hx =>
    exact held_xmit hx
      (Held.enqueue (by simp [Flags.or]) (fun h => absurd h (requesting_received sk.salState).2) hc.closed)
  | @accept _ p he hrst hacceptable hsettled =>
    have hopen : sk.skState ≠ .closed := fun h => hsettled.opened (hc.closed h)
    have hsal := c.accept_salState p
    have hclosed : sk.skState = .closed → (c.accept p).skState = .closed := fun h => absurd h hopen
    cases hs : c.salState with
    | initial | recv =>
      refine .of_no_request ?_ hclosed
      rw [hsal, hs]
      cases p.flags.rsyn <;> rfl
    | sent =>
      refine hc.accept_repeated hs ?_
      cases hrsyn : p.flags.rsyn
      · have hplain := plainAck_of_settled hsettled hrst hrsyn hacceptable
        obtain ⟨s, d, hc'⟩ := hsettled.plain hrsyn
        subst hc'
        exact hok.sent p he hs hplain
      · obtain ⟨hreaddressed, hrefused⟩ := hsettled.sent hrsyn hs
        have hnxt : c.nxt = c.una + 1 := hc.nxt hopen hs
        simp only [Ctl.acceptable, hs, migrating, hnxt, Bool.and_eq_true, Bool.not_eq_true', Bool.not_false,
          Bool.and_true] at hacceptable
        obtain ⟨⟨hack, hbefore⟩, hafter⟩ := hacceptable
        refine (eq_or_eq_succ hbefore hafter).resolve_right fun hackno => ?_
        obtain ⟨s, d, hc'⟩ := hreaddressed
        subst hc'
        rcases hrefused with hdev | hne
        · have hsome := hok.dev p he hs hrsyn hack hackno
          simp [show env.devs sk.migDevIf = none from hdev] at hsome
        · exact hne hackno
    | sentRecv =>
      cases hrsyn : p.flags.rsyn
      · obtain ⟨s, d, hc'⟩ := hsettled.plain hrsyn
        have hplain := plainAck_of_settled hsettled hrst hrsyn hacceptable
        subst hc'
        exact absurd hplain (hok.sentRecv p he hs)
      · exact absurd hs (hsettled.cross hrsyn)
  | fin | respond => exact hc.congr rfl rfl rfl rfl rfl fun _ h => h
  | sendFin _ hx =>
    refine held_xmit hx ⟨fun hdestroyed hrequesting => ⟨_, _, rfl, ?_, fun _ => rfl⟩, fun _ _ => rfl, hc.closed⟩
    obtain ⟨f, v, hqueue, hf, -⟩ := hc.queue hdestroyed hrequesting
    have hpending : c.pending.rsyn = true := by simp [Ctl.pending, hqueue, hf]
    change ((finFlags c.salState).or c.pending).rsyn = true
    simp [Flags.or, hpending]
  | refused _ hrefuses =>
    have hstate : sk.skState = .closed := by
      change refusesRsyn sk.skState = true at hrefuses
      cases hs : sk.skState <;> simp_all [Connected, refusesRsyn, unconnected]
    exact ⟨hc.queue, fun h => absurd hstate h, hc.closed⟩
  | migrate _ _ hx => exact held_xmit hx (Held.enqueue rfl (fun _ => rfl) hc.closed)
  | @rexmit _ f v _ _ _ hq hx =>
    refine held_xmit hx ⟨fun hdestroyed hrequesting => ?_, hc.nxt, hc.closed⟩
    obtain ⟨f', v', hqueue, hf, hv⟩ := hc.queue hdestroyed hrequesting
    cases hq.symm.trans hqueue
    exact ⟨_, _, rfl, hf, hv⟩

/-! ## Runs -/

theorem Held.restart (h : Held start c) : Held c c :=
  ⟨h.queue, fun hopen => h.nxt fun hs => hopen (h.closed hs), fun hs => hs⟩

def PairHeld (s : Pair) : Prop := ∀ i, Connected (s.sk i) ∧ Held (ctl (s.sk i)) (ctl (s.sk i))

theorem pairStep_held {s s' : Pair} {o : Option (Bool × Event)}
    (h : PairStep (fun _ env sk e _ => NoPlainAck env sk e) o n s s') (hs : PairHeld s) : PairHeld s' := by
  have hconn := pairStep_connected h fun i => (hs i).1
  rcases pairStep_cases h fun i => (hs i).1.established with
    ⟨-, hsk, -⟩ | ⟨i, env, e, k, ms, -, -, hmoves⟩
  · rw [PairHeld, hsk]
    exact hs
  · refine forall_side i ⟨hconn i, ?_⟩ ⟨hconn (!i), ?_⟩
    · have hheld : Held (ctl (s.sk i)) (ctl (s'.sk i)) :=
        hmoves.acts.preserves (fun hc hact => act_held hmoves.ok (hs i).1 hact hc) (hs i).2
      exact hheld.restart
    · rw [hmoves.other]
      exact (hs (!i)).2

theorem pairRun_held {s s' : Pair} {l : List (Bool × Event)}
    (h : PairRun (fun _ env sk e _ => NoPlainAck env sk e) s l n s') (hs : PairHeld s) : PairHeld s' := by
  induction h with
  | refl => exact hs
  | tail _ hstep ih => exact pairStep_held hstep ih

theorem rcvRsynack_completes {w : World} {p : Packet} {addr : Addr} (hsal : w.sk.salState = .sent)
    (hdev : env.devs w.sk.migDevIf = some addr) (hackno : p.ackno = w.sk.snd.una + 1) :
    (servalSalRcvRsynack env w p).1.sk.salState = .initial := by
  simp only [servalSalRcvRsynack, hsal, hdev, hackno, ne_eq, not_true_eq_false, if_false]
  obtain ⟨s, d, h⟩ := sendAck_frame env (w.setSk { w.sk with
    salState := .initial, saddr := addr, boundDevIf := w.sk.migDevIf, migDevIf := 0 })
  rw [h]
  rfl

structure Unmoved (s : Pair) : Prop where
  state : ∀ i, (s.sk i).skState = .connected
  salState : ∀ i, (s.sk i).salState = .initial

/-- In every run without a plain acknowledgment of a pending RSYN, a socket that has not been
destroyed holds its RSYN until the answer, which it is ready to accept. -/
theorem pending_rsyn_kept {s s' : Pair} {l : List (Bool × Event)} (hs : Unmoved s)
    (hrun : PairRun (fun _ env sk e _ => NoPlainAck env sk e) s l n s') (i : Bool)
    (hlive : (s'.sk i).destroyed = false) :
    ((s'.sk i).salState = .sent ∨ (s'.sk i).salState = .sentRecv →
      ∃ skb, (s'.sk i).ctrlQueue = some skb ∧ skb.flags.rsyn = true) ∧
    ((s'.sk i).salState = .sent → ∃ skb, (s'.sk i).ctrlQueue = some skb ∧ skb.verno = (s'.sk i).snd.una ∧
      ∀ env tape (p : Packet), (env.devs (s'.sk i).migDevIf).isSome = true → p.ackno = skb.verno + 1 →
        (servalSalRcvRsynack env ⟨s'.sk i, [], tape⟩ p).1.sk.salState = .initial) := by
  have hstart : PairHeld s := fun i => by
    exact ⟨by rw [Connected, hs.state]; rfl, .of_no_request (by simp [ctl, hs.salState i, requesting]) fun h => h⟩
  obtain ⟨-, hheld⟩ := pairRun_held hrun hstart i
  have hqueue : requesting (s'.sk i).salState = true → ∃ skb, (s'.sk i).ctrlQueue = some skb ∧ skb.flags.rsyn = true ∧
      ((s'.sk i).salState = .sent → skb.verno = (s'.sk i).snd.una) := by
    intro hrequesting
    obtain ⟨f, v, hq, hf, hv⟩ := hheld.queue hlive hrequesting
    obtain ⟨skb, hskb, heq⟩ := Option.map_eq_some_iff.mp hq
    cases heq
    exact ⟨skb, hskb, hf, hv⟩
  constructor
  · rintro (hsal | hsal)
    all_goals
      obtain ⟨skb, hskb, hf, -⟩ := hqueue (by rw [hsal]; rfl)
      exact ⟨skb, hskb, hf⟩
  · intro hsal
    obtain ⟨skb, hskb, -, hverno⟩ := hqueue (by rw [hsal]; rfl)
    have hverno := hverno hsal
    refine ⟨skb, hskb, hverno, fun env tape p hdev hackno => ?_⟩
    obtain ⟨addr, hdev⟩ := Option.isSome_iff_exists.mp hdev
    exact rcvRsynack_completes (w := ⟨s'.sk i, [], tape⟩) hsal hdev (by rw [hackno, hverno])

/-! The first side moves, and the second one sees its RSYN twice. -/

def moving : Pair := examplePair.migrate true (exampleEnv 10 11) 2

theorem examplePair_unmoved : Unmoved examplePair := ⟨by decide, by decide⟩

theorem rsyn_kept_after_migrate : ((moving.sk true).salState = .sent ∨ (moving.sk true).salState = .sentRecv →
      ∃ skb, (moving.sk true).ctrlQueue = some skb ∧ skb.flags.rsyn = true) ∧
    ((moving.sk true).salState = .sent →
      ∃ skb, (moving.sk true).ctrlQueue = some skb ∧ skb.verno = (moving.sk true).snd.una ∧
      ∀ env tape (p : Packet), (env.devs (moving.sk true).migDevIf).isSome = true → p.ackno = skb.verno + 1 →
        (servalSalRcvRsynack env ⟨moving.sk true, [], tape⟩ p).1.sk.salState = .initial) :=
  pending_rsyn_kept examplePair_unmoved
    (.tail .refl (pairStep_migrate ⟨fun _ h => (nomatch h), fun _ h => (nomatch h), fun _ h => (nomatch h)⟩)) true
    (by decide +kernel)

def theRsyn : Packet := examplePacket 11 20 1 2 5 { rsyn := true } 100 200

def movingTwice : Pair := moving.setNet false (theRsyn.toSegment :: moving.net false)

def deliverRsyn (s : Pair) : Pair := s.deliver false (exampleEnv 20 21) theRsyn

def plainAck : Packet := examplePacket 20 10 2 1 6 { ack := true } 200 101

def deliverAck (s : Pair) : Pair := s.deliver true (exampleEnv 10 11) plainAck

/-- The second copy is old, and its acknowledgment takes the RSYN out of the queue. -/
theorem plain_ack_drops_rsyn :
    (∃ l n, PairRun (fun _ _ _ _ _ => True) examplePair l n (deliverAck (deliverRsyn (deliverRsyn movingTwice)))) ∧
      ((deliverAck (deliverRsyn (deliverRsyn movingTwice))).sk true).salState = .sent ∧
      ((deliverAck (deliverRsyn (deliverRsyn movingTwice))).sk true).ctrlQueue = none ∧
      ((deliverAck (deliverRsyn (deliverRsyn movingTwice))).sk true).destroyed = false := by
  have hmigrate : PairStep (fun _ _ _ _ _ => True) _ _ examplePair moving := pairStep_migrate trivial
  have hduplicate : PairStep (fun _ _ _ _ _ => True) _ _ moving movingTwice := .duplicate (by decide +kernel)
  have hfirst : PairStep (fun _ _ _ _ _ => True) _ _ movingTwice (deliverRsyn movingTwice) :=
    pairStep_deliver (by decide +kernel) (by decide +kernel) trivial
  have hsecond : PairStep (fun _ _ _ _ _ => True) _ _ (deliverRsyn movingTwice)
      (deliverRsyn (deliverRsyn movingTwice)) :=
    pairStep_deliver (by decide +kernel) (by decide +kernel) trivial
  have hack : PairStep (fun _ _ _ _ _ => True) _ _ (deliverRsyn (deliverRsyn movingTwice))
      (deliverAck (deliverRsyn (deliverRsyn movingTwice))) :=
    pairStep_deliver (by decide +kernel) (by decide +kernel) trivial
  exact ⟨⟨_, _, ((((PairRun.refl.tail hmigrate).tail hduplicate).tail hfirst).tail hsecond).tail hack⟩,
    by decide +kernel⟩

end SalPendingRsyn
