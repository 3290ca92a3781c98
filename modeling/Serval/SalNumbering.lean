import Serval.SalPair

/-! # The numbers of two connected sockets

Seen from the number with which a side has started, nothing that the two sides hold or have sent is further
ahead than the numbers that the side has used up.
-/
namespace SalNumbering

open SerialNumber SalSocket SalInput SalControl SalRefine SalRuns SalPair List

variable {env : Env} {e : Event} {start c c' : Ctl} {ms : List Segment} {base : UInt32} {n k : ℕ}

def takesNumber (f : Flags) : Bool := f.fin || (f.rsyn && !f.ack)

def Allocated (base : UInt32) (n : ℕ) (f : Flags) (v : UInt32) : Prop :=
  takesNumber f = true → ahead base v + 1 ≤ n

variable {f : Flags} {v : UInt32} {s : Pair}

theorem Allocated.mono (h : Allocated base n f v) (hn : n ≤ k) : Allocated base k f v :=
  fun ht => (h ht).trans hn

/-! ## The side that sends -/

structure Sender (base : UInt32) (n : ℕ) (c : Ctl) : Prop where
  nxt : n < 2 ^ 32 → ahead base c.nxt = n
  una : ahead base c.una ≤ n
  queue : ∀ f v, c.queue = some (f, v) → Allocated base n f v

theorem Sender.nxt_le (h : Sender base n c) : ahead base c.nxt ≤ n := by
  by_cases hn : n < 2 ^ 32
  · exact (h.nxt hn).le
  · exact (ahead_lt base c.nxt).le.trans (not_lt.mp hn)

theorem Sender.congr (h : Sender base n c) (hnxt : c'.nxt = c.nxt) (huna : c'.una = c.una)
    (hqueue : c'.queue = c.queue) : Sender base n c' :=
  ⟨hnxt ▸ h.nxt, huna ▸ h.una, hqueue ▸ h.queue⟩

theorem Sender.enqueue (h : Sender base n c) (hn : n ≤ k) (hnxt : k < 2 ^ 32 → ahead base c'.nxt = k)
    (hf : Allocated base k (f.or c'.pending) c.nxt) : Sender base k (c'.enqueue f c.nxt) where
  nxt := hnxt
  una := h.nxt_le.trans hn
  queue := by
    rintro f' v ⟨⟩
    exact hf

def Sent (base : UInt32) (n : ℕ) (ms : List Segment) : Prop :=
  ∀ m ∈ ms, m.flags.rst = false → Allocated base n m.flags m.verno

theorem Sent.append {ms ms' : List Segment} (h : Sent base n ms) (h' : Sent base n ms') : Sent base n (ms ++ ms') := by
  intro m hm
  rcases mem_append.mp hm with hm | hm
  · exact h m hm
  · exact h' m hm

theorem Sent.mono (h : Sent base n ms) (hn : n ≤ k) : Sent base k ms :=
  fun m hm hrst => (h m hm hrst).mono hn

theorem xmit_sent {devs : ℕ → Option Addr} (h : Xmit devs c f v ms c')
    (hf : Allocated base n f v) : Sent base n ms := by
  intro m hm _ htakes
  rcases carries_numbers (h.carries m hm) with hflags | ⟨hflags, hverno, -⟩
  · simp [hflags, takesNumber] at htakes
  · rw [hflags] at htakes
    rw [hverno]
    exact hf htakes

theorem xmit_sender {devs : ℕ → Option Addr} (h : Xmit devs c f v ms c') (hc : Sender base n c) : Sender base n c' := by
  obtain ⟨s, d, rfl⟩ := h.frame
  exact hc.congr rfl rfl rfl

/-- What the actions of an event rely on: the acknowledgment in the packet is not ahead, and an
RSYN is not taken while a FIN is in the queue. -/
structure Relies (base : UInt32) (n : ℕ) (start : Ctl) (e : Event) : Prop where
  ackno : ∀ p, e = .packet p → p.flags.rst = false → p.flags.ack = true → ahead base p.ackno ≤ n
  fin : ∀ p, e = .packet p → Migrates start p → start.pending.fin = false

theorem acked_some {ackno : UInt32} (h : c.acked ackno = some (f, v)) : c.queue = some (f, v) := by
  rw [Ctl.acked, Option.filter_eq_some_iff] at h
  exact h.1

theorem act_sender (hrelies : Relies base n start e) (hn : n ≤ k) (h : Act env e start c ms c')
    (hc : Sender base k c) : Sender base (k + ahead c.nxt c'.nxt) c' ∧ Sent base (k + ahead c.nxt c'.nxt) ms := by
  -- an action outside of the numbering
  have hsilent : c'.nxt = c.nxt → c'.una = c.una → c'.queue = c.queue →
      Sender base (k + ahead c.nxt c'.nxt) c' ∧ Sent base (k + ahead c.nxt c'.nxt) [] := by
    intro hnxt huna hqueue
    rw [hnxt, ahead_self]
    exact ⟨hc.congr hnxt huna hqueue, by simp [Sent]⟩
  -- an action that only sends
  have hsends : ∀ {f v}, Xmit env.devs c f v ms c' → takesNumber f = false →
      Sender base (k + ahead c.nxt c'.nxt) c' ∧ Sent base (k + ahead c.nxt c'.nxt) ms := by
    intro f v hx hf
    rw [hx.nxt, ahead_self]
    exact ⟨xmit_sender hx hc, xmit_sent hx fun h => by simp [hf] at h⟩
  -- an action that uses up a number for what it puts into the queue
  have hnumber : ∀ {c₁ : Ctl} {f : Flags}, c₁.nxt = c.nxt + 1 →
      Xmit env.devs (c₁.enqueue f c.nxt) (f.or c₁.pending) c.nxt ms c' →
      Sender base (k + ahead c.nxt c'.nxt) c' ∧ Sent base (k + ahead c.nxt c'.nxt) ms := by
    intro c₁ f hnxt hx
    have hone := ahead_succ_self c.nxt
    have hahead : ahead c.nxt c'.nxt = 1 := by
      rw [hx.nxt]
      change ahead c.nxt c₁.nxt = 1
      rw [hnxt, hone]
    have hf : Allocated base (k + 1) (f.or c₁.pending) c.nxt := fun _ => Nat.add_le_add_right hc.nxt_le 1
    rw [hahead]
    refine ⟨xmit_sender hx (hc.enqueue (Nat.le_add_right k 1) (fun hk => ?_) hf), xmit_sent hx hf⟩
    have hk' := hc.nxt (by omega)
    rw [hnxt, ahead_trans (b := c.nxt) (by rw [hk', hone]; exact hk), hk', hone]
  cases h with
  | ack hx | activeReset hx => exact hsends hx rfl
  | reset =>
    refine ⟨by simpa using hc, ?_⟩
    intro m hm hrst
    rw [mem_singleton.mp hm] at hrst
    simp [resetSegment, Segment.flags] at hrst
  | @done _ queue destroyed hqueue =>
    refine ⟨?_, by simp [Sent]⟩
    simp only [ahead_self, add_zero]
    rcases hqueue with ⟨rfl, -⟩ | ⟨rfl, -⟩
    · exact hc.congr rfl rfl rfl
    · exact ⟨hc.nxt, hc.una, by simp⟩
  | state | rsynackDone | rsynackCross | rsyn | fin | respond => exact hsilent rfl rfl rfl
  | @rsynack p _ _ he hmigrates hx =>
    have hf : Allocated base k (Flags.or { rsyn := true, ack := true } start.pending) start.nxt := by
      intro htakes
      simp [takesNumber, Flags.or, hrelies.fin p he hmigrates] at htakes
    rw [hx.nxt, show ((start.rsynTaken p).enqueue { rsyn := true, ack := true } start.nxt).nxt =
      (start.rsynTaken p).nxt from rfl, ahead_self]
    exact ⟨xmit_sender hx (hc.enqueue le_rfl hc.nxt hf), xmit_sent hx hf⟩
  | @accept _ p he hrst hacceptable _ =>
    have hack : p.flags.ack = true := by
      simp only [Ctl.acceptable, Bool.and_eq_true] at hacceptable
      exact hacceptable.1.1
    obtain ⟨s, d, m, hframe⟩ := c.accept_frame p
    rw [hframe]
    refine ⟨?_, by simp [Sent]⟩
    simp only [ahead_self, add_zero]
    exact ⟨hc.nxt, (hrelies.ackno p he hrst hack).trans hn, fun f v hq => hc.queue f v (acked_some hq)⟩
  | sendFin _ hx | migrate _ _ hx => exact hnumber rfl hx
  | refused =>
    have hone := ahead_succ_self start.nxt
    refine ⟨?_, by simp [Sent]⟩
    simp only [hone]
    refine ⟨fun hk => ?_, hc.una.trans (Nat.le_add_right k 1),
      fun f v hq => (hc.queue f v hq).mono (Nat.le_add_right k 1)⟩
    have hk' := hc.nxt (by omega)
    rw [ahead_trans (b := start.nxt) (by rw [hk', hone]; exact hk), hk', hone]
  | @rexmit _ f v _ _ _ hq hx =>
    have hf : Allocated base k f v := hc.queue f v hq
    rw [hx.nxt, ahead_self]
    refine ⟨xmit_sender hx ⟨hc.nxt, hc.una, ?_⟩, xmit_sent hx hf⟩
    rintro f' v' ⟨⟩
    exact hf

theorem acts_sender (hrelies : Relies base n start e) (h : Acts env e start k c ms c') (hc : Sender base n c) :
    Sender base (n + k) c' ∧ Sent base (n + k) ms := by
  have hinv := h.invariant (P := fun k c ms => n ≤ k ∧ Sender base k c ∧ Sent base k ms) (n := n)
    (fun ⟨hn, hc, hms⟩ hact => ?_) ⟨le_rfl, hc, fun m hm => absurd hm not_mem_nil⟩
  · simpa using hinv.2
  · obtain ⟨hc', hms'⟩ := act_sender hrelies hn hact hc
    exact ⟨hn.trans (Nat.le_add_right _ _), hc', (hms.mono (Nat.le_add_right _ _)).append hms'⟩

/-! ## The side that receives -/

def Acks (base : UInt32) (n : ℕ) (ms : List Segment) : Prop :=
  ∀ m ∈ ms, m.flags.rst = false → m.flags.ack = true → ahead base m.ackno ≤ n

theorem Acks.append {ms ms' : List Segment} (h : Acks base n ms) (h' : Acks base n ms') : Acks base n (ms ++ ms') := by
  intro m hm
  rcases mem_append.mp hm with hm | hm
  · exact h m hm
  · exact h' m hm

theorem Acks.mono (h : Acks base n ms) (hn : n ≤ k) : Acks base k ms :=
  fun m hm hrst hack => (h m hm hrst hack).trans hn

theorem act_receiver (hp : ∀ p, e = .packet p → p.flags.rst = false → Allocated base n p.flags p.verno)
    (h : Act env e start c ms c') (hc : ahead base c.rcv ≤ n) : ahead base c'.rcv ≤ n ∧ Acks base n ms := by
  have hsends : ∀ {c₁ : Ctl} {f v}, Xmit env.devs c₁ f v ms c' → c₁.rcv = c.rcv →
      ahead base c'.rcv ≤ n ∧ Acks base n ms := by
    intro c₁ f v hx hrcv
    refine ⟨?_, fun m hm _ hack => ?_⟩
    · obtain ⟨s, d, rfl⟩ := hx.frame
      exact hrcv ▸ hc
    · rcases carries_numbers (hx.carries m hm) with hflags | ⟨-, -, hackno⟩
      · simp [hflags] at hack
      · rw [hackno, hrcv]
        exact hc
  have hsilent : c'.rcv = c.rcv → ahead base c'.rcv ≤ n ∧ Acks base n [] :=
    fun hrcv => ⟨hrcv ▸ hc, by simp [Acks]⟩
  -- a packet that takes a number is counted
  have htaken : ∀ {p : Packet}, e = .packet p → p.flags.rst = false → takesNumber p.flags = true →
      ahead base (p.verno + 1) ≤ n :=
    fun he hrst htakes => (ahead_succ_le _ _).trans (hp _ he hrst htakes)
  cases h with
  | ack hx | activeReset hx | rsynack _ _ hx | sendFin _ hx | migrate _ _ hx | rexmit _ _ hx => exact hsends hx rfl
  | reset =>
    refine ⟨hc, fun m hm hrst => ?_⟩
    rw [mem_singleton.mp hm] at hrst
    simp [resetSegment, Segment.flags] at hrst
  | done | state | rsynackDone | rsynackCross | refused | respond => exact hsilent rfl
  | rsyn he h => exact ⟨htaken he h.rst (by simp [takesNumber, h.rsyn, h.ack]), by simp [Acks]⟩
  | @accept _ p =>
    obtain ⟨s, d, m, hframe⟩ := c.accept_frame p
    exact hsilent (by rw [hframe])
  | fin he hfin hrst _ _ => exact ⟨htaken he hrst (by simp [takesNumber, hfin]), by simp [Acks]⟩

theorem acts_receiver (hp : ∀ p, e = .packet p → p.flags.rst = false → Allocated base n p.flags p.verno)
    (h : Acts env e start k c ms c') (hc : ahead base c.rcv ≤ n) : ahead base c'.rcv ≤ n ∧ Acks base n ms := by
  have hinv := h.invariant (P := fun _ c ms => ahead base c.rcv ≤ n ∧ Acks base n ms) (n := 0)
    (fun ⟨hc, hms⟩ hact => ?_) ⟨hc, fun m hm => absurd hm not_mem_nil⟩
  · simpa using hinv
  · obtain ⟨hc', hms'⟩ := act_receiver hp hact hc
    exact ⟨hc', hms.append hms'⟩

/-! ## Both sides -/

structure Agreeing (base : Bool → UInt32) (N : Bool → ℕ) (s : Pair) : Prop where
  sender : ∀ i, Sender (base i) (N i) (ctl (s.sk i))
  rcv : ∀ i, ahead (base i) (s.sk (!i)).rcv.nxt ≤ N i
  sent : ∀ i, Sent (base i) (N i) (s.net (!i))
  acks : ∀ i, Acks (base i) (N i) (s.net i)

def NoOverride (sk : Sock) (e : Event) : Prop :=
  ∀ p, e = .packet p → Migrates (ctl sk) p → (ctl sk).pending.fin = false

theorem pairStep_agreeing {base : Bool → UInt32} {N : Bool → ℕ} {s' : Pair}
    {o : Option (Bool × Event)} (h : PairStep (fun _ _ sk e _ => NoOverride sk e) o n s s') (hconn :
    ∀ i, Connected (s.sk i))
    (hs : Agreeing base N s) : ∃ N' : Bool → ℕ, N' true + N' false ≤ N true + N false + n ∧ Agreeing base N' s' := by
  rcases pairStep_cases h fun i => (hconn i).established with
    ⟨-, hsk, hnet⟩ | ⟨i, env, e, k, ms, -, hk, hmoves⟩
  · refine ⟨N, Nat.le_add_right _ _, ⟨?_, ?_, fun i m hm => hs.sent i m (hnet _ m hm),
      fun i m hm => hs.acks i m (hnet _ m hm)⟩⟩
    · rw [hsk]
      exact hs.sender
    · rw [hsk]
      exact hs.rcv
  · have hrelies : Relies (base i) (N i) (ctl (s.sk i)) e :=
      ⟨fun p he hrst hack => hs.acks i p.toSegment (hmoves.packet p he) hrst hack, hmoves.ok⟩
    have hpacket : ∀ p, e = .packet p → p.flags.rst = false → Allocated (base (!i)) (N (!i)) p.flags p.verno := by
      intro p he hrst
      refine hs.sent (!i) p.toSegment ?_ hrst
      simpa using hmoves.packet p he
    obtain ⟨hsender, hsent⟩ := acts_sender hrelies hmoves.acts (hs.sender i)
    have hrcv : ahead (base (!i)) (s.sk i).rcv.nxt ≤ N (!i) := by simpa using hs.rcv (!i)
    obtain ⟨hrcv', hacks⟩ := acts_receiver hpacket hmoves.acts hrcv
    have hle : N i ≤ N i + k := Nat.le_add_right _ _
    refine ⟨Function.update N i (N i + k), ?_, ⟨forall_side i ?_ ?_, forall_side i ?_ ?_, forall_side i ?_ ?_,
      forall_side i ?_ ?_⟩⟩
    · cases i <;> simp [Function.update] <;> omega
    · simpa using hsender
    · simpa [hmoves.other] using hs.sender (!i)
    · simpa [hmoves.other] using (hs.rcv i).trans hle
    · simpa [ctl] using hrcv'
    · simpa [hmoves.sent] using ((hs.sent i).mono hle).append hsent
    · have hold : Sent (base (!i)) (N (!i)) (s.net i) := by simpa using hs.sent (!i)
      have hleft : Sent (base (!i)) (N (!i)) (s'.net i) := fun m hm => hold m (hmoves.left m hm)
      simpa using hleft
    · simpa using Acks.mono (fun m hm => hs.acks i m (hmoves.left m hm)) hle
    · simpa [hmoves.sent] using (hs.acks (!i)).append hacks

theorem pairRun_agreeing {base : Bool → UInt32} {N : Bool → ℕ} {s' : Pair}
    {l : List (Bool × Event)} (h : PairRun (fun _ _ sk e _ => NoOverride sk e) s l n s') (hconn :
    ∀ i, Connected (s.sk i))
    (hs : Agreeing base N s) :
    (∀ i, Connected (s'.sk i)) ∧ ∃ N' : Bool → ℕ, N' true + N' false ≤ N true + N false + n ∧ Agreeing base N' s' := by
  induction h with
  | refl => exact ⟨hconn, N, le_rfl, hs⟩
  | @tail l o n k s₁ s₂ _ hstep ih =>
    obtain ⟨hconn₁, N₁, hN₁, hs₁⟩ := ih
    obtain ⟨N₂, hN₂, hs₂⟩ := pairStep_agreeing hstep hconn₁ hs₁
    exact ⟨pairStep_connected hstep hconn₁, N₂, by omega, hs₂⟩

structure Handshaken (s : Pair) : Prop where
  state : ∀ i, (s.sk i).skState = .connected
  una : ∀ i, (s.sk i).snd.una = (s.sk i).snd.nxt
  queue : ∀ i, (s.sk i).ctrlQueue = none
  rcv : ∀ i, (s.sk i).rcv.nxt = (s.sk (!i)).snd.nxt
  net : ∀ i, ∀ m ∈ s.net i, takesNumber m.flags = false ∧ (m.flags.ack = true → m.ackno = (s.sk i).snd.nxt)

theorem Handshaken.agreeing (h : Handshaken s) : Agreeing (fun i => (s.sk i).snd.nxt) (fun _ => 0) s where
  sender i := ⟨fun _ => ahead_self _, by rw [show (ctl (s.sk i)).una = _ from h.una i, ahead_self],
    by simp [ctl, h.queue i]⟩
  rcv i := by rw [h.rcv (!i), Bool.not_not, ahead_self]
  sent i m hm _ htakes := by simp [(h.net _ m hm).1] at htakes
  acks i m hm _ hack := by rw [(h.net i m hm).2 hack, ahead_self]

/-- After fewer than 2³¹ increments neither side has acknowledged what the other one has not yet
allocated, or has been acknowledged more than it has allocated itself, provided that no RSYN
replaces a FIN in a control queue. -/
theorem no_unallocated_number_acknowledged {s s' : Pair} {l : List (Bool × Event)} (hs : Handshaken s)
    (hrun : PairRun (fun _ _ sk e _ => NoOverride sk e) s l n s') (hn : n < 2 ^ 31) :
    ∀ i, after (s'.sk i).snd.una (s'.sk i).snd.nxt = false ∧ after (s'.sk (!i)).rcv.nxt (s'.sk i).snd.nxt = false ∧
      ∀ m ∈ s'.net i, m.flags.rst = false → m.flags.ack = true → after m.ackno (s'.sk i).snd.nxt = false := by
  have hconn : ∀ i, Connected (s.sk i) := fun i => by rw [Connected, hs.state]; rfl
  obtain ⟨-, N, hN, hs'⟩ := pairRun_agreeing hrun hconn hs.agreeing
  intro i
  have hlt : N i < 2 ^ 31 := by cases i <;> omega
  have hnxt : ahead (s.sk i).snd.nxt (s'.sk i).snd.nxt = N i := (hs'.sender i).nxt (by omega)
  have hahead : ∀ x, ahead (s.sk i).snd.nxt x ≤ N i → after x (s'.sk i).snd.nxt = false :=
    fun x hx => not_after_of_le (by rw [hnxt]; exact hx) (by rw [hnxt]; exact hlt)
  exact ⟨hahead _ (hs'.sender i).una, hahead _ (hs'.rcv i), fun m hm hrst hack => hahead _ (hs'.acks i m hm hrst hack)⟩

/-! The second side moves to another device while the FIN of the first one is lost. -/

theorem examplePair_handshaken : Handshaken examplePair where
  state := by decide
  una := by decide
  queue := by decide
  rcv := by decide
  net i m hm := absurd hm not_mem_nil

def finSent : Pair := examplePair.put true (servalSalClose (exampleEnv 10 11) ⟨examplePair.sk true, [], []⟩)

def theFin : Packet := examplePacket 10 20 1 2 5 { fin := true } 100 200

def finTaken : Pair := finSent.deliver false (exampleEnv 20 21) theFin

def theAck : Packet := examplePacket 20 10 2 1 6 { ack := true } 200 101

def acked : Pair := finTaken.deliver true (exampleEnv 10 11) theAck

theorem noOverride_of_flags (sk : Sock) {p : Packet} (h : p.flags.rsyn = false) : NoOverride sk (.packet p) := by
  intro q hq hmigrates
  cases hq
  cases h.symm.trans hmigrates.rsyn

/-- The FIN is delivered, and its acknowledgment is too. -/
theorem numbers_after_close : (acked.sk true).snd.una = 101 ∧ (acked.sk false).rcv.nxt = 101 ∧
    after (acked.sk true).snd.una (acked.sk true).snd.nxt = false ∧
    after (acked.sk false).rcv.nxt (acked.sk true).snd.nxt = false := by
  have hclose : PairStep (fun _ _ sk e _ => NoOverride sk e) _ _ examplePair finSent :=
    @PairStep.event _ _ true (exampleEnv 10 11) [] .close _ (by simp) rfl fun _ h => by cases h
  have hfin : PairStep (fun _ _ sk e _ => NoOverride sk e) _ _ finSent finTaken :=
    pairStep_deliver (by decide +kernel) (by decide +kernel) (noOverride_of_flags _ rfl)
  have hack : PairStep (fun _ _ sk e _ => NoOverride sk e) _ _ finTaken acked :=
    pairStep_deliver (by decide +kernel) (by decide +kernel) (noOverride_of_flags _ rfl)
  obtain ⟨huna, hrcv, -⟩ := no_unallocated_number_acknowledged examplePair_handshaken
    (((PairRun.refl.tail hclose).tail hfin).tail hack) (by decide +kernel) true
  exact ⟨by decide +kernel, by decide +kernel, huna, hrcv⟩

def rsynSent : Pair := finSent.migrate false (exampleEnv 20 21) 2

def theRsyn : Packet := examplePacket 21 10 2 1 6 { rsyn := true } 200 100

def rsynTaken : Pair := rsynSent.deliver true (exampleEnv 10 11) theRsyn

def theAnswer : Packet := examplePacket 10 21 1 2 5 { rsyn := true, ack := true, fin := true } 101 201

def answerTaken : Pair := rsynTaken.deliver false (exampleEnv 20 21) theAnswer

/-- The answer to the RSYN takes over the FIN and has a number that is not used up. -/
theorem unallocated_number_acknowledged :
    (∃ l n, n < 2 ^ 31 ∧ PairRun (fun _ _ _ _ _ => True) examplePair l n answerTaken) ∧
      (answerTaken.sk false).rcv.nxt = 102 ∧ (answerTaken.sk true).snd.nxt = 101 ∧
      after (answerTaken.sk false).rcv.nxt (answerTaken.sk true).snd.nxt = true := by
  have hclose : PairStep (fun _ _ _ _ _ => True) _ _ examplePair finSent :=
    @PairStep.event _ _ true (exampleEnv 10 11) [] .close _ (by simp) rfl trivial
  have hmigrate : PairStep (fun _ _ _ _ _ => True) _ _ finSent rsynSent := pairStep_migrate trivial
  have hrsyn : PairStep (fun _ _ _ _ _ => True) _ _ rsynSent rsynTaken :=
    pairStep_deliver (by decide +kernel) (by decide +kernel) trivial
  have hanswer : PairStep (fun _ _ _ _ _ => True) _ _ rsynTaken answerTaken :=
    pairStep_deliver (by decide +kernel) (by decide +kernel) trivial
  exact ⟨⟨_, _, by decide +kernel, (((PairRun.refl.tail hclose).tail hmigrate).tail hrsyn).tail hanswer⟩,
    by decide +kernel⟩

end SalNumbering
