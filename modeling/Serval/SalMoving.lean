import Serval.SalPair
import Serval.SalTeardown

/-! # Where two migrating sockets believe each other to be

As long as a side is not asked to migrate while it migrates itself, what one side takes for the address of the
other one is the address that the other one sends from.
-/
namespace SalMoving

open SerialNumber SalSocket SalInput SalControl SalRefine SalRuns SalPair List Option
open SalTeardown (Quiet QuietReceive SameQueue sendAck_same controlProcess_finQueued receiveIf_keeps
  queueAndPush_skState rexmit_skState transportCall_keeps)
open Bool hiding not_or

variable {env : Env} {e : Event} {start c c' y : Ctl} {ms out : List Segment} {devs : ℕ → Option Addr}
  {base rcv : UInt32} {n k : ℕ} {addr : Addr}

def isRsyn (f : Flags) : Bool := f.rsyn && !f.ack

/-- Where the peer is: the address that its last RSYN came from, also if that is not completed. -/
def view (c : Ctl) : Addr := if c.salState = .recv then c.migDaddr else c.daddr

def movingTo (devs : ℕ → Option Addr) (c : Ctl) : Addr := (devs c.migDevIf).getD c.saddr

/-! ## Events that keep the connection -/

structure Open (c : Ctl) : Prop where
  state : c.skState = .connected
  cross : c.salState ≠ .sentRecv

/-- A side is not asked to migrate while it answers an RSYN, and takes no RSYN while its own is not answered. -/
structure InTurn (e : Event) (c : Ctl) : Prop where
  migrate : ∀ dev, e = .migrate dev → c.salState ≠ .recv
  rsyn : ∀ p, e = .packet p → Migrates c p → c.salState ≠ .sent

theorem act_cross (hstart : Open start) (hturn : InTurn e start) (h : Act env e start c ms c')
    (hc : c.salState ≠ .sentRecv) : c'.salState ≠ .sentRecv := by
  have hxmit : ∀ {c₁ : Ctl} {f v}, Xmit env.devs c₁ f v ms c' → c₁.salState ≠ .sentRecv → c'.salState ≠ .sentRecv := by
    intro c₁ f v hx hsal
    obtain ⟨s, d, rfl⟩ := hx.frame
    exact hsal
  have hcross := hstart.cross
  cases h with
  | ack hx | activeReset hx | rsynack _ _ hx | sendFin _ hx | rexmit _ _ hx => exact hxmit hx hc
  | reset | done | state | fin | refused | respond => exact hc
  | rsynackDone | rsynackCross => simp
  | @rsyn p he hmigrates =>
    have hsent := hturn.rsyn p he hmigrates
    change received start.salState ≠ .sentRecv
    cases hs : start.salState <;> simp_all [received]
  | @accept _ p =>
    rw [c.accept_salState]
    cases hs : c.salState <;> cases hr : p.flags.rsyn <;> simp_all [settled]
  | @migrate dev _ _ he _ hx =>
    have hrecv := hturn.migrate dev he
    refine hxmit hx ?_
    change requested start.salState ≠ .sentRecv
    cases hs : start.salState <;> simp_all [requested]

theorem act_connected (hstart : start.skState = .connected) (h : Act env e start c ms c')
    (hc' : c'.skState = .connected) : c.skState = .connected := by
  have hxmit : ∀ {c₁ : Ctl} {f v}, Xmit env.devs c₁ f v ms c' → c₁.skState = c.skState → c.skState = .connected := by
    intro c₁ f v hx hstate
    obtain ⟨s, d, rfl⟩ := hx.frame
    exact hstate ▸ hc'
  cases h with
  | ack hx | activeReset hx | rsynack _ _ hx | sendFin _ hx | rexmit _ _ hx => exact hxmit hx rfl
  | done => simp at hc'
  | state _ _ hconn =>
    have hrespond := hconn hc'
    simp [hstart] at hrespond
  | @accept _ p =>
    obtain ⟨s, d, m, hframe⟩ := c.accept_frame p
    exact (congrArg Ctl.skState hframe).symm.trans hc'
  | rsyn | migrate => exact hstart
  | reset | rsynackDone | rsynackCross | fin | refused | respond => exact hc'

theorem acts_open {P : ℕ → Ctl → List Segment → Prop} (hstart : Open start) (hturn : InTurn e start)
    (step : ∀ {n c ms c' ms'}, Open c → Open c' → P n c ms → Act env e start c ms' c' →
      P (n + ahead c.nxt c'.nxt) c' (ms ++ ms'))
    (h : Acts env e start k c ms c') (hopen : Open c) (hc : P n c out) (hc' : c'.skState = .connected) :
    Open c' ∧ P (n + k) c' (out ++ ms) := by
  induction h with
  | refl => exact ⟨hopen, by simpa using hc⟩
  | tail hacts hact ih =>
    obtain ⟨hopen₁, hp⟩ := ih hopen hc (act_connected hstart.state hact hc')
    have hopen' := Open.mk hc' (act_cross hstart hturn hact hopen₁.cross)
    exact ⟨hopen', by simpa [add_assoc] using step hopen₁ hopen' hp hact⟩

/-! ## The side that moves -/

structure Announced (devs : ℕ → Option Addr) (base : UInt32) (n : ℕ) (c : Ctl) (m : Segment) : Prop where
  fin : m.flags.fin = false
  verno : isRsyn m.flags = true → ahead base m.verno + 1 ≤ n
  saddr : isRsyn m.flags = true → c.salState = .sent → m.verno + 1 = c.nxt → m.saddr = movingTo devs c

/-- One side, the packets it has sent, and what the other side expects from it and takes for its
address. -/
structure Sends (devs : ℕ → Option Addr) (base : UInt32) (n : ℕ) (rcv : UInt32) (addr : Addr) (c : Ctl)
    (out : List Segment) : Prop where
  nxt : ahead base c.nxt = n
  una : c.salState = .sent → c.una = c.nxt ∨ c.una + 1 = c.nxt
  bound : devs c.boundDevIf = some c.saddr
  queue : ∀ f v, c.queue = some (f, v) → f.fin = false ∧ (c.salState ≠ .recv → f.ack = false) ∧
    (isRsyn f = true → ahead base v + 1 ≤ n)
  rcv_le : ahead base rcv ≤ n
  settled : c.salState ≠ .sent → rcv = c.nxt ∧ addr = c.saddr
  pending : c.salState = .sent → rcv = c.nxt → addr = movingTo devs c
  out : ∀ m ∈ out, m.flags.rst = false → Announced devs base n c m

theorem Sends.append {out' : List Segment} (h : Sends devs base n rcv addr c out)
    (hout : ∀ m ∈ out', m.flags.rst = false → Announced devs base n c m) : Sends devs base n rcv addr c (out ++ out') :=
  { h with
    out := fun m hm => (mem_append.mp hm).elim (h.out m) (hout m) }

theorem xmit_open {f : Flags} {v : UInt32} (h : Xmit devs c f v ms c') (hstate : c.skState = .connected)
    (hbound : devs c.boundDevIf = some c.saddr) : c' = c := by
  have hsends : sendsAtOnce c.skState = true ∨ c.daddr ≠ 0 := .inl (by rw [hstate]; rfl)
  have hdaddr := h.daddr hsends
  have hsaddr : c'.saddr = c.saddr := by
    rcases h.saddr hsends with hs | ⟨-, hs⟩
    · exact hs
    · exact some.inj ((hs (by simp [hbound])).symm.trans hbound)
  obtain ⟨s, d, rfl⟩ := h.frame
  simp only at hdaddr hsaddr
  rw [hdaddr, hsaddr]

theorem xmit_announced {f : Flags} {v : UInt32} (h : Xmit devs c f v ms c') (hstate : c.skState = .connected)
    (hfin : f.fin = false) (hverno : isRsyn f = true → ahead base v + 1 ≤ n) :
    ∀ m ∈ ms, m.flags.rst = false → Announced devs base n c m := by
  intro m hm _
  have haddr := h.addressed (.inl (by rw [hstate]; rfl)) m hm
  rcases carries_numbers (h.carries m hm) with hflags | ⟨hflags, hv, -⟩
  · exact ⟨by simp [hflags], by simp [hflags, isRsyn], by simp [hflags, isRsyn]⟩
  · refine ⟨by rw [hflags]; exact hfin, ?_, fun hrsyn _ _ => ?_⟩
    · rw [hflags, hv]
      exact hverno
    · rw [hflags] at hrsyn
      have hf : f.rsyn = true := by
        simp only [isRsyn, and_eq_true] at hrsyn
        exact hrsyn.1
      rw [haddr.saddr, if_pos hf]
      rfl

structure Relies (base rcv : UInt32) (e : Event) : Prop where
  fin : ∀ p, e = .packet p → p.flags.rst = false → p.flags.fin = false
  ackno : ∀ p, e = .packet p → p.flags.rst = false → p.flags.ack = true → ahead base p.ackno ≤ ahead base rcv

section Steps
variable (h : Sends devs base n rcv addr c out)
include h

theorem Sends.pending_flags : c.pending.fin = false ∧ (c.salState ≠ .recv → c.pending.ack = false) := by
  cases hq : c.queue with
  | none => simp [Ctl.pending, hq]
  | some q =>
    obtain ⟨f, v⟩ := q
    obtain ⟨hfin, hack, -⟩ := h.queue f v hq
    simpa [Ctl.pending, hq] using ⟨hfin, hack⟩

theorem Sends.rsynackDone {a : Addr} {ackno : UInt32} (hlt : n < 2 ^ 31) (hsal : c.salState = .sent)
    (hdev : devs c.migDevIf = some a) (hackno : ackno = c.una + 1) (hle : ahead base ackno ≤ ahead base rcv) :
    Sends devs base n rcv addr
      { c with salState := .initial, saddr := a, boundDevIf := c.migDevIf, migDevIf := 0 } out := by
  have hnxt : ackno = c.nxt := by
    rcases h.una hsal with huna | huna
    · have hahead : ahead base ackno = n + 1 := by
        rw [hackno, huna, ahead_succ (by rw [h.nxt]; omega), h.nxt]
      have := h.rcv_le
      omega
    · rw [hackno, huna]
  have hrcv : rcv = c.nxt := by
    refine @ahead_inj base _ _ (le_antisymm ?_ ?_)
    · rw [h.nxt]
      exact h.rcv_le
    · rw [← hnxt]
      exact hle
  have haddr : addr = a := by rw [h.pending hsal hrcv, movingTo, hdev, getD_some]
  exact
    { h with
      una := fun hs => by simp at hs
      bound := hdev
      queue := fun f v hq => ⟨(h.queue f v hq).1, fun _ => (h.queue f v hq).2.1 (by simp [hsal]), (h.queue f v hq).2.2⟩
      settled := fun _ => ⟨hrcv, haddr⟩
      pending := fun hs => by simp at hs
      out := fun m hm hrst => ⟨(h.out m hm hrst).fin, (h.out m hm hrst).verno, fun _ hs => by simp at hs⟩ }

omit h in
theorem received_recv {s : RsynState} (h : received s ≠ .sentRecv) : received s = .recv := by
  cases s <;> first | rfl | exact absurd rfl h

theorem Sends.rsynTaken {p : Packet} (hsal : received c.salState ≠ .sentRecv) :
    Sends devs base n rcv addr (c.rsynTaken p) out := by
  have hnot : c.salState ≠ .sent := fun hs => hsal (by rw [hs]; rfl)
  have hrecv := received_recv hsal
  have hsent : (c.rsynTaken p).salState ≠ .sent := by
    change received c.salState ≠ .sent
    simp [hrecv]
  exact
    { h with
      una := fun hs => absurd hs hsent
      queue := fun f v hq => ⟨(h.queue f v hq).1, fun hs => absurd hrecv hs, (h.queue f v hq).2.2⟩
      settled := fun _ => h.settled hnot
      pending := fun hs => absurd hs hsent
      out := fun m hm hrst => ⟨(h.out m hm hrst).fin, (h.out m hm hrst).verno, fun _ hs => absurd hs hsent⟩ }

theorem Sends.rsynack (hsal : c.salState = .recv) :
    Sends devs base n rcv addr (c.enqueue { rsyn := true, ack := true } c.nxt) out :=
  { h with
    una := fun hs => absurd hs (by simp [Ctl.enqueue, hsal])
    queue := by
      rintro f v ⟨⟩
      exact ⟨by simpa [Flags.or] using h.pending_flags.1, fun hs => absurd hsal hs, by simp [isRsyn, Flags.or]⟩
    out := fun m hm hrst => ⟨(h.out m hm hrst).fin, (h.out m hm hrst).verno, (h.out m hm hrst).saddr⟩ }

theorem Sends.migrate {dev : ℕ} (hlt : n + 1 < 2 ^ 31) (hstate : c.skState = .connected)
    (hsal : requested c.salState ≠ .sentRecv) :
    Sends devs base (n + 1) rcv addr
      ({ c with migDevIf := dev, nxt := c.nxt + 1, salState := requested c.salState }.enqueue
        (rsynFlags c.skState) c.nxt) out := by
  have hrecv : c.salState ≠ .recv := fun hs => hsal (by rw [hs]; rfl)
  have hsent : requested c.salState = .sent := by
    cases hs : c.salState <;> simp_all [requested]
  have hnxt : ahead base (c.nxt + 1) = n + 1 := by rw [ahead_succ (by rw [h.nxt]; omega), h.nxt]
  obtain ⟨hfin, hack⟩ := h.pending_flags
  exact
    { h with
      nxt := hnxt
      una := fun _ => .inr rfl
      queue := by
        rintro f v ⟨⟩
        refine ⟨?_, fun _ => ?_, fun _ => by rw [h.nxt]⟩
        · change (finPending c.skState || c.pending.fin) = false
          simp [hstate, finPending, hfin]
        · change (false || c.pending.ack) = false
          simp [hack hrecv]
      rcv_le := h.rcv_le.trans (Nat.le_add_right n 1)
      settled := fun hs => absurd hsent hs
      pending := fun _ hrcv => by
        have hle := h.rcv_le
        rw [hrcv] at hle
        change ahead base (c.nxt + 1) ≤ n at hle
        omega
      out := fun m hm hrst => by
        obtain ⟨hf, hv, -⟩ := h.out m hm hrst
        refine ⟨hf, fun hr => (hv hr).trans (Nat.le_add_right n 1), fun hr _ hverno => ?_⟩
        have hle := hv hr
        change m.verno + 1 = c.nxt + 1 at hverno
        have hcancel : m.verno = c.nxt := by simpa using hverno
        rw [hcancel, h.nxt] at hle
        omega }

theorem Sends.accept {p : Packet} (hcross : c.salState ≠ .sentRecv) (hacceptable : c.acceptable p = true) :
    Sends devs base n rcv addr (c.accept p) out := by
  have hsal := c.accept_salState p
  have hsent : (c.accept p).salState = .sent → c.salState = .sent := by
    rw [hsal]
    cases hs : c.salState <;> cases hr : p.flags.rsyn <;> simp_all [SalControl.settled]
  have hnot : (c.accept p).salState ≠ .sent → c.salState ≠ .sent := by
    rw [hsal]
    rintro hne hs
    exact hne (by rw [hs]; cases p.flags.rsyn <;> rfl)
  obtain ⟨s, d, m, hframe⟩ := c.accept_frame p
  rw [hframe] at hsent hnot ⊢
  simp only [Ctl.acceptable, and_eq_true, not_eq_true'] at hacceptable
  obtain ⟨⟨-, hbefore⟩, hafter⟩ := hacceptable
  exact
    { h with
      una := fun hs => by
        have hafter : after p.ackno c.nxt = false := by simpa [hsent hs, migrating] using hafter
        rcases h.una (hsent hs) with huna | huna
        · rw [huna] at hbefore
          by_contra hne
          rw [not_or] at hne
          simp [after_of_not_before hbefore hne.1] at hafter
        · rw [← huna] at hafter
          rcases eq_or_eq_succ hbefore hafter with heq | heq
          · exact .inr (by simp only; rw [heq, huna])
          · exact .inl (by simp only; rw [heq, huna])
      queue := fun f v hq => by
        simp only [Ctl.acked, filter_eq_some_iff, not_eq_true', or_eq_false_iff] at hq
        obtain ⟨hfin, hack, hverno⟩ := h.queue f v hq.1
        exact ⟨hfin, fun _ => hack fun hs => by simp [hs, migrating] at hq, hverno⟩
      settled := fun hs => h.settled (hnot hs)
      pending := fun hs => h.pending (hsent hs)
      out := fun m hm hrst => ⟨(h.out m hm hrst).fin, (h.out m hm hrst).verno,
        fun hr hs => (h.out m hm hrst).saddr hr (hsent hs)⟩ }

end Steps

/-! ## The other side -/

def Acked (base rcv : UInt32) (ms : List Segment) : Prop :=
  ∀ m ∈ ms, m.flags.rst = false → m.flags.ack = true → ahead base m.ackno ≤ ahead base rcv

theorem Acked.append {rcv' : UInt32} {ms' : List Segment} (h : Acked base rcv ms) (h' : Acked base rcv' ms')
    (hle : ahead base rcv ≤ ahead base rcv') : Acked base rcv' (ms ++ ms') := by
  intro m hm hrst hack
  rcases mem_append.mp hm with hm | hm
  · exact (h m hm hrst hack).trans hle
  · exact h' m hm hrst hack

theorem xmit_acked {f : Flags} {v : UInt32} (h : Xmit devs c f v ms c') : Acked base c.rcv ms := by
  intro m hm _ hack
  rcases carries_numbers (h.carries m hm) with hflags | ⟨-, -, hackno⟩
  · simp [hflags] at hack
  · rw [hackno]

theorem Sends.taken {m : Segment} (hy : Sends devs base n rcv addr y out) (hlt : n < 2 ^ 31) (hm : m ∈ out)
    (hrst : m.flags.rst = false) (hrsyn : isRsyn m.flags = true) (hnew : before m.verno rcv = false) :
    Sends devs base n (m.verno + 1) m.saddr y out ∧ ahead base rcv ≤ ahead base (m.verno + 1) := by
  obtain ⟨hfin, hverno, hsaddr⟩ := hy.out m hm hrst
  have hle := hverno hrsyn
  have hrcv := hy.rcv_le
  have hsucc : ahead base (m.verno + 1) = ahead base m.verno + 1 := ahead_succ (by omega)
  have hbefore : ¬ahead base m.verno < ahead base rcv := by
    rw [← before_iff_lt (by omega) (by omega), hnew]
    simp
  refine ⟨{ hy with rcv_le := by omega, settled := fun hs => ?_, pending := fun hs hnxt => hsaddr hrsyn hs hnxt },
    by omega⟩
  have heq := congrArg (ahead base) (hy.settled hs).1
  have hnxt := hy.nxt
  omega

theorem accept_view {p : Packet} (hcross : c.salState ≠ .sentRecv) : view (c.accept p) = view c := by
  rw [Ctl.accept]
  generalize c.acked p.ackno = q
  obtain ⟨⟩ := c
  cases ‹RsynState› <;> cases p.flags.rsyn <;> first | rfl | exact absurd rfl hcross

/-! ## Both sides in one action -/

theorem act_sends {devs' : ℕ → Option Addr} {base' : UInt32} {n' : ℕ} {out' : List Segment}
    (hstart : start.skState = .connected) (hopen : Open c) (hopen' : Open c') (hdevs : env.devs = devs)
    (hclose : e ≠ .close) (hcalls : ¬Calls env e .sendFin) (hrelies : Relies base rcv e)
    (hp : ∀ p, e = .packet p → p.toSegment ∈ out') (hlt : n + ahead c.nxt c'.nxt < 2 ^ 31) (hlt' : n' < 2 ^ 31)
    (h : Act env e start c ms c')
    (hc : Sends devs base n rcv addr c out) (hy : Sends devs' base' n' c.rcv (view c) y out') :
    Sends devs base (n + ahead c.nxt c'.nxt) rcv addr c' (out ++ ms) ∧ Sends devs' base' n' c'.rcv (view c') y out' ∧
      ahead base' c.rcv ≤ ahead base' c'.rcv ∧ Acked base' c'.rcv ms := by
  have hn : n < 2 ^ 31 := by omega
  subst hdevs
  -- an action that sends from a state in which it may, and uses up no number
  have hxmit : ∀ {c₁ : Ctl} {f v}, Sends env.devs base n rcv addr c₁ out → Xmit env.devs c₁ f v ms c' →
      c₁.skState = .connected → c₁.nxt = c.nxt → f.fin = false → (isRsyn f = true → ahead base v + 1 ≤ n) →
      c₁.rcv = c.rcv → view c₁ = view c → Sends env.devs base (n + ahead c.nxt c'.nxt) rcv addr c' (out ++ ms) ∧
        Sends devs' base' n' c'.rcv (view c') y out' ∧ ahead base' c.rcv ≤ ahead base' c'.rcv ∧
          Acked base' c'.rcv ms := by
    intro c₁ f v hc₁ hx hstate hnxt hfin hverno hrcv hview
    obtain rfl := xmit_open hx hstate hc₁.bound
    rw [hnxt, ahead_self, hrcv, hview]
    exact ⟨hc₁.append (xmit_announced hx hstate hfin hverno), hy, le_rfl, hrcv ▸ xmit_acked hx⟩
  have hsilent : Sends env.devs base n rcv addr c' out → c'.nxt = c.nxt → c'.rcv = c.rcv → view c' = view c →
      Sends env.devs base (n + ahead c.nxt c'.nxt) rcv addr c' (out ++ []) ∧
        Sends devs' base' n' c'.rcv (view c') y out' ∧ ahead base' c.rcv ≤ ahead base' c'.rcv ∧
          Acked base' c'.rcv [] := by
    intro hc' hnxt hrcv hview
    rw [hnxt, ahead_self, append_nil, hrcv, hview]
    exact ⟨hc', hy, le_rfl, by simp [Acked]⟩
  cases h with
  | ack hx | activeReset hx => exact hxmit hc hx hopen.state rfl rfl (by simp [isRsyn]) rfl rfl
  | reset _ hclosed => simp [hopen.state] at hclosed
  | done => exact absurd hopen'.state (by simp)
  | state _ _ hconn =>
    have hrespond := hconn hopen'.state
    simp [hstart] at hrespond
  | rsynackDone he _ hack hrst hsal hdev hackno =>
    exact hsilent (hc.rsynackDone hn hsal hdev hackno (hrelies.ackno _ he hrst hack)) rfl rfl (by simp [view, hsal])
  | rsynackCross _ _ _ _ hsal => exact absurd hsal hopen.cross
  | @rsyn p he hmigrates =>
    have hview : view (start.rsynTaken p) = p.saddr := if_pos (received_recv hopen'.cross)
    obtain ⟨hy', hle⟩ := hy.taken hlt' (hp p he) hmigrates.rst
      (by simp [isRsyn, hmigrates.rsyn, hmigrates.ack]) hmigrates.verno
    have hnxt : ahead start.nxt (start.rsynTaken p).nxt = 0 := ahead_self _
    rw [hview, hnxt, append_nil]
    exact ⟨hc.rsynTaken hopen'.cross, hy', hle, by simp [Acked]⟩
  | @rsynack p _ _ _ _ hx =>
    have hfin : start.pending.fin = false := hc.pending_flags.1
    exact hxmit (hc.rsynack (received_recv hopen.cross)) hx hopen.state rfl (by simp [Flags.or, hfin])
      (by simp [isRsyn, Flags.or]) rfl rfl
  | @accept _ p _ _ hacceptable _ =>
    obtain ⟨s, d, m, hframe⟩ := c.accept_frame p
    exact hsilent (hc.accept hopen.cross hacceptable) (congrArg Ctl.nxt hframe :) (congrArg Ctl.rcv hframe :)
      (accept_view hopen.cross)
  | fin he hfin hrst => simp [hrelies.fin _ he hrst] at hfin
  | sendFin he _ =>
    rcases he with ⟨he, -⟩ | he
    · exact absurd he hclose
    · exact absurd he hcalls
  | refused _ hrefuses => simp [hstart, refusesRsyn] at hrefuses
  | @migrate dev _ _ he _ hx =>
    have hnxt : c'.nxt = start.nxt + 1 := hx.nxt
    rw [hnxt, ahead_succ_self] at hlt ⊢
    have hcross : requested start.salState ≠ .sentRecv := by
      obtain ⟨s, d, rfl⟩ := hx.frame
      exact hopen'.cross
    have hc₁ := @Sends.migrate _ _ _ _ _ _ _ hc dev hlt hopen.state hcross
    obtain rfl := xmit_open hx hopen.state hc₁.bound
    have hview : (if requested start.salState = .recv then start.migDaddr else start.daddr) = view start := by
      rw [view]
      cases hs : start.salState <;> simp_all [requested]
    refine ⟨hc₁.append (xmit_announced hx hopen.state ?_ fun _ => by rw [hc.nxt]), ?_, le_rfl, xmit_acked hx⟩
    · change (finPending start.skState || start.pending.fin) = false
      simp [hopen.state, finPending, hc.pending_flags.1]
    · change Sends devs' base' n' start.rcv (if requested start.salState = .recv then start.migDaddr else start.daddr)
        y out'
      rwa [hview]
  | @rexmit _ f v _ _ _ hq hx =>
    obtain ⟨hfin, hack, hverno⟩ := hc.queue f v hq
    have hc₁ : Sends env.devs base n rcv addr { c with queue := some ({ f with retrans := true }, v) } out :=
      { hc with
        queue := by
          rintro f' v' ⟨⟩
          exact ⟨hfin, hack, hverno⟩
        out := fun m hm hrst => ⟨(hc.out m hm hrst).fin, (hc.out m hm hrst).verno, (hc.out m hm hrst).saddr⟩ }
    exact hxmit hc₁ hx hopen.state rfl hfin hverno rfl rfl
  | respond _ hrespond => simp [hopen.state] at hrespond

/-! ## What a side has been asked for -/

structure Follows (asked : Option ℕ) (c : Ctl) : Prop where
  sent : c.salState = .sent → asked = some c.migDevIf
  settled : c.salState ≠ .sent → c.migDevIf = 0 ∧ ∀ dev, asked = some dev → c.boundDevIf = dev

theorem act_follows {asked : Option ℕ} (hopen : Open c) (hopen' : Open c') (he : ∀ dev, e ≠ .migrate dev)
    (h : Act env e start c ms c') (hc : Follows asked c) : Follows asked c' := by
  have hsame : c'.salState = c.salState → c'.migDevIf = c.migDevIf → c'.boundDevIf = c.boundDevIf →
      Follows asked c' := by
    intro hsal hmig hbound
    refine ⟨?_, ?_⟩ <;> rw [hsal, hmig]
    · exact hc.sent
    · rw [hbound]
      exact hc.settled
  have hxmit : ∀ {c₁ : Ctl} {f v}, Xmit env.devs c₁ f v ms c' → c₁.salState = c.salState →
      c₁.migDevIf = c.migDevIf → c₁.boundDevIf = c.boundDevIf → Follows asked c' := by
    intro c₁ f v hx hsal hmig hbound
    obtain ⟨s, d, rfl⟩ := hx.frame
    exact hsame hsal hmig hbound
  cases h with
  | ack hx | activeReset hx | rsynack _ _ hx | sendFin _ hx | rexmit _ _ hx => exact hxmit hx rfl rfl rfl
  | reset => exact hc
  | done | state | fin => exact hsame rfl rfl rfl
  | rsynackDone _ _ _ _ hsal =>
    refine ⟨fun hs => by simp at hs, fun _ => ⟨rfl, fun dev hasked => ?_⟩⟩
    exact some.inj ((hc.sent hsal).symm.trans hasked)
  | rsynackCross _ _ _ _ hsal => exact absurd hsal hopen.cross
  | @rsyn p =>
    have hcross : received start.salState ≠ .sentRecv := hopen'.cross
    have hnot : start.salState ≠ .sent := fun hs => hcross (by rw [hs]; rfl)
    refine ⟨fun hs => ?_, fun _ => hc.settled hnot⟩
    change received start.salState = .sent at hs
    cases hsal : start.salState <;> simp [hsal, received] at hs
  | @accept _ p =>
    have hsal := c.accept_salState p
    obtain ⟨s, d, m, hframe⟩ := c.accept_frame p
    rw [hframe] at hsal ⊢
    have hcross := hopen.cross
    refine ⟨fun hs => hc.sent ?_, fun hs => hc.settled fun hsent => hs ?_⟩
    · change s = .sent at hs
      cases hs' : c.salState <;> cases hr : p.flags.rsyn <;> simp_all [SalControl.settled]
    · change s = .sent
      cases hr : p.flags.rsyn <;> simp_all [SalControl.settled]
  | refused hmigrate | migrate hmigrate => exact absurd hmigrate (he _)
  | respond _ hrespond => simp [hopen.state] at hrespond

theorem migrate_follows {w : World} {dev : ℕ} (hstate : w.sk.skState = .connected)
    (hopen : Open (ctl (servalSockMigrate env w dev).1.sk)) :
    Follows (some dev) (ctl (servalSockMigrate env w dev).1.sk) := by
  rw [migrate_pushes env w dev (by rw [hstate]; rfl)] at hopen ⊢
  obtain ⟨ms, -, hx⟩ := queueAndPush_sent env _ _ _
  obtain ⟨s, d, hframe⟩ := hx.frame
  rw [hframe] at hopen ⊢
  have hcross : requested w.sk.salState ≠ .sentRecv := hopen.cross
  have hsent : requested w.sk.salState = .sent := by
    cases hs : w.sk.salState <;> simp_all [requested]
  exact ⟨fun _ => rfl, fun hs => absurd hsent hs⟩

/-! ## Both sides -/

/-- An event that does not close the connection and is in turn. -/
structure Moving (devs : Bool → ℕ → Option Addr) (i : Bool) (env : Env) (sk : Sock) (e : Event) : Prop where
  devs : env.devs = devs i
  close : e ≠ .close
  timewait : e ≠ .timewaitTimeout
  calls : ∀ call, Calls env e call → Quiet call ∧ call ≠ .sendFin
  rst : ∀ p, e = .packet p → p.flags.rst = true → hasValidVerno p sk = false
  rexmit : e = .rexmitTimeout → sk.retransmits.toNat ≠ env.maxRetransmits
  turn : InTurn e (ctl sk)

theorem connProcess_connected {w : World} {p : Packet} (hquiet : QuietReceive env) (hstate : w.sk.skState = .connected)
    (hrst : p.flags.rst = true → hasValidVerno p w.sk = false) (hfin : p.flags.rst = false → p.flags.fin = false) :
    (connProcess env w p).sk.skState = .connected := by
  rw [connProcess]
  cases hr : p.flags.rst
  · have hcontrol := (@controlProcess_finQueued env w p hr).2.1.trans hstate
    simp only
    split
    · rw [dispatch, hcontrol]
      simp only [servalSalConnectedStateProcess, hfin hr, false_eq_true, if_false]
      rw [(receiveIf_keeps hquiet).1, ackProcess_frame.2]
      exact hcontrol
    · exact hcontrol
  · have hctrl : p.ctrl.isNone = false := by
      cases hctrl : p.ctrl <;> simp_all [Segment.flags]
    simp only [controlProcess, hctrl, hrst hr, Bool.not_false, false_eq_true, if_false, if_true]
    exact sendAck_same.skState.trans hstate

theorem step_connected {devs : Bool → ℕ → Option Addr} {i : Bool} {w w' : World} (hok : Moving devs i env w.sk e)
    (hfin : ∀ p, e = .packet p → p.flags.rst = false → p.flags.fin = false) (hstate : w.sk.skState = .connected)
    (hstep : step env w e = some w') : w'.sk.skState = .connected := by
  cases e with
  | packet p =>
    rw [step_packet (by simp [Established, hstate])] at hstep
    cases hstep
    exact connProcess_connected (fun call hcall => (hok.calls call (.inr ⟨p, rfl, hcall⟩)).1) hstate (hok.rst p rfl)
      (hfin p rfl)
  | close => exact absurd rfl hok.close
  | migrate dev =>
    cases hstep
    rw [migrate_pushes env w dev (by rw [hstate]; rfl), queueAndPush_skState]
    exact hstate
  | rexmitTimeout =>
    cases hstep
    rw [servalSalRexmitTimeout, if_neg (hok.rexmit rfl)]
    exact rexmit_skState.trans hstate
  | timewaitTimeout => exact absurd rfl hok.timewait
  | keepaliveTimeout owned keepopen =>
    cases hstep
    rcases keepaliveTimeout_cases env w owned keepopen with ⟨timer, htimer⟩ | ⟨-, hfinwait⟩
    · rw [htimer]
      exact hstate
    · simp [hstate] at hfinwait
  | transport call =>
    cases hstep
    exact (transportCall_keeps (hok.calls call (.inl rfl)).1).1.trans hstate
  | orphan =>
    cases hstep
    exact hstate

def asked (l : List (Bool × Event)) (i : Bool) : Option ℕ :=
  (l.filterMap fun q => match q.2 with
    | .migrate dev => if q.1 = i then some dev else none
    | _ => none).getLast?

theorem asked_migrate (l : List (Bool × Event)) (i : Bool) (dev : ℕ) :
    asked (l ++ [(i, .migrate dev)]) i = some dev := by
  simp [asked]

theorem asked_other {l : List (Bool × Event)} {i j : Bool} (h : (∀ dev, e ≠ .migrate dev) ∨ j ≠ i) :
    asked (l ++ [(j, e)]) i = asked l i := by
  cases e with
  | migrate dev =>
    have hne : j ≠ i := h.resolve_left fun hne => hne dev rfl
    simp [asked, hne]
  | packet | close | rexmitTimeout | timewaitTimeout | keepaliveTimeout | transport | orphan => simp [asked]

structure Consistent (devs : Bool → ℕ → Option Addr) (base : Bool → UInt32) (N : Bool → ℕ)
    (l : List (Bool × Event)) (s : Pair) : Prop where
  opened : ∀ i, Open (ctl (s.sk i))
  sends : ∀ i, Sends (devs i) (base i) (N i) (s.sk (!i)).rcv.nxt (view (ctl (s.sk (!i)))) (ctl (s.sk i))
    (s.net (!i))
  acks : ∀ i, Acked (base i) (s.sk (!i)).rcv.nxt (s.net i)
  follows : ∀ i, Follows (asked l i) (ctl (s.sk i))

theorem Sends.sublist {out' : List Segment} (h : Sends devs base n rcv addr c out) (hout : ∀ m ∈ out', m ∈ out) :
    Sends devs base n rcv addr c out' :=
  { h with out := fun m hm => h.out m (hout m hm) }

theorem moves_consistent {devs : Bool → ℕ → Option Addr} {base : Bool → UInt32} {N : Bool → ℕ} {l : List (Bool × Event)}
    {s s' : Pair} {i : Bool} (hmoves : Moves (fun i env sk e _ => Moving devs i env sk e) k s s' i env e ms)
    (hs : Consistent devs base N l s) (hlt : N i + k < 2 ^ 31) (hlt' : N (!i) < 2 ^ 31) :
    Consistent devs base (Function.update N i (N i + k)) (l ++ [(i, e)]) s' := by
  have hok := hmoves.ok
  have hstart := hs.opened i
  have hother : Sends (devs (!i)) (base (!i)) (N (!i)) (s.sk i).rcv.nxt (view (ctl (s.sk i)))
      (ctl (s.sk (!i))) (s.net i) := by simpa using hs.sends (!i)
  have hpacket : ∀ p, e = .packet p → p.toSegment ∈ s.net i := hmoves.packet
  have hrelies : Relies (base i) (s.sk (!i)).rcv.nxt e :=
    ⟨fun p he hrst => (hother.out _ (hpacket p he) hrst).fin,
      fun p he hrst hack => hs.acks i _ (hpacket p he) hrst hack⟩
  have hacks : Acked (base (!i)) (s.sk i).rcv.nxt (s.net (!i)) := by simpa using hs.acks (!i)
  obtain ⟨tape, w, hstep, hw⟩ := hmoves.step
  have hstate : (s'.sk i).skState = .connected := by
    rw [hw]
    exact @step_connected env e devs i ⟨s.sk i, [], tape⟩ w hok hrelies.fin hstart.state hstep
  -- the side as the one that moves, and as the one that is told
  obtain ⟨hopen', hp⟩ := acts_open (P := fun m c out => m < 2 ^ 31 →
      Sends (devs i) (base i) m (s.sk (!i)).rcv.nxt (view (ctl (s.sk (!i)))) c out ∧
        Sends (devs (!i)) (base (!i)) (N (!i)) c.rcv (view c) (ctl (s.sk (!i))) (s.net i) ∧
        Acked (base (!i)) c.rcv out) hstart hok.turn
    (fun hopen hopen' hc hact hm => by
      obtain ⟨hc, hy, hacked⟩ := hc (by omega)
      obtain ⟨hc', hy', hle, hacked'⟩ :=
        act_sends hstart.state hopen hopen' hok.devs hok.close
          (fun h => (hok.calls _ h).2 rfl) hrelies hpacket hm hlt' hact hc hy
      exact ⟨hc', hy', hacked.append hacked' hle⟩)
    hmoves.acts hstart (fun _ => ⟨hs.sends i, hother, hacks⟩) hstate
  obtain ⟨hsends, hview, hacked⟩ := hp hlt
  have hfollows : Follows (asked (l ++ [(i, e)]) i) (ctl (s'.sk i)) := by
    by_cases he : ∃ dev, e = .migrate dev
    · obtain ⟨dev, rfl⟩ := he
      cases hstep
      rw [asked_migrate]
      rw [hw] at hopen' ⊢
      exact migrate_follows hstart.state hopen'
    · rw [not_exists] at he
      rw [asked_other (.inl he)]
      exact (@acts_open _ _ _ _ _ _ [] 0 _ (fun _ c _ => Follows (asked l i) c) hstart hok.turn
        (fun hopen hopen' hc hact => act_follows hopen hopen' he hact hc) hmoves.acts hstart (hs.follows i) hstate).2
  refine ⟨forall_side i hopen' ?_, forall_side i ?_ ?_, forall_side i ?_ ?_, forall_side i hfollows ?_⟩
  · rw [hmoves.other]
    exact hs.opened (!i)
  · simpa [hmoves.other, hmoves.sent] using hsends
  · simpa [hmoves.other, ctl] using hview.sublist hmoves.left
  · have hleft : Acked (base i) (s.sk (!i)).rcv.nxt (s'.net i) := fun m hm => hs.acks i m (hmoves.left m hm)
    simpa [hmoves.other] using hleft
  · simpa [hmoves.sent, ctl] using hacked
  · rw [asked_other (.inr (by simp)), hmoves.other]
    exact hs.follows (!i)

section Runs
variable {devs : Bool → ℕ → Option Addr} {base : Bool → UInt32} {N : Bool → ℕ} {l : List (Bool × Event)}
  {o : Option (Bool × Event)} {s s' : Pair}

theorem pairStep_consistent (h : PairStep (fun i env sk e _ => Moving devs i env sk e) o n s s')
    (hs : Consistent devs base N l s) (hlt : N true + N false + n < 2 ^ 31) :
    ∃ N', N' true + N' false ≤ N true + N false + n ∧ Consistent devs base N' (l ++ o.toList) s' := by
  have hest : ∀ i, Established (s.sk i) := fun i => by
    have hstate : (s.sk i).skState = .connected := (hs.opened i).state
    constructor <;> simp [hstate]
  rcases pairStep_cases h hest with ⟨rfl, hsk, hnet⟩ | ⟨i, env, e, k, ms, rfl, hk, hmoves⟩
  · refine ⟨N, Nat.le_add_right _ n, ?_⟩
    simp only [toList_none, append_nil]
    refine ⟨?_, fun i => ?_, fun i m hm => ?_, ?_⟩
    · rw [hsk]
      exact hs.opened
    · rw [hsk]
      exact (hs.sends i).sublist (hnet _)
    · rw [hsk]
      exact hs.acks i m (hnet i m hm)
    · rw [hsk]
      exact hs.follows
  · refine ⟨_, ?_, moves_consistent hmoves hs ?_ ?_⟩ <;> cases i <;> simp <;> omega

theorem pairRun_consistent (h : PairRun (fun i env sk e _ => Moving devs i env sk e) s l n s')
    (hs : Consistent devs base N [] s) (hN : N true + N false = 0) (hlt : n < 2 ^ 31) :
    ∃ N', N' true + N' false ≤ n ∧ Consistent devs base N' l s' := by
  induction h with
  | refl => exact ⟨N, hN.le, hs⟩
  | @tail l o n k s₁ s₂ _ hstep ih =>
    obtain ⟨N₁, hle, hs₁⟩ := ih (by omega)
    obtain ⟨N₂, hle', hs₂⟩ := pairStep_consistent hstep hs₁ (by omega)
    exact ⟨N₂, by omega, hs₂⟩

end Runs

/-- Two connected sockets that know each other, each bound to the device it sends from. Packets of
the handshake may still be on the way. -/
structure Acquainted (devs : Bool → ℕ → Option Addr) (s : Pair) : Prop where
  state : ∀ i, (s.sk i).skState = .connected
  salState : ∀ i, (s.sk i).salState = .initial
  ctrlQueue : ∀ i, (s.sk i).ctrlQueue = none
  migDevIf : ∀ i, (s.sk i).migDevIf = 0
  bound : ∀ i, devs i (s.sk i).boundDevIf = some (s.sk i).saddr
  daddr : ∀ i, (s.sk (!i)).daddr = (s.sk i).saddr
  rcv : ∀ i, (s.sk (!i)).rcv.nxt = (s.sk i).snd.nxt
  net : ∀ i, ∀ m ∈ s.net i, m.flags.fin = false ∧ isRsyn m.flags = false ∧
    (m.flags.ack = true → m.ackno = (s.sk i).snd.nxt)

theorem Acquainted.consistent {devs : Bool → ℕ → Option Addr} {s : Pair} (h : Acquainted devs s) :
    Consistent devs (fun i => (s.sk i).snd.nxt) (fun _ => 0) [] s where
  opened i := ⟨h.state i, by simp [ctl, h.salState i]⟩
  sends i :=
    { nxt := ahead_self _
      una := by simp [ctl, h.salState i]
      bound := h.bound i
      queue := by simp [ctl, h.ctrlQueue i]
      rcv_le := by rw [h.rcv, ahead_self]
      settled := fun _ => ⟨h.rcv i, by simp [view, ctl, h.salState, h.daddr]⟩
      pending := by simp [ctl, h.salState i]
      out := fun m hm _ => by
        obtain ⟨hfin, hrsyn, -⟩ := h.net _ m hm
        exact ⟨hfin, by simp [hrsyn], by simp [hrsyn]⟩ }
  acks i m hm _ hack := by rw [(h.net i m hm).2.2 hack, ahead_self]; exact Nat.zero_le _
  follows i := ⟨by simp [ctl, h.salState i], fun _ => ⟨h.migDevIf i, by simp [asked]⟩⟩

/-- Whenever neither side is migrating, each knows where the other one sends from, and is bound to
the device that it was asked to migrate to last. -/
theorem peers_agree_on_addresses {devs : Bool → ℕ → Option Addr} {s s' : Pair} {l : List (Bool × Event)}
    (hs : Acquainted devs s) (hrun : PairRun (fun i env sk e _ => Moving devs i env sk e) s l n s')
    (hlt : n < 2 ^ 31) (hinitial : ∀ i, (s'.sk i).salState = .initial) (i : Bool) :
    (s'.sk (!i)).daddr = (s'.sk i).saddr ∧ devs i (s'.sk i).boundDevIf = some (s'.sk i).saddr ∧
      (s'.sk i).migDevIf = 0 ∧ ∀ dev, asked l i = some dev → (s'.sk i).boundDevIf = dev := by
  obtain ⟨N, -, hs'⟩ := pairRun_consistent hrun hs.consistent rfl hlt
  have hnot : (ctl (s'.sk i)).salState ≠ .sent := by simp [ctl, hinitial i]
  have haddr := ((hs'.sends i).settled hnot).2
  rw [view, if_neg (by simp [ctl, hinitial])] at haddr
  exact ⟨haddr, (hs'.sends i).bound, (hs'.follows i).settled hnot⟩

/-! The first side moves, and then both sides at the same time. -/

def exampleDevs (i : Bool) : ℕ → Option Addr := if i then (exampleEnv 10 11).devs else (exampleEnv 20 21).devs

theorem examplePair_acquainted : Acquainted exampleDevs examplePair where
  state := by decide
  salState := by decide
  ctrlQueue := by decide
  migDevIf := by decide
  bound := by decide
  daddr := by decide
  rcv := by decide
  net i m hm := absurd hm not_mem_nil

def theRsyn : Packet := examplePacket 11 20 1 2 5 { rsyn := true } 100 200

def theAnswer : Packet := examplePacket 20 11 2 1 6 { rsyn := true, ack := true } 200 101

def theAck : Packet := examplePacket 11 20 1 2 5 { ack := true } 101 200

def rsynSent : Pair := examplePair.migrate true (exampleEnv 10 11) 2

def rsynTaken : Pair := rsynSent.deliver false (exampleEnv 20 21) theRsyn

def answerTaken : Pair := rsynTaken.deliver true (exampleEnv 10 11) theAnswer

def moved : Pair := answerTaken.deliver false (exampleEnv 20 21) theAck

theorem moving_migrate {devs : Bool → ℕ → Option Addr} {i : Bool} {sk : Sock} {dev : ℕ} (hdevs : env.devs = devs i)
    (hsal : sk.salState ≠ .recv) : Moving devs i env sk (.migrate dev) :=
  ⟨hdevs, by simp, by simp, by simp [Calls], by simp, by simp, fun _ _ => hsal, by simp⟩

theorem moving_packet {devs : Bool → ℕ → Option Addr} {i : Bool} {sk : Sock} {p : Packet} (hdevs : env.devs = devs i)
    (hcalls : env.transport.receive = []) (hrst : p.flags.rst = false)
    (hrsyn : isRsyn p.flags = false ∨ sk.salState ≠ .sent) : Moving devs i env sk (.packet p) := by
  refine ⟨hdevs, by simp, by simp, by simp [Calls, hcalls], ?_, by simp, by simp, ?_⟩
  · intro q hq h
    cases hq
    simp [hrst] at h
  · intro q hq hmigrates
    cases hq
    exact hrsyn.resolve_left (by simp [isRsyn, hmigrates.rsyn, hmigrates.ack])

theorem moved_run : ∃ n, n < 2 ^ 31 ∧ PairRun (fun i env sk e _ => Moving exampleDevs i env sk e) examplePair
    [(true, .migrate 2), (false, .packet theRsyn), (true, .packet theAnswer), (false, .packet theAck)] n moved := by
  have hmigrate : PairStep (fun i env sk e _ => Moving exampleDevs i env sk e) _ _ examplePair rsynSent :=
    pairStep_migrate (moving_migrate rfl (by decide))
  have hrsyn : PairStep (fun i env sk e _ => Moving exampleDevs i env sk e) _ _ rsynSent rsynTaken :=
    pairStep_deliver (by decide +kernel) (by decide +kernel) (moving_packet rfl rfl rfl (by decide +kernel))
  have hanswer : PairStep (fun i env sk e _ => Moving exampleDevs i env sk e) _ _ rsynTaken answerTaken :=
    pairStep_deliver (by decide +kernel) (by decide +kernel) (moving_packet rfl rfl rfl (.inl rfl))
  have hack : PairStep (fun i env sk e _ => Moving exampleDevs i env sk e) _ _ answerTaken moved :=
    pairStep_deliver (by decide +kernel) (by decide +kernel) (moving_packet rfl rfl rfl (.inl rfl))
  exact ⟨_, by decide +kernel, (((PairRun.refl.tail hmigrate).tail hrsyn).tail hanswer).tail hack⟩

theorem peers_agree_after_move :
    (moved.sk false).daddr = (moved.sk true).saddr ∧ (moved.sk true).migDevIf = 0 ∧ (moved.sk true).boundDevIf = 2 := by
  obtain ⟨n, hn, hrun⟩ := moved_run
  obtain ⟨haddr, -, hmig, hbound⟩ :=
    peers_agree_on_addresses examplePair_acquainted hrun hn (by decide +kernel) true
  exact ⟨haddr, hmig, hbound 2 rfl⟩

def bothSent : Pair := rsynSent.migrate false (exampleEnv 20 21) 2

def exchange (s : Pair) (p q : Packet) : Pair :=
  (s.deliver true (exampleEnv 10 11) p).deliver false (exampleEnv 20 21) q

theorem exchange_run {s s' : Pair} {p q : Packet} (h : ∃ l, PairRun (fun _ _ _ _ _ => True) s l n s')
    (hp : p.toSegment ∈ s'.net true) (hq : q.toSegment ∈ (s'.deliver true (exampleEnv 10 11) p).net false)
    (hest : Established (s'.sk true)) (hest' : Established ((s'.deliver true (exampleEnv 10 11) p).sk false)) :
    ∃ l, PairRun (fun _ _ _ _ _ => True) s l n (exchange s' p q) := by
  obtain ⟨l, h⟩ := h
  have hfirst := @pairStep_deliver (fun _ _ _ _ _ => True) s' true (exampleEnv 10 11) p hp hest trivial
  have hsecond := @pairStep_deliver (fun _ _ _ _ _ => True) _ false (exampleEnv 20 21) q hq hest' trivial
  exact ⟨_, (h.tail hfirst).tail hsecond⟩

def bothTaken : Pair := exchange bothSent (examplePacket 21 10 2 1 6 { rsyn := true } 200 100) theRsyn

def bothAnswered : Pair :=
  exchange bothTaken (examplePacket 21 10 2 1 6 { rsyn := true, ack := true } 201 101)
    (examplePacket 11 20 1 2 5 { rsyn := true, ack := true } 101 201)

def bothDone : Pair :=
  exchange bothAnswered (examplePacket 20 10 2 1 6 { ack := true } 201 101)
    (examplePacket 10 20 1 2 5 { ack := true } 101 201)

/-- The RSYNs of both sides cross. Each takes the other one for moved, and has not moved itself. -/
theorem crossed_migrations_disagree : (∃ l, PairRun (fun _ _ _ _ _ => True) examplePair l 2 bothDone) ∧
      (∀ i, bothDone.net i = [] ∧ (bothDone.sk i).ctrlQueue = none ∧ (bothDone.sk i).salState = .initial ∧
        (bothDone.sk i).skState = .connected) ∧
      (bothDone.sk true).daddr = 21 ∧ (bothDone.sk false).saddr = 20 ∧
      (bothDone.sk false).daddr = 11 ∧ (bothDone.sk true).saddr = 10 ∧
      ∀ i, (bothDone.sk i).boundDevIf = 1 ∧ (bothDone.sk i).migDevIf = 2 := by
  have hfirst : PairStep (fun _ _ _ _ _ => True) _ _ examplePair rsynSent := pairStep_migrate trivial
  have hsecond : PairStep (fun _ _ _ _ _ => True) _ _ rsynSent bothSent := pairStep_migrate trivial
  have hsent : ∃ l, PairRun (fun _ _ _ _ _ => True) examplePair l 2 bothSent :=
    ⟨_, (PairRun.refl.tail hfirst).tail hsecond⟩
  have htaken : ∃ l, PairRun (fun _ _ _ _ _ => True) examplePair l 2 bothTaken := by
    apply exchange_run hsent <;> decide +kernel
  have hanswered : ∃ l, PairRun (fun _ _ _ _ _ => True) examplePair l 2 bothAnswered := by
    apply exchange_run htaken <;> decide +kernel
  have hdone : ∃ l, PairRun (fun _ _ _ _ _ => True) examplePair l 2 bothDone := by
    apply exchange_run hanswered <;> decide +kernel
  exact ⟨hdone, by decide +kernel⟩

end SalMoving
