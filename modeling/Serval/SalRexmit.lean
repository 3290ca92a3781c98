import Serval.SalControl

/-! # The retransmission machine of a socket

The control queue with its timer, counters and numbers, and the single actions that change them.
-/
namespace SalRexmit

open SerialNumber SalRtt SalBuild SalSocket SalControl Option

inductive Input where
  | event (e : Event)
  | connect (srvid : ServiceId) (addr : Option Addr)

structure Rx where
  state : SalState
  /-- the number of the packet, and whether it was sent again -/
  queue : Option (UInt32 × Bool)
  sendHead : Bool
  una : UInt32
  nxt : UInt32
  wnd : UInt32
  xmit : Option ℕ
  retransmits : UInt8
  rtt : Rtt
  destroyed : Bool

def rx (sk : Sock) : Rx where
  state := sk.skState
  queue := sk.ctrlQueue.map fun skb => (skb.verno, skb.flags.retrans)
  sendHead := sk.sendHead
  una := sk.snd.una
  nxt := sk.snd.nxt
  wnd := sk.snd.wnd
  xmit := sk.timers.xmit
  retransmits := sk.retransmits
  rtt := sk.rtt
  destroyed := sk.destroyed

def Rx.again (r : Rx) : Bool := (r.queue.map (·.2)).getD false

def closes : TransportCall → Bool
  | .rcvReset | .writeErr | .done => true
  | .sendFin | .sendActiveReset | .updateRtt _ => false

def Makes (env : Env) (i : Input) (call : TransportCall) : Prop := ∃ e, i = .event e ∧ Calls env e call

def Rx.push (r : Rx) (now : ℕ) (v nxt : UInt32) (sendHead : Bool) : Rx :=
  { r with
    queue := some (v, r.again), sendHead := sendHead, una := v, nxt := nxt
    xmit := some (now + min r.rtt.rto.toNat SAL_RTO_MAX.toNat)
    retransmits := if r.queue.isSome then 0 else r.retransmits }

def rexmitInterval (rtt : Rtt) : ℕ :=
  min (min (rtt.rto <<< (rtt.backoff + 1).toUInt32) SAL_RTO_MAX).toNat SAL_RTO_MAX.toNat

def Rx.rexmit (r : Rx) (now : ℕ) : Rx :=
  { r with
    queue := r.queue.map fun q => (q.1, true)
    xmit := some (now + rexmitInterval r.rtt)
    retransmits := r.retransmits + 1
    rtt := { r.rtt with backoff := r.rtt.backoff + 1 } }

/-- One action while an input is processed that has found the socket in the state `start`. The
numbers are how often the packet in the queue has been sent again. -/
inductive Act (env : Env) (i : Input) (start : Rx) : Rx → ℕ → Rx → ℕ → Prop where
  | state {r n s} : s ≠ .closed → r.state ≠ .closed → Act env i start r n { r with state := s } n
  | revive {r n s call} : start.state = .connected → (∃ p, i = .event (.packet p) ∧ p.flags.fin = true) →
      call ∈ env.transport.receive → closes call = true → Act env i start r n { r with state := s } n
  | closed {r n} : Act env i start r n { r with state := .closed } n
  | done {r n queue destroyed} :
      queue = r.queue ∧ destroyed = r.destroyed ∨ queue = none ∧ destroyed = true →
      Act env i start r n { r with state := .closed, xmit := none, queue := queue, destroyed := destroyed } n
  | push {r n v nxt sendHead} : nxt = v ∨ nxt = v + 1 → Act env i start r n (r.push env.now v nxt sendHead) 0
  | connect {r n v sendHead} : (∃ srvid addr, i = .connect srvid addr) →
      Act env i start r n { r.push env.now v (v + 1) sendHead with state := .request } 0
  | connectFailed {r n} : (∃ srvid addr, i = .connect srvid addr) → 0 < env.transport.buildSyn →
      Act env i start r n { r with state := .request } n
  | ackIdle {r n ackno} : r.queue = none → Act env i start r n { r with una := ackno } n
  | ackRemoved {r n ackno v again rtt} : r.queue = some (v, again) → (start.again = true → again = true) →
      rtt = r.rtt ∨ again = false ∧ (∃ m, rtt = servalSalUpdateRtt r.una r.nxt r.rtt m) →
      Act env i start r n
        { r with queue := none, sendHead := false, una := ackno, xmit := none, retransmits := 0, rtt := rtt } 0
  | ackKept {r n ackno v again} : r.queue = some (v, again) → before ackno r.una = false → after ackno v = false →
      Act env i start r n
        { r with una := ackno, xmit := some (env.now + min r.rtt.rto.toNat SAL_RTO_MAX.toNat) } n
  | burn {n dev} : i = .event (.migrate dev) → refusesRsyn start.state = true →
      Act env i start start n { start with nxt := start.nxt + 1 } n
  | sample {r n m} : Makes env i (.updateRtt m) →
      Act env i start r n { r with rtt := servalSalUpdateRtt r.una r.nxt r.rtt m } n
  | rexmit {n} : i = .event .rexmitTimeout → start.xmit.isSome = true →
      start.retransmits.toNat ≠ env.maxRetransmits → Act env i start start n (start.rexmit env.now) (n + 1)

inductive Acts (env : Env) (i : Input) (start : Rx) : Rx → ℕ → Rx → ℕ → Prop where
  | refl {r n} : Acts env i start r n r n
  | tail {r n r' n' r'' n''} : Acts env i start r n r' n' → Act env i start r' n' r'' n'' → Acts env i start r n r'' n''

variable {env : Env} {i : Input} {start r r' r'' : Rx} {n n' n'' : ℕ}

theorem Act.acts (h : Act env i start r n r' n') : Acts env i start r n r' n' := .tail .refl h

theorem Acts.trans (h₁ : Acts env i start r n r' n') (h₂ : Acts env i start r' n' r'' n'') :
    Acts env i start r n r'' n'' := by
  induction h₂ with
  | refl => exact h₁
  | tail _ hact ih => exact ih.tail hact

theorem Acts.preserves {P : Rx → ℕ → Prop} (step : ∀ {r n r' n'}, P r n → Act env i start r n r' n' → P r' n')
    (h : Acts env i start r n r' n') (hr : P r n) : P r' n' := by
  induction h with
  | refl => exact hr
  | tail _ hact ih => exact step ih hact

/-! ## The timeout is bounded -/

theorem Act.rto_le (h : Act env i start r n r' n') (hstart : start.rtt.rto ≤ SAL_RTO_MAX)
    (hr : r.rtt.rto ≤ SAL_RTO_MAX) : r'.rtt.rto ≤ SAL_RTO_MAX := by
  cases h with
  | ackRemoved _ _ hrtt =>
    rcases hrtt with rfl | ⟨-, m, rfl⟩
    · exact hr
    · exact updateRtt_rto_le _ _ _ _
  | sample => exact updateRtt_rto_le _ _ _ _
  | burn | rexmit => exact hstart
  | _ => exact hr

theorem Acts.rto_le (h : Acts env i start start n r' n') (hstart : start.rtt.rto ≤ SAL_RTO_MAX) :
    r'.rtt.rto ≤ SAL_RTO_MAX :=
  h.preserves (fun hr hact => hact.rto_le hstart hr) hstart

/-- Without a timeout and without a sample of the transport, a packet that was sent again leaves the
estimate alone: its acknowledgment is no sample. -/
theorem Act.rtt_eq (h : Act env i start r n r' n') (hrexmit : i ≠ .event .rexmitTimeout)
    (hsample : ∀ m, ¬Makes env i (.updateRtt m)) (hagain : start.again = true) : r'.rtt = r.rtt := by
  cases h with
  | ackRemoved _ hinherits hrtt =>
    rcases hrtt with rfl | ⟨hnot, -⟩
    · rfl
    · exact nomatch hnot.symm.trans (hinherits hagain)
  | sample hmakes => exact absurd hmakes (hsample _)
  | rexmit he => exact absurd he hrexmit
  | _ => rfl

theorem Acts.rtt_eq (h : Acts env i start start n r' n') (hrexmit : i ≠ .event .rexmitTimeout)
    (hsample : ∀ m, ¬Makes env i (.updateRtt m)) (hagain : start.again = true) : r'.rtt = start.rtt := by
  refine h.preserves (P := fun r _ => r.rtt = start.rtt) (fun hr hact => ?_) rfl
  exact (hact.rtt_eq hrexmit hsample hagain).trans hr

/-! ## Queue, timer and numbers -/

/-- The queue, the timer and the numbers fit together. A closed socket may have a packet in its
queue without a timer. -/
structure Sound (r : Rx) : Prop where
  wnd : r.wnd = 1
  armed : r.xmit.isSome = true → r.queue.isSome = true
  number : ∀ v again, r.queue = some (v, again) → r.una = v
  timer : r.state ≠ .closed → r.queue.isSome = true → r.xmit.isSome = true
  window : r.state ≠ .closed → r.queue.isSome = true → r.nxt - r.una ≤ r.wnd
  head : r.state ≠ .closed → r.sendHead = true → r.queue.isSome = true

/-- No transport closes a socket in CONNECTED while it receives a FIN, no migration is asked for
while a SYN is not answered, and the errors of the transport are negative. -/
structure Calm (env : Env) (start : Rx) (i : Input) : Prop where
  fin : ∀ p, i = .event (.packet p) → p.flags.fin = true → start.state = .connected →
    ∀ call ∈ env.transport.receive, closes call = false
  migrate : ∀ dev, i = .event (.migrate dev) → refusesRsyn start.state = true → start.state ≠ .closed →
    start.queue = none
  connect : ∀ srvid addr, i = .connect srvid addr → env.transport.buildSyn ≤ 0

theorem push_sound (h : Sound r) (now : ℕ) {v nxt : UInt32} (sendHead : Bool) (hnxt : nxt = v ∨ nxt = v + 1)
    (s : SalState) : Sound { r.push now v nxt sendHead with state := s } where
  wnd := h.wnd
  armed _ := rfl
  number v' again hq := congrArg Prod.fst (some.inj hq)
  timer _ _ := rfl
  window _ _ := by
    show nxt - v ≤ r.wnd
    rw [h.wnd]
    rcases hnxt with rfl | rfl
    · rw [sub_self]
      decide
    · rw [add_sub_cancel_left]
      exact UInt32.le_refl _
  head _ _ := rfl

theorem ackKept_eq {ackno v : UInt32} {again : Bool} (h : Sound r) (hq : r.queue = some (v, again))
    (hold : before ackno r.una = false) (hkept : after ackno v = false) : ackno = r.una := by
  by_contra hne
  have := after_of_not_before hold hne
  rw [h.number v again hq] at this
  exact nomatch this.symm.trans hkept

theorem Act.sound (h : Act env i start r n r' n') (hcalm : Calm env start i) (hstart : Sound start)
    (hr : Sound r) : Sound r' := by
  cases h with
  | state hs hopen => exact { hr with
      timer := fun _ => hr.timer hopen, window := fun _ => hr.window hopen, head := fun _ => hr.head hopen }
  | revive hconn hfin hcall hcloses =>
    obtain ⟨p, hp, hfin⟩ := hfin
    exact nomatch (hcalm.fin p hp hfin hconn _ hcall).symm.trans hcloses
  | closed => exact { hr with
      timer := fun hopen => absurd rfl hopen, window := fun hopen => absurd rfl hopen
      head := fun hopen => absurd rfl hopen }
  | done hqueue => exact {
      wnd := hr.wnd
      armed := fun harmed => nomatch harmed
      number := fun v again hq => by
        rcases hqueue with ⟨rfl, -⟩ | ⟨rfl, -⟩
        · exact hr.number v again hq
        · cases hq
      timer := fun hopen => absurd rfl hopen
      window := fun hopen => absurd rfl hopen
      head := fun hopen => absurd rfl hopen }
  | push hnxt => exact push_sound hr _ _ hnxt r.state
  | connect => exact push_sound hr _ _ (.inr rfl) .request
  | connectFailed hi hpos =>
    obtain ⟨srvid, addr, hi⟩ := hi
    exact absurd hpos (not_lt.mpr (hcalm.connect srvid addr hi))
  | ackIdle hq => exact { hr with
      number := fun v again hq' => nomatch hq.symm.trans hq'
      window := fun _ hsome => by rw [hq] at hsome; cases hsome }
  | ackRemoved => exact {
      wnd := hr.wnd
      armed := fun harmed => nomatch harmed
      number := fun v again hq => nomatch hq
      timer := fun _ hsome => nomatch hsome
      window := fun _ hsome => nomatch hsome
      head := fun _ hhead => nomatch hhead }
  | ackKept hq hold hkept =>
    obtain rfl := ackKept_eq hr hq hold hkept
    exact { hr with
      armed := fun _ => by rw [hq]; rfl
      timer := fun _ _ => rfl }
  | burn hi hrefuses => exact { hstart with
      window := fun hopen hsome => by
        rw [hcalm.migrate _ hi hrefuses hopen] at hsome
        cases hsome }
  | sample => exact { hr with }
  | rexmit hi harmed =>
    have hsome := hstart.armed harmed
    obtain ⟨⟨v, again⟩, hq⟩ := isSome_iff_exists.mp hsome
    exact {
      wnd := hstart.wnd
      armed := fun _ => by simp only [Rx.rexmit, hq]; rfl
      number := fun v' again' hq' => by
        simp only [Rx.rexmit, hq, map_some, some.injEq, Prod.mk.injEq] at hq'
        exact (hstart.number v again hq).trans hq'.1
      timer := fun _ _ => rfl
      window := fun hopen _ => hstart.window hopen hsome
      head := fun _ _ => by simp only [Rx.rexmit, hq]; rfl }

theorem Acts.sound (h : Acts env i start start n r' n') (hcalm : Calm env start i) (hstart : Sound start) : Sound r' :=
  h.preserves (fun hr hact => hact.sound hcalm hstart hr) hstart

/-! ## Counting the retransmissions -/

/-- The counter of a socket that has not been destroyed is how often the packet in its queue has
been sent again, and 0 without a packet. -/
structure Counted (limit : ℕ) (r : Rx) (n : ℕ) : Prop where
  armed : r.xmit.isSome = true → r.queue.isSome = true
  le : n ≤ r.retransmits.toNat
  limit : r.retransmits.toNat ≤ limit
  idle : r.destroyed = false → r.queue = none → r.retransmits = 0
  busy : r.destroyed = false → r.queue.isSome = true → n = r.retransmits.toNat

theorem push_counted {limit : ℕ} (h : Counted limit r n) (now : ℕ) (v nxt : UInt32) (sendHead : Bool) (s : SalState) :
    Counted limit { r.push now v nxt sendHead with state := s } 0 where
  armed _ := rfl
  le := Nat.zero_le _
  limit := by
    show (if r.queue.isSome then (0 : UInt8) else r.retransmits).toNat ≤ limit
    split
    · exact Nat.zero_le _
    · exact h.limit
  idle _ hq := nomatch hq
  busy hlive _ := by
    show 0 = (if r.queue.isSome then (0 : UInt8) else r.retransmits).toNat
    cases hq : r.queue with
    | none => exact (congrArg UInt8.toNat (h.idle hlive hq)).symm
    | some q => rfl

theorem Act.counted {limit : ℕ} (h : Act env i start r n r' n') (hmax : env.maxRetransmits = limit)
    (hlimit : limit < 256) (hr : Counted limit r n) : Counted limit r' n' := by
  cases h with
  | push => exact push_counted hr _ _ _ _ r.state
  | connect => exact push_counted hr _ _ _ _ .request
  | done hqueue =>
    exact {
      armed := fun harmed => nomatch harmed
      le := hr.le
      limit := hr.limit
      idle := fun hlive hq => by
        rcases hqueue with ⟨rfl, rfl⟩ | ⟨-, rfl⟩
        · exact hr.idle hlive hq
        · cases hlive
      busy := fun hlive hq => by
        rcases hqueue with ⟨rfl, rfl⟩ | ⟨-, rfl⟩
        · exact hr.busy hlive hq
        · cases hlive }
  | ackRemoved => exact {
      armed := fun harmed => nomatch harmed
      le := le_rfl
      limit := Nat.zero_le _
      idle := fun _ _ => rfl
      busy := fun _ _ => rfl }
  | ackKept hq => exact { hr with armed := fun _ => by rw [hq]; rfl }
  | rexmit hi harmed hne =>
    -- below the limit, and so the eight bits of the counter do not wrap
    have hlt : start.retransmits.toNat < limit := lt_of_le_of_ne hr.limit (hmax ▸ hne)
    have hsucc : (start.retransmits + 1).toNat = start.retransmits.toNat + 1 := by
      rw [UInt8.toNat_add]
      exact Nat.mod_eq_of_lt (by show start.retransmits.toNat + 1 < 256; omega)
    have hsome := hr.armed harmed
    exact {
      armed := fun _ => (isSome_map ..).trans hsome
      le := hsucc ▸ Nat.succ_le_succ hr.le
      limit := hsucc ▸ hlt
      idle := fun _ hq => by
        rw [map_eq_none_iff.mp hq] at hsome
        cases hsome
      busy := fun hlive _ => hsucc ▸ congrArg Nat.succ (hr.busy hlive hsome) }
  | _ => exact { hr with }

theorem Acts.counted {limit : ℕ} (h : Acts env i start start n r' n') (hmax : env.maxRetransmits = limit)
    (hlimit : limit < 256) (hstart : Counted limit start n) : Counted limit r' n' :=
  h.preserves (fun hr hact => hact.counted hmax hlimit hr) hstart

end SalRexmit
