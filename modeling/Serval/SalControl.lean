import Serval.SalInput

/-! # The control machine of a connection

The control state of a socket and the single actions that change it. Timers, estimates, errors and the
transport's data do not occur here.
-/
namespace SalControl

open SerialNumber SalBuild SalSocket SalInput

inductive Event where
  | packet (p : Packet)
  | close
  | migrate (dev : ℕ)
  | rexmitTimeout
  | timewaitTimeout
  | keepaliveTimeout (owned keepopen : Bool)
  | transport (call : TransportCall)
  | orphan
  deriving DecidableEq

structure Ctl where
  skState : SalState
  salState : RsynState
  una : UInt32
  nxt : UInt32
  rcv : UInt32
  queue : Option (Flags × UInt32)
  destroyed : Bool
  saddr : Addr
  daddr : Addr
  migDaddr : Addr
  boundDevIf : ℕ
  migDevIf : ℕ
  localFlowid : FlowId
  peerFlowid : FlowId
  localNonce : Nonce
  peerNonce : Nonce

/-- The packet has the control extension that a socket in this state adds, and a service
extension exactly when it asks for one. -/
structure Carries (c : Ctl) (f : Flags) (v : UInt32) (m : Segment) : Prop where
  ctrl : ∀ ext, m.ctrl = some ext → ext = ⟨f.wire, v, c.rcv, c.localNonce, 20⟩
  srcFlowid : m.srcFlowid = c.localFlowid
  dstFlowid : m.dstFlowid = c.peerFlowid
  srv0 : f.wantsControl → f.syn = false → f.connAck = false → m.srv0 = none

/-- The addresses in the packets of a socket that has a peer. With RSYN the source address is
that of the device to migrate to. -/
structure Addressed (devs : ℕ → Option Addr) (c : Ctl) (f : Flags) (m : Segment) : Prop where
  saddr : m.saddr = if f.rsyn then (devs c.migDevIf).getD c.saddr else c.saddr
  daddr : m.daddr = if f.rsyn ∧ c.salState = .recv then c.migDaddr else c.daddr

structure Xmit (devs : ℕ → Option Addr) (c : Ctl) (f : Flags) (v : UInt32) (ms : List Segment) (c' : Ctl) : Prop where
  frame : ∃ s d, c' = { c with saddr := s, daddr := d }
  carries : ∀ m ∈ ms, Carries c f v m
  daddr : sendsAtOnce c.skState ∨ c.daddr ≠ 0 → c'.daddr = c.daddr
  saddr : sendsAtOnce c.skState ∨ c.daddr ≠ 0 → c'.saddr = c.saddr ∨
    f.rsyn ∧ ((devs c.boundDevIf).isSome → devs c.boundDevIf = some c'.saddr)
  addressed : sendsAtOnce c.skState ∨ c.daddr ≠ 0 → ∀ m ∈ ms, Addressed devs c f m

section

variable {devs : ℕ → Option Addr} (c : Ctl) (rsyn : Bool) (p : Packet)

theorem Xmit.nothing {c : Ctl} {f : Flags} {v : UInt32} : Xmit devs c f v [] c :=
  ⟨⟨_, _, rfl⟩, by simp, fun _ => rfl, fun _ => .inl rfl, by simp⟩

theorem Xmit.nxt {c c' : Ctl} {f : Flags} {v : UInt32} {ms : List Segment}
    (h : Xmit devs c f v ms c') : c'.nxt = c.nxt := by
  obtain ⟨s, d, rfl⟩ := h.frame
  rfl

def Ctl.pending (c : Ctl) : Flags := (c.queue.map (·.1)).getD {}

def Ctl.enqueue (c : Ctl) (f : Flags) (v : UInt32) : Ctl :=
  { c with queue := some (f.or c.pending, v), una := v }

def Ctl.acceptable (c : Ctl) (p : Packet) : Bool :=
  p.flags.ack && !before p.ackno c.una && !(after p.ackno c.nxt && !migrating c.salState)

def Ctl.acked (c : Ctl) (ackno : UInt32) : Option (Flags × UInt32) :=
  c.queue.filter fun q => !(after ackno q.2 || migrating c.salState)

def Ctl.settle (c : Ctl) (rsyn : Bool) : Ctl :=
  match c.salState, rsyn with
  | .recv, false => { c with salState := .initial, daddr := c.migDaddr, migDaddr := 0 }
  | .sentRecv, false => { c with salState := .sent, daddr := c.migDaddr, migDaddr := 0 }
  | _, _ => c

def Ctl.accept (c : Ctl) (p : Packet) : Ctl :=
  Ctl.settle { c with queue := c.acked p.ackno, una := p.ackno } p.flags.rsyn

theorem Ctl.settle_frame :
    ∃ s d m, c.settle rsyn = { c with salState := s, daddr := d, migDaddr := m } := by
  unfold Ctl.settle
  split
  · exact ⟨_, _, _, rfl⟩
  · exact ⟨_, _, _, rfl⟩
  · exact ⟨_, _, _, rfl⟩

def settled : RsynState → Bool → RsynState
  | .recv, false => .initial
  | .sentRecv, false => .sent
  | s, _ => s

theorem Ctl.settle_salState : (c.settle rsyn).salState = settled c.salState rsyn := by
  obtain ⟨⟩ := c
  cases ‹RsynState› <;> cases rsyn <;> rfl

theorem Ctl.accept_salState : (c.accept p).salState = settled c.salState p.flags.rsyn :=
  Ctl.settle_salState _ _

theorem Ctl.settle_of_not_migrating {c : Ctl} (h : migrating c.salState = false) (rsyn : Bool) : c.settle rsyn = c := by
  unfold Ctl.settle
  split
  next hs => simp [hs, migrating] at h
  next hs => simp [hs, migrating] at h
  · rfl

theorem Ctl.accept_frame : ∃ s d m, c.accept p = { c with
      queue := c.acked p.ackno, una := p.ackno, salState := s, daddr := d, migDaddr := m } :=
  Ctl.settle_frame _ _

end

def received : RsynState → RsynState
  | .initial | .recv => .recv
  | .sent | .sentRecv => .sentRecv

def requested : RsynState → RsynState
  | .initial | .sent => .sent
  | .recv | .sentRecv => .sentRecv

def finFlags : RsynState → Flags
  | .sent => { fin := true, rsyn := true }
  | .recv => { fin := true, rsyn := true, ack := true }
  | .initial | .sentRecv => { fin := true }

def finPending : SalState → Bool
  | .finwait1 | .closing | .lastack => true
  | _ => false

def rsynFlags (s : SalState) : Flags := { rsyn := true, fin := finPending s }

def refusesRsyn : SalState → Bool
  | .request | .listen | .closed => true
  | _ => false

def unconnected : SalState → Bool
  | .init | .listen | .request => true
  | _ => false

def Calls (env : Env) (e : Event) (call : TransportCall) : Prop :=
  e = .transport call ∨ ∃ p, e = .packet p ∧ call ∈ env.transport.receive

def Checked (c : Ctl) (p : Packet) : Prop :=
  ∀ ext, p.ctrl = some ext → ext.flags.syn ∨ ext.nonce = c.peerNonce

def Ctl.rsynTaken (c : Ctl) (p : Packet) : Ctl :=
  { c with salState := received c.salState, rcv := p.verno + 1, migDaddr := p.saddr }

structure Migrates (c : Ctl) (p : Packet) : Prop where
  rsyn : p.flags.rsyn = true
  ack : p.flags.ack = false
  rst : p.flags.rst = false
  state : refusesRsyn c.skState = false
  nonce : Checked c p
  verno : before p.verno c.rcv = false

def Readdressed (c c' : Ctl) : Prop := ∃ s d, c' = { c with saddr := s, daddr := d }

theorem Readdressed.trans {c c' c'' : Ctl} (h₁ : Readdressed c c') (h₂ : Readdressed c' c'') : Readdressed c c'' := by
  obtain ⟨s₁, d₁, rfl⟩ := h₁
  obtain ⟨s₂, d₂, rfl⟩ := h₂
  exact ⟨s₂, d₂, rfl⟩

/-- How far the processing of a packet has come when its acknowledgment is looked at. -/
structure Settled (env : Env) (start c : Ctl) (p : Packet) : Prop where
  opened : c.skState ≠ .closed
  verno : before p.verno start.rcv = false ∨ p.flags = { ack := true } ∨ p.flags = { rsyn := true, ack := true }
  plain : p.flags.rsyn = false → Readdressed start c
  sent : p.flags.rsyn = true → c.salState = .sent →
    Readdressed start c ∧ (env.devs c.migDevIf = none ∨ p.ackno ≠ c.una + 1)
  cross : p.flags.rsyn = true → c.salState ≠ .sentRecv

theorem Settled.readdressed {env : Env} {start c c' : Ctl} {p : Packet} (h : Settled env start c p)
    (hc : Readdressed c c') : Settled env start c' p := by
  have hplain : p.flags.rsyn = false → Readdressed start c' := fun hrsyn => (h.plain hrsyn).trans hc
  have hsent : Readdressed start c → Readdressed start c' := fun h => h.trans hc
  obtain ⟨s, d, rfl⟩ := hc
  exact ⟨h.opened, h.verno, hplain, fun hrsyn hsal => ⟨hsent (h.sent hrsyn hsal).1, (h.sent hrsyn hsal).2⟩, h.cross⟩

inductive Act (env : Env) (e : Event) (start : Ctl) : Ctl → List Segment → Ctl → Prop where
  | ack {c ms c'} : Xmit env.devs c { ack := true } c.nxt ms c' → Act env e start c ms c'
  | activeReset {c ms c'} : Xmit env.devs c { rst := true, ack := true } c.nxt ms c' → Act env e start c ms c'
  | reset {c p} : e = .packet p → c.skState = .closed → Act env e start c [resetSegment p] c
  | done {c queue destroyed} :
      queue = c.queue ∧ destroyed = c.destroyed ∨ queue = none ∧ destroyed = true →
      Act env e start c [] { c with skState := .closed, queue := queue, destroyed := destroyed }
  | state {c s} : unconnected s = false → start.skState ≠ .closed →
      (s = .connected → start.skState = .respond) → Act env e start c [] { c with skState := s }
  | rsynackDone {c p addr} : e = .packet p → p.flags.rsyn → p.flags.ack → p.flags.rst = false → c.salState = .sent →
      env.devs c.migDevIf = some addr → p.ackno = c.una + 1 →
      Act env e start c [] { c with
        salState := .initial, saddr := addr, boundDevIf := c.migDevIf, migDevIf := 0 }
  | rsynackCross {c p} : e = .packet p → p.flags.rsyn → p.flags.ack → p.flags.rst = false → c.salState = .sentRecv →
      Act env e start c [] { c with salState := .recv, migDaddr := p.saddr }
  | rsyn {p} : e = .packet p → Migrates start p → Act env e start start [] (start.rsynTaken p)
  | rsynack {p ms c'} : e = .packet p → Migrates start p →
      Xmit env.devs ((start.rsynTaken p).enqueue { rsyn := true, ack := true } start.nxt)
        (Flags.or { rsyn := true, ack := true } start.pending) start.nxt ms c' →
      Act env e start (start.rsynTaken p) ms c'
  | accept {c p} : e = .packet p → p.flags.rst = false → c.acceptable p → Settled env start c p →
      Act env e start c [] (c.accept p)
  | fin {c p} : e = .packet p → p.flags.fin → p.flags.rst = false → Checked c p →
      before p.verno c.rcv = false ∨ c.rcv = p.verno + 1 →
      Act env e start c [] { c with rcv := p.verno + 1 }
  | sendFin {c ms c'} : e = .close ∧ env.transport.close = none ∨ Calls env e .sendFin →
      Xmit env.devs ({ c with nxt := c.nxt + 1 }.enqueue (finFlags c.salState) c.nxt)
        ((finFlags c.salState).or c.pending) c.nxt ms c' →
      Act env e start c ms c'
  | refused {dev} : e = .migrate dev → refusesRsyn start.skState →
      Act env e start start [] { start with migDevIf := dev, nxt := start.nxt + 1 }
  | migrate {dev ms c'} : e = .migrate dev → refusesRsyn start.skState = false → Xmit env.devs ({ start with
          migDevIf := dev, nxt := start.nxt + 1, salState := requested start.salState }.enqueue
        (rsynFlags start.skState) start.nxt) ((rsynFlags start.skState).or start.pending) start.nxt ms c' →
      Act env e start start ms c'
  | rexmit {c f v ms c'} : e = .rexmitTimeout → c.queue = some (f, v) →
      Xmit env.devs { c with queue := some ({ f with retrans := true }, v) }
        { f with retrans := true } v ms c' →
      Act env e start c ms c'
  | respond {c p} : e = .packet p → c.skState = .respond →
      Act env e start c [] { c with boundDevIf := p.dev, daddr := p.saddr }

/-- Actions one after the other, with how many numbers they use up and all that leaves the
socket. -/
inductive Acts (env : Env) (e : Event) (start : Ctl) : ℕ → Ctl → List Segment → Ctl → Prop where
  | refl {c} : Acts env e start 0 c [] c
  | tail {n c ms c' ms' c''} : Acts env e start n c ms c' → Act env e start c' ms' c'' →
      Acts env e start (n + ahead c'.nxt c''.nxt) c (ms ++ ms') c''

variable {env : Env} {e : Event} {n n' : ℕ} {start c c' c'' : Ctl} {ms ms' : List Segment}

theorem Act.acts (h : Act env e start c ms c') : Acts env e start (ahead c.nxt c'.nxt) c ms c' := by
  simpa using Acts.refl.tail h

theorem Acts.trans (h₁ : Acts env e start n c ms c') (h₂ : Acts env e start n' c' ms' c'') :
    Acts env e start (n + n') c (ms ++ ms') c'' := by
  induction h₂ with
  | refl => simpa using h₁
  | tail _ hact ih => simpa [add_assoc] using (ih h₁).tail hact

/-- What every action preserves holds after all of them. It may speak of the packets that have
left, and of the numbers used up. -/
theorem Acts.invariant {P : ℕ → Ctl → List Segment → Prop}
    (step : ∀ {n c ms c' ms'}, P n c ms → Act env e start c ms' c' → P (n + ahead c.nxt c'.nxt) c' (ms ++ ms'))
    (h : Acts env e start n' c ms' c') (hc : P n c ms) : P (n + n') c' (ms ++ ms') := by
  induction h with
  | refl => simpa using hc
  | tail _ hact ih => simpa [add_assoc] using step (ih hc) hact

theorem Acts.preserves {P : Ctl → Prop} (step : ∀ {c ms c'}, P c → Act env e start c ms c' → P c')
    (h : Acts env e start n c ms c') (hc : P c) : P c' := by
  induction h with
  | refl => exact hc
  | tail _ hact ih => exact step (ih hc) hact

end SalControl
