import Serval.CellHeap
import Serval.DelayQueue
import Serval.ServiceAnycast

/-! # Sending to the targets of a service

The part of `serval_sal_transmit_skb` that resolves: the packet goes to every target that the iterator returns, each but
the last with a copy. What reads a packet that was given back has no result.
-/
namespace SalTransmit

open ByteLayout CellHeap ServiceTargets ServiceIterator ServiceTable SalResolve SalSocket DelayQueue
open Option (bind_eq_bind bind_eq_some_iff bind_none bind_some map_eq_bind map_eq_some_iff)
open List hiding drop

structure Packet where
  sk : Option ℕ
  cb : CtrlSkb
  data : List UInt8
  deriving DecidableEq

structure Turn where
  copied : Bool := true
  alloc : Bool := true
  notified : ℤ := 0
  xmit : ℤ := 0

/-- What does not change during the call: the socket with its address, the devices, and the answers. -/
structure Host where
  addr : ℕ
  sk : SalSocket.Sock
  lo : Option (Option Addr)
  dev : UInt32 → Option (Option Addr)
  turns : ℕ → Turn

inductive Fate where
  | delayed (id : UInt32) (e : Effect)
  | dropped
  | noDevice
  | noAddr
  | sent (seg : Segment) (ret : ℤ)
  | noCopy

structure Leg where
  target : Target
  skb : ℕ
  fate : Fate

structure St where
  heap : Heap Packet
  queue : Queue
  saddr : Addr
  daddr : Addr

structure Run extends St where
  err : ℤ
  legs : List Leg

def St.run (s : St) : Run := { s with err := -1, legs := [] }

def EHOSTUNREACH : ℤ := 113
def EADDRNOTAVAIL : ℤ := 99
def ENODEV : ℤ := 19
def ENOBUFS : ℤ := 105

def localAddr : Addr := .ofNat (leNat [127, 0, 0, 1])

def copyDst (daddr : Addr) (dst : List UInt8) : Addr :=
  .ofNat (leNat (dst.take 4 ++ (leBytes 4 daddr.toNat).drop dst.length))

def Run.kfreeSkb (r : Run) (skb : ℕ) : Option Run := do
  let heap ← r.heap.free skb
  return { r with heap := heap }

def Run.pskbCopy (r : Run) (h : Host) (skb : ℕ) : Option (Run × ℕ) := do
  let p ← r.heap.cell skb
  return ({ r with heap := r.heap.alloc { p with sk := some h.addr } }, r.heap.brk)

def Run.note (r : Run) (target : Target) (skb : ℕ) (fate : Fate) : Run :=
  { r with legs := r.legs ++ [⟨target, skb, fate⟩] }

/-- The packet goes out on a device. The device uses it up, also where it refuses it. -/
def transmitOn (h : Host) (t : Turn) (target : Target) (cskb : ℕ) (dev : Option Addr) (r : Run) : Option Run :=
  match dev with
  | none => do
    let r ← r.kfreeSkb cskb
    return r.note target cskb .noAddr
  | some saddr => do
    let r := { r with saddr := saddr }
    let p ← r.heap.cell cskb
    let r ← r.kfreeSkb cskb
    let r := r.note target cskb (.sent (servalSalBuildHeader h.sk p.cb r.saddr r.daddr) t.xmit)
    return { r with err := if t.xmit < 0 then if r.err ≠ 0 then t.xmit else r.err else 0 }

def sendTo (h : Host) (t : Turn) (target : Target) (cskb : ℕ) (r : Run) : Option (Run × Bool) :=
  if isSockTarget target then
    let r := { r with daddr := localAddr }
    match h.lo with
    | none => do
      let r ← r.kfreeSkb cskb
      return ({ r with err := -ENODEV }.note target cskb .noDevice, true)
    | some dev => do
      let r ← transmitOn h t target cskb dev r
      return (r, true)
  else
    let r := { r with daddr := copyDst r.daddr target.dst }
    match h.dev target.out.asOif with
    | none => do
      -- The target is not advanced here.
      let r ← r.kfreeSkb cskb
      return ({ r with err := -ENODEV }.note target cskb .noDevice, false)
    | some dev => do
      let r ← transmitOn h t target cskb dev r
      return (r, true)

/-- The body of the loop from the type of the target on; also whether the loop goes on to the next target. -/
def useTarget (h : Host) (t : Turn) (target : Target) (cskb : ℕ) (r : Run) : Option (Run × Bool) :=
  match target.type with
  | .delay => do
    let p ← r.heap.cell cskb
    let (queue, e) := delayQueueSkb r.queue cskb p.sk h.sk.peerSrvid.toList t.alloc t.notified
    let heap := if cskb ∈ e.freed then r.heap.clear cskb else r.heap
    return ({ r with heap := heap, queue := queue, err := e.ret }.note target cskb (.delayed r.queue.queueId e), true)
  | .drop => do
    let r ← r.kfreeSkb cskb
    return ({ r with err := -EHOSTUNREACH }.note target cskb .dropped, true)
  | _ => sendTo h t target cskb r

/-- The loop over the targets, in its turn `i`. The last target gets the packet itself. -/
def transmitLoop (h : Host) (skb : ℕ) : ℕ → ℕ → ServiceIter → Option Target → Run → Option Run
  | 0, _, _, _, _ => none
  | _ + 1, _, _, none, r => some r
  | fuel + 1, i, iter, some target, r => do
    let (iter, nextTarget) ← serviceIterNext iter
    if nextTarget.isSome && !(h.turns i).copied then
      let r ← r.kfreeSkb skb
      return { r with err := -ENOBUFS }.note target skb .noCopy
    else
      let (r, cskb) ← if nextTarget.isNone then some (r, skb) else r.pskbCopy h skb
      let (r, advance) ← useTarget h (h.turns i) target cskb r
      transmitLoop h skb fuel (i + 1) iter (if advance then nextTarget else some target) r

/-- From `service_iter_init` on. The destination of the socket is cleared again after the loop. -/
def sendToTargets (h : Host) (se : ServiceEntry) (mode : IterMode) (random : ℕ) (skb : ℕ) (s : St) : Option Run := do
  let r := s.run
  let (iter, ret) := serviceIterInit se mode random
  if ret < 0 then
    let r ← r.kfreeSkb skb
    return { r with err := -1 }
  else
    let (iter, target) ← serviceIterNext iter
    match target with
    | none =>
      let r ← r.kfreeSkb skb
      return { r with err := -EHOSTUNREACH }
    | some target =>
      let r ← transmitLoop h skb (iterFuel se + 1) 0 iter (some target) r
      return { r with daddr := 0 }

def resolveAndSend (tbl : Table) (h : Host) (mode : IterMode) (random : ℕ) (skb : ℕ) (s : St) : Option Run := do
  match ← serviceFind tbl h.sk.peerSrvid.toList SERVICE_ID_MAX_PREFIX_BITS with
  | none =>
    let r ← s.run.kfreeSkb skb
    return { r with err := -EADDRNOTAVAIL }
  | some se => sendToTargets h se mode random skb s

/-- `err` at the end is the value returned. `copied` is whether the first copy succeeds, `doXmit` what
`serval_sal_do_xmit` returns, which uses the packet up. -/
def servalSalTransmitSkb (tbl : Table) (h : Host) (mode : IterMode) (random : ℕ) (copied : Bool) (doXmit : ℤ) (s : St)
    (skb : ℕ) (useCopy : Bool) : Option Run :=
  if useCopy && !copied then some { s.run with err := -ENOBUFS }
  else do
    let (r, skb) ← if useCopy then s.run.pskbCopy h skb else some (s.run, skb)
    if sendsAtOnce h.sk.skState || r.daddr != 0 then
      let r ← r.kfreeSkb skb
      return { r with err := doXmit }
    else resolveAndSend tbl h mode random skb r.toSt

/-! ## One turn of the loop -/

/-- What a turn means for the value returned: 0, an error in any case, or what it was unless that is an error too. -/
inductive Mark where
  | through
  | replaces
  | keeps
  deriving DecidableEq

def Fate.next : Fate → ℤ → ℤ
  | .delayed _ e, _ => e.ret
  | .dropped, _ => -EHOSTUNREACH
  | .noDevice, _ => -ENODEV
  | .noAddr, err => err
  | .sent _ ret, err => if ret < 0 then if err ≠ 0 then ret else err else 0
  | .noCopy, _ => -ENOBUFS

def Fate.mark : Fate → Mark
  | .delayed _ e => if e.ret = 0 then .through else .replaces
  | .dropped | .noDevice | .noCopy => .replaces
  | .noAddr => .keeps
  | .sent _ ret => if ret < 0 then .keeps else .through

def Fate.entries (skb : ℕ) (sk : Option ℕ) : Fate → List CtrlChannel.DelayEntry
  | .delayed id e => if e.ret = 0 then [⟨id, skb, sk⟩] else []
  | _ => []

def Fate.asks : Fate → Bool
  | .delayed .. => true
  | _ => false

def Fate.hasPacket : Fate → Bool
  | .noCopy => false
  | _ => true

def Fate.Told (srvid : List UInt8) : Fate → Prop
  | .delayed id e => e.ret = 0 → e.notified = [(id, srvid)]
  | _ => True

def Host.device (h : Host) (target : Target) : Option (Option Addr) :=
  if isSockTarget target then h.lo else h.dev target.out.asOif

/-- The device that the target names exists. A DEMUX target is reached through the loopback device, and the loop goes on
without it. -/
def Host.hasDev (h : Host) (target : Target) : Bool :=
  match target.type with
  | .delay => true
  | .drop => true
  | _ => isSockTarget target || (h.dev target.out.asOif).isSome

/-- The mark of a turn, from what is known before it; `room` is whether the delay queue has any. -/
def markOf (h : Host) (t : Turn) (room : Bool) (target : Target) : Mark :=
  match target.type with
  | .delay => if t.alloc && room && t.notified == 0 then .through else .replaces
  | .drop => .replaces
  | _ =>
    match h.device target with
    | none => .replaces
    | some none => .keeps
    | some (some _) => if t.xmit < 0 then .keeps else .through

def Moves (q q' : Queue) : Prop :=
  ∃ calls, ∀ b : DelayQueue.Books, b.queue = q → (DelayQueue.run b calls).queue = q'

theorem moves_refl (q : Queue) : Moves q q := ⟨[], fun _ hb => hb⟩

theorem Moves.trans {q q' q'' : Queue} (h : Moves q q') (h' : Moves q' q'') : Moves q q'' := by
  obtain ⟨calls, hcalls⟩ := h
  obtain ⟨calls', hcalls'⟩ := h'
  refine ⟨calls ++ calls', fun b hb => ?_⟩
  rw [DelayQueue.run, foldl_append]
  exact hcalls' _ (hcalls b hb)

theorem moves_delayQueueSkb (q : Queue) (skb : ℕ) (sk : Option ℕ) (srvid : List UInt8) (alloc : Bool) (sendmsg : ℤ) :
    Moves q (delayQueueSkb q skb sk srvid alloc sendmsg).1 := by
  refine ⟨[.skb skb sk srvid alloc sendmsg], fun b hb => ?_⟩
  subst hb
  rfl

def grown (target : Target) (mark : Mark) (total : UInt32) : UInt32 :=
  if target.type = .delay ∧ mark = .through then total + 1 else total

structure Used (h : Host) (t : Turn) (r : Run) (target : Target) (skb : ℕ) (p : Packet) (fate : Fate) (r' : Run) :
    Prop where
  legs : r'.legs = r.legs ++ [⟨target, skb, fate⟩]
  err : r'.err = fate.next r.err
  nonpos : r.err ≤ 0 → r'.err ≤ 0
  brk : r'.heap.brk = r.heap.brk
  other : ∀ a, a ≠ skb → r'.heap.cell a = r.heap.cell a
  here : r'.heap.cell skb = if fate.entries skb p.sk = [] then none else some p
  queue : r'.queue.queue = r.queue.queue ++ fate.entries skb p.sk
  maxlen : r'.queue.queueMaxlen = r.queue.queueMaxlen
  total : r'.queue.queueTotal = grown target fate.mark r.queue.queueTotal
  moves : Moves r.queue r'.queue
  packet : fate.hasPacket = true
  asks : fate.asks = (target.type == .delay)
  mark : fate.mark = markOf h t (decide (r.queue.queueTotal < r.queue.queueMaxlen)) target
  told : fate.Told h.sk.peerSrvid.toList

section Turn

variable {h : Host} {t : Turn} {target : Target} {skb : ℕ} {r : Run} {p : Packet}

theorem kfreeSkb_eq (hp : r.heap.cell skb = some p) : r.kfreeSkb skb = some { r with heap := r.heap.clear skb } := by
  rw [Run.kfreeSkb, free_of_cell hp]
  rfl

def Run.without (r : Run) (saddr daddr : Addr) (target : Target) (skb : ℕ) (fate : Fate) : Run :=
  { r with
    heap := r.heap.clear skb
    saddr := saddr
    daddr := daddr
    err := fate.next r.err
    legs := r.legs ++ [⟨target, skb, fate⟩] }

variable {fate : Fate} {r' : Run} {legs : List Leg}

theorem used_without (saddr daddr : Addr) (htype : target.type ≠ .delay) (hfate : fate.asks = false)
    (hpacket : fate.hasPacket = true) (hnonpos : r.err ≤ 0 → fate.next r.err ≤ 0)
    (hmark : fate.mark = markOf h t (decide (r.queue.queueTotal < r.queue.queueMaxlen)) target) :
    Used h t r target skb p fate (r.without saddr daddr target skb fate) := by
  have hnone : fate.entries skb p.sk = [] ∧ fate.Told h.sk.peerSrvid.toList := by
    cases fate with
    | delayed id e => cases hfate
    | _ => exact ⟨rfl, trivial⟩
  refine ⟨rfl, rfl, hnonpos, rfl, fun _ ha => cell_clear_of_ne ha, ?_, ?_, rfl, ?_, moves_refl _, hpacket, ?_, hmark,
    hnone.2⟩
  · rw [if_pos hnone.1]
    exact cell_clear_self
  · rw [hnone.1, append_nil]
    rfl
  · exact (if_neg fun hdelay => htype hdelay.1).symm
  · simp [hfate, htype]

theorem markOf_sends (hdelay : target.type ≠ .delay) (hdrop : target.type ≠ .drop) (room : Bool) :
    markOf h t room target = match h.device target with
      | none => .replaces
      | some none => .keeps
      | some (some _) => if t.xmit < 0 then .keeps else .through := by
  unfold markOf
  split <;> simp_all

theorem transmitOn_used (hdelay : target.type ≠ .delay) (hdrop : target.type ≠ .drop) (hp : r.heap.cell skb = some p)
    {dev : Option Addr} (hdev : h.device target = some dev) (daddr : Addr) :
    ∃ r' fate, transmitOn h t target skb dev { r with daddr := daddr } = some r' ∧ Used h t r target skb p fate r' := by
  have hmark := @markOf_sends h t target hdelay hdrop (decide (r.queue.queueTotal < r.queue.queueMaxlen))
  rw [hdev] at hmark
  cases dev with
  | none =>
    refine ⟨r.without r.saddr daddr target skb .noAddr, .noAddr, ?_, used_without _ _ hdelay rfl rfl id hmark.symm⟩
    rw [transmitOn, kfreeSkb_eq (r := { r with daddr := daddr }) hp]
    rfl
  | some saddr =>
    let fate := Fate.sent (servalSalBuildHeader h.sk p.cb saddr daddr) t.xmit
    refine ⟨r.without saddr daddr target skb fate, fate, ?_, used_without _ _ hdelay rfl rfl ?_ hmark.symm⟩
    · simp only [transmitOn, Run.kfreeSkb, free_of_cell hp, hp]
      rfl
    · intro hnonpos
      simp only [fate, Fate.next]
      split_ifs
      · omega
      · exact hnonpos
      · exact le_rfl

theorem sendTo_used (hdelay : target.type ≠ .delay) (hdrop : target.type ≠ .drop) (hp : r.heap.cell skb = some p) :
    ∃ r' fate, sendTo h t target skb r = some (r', isSockTarget target || (h.dev target.out.asOif).isSome) ∧
      Used h t r target skb p fate r' := by
  have hnone (daddr : Addr) (hdev : h.device target = none) :
      Used h t r target skb p .noDevice (r.without r.saddr daddr target skb .noDevice) := by
    refine used_without _ _ hdelay rfl rfl (fun _ => by simp [Fate.next, ENODEV]) ?_
    rw [markOf_sends hdelay hdrop, hdev]
    rfl
  rw [sendTo]
  by_cases hsock : isSockTarget target = true
  · have hdevice : h.device target = h.lo := if_pos hsock
    rw [if_pos hsock, hsock, Bool.true_or]
    cases hlo : h.lo with
    | none =>
      refine ⟨_, _, ?_, hnone localAddr (hdevice.trans hlo)⟩
      simp only [kfreeSkb_eq (r := { r with daddr := localAddr }) hp]
      rfl
    | some dev =>
      obtain ⟨r', fate, hsent, hused⟩ := transmitOn_used hdelay hdrop hp (hdevice.trans hlo) localAddr
      exact ⟨r', fate, by simp only [hsent]; rfl, hused⟩
  · have hdevice : h.device target = h.dev target.out.asOif := if_neg hsock
    rw [if_neg hsock, Bool.not_eq_true _ |>.mp hsock, Bool.false_or]
    cases hdev : h.dev target.out.asOif with
    | none =>
      refine ⟨_, _, ?_, hnone (copyDst r.daddr target.dst) (hdevice.trans hdev)⟩
      simp only [kfreeSkb_eq (r := { r with daddr := copyDst r.daddr target.dst }) hp]
      rfl
    | some dev =>
      obtain ⟨r', fate, hsent, hused⟩ :=
        transmitOn_used hdelay hdrop hp (hdevice.trans hdev) (copyDst r.daddr target.dst)
      exact ⟨r', fate, by simp only [hsent]; rfl, hused⟩

theorem delayed_used (hp : r.heap.cell skb = some p) (hdelay : target.type = .delay) :
    ∃ r' fate, useTarget h t target skb r = some (r', true) ∧ Used h t r target skb p fate r' := by
  simp only [useTarget, hdelay, hp, bind_eq_bind, bind_some]
  have hmoves := moves_delayQueueSkb r.queue skb p.sk h.sk.peerSrvid.toList t.alloc t.notified
  rcases DelayQueue.skb_cases r.queue skb p.sk h.sk.peerSrvid.toList t.alloc t.notified with
    ⟨halloc, hq⟩ | ⟨-, hfull, ret, hret, hq⟩ | ⟨halloc, hroom, hnotified, hq⟩ <;> rw [hq] at hmoves ⊢
  · refine ⟨_, _, rfl, rfl, rfl, fun _ => ?_, by simp [Run.note], fun a ha => ?_, ?_, ?_, rfl, ?_, hmoves,
      rfl, ?_, ?_, ?_⟩
    · simp [Run.note, DelayQueue.ENOMEM]
    · simp [Run.note, cell_clear_of_ne ha]
    · simp [Run.note, Fate.entries, DelayQueue.ENOMEM]
    · simp [Run.note, Fate.entries, DelayQueue.ENOMEM]
    · simp [Run.note, grown, Fate.mark, DelayQueue.ENOMEM]
    · simp [Fate.asks, hdelay]
    · simp [markOf, hdelay, halloc, Fate.mark, DelayQueue.ENOMEM]
    · simp [Fate.Told, DelayQueue.ENOMEM]
  · refine ⟨_, _, rfl, rfl, rfl, fun _ => hret.le, by simp [Run.note], fun a ha => ?_, ?_, ?_, rfl, ?_, hmoves, rfl, ?_,
      ?_, fun h0 => absurd h0 hret.ne⟩
    · simp [Run.note, cell_clear_of_ne ha]
    · simp [Run.note, Fate.entries, hret.ne]
    · simp [Run.note, Fate.entries, hret.ne]
    · simp [Run.note, grown, Fate.mark, hret.ne]
    · simp [Fate.asks, hdelay]
    · have hrefused : (t.alloc && decide (r.queue.queueTotal < r.queue.queueMaxlen) && t.notified == 0) = false := by
        rcases hfull with hfull | hfull
        · simp [UInt32.not_lt.mpr hfull]
        · simp [hfull]
      simp [markOf, hdelay, hrefused, Fate.mark, hret.ne]
  · refine ⟨_, _, rfl, rfl, rfl, fun _ => le_rfl, by simp [Run.note], fun a _ => ?_, ?_, ?_, rfl, ?_,
      hmoves, rfl, ?_, ?_,
      fun _ => rfl⟩
    · simp [Run.note]
    · simp [Run.note, Fate.entries, hp]
    · simp [Run.note, Fate.entries]
    · simp [Run.note, grown, Fate.mark, hdelay]
    · simp [Fate.asks, hdelay]
    · simp [markOf, hdelay, halloc, hroom, hnotified, Fate.mark]

theorem useTarget_used (h : Host) (t : Turn) (target : Target) (hp : r.heap.cell skb = some p) :
    ∃ r' fate, useTarget h t target skb r = some (r', h.hasDev target) ∧ Used h t r target skb p fate r' := by
  cases htype : target.type with
  | delay =>
    simp only [Host.hasDev, htype]
    exact delayed_used hp htype
  | drop =>
    simp only [Host.hasDev, htype, useTarget, kfreeSkb_eq hp]
    refine ⟨r.without r.saddr r.daddr target skb .dropped, .dropped, rfl, ?_⟩
    exact used_without _ _ (by simp [htype]) rfl rfl (fun _ => by simp [Fate.next, EHOSTUNREACH])
      (by simp [markOf, htype]; rfl)
  | _ =>
    simp only [Host.hasDev, htype, useTarget]
    exact sendTo_used (by simp [htype]) (by simp [htype]) hp

theorem kfreeSkb_gone (hp : r.heap.cell skb = none) : r.kfreeSkb skb = none := by
  rw [Run.kfreeSkb, Heap.free, hp]
  rfl

theorem useTarget_gone (h : Host) (t : Turn) (target : Target) (hp : r.heap.cell skb = none) :
    useTarget h t target skb r = none := by
  have hfree (daddr : Addr) : { r with daddr := daddr }.kfreeSkb skb = none := kfreeSkb_gone hp
  have hsend (dev : Option Addr) (daddr : Addr) : transmitOn h t target skb dev { r with daddr := daddr } = none := by
    cases dev with
    | none => rw [transmitOn, hfree]; rfl
    | some saddr => simp only [transmitOn, hp]; rfl
  have hsendTo : sendTo h t target skb r = none := by
    rw [sendTo]
    split
    · cases h.lo with
      | none => simp only [hfree]; rfl
      | some dev => simp only [hsend]; rfl
    · cases h.dev target.out.asOif with
      | none => simp only [hfree]; rfl
      | some dev => simp only [hsend]; rfl
  cases htype : target.type with
  | delay => simp only [useTarget, htype, hp]; rfl
  | drop => simp only [useTarget, htype, hfree r.daddr]; rfl
  | _ => simp only [useTarget, htype]; exact hsendTo

/-- A target without its device gets nothing into the queue. -/
theorem gone_of_noDev (hused : Used h t r target skb p fate r') (hdev : h.hasDev target = false) :
    r'.heap.cell skb = none := by
  have htype : target.type ≠ .delay := by
    intro htype
    rw [Host.hasDev, htype] at hdev
    cases hdev
  have hasks : fate.asks = false := by rw [hused.asks]; simp [htype]
  have hnone : fate.entries skb p.sk = [] := by
    cases fate with
    | delayed id e => cases hasks
    | _ => rfl
  rw [hused.here, if_pos hnone]

end Turn

/-! ## The loop

What the turns are follows from the devices and from which copies succeed: a target whose device does not exist is tried
again in the place of the next one.
-/

/-- The targets of the turns, each with whether there is a packet for it. The last target gets the packet itself. -/
def turnsOf (h : Host) : ℕ → Target → List Target → List (Target × Bool)
  | _, t, [] => [(t, true)]
  | i, t, next :: ts =>
    if (h.turns i).copied then (t, true) :: turnsOf h (i + 1) (if h.hasDev t then next else t) ts else [(t, false)]

/-- The loop comes to an end. Otherwise the packet is used again after it was given back. -/
def ends (h : Host) : ℕ → Target → List Target → Bool
  | _, t, [] => h.hasDev t
  | i, t, next :: ts => !(h.turns i).copied || ends h (i + 1) (if h.hasDev t then next else t) ts

def marks (h : Host) (maxlen : UInt32) : ℕ → UInt32 → List (Target × Bool) → List Mark
  | _, _, [] => []
  | i, total, (t, copied) :: rest =>
    let mark := if copied then markOf h (h.turns i) (decide (total < maxlen)) t else .replaces
    mark :: marks h maxlen (i + 1) (grown t mark total) rest

def Leg.turn (leg : Leg) : Target × Bool := (leg.target, leg.fate.hasPacket)

def Leg.entries (h : Host) (leg : Leg) : List CtrlChannel.DelayEntry := leg.fate.entries leg.skb (some h.addr)

/-- The packet has gone to the targets of the turns: to each but the last a new copy, to the last the packet itself.
Where it belongs to the socket, as its copies do, every one was used up there, unless it waits in the delay queue. -/
structure Sends (h : Host) (skb : ℕ) (p : Packet) (plan : List (Target × Bool)) (i : ℕ) (r : Run) (legs : List Leg)
    (r' : Run) : Prop where
  noted : r'.legs = r.legs ++ legs
  err : r'.err = legs.foldl (fun err leg => leg.fate.next err) r.err
  nonpos : r.err ≤ 0 → r'.err ≤ 0
  grown : r.heap.brk ≤ r'.heap.brk
  skbs : legs.map (·.skb) = List.range' r.heap.brk (r'.heap.brk - r.heap.brk) ++ [skb]
  cells : p.sk = some h.addr → ∀ leg ∈ legs, r'.heap.cell leg.skb = if leg.entries h = [] then none else some p
  other : ∀ a, a < r.heap.brk → a ≠ skb → r'.heap.cell a = r.heap.cell a
  queue : p.sk = some h.addr → r'.queue.queue = r.queue.queue ++ legs.flatMap (Leg.entries h)
  moves : Moves r.queue r'.queue
  turns : legs.map Leg.turn = plan
  marks : legs.map (·.fate.mark) = marks h r.queue.queueMaxlen i r.queue.queueTotal plan
  asks : ∀ leg ∈ legs, leg.fate.asks = (leg.target.type == .delay && leg.fate.hasPacket)
  told : ∀ leg ∈ legs, leg.fate.Told h.sk.peerSrvid.toList

section Loop

variable {h : Host} {t : Turn} {skb fuel i : ℕ} {iter iter' : ServiceIter} {target : Target} {ts :
    List Target} {r r' : Run}
  {p : Packet} {fate : Fate} {legs : List Leg} {plan : List (Target × Bool)}

theorem loop_last (hnext : serviceIterNext iter = some (iter', none)) :
    transmitLoop h skb (fuel + 1) i iter (some target) r = (useTarget h (h.turns i) target skb r).bind fun x =>
        transmitLoop h skb fuel (i + 1) iter' (if x.2 then none else some target) x.1 := by
  simp only [transmitLoop, hnext]
  rfl

def Run.copy (r : Run) (h : Host) (p : Packet) : Run := { r with heap := r.heap.alloc { p with sk := some h.addr } }

theorem loop_copy {next : Target} (hnext : serviceIterNext iter = some (iter', some next))
    (hcopied : (h.turns i).copied = true) (hp : r.heap.cell skb = some p) :
    transmitLoop h skb (fuel + 1) i iter (some target) r =
      (useTarget h (h.turns i) target r.heap.brk (r.copy h p)).bind fun x =>
        transmitLoop h skb fuel (i + 1) iter' (some (if x.2 then next else target)) x.1 := by
  simp only [transmitLoop, hnext, hcopied, Run.pskbCopy, hp, apply_ite some]
  rfl

theorem loop_break {next : Target} (hnext : serviceIterNext iter = some (iter', some next))
    (hcopied : (h.turns i).copied = false) :
    transmitLoop h skb (fuel + 1) i iter (some target) r =
      (r.kfreeSkb skb).map fun r => { r with err := -ENOBUFS }.note target skb .noCopy := by
  simp only [transmitLoop, hnext, hcopied, map_eq_bind]
  rfl

theorem loop_gone (hp : r.heap.cell skb = none) : transmitLoop h skb (fuel + 1) i iter (some target) r = none := by
  cases hnext : serviceIterNext iter with
  | none => simp only [transmitLoop, hnext, bind_eq_bind, bind_none]
  | some x =>
    obtain ⟨iter', next⟩ := x
    cases next with
    | none =>
      rw [loop_last hnext, useTarget_gone _ _ _ hp]
      rfl
    | some next =>
      cases hcopied : (h.turns i).copied with
      | false =>
        rw [loop_break hnext hcopied, kfreeSkb_gone hp]
        rfl
      | true =>
        simp only [transmitLoop, hnext, hcopied, Run.pskbCopy, hp]
        rfl

theorem sends_last (hused : Used h (h.turns i) r target skb p fate r') :
    Sends h skb p [(target, true)] i r [⟨target, skb, fate⟩] r' where
  noted := hused.legs
  err := hused.err
  nonpos := hused.nonpos
  grown := hused.brk.ge
  skbs := by simp [hused.brk]
  cells := fun hown => forall_mem_singleton.mpr (by rw [hused.here, hown]; rfl)
  other := fun a _ ha => hused.other a ha
  queue := fun hown => by rw [hused.queue, hown]; simp [Leg.entries]
  moves := hused.moves
  turns := by simp [Leg.turn, hused.packet]
  marks := by simp [SalTransmit.marks, hused.mark]
  asks := forall_mem_singleton.mpr (by simp [hused.asks, hused.packet])
  told := forall_mem_singleton.mpr hused.told

theorem sends_break (p : Packet) : Sends h skb p [(target, false)] i r [⟨target, skb, .noCopy⟩]
      ({ r with heap := r.heap.clear skb, err := -ENOBUFS }.note target skb .noCopy) where
  noted := rfl
  err := rfl
  nonpos := fun _ => by simp [Run.note, ENOBUFS]
  grown := le_rfl
  skbs := by simp [Run.note]
  cells := fun _ => forall_mem_singleton.mpr cell_clear_self
  other := fun a _ ha => cell_clear_of_ne ha
  queue := fun _ => by simp [Run.note, Leg.entries, Fate.entries]
  moves := moves_refl _
  turns := rfl
  marks := rfl
  asks := forall_mem_singleton.mpr (by simp [Fate.asks, Fate.hasPacket])
  told := forall_mem_singleton.mpr trivial

theorem sends_copy {r₁ : Run} (hp : r.heap.cell skb = some p)
    (hused : Used h (h.turns i) (r.copy h p) target r.heap.brk { p with sk := some h.addr } fate r₁)
    (hrest : Sends h skb p plan (i + 1) r₁ legs r') :
    Sends h skb p ((target, true) :: plan) i r (⟨target, r.heap.brk, fate⟩ :: legs) r' := by
  have hlt : skb < r.heap.brk := lt_brk_of_cell hp
  have hbrk : r₁.heap.brk = r.heap.brk + 1 := hused.brk
  have hgrown : r.heap.brk + 1 ≤ r'.heap.brk := hbrk ▸ hrest.grown
  have hmark : fate.mark = markOf h (h.turns i) (decide (r.queue.queueTotal < r.queue.queueMaxlen)) target := hused.mark
  have htotal : r₁.queue.queueTotal = SalTransmit.grown target fate.mark r.queue.queueTotal := hused.total
  have hmaxlen : r₁.queue.queueMaxlen = r.queue.queueMaxlen := hused.maxlen
  refine ⟨?_, ?_, fun hr => hrest.nonpos (hused.nonpos hr), by omega, ?_, fun hown => ?_, ?_, fun hown => ?_,
    hused.moves.trans hrest.moves, ?_, ?_, forall_mem_cons.mpr ⟨?_, hrest.asks⟩,
      forall_mem_cons.mpr ⟨hused.told, hrest.told⟩⟩
  · rw [hrest.noted, hused.legs, append_assoc]
    rfl
  · rw [hrest.err, hused.err]
    rfl
  · have hcount : r'.heap.brk - r.heap.brk = (r'.heap.brk - (r.heap.brk + 1)) + 1 := by omega
    rw [map_cons, hrest.skbs, hbrk, hcount, range'_succ, cons_append]
  · refine forall_mem_cons.mpr ⟨?_, hrest.cells hown⟩
    rw [hrest.other r.heap.brk (by omega) (by omega), hused.here, ← hown]
    rw [Leg.entries, ← hown]
  · intro a ha hne
    rw [hrest.other a (by omega) hne, hused.other a (by omega)]
    exact cell_alloc_of_ne (by omega)
  · rw [hrest.queue hown, hused.queue, append_assoc]
    rfl
  · rw [map_cons, hrest.turns, Leg.turn, hused.packet]
  · rw [map_cons, hrest.marks, htotal, hmaxlen]
    simp [SalTransmit.marks, ← hmark]
  · simp [hused.asks, hused.packet]

/-- The induction is on the targets that the iterator has still to return. -/
theorem loop_cases (hreturns : Returns iter ts) (hp : r.heap.cell skb = some p) (hfuel : ts.length + 2 ≤ fuel) :
    (ends h i target ts = true → ∃ legs r', transmitLoop h skb fuel i iter (some target) r = some r' ∧
      Sends h skb p (turnsOf h i target ts) i r legs r') ∧
    (ends h i target ts = false → transmitLoop h skb fuel i iter (some target) r = none) := by
  induction hreturns generalizing fuel i target r with
  | nil hnext =>
    obtain ⟨fuel, rfl⟩ : ∃ n, fuel = n + 2 := ⟨fuel - 2, by simp at hfuel; omega⟩
    obtain ⟨r', fate, huse, hused⟩ := useTarget_used h (h.turns i) target hp
    rw [ends, loop_last hnext, huse]
    refine ⟨fun hdev => ⟨_, r', ?_, sends_last hused⟩, fun hdev => ?_⟩
    · rw [hdev]
      rfl
    · rw [hdev]
      exact loop_gone (gone_of_noDev hused hdev)
  | @cons iter iter' next ts hnext hrest ih =>
    obtain ⟨fuel, rfl⟩ : ∃ n, fuel = n + 1 := ⟨fuel - 1, by omega⟩
    rw [ends, turnsOf]
    cases hcopied : (h.turns i).copied with
    | false =>
      refine ⟨fun _ => ⟨_, _, ?_, sends_break p⟩, nofun⟩
      rw [loop_break hnext hcopied, kfreeSkb_eq hp]
      rfl
    | true =>
      have hlt : skb < r.heap.brk := lt_brk_of_cell hp
      obtain ⟨r₁, fate, huse, hused⟩ := useTarget_used h (h.turns i) target
        (show (r.copy h p).heap.cell r.heap.brk = some { p with sk := some h.addr } from cell_alloc_self)
      have hp₁ : r₁.heap.cell skb = some p := by
        rw [hused.other skb (by omega), Run.copy, cell_alloc_of_ne (by omega), hp]
      rw [loop_copy hnext hcopied hp, huse]
      obtain ⟨hends, hnot⟩ := @ih fuel (i + 1) (if h.hasDev target then next else target) r₁ hp₁
        (by simp at hfuel; omega)
      refine ⟨fun h => ?_, hnot⟩
      obtain ⟨legs, r', hloop, hsends⟩ := hends h
      exact ⟨_, r', hloop, sends_copy hp hused hsends⟩

end Loop

/-! ## The call -/

def loopEnds (h : Host) : List Target → Bool
  | [] => true
  | t :: ts => ends h 0 t ts

def planOf (h : Host) : List Target → List (Target × Bool)
  | [] => []
  | t :: ts => turnsOf h 0 t ts

section Plan

variable {h : Host}

/-- A target that is tried again takes the place of another. -/
theorem turnsOf_stuck {t : Target} (hdev : h.hasDev t = false) (ts : List Target) (i : ℕ) (hends :
    ends h i t ts = true) :
    (turnsOf h i t ts).length ≤ ts.length := by
  induction ts generalizing i with
  | nil => cases hdev.symm.trans hends
  | cons next ts ih =>
    rw [turnsOf]
    cases hcopied : (h.turns i).copied with
    | false => exact Nat.succ_le_succ (Nat.zero_le _)
    | true =>
      rw [ends, hcopied, hdev] at hends
      rw [hdev]
      exact Nat.succ_le_succ (ih (i + 1) hends)

theorem turnsOf_all (t : Target) (ts : List Target) (i : ℕ) :
    ends h i t ts = true ∧ (turnsOf h i t ts).map Prod.fst = t :: ts ↔
      (∀ x ∈ t :: ts, h.hasDev x = true) ∧ ∀ k < ts.length, (h.turns (i + k)).copied = true := by
  induction ts generalizing t i with
  | nil => simp [ends, turnsOf]
  | cons next ts ih =>
    cases hcopied : (h.turns i).copied with
    | false => exact iff_of_false (by simp [turnsOf, hcopied]) fun hall => by simpa [hcopied] using hall.2 0 (by simp)
    | true =>
      cases hdev : h.hasDev t with
      | true =>
        have hshift : (∀ k < (next :: ts).length, (h.turns (i + k)).copied = true) ↔
            ∀ k < ts.length, (h.turns (i + 1 + k)).copied = true := by
          rw [length_cons, Nat.forall_lt_succ_left, add_zero]
          simp [hcopied, add_assoc, add_comm 1]
        rw [hshift, forall_mem_cons, and_assoc, ← ih]
        simp [ends, turnsOf, hcopied, hdev]
      | false =>
        refine iff_of_false ?_ fun hall => by simpa [hdev] using hall.1 t mem_cons_self
        rintro ⟨hends, hmap⟩
        have hlength := turnsOf_stuck hdev _ _ hends
        have heq := congrArg List.length hmap
        simp only [length_map, length_cons] at hlength heq
        omega

theorem planOf_all (ts : List Target) : loopEnds h ts = true ∧ (planOf h ts).map Prod.fst = ts ↔
    (∀ t ∈ ts, h.hasDev t = true) ∧ ∀ k, k + 1 < ts.length → (h.turns k).copied = true := by
  cases ts with
  | nil => simp [loopEnds, planOf]
  | cons t ts => simpa [loopEnds, planOf] using turnsOf_all t ts 0

end Plan

section Call

variable {h : Host} {se : ServiceEntry} {mode : IterMode} {random skb : ℕ} {s : St} {p : Packet} {iter : ServiceIter}
  {ts : List Target} {r : Run}

theorem next_of_failed (hfail : (serviceIterInit se mode random).2 < 0) :
    ∃ iter, serviceIterNext (serviceIterInit se mode random).1 = some (iter, none) := by
  unfold serviceIterInit at hfail ⊢
  cases hset : se.targetSet with
  | nil => exact ⟨_, rfl⟩
  | cons set rest =>
    simp only [hset] at hfail
    split at hfail
    · rename_i hcount
      simp only [hcount, ↓reduceIte]
      exact ⟨_, rfl⟩
    · rename_i hcount
      split at hfail
      · rename_i hmulti
        dsimp only
        rw [if_neg hcount, if_pos hmulti]
        exact ⟨_, rfl⟩
      · split at hfail
        · exact absurd hfail (lt_irrefl 0)
        · exact absurd hfail (lt_irrefl 0)

theorem sendToTargets_none (hnext : serviceIterNext (serviceIterInit se mode random).1 = some (iter, none))
    (hp : s.heap.cell skb = some p) :
    ∃ err, err < 0 ∧
      sendToTargets h se mode random skb s = some { s with heap := s.heap.clear skb, err := err, legs := [] } := by
  have hfree : s.run.kfreeSkb skb = some { s.run with heap := s.heap.clear skb } := kfreeSkb_eq (r := s.run) hp
  by_cases hfail : (serviceIterInit se mode random).2 < 0
  · refine ⟨-1, by decide, ?_⟩
    simp only [sendToTargets, hfail, ↓reduceIte, hfree]
    rfl
  · refine ⟨-EHOSTUNREACH, by decide, ?_⟩
    simp only [sendToTargets, hfail, ↓reduceIte, hnext, hfree]
    rfl

theorem sendToTargets_some {next : Option (ServiceIter × Option Target)}
    (hnext : serviceIterNext (serviceIterInit se mode random).1 = next) (hsome : ∀ iter, next ≠ some (iter, none)) :
    sendToTargets h se mode random skb s = next.bind fun x =>
      (transmitLoop h skb (iterFuel se + 1) 0 x.1 x.2 s.run).map fun r => { r with daddr := 0 } := by
  have hinit : ¬(serviceIterInit se mode random).2 < 0 := by
    intro hfail
    obtain ⟨iter', hnone⟩ := next_of_failed hfail
    exact hsome iter' (hnext.symm.trans hnone)
  simp only [sendToTargets, hinit, ↓reduceIte, hnext, map_eq_bind]
  cases next with
  | none => rfl
  | some x =>
    obtain ⟨iter, target⟩ := x
    cases target with
    | none => exact absurd rfl (hsome iter)
    | some target => rfl

structure Sent (h : Host) (skb : ℕ) (p : Packet) (ts : List Target) (s : St) (r : Run) : Prop where
  none : ts = [] → r.legs = [] ∧ r.err < 0 ∧ r.queue = s.queue ∧ r.heap = s.heap.clear skb
  some : ts ≠ [] → Sends h skb p (planOf h ts) 0 s.run r.legs r

theorem Sent.turns (hsent : Sent h skb p ts s r) : r.legs.map Leg.turn = planOf h ts := by
  by_cases hts : ts = []
  · rw [(hsent.none hts).1, hts]
    rfl
  · exact (hsent.some hts).turns

theorem sendToTargets_cases (hreturns : Returns (serviceIterInit se mode random).1 ts) (hp : s.heap.cell skb = some p) :
    (loopEnds h ts = true → ∃ r, sendToTargets h se mode random skb s = some r ∧ Sent h skb p ts s r) ∧
    (loopEnds h ts = false → sendToTargets h se mode random skb s = none) := by
  cases hreturns with
  | nil hnext =>
    obtain ⟨err, herr, hcall⟩ := sendToTargets_none (h := h) hnext hp
    refine ⟨fun _ => ⟨_, hcall, fun _ => ⟨rfl, herr, rfl, rfl⟩, fun hne => absurd rfl hne⟩, fun hends => ?_⟩
    cases hends
  | @cons _ iter target ts hnext hrest =>
    have hfuel : ts.length + 2 ≤ iterFuel se + 1 := by
      have hlength := (returns_sublist (.cons hnext hrest)).length_le
      have hahead := (ahead_init se mode random).length_le
      rw [length_cons] at hlength
      rw [iterFuel]
      omega
    obtain ⟨hends, hnot⟩ := @loop_cases h skb _ 0 iter target ts s.run p hrest hp hfuel
    rw [sendToTargets_some hnext (by simp), bind_some]
    refine ⟨fun h => ?_, fun h => by rw [hnot h]; rfl⟩
    obtain ⟨legs, r, hloop, hsends⟩ := hends h
    obtain rfl : legs = r.legs := by simpa [St.run] using hsends.noted.symm
    refine ⟨{ r with daddr := 0 }, by rw [hloop]; rfl, fun hnil => absurd hnil (cons_ne_nil _ _), fun _ => ?_⟩
    exact { hsends with }

/-- The call uses up one packet for each turn, no packet twice, and last the packet itself. It has an outcome if and
only if the loop ends, and each target that the iterator returns has one turn if and only if all the devices exist and
all the copies succeed. -/
theorem sendToTargets_once (hreturns : Returns (serviceIterInit se mode random).1 ts) (hp : s.heap.cell skb = some p) :
    (∀ r, sendToTargets h se mode random skb s = some r → Sent h skb p ts s r ∧ (r.legs.map (·.skb)).Nodup) ∧
    ((∃ r, sendToTargets h se mode random skb s = some r) ↔ loopEnds h ts = true) ∧
    ((∃ r, sendToTargets h se mode random skb s = some r ∧ r.legs.map (·.target) = ts) ↔
      (∀ t ∈ ts, h.hasDev t = true) ∧ ∀ i, i + 1 < ts.length → (h.turns i).copied = true) := by
  obtain ⟨hends, hnot⟩ := @sendToTargets_cases h se mode random skb s p ts hreturns hp
  rw [← planOf_all]
  cases hloop : loopEnds h ts with
  | false => simp [hnot hloop]
  | true =>
    obtain ⟨r, hcall, hsent⟩ := hends hloop
    have htargets : r.legs.map (·.target) = (planOf h ts).map Prod.fst := by
      rw [← hsent.turns, map_map]
      rfl
    simp only [hcall, Option.some.injEq, forall_eq', exists_eq', exists_eq_left', htargets, true_and, and_true]
    refine ⟨hsent, ?_⟩
    by_cases hts : ts = []
    · rw [(hsent.none hts).1]
      exact nodup_nil
    · rw [(hsent.some hts).skbs]
      refine nodup_append.mpr ⟨nodup_range', nodup_singleton skb, fun a ha b hb => ?_⟩
      rw [mem_singleton.mp hb]
      exact ne_of_gt ((lt_brk_of_cell hp).trans_le (mem_range'_1.mp ha).1)

end Call

namespace Sample

def near : Target := ⟨.forward, 1, {}, .oif 1, [10, 0, 0, 1]⟩
def far : Target := ⟨.forward, 1, {}, .oif 2, [10, 0, 0, 2]⟩
def delay : Target := ⟨.delay, 1, {}, .oif 0, []⟩
def drop : Target := ⟨.drop, 1, {}, .oif 0, []⟩
def here : Target := ⟨.demux, 1, {}, .sk (some ⟨9, 17, by decide⟩), []⟩

def entry (ts : List Target) : ServiceEntry := ⟨[⟨ts, .ofNat ts.length, 1, 0, .ofNat ts.length⟩], .ofNat ts.length⟩

def host (turns : ℕ → Turn) : Host where
  addr := 1
  sk := SalSocket.skAlloc .dgram 17
  lo := some (some localAddr)
  dev := fun i => if i = 1 then some (some 5) else none
  turns := turns

def packet : Packet := ⟨some 1, ⟨{}, 0, 0, false⟩, [1, 2, 3]⟩

def st : St := ⟨(⟨fun _ => none, 0, fun _ _ => rfl⟩ : Heap Packet).alloc packet, DelayQueue.initial, 0, 0⟩

end Sample

open Sample in
/-- Three targets that get the packet, and one that is missing behind a copy that fails. -/
theorem sendToTargets_once_three :
    (∃ r, sendToTargets (host fun _ => {}) (entry [near, delay, here]) .all 0 0 st = some r ∧
      r.legs.map (·.target) = [near, delay, here] ∧ Sent (host fun _ => {}) 0 packet [near, delay, here] st r) ∧
    ∃ r, sendToTargets (host fun _ => { copied := false }) (entry [near, far]) .all 0 0 st = some r := by
  have hreturns (ts : List Target) : Returns (serviceIterInit (entry ts) .all 0).1
    ((firstTargets (entry ts)).filter _) :=
    returns_of_iterTargets (iterTargets_init (entry ts) (by decide) 0)
  have hp : st.heap.cell 0 = some packet := rfl
  have hthree := sendToTargets_once (h := host fun _ => {}) (hreturns [near, delay, here]) hp
  obtain ⟨r, hcall, htargets⟩ := hthree.2.2.mpr ⟨by decide, fun _ _ => rfl⟩
  refine ⟨⟨r, hcall, htargets, (hthree.1 r hcall).1⟩, ?_⟩
  exact (sendToTargets_once (h := host fun _ => { copied := false }) (hreturns [near, far]) hp).2.1.mpr (by decide)

open Sample in
/-- Where the device of a FORWARD target does not exist, the target is not advanced. As the only target it gives the
packet back a second time; before others it is tried again instead of the next one. -/
theorem sendToTargets_missing : (sendToTargets (host fun _ => {}) (entry [far]) .all 0 0 st).isNone ∧
    (sendToTargets (host fun i => { copied := i == 0 }) (entry [far, near, near]) .all 0 0 st).map
      (fun r => r.legs.map (·.target)) = some [far, far] := by
  decide +kernel

/-! ## The value returned -/

theorem next_eq_zero (fate : Fate) (err : ℤ) :
    fate.next err = 0 ↔ fate.mark = .through ∨ err = 0 ∧ fate.mark ≠ .replaces := by
  cases fate with
  | sent seg ret =>
    simp only [Fate.next, Fate.mark]
    split_ifs <;> simp_all
    omega
  | delayed id e =>
    simp only [Fate.next, Fate.mark]
    split_ifs <;> simp_all
  | _ => simp [Fate.next, Fate.mark, EHOSTUNREACH, ENODEV, ENOBUFS]

/-- Behind the last success there is no failure that replaces the value. -/
def Lasting (ms : List Mark) : Prop := .through ∈ ms → ∃ pre post, ms = pre ++ .through :: post ∧ .replaces ∉ post

theorem foldl_next_eq_zero {err : ℤ} (herr : err ≠ 0) (legs : List Leg) :
    legs.foldl (fun err leg => leg.fate.next err) err = 0 ↔
      ∃ pre post, legs.map (·.fate.mark) = pre ++ .through :: post ∧ .replaces ∉ post := by
  induction legs using List.reverseRecOn with
  | nil => simpa using herr
  | append_singleton legs last ih =>
    rw [foldl_append, foldl_cons, foldl_nil, next_eq_zero, ih, map_append]
    constructor
    · rintro (hlast | ⟨⟨pre, post, hmap, hpost⟩, hlast⟩)
      · exact ⟨_, [], by rw [map_singleton, hlast], not_mem_nil⟩
      · exact ⟨pre, post ++ [last.fate.mark], by simp [hmap], by simp [hpost, hlast.symm]⟩
    · rintro ⟨pre, post, hmap, hpost⟩
      rcases eq_nil_or_concat post with rfl | ⟨post, m, rfl⟩
      · exact .inl (cons.inj (append_inj' hmap rfl).2).1
      · rw [concat_eq_append, ← cons_append, ← append_assoc] at hmap
        obtain ⟨hinit, hlast⟩ := append_inj' hmap rfl
        obtain rfl : last.fate.mark = m := (cons.inj hlast).1
        simp only [concat_eq_append, mem_append, mem_singleton, not_or] at hpost
        exact .inr ⟨⟨pre, post, hinit, hpost.1⟩, Ne.symm hpost.2⟩

structure Call where
  tbl : Table
  h : Host
  mode : IterMode
  random : ℕ
  copied : Bool
  doXmit : ℤ
  s : St
  skb : ℕ
  useCopy : Bool

def Call.run (c : Call) : Option Run :=
  servalSalTransmitSkb c.tbl c.h c.mode c.random c.copied c.doXmit c.s c.skb c.useCopy

/-- The targets that the iterator returns to the call. Without memory for the first copy none is asked for. -/
def Call.targets (c : Call) : Option (List Target) :=
  if c.useCopy && !c.copied then some []
  else match serviceFind c.tbl c.h.sk.peerSrvid.toList SERVICE_ID_MAX_PREFIX_BITS with
    | none => none
    | some none => some []
    | some (some se) => iterTargets (iterFuel se) (serviceIterInit se c.mode c.random).1

def Call.ends (c : Call) : Bool := (c.targets.map (loopEnds c.h)).getD false

def Call.plan (c : Call) : List (Target × Bool) := (c.targets.map (planOf c.h)).getD []

def Call.marks (c : Call) : List Mark := SalTransmit.marks c.h c.s.queue.queueMaxlen 0 c.s.queue.queueTotal c.plan

structure Call.Resolves (c : Call) (p : Packet) : Prop where
  unconnected : sendsAtOnce c.h.sk.skState = false
  daddr : c.s.daddr = 0
  packet : c.s.heap.cell c.skb = some p

def Call.taken (c : Call) (p : Packet) : Packet := if c.useCopy then { p with sk := some c.h.addr } else p

structure Outcome (c : Call) (p : Packet) (r : Run) : Prop where
  nonpos : r.err ≤ 0
  value : r.legs = [] ∧ r.err ≠ 0 ∨ r.err = r.legs.foldl (fun err leg => leg.fate.next err) (-1)
  cells : p.sk = some c.h.addr → ∀ leg ∈ r.legs, leg.entries c.h ≠ [] → r.heap.cell leg.skb = some p
  queue : p.sk = some c.h.addr → r.queue.queue = c.s.queue.queue ++ r.legs.flatMap (Leg.entries c.h)
  moves : Moves c.s.queue r.queue
  turns : r.legs.map Leg.turn = c.plan
  marks : r.legs.map (·.fate.mark) = c.marks
  asks : ∀ leg ∈ r.legs, leg.fate.asks = (leg.target.type == .delay && leg.fate.hasPacket)
  told : ∀ leg ∈ r.legs, leg.fate.Told c.h.sk.peerSrvid.toList

section Outcome

variable {tbl : Table} {h : Host} {se : ServiceEntry} {mode : IterMode} {random skb : ℕ} {s : St} {p : Packet}
    {ts : List Target}
  {r : Run} {c : Call}

theorem outcome_refused (hplan : c.plan = []) (hqueue : r.queue = c.s.queue) (hlegs : r.legs = []) (herr : r.err < 0) :
    Outcome c p r := by
  have hnone {P : Leg → Prop} : ∀ leg ∈ r.legs, P leg := by
    rw [hlegs]
    exact forall_mem_nil P
  exact ⟨herr.le, .inl ⟨hlegs, herr.ne⟩, fun _ => hnone, fun _ => by simp [hlegs, hqueue], hqueue ▸ moves_refl _,
    by simp [hlegs, hplan], by simp [hlegs, hplan, Call.marks, SalTransmit.marks], hnone, hnone⟩

theorem outcome_sent (hsent : Sent c.h skb p ts s r) (hts : c.targets = some ts) (hqueue : s.queue = c.s.queue) :
    Outcome c p r := by
  have hplan : c.plan = planOf c.h ts := by rw [Call.plan, hts]; rfl
  by_cases hnil : ts = []
  · obtain ⟨hlegs, herr, hq, -⟩ := hsent.none hnil
    exact outcome_refused (by rw [hplan, hnil]; rfl) (hq.trans hqueue) hlegs herr
  · have hsends := hsent.some hnil
    refine ⟨hsends.nonpos (by simp [St.run]), .inr hsends.err, fun hown leg hleg hne => ?_, fun hown => ?_, ?_, ?_, ?_,
      hsends.asks, hsends.told⟩
    · rw [hsends.cells hown leg hleg, if_neg hne]
    · exact hqueue ▸ hsends.queue hown
    · exact hqueue ▸ hsends.moves
    · rw [hplan, hsends.turns]
    · rw [Call.marks, hplan, ← hqueue]
      exact hsends.marks

theorem set_anycast (se : ServiceEntry) (random : ℕ) : (serviceIterInit se .anycast random).1.set = none := by
  unfold serviceIterInit
  split
  · rfl
  · split
    · rfl
    · simp only [true_and, ↓reduceIte]
      split <;> rfl

theorem next_none (hnone : iterTargets (iterFuel se) (serviceIterInit se mode random).1 = none) :
    serviceIterNext (serviceIterInit se mode random).1 = none := by
  by_cases hmode : mode = .anycast
  · subst hmode
    have hset := set_anycast se random
    have hfuel := (ahead_init se .anycast random).length_le
    rw [iterFuel] at hnone
    generalize (serviceIterInit se .anycast random).1 = iter at hset hfuel hnone ⊢
    cases hpos : iter.pos with
    | none => simp [iterTargets, serviceIterNext, hpos] at hnone
    | some pos =>
      cases pos with
      | nil => simp [serviceIterNext, hpos, hset]
      | cons t rest =>
        obtain ⟨n, hn⟩ : ∃ n, (firstTargets se).length = n + 1 := by
          rw [ServiceIter.ahead, hpos] at hfuel
          exact ⟨(firstTargets se).length - 1, by simp at hfuel; omega⟩
        simp [hn, iterTargets, serviceIterNext, hpos, hset] at hnone
  · rw [iterTargets_init se hmode] at hnone
    cases hnone

theorem resolveAndSend_cases (hp : s.heap.cell skb = some p) (hqueue : s.queue = c.s.queue)
    (hcopied : (c.useCopy && !c.copied) = false) :
    (c.ends = true → ∃ r, resolveAndSend c.tbl c.h c.mode c.random skb s = some r ∧ Outcome c p r) ∧
    (c.ends = false → resolveAndSend c.tbl c.h c.mode c.random skb s = none) := by
  have htargets : c.targets = _ := if_neg (by simp [hcopied])
  rw [Call.ends, resolveAndSend]
  cases hfound : serviceFind c.tbl c.h.sk.peerSrvid.toList SERVICE_ID_MAX_PREFIX_BITS with
  | none =>
    rw [hfound] at htargets
    simp [htargets]
  | some found =>
    rw [hfound] at htargets
    cases found with
    | none =>
      refine ⟨fun _ => ⟨{ s.run with heap := s.heap.clear skb, err := -EADDRNOTAVAIL }, ?_,
        ?_⟩, by simp [htargets, loopEnds]⟩
      · simp only [kfreeSkb_eq (r := s.run) hp, bind_eq_bind, bind_some]
        rfl
      · exact outcome_refused (by rw [Call.plan, htargets]; rfl) hqueue rfl (by simp [EADDRNOTAVAIL])
    | some se =>
      dsimp only at htargets
      cases hts : iterTargets (iterFuel se) (serviceIterInit se c.mode c.random).1 with
      | none =>
        rw [hts] at htargets
        simp only [htargets, Option.map_none, Option.getD_none, bind_eq_bind, bind_some]
        refine ⟨nofun, fun _ => ?_⟩
        rw [sendToTargets_some (next_none hts) nofun]
        rfl
      | some ts =>
        rw [hts] at htargets
        simp only [htargets, Option.map_some, Option.getD_some, bind_eq_bind, bind_some]
        obtain ⟨hends, hnot⟩ := @sendToTargets_cases c.h se c.mode c.random skb s p ts (returns_of_iterTargets hts) hp
        refine ⟨fun h => ?_, hnot⟩
        obtain ⟨r, hcall, hsent⟩ := hends h
        exact ⟨r, hcall, outcome_sent hsent htargets hqueue⟩

def Call.finish (c : Call) (r : Run) (skb : ℕ) : Option Run :=
  if sendsAtOnce c.h.sk.skState || r.daddr != 0 then
    (r.kfreeSkb skb).map fun r => { r with err := c.doXmit }
  else resolveAndSend c.tbl c.h c.mode c.random skb r.toSt

theorem run_eq (c : Call) : c.run = if c.useCopy && !c.copied then some { c.s.run with err := -ENOBUFS }
    else (if c.useCopy then c.s.run.pskbCopy c.h c.skb else some (c.s.run, c.skb)).bind fun x => c.finish x.1 x.2 := by
  rw [Call.run, servalSalTransmitSkb]
  simp only [Call.finish, map_eq_bind]
  cases c.useCopy with
  | true | false => rfl

theorem run_cases (hc : c.Resolves p) :
    (c.ends = true → ∃ r, c.run = some r ∧ Outcome c (c.taken p) r) ∧ (c.ends = false → c.run = none) := by
  have hfinish (r₁ : Run) (skb : ℕ) (hdaddr : r₁.daddr = 0) :
      c.finish r₁ skb = resolveAndSend c.tbl c.h c.mode c.random skb r₁.toSt := by
    rw [Call.finish, if_neg]
    simp [hc.unconnected, hdaddr]
  rw [run_eq, Call.taken]
  cases huse : c.useCopy with
  | false =>
    simp only [Bool.false_and, Bool.false_eq_true, if_false, bind_some, hfinish c.s.run c.skb hc.daddr]
    exact resolveAndSend_cases hc.packet rfl (by simp [huse])
  | true =>
    cases hcopied : c.copied with
    | false =>
      have htargets : c.targets = some [] := if_pos (by simp [huse, hcopied])
      refine ⟨fun _ => ⟨_, rfl, outcome_refused ?_ rfl rfl (by simp [ENOBUFS])⟩, fun hends => ?_⟩
      · rw [Call.plan, htargets]
        rfl
      · rw [Call.ends, htargets] at hends
        cases hends
    | true =>
      have hcopy : c.s.run.pskbCopy c.h c.skb = some (c.s.run.copy c.h p, c.s.heap.brk) := by
        rw [Run.pskbCopy, show c.s.run.heap.cell c.skb = some p from hc.packet]
        rfl
      simp only [Bool.not_true, Bool.and_false, Bool.false_eq_true, if_false, if_true, hcopy, bind_some]
      rw [hfinish (c.s.run.copy c.h p) c.s.heap.brk hc.daddr]
      exact resolveAndSend_cases (p := { p with sk := some c.h.addr }) cell_alloc_self rfl (by simp [hcopied])

theorem run_outcome (hc : c.Resolves p) (hrun : c.run = some r) : Outcome c (c.taken p) r := by
  obtain ⟨hends, hnot⟩ := run_cases hc
  cases h : c.ends with
  | false => cases (hnot h).symm.trans hrun
  | true =>
    obtain ⟨r', hrun', houtcome⟩ := hends h
    cases hrun'.symm.trans hrun
    exact houtcome

end Outcome

/-- The value is never positive. It is 0 exactly for a packet that was transmitted or queued if and only if no failure
that replaces the value comes behind the last success; and then it is the same for any order of the same successes and
failures. -/
theorem run_value {c : Call} {p : Packet} {r : Run} (hc : c.Resolves p) (hrun : c.run = some r) :
    r.err ≤ 0 ∧ ((r.err = 0 ↔ ∃ leg ∈ r.legs, leg.fate.mark = .through) ↔ Lasting c.marks) ∧
    ∀ (c' : Call) (p' : Packet) (r' : Run), c'.Resolves p' → c'.run = some r' → c.marks.Perm c'.marks →
      Lasting c.marks → Lasting c'.marks → (r.err = 0 ↔ r'.err = 0) := by
  have hzero : ∀ {c : Call} {p : Packet} {r : Run}, c.Resolves p → c.run = some r →
      (r.err = 0 ↔ ∃ pre post, c.marks = pre ++ .through :: post ∧ .replaces ∉ post) := by
    intro c p r hc hrun
    have houtcome := run_outcome hc hrun
    rw [← houtcome.marks]
    rcases houtcome.value with ⟨hnone, herr⟩ | herr
    · simp [hnone, herr]
    · rw [herr]
      exact foldl_next_eq_zero (by decide) r.legs
  have hmem {ms : List Mark} (h : ∃ pre post, ms = pre ++ .through :: post ∧ .replaces ∉ post) : .through ∈ ms := by
    obtain ⟨pre, post, rfl, -⟩ := h
    simp
  refine ⟨(run_outcome hc hrun).nonpos, ?_, fun c' p' r' hc' hrun' hperm hlasting hlasting' => ?_⟩
  · have hsome : (∃ leg ∈ r.legs, leg.fate.mark = .through) ↔ .through ∈ c.marks := by
      rw [← (run_outcome hc hrun).marks, mem_map]
    rw [hzero hc hrun, hsome]
    exact ⟨fun hiff => hiff.mpr, fun hlasting => ⟨hmem, hlasting⟩⟩
  · rw [hzero hc hrun, hzero hc' hrun']
    exact ⟨fun h => hlasting' (hperm.mem_iff.mp (hmem h)), fun h => hlasting (hperm.mem_iff.mpr (hmem h))⟩

namespace Sample

def table (ts : List Target) : Table :=
  ⟨⟨some 1, 1, fun n => if n = 1 then some ⟨1, none, none, none, some (entry ts), 0, []⟩ else none, 2, []⟩, 1⟩

def call (ts : List Target) : Call := ⟨table ts, host fun _ => {}, .all, 0, true, 0, st, 0, true⟩

theorem call_resolves (ts : List Target) : (call ts).Resolves packet := ⟨rfl, rfl, rfl⟩

theorem call_marks : (call [drop, near]).marks = [.replaces, .through] ∧
    (call [near, drop, near]).marks = [.through, .replaces, .through] := by
  decide +kernel

end Sample

open Sample in
/-- A packet that is dropped and sent then, also where it was sent before. -/
theorem run_value_dropped : (∃ r, (call [drop, near]).run = some r ∧ r.err = 0) ∧
    ∃ r, (call [near, drop, near]).run = some r ∧ r.err = 0 := by
  have hvalue {ts : List Target} (pre : List Mark) (hends : (call ts).ends = true)
      (hmarks : (call ts).marks = pre ++ [.through]) : ∃ r, (call ts).run = some r ∧ r.err = 0 := by
    obtain ⟨r, hrun, houtcome⟩ := (run_cases (call_resolves ts)).1 hends
    refine ⟨r, hrun, ((run_value (call_resolves ts) hrun).2.1.mpr fun _ => ⟨pre, [], hmarks, not_mem_nil⟩).mpr ?_⟩
    rw [← mem_map (f := fun leg : Leg => leg.fate.mark), houtcome.marks, hmarks]
    exact mem_append_right _ (mem_singleton_self _)
  exact ⟨hvalue [.replaces] (by decide +kernel) call_marks.1,
    hvalue [.through, .replaces] (by decide +kernel) call_marks.2⟩

open Sample in
/-- The packet is sent to a target, and the value is an error where a DROP target comes after it, and 0 where it comes
before. -/
theorem run_value_overwritten : (call [near, drop]).run.map
    (fun r => (r.err, r.legs.map Leg.turn, r.legs.map (·.fate.mark))) =
      some (-EHOSTUNREACH, [(near, true), (drop, true)], [.through, .replaces]) ∧
    (call [drop, near]).run.map (fun r => (r.err, r.legs.map Leg.turn, r.legs.map (·.fate.mark))) =
      some (0, [(drop, true), (near, true)], [.replaces, .through]) := by
  decide +kernel

/-! ## The socket's view -/

def Leg.sent (leg : Leg) : List Segment :=
  match leg.fate with
  | .sent seg ret => if ret < 0 then [] else [seg]
  | _ => []

def Run.resolved (r : Run) : SalSocket.Resolved :=
  .done ((r.legs.flatMap Leg.sent).map fun seg => (seg.saddr, seg.daddr)) r.saddr r.err

end SalTransmit
