import Serval.SalListen
import Serval.SalPacket
import Serval.SalTransmit

/-! # Delayed packets and their release

A DELAY rule is met where a socket sends, and where a received packet is resolved. A RELEASE verdict resolves the packet
again with the lock of the queue held, which `delay_queue_skb` takes.
-/
namespace DelayRelease

open ByteMemory CellHeap SkBuff SalHeader ServiceTargets ServiceIterator ServiceTable SalResolve SalTransmit List Option
open CtrlChannel (Output DELAY_RELEASE)
open DelayQueue (Queue Effect Young Releases delayQueueSetVerdict start)
open SalSocket (Answer sendsAtOnce)

/-! ## A packet of a socket -/

/-- The socket is that of the packet, and there is no copy. `socks` are the sockets by their addresses. -/
def servalSalXmitSkb (tbl : Table) (socks : ℕ → Host) (mode : IterMode) (random : ℕ) (doXmit : ℤ) (s : St) (skb : ℕ) :
    Option Run := do
  let p ← s.heap.cell skb
  let sk ← p.sk
  servalSalTransmitSkb tbl { socks sk with addr := sk } mode random true doXmit s skb false

structure Held (h : Host) (p : Packet) (leg : Leg) (id : UInt32) (r : Run) : Prop where
  notified : ∃ e, leg.fate = .delayed id e ∧ e.ret = 0 ∧ e.notified = [(id, h.sk.peerSrvid.toList)]
  entry : ⟨id, leg.skb, some h.addr⟩ ∈ r.queue.queue
  packet : r.heap.cell leg.skb = some p

theorem held_of_through {c : Call} {p : Packet} {r : Run} (houtcome : Outcome c p r) (hown : p.sk = some c.h.addr)
    {leg : Leg} (hleg : leg ∈ r.legs) (hasks : leg.fate.asks = true) (hmark : leg.fate.mark = .through) :
    ∃ id, Held c.h p leg id r := by
  cases hfate : leg.fate with
  | delayed id e =>
    have hret : e.ret = 0 := by
      by_contra hne
      rw [hfate, Fate.mark, if_neg hne] at hmark
      cases hmark
    have hentries : leg.entries c.h = [⟨id, leg.skb, some c.h.addr⟩] := by
      simp [Leg.entries, hfate, Fate.entries, hret]
    have htold := houtcome.told leg hleg
    rw [hfate] at htold
    refine ⟨id, ⟨e, hfate, hret, htold hret⟩, ?_, ?_⟩
    · rw [houtcome.queue hown]
      apply mem_append_right
      exact mem_flatMap.mpr ⟨leg, hleg, by simp [hentries]⟩
    · apply houtcome.cells hown leg hleg
      simp [hentries]
  | _ =>
    rw [hfate] at hasks
    cases hasks

theorem xmit_eq {tbl : Table} {socks : ℕ → Host} {mode : IterMode} {random skb sk : ℕ} {doXmit : ℤ} {s : St}
    {p : Packet} (hp : s.heap.cell skb = some p) (hown : p.sk = some sk) :
    servalSalXmitSkb tbl socks mode random doXmit s skb =
      if sendsAtOnce (socks sk).sk.skState || s.daddr != 0 then
        some { s.run with heap := s.heap.clear skb, err := doXmit }
      else resolveAndSend tbl { socks sk with addr := sk } mode random skb s := by
  simp only [servalSalXmitSkb, hp, hown, bind_eq_bind, bind_some, servalSalTransmitSkb, Bool.not_true,
    Bool.and_false, Bool.false_eq_true, ↓reduceIte, kfreeSkb_eq (r := s.run) hp]
  rfl

/-- The entry holds the packet, and the process is told of it. After any calls from there on, a RELEASE verdict for the
number hands on that packet, and no verdict does so again; a socket that has neither a connection nor a destination then
resolves it. -/
structure Releasable (c : Call) (p : Packet) (before : List DelayQueue.Call) (leg : Leg) (r : Run) : Prop where
  held : ∃ id asked, Held c.h p leg id r ∧ r.queue = (DelayQueue.run start (before ++ asked)).queue ∧
    ∀ later, Young (DelayQueue.run start (before ++ asked ++ later)) →
      ⟨id, leg.skb, some c.h.addr⟩ ∈ (DelayQueue.run start (before ++ asked ++ later)).queue.queue →
      Releases (DelayQueue.run start (before ++ asked ++ later)) ⟨id, leg.skb, some c.h.addr⟩ c.h.addr
  resolved : ∀ tbl socks mode random doXmit (s : St), s.heap.cell leg.skb = some p →
    servalSalXmitSkb tbl socks mode random doXmit s leg.skb =
      if sendsAtOnce (socks c.h.addr).sk.skState || s.daddr != 0 then
        some { s.run with heap := s.heap.clear leg.skb, err := doXmit }
      else resolveAndSend tbl { socks c.h.addr with addr := c.h.addr } mode random leg.skb s

theorem releasable {c : Call} {p : Packet} {r : Run} {before : List DelayQueue.Call} (houtcome : Outcome c p r)
    (hown : p.sk = some c.h.addr) (hqueue : c.s.queue = (DelayQueue.run start before).queue) {leg : Leg}
    (hleg : leg ∈ r.legs) (hasks : leg.fate.asks = true) (hmark : leg.fate.mark = .through) :
    Releasable c p before leg r := by
  obtain ⟨id, hheld⟩ := held_of_through houtcome hown hleg hasks hmark
  obtain ⟨asked, hasked⟩ := houtcome.moves
  refine ⟨⟨id, asked, hheld, ?_, fun later hyoung hentry => ?_⟩, fun tbl socks mode random doXmit s hp =>
    xmit_eq hp hown⟩
  · rw [DelayQueue.run, foldl_append]
    exact (hasked _ hqueue.symm).symm
  · exact DelayQueue.releases_of_mem (DelayQueue.run_inv DelayQueue.start_inv _) hyoung hentry rfl

/-! ## A received packet -/

/-- The target that a received packet is resolved to. -/
def selected (tbl : Table) (random : ℕ) (srvid : List UInt8) : Option Target :=
  match serviceFind tbl srvid SERVICE_ID_MAX_PREFIX_BITS with
  | some (some se) => (serviceIterNext (serviceIterInit se .anycast random).1).bind (·.2)
  | _ => none

theorem next_anycast {se : ServiceEntry} {random : ℕ} {iter : ServiceIter} {t : Target}
    (h : serviceIterNext (serviceIterInit se .anycast random).1 = some (iter, some t)) :
    ∃ iter', serviceIterNext iter = some (iter', none) := by
  have hset := set_anycast se random
  generalize (serviceIterInit se .anycast random).1 = start at h hset
  cases hpos : start.pos with
  | none => simp [serviceIterNext, hpos] at h
  | some pos =>
    cases pos with
    | nil => simp [serviceIterNext, hpos, hset] at h
    | cons x rest =>
      simp only [serviceIterNext, hpos, hset] at h
      cases h
      exact ⟨_, rfl⟩

section Received

variable {tbl : Table} {env : SalResolve.Env} {skb : Skb} {ctx : SalContext} {srvid : List UInt8} {t : Target}

/-- A packet that comes to a DELAY target gets into no queue: with memory for the entry NULL is read, and without it the
packet is lost. -/
theorem resolveService_delay (hselected : selected tbl env.random srvid = some t) (hdelay : t.type = .delay) :
    servalSalResolveService tbl env skb ctx srvid = if env.alloc then none else some ⟨.delay, none, []⟩ := by
  rw [selected] at hselected
  split at hselected
  next se hfound =>
    obtain ⟨⟨iter, target⟩, hnext, htarget⟩ := bind_eq_some_iff.mp hselected
    obtain rfl : target = some t := htarget
    obtain ⟨iter', hlast⟩ := next_anycast hnext
    have hinit : ¬(serviceIterInit se .anycast env.random).2 < 0 := by
      intro hfail
      obtain ⟨iter', hnone⟩ := next_of_failed hfail
      cases hnext.symm.trans hnone
    simp only [servalSalResolveService, hfound, bind_eq_bind, bind_some, hinit, if_false, hnext, resolveLoop,
      hlast, hdelay]
  next => cases hselected

theorem selected_of_delay {res : Resolution} (hresolve : servalSalResolveService tbl env skb ctx srvid = some res)
    (hdelay : res.ret = .delay) : ∃ t, selected tbl env.random srvid = some t ∧ t.type = .delay := by
  obtain ⟨found, hfound, hresolve⟩ := bind_eq_some_iff.mp hresolve
  cases found with
  | none =>
    cases hresolve
    cases hdelay
  | some se =>
    simp only at hresolve
    split at hresolve
    · cases hresolve
      cases hdelay
    · obtain ⟨⟨iter, target⟩, hnext, hloop⟩ := bind_eq_some_iff.mp hresolve
      cases target with
      | none =>
        cases hloop
        cases hdelay
      | some target =>
        obtain ⟨iter', hlast⟩ := next_anycast hnext
        refine ⟨target, by simp [selected, hfound, hnext], ?_⟩
        simp only [resolveLoop, hlast, bind_eq_bind, bind_some] at hloop
        cases htype : target.type with
        | delay => rfl
        | demux =>
          simp only [htype] at hloop
          obtain ⟨sk, -, hloop⟩ := bind_eq_some_iff.mp hloop
          cases hloop
          cases hdelay
        | drop =>
          simp only [htype] at hloop
          cases hloop
          cases hdelay
        | _ =>
          simp only [htype] at hloop
          obtain ⟨out, -, hloop⟩ := bind_eq_some_iff.mp hloop
          cases out with
          | none | some out =>
            cases hloop
            cases hdelay

end Received

/-- Of a call of a socket that resolves, a turn for a DELAY target that has memory, a listener and room leaves the
packet or the same copy in the queue, from where it can be released, if and only if the loop ends. A received packet
never gets there. -/
theorem delayed_released (c : Call) (p : Packet) (before : List DelayQueue.Call) (k : ℕ) (t : Target) (tbl : Table)
    (env : SalResolve.Env) (skb : Skb) (ctx : SalContext) (srvid : List UInt8) :
    (c.Resolves p → p.sk = some c.h.addr → c.s.queue = (DelayQueue.run start before).queue →
      c.plan[k]? = some (t, true) → t.type = .delay → c.marks[k]? = some .through →
      ((∃ r leg, c.run = some r ∧ r.legs[k]? = some leg ∧ leg.target = t ∧ Releasable c p before leg r) ↔
      c.ends = true)) ∧
    (selected tbl env.random srvid = some t → t.type = .delay →
      servalSalResolveService tbl env skb ctx srvid = if env.alloc then none else some ⟨.delay, none, []⟩) := by
  refine ⟨fun hc hown hqueue hturn hdelay hmark => ?_, resolveService_delay⟩
  have htaken : c.taken p = p := by
    rw [Call.taken]
    split
    · rw [← hown]
    · rfl
  obtain ⟨hends, hnot⟩ := run_cases hc
  cases h : c.ends with
  | false => simp [hnot h]
  | true =>
    obtain ⟨r, hrun, houtcome⟩ := hends h
    rw [htaken] at houtcome
    rw [← houtcome.turns, getElem?_map, map_eq_some_iff] at hturn
    obtain ⟨leg, hleg, hturn⟩ := hturn
    obtain ⟨htarget, hpacket⟩ := Prod.mk.inj hturn
    rw [← houtcome.marks, getElem?_map, hleg, map_some, Option.some.injEq] at hmark
    have hmem := mem_of_getElem? hleg
    have hasks : leg.fate.asks = true := by
      rw [houtcome.asks leg hmem, htarget, hdelay, hpacket]
      rfl
    exact iff_of_true ⟨r, leg, hrun, hleg, htarget, releasable houtcome hown hqueue hmem hasks hmark⟩ rfl

namespace Sample

open SalTransmit.Sample

def env (alloc : Bool) : SalResolve.Env := ⟨0, .host, fun _ => some 0, true, alloc, none⟩

def skb : Skb := ⟨SalForwarding.load ([0, 0, 0, 0, 0, 0, 0, 0, 12, 17, 0, 0, 32, 36] ++ List.replicate 34 0), 0, 48, 0,
    0⟩

def ctx : SalContext := (servalSalParseHdr skb.mem 0 .all).1

theorem call_delay : (call [delay, near]).ends = true ∧ (call [delay, near]).plan[0]? = some (delay, true) ∧
    (call [delay, near]).marks[0]? = some .through := by
  decide +kernel

end Sample

open Sample SalTransmit.Sample in
/-- A copy is queued for the first of two targets. -/
theorem delayed_released_first :
    ∃ r leg, (call [delay, near]).run = some r ∧ r.legs[0]? = some leg ∧ leg.target = delay ∧
      Releasable (call [delay, near]) packet [] leg r :=
  ((delayed_released (call [delay, near]) packet [] 0 delay (SalTransmit.Sample.table []) (env true) skb ctx []).1
    (call_resolves _) rfl rfl call_delay.2.1 rfl call_delay.2.2).mpr call_delay.1

open Sample in
theorem received_not_delayed :
    servalSalResolveService (SalTransmit.Sample.table [SalTransmit.Sample.delay]) (env true) skb ctx
      (List.replicate 32 0) = none ∧
    (servalSalResolveService (SalTransmit.Sample.table [SalTransmit.Sample.delay]) (env false) skb ctx
      (List.replicate 32 0)).map (fun res => res.ret) = some .delay := by
  decide +kernel

/-! ## What runs under the lock -/

def askedIn (r : Run) : List (Option ℕ) := (r.legs.filter (·.fate.asks)).map fun leg => some leg.skb

def Call.direct (c : Call) : Bool := sendsAtOnce c.h.sk.skState || c.s.daddr != 0

/-- No turn of the call has a packet for a DELAY target. -/
def Quiet (c : Call) : Prop := Call.direct c = true ∨ ∀ x ∈ c.plan, x.1.type = .delay → x.2 = false

/-- What the host answers where a socket attempts to send. -/
structure Attempt where
  turns : ℕ → Turn
  random : ℕ
  useCopy : Bool
  copied : Bool
  alloc : Bool
  xmit : ℤ

/-- The host at the time of the verdict: the table and `sysctl_sal_forward`; its sockets by their addresses, and the
packets of its own; what a call that sends is answered; and the received packets with their devices. -/
structure Site where
  tbl : Table
  salForward : Bool
  socks : ℕ → Host
  mode : IterMode
  random : ℕ
  doXmit : ℤ
  heap : Heap Packet
  received : ℕ → Option (Skb × ℕ)
  resolve : SalResolve.Env
  sal : SalSocket.Env
  attempts : List Attempt

def Site.st (site : Site) (heap : Heap Packet) (q : Queue) (sk : ℕ) : St :=
  ⟨heap, q, (site.socks sk).sk.saddr, (site.socks sk).sk.daddr⟩

/-- The call that an attempt of the socket comes to: the rules are those for its own peer. -/
def Site.call (site : Site) (q : Queue) (sk : ℕ) (a : Attempt) : Call where
  tbl := site.tbl
  h := { site.socks sk with addr := sk, turns := a.turns }
  mode := site.mode
  random := a.random
  copied := a.copied
  doXmit := a.xmit
  s := site.st (site.heap.alloc ⟨some sk, ⟨{}, 0, 0, false⟩, []⟩) q sk
  skb := site.heap.brk
  useCopy := a.useCopy

def Site.answer (site : Site) (q : Queue) (sk : ℕ) (a : Attempt) : Option Answer := do
  let r ← (site.call q sk a).run
  return { alloc := a.alloc, copied := a.copied, xmit := a.xmit, resolved := r.resolved }

def Site.asked (site : Site) (q : Queue) (sk : ℕ) (a : Attempt) : List (Option ℕ) :=
  ((site.call q sk a).run.map askedIn).getD []

def demuxService (site : Site) (skb : Skb) (ctx : SalContext) (srvid : List UInt8) : Option Resolution := do
  match ← ServiceFind.serviceFindSock site.tbl (some srvid) SERVICE_ID_MAX_PREFIX_BITS
    (protocol skb.mem ctx.hdr).toNat with
  | none => return ⟨.noMatch, none, []⟩
  | some sk => return ⟨.demux, some sk, []⟩

def srvidOf (skb : Skb) (ctx : SalContext) : Option (List UInt8) := ctx.srvExt0.map fun ext => read skb.mem (ext + 4) 32

def resolve (site : Site) (skb : Skb) (ctx : SalContext) : Option Resolution :=
  if ctx.length ≤ SAL_HEADER_LEN then some ⟨.error, none, []⟩
  else match srvidOf skb ctx with
    | none => some ⟨.error, none, []⟩
    | some srvid =>
      if site.salForward then servalSalResolveService site.tbl site.resolve skb ctx srvid
      else demuxService site skb ctx srvid

/-- `serval_sal_rcv_finish`: the calls of `delay_queue_skb` in the attempts to send that the socket, or the child that
it makes, has used up. -/
def servalSalRcvFinish (site : Site) (q : Queue) (sk : Sock) (skb : Skb) (dev : ℕ) (ctx : SalContext) :
    Option (List (Option ℕ)) := do
  let tape ← site.attempts.mapM (site.answer q sk.addr)
  let p := SalPacket.packetOf skb ctx dev site.resolve.pktType
  let (w, child) ← SalListen.servalSalStateProcess site.sal ⟨(site.socks sk.addr).sk, [], tape⟩ p
  let left := (child.getD w).tape.length
  return (site.attempts.take (tape.length - left)).flatMap (site.asked q sk.addr)

/-- The calls of `delay_queue_skb` on the way of a packet that is put back as if it were received. The value returned
is not looked at. -/
def servalSalReresolve (site : Site) (q : Queue) (skb : Skb) (dev : ℕ) : Option (List (Option ℕ)) := do
  let (ctx, ret) := servalSalParseHdr skb.mem skb.transportHeader .all
  if ret ≠ 0 then return []
  else
    let res ← resolve site skb ctx
    match res.ret with
    | .demux =>
      let sk ← res.sk
      servalSalRcvFinish site q sk skb dev ctx
    | .forward => return []
    | .delay => return [none]
    | .noMatch => return []
    | .drop => return []
    -- the socket has not been set where there is nothing to resolve, and is read
    | .error => if ctx.length ≤ SAL_HEADER_LEN ∨ srvidOf skb ctx = none then none else return []

def release (site : Site) (q : Queue) : Output → Option (Queue × List (Option ℕ))
  | .xmit skb => do
    let sk := ((site.heap.cell skb).bind Packet.sk).getD 0
    let r ← servalSalXmitSkb site.tbl site.socks site.mode site.random site.doXmit (site.st site.heap q sk) skb
    return (r.queue, askedIn r)
  | .reresolve skb => do
    let (skb, dev) ← site.received skb
    let asked ← servalSalReresolve site q skb dev
    return (q, asked)
  | .reply _ => some (q, [])

/-- `delay_queue_set_verdict` with the release, which is made under the lock, and the calls of `delay_queue_skb` in
it. -/
def setVerdict (site : Site) (dead : ℕ → Bool) (q : Queue) (pktId verdict : UInt32) (pid : ℤ) :
    Option (Queue × Effect × List (Option ℕ)) :=
  let (q, e) := delayQueueSetVerdict dead q pktId verdict pid
  match e.out with
  | [] => some (q, e, [])
  | out :: _ => do
    let (q, asked) ← release site q out
    return (q, e, asked)

/-! ## Verdicts that do not come back -/

/-- The call by which a packet of a socket is sent again. -/
def Site.resend (site : Site) (q : Queue) (skb sk : ℕ) : Call where
  tbl := site.tbl
  h := { site.socks sk with addr := sk }
  mode := site.mode
  random := site.random
  copied := true
  doXmit := site.doXmit
  s := site.st site.heap q sk
  skb := skb
  useCopy := false

/-- The service that a received packet is resolved by. -/
def Site.lookup (site : Site) (skb : Skb) : Option (List UInt8) :=
  let (ctx, ret) := servalSalParseHdr skb.mem skb.transportHeader .all
  if ret ≠ 0 ∨ ctx.length ≤ SAL_HEADER_LEN ∨ site.salForward = false then none else srvidOf skb ctx

/-- The socket that a received packet is delivered to. -/
def Site.receiver (site : Site) (skb : Skb) : Option Sock :=
  match DelayRelease.resolve site skb (servalSalParseHdr skb.mem skb.transportHeader .all).1 with
  | some res => if res.ret = .demux then res.sk else none
  | none => none

/-- The packet is not delivered to a socket. -/
def Site.Undelivered (site : Site) : Output → Prop
  | .reresolve skb => ∀ x, site.received skb = some x → site.receiver x.1 = none
  | _ => True

def Site.Quiet (site : Site) (q : Queue) : Output → Prop
  | .xmit skb => ∀ p sk, site.heap.cell skb = some p → p.sk = some sk → DelayRelease.Quiet (site.resend q skb sk)
  | .reresolve skb => ∀ x, site.received skb = some x →
      (∀ srvid t, site.lookup x.1 = some srvid → selected site.tbl site.resolve.random srvid = some t →
      t.type ≠ .delay) ∧
      ∀ sk, site.receiver x.1 = some sk → ∀ a ∈ site.attempts, DelayRelease.Quiet (site.call q sk.addr a)
  | .reply _ => True

section Verdict

variable {site : Site} {q q' : Queue} {asked : List (Option ℕ)}

theorem askedIn_eq_nil {c : Call} {p : Packet} {r : Run} (houtcome : Outcome c p r) :
    askedIn r = [] ↔ ∀ x ∈ c.plan, x.1.type = .delay → x.2 = false := by
  rw [askedIn, map_eq_nil_iff, filter_eq_nil_iff, ← houtcome.turns, List.forall_mem_map]
  refine forall₂_congr fun leg hleg => ?_
  rw [houtcome.asks leg hleg]
  simp [Leg.turn]

section Call

variable {c : Call} {p : Packet} {r : Run}

theorem run_direct (hp : c.s.heap.cell c.skb = some p) (hdirect : Call.direct c = true) :
    ∃ r, c.run = some r ∧ r.legs = [] := by
  have hfinish (r : Run) (skb : ℕ) (p : Packet) (hdaddr : r.daddr = c.s.daddr) (hp : r.heap.cell skb = some p) :
      c.finish r skb = some { r with heap := r.heap.clear skb, err := c.doXmit } := by
    rw [Call.direct, ← hdaddr] at hdirect
    rw [Call.finish, if_pos hdirect, kfreeSkb_eq hp]
    rfl
  rw [run_eq]
  split
  · exact ⟨_, rfl, rfl⟩
  · split
    · rw [Run.pskbCopy, show c.s.run.heap.cell c.skb = some p from hp]
      exact ⟨_, hfinish _ _ _ rfl cell_alloc_self, rfl⟩
    · exact ⟨_, hfinish _ _ _ rfl hp, rfl⟩

theorem resolves_of_not_direct (hp : c.s.heap.cell c.skb = some p) (hdirect : Call.direct c = false) :
    c.Resolves p := by
  rw [Call.direct, Bool.or_eq_false_iff, bne_eq_false_iff_eq] at hdirect
  exact ⟨hdirect.1, hdirect.2, hp⟩

theorem asked_iff (hp : c.s.heap.cell c.skb = some p) (hrun : c.run = some r) : askedIn r = [] ↔ Quiet c := by
  rw [Quiet]
  cases hdirect : Call.direct c with
  | true =>
    obtain ⟨r', hrun', hlegs⟩ := run_direct hp hdirect
    cases hrun'.symm.trans hrun
    simp [askedIn, hlegs]
  | false => simp [askedIn_eq_nil (run_outcome (resolves_of_not_direct hp hdirect) hrun)]

theorem run_isSome (hp : c.s.heap.cell c.skb = some p) : (∃ r, c.run = some r) ↔ Call.direct c = true ∨
    c.ends = true := by
  cases hdirect : Call.direct c with
  | true =>
    obtain ⟨r, hrun, -⟩ := run_direct hp hdirect
    simp [hrun]
  | false =>
    obtain ⟨hends, hnot⟩ := run_cases (resolves_of_not_direct hp hdirect)
    cases h : c.ends with
    | true =>
      obtain ⟨r, hrun, -⟩ := hends h
      simp [hrun]
    | false => simp [hnot h]

end Call

theorem rcvFinish_quiet {sk : Sock} {skb : Skb} {dev : ℕ} {ctx : SalContext}
    (hquiet : ∀ a ∈ site.attempts, DelayRelease.Quiet (site.call q sk.addr a))
    (hfinish : servalSalRcvFinish site q sk skb dev ctx = some asked) : asked = [] := by
  obtain ⟨tape, -, hfinish⟩ := bind_eq_some_iff.mp hfinish
  obtain ⟨⟨w, child⟩, -, hfinish⟩ := bind_eq_some_iff.mp hfinish
  cases hfinish
  rw [flatMap_eq_nil_iff]
  intro a ha
  rw [Site.asked]
  cases hrun : (site.call q sk.addr a).run with
  | none => rfl
  | some r => exact (asked_iff cell_alloc_self hrun).mpr (hquiet a (mem_of_mem_take ha))

/-- A DELAY target is what a packet is resolved to, and then nothing else happens. -/
theorem resolve_delay {skb : Skb} {res : Resolution}
    (hret : (servalSalParseHdr skb.mem skb.transportHeader .all).2 = 0)
    (hresolve : resolve site skb (servalSalParseHdr skb.mem skb.transportHeader .all).1 = some res) :
    res.ret = .delay ↔ ∃ srvid t, site.lookup skb = some srvid ∧ selected site.tbl site.resolve.random srvid = some t ∧
      t.type = .delay := by
  rw [resolve] at hresolve
  simp only [Site.lookup, hret, ne_eq, not_true_eq_false, false_or]
  split at hresolve
  next hshort =>
    cases hresolve
    simp [hshort]
  next hlong =>
    split at hresolve
    next hnone =>
      cases hresolve
      simp [hnone]
    next srvid hsrvid =>
      split at hresolve
      next hforward =>
        simp only [hlong, hforward, Bool.true_eq_false, or_false, if_false, hsrvid, Option.some.injEq]
        constructor
        · intro hdelay
          obtain ⟨t, hselected, htype⟩ := selected_of_delay hresolve hdelay
          exact ⟨srvid, t, rfl, hselected, htype⟩
        · rintro ⟨_, t, rfl, hselected, htype⟩
          rw [resolveService_delay hselected htype] at hresolve
          split at hresolve
          · cases hresolve
          · cases hresolve
            rfl
      next hforward =>
        rw [Bool.not_eq_true] at hforward
        obtain ⟨found, -, hresolve⟩ := bind_eq_some_iff.mp hresolve
        cases found with
        | none | some sk =>
          cases hresolve
          simp [hforward]

theorem reresolve_asked {skb : Skb} {dev : ℕ} (hrun : servalSalReresolve site q skb dev = some asked) :
    ((∀ srvid t, site.lookup skb = some srvid → selected site.tbl site.resolve.random srvid = some t →
    t.type ≠ .delay) →
      (∀ sk, site.receiver skb = some sk → ∀ a ∈ site.attempts, DelayRelease.Quiet (site.call q sk.addr a)) →
      asked = []) ∧
    (site.receiver skb = none → asked = [] → ∀ srvid t, site.lookup skb = some srvid →
      selected site.tbl site.resolve.random srvid = some t → t.type ≠ .delay) := by
  rw [servalSalReresolve] at hrun
  simp only at hrun
  split at hrun
  next hret =>
    cases hrun
    refine ⟨fun _ _ => rfl, fun _ _ srvid t hlookup => ?_⟩
    simp [Site.lookup, hret] at hlookup
  next hret =>
    obtain ⟨res, hresolve, hrun⟩ := bind_eq_some_iff.mp hrun
    have hdelay := resolve_delay (not_not.mp hret) hresolve
    have hother (hne : res.ret ≠ .delay) : ∀ srvid t, site.lookup skb = some srvid →
        selected site.tbl site.resolve.random srvid = some t → t.type ≠ .delay := fun srvid t hlookup hselected htype =>
      hne (hdelay.mpr ⟨srvid, t, hlookup, hselected, htype⟩)
    cases hcase : res.ret with
    | delay =>
      obtain ⟨srvid, t, hlookup, hselected, htype⟩ := hdelay.mp hcase
      simp only [hcase] at hrun
      cases hrun
      exact ⟨fun hquiet _ => absurd htype (hquiet srvid t hlookup hselected), nofun⟩
    | demux =>
      simp only [hcase] at hrun
      obtain ⟨sk, hsk, hfinish⟩ := bind_eq_some_iff.mp hrun
      have hreceiver : site.receiver skb = some sk := by simp [Site.receiver, hresolve, hcase, hsk]
      exact ⟨fun _ hquiet => rcvFinish_quiet (hquiet sk hreceiver) hfinish, fun hnone => by simp [hreceiver] at hnone⟩
    | error =>
      simp only [hcase] at hrun
      split at hrun
      · cases hrun
      · cases hrun
        exact ⟨fun _ _ => rfl, fun _ _ => hother (by simp [hcase])⟩
    | _ =>
      simp only [hcase] at hrun
      cases hrun
      exact ⟨fun _ _ => rfl, fun _ _ => hother (by simp [hcase])⟩

theorem release_asked {out : Output} (hrelease : release site q out = some (q', asked)) :
    (site.Quiet q out → asked = []) ∧ (site.Undelivered out → asked = [] → site.Quiet q out) := by
  cases out with
  | xmit skb =>
    obtain ⟨r, hxmit, hrelease⟩ := bind_eq_some_iff.mp hrelease
    cases hrelease
    obtain ⟨p, hp, hxmit⟩ := bind_eq_some_iff.mp hxmit
    obtain ⟨sk, hsk, hxmit⟩ := bind_eq_some_iff.mp hxmit
    have hp : site.heap.cell skb = some p := hp
    rw [hp, bind_some, hsk, Option.getD_some] at hxmit
    have hasked := asked_iff (c := site.resend q skb sk) hp hxmit
    refine ⟨fun hquiet => hasked.mpr (hquiet p sk hp hsk), fun _ hnil p' sk' hp' hsk' => ?_⟩
    cases hp.symm.trans hp'
    cases hsk.symm.trans hsk'
    exact hasked.mp hnil
  | reresolve skb =>
    obtain ⟨x, hx, hrelease⟩ := bind_eq_some_iff.mp hrelease
    obtain ⟨asked', hreresolve, hrelease⟩ := bind_eq_some_iff.mp hrelease
    cases hrelease
    obtain ⟨hquiet, hnot⟩ := reresolve_asked hreresolve
    refine ⟨fun h => hquiet (h x hx).1 (h x hx).2, fun hundelivered hnil x' hx' => ?_⟩
    cases hx.symm.trans hx'
    exact ⟨hnot (hundelivered x hx) hnil, fun sk hsk => by simp [hundelivered x hx] at hsk⟩
  | reply _ =>
    cases hrelease
    exact ⟨fun _ => rfl, fun _ _ => trivial⟩

end Verdict

namespace Sample

open SalTransmit.Sample

def queue : Queue := (DelayQueue.run start [.skb 0 (some 1) (List.replicate 32 0) true 0]).queue

def site (ts : List Target) : Site where
  tbl := table ts
  salForward := true
  socks := fun _ => host fun _ => {}
  mode := .all
  random := 0
  doXmit := 0
  heap := st.heap
  received := fun _ => some (skb, 0)
  resolve := env false
  sal := ⟨0, fun _ => none, 0, 0, {}, none, false⟩
  attempts := []

end Sample

end DelayRelease
