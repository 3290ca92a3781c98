import Serval.SalListener

/-! # The queues of a listening socket

Requests wait in the SYN queue, and then in the accept queue. Here they are the objects that the queues link, and the
counters have the widths of the source.
-/
namespace SalQueues

open SalSocket SalInput SalListen SalListener List UInt64

structure Rsk where
  addr : ℕ
  req : RequestSock
  sk : Option ℕ

structure Listener where
  rest : Sock
  synQueue : List Rsk
  acceptQueue : List Rsk
  requestQlen : UInt64
  ackBacklog : UInt16
  maxAckBacklog : UInt16

def Listener.setKeepalive (l : Listener) (keepalive : Option ℕ) : Listener :=
  { l with rest := { l.rest with timers := { l.rest.timers with keepalive := keepalive } } }

/-! ## The functions of the source -/

def servalSockRequestQueueIsFull (l : Listener) : Bool := l.rest.maxRequestQlen < l.requestQlen.toNat

def skAcceptqIsFull (l : Listener) : Bool := l.maxAckBacklog < l.ackBacklog

def skAcceptqAdded (l : Listener) : Listener := { l with ackBacklog := l.ackBacklog + 1 }

def skAcceptqRemoved (l : Listener) : Listener := { l with ackBacklog := l.ackBacklog - 1 }

def servalSockRequestQueueAdded (env : Env) (l : Listener) : Listener :=
  let l := if l.requestQlen = 0 then l.setKeepalive (some (env.now + SalRtt.SAL_TIMEOUT_INIT.toNat)) else l
  { l with requestQlen := l.requestQlen + 1 }

def servalSockRequestQueueRemoved (l : Listener) : Listener :=
  let l := { l with requestQlen := l.requestQlen - 1 }
  if l.requestQlen = 0 then l.setKeepalive none else l

def unlink (rsk : Rsk) (queue : List Rsk) : List Rsk := queue.eraseP (·.addr = rsk.addr)

def servalSockReqskQueueAdd (env : Env) (l : Listener) (rsk : Rsk) : Listener :=
  servalSockRequestQueueAdded env { l with synQueue := rsk :: l.synQueue }

/-- `addr` is where a new request would be allocated. The answer to the client changes no queue. -/
def servalSalRcvSyn (env : Env) (l : Listener) (p : Packet) (addr : ℕ) : Listener :=
  if !hasValidControlExtension l.rest p || !hasServiceExtension p.srv0 then l
  else if servalSockRequestQueueIsFull l then l
  else if skAcceptqIsFull l then l
  else match p.ctrl, p.srv0, env.devs p.dev, env.newRequest with
    | some ctrl, some srv, some myaddr, some new =>
      if env.transport.connRequest ≠ 0 then l
      else servalSockReqskQueueAdd env l ⟨addr, newRequestSock env p ctrl srv new myaddr, none⟩
    | _, _, _, _ => l

def servalSalFindRsk (l : Listener) (p : Packet) : Option Rsk :=
  (l.synQueue ++ l.acceptQueue).find? (·.req.peerFlowid = p.srcFlowid)

def requestOf (l : Listener) (p : Packet) : Option Rsk :=
  match l.synQueue.find? (·.req.localFlowid = p.dstFlowid), p.ctrl with
  | some rsk, some ctrl =>
    if rsk.req.peerNonce ≠ ctrl.nonce then none
    else if p.verno ≠ rsk.req.rcvSeq + 1 then none
    else if p.ackno ≠ rsk.req.issSeq + 1 then none
    else some rsk
  | _, _ => none

def acceptRequest (l : Listener) (rsk : Rsk) (child : ℕ) : Listener :=
  skAcceptqAdded (servalSockRequestQueueRemoved { l with
    synQueue := unlink rsk l.synQueue
    acceptQueue := l.acceptQueue ++ [{ rsk with sk := some child }] })

/-- The listening socket, and the child if one is made. `child` is where it would be allocated. -/
def servalSalRequestSockHandle (env : Env) (l : Listener) (p : Packet) (child : ℕ) : Listener × Option ℕ :=
  match requestOf l p with
  | none => (l, none)
  | some rsk =>
    if !env.cloned || env.transport.childSock < 0 then (l, none)
    else (acceptRequest l rsk child, some child)

def servalSalListenStateProcess (env : Env) (l : Listener) (p : Packet) (addr child : ℕ) : Listener × Option ℕ :=
  if p.flags.syn && !p.flags.ack then
    match servalSalFindRsk l p with
    | some _ => (l, none)
    | none => (servalSalRcvSyn env l p addr, none)
  else if p.flags.ack then servalSalRequestSockHandle env l p child
  else (l, none)

def servalAcceptDequeue (l : Listener) : Option (ℕ × Listener) := do
  let rsk ← l.acceptQueue.find? (·.sk.isSome)
  let child ← rsk.sk
  return (child, skAcceptqRemoved { l with acceptQueue := unlink rsk l.acceptQueue })

def pruneLoop (now : ℕ) : List Rsk → Listener → Listener
  | [], l => l
  | rsk :: rest, l => pruneLoop now rest
      (if rsk.req.expires ≤ now then
        servalSockRequestQueueRemoved { l with synQueue := unlink rsk l.synQueue }
      else l)

def servalSockRequestQueuePrune (l : Listener) (now interval : ℕ) : Listener :=
  if l.requestQlen = 0 then l
  else
    let l := pruneLoop now l.synQueue l
    if l.requestQlen ≠ 0 then l.setKeepalive (some (now + interval)) else l

/-- The socket may be listening already. The field keeps the lowest 16 bits of the argument. -/
def servalListen (l : Listener) (backlog : ℤ) : Listener :=
  { l with
    rest := { l.rest with skState := .listen }
    ackBacklog := 0
    maxAckBacklog := UInt16.ofInt backlog }

def servalListenStop (l : Listener) : Listener :=
  let l := l.setKeepalive none
  let l := l.synQueue.foldl (fun l _ =>
    servalSockRequestQueueRemoved { l with synQueue := l.synQueue.tail }) l
  l.acceptQueue.foldl (fun l _ => skAcceptqRemoved { l with acceptQueue := l.acceptQueue.tail }) l

/-! ## Runs -/

inductive Event where
  | packet (env : Env) (p : Packet) (addr child : ℕ)
  | accept
  | prune (now interval : ℕ)
  | listen (backlog : ℤ)
  | listenStop

/-- A run remembers the children in the order in which their handshakes were completed, and those that
have left the accept queue: to the application, or with the queue. -/
structure Run where
  l : Listener
  completed : List ℕ
  left : List (ℕ × Bool)

def children (queue : List Rsk) : List ℕ := queue.filterMap (·.sk)

def step (r : Run) : Event → Run
  | .packet env p addr child =>
    let (l, made) := servalSalListenStateProcess env r.l p addr child
    { r with l := l, completed := r.completed ++ made.toList }
  | .accept =>
    match servalAcceptDequeue r.l with
    | none => r
    | some (child, l) => { r with l := l, left := r.left ++ [(child, true)] }
  | .prune now interval => { r with l := servalSockRequestQueuePrune r.l now interval }
  | .listen backlog => { r with l := servalListen r.l backlog }
  | .listenStop =>
    { r with l := servalListenStop r.l, left := r.left ++ (children r.l.acceptQueue).map (·, false) }

def Enabled (r : Run) : Event → Prop
  | .packet _ _ addr _ => ∀ rsk ∈ r.l.synQueue ++ r.l.acceptQueue, rsk.addr ≠ addr
  | _ => True

structure Fresh (l : Listener) : Prop where
  syn : l.synQueue = []
  accept : l.acceptQueue = []
  qlen : l.requestQlen = 0
  backlog : l.ackBacklog = 0
  max : l.rest.maxRequestQlen = DEFAULT_MAX_REQUEST_QLEN

inductive Runs (ok : Run → Event → Prop) : Run → Prop where
  | start (l : Listener) : Fresh l → Runs ok ⟨l, [], []⟩
  | step {r : Run} (e : Event) : Runs ok r → Enabled r e → ok r e → Runs ok (step r e)

/-! ## Counters -/

@[simp] theorem added_fields (env : Env) (l : Listener) :
    (servalSockRequestQueueAdded env l).synQueue = l.synQueue ∧
      (servalSockRequestQueueAdded env l).acceptQueue = l.acceptQueue ∧
      (servalSockRequestQueueAdded env l).requestQlen = l.requestQlen + 1 ∧
      (servalSockRequestQueueAdded env l).ackBacklog = l.ackBacklog ∧
      (servalSockRequestQueueAdded env l).rest.maxRequestQlen = l.rest.maxRequestQlen := by
  unfold servalSockRequestQueueAdded
  split <;> exact ⟨rfl, rfl, rfl, rfl, rfl⟩

@[simp] theorem removed_fields (l : Listener) : (servalSockRequestQueueRemoved l).synQueue = l.synQueue ∧
    (servalSockRequestQueueRemoved l).acceptQueue = l.acceptQueue ∧
      (servalSockRequestQueueRemoved l).requestQlen = l.requestQlen - 1 ∧
      (servalSockRequestQueueRemoved l).ackBacklog = l.ackBacklog ∧
      (servalSockRequestQueueRemoved l).rest.maxRequestQlen = l.rest.maxRequestQlen := by
  unfold servalSockRequestQueueRemoved
  dsimp only
  split <;> exact ⟨rfl, rfl, rfl, rfl, rfl⟩

theorem ofNat_pred (n : ℕ) : UInt64.ofNat (n + 1) - 1 = UInt64.ofNat n := by
  rw [ofNat_add]
  simp

theorem backlog_pred (n : ℕ) : UInt16.ofNat (n + 1) - 1 = UInt16.ofNat n := by
  rw [UInt16.ofNat_add]
  simp

variable {l l' : Listener} {r : Run} {rsk : Rsk} {queue : List Rsk}

theorem unlink_perm (hnodup : (queue.map (·.addr)).Nodup) (hmem : rsk ∈ queue) :
    queue.Perm (rsk :: unlink rsk queue) := by
  obtain ⟨a, front, back, -, ha, heq, herase⟩ :=
    @List.exists_of_eraseP _ (fun x => decide (x.addr = rsk.addr)) queue rsk hmem (by simp)
  have hsame : a = rsk :=
    inj_on_of_nodup_map hnodup (by simp [heq]) hmem (by simpa using ha)
  subst hsame
  rw [unlink, herase, heq]
  exact perm_middle

/-! ## The invariant -/

structure Queued (l : Listener) : Prop where
  qlen : l.requestQlen = UInt64.ofNat l.synQueue.length
  bound : l.synQueue.length ≤ l.rest.maxRequestQlen + 1
  max : l.rest.maxRequestQlen = DEFAULT_MAX_REQUEST_QLEN
  addrs : ((l.synQueue ++ l.acceptQueue).map (·.addr)).Nodup
  made : ∀ rsk ∈ l.acceptQueue, rsk.sk.isSome

def Backlogged (l : Listener) : Prop := l.ackBacklog = UInt16.ofNat l.acceptQueue.length

def Ordered (r : Run) : Prop := r.completed = r.left.map Prod.fst ++ children r.l.acceptQueue

theorem Queued.syn_addrs (h : Queued l) : (l.synQueue.map (·.addr)).Nodup := by
  have haddrs := h.addrs
  rw [map_append] at haddrs
  exact haddrs.of_append_left

theorem Queued.qlen_toNat (h : Queued l) : l.requestQlen.toNat = l.synQueue.length := by
  have hbound := h.bound
  rw [h.max] at hbound
  have hlt : l.synQueue.length < 2 ^ 64 := lt_of_le_of_lt hbound (by decide)
  rw [h.qlen, toNat_ofNat', Nat.mod_eq_of_lt hlt]

theorem fresh_queued (h : Fresh l) : Queued l where
  qlen := by rw [h.qlen, h.syn]; rfl
  bound := by simp [h.syn]
  max := h.max
  addrs := by simp [h.syn, h.accept]
  made := by simp [h.accept]

/-! ## Events -/

theorem Queued.add (h : Queued l) (env : Env) (hroom : servalSockRequestQueueIsFull l = false)
    (hfresh : ∀ x ∈ l.synQueue ++ l.acceptQueue, x.addr ≠ rsk.addr) : Queued (servalSockReqskQueueAdd env l rsk) := by
  have hle : l.synQueue.length ≤ l.rest.maxRequestQlen := by
    have := h.qlen_toNat
    simp only [servalSockRequestQueueIsFull, decide_eq_false_iff_not, not_lt] at hroom
    omega
  unfold servalSockReqskQueueAdd
  constructor
  · simp [h.qlen, ofNat_add]
  · simpa using hle
  · simpa using h.max
  · simp only [added_fields, cons_append, map_cons, nodup_cons]
    refine ⟨fun hmem => ?_, h.addrs⟩
    obtain ⟨x, hx, haddr⟩ := mem_map.mp hmem
    exact hfresh x hx haddr
  · simpa using h.made

theorem Queued.remove (h : Queued l) (hmem : rsk ∈ l.synQueue) :
    Queued (servalSockRequestQueueRemoved { l with synQueue := unlink rsk l.synQueue }) := by
  have hperm := unlink_perm h.syn_addrs hmem
  have hlen := hperm.length_eq
  rw [length_cons] at hlen
  constructor
  · simp only [removed_fields, h.qlen, hlen]
    exact ofNat_pred _
  · have := h.bound
    simp only [removed_fields]
    omega
  · simpa using h.max
  · have haddrs := ((hperm.append_right l.acceptQueue).map (·.addr)).nodup_iff.mp h.addrs
    simp only [removed_fields]
    exact (nodup_cons.mp haddrs).2
  · simpa using h.made

theorem Queued.accept (h : Queued l) (hmem : rsk ∈ l.synQueue) (child : ℕ) : Queued (acceptRequest l rsk child) := by
  have hremove := h.remove hmem
  have hperm := ((unlink_perm h.syn_addrs hmem).append_right l.acceptQueue).map (·.addr)
  unfold acceptRequest skAcceptqAdded
  constructor
  · simpa using hremove.qlen
  · simpa using hremove.bound
  · simpa using hremove.max
  · simp only [removed_fields]
    have hlast : ((unlink rsk l.synQueue ++ (l.acceptQueue ++ [{ rsk with sk := some child }])).map Rsk.addr).Perm
        ((rsk :: unlink rsk l.synQueue ++ l.acceptQueue).map Rsk.addr) := by
      rw [← append_assoc, map_append]
      exact perm_append_singleton rsk.addr _
    exact hlast.nodup_iff.mpr (hperm.nodup_iff.mp h.addrs)
  · simp only [removed_fields, forall_mem_append, mem_singleton, forall_eq, Option.isSome_some, and_true]
    exact h.made

theorem requestOf_find {p : Packet} (h : requestOf l p = some rsk) :
    l.synQueue.find? (·.req.localFlowid = p.dstFlowid) = some rsk := by
  rw [requestOf] at h
  split at h
  next hfind _ =>
    split at h
    · cases h
    · split at h
      · cases h
      · split at h
        · cases h
        · cases h
          exact hfind
  next => cases h

theorem requestOf_mem {p : Packet} (h : requestOf l p = some rsk) : rsk ∈ l.synQueue :=
  mem_of_find?_eq_some (requestOf_find h)

inductive PacketCases (env : Env) (l : Listener) (addr child : ℕ) : Listener → Option ℕ → Prop where
  | unchanged : PacketCases env l addr child l none
  | added (rsk : Rsk) : servalSockRequestQueueIsFull l = false → rsk.addr = addr → rsk.sk = none →
      PacketCases env l addr child (servalSockReqskQueueAdd env l rsk) none
  | accepted (rsk : Rsk) : rsk ∈ l.synQueue → PacketCases env l addr child (acceptRequest l rsk child) (some child)

theorem packet_cases (env : Env) (l : Listener) (p : Packet) (addr child : ℕ) :
    PacketCases env l addr child (servalSalListenStateProcess env l p addr child).1
      (servalSalListenStateProcess env l p addr child).2 := by
  rw [servalSalListenStateProcess]
  split
  next =>
    split
    next => exact .unchanged
    next =>
      rw [servalSalRcvSyn]
      split
      · exact .unchanged
      · split
        · exact .unchanged
        next hroom =>
          split
          · exact .unchanged
          · split
            next =>
              split
              · exact .unchanged
              · exact .added _ (by simpa using hroom) rfl rfl
            next => exact .unchanged
  next =>
    split
    next =>
      rw [servalSalRequestSockHandle]
      split
      next => exact .unchanged
      next rsk hreq =>
        split
        · exact .unchanged
        · exact .accepted rsk (requestOf_mem hreq)
    next => exact .unchanged

theorem acceptDequeue_cases (h : Queued l) : l.acceptQueue = [] ∧ servalAcceptDequeue l = none ∨
      ∃ rsk rest child, l.acceptQueue = rsk :: rest ∧ rsk.sk = some child ∧
        servalAcceptDequeue l = some (child, skAcceptqRemoved { l with acceptQueue := rest }) := by
  cases hqueue : l.acceptQueue with
  | nil => exact .inl ⟨rfl, by simp [servalAcceptDequeue, hqueue]⟩
  | cons rsk rest =>
    have hmade := h.made rsk (by simp [hqueue])
    obtain ⟨child, hchild⟩ := Option.isSome_iff_exists.mp hmade
    exact .inr ⟨rsk, rest, child, rfl, hchild, by simp [servalAcceptDequeue, hqueue, hchild, unlink]⟩

theorem Queued.dequeue {rest : List Rsk} (h : Queued l) (hqueue : l.acceptQueue = rsk :: rest) :
    Queued (skAcceptqRemoved { l with acceptQueue := rest }) := by
  have hsub : (l.synQueue ++ rest).Sublist (l.synQueue ++ l.acceptQueue) := by
    rw [hqueue]
    exact (Sublist.refl _).append (sublist_cons_self rsk rest)
  have hmade : ∀ x ∈ rest, x.sk.isSome := by
    intro x hx
    exact h.made x (hqueue ▸ mem_cons_of_mem rsk hx)
  exact ⟨h.qlen, h.bound, h.max, h.addrs.sublist (hsub.map _), hmade⟩

structure SameBacklog (l l' : Listener) : Prop where
  queue : l'.acceptQueue = l.acceptQueue
  backlog : l'.ackBacklog = l.ackBacklog

theorem reqskQueueAdd_same (env : Env) : SameBacklog l (servalSockReqskQueueAdd env l rsk) :=
  ⟨by simp [servalSockReqskQueueAdd], by simp [servalSockReqskQueueAdd]⟩

theorem pruneLoop_queued (now : ℕ) {todo : List Rsk} (h : Queued l) (hsub : todo ⊆ l.synQueue)
    (hnodup : (todo.map (·.addr)).Nodup) : Queued (pruneLoop now todo l) ∧ SameBacklog l (pruneLoop now todo l) := by
  induction todo generalizing l with
  | nil => exact ⟨h, rfl, rfl⟩
  | cons rsk todo ih =>
    obtain ⟨hmem, hsub⟩ := cons_subset.mp hsub
    obtain ⟨hnew, hnodup⟩ := nodup_cons.mp hnodup
    rw [pruneLoop]
    split
    next =>
      -- the requests that are still to be visited lie elsewhere, and are not taken out
      have hkept : todo ⊆ unlink rsk l.synQueue := by
        intro x hx
        have hne : x.addr ≠ rsk.addr := fun heq => hnew (mem_map.mpr ⟨x, hx, heq⟩)
        exact (mem_eraseP_of_neg (by simpa using hne)).mpr (hsub hx)
      have hsub' : todo ⊆ (servalSockRequestQueueRemoved { l with synQueue := unlink rsk l.synQueue }).synQueue := by
        simpa using hkept
      obtain ⟨hqueued, hsame⟩ := ih (h.remove hmem) hsub' hnodup
      exact ⟨hqueued, by simpa using hsame.queue, by simpa using hsame.backlog⟩
    next => exact ih h hsub hnodup

theorem prune_queued (h : Queued l) (now interval : ℕ) :
    Queued (servalSockRequestQueuePrune l now interval) ∧
    SameBacklog l (servalSockRequestQueuePrune l now interval) := by
  rw [servalSockRequestQueuePrune]
  split
  next => exact ⟨h, rfl, rfl⟩
  next =>
    obtain ⟨hqueued, hsame⟩ := pruneLoop_queued now h (Subset.refl _) h.syn_addrs
    dsimp only
    split
    · exact ⟨{ hqueued with }, hsame.queue, hsame.backlog⟩
    · exact ⟨hqueued, hsame⟩

theorem stopSyn_empties (hqueue : l.synQueue = queue)
    (hqlen : l.requestQlen = UInt64.ofNat queue.length) :
    let l' := queue.foldl (fun l _ => servalSockRequestQueueRemoved { l with synQueue := l.synQueue.tail }) l
    l'.synQueue = [] ∧ l'.requestQlen = 0 ∧ SameBacklog l l' ∧ l'.rest.maxRequestQlen = l.rest.maxRequestQlen := by
  induction queue generalizing l with
  | nil => exact ⟨hqueue, hqlen, ⟨rfl, rfl⟩, rfl⟩
  | cons rsk queue ih =>
    obtain ⟨hsyn, hzero, hsame, hmax⟩ :=
      ih (l := servalSockRequestQueueRemoved { l with synQueue := l.synQueue.tail }) (by simp [hqueue]) (by
        rw [(removed_fields _).2.2.1, hqlen]
        exact ofNat_pred _)
    exact ⟨hsyn, hzero, ⟨by simpa using hsame.queue, by simpa using hsame.backlog⟩, by simpa using hmax⟩

theorem stopAccept_empties (hqueue : l.acceptQueue = queue) :
    let l' := queue.foldl (fun l _ => skAcceptqRemoved { l with acceptQueue := l.acceptQueue.tail }) l
    l'.acceptQueue = [] ∧ (l.ackBacklog = UInt16.ofNat queue.length → l'.ackBacklog = 0) ∧
      l'.synQueue = l.synQueue ∧ l'.requestQlen = l.requestQlen ∧ l'.rest = l.rest := by
  induction queue generalizing l with
  | nil => exact ⟨hqueue, id, rfl, rfl, rfl⟩
  | cons rsk queue ih =>
    obtain ⟨haccept, hzero, hrest⟩ :=
      ih (l := skAcceptqRemoved { l with acceptQueue := l.acceptQueue.tail }) (by simp [skAcceptqRemoved, hqueue])
    refine ⟨haccept, fun hbacklog => hzero ?_, hrest⟩
    rw [skAcceptqRemoved, hbacklog]
    exact backlog_pred _

theorem listenStop_empties (h : Queued l) : (servalListenStop l).synQueue = [] ∧ (servalListenStop l).acceptQueue = [] ∧
      (servalListenStop l).requestQlen = 0 ∧ (Backlogged l → (servalListenStop l).ackBacklog = 0) ∧
      Queued (servalListenStop l) := by
  obtain ⟨hsyn, hqlen, hsame, hmax⟩ := stopSyn_empties (l := l.setKeepalive none) rfl h.qlen
  obtain ⟨haccept, hbacklog, hsyn', hqlen', hrest⟩ := stopAccept_empties (l := l.synQueue.foldl
    (fun l _ => servalSockRequestQueueRemoved { l with synQueue := l.synQueue.tail }) (l.setKeepalive none)) rfl
  have hsyn₂ : (servalListenStop l).synQueue = [] := hsyn'.trans hsyn
  have hqlen₂ : (servalListenStop l).requestQlen = 0 := hqlen'.trans hqlen
  have haccept₂ : (servalListenStop l).acceptQueue = [] := haccept
  have hmax₂ : (servalListenStop l).rest.maxRequestQlen = DEFAULT_MAX_REQUEST_QLEN := by
    rw [← h.max]
    exact (congrArg Sock.maxRequestQlen hrest).trans hmax
  refine ⟨hsyn₂, haccept₂, hqlen₂, fun hb => hbacklog ?_, by simp [hqlen₂, hsyn₂], by simp [hsyn₂], hmax₂,
    by simp [hsyn₂, haccept₂], by simp [haccept₂]⟩
  calc
    _ = l.ackBacklog := hsame.backlog
    _ = UInt16.ofNat l.acceptQueue.length := hb
    _ = _ := congrArg (fun queue => UInt16.ofNat queue.length) hsame.queue.symm

theorem listen_queued (h : Queued l) (backlog : ℤ) : Queued (servalListen l backlog) :=
  { h with }

/-! ## The queues without addresses

`Listener.sock` is the socket that the handshake is about: a request is what is in its memory, and the counters are
numbers.
-/

def Listener.sock (l : Listener) : Sock :=
  { l.rest with
    synQueue := l.synQueue.map (·.req)
    acceptQueue := l.acceptQueue.map (·.req)
    requestQlen := l.requestQlen.toNat
    ackBacklog := l.ackBacklog.toNat
    maxAckBacklog := l.maxAckBacklog.toNat }

section

variable {env : Env} {p : Packet} {w w' : World}

theorem findRsk_sock : SalListen.servalSalFindRsk l.sock p = (servalSalFindRsk l p).map (·.req) := by
  rw [SalListen.servalSalFindRsk, servalSalFindRsk, Listener.sock, ← map_append, find?_map]
  rfl

theorem requestOf_sock : SalListen.requestOf l.sock p = (requestOf l p).map (·.req) := by
  rw [SalListen.requestOf, requestOf, Listener.sock, find?_map]
  simp only [Function.comp_def]
  cases l.synQueue.find? (·.req.localFlowid = p.dstFlowid) with
  | none => rfl
  | some rsk =>
    cases p.ctrl with
    | none => rfl
    | some ctrl =>
      simp only [Option.map_some]
      split_ifs <;> rfl

theorem reqskQueueAdd_sock (rsk : Rsk) (h : Queued l) (hw : w.sk = l.sock) :
    (SalListen.servalSockReqskQueueAdd env w rsk.req).sk = (servalSockReqskQueueAdd env l rsk).sock := by
  have hnext : (l.requestQlen + 1).toNat = l.requestQlen.toNat + 1 := by
    have hbound := h.bound
    rw [h.max, DEFAULT_MAX_REQUEST_QLEN] at hbound
    rw [UInt64.toNat_add, h.qlen_toNat]
    exact Nat.mod_eq_of_lt (by show _ + 1 < 2 ^ 64; omega)
  have hzero : l.requestQlen.toNat = 0 ↔ l.requestQlen = 0 := @UInt64.toNat_inj l.requestQlen 0
  rw [SalListen.servalSockReqskQueueAdd, hw, servalSockReqskQueueAdd, servalSockRequestQueueAdded]
  simp only [Listener.sock, World.setSk, hzero]
  split <;> simp [Listener.setKeepalive, hnext]

theorem acceptRequest_sock (h : Queued l) (hb : l.ackBacklog.toNat + 1 < 2 ^ 16) (hreq : requestOf l p = some rsk)
    (child : ℕ) (hw : w.sk = l.sock) : (SalListen.acceptRequest w rsk.req).sk = (acceptRequest l rsk child).sock := by
  obtain ⟨hrsk, front, back, hqueue, hfront⟩ := find?_eq_some_iff_append.mp (requestOf_find hreq)
  have haddrs := h.syn_addrs
  have hqlen := h.qlen_toNat
  rw [hqueue, map_append, nodup_append] at haddrs
  rw [hqueue, length_append, length_cons] at hqlen
  -- the request comes first among the equal ones, and is the only one at its address
  have herase : (l.synQueue.map (·.req)).erase rsk.req = (unlink rsk l.synQueue).map (·.req) := by
    have hnot : rsk.req ∉ front.map (·.req) := by
      intro hmem
      obtain ⟨x, hx, he⟩ := mem_map.mp hmem
      have hx' := hfront x hx
      rw [he] at hx'
      simp [hrsk] at hx'
    rw [unlink, hqueue, map_append, erase_append_right _ hnot, eraseP_append_right]
    · simp
    · intro x hx
      simpa using haddrs.2.2 _ (mem_map_of_mem hx) _ (mem_cons_self ..)
  have hprev : (l.requestQlen - 1).toNat = l.requestQlen.toNat - 1 :=
    UInt64.toNat_sub_of_le _ _ (UInt64.le_iff_toNat_le.mpr (by show 1 ≤ _; omega))
  have hlast : l.requestQlen.toNat = 1 ↔ l.requestQlen - 1 = 0 := by
    rw [← UInt64.toNat_inj, hprev]
    show _ ↔ _ = 0
    omega
  have hmore : (l.ackBacklog + 1).toNat = l.ackBacklog.toNat + 1 := by
    rw [UInt16.toNat_add]
    exact Nat.mod_eq_of_lt hb
  rw [SalListen.acceptRequest, hw, acceptRequest, skAcceptqAdded, servalSockRequestQueueRemoved]
  simp only [Listener.sock, World.setSk, hlast, herase]
  split <;> simp [Listener.setKeepalive, hprev, hmore]

theorem rcvSyn_sock (h : Queued l) (hw : w.sk = l.sock) (addr : ℕ) (hrun :
    SalListen.servalSalRcvSyn env w p = some w') :
    w'.sk = (servalSalRcvSyn env l p addr).sock := by
  rw [SalListen.servalSalRcvSyn, hw] at hrun
  rw [servalSalRcvSyn]
  have hcontrol : hasValidControlExtension l.sock p = hasValidControlExtension l.rest p := rfl
  have hfull : l.sock.maxRequestQlen < l.sock.requestQlen ↔ servalSockRequestQueueIsFull l = true :=
    decide_eq_true_iff.symm
  have hbacklog : l.sock.maxAckBacklog < l.sock.ackBacklog ↔ skAcceptqIsFull l = true := decide_eq_true_iff.symm
  simp only [hcontrol, hfull, hbacklog] at hrun
  have hsame : some w = some w' → w'.sk = l.sock := fun heq => (congrArg World.sk (Option.some.inj heq)).symm.trans hw
  split_ifs at hrun ⊢
  · exact hsame hrun
  · exact hsame hrun
  · exact hsame hrun
  all_goals
    revert hrun
    cases p.ctrl <;> cases p.srv0 <;> cases env.devs p.dev <;> cases env.newRequest <;> intro hrun
  any_goals exact hsame hrun
  exact (sendSynack_out hrun).1.trans (reqskQueueAdd_sock ⟨addr, _, none⟩ h hw)

/-- A packet does to the queues what it does to the queues without addresses. -/
theorem listenStateProcess_sock (h : Queued l) (hb : l.ackBacklog.toNat + 1 < 2 ^ 16) (hw : w.sk = l.sock)
    {made : Option World} (hrun : SalListen.servalSalListenStateProcess env w p = some (w', made)) (addr child : ℕ) :
    w'.sk = (servalSalListenStateProcess env l p addr child).1.sock := by
  rw [SalListen.servalSalListenStateProcess, hw, findRsk_sock] at hrun
  rw [servalSalListenStateProcess]
  split_ifs at hrun ⊢
  · cases hfind : servalSalFindRsk l p with
    | none =>
      simp only [hfind, Option.map_none] at hrun ⊢
      obtain ⟨w₁, hw₁, heq⟩ := Option.map_eq_some_iff.mp hrun
      cases heq
      exact rcvSyn_sock h hw addr hw₁
    | some rsk =>
      simp only [hfind, Option.map_some] at hrun ⊢
      obtain ⟨w₁, hw₁, heq⟩ := Option.map_eq_some_iff.mp hrun
      cases heq
      exact (sendSynack_out hw₁).1.trans hw
  · rw [SalListen.servalSalRequestSockHandle, hw, requestOf_sock] at hrun
    rw [servalSalRequestSockHandle]
    cases hreq : requestOf l p with
    | none =>
      simp only [hreq, Option.map_none] at hrun
      cases hrun
      exact hw
    | some rsk =>
      simp only [hreq, Option.map_some] at hrun ⊢
      split_ifs at hrun ⊢ <;> cases hrun
      · exact hw
      · exact acceptRequest_sock h hb hreq child hw
  · cases hrun
    exact (@sendReset_sent w p).1.trans hw

end

/-! ## Whole runs -/

def ListensEmpty (r : Run) : Event → Prop
  | .listen _ => r.l.acceptQueue = []
  | _ => True

variable {e : Event}

theorem step_packet (r : Run) (env : Env) (p : Packet) (addr child : ℕ) :
    ∃ l made, PacketCases env r.l addr child l made ∧
      step r (.packet env p addr child) = { r with l := l, completed := r.completed ++ made.toList } :=
  ⟨_, _, packet_cases env r.l p addr child, rfl⟩

theorem step_queued (h : Queued r.l) (hfresh : Enabled r e) : Queued (step r e).l := by
  cases e with
  | packet env p addr child =>
    obtain ⟨_, _, hcases, heq⟩ := step_packet r env p addr child
    rw [heq]
    cases hcases with
    | unchanged => exact h
    | added rsk hroom haddr _ => exact h.add env hroom (haddr ▸ hfresh)
    | accepted rsk hmem => exact h.accept hmem child
  | accept =>
    rcases acceptDequeue_cases h with ⟨-, heq⟩ | ⟨rsk, rest, child, hqueue, -, heq⟩
    · simpa only [step, heq] using h
    · simpa only [step, heq] using h.dequeue hqueue
  | prune now interval => exact (prune_queued h now interval).1
  | listen backlog => exact listen_queued h backlog
  | listenStop => exact (listenStop_empties h).2.2.2.2

theorem step_backlogged (h : Queued r.l) (hb : Backlogged r.l) (hlisten : ListensEmpty r e) :
    Backlogged (step r e).l := by
  cases e with
  | packet env p addr child =>
    obtain ⟨_, _, hcases, heq⟩ := step_packet r env p addr child
    rw [heq]
    cases hcases with
    | unchanged => exact hb
    | added rsk _ _ _ =>
      have hsame : SameBacklog r.l (servalSockReqskQueueAdd env r.l rsk) := reqskQueueAdd_same env
      rw [Backlogged, hsame.backlog, hsame.queue]
      exact hb
    | accepted rsk hmem =>
      have hadd := UInt16.ofNat_add r.l.acceptQueue.length 1
      simpa [Backlogged, acceptRequest, skAcceptqAdded, hadd] using hb
  | accept =>
    rcases acceptDequeue_cases h with ⟨-, heq⟩ | ⟨rsk, rest, child, hqueue, -, heq⟩
    · simpa only [step, heq] using hb
    · simp only [step, heq, Backlogged, skAcceptqRemoved]
      rw [Backlogged, hqueue] at hb
      rw [hb]
      exact backlog_pred _
  | prune now interval =>
    have hsame := (prune_queued h now interval).2
    rw [Backlogged, step, hsame.backlog, hsame.queue]
    exact hb
  | listen backlog =>
    have hempty : r.l.acceptQueue = [] := hlisten
    simp [Backlogged, step, servalListen, hempty]
  | listenStop =>
    obtain ⟨-, haccept, -, hzero, -⟩ := listenStop_empties h
    rw [Backlogged, step, hzero hb, haccept]
    rfl

theorem step_ordered (h : Queued r.l) (ho : Ordered r) : Ordered (step r e) := by
  rw [Ordered] at ho ⊢
  cases e with
  | packet env p addr child =>
    obtain ⟨_, _, hcases, heq⟩ := step_packet r env p addr child
    rw [heq]
    cases hcases with
    | unchanged => simpa using ho
    | added rsk _ _ _ =>
      have hsame : SameBacklog r.l (servalSockReqskQueueAdd env r.l rsk) := reqskQueueAdd_same env
      simpa [hsame.queue] using ho
    | accepted rsk hmem =>
      have hqueue : (acceptRequest r.l rsk child).acceptQueue = r.l.acceptQueue ++ [{ rsk with sk := some child }] := by
        simp [acceptRequest, skAcceptqAdded]
      simp [hqueue, children, ho]
  | accept =>
    rcases acceptDequeue_cases h with ⟨-, heq⟩ | ⟨rsk, rest, child, hqueue, hchild, heq⟩
    · simpa only [step, heq] using ho
    · simp [step, heq, skAcceptqRemoved, ho, hqueue, children, hchild]
  | prune now interval =>
    have hsame := (prune_queued h now interval).2
    simpa [step, hsame.queue] using ho
  | listen backlog => exact ho
  | listenStop =>
    obtain ⟨-, haccept, -⟩ := listenStop_empties h
    simp [step, haccept, ho, children, Function.comp_def]

theorem runs_keep {ok : Run → Event → Prop} (h : Runs ok r) :
    Queued r.l ∧ Ordered r ∧ ((∀ r e, ok r e → ListensEmpty r e) → Backlogged r.l) := by
  induction h with
  | start l hfresh =>
    refine ⟨fresh_queued hfresh, ?_, fun _ => ?_⟩
    · simp [Ordered, children, hfresh.accept]
    · simp [Backlogged, hfresh.accept, hfresh.backlog]
  | step e _ henabled hok ih =>
    obtain ⟨hqueued, hordered, hbacklogged⟩ := ih
    exact ⟨step_queued hqueued henabled, step_ordered hqueued hordered,
      fun hcalm => step_backlogged hqueued (hbacklogged hcalm) (hcalm _ e hok)⟩

/-! ## The queues in every run -/

theorem syn_accept_disjoint (h : Queued l) : ∀ x ∈ l.synQueue, ∀ y ∈ l.acceptQueue, x.addr ≠ y.addr := by
  intro x hx y hy heq
  have haddrs := h.addrs
  rw [map_append] at haddrs
  exact disjoint_of_nodup_append haddrs (mem_map_of_mem hx) (heq ▸ mem_map_of_mem hy)

theorem accept_next (h : Queued r.l) (ho : Ordered r) :
    (servalAcceptDequeue r.l).map Prod.fst = r.completed[r.left.length]? := by
  rw [ho]
  rcases acceptDequeue_cases h with ⟨hqueue, heq⟩ | ⟨rsk, rest, child, hqueue, hchild, heq⟩
  · simp [heq, hqueue, children]
  · simp [heq, hqueue, children, hchild]

/-- What the queues and their counters have in common, over every run. The backlog is counted as long as
`listen` is not called while children wait, and the counter has bits for them. -/
theorem listener_queues {ok : Run → Event → Prop} (h : Runs ok r) :
    r.l.requestQlen.toNat = r.l.synQueue.length ∧ (∀ x ∈ r.l.synQueue, ∀ y ∈ r.l.acceptQueue, x.addr ≠ y.addr) ∧
      r.completed = r.left.map Prod.fst ++ children r.l.acceptQueue ∧
      (servalAcceptDequeue r.l).map Prod.fst = r.completed[r.left.length]? ∧
      (servalListenStop r.l).synQueue = [] ∧ (servalListenStop r.l).acceptQueue = [] ∧
      (servalListenStop r.l).requestQlen = 0 ∧
      ((∀ r e, ok r e → ListensEmpty r e) →
        (r.l.acceptQueue.length < 2 ^ 16 → r.l.ackBacklog.toNat = r.l.acceptQueue.length) ∧
          (servalListenStop r.l).ackBacklog = 0) := by
  obtain ⟨hqueued, hordered, hbacklogged⟩ := runs_keep h
  obtain ⟨hsyn, haccept, hqlen, hzero, -⟩ := listenStop_empties hqueued
  refine ⟨hqueued.qlen_toNat, syn_accept_disjoint hqueued, hordered, accept_next hqueued hordered, hsyn, haccept,
    hqlen, fun hok => ⟨fun hlt => ?_, hzero (hbacklogged hok)⟩⟩
  rw [hbacklogged hok, UInt16.toNat_ofNat', Nat.mod_eq_of_lt hlt]

namespace Sample

def listener : Listener := ⟨exampleListener, [], [], 0, 0, 8⟩

def syn : Event := .packet (serverEnv 40) (exampleSyn 20 1 6) 1000 2000

def ack : Event := .packet (serverEnv 40) (SalRuns.examplePacket 20 10 1 40 6 { ack := true } 501 901) 1001 2000

def waiting : Run := step (step ⟨listener, [], []⟩ syn) ack

theorem waiting_runs (ok : Run → Event → Prop) (hsyn : ok ⟨listener, [], []⟩ syn)
    (hack : ok (step ⟨listener, [], []⟩ syn) ack) : Runs ok waiting := by
  have hfresh : Fresh listener := ⟨rfl, rfl, rfl, rfl, rfl⟩
  have hstart := Runs.step syn (.start listener hfresh) (fun _ hmem => absurd hmem not_mem_nil) hsyn
  have haddr : ∀ rsk ∈ (step ⟨listener, [], []⟩ syn).l.synQueue ++ (step ⟨listener, [], []⟩ syn).l.acceptQueue,
      rsk.addr ≠ 1001 := by decide +kernel
  exact .step ack hstart haddr hack

end Sample

open Sample in
/-- The child that waits is counted, and is the next one to be accepted. -/
theorem listener_queues_waiting : Runs ListensEmpty waiting ∧ waiting.l.acceptQueue.length = 1 ∧
      waiting.l.ackBacklog.toNat = 1 ∧ (servalAcceptDequeue waiting.l).map Prod.fst = some 2000 := by
  have hruns : Runs ListensEmpty waiting := waiting_runs _ trivial trivial
  have hlen : waiting.l.acceptQueue.length = 1 := by decide +kernel
  obtain ⟨-, -, -, hnext, -, -, -, hbacklog⟩ := listener_queues hruns
  exact ⟨hruns, hlen, ((hbacklog fun _ _ h => h).1 (by rw [hlen]; decide)).trans hlen, hnext.trans (by decide +kernel)⟩

/-- A second call of `listen` forgets the child that waits; once it is accepted, the backlog is full. -/
theorem listen_again_forgets : ∃ r, Runs (fun _ _ => True) r ∧ r.l.acceptQueue.length = 1 ∧ r.l.ackBacklog = 0 ∧
      (servalListenStop r.l).ackBacklog = 65535 ∧
      (step r .accept).l.acceptQueue = [] ∧ (step r .accept).l.ackBacklog = 65535 ∧
      skAcceptqIsFull (step r .accept).l = true := by
  refine ⟨step Sample.waiting (.listen 8), .step _ (Sample.waiting_runs _ trivial trivial) trivial trivial, ?_⟩
  refine ⟨by decide +kernel, rfl, by decide +kernel, ?_, by decide +kernel, by decide +kernel⟩
  exact length_eq_zero_iff.mp (by decide +kernel)

end SalQueues
