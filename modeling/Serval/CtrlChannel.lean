import Serval.CtrlDelete
import Serval.CtrlGet
import Serval.CtrlStats
import Serval.SalSocket

/-! # The control channel

`ctrl_recvmsg` receives every datagram into one static buffer. How many bytes were received is not looked at: behind
them lies what earlier messages have left.
-/
namespace CtrlChannel

open ByteLayout ByteMemory CtrlMessage ServiceTable ServiceFind List Option CtrlService CtrlDelete CtrlGet CtrlStats
open CtrlMessage
open SalSocket (World servalSockMigrate)

def RCV_BUFSIZE : ℕ := 2048

/-! ## The stack behind the channel -/

structure DelayEntry where
  id : UInt32
  skb : ℕ
  sk : Option ℕ
  deriving DecidableEq

structure DelayQueue where
  peerPid : ℤ
  queue : List DelayEntry
  queueTotal : UInt32
  queueDropped : UInt32
  deriving DecidableEq

structure TableStats where
  packetsResolved : UInt32
  bytesResolved : UInt32
  packetsDropped : UInt32
  bytesDropped : UInt32
  deriving DecidableEq

/-- Sockets are named by their addresses; `established` has those of the table of flows, in the order of a walk. -/
structure Stack where
  tbl : Table
  stats : TableStats
  salForward : Bool
  queue : DelayQueue
  socks : ℕ → World
  established : List ℕ

structure Env where
  host : Host
  /-- Whether there is memory for an answer. -/
  alloc : Bool
  random : ℕ
  /-- The memory that the answer to a query for statistics is allocated in. -/
  temp : Mem
  devGetByName : List UInt8 → Option ℕ
  /-- Whether the device of the index is up. -/
  devUp : ℕ → Option Bool
  sal : SalSocket.Env
  sockStats : World → CtrlStats.Sock

inductive Output where
  | reply (bytes : List UInt8)
  | xmit (skb : ℕ)
  | reresolve (skb : ℕ)
  deriving DecidableEq

/-! ## Verdicts on delayed packets -/

def DELAY_RELEASE : UInt32 := 0

def DELAY_DROP : UInt32 := 1

def delayQueueSetVerdict (dead : ℕ → Bool) (q : DelayQueue) (pktId verdict : UInt32) (pid : ℤ) :
    DelayQueue × List Output :=
  if q.peerPid ≠ 0 ∧ q.peerPid ≠ pid then (q, [])
  else
    let q := { q with peerPid := pid }
    match q.queue.find? (·.id == pktId) with
    | none => (q, [])
    | some entry =>
      let q := { q with queue := q.queue.eraseP (·.id == pktId), queueTotal := q.queueTotal - 1 }
      if verdict = DELAY_DROP then ({ q with queueDropped := q.queueDropped + 1 }, [])
      else if verdict = DELAY_RELEASE then
        match entry.sk with
        | some sk =>
          if dead sk then ({ q with queueDropped := q.queueDropped + 1 }, []) else (q, [.xmit entry.skb])
        | none => (q, [.reresolve entry.skb])
      else (q, [])

/-! ## Migration -/

def setMigDevAndMigrate (env : Env) (stack : Stack) (newDev sk : ℕ) : Stack :=
  { stack with socks := Function.update stack.socks sk (servalSockMigrate env.sal (stack.socks sk) newDev).1 }

/-- The last case, an interface that went down, does nothing outside the kernel. -/
def shouldMigrate (env : Env) (oldDev newDev : ℕ) (w : World) : Bool :=
  if 0 < oldDev ∧ 0 < newDev then
    if oldDev = newDev then true else w.sk.boundDevIf = oldDev
  else if oldDev = 0 then env.devUp w.sk.boundDevIf = some false
  else false

def servalSockMigrateIface (env : Env) (stack : Stack) (oldDev newDev : ℕ) : Stack :=
  stack.established.foldl (fun stack sk =>
    if shouldMigrate env oldDev newDev (stack.socks sk) then setMigDevAndMigrate env stack newDev sk else stack) stack

def servalSockLookupFlow (stack : Stack) (flow : CtrlStats.FlowId) : Option ℕ :=
  stack.established.find? fun sk => leBytes 4 (stack.socks sk).sk.localFlowid.toNat = flow.toList

def servalSockMigrateFlow (env : Env) (stack : Stack) (flow : CtrlStats.FlowId) (newDev : ℕ) : Stack :=
  match servalSockLookupFlow stack flow with
  | none => stack
  | some sk => setMigDevAndMigrate env stack newDev sk

def servalSockMigrateService (env : Env) (stack : Stack) (srvid : List UInt8) (newDev : ℕ) : Option Stack := do
  match ← serviceFindSock stack.tbl (some srvid) SERVICE_ID_MAX_PREFIX_BITS CtrlStats.IPPROTO_TCP.toNat with
  | none => return stack
  | some sk => return setMigDevAndMigrate env stack newDev sk.addr

/-! ## The handlers that are left -/

def SVSTK_TRANSIT : UInt32 := 1

def ctrlHandleCapabilitiesMsg (stack : Stack) (m : Mem) : Stack :=
  { stack with salForward := UInt32.ofNat (leNat (read m 8 4)) &&& SVSTK_TRANSIT ≠ 0 }

def serviceStatBytes (stack : Stack) : List UInt8 :=
  ([if stack.salForward then SVSTK_TRANSIT else 0, stack.tbl.services, 0, stack.stats.packetsResolved,
    stack.stats.bytesResolved, stack.stats.bytesDropped, stack.stats.packetsDropped].map
      fun x => leBytes 4 x.toNat).flatten

def ctrlHandleServiceStatsMsg (stack : Stack) (m : Mem) : Option (Mem × List (List UInt8)) := do
  let m := write m 12 (serviceStatBytes stack)
  let sent ← ctrlSendmsg RCV_BUFSIZE m
  return (m, [sent])

def ifName (m : Mem) (a : ℕ) : List UInt8 := (read m a 16).takeWhile (· ≠ 0)

def ctrlHandleMigrateMsg (env : Env) (stack : Stack) (m : Mem) : Option Stack :=
  match env.devGetByName (ifName m 41) with
  | none => some stack
  | some newDev =>
    match (m 8).toNat with
    | 0 =>
      match env.devGetByName (ifName m 9) with
      | none => some stack
      | some oldDev => some (servalSockMigrateIface env stack oldDev newDev)
    | 1 => some (servalSockMigrateFlow env stack (toVec 4 (read m 9 4)) newDev)
    | 2 => servalSockMigrateService env stack (read m 9 32) newDev
    | _ => some stack

def ctrlHandleDelayVerdictMsg (stack : Stack) (m : Mem) (peer : ℤ) : Stack × List Output :=
  let (queue, out) := delayQueueSetVerdict (fun sk => (stack.socks sk).sk.dead) stack.queue
    (.ofNat (leNat (read m 8 4))) (.ofNat (leNat (read m 12 4))) peer
  ({ stack with queue := queue }, out)

def requestAfterGet (alloc : Bool) (tbl : Table) (m : Mem) : Option Mem := do
  let e := infoAt m 0
  match ← serviceFind tbl e.srvid.toList (CtrlService.prefixBits e) with
  | none =>
    let m := write m (slotAddr 0) (ServiceInfo.toBytes { e with srvidFlags := CtrlGet.SVSF_INVALID })
    return setRetval m .noentry
  | some _ => return if alloc then m else setRetval m .error

/-! ## Receiving -/

abbrev Result := Stack × Mem × List Output

def withTable (stack : Stack) (r : Table × Mem × List (List UInt8)) : Result :=
  ({ stack with tbl := r.1 }, r.2.1, r.2.2.map .reply)

def handle (env : Env) (stack : Stack) (peer : ℤ) (m : Mem) : CtrlType → Option Result
  | .addService => (ctrlHandleAddServiceMsg env.host RCV_BUFSIZE stack.tbl m).map (withTable stack)
  | .delService => (ctrlHandleDelServiceMsg RCV_BUFSIZE env.alloc stack.tbl m).map (withTable stack)
  | .modService => (ctrlHandleModServiceMsg env.host RCV_BUFSIZE stack.tbl m).map (withTable stack)
  | .getService => do
      let sent ← ctrlHandleGetServiceMsg RCV_BUFSIZE env.alloc env.random stack.tbl m
      let m ← requestAfterGet env.alloc stack.tbl m
      return (stack, m, sent.map .reply)
  | .serviceStat => (ctrlHandleServiceStatsMsg stack m).map fun r => (stack, r.1, r.2.map .reply)
  | .capabilities => some (ctrlHandleCapabilitiesMsg stack m, m, [])
  | .migrate => (ctrlHandleMigrateMsg env stack m).map fun stack => (stack, m, [])
  | .statsQuery =>
      if env.alloc then
        let lookup flow := (servalSockLookupFlow stack flow).map fun sk => env.sockStats (stack.socks sk)
        (ctrlHandleStatsQueryMsg lookup env.temp m).map fun sent => (stack, m, sent.map .reply)
      else some (stack, m, [])
  | .delayVerdict =>
      let (stack, out) := ctrlHandleDelayVerdictMsg stack m peer
      some (stack, m, out)
  | .register | .unregister | .resolve | .statsResp | .delayNotify | .dummy => some (stack, m, [])

def received (rbuf : Mem) (datagram : List UInt8) : Mem := write rbuf 0 (datagram.take RCV_BUFSIZE)

def ctrlRecvmsg (env : Env) (stack : Stack) (peer : ℤ) (rbuf : Mem) (datagram : List UInt8) : Option Result :=
  let m := received rbuf datagram
  match CtrlType.ofByte (m 0) with
  | none => some (stack, m, [])
  | some type => handle env stack peer m type

/-! ## Memories with the same first bytes -/

def Agree (k : ℕ) (m m' : Mem) : Prop := ∀ a < k, m a = m' a

section Agree

variable {k a n i : ℕ} {m m' : Mem}

theorem Agree.read (h : Agree k m m') (hk : a + n ≤ k) : read m a n = read m' a n :=
  read_congr fun b _ hb => h b (hb.trans_le hk)

theorem Agree.write (h : Agree k m m') (a : ℕ) (bs : List UInt8) : Agree k (write m a bs) (write m' a bs) := by
  intro b hb
  rw [ByteMemory.write, ByteMemory.write, h b hb]

theorem Agree.lenOf (h : Agree k m m') (hk : 4 ≤ k) : lenOf m = lenOf m' := by
  rw [CtrlMessage.lenOf, CtrlMessage.lenOf, h.read hk]

theorem Agree.slot (h : Agree k m m') (hk : slotAddr (i + 1) ≤ k) : slot m i = slot m' i := by
  apply h.read
  simp only [slotAddr] at hk ⊢
  omega

theorem Agree.infoAt (h : Agree k m m') (hk : slotAddr (i + 1) ≤ k) : infoAt m i = infoAt m' i := by
  rw [CtrlMessage.infoAt, CtrlMessage.infoAt, h.slot hk]

theorem Agree.xids (h : Agree k m m') (hk : 12 ≤ k) : xids m = CtrlService.xids m' := h.read hk

theorem Agree.sendmsg (h : Agree k m m') (hk : 4 ≤ k) (hlen : CtrlMessage.lenOf m ≤ k) (size : ℕ) :
    ctrlSendmsg size m = ctrlSendmsg size m' := by
  rw [ctrlSendmsg, ctrlSendmsg, h.read (by omega), h.lenOf hk]

theorem agree_datagram (rbuf : Mem) (datagram : List UInt8) : Agree (datagram.take RCV_BUFSIZE).length
    (received rbuf datagram) fun a => (datagram.take RCV_BUFSIZE).getD a 0 := by
  intro a ha
  have hread := @write_of_mem rbuf 0 (datagram.take RCV_BUFSIZE) a ha
  rw [zero_add] at hread
  rw [received, hread]
  exact (getD_eq_getElem _ _ ha).symm

theorem agree_received (rbuf rbuf' : Mem) (datagram : List UInt8) :
    Agree (datagram.take RCV_BUFSIZE).length (received rbuf datagram) (received rbuf' datagram) :=
  fun a ha => (agree_datagram rbuf datagram a ha).trans (agree_datagram rbuf' datagram a ha).symm

end Agree

/-! ## What the handlers read

A handler of services reads the entries that the length announces; with a length of at least its header they lie inside
of what the length announces.
-/

section Handlers

variable {k size : ℕ} {m m' : Mem} {tbl : Table}

theorem entries_inside (h : 12 ≤ lenOf m) : slotAddr (ctrlmsgServiceNum m) ≤ lenOf m := by
  have hlt := leNat_lt (read m 2 2)
  have hlen : lenOf m = leNat (read m 2 2) := rfl
  rw [length_read, ← hlen] at hlt
  have hsub : (2 ^ 64 + lenOf m - 12) % 2 ^ 64 = lenOf m - 12 := by omega
  rw [ctrlmsgServiceNum, hsub, slotAddr]
  omega

theorem Agree.serviceNum (h : Agree k m m') (hk : 4 ≤ k) : ctrlmsgServiceNum m = ctrlmsgServiceNum m' := by
  rw [ctrlmsgServiceNum, ctrlmsgServiceNum, h.lenOf hk]

def ReadsInside (k stride : ℕ) (step : Mem → Table → ℕ → Option (Table × Bool)) : Prop :=
  ∀ m m' tbl i, Agree k m m' → slotAddr (i + stride) ≤ k → step m tbl i = step m' tbl i

variable {stride : ℕ} (alloc : Bool) {src : ℕ → ℕ} {step : Mem → Table → ℕ → Option (Table × Bool)}

/-- The two runs of a loop over entries: they fail both, or end with the same table and the same number of entries. -/
theorem compactLoop_agree
    (hstep : ReadsInside k stride step) (hsrc : ∀ i, src i < i + stride) (todo : ℕ) {i index : ℕ} (h : Agree k m m')
    (hk : slotAddr (i + stride * todo) ≤ k) :
    compactLoop stride src step todo i index tbl m = none ∧ compactLoop stride src step todo i index tbl m' = none ∨
    ∃ tbl₁ m₁ m₁' index₁, compactLoop stride src step todo i index tbl m = some (tbl₁, m₁, index₁) ∧
      compactLoop stride src step todo i index tbl m' = some (tbl₁, m₁', index₁) ∧
      Agree k m₁ m₁' ∧ lenOf m₁ = lenOf m ∧ index₁ ≤ index + todo := by
  induction todo generalizing i index tbl m m' with
  | zero => exact .inr ⟨tbl, m, m', index, rfl, rfl, h, rfl, le_refl _⟩
  | succ todo ih =>
    have hthis : slotAddr (i + stride) ≤ k := by
      simp only [slotAddr, mul_add] at hk ⊢
      omega
    have hrest : slotAddr (i + stride + stride * todo) ≤ k := by
      simp only [slotAddr, mul_add] at hk ⊢
      omega
    rw [compactLoop, compactLoop, hstep m m' tbl i h hthis]
    cases step m' tbl i with
    | none => exact .inl ⟨rfl, rfl⟩
    | some out =>
      obtain ⟨tbl₁, done⟩ := out
      simp only [bind_eq_bind, bind_some]
      cases done with
      | false =>
        simp only [Bool.false_eq_true, if_false]
        rcases @ih m m' tbl₁ (i + stride) index h hrest with
          hnone | ⟨tbl₂, m₂, m₂', index₂, hrun, hrun', hagree, hlen, hle⟩
        · exact .inl hnone
        · exact .inr ⟨tbl₂, m₂, m₂', index₂, hrun, hrun', hagree, hlen, by omega⟩
      | true =>
        have hslot : slot m (src i) = slot m' (src i) := by
          apply h.slot
          have := hsrc i
          simp only [slotAddr] at hthis ⊢
          omega
        set m₁ := if index < i then write m (slotAddr index) (slot m (src i)) else m with hm₁
        set m₁' := if index < i then write m' (slotAddr index) (slot m' (src i)) else m' with hm₁'
        have hagree : Agree k m₁ m₁' := by
          rw [hm₁, hm₁', hslot]
          split
          · exact h.write _ _
          · exact h
        have hlen : lenOf m₁ = lenOf m := by
          rw [hm₁]
          split
          · exact congrArg leNat (slice_congr (CtrlService.header_write (m := m)) (show 2 + 2 ≤ 12 by decide))
          · rfl
        simp only [if_true]
        rcases @ih m₁ m₁' tbl₁ (i + stride) (index + 1) hagree hrest with
          hnone | ⟨tbl₂, m₂, m₂', index₂, hrun, hrun', hagree₂, hlen₂, hle⟩
        · exact .inl hnone
        · exact .inr ⟨tbl₂, m₂, m₂', index₂, hrun, hrun', hagree₂, hlen₂.trans hlen, by omega⟩

def seen (r : Table × Mem × List (List UInt8)) : Table × List (List UInt8) := (r.1, r.2.2)

theorem sendBack_agree (h : Agree k m m') (hk : 4 ≤ k) (hlen : lenOf m ≤ k) (retval : Retval) (size : ℕ) :
    ctrlSendmsg size (setRetval m retval) = ctrlSendmsg size (setRetval m' retval) := by
  have hedit : Agree k (setRetval m retval) (setRetval m' retval) := h.write _ _
  exact hedit.sendmsg hk (by rwa [lenOf_setRetval]) size

theorem sendEntries_agree (h : Agree k m m') (hk : 4 ≤ k) (hlen : lenOf m ≤ k) {index : ℕ}
    (hindex : ctrlmsgServiceNumLen index ≤ k) :
    (sendEntries size tbl m index).map seen = (sendEntries size tbl m' index).map seen := by
  rw [sendEntries, sendEntries]
  split
  · rw [sendBack_agree h hk hlen]
    cases ctrlSendmsg size (setRetval m' .noentry) <;> rfl
  · have hedit : Agree k (setLen (setRetval m .ok) (ctrlmsgServiceNumLen index))
        (setLen (setRetval m' .ok) (ctrlmsgServiceNumLen index)) := (h.write _ _).write _ _
    rw [hedit.sendmsg hk (by rw [lenOf_setLen]; exact (Nat.mod_le _ _).trans hindex)]
    cases ctrlSendmsg size (setLen (setRetval m' .ok) (ctrlmsgServiceNumLen index)) <;> rfl

theorem service_agree (hstep : ReadsInside k stride step) (hsrc : ∀ i, src i < i + stride) {todo : ℕ}
    (htodo : stride * todo ≤ ctrlmsgServiceNum m) (hstride : 0 < stride) (h : Agree k m m') (hheader : 12 ≤ lenOf m)
    (hlen : lenOf m ≤ k) :
    ((compactLoop stride src step todo 0 0 tbl m).bind fun r => sendEntries size r.1 r.2.1 r.2.2).map seen =
      ((compactLoop stride src step todo 0 0 tbl m').bind fun r => sendEntries size r.1 r.2.1 r.2.2).map seen := by
  have hinside := entries_inside hheader
  have hk : slotAddr (0 + stride * todo) ≤ k := by
    simp only [slotAddr] at hinside ⊢
    omega
  rcases @compactLoop_agree k m m' tbl stride src step hstep hsrc todo 0 0 h hk with
    ⟨hnone, hnone'⟩ | ⟨tbl₁, m₁, m₁', index₁, hrun, hrun', hagree, hlen₁, hle⟩
  · rw [hnone, hnone']
  · rw [hrun, hrun']
    refine sendEntries_agree hagree (by omega) (by omega) ?_
    have hsmall : todo ≤ stride * todo := Nat.le_mul_of_pos_left _ hstride
    simp only [slotAddr] at hinside
    rw [ctrlmsgServiceNumLen]
    dsimp only
    omega

theorem addStep_inside (h : Host) (size k : ℕ) : ReadsInside k 1 (addStep h size) := by
  intro m m' tbl i hagree hk
  rw [addStep, addStep, hagree.infoAt hk]

theorem modStep_inside (h : Host) (size k : ℕ) : ReadsInside k 2 (modStep h size) := by
  intro m m' tbl i hagree hk
  have hfirst : slotAddr (i + 1) ≤ k := by
    simp only [slotAddr] at hk ⊢
    omega
  rw [modStep, modStep, hagree.infoAt hfirst, hagree.infoAt hk]

theorem add_agree (h : Host) (hagree : Agree k m m') (hheader : 12 ≤ lenOf m) (hlen : lenOf m ≤ k) :
    (ctrlHandleAddServiceMsg h size tbl m).map seen = (ctrlHandleAddServiceMsg h size tbl m').map seen := by
  rw [ctrlHandleAddServiceMsg, ctrlHandleAddServiceMsg, ← hagree.serviceNum (by omega)]
  exact service_agree (addStep_inside h size k) (fun i => Nat.lt_succ_self i) (by rw [one_mul]) Nat.one_pos hagree
    hheader hlen

theorem mod_agree (h : Host) (hagree : Agree k m m') (hheader : 12 ≤ lenOf m) (hlen : lenOf m ≤ k) :
    (ctrlHandleModServiceMsg h size tbl m).map seen = (ctrlHandleModServiceMsg h size tbl m').map seen := by
  rw [ctrlHandleModServiceMsg, ctrlHandleModServiceMsg, ← hagree.serviceNum (by omega)]
  split
  · rfl
  · exact service_agree (modStep_inside h size k) (fun i => Nat.lt_succ_self (i + 1)) (Nat.mul_div_le _ 2) Nat.two_pos
      hagree hheader hlen

theorem delLoop_agree (h : Agree k m m') (todo : ℕ) {i : ℕ} (hk : slotAddr (i + todo) ≤ k) :
    delLoop size m todo i tbl = delLoop size m' todo i tbl := by
  induction todo generalizing i tbl with
  | zero => rw [delLoop, delLoop]
  | succ todo ih =>
    have hthis : slotAddr (i + 1) ≤ k := by
      simp only [slotAddr] at hk ⊢
      omega
    have hnext : slotAddr (i + 1 + todo) ≤ k := by rwa [add_assoc, add_comm 1]
    have hstep : delStep size m tbl i = delStep size m' tbl i := by
      rw [delStep, delStep, h.infoAt hthis]
    have hrest : ∀ tbl, delLoop size m todo (i + 1) tbl = delLoop size m' todo (i + 1) tbl := fun _ => ih hnext
    simp only [delLoop, hstep, hrest]

theorem del_agree (h : Agree k m m') (hheader : 12 ≤ lenOf m) (hlen : lenOf m ≤ k) :
    (ctrlHandleDelServiceMsg size alloc tbl m).map seen = (ctrlHandleDelServiceMsg size alloc tbl m').map seen := by
  have hk : 4 ≤ k := by omega
  have hinside : slotAddr (0 + ctrlmsgServiceNum m) ≤ k := by
    rw [zero_add]
    exact (entries_inside hheader).trans hlen
  rw [ctrlHandleDelServiceMsg, ctrlHandleDelServiceMsg, ← h.serviceNum hk, delLoop_agree h _ hinside]
  cases alloc with
  | false =>
    simp only [Bool.false_eq_true, if_false, sendBack_agree h hk hlen]
    cases ctrlSendmsg size (setRetval m' .error) <;> rfl
  | true =>
    cases delLoop size m' (ctrlmsgServiceNum m) 0 tbl with
    | none => rfl
    | some out =>
      obtain ⟨tbl₁, stats⟩ := out
      simp only [if_true, Option.bind_eq_bind, Option.bind_some, sendBack_agree h hk hlen, Option.pure_def]
      split
      · cases ctrlSendmsg size (setRetval m' .noentry) <;> rfl
      · simp only [Option.map_some, seen, statMessage, h.xids (hheader.trans hlen)]

theorem get_agree (random : ℕ) (h : Agree k m m') (hk : 72 ≤ k) (hlen : lenOf m ≤ k) :
    ctrlHandleGetServiceMsg size alloc random tbl m = ctrlHandleGetServiceMsg size alloc random tbl m' := by
  have hfour : 4 ≤ k := by omega
  have hreply : ∀ len, newReply m len = newReply m' len := by
    intro len
    rw [newReply, newReply, h.read (show 4 + 8 ≤ k by omega)]
  have hinvalid : ∀ bs, ctrlSendmsg size (setRetval (write m (slotAddr 0) bs) .noentry) =
      ctrlSendmsg size (setRetval (write m' (slotAddr 0) bs) .noentry) := by
    intro bs
    refine sendBack_agree (h.write _ _) hfour ?_ _ _
    have hsame : lenOf (write m (slotAddr 0) bs) = lenOf m :=
      congrArg leNat (slice_congr (CtrlService.header_write (m := m)) (show 2 + 2 ≤ 12 by decide))
    rwa [hsame]
  rw [ctrlHandleGetServiceMsg, ctrlHandleGetServiceMsg, h.infoAt (i := 0) (by simpa [slotAddr] using hk)]
  simp only [hreply, hinvalid, sendBack_agree h hfour hlen]

theorem requestAfterGet_agree (h : Agree k m m') (hk : 72 ≤ k) :
    (requestAfterGet alloc tbl m).isSome = (requestAfterGet alloc tbl m').isSome := by
  rw [requestAfterGet, requestAfterGet, h.infoAt (i := 0) (by simpa [slotAddr] using hk)]
  cases serviceFind tbl (infoAt m' 0).srvid.toList (CtrlService.prefixBits (infoAt m' 0)) with
  | none => rfl
  | some found => cases found <;> rfl

theorem queriedFlows_agree (h : Agree k m m') (hk : 4 ≤ k) (hlen : lenOf m ≤ k) : queriedFlows m = queriedFlows m' := by
  have hnum : ctrlmsgStatsNumFlows m = ctrlmsgStatsNumFlows m' := by
    rw [ctrlmsgStatsNumFlows, ctrlmsgStatsNumFlows, h.lenOf hk]
  rw [queriedFlows, queriedFlows, ← hnum]
  apply map_congr_left
  intro i hi
  have hflow : 8 + 4 * i + 4 ≤ lenOf m := by
    have hlt := leNat_lt (read m 2 2)
    have hdef : lenOf m = leNat (read m 2 2) := rfl
    rw [length_read, ← hdef] at hlt
    have hmem := mem_range.mp hi
    rw [ctrlmsgStatsNumFlows, BitVec.toInt_eq_toNat_cond, BitVec.toNat_ofNat] at hmem
    split at hmem <;> omega
  rw [h.read (hflow.trans hlen)]

end Handlers

/-! ## Datagrams that have what is read -/

def needed (type : CtrlType) (len : ℕ) : ℕ :=
  match type with
  | .addService | .delService | .modService => max 12 len
  | .getService => max 72 len
  | .serviceStat | .statsQuery => max 4 len
  | .capabilities => 12
  | .migrate => 57
  | .delayVerdict => 16
  | .register | .unregister | .resolve | .statsResp | .delayNotify | .dummy => 1

def countsEntries : CtrlType → Bool
  | .addService | .delService | .modService => true
  | _ => false

def announced (datagram : List UInt8) : ℕ := lenOf fun a => datagram.getD a 0

theorem needed_cases (type : CtrlType) (len : ℕ) : 4 ≤ needed type len ∨
    (∀ len', needed type len' = needed type len) ∧ countsEntries type = false := by
  cases type <;> simp [needed, countsEntries]

structure CoveredAs (type : CtrlType) (datagram : List UInt8) : Prop where
  bytes : needed type (announced datagram) ≤ datagram.length
  header : countsEntries type = true → 12 ≤ announced datagram

structure Covered (datagram : List UInt8) : Prop where
  nonempty : 0 < datagram.length
  handled : ∀ type, CtrlType.ofByte (datagram.getD 0 0) = some type → CoveredAs type datagram

def visible (r : Result) : Stack × List Output := (r.1, r.2.2)

section Receive

variable {env : Env} {stack : Stack} {peer : ℤ} {m m' : Mem} {datagram : List UInt8}

theorem visible_withTable {r r' : Option (Table × Mem × List (List UInt8))} (h : r.map seen = r'.map seen) :
    (r.map (withTable stack)).map visible = (r'.map (withTable stack)).map visible := by
  have hfactor : visible ∘ withTable stack =
      (fun x : Table × List (List UInt8) => ({ stack with tbl := x.1 }, x.2.map Output.reply)) ∘ seen := rfl
  rw [Option.map_map, Option.map_map, hfactor, ← Option.map_map, ← Option.map_map, h]

theorem handle_agree (env : Env) (stack : Stack) (peer : ℤ) {type : CtrlType} {k : ℕ} (h : Agree k m m')
    (hneeded : needed type (lenOf m) ≤ k) (hheader : countsEntries type = true → 12 ≤ lenOf m) :
    (handle env stack peer m type).map visible = (handle env stack peer m' type).map visible := by
  cases type with
  | addService => exact visible_withTable (add_agree env.host h (hheader rfl) ((le_max_right ..).trans hneeded))
  | delService => exact visible_withTable (del_agree env.alloc h (hheader rfl) ((le_max_right ..).trans hneeded))
  | modService => exact visible_withTable (mod_agree env.host h (hheader rfl) ((le_max_right ..).trans hneeded))
  | getService =>
    have hk : 72 ≤ k := (le_max_left ..).trans hneeded
    have hafter := @requestAfterGet_agree k m m' stack.tbl env.alloc h hk
    simp only [handle, get_agree env.alloc env.random h hk ((le_max_right ..).trans hneeded)]
    cases ctrlHandleGetServiceMsg RCV_BUFSIZE env.alloc env.random stack.tbl m' with
    | none => rfl
    | some sent =>
      simp only [Option.bind_eq_bind, Option.bind_some, Option.pure_def]
      cases hm : requestAfterGet env.alloc stack.tbl m <;> cases hm' : requestAfterGet env.alloc stack.tbl m' <;>
        simp_all [visible]
  | serviceStat =>
    have hedit : Agree k (write m 12 (serviceStatBytes stack)) (write m' 12 (serviceStatBytes stack)) := h.write _ _
    have hlen : lenOf (write m 12 (serviceStatBytes stack)) = lenOf m := by
      rw [lenOf, lenOf, read_write_disjoint _ _ (.inl (by decide))]
    have hsend := hedit.sendmsg ((le_max_left ..).trans hneeded) (hlen ▸ (le_max_right ..).trans hneeded) RCV_BUFSIZE
    simp only [handle, ctrlHandleServiceStatsMsg, hsend]
    cases ctrlSendmsg RCV_BUFSIZE (write m' 12 (serviceStatBytes stack)) <;> rfl
  | capabilities =>
    have hcaps : ctrlHandleCapabilitiesMsg stack m = ctrlHandleCapabilitiesMsg stack m' := by
      rw [ctrlHandleCapabilitiesMsg, ctrlHandleCapabilitiesMsg, h.read hneeded]
    simp only [handle, hcaps]
    rfl
  | migrate =>
    have hk : 57 ≤ k := hneeded
    have hto : ifName m 41 = ifName m' 41 := by rw [ifName, ifName, h.read hk]
    have hfrom : ifName m 9 = ifName m' 9 := by rw [ifName, ifName, h.read (by omega)]
    have hmigrate : ctrlHandleMigrateMsg env stack m = ctrlHandleMigrateMsg env stack m' := by
      simp only [ctrlHandleMigrateMsg, hto, hfrom, h 8 (by omega), h.read (show 9 + 4 ≤ k by omega),
        h.read (show 9 + 32 ≤ k by omega)]
    simp only [handle, hmigrate]
    cases ctrlHandleMigrateMsg env stack m' <;> rfl
  | statsQuery =>
    have hflows := queriedFlows_agree h ((le_max_left ..).trans hneeded) ((le_max_right ..).trans hneeded)
    simp only [handle, ctrlHandleStatsQueryMsg, hflows]
    split
    · simp only [Option.map_map]
      rfl
    · rfl
  | delayVerdict =>
    have hk : 16 ≤ k := hneeded
    simp only [handle, ctrlHandleDelayVerdictMsg, h.read (show 8 + 4 ≤ k by omega), h.read (show 12 + 4 ≤ k by omega)]
    rfl
  | register | unregister | resolve | statsResp | delayNotify | dummy => rfl

theorem recv_same (env : Env) (stack : Stack) (peer : ℤ) (hcovered : Covered (datagram.take RCV_BUFSIZE))
    (rbuf rbuf' : Mem) : (ctrlRecvmsg env stack peer rbuf datagram).map visible =
      (ctrlRecvmsg env stack peer rbuf' datagram).map visible := by
  have hagree := agree_received rbuf rbuf' datagram
  have hbytes := agree_datagram rbuf datagram
  have htype : received rbuf datagram 0 = (datagram.take RCV_BUFSIZE).getD 0 0 := hbytes 0 hcovered.nonempty
  have htype' := (hagree 0 hcovered.nonempty).symm.trans htype
  simp only [ctrlRecvmsg, htype, htype']
  cases ht : CtrlType.ofByte ((datagram.take RCV_BUFSIZE).getD 0 0) with
  | none => rfl
  | some type =>
    obtain ⟨hneeded, hheader⟩ := hcovered.handled type ht
    -- the length in the buffer is the announced one, or is not read
    rcases needed_cases type (announced (datagram.take RCV_BUFSIZE)) with hfour | ⟨hconst, hno⟩
    · have hlen : lenOf (received rbuf datagram) = announced (datagram.take RCV_BUFSIZE) :=
        hbytes.lenOf (hfour.trans hneeded)
      exact handle_agree env stack peer hagree (hlen ▸ hneeded) (hlen ▸ hheader)
    · refine handle_agree env stack peer hagree ((hconst _).trans_le hneeded) fun hyes => ?_
      rw [hno] at hyes
      cases hyes

def recvAll : List (Env × ℤ × List UInt8) → Stack → Mem → Option (Stack × List Output)
  | [], stack, _ => some (stack, [])
  | (env, peer, datagram) :: rest, stack, rbuf => do
    let (stack, rbuf, out) ← ctrlRecvmsg env stack peer rbuf datagram
    let (stack, outs) ← recvAll rest stack rbuf
    return (stack, out ++ outs)

theorem recvAll_same {arrivals : List (Env × ℤ × List UInt8)} (h : ∀ a ∈ arrivals, Covered (a.2.2.take RCV_BUFSIZE))
    (stack : Stack) (rbuf rbuf' : Mem) : recvAll arrivals stack rbuf = recvAll arrivals stack rbuf' := by
  induction arrivals generalizing stack rbuf rbuf' with
  | nil => rfl
  | cons arrival rest ih =>
    obtain ⟨env, peer, datagram⟩ := arrival
    rw [forall_mem_cons] at h
    have hstep := recv_same env stack peer h.1 rbuf rbuf'
    rw [recvAll, recvAll]
    cases hr : ctrlRecvmsg env stack peer rbuf datagram with
    | none =>
      rw [hr, map_none, eq_comm, map_eq_none_iff] at hstep
      rw [hstep]
    | some r =>
      rw [hr, map_some, eq_comm, map_eq_some_iff] at hstep
      obtain ⟨r', hr', heq⟩ := hstep
      obtain ⟨hstack, hout⟩ := Prod.mk.inj heq
      obtain ⟨stack₁, rbuf₁, out₁⟩ := r
      obtain ⟨stack₂, rbuf₂, out₂⟩ := r'
      obtain rfl : stack₂ = stack₁ := hstack
      obtain rfl : out₂ = out₁ := hout
      rw [hr']
      simp only [bind_eq_bind, bind_some, ih h.2 stack₂ rbuf₁ rbuf₂]

end Receive

namespace Sample

open CtrlService.Sample

def newSock : World := ⟨SalSocket.skAlloc .stream 6, [], []⟩

def env : Env where
  host := host
  alloc := true
  random := 0
  temp := fun _ => 0
  devGetByName name := if name = [101, 116, 104, 48] then some 1 else none
  devUp _ := some true
  sal := ⟨0, fun _ => none, 0, 0, {}, none, false⟩
  sockStats _ := ⟨6, 0, 0, 0, 0, 0, 0, 0, 0, 0, 0, 0, 0, 0, 0, 0, 0⟩

def idle : Stack where
  tbl := serviceTableInit
  stats := ⟨0, 0, 0, 0⟩
  salForward := false
  queue := ⟨0, [], 0, 0⟩
  socks _ := newSock
  established := []

def oneDev : Env := { env with devGetByName _ := some 1 }

/-- A closed socket. -/
def shut (flowid : UInt32) : World := ⟨{ newSock.sk with skState := .closed, localFlowid := flowid }, [], []⟩

def anyService : Table :=
  match serviceAdd serviceTableInit (some (replicate 32 0)) 0 .demux 0 0 1 none 0 (.sk (some ⟨1, 6, by decide⟩)) 8 with
  | some (tbl, _) => tbl
  | none => serviceTableInit

/-- Every service is the one socket's. -/
def crowd (flowid : UInt32) : Stack :=
  { idle with tbl := anyService, socks _ := shut flowid, established := [1] }

theorem find_leaf {t : BstModel.Bst ServiceTargets.ServiceEntry} {n : ℕ} {nd : BstModel.BstNode _} {key : List UInt8}
    {bits fuel : ℕ} {mtch : Option (ℕ → Bool)} {prev : Option ℕ} (hnd : t.heap n = some nd) (hl : nd.left = none)
    (hr : nd.right = none) : BstModel.bstNodeFindLongestPrefix t key bits mtch (fuel + 1) n prev =
      some (n, if nd.priv.isSome && BstModel.nodeMatches mtch n then some n else prev) := by
  rw [BstModel.bstNodeFindLongestPrefix, hnd]
  simp only [bind_eq_bind, bind_some, hl, hr]
  split_ifs <;> rfl

theorem anyService_found (srvid : List UInt8) :
    serviceFindSock anyService (some srvid) SERVICE_ID_MAX_PREFIX_BITS 6 = some (some ⟨1, 6, by decide⟩) := by
  have hfind : BstModel.bstFindLongestPrefixMatch anyService.tree srvid SERVICE_ID_MAX_PREFIX_BITS
      (some (matchNode .localRules anyService)) = some (some 0) := by
    have hroot : anyService.tree.root = some 0 := rfl
    rw [BstModel.bstFindLongestPrefixMatch, hroot]
    simp only []
    rw [find_leaf (n := 0) rfl rfl rfl]
    rfl
  rw [serviceFindSock, serviceTableFind, hfind]
  rfl

end Sample

/-! ## Lengths that no message has -/

/-- The size of a message without its entries. -/
def fixedSize : Option CtrlType → ℕ
  | none | some .statsQuery | some .dummy => 8
  | some .statsResp => 10
  | some .addService | some .delService | some .modService | some .getService | some .capabilities => 12
  | some .serviceStat => 40
  | some .register | some .unregister | some .delayNotify | some .delayVerdict => 48
  | some .migrate => 57
  | some .resolve => 84

def typeOf (datagram : List UInt8) : Option CtrlType := CtrlType.ofByte (datagram.getD 0 0)

def BadLength (datagram : List UInt8) : Prop :=
  announced datagram < fixedSize (typeOf datagram) ∨ datagram.length < announced datagram

/-- The handlers that change the stack and do not look at the length. -/
def Unchecked (datagram : List UInt8) : Prop :=
  match typeOf datagram with
  | some .capabilities | some .delayVerdict => True
  | some .migrate => datagram.getD 8 0 ≤ 2
  | _ => False

section Lengths

variable {datagram : List UInt8}

theorem received_byte (rbuf : Mem) {a : ℕ} (ha : a < (datagram.take RCV_BUFSIZE).length) :
    received rbuf datagram a = (datagram.take RCV_BUFSIZE).getD a 0 := agree_datagram rbuf datagram a ha

theorem recv_handles (env : Env) (stack : Stack) (peer : ℤ) (rbuf : Mem) {type : CtrlType}
    (h : 0 < (datagram.take RCV_BUFSIZE).length) (htype : typeOf (datagram.take RCV_BUFSIZE) = some type) :
    ctrlRecvmsg env stack peer rbuf datagram = handle env stack peer (received rbuf datagram) type := by
  simp only [ctrlRecvmsg, received_byte rbuf h, show CtrlType.ofByte _ = some type from htype]

theorem handle_keeps (env : Env) (stack : Stack) (peer : ℤ) (m : Mem) {type : CtrlType} {r : Result}
    (hentries : countsEntries type = false) (hno : ¬Unchecked (datagram.take RCV_BUFSIZE))
    (htype : typeOf (datagram.take RCV_BUFSIZE) = some type)
    (hkind : type = .migrate → m 8 = (datagram.take RCV_BUFSIZE).getD 8 0)
    (hrun : handle env stack peer m type = some r) : r.1 = stack := by
  rw [Unchecked, htype] at hno
  cases type with
  | addService | delService | modService => cases hentries
  | capabilities | delayVerdict => exact absurd trivial hno
  | migrate =>
    obtain ⟨stack', hmigrate, rfl⟩ := map_eq_some_iff.mp hrun
    have hkind : ¬(m 8).toNat ≤ 2 := hkind rfl ▸ hno
    rw [ctrlHandleMigrateMsg] at hmigrate
    split at hmigrate
    · exact (some.inj hmigrate).symm
    · split at hmigrate
      case h_4 => exact (some.inj hmigrate).symm
      all_goals omega
  | getService =>
    obtain ⟨sent, -, hrun⟩ := bind_eq_some_iff.mp hrun
    obtain ⟨m', -, hrun⟩ := bind_eq_some_iff.mp hrun
    cases hrun
    rfl
  | serviceStat =>
    obtain ⟨sent, -, rfl⟩ := map_eq_some_iff.mp hrun
    rfl
  | statsQuery =>
    simp only [handle] at hrun
    split at hrun
    · obtain ⟨sent, -, rfl⟩ := map_eq_some_iff.mp hrun
      rfl
    · cases hrun
      rfl
  | register | unregister | resolve | statsResp | delayNotify | dummy =>
    cases hrun
    rfl

open Sample in
theorem migrate_obeyed {m : Mem} (h : (m 8).toNat ≤ 2) :
    ∃ stack stack', ctrlHandleMigrateMsg oneDev stack m = some stack' ∧ stack' ≠ stack := by
  set stack := crowd (.ofNat (leNat (read m 9 4))) with hstack
  have hmoved : ctrlHandleMigrateMsg oneDev stack m = some (setMigDevAndMigrate oneDev stack 1 1) := by
    have hflow : leBytes 4 (UInt32.ofNat (leNat (read m 9 4))).toNat = (toVec 4 (read m 9 4)).toList := by
      rw [leBytes_uint32 (length_read ..), toList_toVec (length_read ..)]
    have hlookup : servalSockLookupFlow stack (toVec 4 (read m 9 4)) = some 1 := by
      exact find?_cons_of_pos (decide_eq_true hflow)
    have hservice := anyService_found (read m 9 32)
    rw [ctrlHandleMigrateMsg]
    interval_cases (m 8).toNat
    · rfl
    · simp only [oneDev, servalSockMigrateFlow, hlookup]
    · simp only [oneDev, servalSockMigrateService]
      exact bind_eq_some_iff.mpr ⟨_, hservice, rfl⟩
  refine ⟨stack, _, hmoved, fun hsame => ?_⟩
  have hdev : 1 = 0 := congrArg (fun stack : Stack => (stack.socks 1).sk.migDevIf) hsame
  cases hdev

/-- A bad length keeps the handlers of services from being covered, and the others do not look at it. -/
theorem bad_length (hcovered : Covered (datagram.take RCV_BUFSIZE)) (hbad : BadLength (datagram.take RCV_BUFSIZE)) :
    (∀ env stack peer rbuf r, ctrlRecvmsg env stack peer rbuf datagram = some r → r.1 = stack) ↔
      ¬Unchecked (datagram.take RCV_BUFSIZE) := by
  cases htype : typeOf (datagram.take RCV_BUFSIZE) with
  | none =>
    refine iff_of_true (fun env stack peer rbuf r hrun => ?_) (by simp [Unchecked, htype])
    simp only [ctrlRecvmsg, received_byte rbuf hcovered.nonempty, show CtrlType.ofByte _ = none from htype] at hrun
    cases hrun
    rfl
  | some type =>
  have hruns := fun env stack peer rbuf => recv_handles env stack peer rbuf hcovered.nonempty htype
  obtain ⟨hneeded, hheader⟩ := hcovered.handled type htype
  have hkind : type = .migrate → ∀ rbuf, received rbuf datagram 8 = (datagram.take RCV_BUFSIZE).getD 8 0 := by
    rintro rfl rbuf
    have h57 : 57 ≤ (datagram.take RCV_BUFSIZE).length := hneeded
    exact received_byte rbuf (by omega)
  constructor
  · intro hkeeps hyes
    rw [Unchecked, htype] at hyes
    set m := received (fun _ => 0) datagram with hm
    cases type with
    | capabilities =>
      set flag : Bool := decide (UInt32.ofNat (leNat (read m 8 4)) &&& SVSTK_TRANSIT ≠ 0) with hflag
      have hsame := hkeeps Sample.env { Sample.idle with salForward := !flag } 0 _ _ (hruns _ _ _ (fun _ => 0))
      have hset : flag = !flag := congrArg Stack.salForward hsame
      exact (Bool.eq_not_self flag).mp hset
    | delayVerdict =>
      have hsame := hkeeps Sample.env Sample.idle 1 _ _ (hruns _ _ _ (fun _ => 0))
      have hpeer : (1 : ℤ) = 0 := congrArg (fun stack : Stack => stack.queue.peerPid) hsame
      cases hpeer
    | migrate =>
      have hsmall : (m 8).toNat ≤ 2 := by
        rw [hm, hkind rfl]
        exact hyes
      obtain ⟨stack, stack', hmoved, hne⟩ := migrate_obeyed hsmall
      exact hne (hkeeps Sample.oneDev stack 0 (fun _ => 0) _ ((hruns _ _ _ _).trans (congrArg (Option.map _) hmoved)))
    | _ => exact hyes
  · intro hno env stack peer rbuf r hrun
    rw [hruns] at hrun
    refine handle_keeps env stack peer _ ?_ hno htype (fun h => hkind h rbuf) hrun
    by_contra hentries
    rw [Bool.not_eq_false] at hentries
    have h12 := hheader hentries
    rw [BadLength, htype] at hbad
    cases type <;> cases hentries <;> simp only [fixedSize, needed] at hbad hneeded <;> omega

end Lengths

namespace Sample

open CtrlService.Sample

def request (last : UInt8) : List UInt8 := serviceMessage CtrlType.addService.toByte .ok
    (List.replicate 8 0) [info last]

theorem request_covered : Covered ((request 1).take RCV_BUFSIZE) where
  nonempty := by decide +kernel
  handled type htype := by
    have hadd : CtrlType.ofByte (((request 1).take RCV_BUFSIZE).getD 0 0) = some .addService := by decide +kernel
    rw [hadd] at htype
    cases htype
    exact ⟨by decide +kernel, fun _ => by decide +kernel⟩

def query : List UInt8 := CtrlType.statsQuery.toByte :: List.replicate 7 0

theorem query_covered : Covered (query.take RCV_BUFSIZE) where
  nonempty := by decide +kernel
  handled type htype := by
    have hquery : CtrlType.ofByte ((query.take RCV_BUFSIZE).getD 0 0) = some .statsQuery := by decide +kernel
    rw [hquery] at htype
    cases htype
    exact ⟨by decide +kernel, by decide⟩

/-- The first bytes of that message: the length announces an entry that is not there. -/
def header : List UInt8 := (request 1).take 12

def capabilities : List UInt8 := [8, 0, 0, 0, 0, 0, 0, 0, 1, 0, 0, 0]

def addresses (r : Result) : List (List UInt8) := (ServiceAddresses.targetsAt r.1.tbl [true]).map (·.dst)

end Sample

end CtrlChannel
