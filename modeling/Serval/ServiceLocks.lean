import Serval.ResourceTrace
import Serval.SalTransmit

/-! # The lock of an entry and the references to it

`service_find` takes a reference to the entry that it returns, and `service_iter_init` its read lock, also where it then
fails.
-/
namespace ServiceLocks

open ByteMemory BstModel ResourceTrace ServiceTargets ServiceIterator ServiceTable CtrlMessage Option SalResolve
open ServiceFind
open SalSocket
open SalTransmit (Host St Run transmitLoop)

inductive Resource where
  | reference (n : Ptr)
  | readLock (n : Ptr)
  deriving DecidableEq, Repr

abbrev Locked (α : Type) := Traced Resource α

def serviceEntryPut (n : Ptr) : Locked Unit := release (.reference n)

def serviceFind (tbl : Table) (srvid : List UInt8) (bits : ℕ) : Locked (Option (Ptr × ServiceEntry)) := do
  match ← (bstFindLongestPrefixMatch tbl.tree srvid bits (some fun _ => true) : Option (Option Ptr)) with
  | none => return none
  | some n =>
    let se ← (getService tbl n : Option ServiceEntry)
    acquire (.reference n)
    return some (n, se)

def serviceIterInit (n : Ptr) (se : ServiceEntry) (mode : IterMode) (random : ℕ) : Locked (ServiceIter × ℤ) := do
  acquire (.readLock n)
  return ServiceIterator.serviceIterInit se mode random

def serviceIterDestroy (n : Ptr) : Locked Unit := release (.readLock n)

/-- The call leaves as it is where `service_iter_init` fails. -/
def servalSalResolveService (tbl : Table) (env : SalResolve.Env) (skb : SkBuff.Skb) (ctx : SalHeader.SalContext)
    (srvid : List UInt8) : Locked Resolution := do
  match ← serviceFind tbl srvid SERVICE_ID_MAX_PREFIX_BITS with
  | none => return ⟨.noMatch, none, []⟩
  | some (n, se) =>
    let (iter, ret) ← serviceIterInit n se .anycast env.random
    if ret < 0 then return ⟨.error, none, []⟩
    else
      let (iter, target) ← (serviceIterNext iter : Option _)
      match target with
      | none =>
        serviceIterDestroy n
        serviceEntryPut n
        return ⟨.noMatch, none, []⟩
      | some target =>
        let res ← (resolveLoop env skb ctx (iterFuel se + 1) ctx.length iter (some target) .noMatch [] : Option _)
        serviceIterDestroy n
        serviceEntryPut n
        return res

/-- The part of `serval_sal_transmit_skb` that resolves. Here too it leaves as it is where `service_iter_init` fails. -/
def resolveAndSend (tbl : Table) (h : Host) (mode : IterMode) (random : ℕ) (skb : ℕ) (s : St) : Locked Run := do
  match ← serviceFind tbl h.sk.peerSrvid.toList SERVICE_ID_MAX_PREFIX_BITS with
  | none =>
    let r ← (s.run.kfreeSkb skb : Option Run)
    return { r with err := -SalTransmit.EADDRNOTAVAIL }
  | some (n, se) =>
    let (iter, ret) ← serviceIterInit n se mode random
    if ret < 0 then
      let r ← (s.run.kfreeSkb skb : Option Run)
      return { r with err := -1 }
    else
      let (iter, target) ← (serviceIterNext iter : Option _)
      match target with
      | none =>
        let r ← (s.run.kfreeSkb skb : Option Run)
        serviceIterDestroy n
        serviceEntryPut n
        return { r with err := -SalTransmit.EHOSTUNREACH }
      | some target =>
        let r ← (transmitLoop h skb (iterFuel se + 1) 0 iter (some target) s.run : Option Run)
        serviceIterDestroy n
        serviceEntryPut n
        return { r with daddr := 0 }

def servalSalTransmitSkb (c : SalTransmit.Call) : Locked Run :=
  if c.useCopy && !c.copied then pure { c.s.run with err := -SalTransmit.ENOBUFS }
  else do
    let (r, skb) ← ((if c.useCopy then c.s.run.pskbCopy c.h c.skb else some (c.s.run, c.skb)) : Option (Run × ℕ))
    if sendsAtOnce c.h.sk.skState || r.daddr != 0 then
      let r ← (r.kfreeSkb skb : Option Run)
      return { r with err := c.doXmit }
    else resolveAndSend c.tbl c.h c.mode c.random skb r.toSt

def addToEntry (tbl : Table) (n : Ptr) (type : RuleType) (flags : UInt16) (priority weight : UInt32) (dst : Option Buf)
    (dstlen : ℕ) (out : TargetOut) (mem : ℕ) : Locked (Table × ℤ) := do
  let se ← (getService tbl n : Option ServiceEntry)
  let (iter, _) ← serviceIterInit n se .all 0
  if ← (hasDuplicate type dst dstlen (iterFuel se) iter : Option Bool) then
    serviceIterDestroy n
    return (tbl, -EEXIST)
  else
    serviceIterDestroy n
    if dst.isSome || dstlen == 0 then
      let (se, ret, _) ← (serviceEntryAddTarget se type flags priority weight dst dstlen out mem : Option _)
      let tbl ← (setService tbl n se : Option Table)
      return (tbl, ret)
    else return (tbl, 0)

def serviceTableAdd (tbl : Table) (srvid : Option (List UInt8)) (prefixBits : ℕ) (type : RuleType) (flags : UInt16)
    (priority weight : UInt32) (dst : Option Buf) (dstlen : ℕ) (out : TargetOut) (mem : ℕ) : Locked (Table × ℤ) :=
  match srvid with
  | none => return (tbl, -EINVAL)
  | some srvid =>
    if ruleRefused type dst dstlen then return (tbl, -EINVAL)
    else do
      let bits := normBits srvid prefixBits
      match ← (findPrefix tbl srvid bits : Option (Option Ptr)) with
      | some n => addToEntry tbl n type flags priority weight dst dstlen out mem
      | none => liftM (addEntry tbl srvid bits type flags priority weight dst dstlen out mem)

def ctrlHandleGetServiceMsg (size : ℕ) (alloc : Bool) (random : ℕ) (tbl : Table) (m : Mem) :
    Locked (List (List UInt8)) := do
  let e := infoAt m 0
  match ← serviceFind tbl e.srvid.toList (CtrlService.prefixBits e) with
  | none =>
    let m := write m (slotAddr 0) (ServiceInfo.toBytes { e with srvidFlags := CtrlGet.SVSF_INVALID })
    let sent ← (ctrlSendmsg size (setRetval m .noentry) : Option _)
    return [sent]
  | some (n, se) =>
    let nd ← (tbl.tree.heap n : Option _)
    if alloc then
      let len := ctrlmsgServiceNumLen se.count.toNat
      let (iter, _) ← serviceIterInit n se .forward random
      let (cres, i) ← (CtrlGet.fillLoop nd len (iterFuel se) iter 0 (CtrlGet.newReply m len) : Option _)
      serviceIterDestroy n
      serviceEntryPut n
      let sent ← (ctrlSendmsg len (setRetval cres (if i = 0 then .noentry else .ok)) : Option _)
      return [sent]
    else
      serviceEntryPut n
      let sent ← (ctrlSendmsg size (setRetval m .error) : Option _)
      return [sent]

/-! ## What the calls take and give back -/

def found (tbl : Table) (srvid : List UInt8) (bits : ℕ) : Option (Option (Ptr × ServiceEntry)) := do
  match ← bstFindLongestPrefixMatch tbl.tree srvid bits (some fun _ => true) with
  | none => return none
  | some n =>
    let se ← getService tbl n
    return some (n, se)

section

variable (tbl : Table) {β : Type} (n : Ptr) (srvid : List UInt8) (bits : ℕ) (type : RuleType) (flags : UInt16)
  (priority weight : UInt32) (dst : Option Buf) (dstlen : ℕ) (out : TargetOut) (mem : ℕ)

theorem found_entry : SalResolve.serviceFind tbl srvid bits = (found tbl srvid bits).map (·.map (·.2)) := by
  rw [SalResolve.serviceFind, found]
  cases bstFindLongestPrefixMatch tbl.tree srvid bits (some fun _ => true) with
  | none => rfl
  | some x =>
    cases x with
    | none => rfl
    | some n =>
      simp only [bind_eq_bind, bind_some]
      cases getService tbl n with
      | none | some se => rfl

theorem find_match_congr {t : Bst ServiceEntry} {f g : Ptr → Bool}
    (h : ∀ n nd, t.heap n = some nd → nd.priv.isSome → f n = g n) (key : List UInt8) (bits : ℕ) :
    bstFindLongestPrefixMatch t key bits (some f) = bstFindLongestPrefixMatch t key bits (some g) := by
  have hhit {n : Ptr} {nd : BstNode ServiceEntry} (hn : t.heap n = some nd) :
      (nd.priv.isSome && nodeMatches (some f) n) = (nd.priv.isSome && nodeMatches (some g) n) := by
    cases hpriv : nd.priv.isSome with
    | false => rfl
    | true => exact h n nd hn hpriv
  have hwalk (fuel : ℕ) : ∀ n prev, bstNodeFindLongestPrefix t key bits (some f) fuel n prev =
      bstNodeFindLongestPrefix t key bits (some g) fuel n prev := by
    induction fuel with
    | zero => exact fun _ _ => rfl
    | succ fuel ih =>
      intro n prev
      rw [bstNodeFindLongestPrefix, bstNodeFindLongestPrefix]
      cases hn : t.heap n with
      | none => rfl
      | some nd => simp only [bind_eq_bind, bind_some, hhit hn, ih]
  rw [bstFindLongestPrefixMatch, bstFindLongestPrefixMatch]
  cases t.root with
  | none => rfl
  | some r =>
    simp only [hwalk, bind_eq_bind]
    cases bstNodeFindLongestPrefix t key bits (some g) (bits + 1) r none with
    | none => rfl
    | some x =>
      simp only [bind_some]
      cases hn : t.heap x.1 with
      | none => rfl
      | some nd => simp only [bind_some, hhit hn]

theorem found_node : (do
      match ← ServiceFind.serviceFind tbl srvid bits with
      | none => return none
      | some n =>
        let se ← getService tbl n
        return some (n, se)) = found tbl srvid bits := by
  have hmatch : bstFindLongestPrefixMatch tbl.tree srvid bits (some (matchNode .any tbl)) =
      bstFindLongestPrefixMatch tbl.tree srvid bits (some fun _ => true) := by
    refine find_match_congr ?_ srvid bits
    intro n nd hn hpriv
    obtain ⟨se, hse⟩ := isSome_iff_exists.mp hpriv
    simp [matchNode, getService, hn, hse, ServiceFind.RuleMatch.func, serviceEntryAnyMatch]
  rw [ServiceFind.serviceFind, ServiceFind.serviceTableFind, hmatch, found]
  cases bstFindLongestPrefixMatch tbl.tree srvid bits (some fun _ => true) with
  | none => rfl
  | some x =>
    cases x with
    | none => rfl
    | some n =>
      cases hn : tbl.tree.heap n with
      | none | some nd => simp [hn, getService]

def findTrace (entry : Option (Ptr × ServiceEntry)) (tr : Ptr × ServiceEntry → List (Event Resource)) :
    List (Event Resource) :=
  (entry.map fun e => .acquire (.reference e.1) :: tr e).getD []

theorem run_serviceFind (t : List (Event Resource)) :
    (serviceFind tbl srvid bits).run t = (found tbl srvid bits).map fun x =>
      (x, t ++ x.toList.map fun entry => .acquire (.reference entry.1)) := by
  rw [serviceFind, found]
  simp only [StateT.run_bind, run_lift]
  cases bstFindLongestPrefixMatch tbl.tree srvid bits (some fun _ => true) with
  | none => rfl
  | some x =>
    cases x with
    | none => simp
    | some n =>
      simp only [map_some, bind_eq_bind, bind_some, StateT.run_bind, run_lift]
      cases getService tbl n with
      | none | some se => rfl

theorem traces_bind_find {tbl : Table} {srvid : List UInt8} {bits : ℕ}
    {f : Option (Ptr × ServiceEntry) → Locked β} {g : Option (Ptr × ServiceEntry) → Option β}
    {tr : Ptr × ServiceEntry → List (Event Resource)} (hnone : Traces (f none) (g none) [])
    (hsome : ∀ e, Traces (f (some e)) (g (some e)) (tr e)) :
    Traces (serviceFind tbl srvid bits >>= f) ((found tbl srvid bits).bind g)
      (findTrace (found tbl srvid bits).join tr) := by
  intro t
  rw [StateT.run_bind, run_serviceFind]
  cases found tbl srvid bits with
  | none => rfl
  | some x =>
    cases x with
    | none => simpa [findTrace] using hnone.run t
    | some e =>
      have hrun := (hsome e).run (t ++ [.acquire (.reference e.1)])
      rw [List.append_assoc] at hrun
      exact hrun

theorem traces_bind_init {n : Ptr} {se : ServiceEntry} {mode : IterMode} {random : ℕ}
    {f : ServiceIter × ℤ → Locked β} {y : Option β} {tr : List (Event Resource)}
    (hf : Traces (f (ServiceIterator.serviceIterInit se mode random)) y tr) :
    Traces (serviceIterInit n se mode random >>= f) y (.acquire (.readLock n) :: tr) := by
  have hinit : Traces (serviceIterInit n se mode random) (some (ServiceIterator.serviceIterInit se mode random))
      [.acquire (.readLock n)] := fun _ => rfl
  exact traces_bind hinit hf

def iterTrace (mode : IterMode) (random : ℕ) (entry : Ptr × ServiceEntry) : List (Event Resource) :=
  .acquire (.readLock entry.1) :: if (ServiceIterator.serviceIterInit entry.2 mode random).2 < 0 then []
    else [.release (.readLock entry.1), .release (.reference entry.1)]

def resolveTrace (tbl : Table) (srvid : List UInt8) (mode : IterMode) (random : ℕ) : List (Event Resource) :=
  findTrace (found tbl srvid SERVICE_ID_MAX_PREFIX_BITS).join (iterTrace mode random)

theorem traces_destroy_put {α : Type} (n : Ptr) (a : α) : Traces (do
      serviceIterDestroy n
      serviceEntryPut n
      return a) (some a) [.release (.readLock n), .release (.reference n)] :=
  traces_bind_release (traces_bind_release (traces_pure a))

theorem traces_resolveService (env : SalResolve.Env) (skb : SkBuff.Skb) (ctx : SalHeader.SalContext)
    (srvid : List UInt8) :
    Traces (servalSalResolveService tbl env skb ctx srvid) (SalResolve.servalSalResolveService tbl env skb ctx srvid)
      (resolveTrace tbl srvid .anycast env.random) := by
  have hplain : SalResolve.servalSalResolveService tbl env skb ctx srvid =
      (found tbl srvid SERVICE_ID_MAX_PREFIX_BITS).bind fun x =>
        match x with
        | none => some ⟨.noMatch, none, []⟩
        | some (_, se) =>
          if (ServiceIterator.serviceIterInit se .anycast env.random).2 < 0 then some ⟨.error, none, []⟩
          else (serviceIterNext (ServiceIterator.serviceIterInit se .anycast env.random).1).bind fun y =>
            resolveLoop env skb ctx (iterFuel se + 1) ctx.length y.1 y.2 .noMatch [] := by
    rw [SalResolve.servalSalResolveService, found_entry]
    cases found tbl srvid SERVICE_ID_MAX_PREFIX_BITS with
    | none => rfl
    | some x =>
      cases x with
      | none | some e => rfl
  rw [hplain]
  refine traces_bind_find (traces_pure _) ?_
  rintro ⟨n, se⟩
  refine traces_bind_init ?_
  by_cases hfail : (ServiceIterator.serviceIterInit se .anycast env.random).2 < 0
  · simp only [if_pos hfail]
    exact traces_pure _
  · simp only [if_neg hfail]
    refine traces_bind_lift ?_
    rintro ⟨iter, target⟩
    cases target with
    | none => exact traces_destroy_put n _
    | some target => exact traces_bind_lift_self fun res => traces_destroy_put n res

theorem traces_resolveAndSend (h : Host) (mode : IterMode) (random : ℕ) (skb : ℕ) (s : St) :
    Traces (resolveAndSend tbl h mode random skb s) (SalTransmit.resolveAndSend tbl h mode random skb s)
      (resolveTrace tbl h.sk.peerSrvid.toList mode random) := by
  have hplain : SalTransmit.resolveAndSend tbl h mode random skb s =
      (found tbl h.sk.peerSrvid.toList SERVICE_ID_MAX_PREFIX_BITS).bind fun x =>
        match x with
        | none => (s.run.kfreeSkb skb).bind fun r => some { r with err := -SalTransmit.EADDRNOTAVAIL }
        | some (_, se) => SalTransmit.sendToTargets h se mode random skb s := by
    rw [SalTransmit.resolveAndSend, found_entry]
    cases found tbl h.sk.peerSrvid.toList SERVICE_ID_MAX_PREFIX_BITS with
    | none => rfl
    | some x =>
      cases x with
      | none | some e => rfl
  rw [hplain]
  refine traces_bind_find (traces_bind_lift fun r => traces_pure _) ?_
  rintro ⟨n, se⟩
  refine traces_bind_init ?_
  simp only [SalTransmit.sendToTargets]
  by_cases hfail : (ServiceIterator.serviceIterInit se mode random).2 < 0
  · simp only [if_pos hfail]
    exact traces_bind_lift fun r => traces_pure _
  · simp only [if_neg hfail]
    refine traces_bind_lift ?_
    rintro ⟨iter, target⟩
    cases target with
    | none | some target => exact traces_bind_lift fun r => traces_destroy_put n _

def transmitTrace (c : SalTransmit.Call) : List (Event Resource) :=
  if (c.useCopy && !c.copied) || sendsAtOnce c.h.sk.skState || c.s.daddr != 0 then []
  else resolveTrace c.tbl c.h.sk.peerSrvid.toList c.mode c.random

theorem traces_transmitSkb (c : SalTransmit.Call) : Traces (servalSalTransmitSkb c) c.run (transmitTrace c) := by
  rw [servalSalTransmitSkb, SalTransmit.Call.run, SalTransmit.servalSalTransmitSkb, transmitTrace]
  cases hcopy : c.useCopy && !c.copied with
  | true => exact traces_pure _
  | false =>
    have hsend (r : Run) (skb : ℕ) (hdaddr : r.daddr = c.s.daddr) :
        Traces (if sendsAtOnce c.h.sk.skState || r.daddr != 0 then do
            let r ← (r.kfreeSkb skb : Option Run)
            return { r with err := c.doXmit }
          else resolveAndSend c.tbl c.h c.mode c.random skb r.toSt : Locked Run)
          (if sendsAtOnce c.h.sk.skState || r.daddr != 0 then do
            let r ← r.kfreeSkb skb
            return { r with err := c.doXmit }
          else SalTransmit.resolveAndSend c.tbl c.h c.mode c.random skb r.toSt)
          (if false || sendsAtOnce c.h.sk.skState || c.s.daddr != 0 then []
          else resolveTrace c.tbl c.h.sk.peerSrvid.toList c.mode c.random) := by
      rw [hdaddr, Bool.false_or]
      cases sendsAtOnce c.h.sk.skState || c.s.daddr != 0 with
      | true => exact traces_bind_lift fun r => traces_pure _
      | false => exact traces_resolveAndSend c.tbl c.h c.mode c.random skb r.toSt
    cases huse : c.useCopy with
    | false =>
      rw [if_neg Bool.false_ne_true, if_neg Bool.false_ne_true, if_neg Bool.false_ne_true, if_neg Bool.false_ne_true]
      refine traces_bind_lift_of ?_
      intro x hx
      cases hx
      exact hsend c.s.run c.skb rfl
    | true =>
      rw [if_neg Bool.false_ne_true, if_neg Bool.false_ne_true, if_pos rfl, if_pos rfl]
      refine traces_bind_lift_of ?_
      intro x hx
      obtain ⟨p, -, hx⟩ := bind_eq_some_iff.mp hx
      cases hx
      exact hsend _ _ rfl

theorem traces_addToEntry : Traces (addToEntry tbl n type flags priority weight dst dstlen out mem)
      (ServiceTable.addToEntry tbl n type flags priority weight dst dstlen out mem)
      [.acquire (.readLock n), .release (.readLock n)] := by
  refine traces_bind_lift fun se => traces_bind_init (traces_bind_lift fun duplicate => ?_)
  cases duplicate with
  | true => exact traces_bind_release (traces_pure _)
  | false =>
    refine traces_bind_release ?_
    cases dst.isSome || dstlen == 0 with
    | true => exact traces_bind_lift fun x => traces_bind_lift fun tbl => traces_pure _
    | false => exact traces_pure _

theorem settled_lock : Settled [Event.acquire (Resource.readLock n), .release (.readLock n)] :=
  settled_wrap settled_nil (fun _ he => nomatch he)

theorem settled_reference : Settled [Event.acquire (Resource.reference n), .release (.reference n)] :=
  settled_wrap settled_nil (fun _ he => nomatch he)

theorem settled_both : Settled [Event.acquire (Resource.reference n), .acquire (.readLock n), .release (.readLock n),
      .release (.reference n)] :=
  settled_wrap (settled_lock n) (by simp)

theorem traces_serviceTableAdd (srvid : Option (List UInt8)) (prefixBits : ℕ) (type : RuleType)
    (flags : UInt16) (priority weight : UInt32) (dst : Option Buf) (dstlen : ℕ) (out : TargetOut) (mem : ℕ) :
    ∃ tr, Settled tr ∧ Traces (serviceTableAdd tbl srvid prefixBits type flags priority weight dst dstlen out mem)
      (ServiceTable.serviceTableAdd tbl srvid prefixBits type flags priority weight dst dstlen out mem) tr := by
  cases srvid with
  | none => exact ⟨[], settled_nil, traces_pure _⟩
  | some srvid =>
    rw [serviceTableAdd, ServiceTable.serviceTableAdd]
    cases ruleRefused type dst dstlen with
    | true => exact ⟨[], settled_nil, traces_pure _⟩
    | false =>
      simp only [Bool.false_eq_true, ↓reduceIte]
      cases hfind : findPrefix tbl srvid (normBits srvid prefixBits) with
      | none => exact ⟨[], settled_nil, fun _ => rfl⟩
      | some x =>
        cases x with
        | none =>
          refine ⟨[], settled_nil, traces_bind_lift_of ?_⟩
          rintro x hx
          cases hx
          exact traces_lift _
        | some n =>
          refine ⟨_, settled_lock n, traces_bind_lift_of ?_⟩
          rintro x hx
          cases hx
          exact traces_addToEntry tbl n type flags priority weight dst dstlen out mem

end

def getTrace (alloc : Bool) (entry : Ptr × ServiceEntry) : List (Event Resource) :=
  if alloc then [.acquire (.readLock entry.1), .release (.readLock entry.1), .release (.reference entry.1)]
  else [.release (.reference entry.1)]

theorem traces_getServiceMsg (size : ℕ) (alloc : Bool) (random : ℕ) (tbl : Table) (m : Mem) :
    Traces (ctrlHandleGetServiceMsg size alloc random tbl m) (CtrlGet.ctrlHandleGetServiceMsg size alloc random tbl m)
      (findTrace (found tbl (infoAt m 0).srvid.toList (CtrlService.prefixBits (infoAt m 0))).join
      (getTrace alloc)) := by
  have hplain : CtrlGet.ctrlHandleGetServiceMsg size alloc random tbl m =
      (found tbl (infoAt m 0).srvid.toList (CtrlService.prefixBits (infoAt m 0))).bind fun x =>
        match x with
        | none => do
          let m := write m (slotAddr 0) (ServiceInfo.toBytes { infoAt m 0 with srvidFlags := CtrlGet.SVSF_INVALID })
          let sent ← ctrlSendmsg size (setRetval m .noentry)
          return [sent]
        | some (n, se) => do
          let nd ← tbl.tree.heap n
          if alloc then
            let len := ctrlmsgServiceNumLen se.count.toNat
            let iter := (ServiceIterator.serviceIterInit se .forward random).1
            let (cres, i) ← CtrlGet.fillLoop nd len (iterFuel se) iter 0 (CtrlGet.newReply m len)
            let sent ← ctrlSendmsg len (setRetval cres (if i = 0 then .noentry else .ok))
            return [sent]
          else
            let sent ← ctrlSendmsg size (setRetval m .error)
            return [sent] := by
    rw [← found_node, CtrlGet.ctrlHandleGetServiceMsg]
    cases ServiceFind.serviceFind tbl (infoAt m 0).srvid.toList (CtrlService.prefixBits (infoAt m 0)) with
    | none => rfl
    | some x =>
      cases x with
      | none => rfl
      | some n =>
        simp only [bind_eq_bind, bind_some]
        cases hnd : tbl.tree.heap n with
        | none => simp [getService, hnd]
        | some nd =>
          cases hse : getService tbl n with
          | none => rfl
          | some se => simp [hnd]
  rw [hplain]
  refine traces_bind_find (traces_bind_lift fun sent => traces_pure _) ?_
  rintro ⟨n, se⟩
  refine traces_bind_lift fun nd => ?_
  cases alloc with
  | true =>
    refine traces_bind_init (traces_bind_lift fun x => ?_)
    exact traces_bind_release (traces_bind_release (traces_bind_lift fun sent => traces_pure _))
  | false => exact traces_bind_release (traces_bind_lift fun sent => traces_pure _)

/-! ## Every path gives back what it took -/

/-- What `service_iter_init` asks of an entry: it counts a target, and with anycast its first set is not one for
multicast. -/
def Ready (mode : IterMode) (se : ServiceEntry) : Prop :=
  ∃ set ∈ se.targetSet.head?, se.count ≠ 0 ∧ (mode = .anycast → set.flags &&& SVSF_MULTICAST = 0)

theorem ready_iff (mode : IterMode) (se : ServiceEntry) (random : ℕ) :
    Ready mode se ↔ ¬(ServiceIterator.serviceIterInit se mode random).2 < 0 := by
  unfold Ready ServiceIterator.serviceIterInit
  cases se.targetSet with
  | nil => simp
  | cons set sets =>
    by_cases hcount : se.count = 0
    · simp [hcount]
    · by_cases hmode : mode = .anycast
      · by_cases hflags : set.flags &&& SVSF_MULTICAST = 0 <;> simp [hcount, hmode, hflags]
      · simp [hcount, hmode]

/-- The entry that is found, if any, is one that `service_iter_init` accepts. -/
def Starts (tbl : Table) (srvid : List UInt8) (mode : IterMode) : Prop :=
  ∀ e, (found tbl srvid SERVICE_ID_MAX_PREFIX_BITS).join = some e → Ready mode e.2

theorem settled_find {entry : Option (Ptr × ServiceEntry)} {tr : Ptr × ServiceEntry → List (Event Resource)} :
    Settled (findTrace entry tr) ↔ ∀ e, entry = some e → Settled (.acquire (.reference e.1) :: tr e) := by
  cases entry with
  | none => simp [findTrace, settled_nil]
  | some e => simp [findTrace]

theorem settled_resolve {tbl : Table} {srvid : List UInt8} {mode : IterMode} {random : ℕ} :
    Settled (resolveTrace tbl srvid mode random) ↔ Starts tbl srvid mode := by
  refine settled_find.trans (forall₂_congr fun e _ => ?_)
  rw [ready_iff mode e.2 random, iterTrace]
  split
  -- The lock of the entry is acquired and never released.
  · simp only [*, not_true_eq_false, iff_false]
    exact fun h => by simpa [Event.resource] using h (.readLock e.1)
  · simpa only [*, not_false_eq_true, iff_true] using settled_both e.1

/-- Where a call has an outcome, what it took of an entry it has given back once: an add and the answer to a request
always, and the two resolutions exactly where `service_iter_init` accepts the entry or is not reached. -/
theorem calls_settled (tbl : Table) :
    (∀ env skb ctx srvid res trace, (servalSalResolveService tbl env skb ctx srvid).run [] = some (res, trace) →
      (Settled trace ↔ Starts tbl srvid .anycast)) ∧
    (∀ c r trace, c.tbl = tbl → (servalSalTransmitSkb c).run [] = some (r, trace) →
      (Settled trace ↔ ((c.useCopy && !c.copied) || sendsAtOnce c.h.sk.skState || c.s.daddr != 0) = true ∨
        Starts tbl c.h.sk.peerSrvid.toList c.mode)) ∧
    (∀ srvid bits type flags priority weight dst dstlen out mem res trace,
      (serviceTableAdd tbl srvid bits type flags priority weight dst dstlen out mem).run [] = some (res, trace) →
      Settled trace) ∧
    (∀ size alloc random m sent trace,
      (ctrlHandleGetServiceMsg size alloc random tbl m).run [] = some (sent, trace) → Settled trace) := by
  refine ⟨?_, ?_, ?_, ?_⟩
  · intro env skb ctx srvid res trace hrun
    rw [(traces_resolveService tbl env skb ctx srvid).trace_eq hrun]
    exact settled_resolve
  · rintro c r trace rfl hrun
    rw [(traces_transmitSkb c).trace_eq hrun, transmitTrace]
    split
    · exact iff_of_true settled_nil (.inl ‹_›)
    · exact settled_resolve.trans (or_iff_right ‹_›).symm
  · intro srvid bits type flags priority weight dst dstlen out mem res trace hrun
    obtain ⟨tr, hsettled, htraces⟩ :=
      traces_serviceTableAdd tbl srvid bits type flags priority weight dst dstlen out mem
    rw [htraces.trace_eq hrun]
    exact hsettled
  · intro size alloc random m sent trace hrun
    rw [(traces_getServiceMsg size alloc random tbl m).trace_eq hrun]
    refine settled_find.mpr fun e _ => ?_
    rw [getTrace]
    split
    · exact settled_both e.1
    · exact settled_reference e.1

namespace Sample

open SalTransmit.Sample (call drop near host st)

def multicast : Table := ServiceRuns.Sample.resultOf serviceTableInit
  (.add (some defaultService) 0 .forward SVSF_MULTICAST 0 1 (some ⟨4096, [10, 0, 0, 1]⟩) 4 (.oif 1) 8)

def env : SalResolve.Env := ⟨0, .host, fun _ => none, true, true, none⟩

def skb : SkBuff.Skb := ⟨fun _ => 0, 0, 0, 0, 0⟩

def ctx : SalHeader.SalContext := ⟨0, 0, 0, 0, 0, [], none, none, none, none, none⟩

def anycastCall : SalTransmit.Call := ⟨multicast, host fun _ => {}, .anycast, 0, true, 0, st, 0, true⟩

end Sample

open Sample SalTransmit.Sample in
theorem calls_settled_dropped : ∃ r trace, (servalSalTransmitSkb (call [drop, near])).run [] = some (r, trace) ∧
    trace ≠ [] ∧ Settled trace := by
  obtain ⟨r, hrun, -⟩ := (SalTransmit.run_cases (call_resolves [drop, near])).1 (by decide +kernel)
  have htrace : (servalSalTransmitSkb (call [drop, near])).run [] =
      some (r, [] ++ transmitTrace (call [drop, near])) := by
    rw [(traces_transmitSkb _).run, hrun]
    rfl
  refine ⟨r, _, htrace, by decide +kernel, ?_⟩
  refine ((calls_settled (call [drop, near]).tbl).2.1 (call [drop, near]) r _ rfl htrace).mpr (.inr ?_)
  intro e he
  obtain rfl : (1, SalTransmit.Sample.entry [drop, near]) = e := some.inj he
  exact (ready_iff _ _ 0).mpr (by decide)

open Sample in
/-- A rule with the flag for multicast is added, and then both resolutions end with the lock and the reference of its
entry taken. -/
theorem calls_settled_multicast : (servalSalResolveService multicast env skb ctx defaultService).run [] =
      some (⟨.error, none, []⟩, [.acquire (.reference 0), .acquire (.readLock 0)]) ∧
    ((servalSalTransmitSkb anycastCall).run []).map (fun x => (x.1.err, x.2)) =
      some (-1, [.acquire (.reference 0), .acquire (.readLock 0)]) := by
  constructor
  · rfl
  · rfl

end ServiceLocks
