import Mathlib.Algebra.Order.Ring.Int
import Mathlib.Data.List.Basic

/-! # Service entries: sets of targets, by priority

The mutators of a service entry as the service table calls them. `none` is a call whose outcome rests on memory it must
not read. Allocations succeed as long as `mem` is left.
-/
namespace ServiceTargets

inductive RuleType where
  | undefined
  | forward
  | demux
  | delay
  | drop
  deriving DecidableEq, Repr

structure Sock where
  addr : ℕ
  skProtocol : UInt8
  nonnull : addr ≠ 0
  deriving DecidableEq, Repr

/-- The union of an interface index and a socket pointer; `sk none` is NULL. -/
inductive TargetOut where
  | oif (ifindex : UInt32)
  | sk (s : Option Sock)
  deriving DecidableEq, Repr

def TargetOut.raw : TargetOut → ℕ
  | .oif i => i.toNat
  | .sk none => 0
  | .sk (some s) => s.addr

def TargetOut.asOif (out : TargetOut) : UInt32 := UInt32.ofNat out.raw

/-- The socket behind the union; there is none to read if it is NULL or an index. -/
def TargetOut.asSk : TargetOut → Option Sock
  | .sk s => s
  | .oif _ => none

structure TargetStats where
  packetsResolved : UInt32 := 0
  bytesResolved : UInt32 := 0
  packetsDropped : UInt32 := 0
  bytesDropped : UInt32 := 0
  deriving DecidableEq, Repr

structure Target where
  type : RuleType
  weight : UInt32
  stats : TargetStats
  out : TargetOut
  dst : List UInt8
  deriving DecidableEq, Repr

structure TargetSet where
  list : List Target
  normalizer : UInt32
  priority : UInt32
  flags : UInt16
  count : UInt16
  deriving DecidableEq, Repr

structure ServiceEntry where
  targetSet : List TargetSet
  count : UInt32
  deriving DecidableEq, Repr

structure Buf where
  addr : ℕ
  bytes : List UInt8
  deriving DecidableEq, Repr

def EADDRINUSE : ℤ := 98
def ENOMEM : ℤ := 12

/-- `memcmp(..) == 0`; there is no answer if one side is shorter than `n`. -/
def memcmp (a b : List UInt8) (n : ℕ) : Option Bool :=
  if n ≤ a.length ∧ n ≤ b.length then some (a.take n == b.take n) else none

def isSockTarget (t : Target) : Bool := t.type == .demux && t.dst.length == 0

def targetCreate (type : RuleType) (dst : Option Buf) (dstlen : ℕ) (out : TargetOut)
    (weight : UInt32) (mem : ℕ) : Option (Option Target) :=
  if dstlen = 0 ∧ out.raw = 0 then some none
  else if mem = 0 then some none
  else if 0 < dstlen then do
    let d ← dst
    if d.bytes.length < dstlen then none
    else some (some ⟨type, weight, {}, .oif out.asOif, d.bytes.take dstlen⟩)
  else do
    let s ← out.asSk
    some (some ⟨type, weight, {}, .sk (some s), []⟩)

def targetSetCreate (flags : UInt16) (priority : UInt32) : TargetSet :=
  ⟨[], 0, priority, flags, 0⟩

def matchNoProtocol : ℤ := -1
def matchAnyProtocol : ℤ := 0

def isTarget (t : Target) (type : RuleType) (dst : Option Buf) (dstlen : ℕ) : Option Bool :=
  if t.type ≠ type then some false
  else match type, dst with
    | .demux, some d => some (t.out.raw == d.addr)
    | .forward, some d => memcmp t.dst d.bytes dstlen
    | _, _ => some true

def selects (type : RuleType) (dst : Option Buf) (dstlen : ℕ) (protocol : ℤ) (t : Target) : Option Bool := do
  if ← isTarget t type dst dstlen then
    if type = .demux then
      let s ← t.out.asSk
      return (s.skProtocol.toNat : ℤ) == protocol || protocol == matchAnyProtocol
    else return true
  else return false

def splitFirst {α : Type} (sel : α → Option Bool) : List α → Option (Option (List α × α × List α))
  | [] => some none
  | t :: ts => do
    if ← sel t then return some ([], t, ts)
    else
      let r ← splitFirst sel ts
      return r.map fun (a, x, b) => (t :: a, x, b)

structure Found where
  before : List TargetSet
  set : TargetSet
  ahead : List Target
  target : Target
  behind : List Target
  after : List TargetSet

def findTarget (sel : Target → Option Bool) : List TargetSet → Option (Option Found)
  | [] => some none
  | set :: rest => do
    match ← splitFirst sel set.list with
    | some (a, t, b) => return some ⟨[], set, a, t, b, rest⟩
    | none =>
      let r ← findTarget sel rest
      return r.map fun f => { f with before := set :: f.before }

def serviceEntryGetTarget (se : ServiceEntry) (type : RuleType) (dst : Option Buf) (dstlen : ℕ)
    (protocol : ℤ) : Option (Option Found) :=
  findTarget (selects type dst dstlen protocol) se.targetSet

def targetSetAddTarget (set : TargetSet) (t : Target) : TargetSet :=
  { set with
    list := set.list ++ [t]
    normalizer := set.normalizer + t.weight
    count := set.count + 1 }

def serviceEntryInsertTargetSet (set : TargetSet) : List TargetSet → List TargetSet
  | [] => [set]
  | pos :: rest =>
    if pos.priority < set.priority then set :: pos :: rest
    else pos :: serviceEntryInsertTargetSet set rest

def serviceEntryGetTargetSet (sets : List TargetSet) (priority : UInt32) : Option TargetSet :=
  sets.find? (·.priority == priority)

def updateSet (priority : UInt32) (f : TargetSet → TargetSet) : List TargetSet → List TargetSet
  | [] => []
  | set :: rest =>
    if set.priority = priority then f set :: rest else set :: updateSet priority f rest

def targetProtocol (dstlen : ℕ) (out : TargetOut) : Option ℤ :=
  if dstlen = 0 then out.asSk.map fun s => (s.skProtocol.toNat : ℤ) else some matchNoProtocol

def serviceEntryAddTarget (se : ServiceEntry) (type : RuleType) (flags : UInt16)
    (priority weight : UInt32) (dst : Option Buf) (dstlen : ℕ) (out : TargetOut) (mem : ℕ) :
    Option (ServiceEntry × ℤ × ℕ) := do
  let protocol ← targetProtocol dstlen out
  match ← serviceEntryGetTarget se type dst dstlen protocol with
  | some f => return (se, if isSockTarget f.target then -EADDRINUSE else 0, mem)
  | none =>
    match ← targetCreate type dst dstlen out weight mem with
    | none => return (se, -ENOMEM, mem)
    | some t =>
      match serviceEntryGetTargetSet se.targetSet priority with
      | some _ =>
        let sets := updateSet priority (targetSetAddTarget · t) se.targetSet
        return (⟨sets, se.count + 1⟩, 1, mem - 1)
      | none =>
        if mem < 2 then return (se, -ENOMEM, mem)
        else
          let sets := serviceEntryInsertTargetSet (targetSetCreate flags priority) se.targetSet
          let sets := updateSet priority (targetSetAddTarget · t) sets
          return (⟨sets, se.count + 1⟩, 1, mem - 2)

def targetSetRemoveTarget (f : Found) : TargetSet :=
  { f.set with
    list := f.ahead ++ f.behind
    normalizer := f.set.normalizer - f.target.weight
    count := f.set.count - 1 }

def dropTarget (f : Found) : List TargetSet :=
  let set := targetSetRemoveTarget f
  if set.count = 0 then f.before ++ f.after else f.before ++ set :: f.after

def putBack (f : Found) (t : Target) (g : TargetSet → TargetSet) : List TargetSet :=
  f.before ++ { g f.set with list := f.ahead ++ t :: f.behind } :: f.after

def insertAround (set : TargetSet) (f : Found) : Found :=
  if f.before.any (·.priority < set.priority) then
    { f with before := serviceEntryInsertTargetSet set f.before }
  else if f.set.priority < set.priority then { f with before := f.before ++ [set] }
  else { f with after := serviceEntryInsertTargetSet set f.after }

def copyDst (t : Target) (newDst : Option Buf) (newDstlen : ℕ) : Option Target :=
  match newDst with
  | none => some t
  | some d =>
    if newDstlen = t.dst.length then
      if d.bytes.length < newDstlen then none
      else some { t with dst := d.bytes.take newDstlen }
    else some t

def moveTarget (f : Found) (t : Target) (flags : UInt16) (priority : UInt32) : List TargetSet :=
  updateSet priority (fun nset => { targetSetAddTarget nset t with flags := flags })
    (dropTarget f)

/-- `routed` is the answer of the kernel's routing lookup; the user-level stack asks none. -/
def serviceEntryModifyTarget (se : ServiceEntry) (type : RuleType) (flags : UInt16)
    (priority weight : UInt32) (dst : Option Buf) (dstlen : ℕ) (newDst : Option Buf)
    (newDstlen : ℕ) (routed : Bool) (mem : ℕ) : Option (ServiceEntry × ℤ) := do
  if type = .demux ∨ dstlen = 0 then return (se, -1)
  else match ← serviceEntryGetTarget se type dst dstlen matchNoProtocol with
    | none => return (se, 0)
    | some f =>
      if routed then
        let t ← copyDst f.target newDst newDstlen
        if f.set.priority ≠ priority then
          match serviceEntryGetTargetSet se.targetSet priority with
          | some _ => return ({ se with targetSet := moveTarget f { t with weight } flags priority }, 1)
          | none =>
            if mem = 0 then return ({ se with targetSet := putBack f t id }, -ENOMEM)
            else
              let f := insertAround (targetSetCreate flags priority) f
              return ({ se with targetSet := moveTarget f { t with weight } flags priority }, 1)
        else
          let sets := putBack f { t with weight } fun set =>
            { set with normalizer := set.normalizer - t.weight + weight, flags }
          return ({ se with targetSet := sets }, 1)
      else return (se, 0)

/-- The inner loop of `__service_entry_remove_target_by_dev`: `ahead` has been passed, and the first component is
`none` if the set was freed, which only the last target's turn may do. -/
def removeTargetsByDev (ifindex : UInt32) (set : TargetSet) (ahead : List Target) (count : ℕ) :
    List Target → Option (Option TargetSet × ℕ)
  | [] => some (some set, count)
  | t :: behind =>
    if t.type = .forward ∧ t.out.asOif = ifindex then
      let set := targetSetRemoveTarget ⟨[], set, ahead, t, behind, []⟩
      if set.count = 0 then
        if behind = [] then some (none, count + 1) else none
      else removeTargetsByDev ifindex set ahead (count + 1) behind
    else removeTargetsByDev ifindex set (ahead ++ [t]) count behind

def removeSetsByDev (ifindex : UInt32) : List TargetSet → Option (List TargetSet × ℕ)
  | [] => some ([], 0)
  | set :: rest => do
    let (set, n) ← removeTargetsByDev ifindex set [] 0 set.list
    let (rest, m) ← removeSetsByDev ifindex rest
    return (set.toList ++ rest, n + m)

def serviceEntryRemoveTargetByDev (se : ServiceEntry) (ifindex : UInt32) : Option (ServiceEntry × ℕ) := do
  let (sets, count) ← removeSetsByDev ifindex se.targetSet
  return (⟨sets, se.count - UInt32.ofNat count⟩, count)

def removes (type : RuleType) (dst : Option Buf) (dstlen : ℕ) (t : Target) : Option Bool :=
  if t.type ≠ type then some false
  else match t.type with
    | .demux => some (dstlen == 0)
    | .forward => memcmp t.dst ((dst.map Buf.bytes).getD []) dstlen
    | _ => some false

def serviceEntryRemoveTarget (se : ServiceEntry) (type : RuleType) (dst : Option Buf)
    (dstlen : ℕ) : Option (ServiceEntry × ℤ × Option TargetStats) := do
  match ← findTarget (removes type dst dstlen) se.targetSet with
  | some f => return (⟨dropTarget f, se.count - 1⟩, 1, some f.target.stats)
  | none => return (se, 0, none)

def serviceEntryCreate : ServiceEntry := ⟨[], 0⟩

end ServiceTargets
