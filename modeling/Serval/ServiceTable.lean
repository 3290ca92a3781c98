import Serval.BstTraversal
import Serval.ServiceIterator

/-! # The service table

A trie from service prefixes to service entries, and a count of them. Every call holds the table lock, so it is one
step.
-/
namespace ServiceTable

open BstModel BstTraversal ServiceTargets ServiceIterator

structure Table where
  tree : Bst ServiceEntry
  services : UInt32

def EEXIST : ℤ := 17
def EINVAL : ℤ := 22

def SERVICE_ID_MAX_PREFIX_BITS : ℕ := 256

def defaultService : List UInt8 := List.replicate 32 0

def srvOps : Option BstNodeOps := some ⟨some fun _ => 0, true⟩

def serviceTableInit : Table := ⟨bstInit, 0⟩

def normBits (srvid : List UInt8) (prefixBits : ℕ) : ℕ :=
  if srvid = defaultService then 0 else prefixBits

def getService (tbl : Table) (n : Ptr) : Option ServiceEntry := do
  let nd ← tbl.tree.heap n
  nd.priv

def setService (tbl : Table) (n : Ptr) (se : ServiceEntry) : Option Table := do
  let nd ← tbl.tree.heap n
  return { tbl with tree := tbl.tree.write n { nd with priv := some se } }

def findPrefix (tbl : Table) (srvid : List UInt8) (bits : ℕ) : Option (Option Ptr) := do
  match ← bstFindLongestPrefix tbl.tree srvid bits with
  | none => return none
  | some n =>
    let nd ← tbl.tree.heap n
    return if bits ≤ nd.prefixBits then some n else none

def ruleRefused (type : RuleType) (dst : Option Buf) (dstlen : ℕ) : Bool :=
  match type with
  | .undefined => true
  | .forward => dstlen == 0 || dst.isNone
  | .demux => 0 < dstlen
  | .delay => false
  | .drop => false

def hasDuplicate (type : RuleType) (dst : Option Buf) (dstlen : ℕ) : ℕ → ServiceIter → Option Bool
  | 0, _ => none
  | fuel + 1, iter => do
    let (iter, target) ← serviceIterNext iter
    match target with
    | none => return false
    | some t =>
      let same ← isTarget t type dst dstlen
      if same || t.type == .drop || t.type == .delay then return true
      else hasDuplicate type dst dstlen fuel iter

/-- The two ways of `service_table_add`: a further target for the entry at `n`, ... -/
def addToEntry (tbl : Table) (n : Ptr) (type : RuleType) (flags : UInt16)
    (priority weight : UInt32) (dst : Option Buf) (dstlen : ℕ) (out : TargetOut) (mem : ℕ) : Option (Table × ℤ) := do
  let se ← getService tbl n
  if ← hasDuplicate type dst dstlen (iterFuel se) (serviceIterInit se .all 0).1 then
    return (tbl, -EEXIST)
  else if dst.isSome || dstlen == 0 then
    let (se, ret, _) ← serviceEntryAddTarget se type flags priority weight dst dstlen out mem
    let tbl ← setService tbl n se
    return (tbl, ret)
  else return (tbl, 0)

def addEntry (tbl : Table) (srvid : List UInt8) (bits : ℕ) (type : RuleType) (flags : UInt16)
    (priority weight : UInt32) (dst : Option Buf) (dstlen : ℕ) (out : TargetOut) (mem : ℕ) : Option (Table × ℤ) := do
  if mem = 0 then return (tbl, -ENOMEM)
  else
    let (se, ret, mem) ← serviceEntryAddTarget serviceEntryCreate type flags priority weight dst
      dstlen out (mem - 1)
    if ret < 0 then return (tbl, -ENOMEM)
    else
      let (tree, node) ← bstInsertPrefix tbl.tree srvOps se srvid bits mem
      match node with
      | none => return ({ tbl with tree := tree }, -ENOMEM)
      | some _ => return (⟨tree, tbl.services + 1⟩, ret)

def serviceTableAdd (tbl : Table) (srvid : Option (List UInt8)) (prefixBits : ℕ) (type : RuleType)
    (flags : UInt16) (priority weight : UInt32) (dst : Option Buf) (dstlen : ℕ) (out : TargetOut)
    (mem : ℕ) : Option (Table × ℤ) :=
  match srvid with
  | none => some (tbl, -EINVAL)
  | some srvid =>
    if ruleRefused type dst dstlen then some (tbl, -EINVAL)
    else do
      let bits := normBits srvid prefixBits
      match ← findPrefix tbl srvid bits with
      | some n => addToEntry tbl n type flags priority weight dst dstlen out mem
      | none => addEntry tbl srvid bits type flags priority weight dst dstlen out mem

def serviceAdd (tbl : Table) (srvid : Option (List UInt8)) (prefixBits : ℕ) (type : RuleType)
    (flags : UInt16) (priority weight : UInt32) (dst : Option Buf) (dstlen : ℕ) (out : TargetOut)
    (mem : ℕ) : Option (Table × ℤ) :=
  serviceTableAdd tbl srvid prefixBits type flags priority (if weight = 0 then 1 else weight) dst
    dstlen out mem

def serviceTableModify (tbl : Table) (srvid : Option (List UInt8)) (prefixBits : ℕ)
    (type : RuleType) (flags : UInt16) (priority weight : UInt32) (dst : Option Buf) (dstlen : ℕ)
    (newDst : Option Buf) (newDstlen : ℕ) (routed : Bool) (mem : ℕ) : Option (Table × ℤ) :=
  match srvid with
  | none => some (tbl, -EINVAL)
  | some srvid => do
    match ← findPrefix tbl srvid (normBits srvid prefixBits) with
    | some n =>
      let se ← getService tbl n
      let (se, ret) ← serviceEntryModifyTarget se type flags priority weight dst dstlen newDst
        newDstlen routed mem
      let tbl ← setService tbl n se
      return (tbl, ret)
    | none => return (tbl, -EINVAL)

def serviceModify (tbl : Table) (srvid : Option (List UInt8)) (prefixBits : ℕ)
    (type : RuleType) (flags : UInt16) (priority weight : UInt32) (dst : Option Buf) (dstlen : ℕ)
    (newDst : Option Buf) (newDstlen : ℕ) (routed : Bool) (mem : ℕ) : Option (Table × ℤ) :=
  serviceTableModify tbl srvid prefixBits type flags priority (if weight = 0 then 1 else weight)
    dst dstlen newDst newDstlen routed mem

/-- What a removal makes of an entry: the entry that is left, the number of targets removed,
whether the entry is to leave the table, and the statistics written for the caller. -/
structure Removal where
  entry : ServiceEntry
  ret : ℕ
  gone : Bool
  stats : Option TargetStats

/-- The body that the removing functions share: the entry of the node is changed in place,
and released if it is to leave the table. -/
def removeFrom (step : ServiceEntry → Option Removal) (tbl : Table) (n : Ptr) : Option (Table × Removal) := do
  let se ← getService tbl n
  let r ← step se
  let tbl ← setService tbl n r.entry
  if r.gone then
    let tree ← bstNodeRelease tbl.tree n
    return (⟨tree, tbl.services - 1⟩, r)
  else return (tbl, r)

def removeTarget (type : RuleType) (dst : Option Buf) (dstlen : ℕ) (se : ServiceEntry) : Option Removal := do
  let (se, ret, stats) ← ServiceTargets.serviceEntryRemoveTarget se type dst dstlen
  return ⟨se, ret.toNat, 0 < ret ∧ se.targetSet = [], stats⟩

/-- Here an entry that is left empty leaves the table only if exactly one target went. -/
def removeByDev (ifindex : UInt32) (se : ServiceEntry) : Option Removal := do
  let (se, ret) ← serviceEntryRemoveTargetByDev se ifindex
  return ⟨se, ret, ret = 1 ∧ se.targetSet = [], none⟩

def serviceEntryRemoveTarget (tbl : Table) (n : Ptr) (type : RuleType) (dst : Option Buf)
    (dstlen : ℕ) : Option (Table × Removal) :=
  removeFrom (removeTarget type dst dstlen) tbl n

def serviceTableDelTarget (tbl : Table) (srvid : List UInt8) (prefixBits : ℕ) (type : RuleType)
    (dst : Option Buf) (dstlen : ℕ) : Option (Table × Option TargetStats) := do
  match ← bstFindLongestPrefix tbl.tree srvid prefixBits with
  | none => return (tbl, none)
  | some n =>
    let (tbl, r) ← removeFrom (removeTarget type dst dstlen) tbl n
    return (tbl, r.stats)

def delDevFunc (ifindex : UInt32) (tbl : Table) (n : Ptr) : Option (Table × ℤ) :=
  (removeFrom (removeByDev ifindex) tbl n).map fun x => (x.1, x.2.ret)

def delTargetFunc (type : RuleType) (dst : Option Buf) (dstlen : ℕ) (tbl : Table) (n : Ptr) : Option (Table × ℤ) :=
  (removeFrom (removeTarget type dst dstlen) tbl n).map fun x => (x.1, x.2.ret)

/-- Applies the function to the whole tree. Each node is visited once, and no more nodes
exist than addresses were handed out. -/
def forAllEntries (tbl : Table) (func : Table → Ptr → Option (Table × ℤ)) : Option (Table × ℤ) :=
  match tbl.tree.root with
  | none => some (tbl, 0)
  | some r => bstSubtreeFunc Table.tree func (tbl.tree.brk + 1) tbl [r] 0

def serviceTableDelDevAll (tbl : Table) (ifindex : UInt32) : Option (Table × ℤ) :=
  forAllEntries tbl (delDevFunc ifindex)

def serviceTableDelTargetAll (tbl : Table) (type : RuleType) (dst : Option Buf) (dstlen : ℕ) : Option (Table × ℤ) :=
  forAllEntries tbl (delTargetFunc type dst dstlen)

def serviceEntryLocalMatch (se : ServiceEntry) : Option Bool := do
  match ← serviceEntryGetTarget se .demux none 0 matchAnyProtocol with
  | some f => return f.target.out.raw != 0
  | none => return false

def serviceEntryGlobalMatch (se : ServiceEntry) : Option Bool := do
  let f ← serviceEntryGetTarget se .forward none 0 matchNoProtocol
  return f.isSome

end ServiceTable
