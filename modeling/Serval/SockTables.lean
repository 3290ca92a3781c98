import Serval.ServiceRuns
import Serval.SalSocket

/-! # Sockets and the tables they are found in

A socket that waits has a DEMUX target in the service table, one of a connection is in the established table. A call
holds the locks of what it changes, so it is one step.
-/
namespace SockTables

open SalBuild SalSocket ServiceTargets ServiceTable

/-! ## Flags and hashing -/

def SSK_FLAG_BOUND : UInt8 := 0
def SSK_FLAG_AUTOBOUND : UInt8 := 1
def SSK_FLAG_HASHED : UInt8 := 2
def SSK_FLAG_CHILD : UInt8 := 3

def servalSockSetFlag (flags flag : UInt8) : UInt8 := flags ||| 1 <<< flag

/-- Masks out the bits of the number of the flag, not the bit with this number. -/
def servalSockResetFlag (flags flag : UInt8) : UInt8 := flags &&& (flag ^^^ 255)

def servalSockFlag (flags flag : UInt8) : Bool := flags &&& 1 <<< flag != 0

def partialNameHash (hash : UInt64) (c : UInt8) : UInt64 :=
  (hash + (c.toUInt64 <<< 4) + (c.toUInt64 >>> 4)) * 11

/-- The bits after the last whole byte are hashed too, but the result is not used. -/
def fullBitstringHash (bits : List UInt8) (numBits : ℕ) : UInt32 :=
  ((bits.take (numBits / 8)).foldl partialNameHash 0).toUInt32

def SERVAL_HTABLE_SIZE_MIN : UInt32 := 256

def servalHashfn (key : List UInt8) (keylen : ℕ) : ℕ :=
  (fullBitstringHash key keylen &&& (SERVAL_HTABLE_SIZE_MIN - 1)).toNat

/-! ## Sockets -/

abbrev SockPtr := { a : ℕ // a ≠ 0 }

inductive HashKey where
  | null
  | flowid
  | srvid
  deriving DecidableEq, Repr

inductive SocketState where
  | unconnected
  | connecting
  | connected
  deriving DecidableEq, Repr

/-- The part of a socket that decides where it is found. `linked` says whether `sk_node` is in a
list. A socket has no `state` before it is accepted and after it is closed by the user. -/
structure ServalSock where
  skState : SalState
  skProtocol : UInt8
  flags : UInt8
  hashKey : HashKey
  hashKeyLen : ℕ
  srvidPrefixBits : UInt8
  srvidFlags : UInt16
  localFlowid : FlowId
  localSrvid : ServiceId
  linked : Bool
  skHash : ℕ
  acceptQueue : List SockPtr
  state : Option SocketState

def ServalSock.has (s : ServalSock) (flag : UInt8) : Bool := servalSockFlag s.flags flag

def ServalSock.prefixBits (s : ServalSock) : ℕ :=
  if s.srvidPrefixBits = 0 then SERVICE_ID_MAX_PREFIX_BITS else s.srvidPrefixBits.toNat

def ServalSock.keyBytes (s : ServalSock) : List UInt8 :=
  match s.hashKey with
  | .null => []
  | .flowid => ByteMemory.bytes32 s.localFlowid
  | .srvid => s.localSrvid.toList

structure HSlot where
  head : List SockPtr
  count : ℤ

/-- What has happened in the tables: a `service_add` with its result, a socket put into the established table, a call of
`serval_sock_unhash`, and a socket taken out of a slot. -/
inductive TableEvent where
  | add (i : SockPtr) (srvid : ServiceId) (state : SalState) (err : ℤ)
  | flow (i : SockPtr) (state : SalState)
  | unhash (i : SockPtr)
  | unlink (i : SockPtr) (slot : ℕ)
  deriving DecidableEq

structure World where
  table : Table
  slots : ℕ → HSlot
  socks : SockPtr → Option ServalSock
  history : List TableEvent

def World.log (w : World) (ev : TableEvent) : World := { w with history := ev :: w.history }

def World.edit (w : World) (i : SockPtr) (f : ServalSock → ServalSock) : World :=
  { w with socks := Function.update w.socks i ((w.socks i).map f) }

def World.setSlot (w : World) (k : ℕ) (slot : HSlot) : World :=
  { w with slots := Function.update w.slots k slot }

def init : World := ⟨ServiceTable.serviceTableInit, fun _ => ⟨[], 0⟩, fun _ => none, []⟩

/-! ## Hashing and unhashing -/

def servalSockLookup (w : World) (key : List UInt8) : Option SockPtr :=
  (w.slots (servalHashfn key key.length)).head.find? fun i =>
    match w.socks i with
    | some s => s.keyBytes.take key.length == key
    | none => false

def servalSockLookupFlow (w : World) (flowid : FlowId) : Option SockPtr :=
  servalSockLookup w (ByteMemory.bytes32 flowid)

def LOCAL_SERVICE_DEFAULT_PRIORITY : UInt32 := 32000
def LOCAL_SERVICE_DEFAULT_WEIGHT : UInt32 := 1024

def makeSockTarget (i : SockPtr) (s : ServalSock) : TargetOut := .sk (some ⟨i.1, s.skProtocol, i.2⟩)

def servalTableHash (w : World) (i : SockPtr) (s : ServalSock) : World :=
  let k := servalHashfn (ByteMemory.bytes32 s.localFlowid) 4
  let slot := w.slots k
  ((w.setSlot k ⟨i :: slot.head, slot.count + 1⟩).edit i fun s => { s with
    hashKey := .flowid
    hashKeyLen := 4
    skHash := k
    linked := true
    flags := servalSockSetFlag s.flags SSK_FLAG_HASHED }).log (.flow i s.skState)

def serviceAdded (w : World) (i : SockPtr) (s : ServalSock) (table : Table) (err : ℤ) : World :=
  ({ w with table := table }.edit i fun s => { s with
    hashKey := .srvid
    hashKeyLen := s.prefixBits
    flags := if err < 0 then s.flags else servalSockSetFlag s.flags SSK_FLAG_HASHED }).log
      (.add i s.localSrvid s.skState err)

def servalSockHash (w : World) (i : SockPtr) (mem : ℕ) : Option World := do
  let s ← w.socks i
  if s.skState = .closed ∨ 0 < s.hashKeyLen then return w
  else if s.skState = .request ∨ s.skState = .respond then return servalTableHash w i s
  else
    let (table, err) ← serviceAdd w.table (some s.localSrvid.toList) s.prefixBits .demux s.srvidFlags
      LOCAL_SERVICE_DEFAULT_PRIORITY LOCAL_SERVICE_DEFAULT_WEIGHT none 0 (makeSockTarget i s) mem
    return serviceAdded w i s table err

def hlistDelInit (w : World) (i : SockPtr) (s : ServalSock) : World :=
  let slot := w.slots s.skHash
  ((w.setSlot s.skHash { slot with head := slot.head.erase i }).edit i fun s => { s with
    linked := false
    flags := servalSockResetFlag s.flags SSK_FLAG_HASHED
    hashKeyLen := 0 }).log (.unlink i s.skHash)

def serviceDeleted (w : World) (i : SockPtr) (table : Table) : World :=
  { w with table := table }.edit i fun s => { s with
    flags := servalSockResetFlag s.flags SSK_FLAG_HASHED
    hashKeyLen := 0 }

def servalSockUnhash (w : World) (i : SockPtr) : Option World := do
  let s ← w.socks i
  let w := w.log (.unhash i)
  if s.hashKeyLen = 0 then return w
  else if s.skState = .listen ∨ s.skState = .init then
    let (table, _) ← serviceTableDelTarget w.table s.localSrvid.toList s.prefixBits .demux none 0
    return serviceDeleted w i table
  else if s.linked then return hlistDelInit w i s
  else return w

def servalSockSetState (w : World) (i : SockPtr) (newState : SalState) : Option World := do
  let w ← (if newState = .closed then servalSockUnhash w i else some w)
  return w.edit i fun s => { s with skState := newState }

/-! ## Calls -/

def EINVAL : ℤ := 22
def EBADF : ℤ := 9
def EAGAIN : ℤ := 11
def EBADFD : ℤ := 77
def EISCONN : ℤ := 106
def ECONNABORTED : ℤ := 103
def EALREADY : ℤ := 114
def EINPROGRESS : ℤ := 115

def nullService : ServiceId := List.Vector.replicate 32 0

def servalCreate (w : World) (i : SockPtr) (protocol : UInt8) (flowid : FlowId) : World :=
  { w with socks := Function.update w.socks i (some {
    skState := .init
    skProtocol := protocol
    flags := 0
    hashKey := .null
    hashKeyLen := 0
    srvidPrefixBits := 0
    srvidFlags := 0
    localFlowid := flowid
    localSrvid := nullService
    linked := false
    skHash := 0
    acceptQueue := []
    state := some .unconnected }) }

/-- A service identifier with the flags and the number of bits that come with it, and the length of
the address that they were given in. -/
structure SockaddrSv where
  svFlags : UInt8
  svPrefixBits : UInt8
  svSrvid : ServiceId

def SIZEOF_SOCKADDR_SV : ℕ := 36

/-- The transport protocols have no bind of their own. -/
def servalBind (w : World) (i : SockPtr) (addr : SockaddrSv) (addrLen mem : ℕ) : Option (World × ℤ) := do
  let s ← w.socks i
  if addrLen < SIZEOF_SOCKADDR_SV ∨ addrLen % SIZEOF_SOCKADDR_SV ≠ 0 then return (w, -EINVAL)
  else if addr.svSrvid = nullService then return (w, -EINVAL)
  else
    let w ← (if s.has SSK_FLAG_BOUND then servalSockUnhash w i
      else some (w.edit i fun s => { s with flags := servalSockSetFlag s.flags SSK_FLAG_BOUND }))
    let w := w.edit i fun s => { s with
      localSrvid := addr.svSrvid
      srvidPrefixBits := addr.svPrefixBits
      srvidFlags := addr.svFlags.toUInt16 }
    let w ← servalSockHash w i mem
    let s ← w.socks i
    return (w, if s.has SSK_FLAG_HASHED then 0 else -EINVAL)

/-- The service identifier is random. -/
def servalAutobind (w : World) (i : SockPtr) (srvid : ServiceId) (mem : ℕ) : Option World :=
  servalSockHash (w.edit i fun s => { s with
    localSrvid := srvid
    flags := servalSockSetFlag (servalSockSetFlag s.flags SSK_FLAG_BOUND) SSK_FLAG_AUTOBOUND
    srvidPrefixBits := 0
    srvidFlags := 0 }) i mem

def servalListen (w : World) (i : SockPtr) (srvid : ServiceId) (mem : ℕ) : Option (World × ℤ) := do
  let s ← w.socks i
  if s.state ≠ some .unconnected then return (w, -EINVAL)
  else
    let w ← (if s.has SSK_FLAG_BOUND then some w else servalAutobind w i srvid mem)
    return (← servalSockSetState w i .listen, 0)

def connectFinish (w : World) (i : SockPtr) (s : ServalSock) : World × ℤ :=
  if s.skState = .request ∨ s.skState = .respond then (w, -EALREADY)
  else if s.skState = .closed then
    (w.edit i fun s => { s with state := some .unconnected }, -ECONNABORTED)
  else (w.edit i fun s => { s with state := some .connected }, 0)

/-- `err` is the result of the protocol's own connect. A call that waits goes on as one on a socket
that is connecting. -/
def servalConnect (w : World) (i : SockPtr) (err : ℤ) : Option (World × ℤ) := do
  let s ← w.socks i
  match s.state with
  | none => return (w, -EBADF)
  | some .connected => return (w, -EISCONN)
  | some .connecting => return connectFinish w i s
  | some .unconnected =>
    if s.skState = .listen then return (w, -EISCONN)
    else
      let w ← (if s.has SSK_FLAG_BOUND then servalSockUnhash w i else some w)
      let w ← servalSockSetState w i .request
      let w ← servalSockHash w i 0
      if err < 0 then return (← servalSockSetState w i .closed, err)
      else return (w.edit i fun s => { s with state := some .connecting }, -EINPROGRESS)

def servalAccept (w : World) (i : SockPtr) : Option (World × ℤ) := do
  let s ← w.socks i
  if s.skState ≠ .listen then return (w, -EBADFD)
  else match s.acceptQueue with
    | [] => return (w, -EAGAIN)
    | child :: rest =>
      return ((w.edit i fun s => { s with acceptQueue := rest }).edit child fun s =>
        { s with state := some .connected }, 0)

def servalListenStop (w : World) (i : SockPtr) : Option World := do
  let s ← w.socks i
  let w ← s.acceptQueue.foldlM servalSockUnhash w
  return w.edit i fun s => { s with acceptQueue := [] }

/-- `reset` says that the transport protocol asks for a reset. -/
def servalSalClose (w : World) (i : SockPtr) (reset : Bool) : Option World := do
  let s ← w.socks i
  let finish (w : World) : Option World := if reset then servalSockSetState w i .closed else some w
  match s.skState with
  | .closewait => finish (← servalSockSetState w i .lastack)
  | .connected | .respond => finish (← servalSockSetState w i .finwait1)
  | .finwait1 | .finwait2 | .closing | .timewait => return w
  | _ => servalSockSetState w i .closed

def servalRelease (w : World) (i : SockPtr) (reset : Bool) : Option (World × ℤ) := do
  let s ← w.socks i
  let w ← (if s.skState = .listen then do servalSockSetState (← servalListenStop w i) i .closed
    else if s.skState ≠ .closed then servalSalClose w i reset
    else some w)
  return (w.edit i fun s => { s with state := none }, 0)

/-- The socket of a connection that a packet has completed: a copy of the listening socket. -/
def servalSalCreateRespondSock (w : World) (parent i : SockPtr) (flowid : FlowId) (srvid : ServiceId) :
    Option World := do
  let p ← w.socks parent
  let child : ServalSock := { p with
    skState := .respond
    flags := servalSockSetFlag p.flags SSK_FLAG_CHILD
    hashKey := .null
    hashKeyLen := 0
    localFlowid := flowid
    localSrvid := srvid
    linked := false
    acceptQueue := []
    state := none }
  servalSockHash ({ w with socks := Function.update w.socks i (some child) }.edit parent fun p =>
    { p with acceptQueue := p.acceptQueue ++ [i] }) i 0

def follows : SalState → SalState → Bool
  | .closed, _ => false
  | _, .closed => true
  | .init, _ | .listen, _ => false
  | _, s => s != .init && s != .listen && s != .request && s != .respond

inductive Call where
  | create (i : SockPtr) (protocol : UInt8) (flowid : FlowId)
  | bind (i : SockPtr) (addr : SockaddrSv) (addrLen mem : ℕ)
  | listen (i : SockPtr) (srvid : ServiceId) (mem : ℕ)
  | connect (i : SockPtr) (err : ℤ)
  | accept (i : SockPtr)
  | close (i : SockPtr) (reset : Bool)
  | child (parent i : SockPtr) (flowid : FlowId) (srvid : ServiceId)
  | state (i : SockPtr) (newState : SalState)

def Enabled (w : World) : Call → Prop
  | .create i _ _ => w.socks i = none
  | .bind i .. | .listen i .. | .connect i _ | .accept i | .close i _ => ∃ s, w.socks i = some s ∧ s.state ≠ none
  | .child parent i _ _ => w.socks i = none ∧ ∃ p, w.socks parent = some p ∧ p.skState = .listen
  | .state i newState => ∃ s, w.socks i = some s ∧ follows s.skState newState = true

def step (w : World) : Call → Option (World × ℤ)
  | .create i protocol flowid => some (servalCreate w i protocol flowid, 0)
  | .bind i addr addrLen mem => servalBind w i addr addrLen mem
  | .listen i srvid mem => servalListen w i srvid mem
  | .connect i err => servalConnect w i err
  | .accept i => servalAccept w i
  | .close i reset => servalRelease w i reset
  | .child parent i flowid srvid => (servalSalCreateRespondSock w parent i flowid srvid).map (·, 0)
  | .state i newState => (servalSockSetState w i newState).map (·, 0)

end SockTables
