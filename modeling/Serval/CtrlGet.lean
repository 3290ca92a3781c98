import Serval.CtrlService

/-! # Getting a service

`ctrl_handle_get_service_msg`. `none` is a call that writes an address longer than its field, or an entry behind the
end of the message.
-/
namespace CtrlGet

open BitString BstModel BstLayout BstLookup ByteLayout ByteMemory CtrlMessage CtrlService Option CtrlType
open ServiceTargets TargetSets ServiceIterator ServiceTable ServiceTableSpec ServiceRuns ServiceFind ServiceAddresses
open ServiceEntryInvariant (EntryOk)
open List hiding set

/-! ## The handler -/

def serviceIterGetPriority (iter : ServiceIter) : UInt32 :=
  match iter.lastPos, iter.set with
  | some _, some set => set.priority
  | _, _ => 0

def serviceIterGetFlags (iter : ServiceIter) : UInt16 :=
  match iter.lastPos, iter.set with
  | some _, some set => set.flags
  | _, _ => 0

def serviceGetId (nd : BstNode ServiceEntry) : List.Vector UInt8 32 :=
  toVec 32 (nd.nodePrefix.take (prefixSize nd.prefixBits))

def serviceGetPrefixBits (nd : BstNode ServiceEntry) : UInt8 := .ofNat nd.prefixBits

def fillEntry (nd : BstNode ServiceEntry) (iter : ServiceIter) (t : Target) (cres : Mem) (i : ℕ) : Option Mem :=
  let e := infoAt cres i
  if t.dst.length ≤ 4 then
    some (write cres (slotAddr i) (ServiceInfo.toBytes
      { e with
        srvid := serviceGetId nd
        address := toVec 4 (t.dst ++ e.address.toList.drop t.dst.length)
        srvidPrefixBits := serviceGetPrefixBits nd
        srvidFlags := (serviceIterGetFlags iter).toUInt8
        weight := t.weight
        priority := serviceIterGetPriority iter }))
  else none

def fillLoop (nd : BstNode ServiceEntry) (size : ℕ) : ℕ → ServiceIter → ℕ → Mem → Option (Mem × ℕ)
  | 0, _, _, _ => none
  | fuel + 1, iter, i, cres => do
    let (iter, t) ← serviceIterNext iter
    match t with
    | none => return (cres, i)
    | some t =>
      if slotAddr (i + 1) ≤ size then
        let cres ← fillEntry nd iter t cres i
        fillLoop nd size fuel iter (i + 1) cres
      else none

def SVSF_INVALID : UInt8 := 0xFF

def newReply (m : Mem) (size : ℕ) : Mem :=
  let cres : Mem := write (fun _ => 0) 0 [getService.toByte]
  let cres := setLen cres size
  write cres 4 (read m 4 8)

/-- `size` is that of the receive buffer, `alloc` whether there is memory for the answer, and `random` is not used in
this mode of the iterator. -/
def ctrlHandleGetServiceMsg (size : ℕ) (alloc : Bool) (random : ℕ) (tbl : Table) (m : Mem) :
    Option (List (List UInt8)) := do
  let e := infoAt m 0
  match ← serviceFind tbl e.srvid.toList (prefixBits e) with
  | none =>
    let m := write m (slotAddr 0) (ServiceInfo.toBytes { e with srvidFlags := SVSF_INVALID })
    let sent ← ctrlSendmsg size (setRetval m .noentry)
    return [sent]
  | some n =>
    let nd ← tbl.tree.heap n
    let se ← getService tbl n
    if alloc then
      let len := ctrlmsgServiceNumLen se.count.toNat
      let (cres, i) ← fillLoop nd len (iterFuel se) (serviceIterInit se .forward random).1 0 (newReply m len)
      let sent ← ctrlSendmsg len (setRetval cres (if i = 0 then .noentry else .ok))
      return [sent]
    else
      let sent ← ctrlSendmsg size (setRetval m .error)
      return [sent]

/-! ## What is filled in -/

def describe (nd : BstNode ServiceEntry) (set : TargetSet) (t : Target) : ServiceInfo where
  type := 0
  srvidPrefixBits := serviceGetPrefixBits nd
  srvidFlags := set.flags.toUInt8
  ifIndex := 0
  priority := set.priority
  weight := t.weight
  idleTimeout := 0
  hardTimeout := 0
  address := toVec 4 (t.dst ++ (List.replicate 4 0).drop t.dst.length)
  srvid := serviceGetId nd

def infosBytes (infos : List ServiceInfo) : List UInt8 := (infos.map ServiceInfo.toBytes).flatten

@[simp] theorem length_infosBytes (infos : List ServiceInfo) : (infosBytes infos).length = infos.length * 60 := by
  simp [infosBytes, length_flatten, Function.comp_def]

structure Partly (header : List UInt8) (count : ℕ) (cres : Mem) (infos : List ServiceInfo) : Prop where
  header : read cres 0 12 = header
  infos : read cres 12 (count * 60) = infosBytes infos ++ List.replicate ((count - infos.length) * 60) 0

section Fill

variable {header : List UInt8} {count : ℕ} {cres : Mem} {infos : List ServiceInfo}

theorem Partly.slot_zero (h : Partly header count cres infos) (hlt : infos.length < count) :
    slot cres infos.length = List.replicate 60 0 := by
  have hroom : infos.length * 60 + 60 ≤ count * 60 := by omega
  have hslice := read_slice cres 12 hroom
  rw [h.infos, drop_left' (length_infosBytes infos), take_replicate] at hslice
  rw [slot, slotAddr, mul_comm 60, ← hslice, Nat.min_eq_left (by omega)]

theorem ofBytes_zero : ServiceInfo.ofBytes (List.replicate 60 0) =
    ⟨0, 0, 0, 0, 0, 0, 0, 0, toVec 4 [0, 0, 0, 0], toVec 32 (List.replicate 32 0)⟩ := rfl

theorem Partly.fill (h : Partly header count cres infos) (nd : BstNode ServiceEntry) (hlt : infos.length < count)
    {iter : ServiceIter} {set : TargetSet} {pos : List Target} (hset : iter.set = some set)
    (hpos : iter.lastPos = some pos) {t : Target} (hdst : t.dst.length ≤ 4) :
    ∃ cres', fillEntry nd iter t cres infos.length = some cres' ∧
      Partly header count cres' (infos ++ [describe nd set t]) := by
  have hzero : infoAt cres infos.length =
      ⟨0, 0, 0, 0, 0, 0, 0, 0, toVec 4 [0, 0, 0, 0], toVec 32 (List.replicate 32 0)⟩ := by
    rw [infoAt, h.slot_zero hlt, ofBytes_zero]
  have hfill : fillEntry nd iter t cres infos.length =
      some (write cres (slotAddr infos.length) (describe nd set t).toBytes) := by
    simp only [fillEntry, hzero, if_pos hdst, serviceIterGetFlags, serviceIterGetPriority, hset, hpos]
    rfl
  refine ⟨_, hfill, ?_, ?_⟩
  · rw [read_write_disjoint _ _ (.inl (by simp [slotAddr])), h.header]
  · have hleft : count - (infos ++ [describe nd set t]).length = count - infos.length - 1 := by
      rw [length_append, length_singleton]
      omega
    have hsplit : read cres 12 (count * 60) =
        infosBytes infos ++ List.replicate 60 0 ++ List.replicate ((count - infos.length - 1) * 60) 0 := by
      rw [h.infos, append_assoc, replicate_append_replicate]
      congr 2
      omega
    have hwrite := read_write_replace hsplit (show (describe nd set t).toBytes.length = _ by simp)
    rw [length_infosBytes, mul_comm] at hwrite
    rw [hleft, slotAddr, hwrite]
    simp [infosBytes]

theorem fillLoop_spec (nd : BstNode ServiceEntry) (set : TargetSet) (fuel : ℕ) :
    ∀ (iter : ServiceIter) (pos : List Target) (cres : Mem) (infos : List ServiceInfo), iter.mode = .forward →
    iter.set = some set → iter.pos = some pos → pos.length < fuel →
    (∀ t ∈ pos, t.type = .forward → t.dst.length ≤ 4) → infos.length + pos.length ≤ count →
    Partly header count cres infos →
    ∃ cres', fillLoop nd (ctrlmsgServiceNumLen count) fuel iter infos.length cres =
        some (cres', infos.length + (pos.filter (·.type == .forward)).length) ∧
      Partly header count cres' (infos ++ (pos.filter (·.type == .forward)).map (describe nd set)) := by
  induction fuel with
  | zero =>
    intro iter pos cres infos _ _ _ hlt
    omega
  | succ fuel ih =>
    intro iter pos cres infos hmode hset hpos hlt hdst hroom hpartly
    have hlets : pos.filter (·.type == .forward) = pos.filter iter.mode.lets := by
      rw [hmode]
      rfl
    rw [fillLoop, hlets]
    cases hf : pos.filter iter.mode.lets with
    | nil =>
      refine ⟨cres, ?_, by simpa using hpartly⟩
      simp [serviceIterNext, hset, hpos, nextInSet_none hf]
    | cons t ts =>
      obtain ⟨rest, hnext, hrest, hlen⟩ := nextInSet_some hf
      have ht : t ∈ pos.filter iter.mode.lets := hf ▸ mem_cons_self
      have htype : t.type = .forward := by
        have := (mem_filter.mp ht).2
        rw [hmode] at this
        simpa [IterMode.lets] using this
      have hsub : ∀ x ∈ rest.filter iter.mode.lets, x ∈ pos := by
        intro x hx
        rw [hrest] at hx
        exact (mem_filter.mp (hf ▸ mem_cons_of_mem t hx)).1
      obtain ⟨cres', hfill, hpartly'⟩ := hpartly.fill nd (show infos.length < count by omega)
        (show (ServiceIter.mk iter.mode iter.set (some rest) (some pos)).set = some set from hset) rfl
        (hdst t (mem_filter.mp ht).1 htype)
      obtain ⟨cres'', hloop, hpartly''⟩ := ih ⟨iter.mode, iter.set, some rest, some pos⟩ rest cres'
        (infos ++ [describe nd set t]) hmode hset rfl (by omega)
        (fun x hx htx => hdst x (hsub x (mem_filter.mpr ⟨hx, by simp [hmode, IterMode.lets, htx]⟩)) htx)
        (by simp only [length_append, length_singleton]; omega) hpartly'
      have hts : rest.filter (·.type == .forward) = ts := by
        rw [← hrest, hmode]
        rfl
      have hslot : slotAddr (infos.length + 1) ≤ ctrlmsgServiceNumLen count := by
        simp only [slotAddr, ctrlmsgServiceNumLen]
        omega
      rw [hts] at hloop hpartly''
      simp only [length_append, length_singleton] at hloop
      refine ⟨cres'', ?_, by simpa using hpartly''⟩
      simp only [serviceIterNext, hset, hpos, hnext, bind_eq_bind, bind_some, if_pos hslot]
      rw [hset] at hfill hloop
      rw [hfill, bind_some, hloop, length_cons]
      congr 2
      omega

end Fill

/-! ## The reply -/

def described (nd : BstNode ServiceEntry) (se : ServiceEntry) : List ServiceInfo :=
  match se.targetSet with
  | [] => []
  | set :: _ => (set.list.filter (·.type == .forward)).map (describe nd set)

def replyHeader (m : Mem) (retval : Retval) (len : ℕ) : List UInt8 :=
  getService.toByte :: retval.toByte :: (leBytes 2 len ++ read m 4 8)

def reply (m : Mem) (nd : BstNode ServiceEntry) (se : ServiceEntry) : List UInt8 :=
  let infos := described nd se
  let len := ctrlmsgServiceNumLen se.count.toNat
  (replyHeader m (if infos.length = 0 then .noentry else .ok) len ++ infosBytes infos ++
    List.replicate ((se.count.toNat - infos.length) * 60) 0).take (len % 65536)

section Reply

variable {m : Mem} {count : ℕ} {cres : Mem} {infos : List ServiceInfo}

theorem partly_newReply (m : Mem) (len count : ℕ) : Partly (replyHeader m .ok len) count (newReply m len) [] where
  header := by
    have htype : read (write (fun _ => 0) 0 [getService.toByte]) 0 12 =
        [getService.toByte, 0] ++ [0, 0] ++ [0, 0, 0, 0, 0, 0, 0, 0] := rfl
    have hlen := read_write_replace htype (show (leBytes 2 len).length = 2 by simp)
    have hsplit : read (setLen (write (fun _ => 0) 0 [getService.toByte]) len) 0 12 =
        ([getService.toByte, 0] ++ leBytes 2 len) ++ [0, 0, 0, 0, 0, 0, 0, 0] ++ [] := by
      rw [append_nil]
      exact hlen
    have hxids := read_write_replace hsplit (show (read m 4 8).length = 8 by simp)
    simpa [newReply, replyHeader, Retval.toByte] using hxids
  infos := by
    have hread : read (newReply m len) 12 (count * 60) = read (fun _ => 0) 12 (count * 60) := by
      rw [newReply, setLen, read_write_disjoint _ _ (.inr (by simp)), read_write_disjoint _ _ (.inr (by simp)),
        read_write_disjoint _ _ (.inr (by simp))]
    rw [hread, infosBytes]
    simp [ByteMemory.read]

theorem Partly.sent (h : Partly (replyHeader m .ok (ctrlmsgServiceNumLen count)) count cres infos) (retval : Retval) :
    ctrlSendmsg (ctrlmsgServiceNumLen count) (setRetval cres retval) =
      some ((replyHeader m retval (ctrlmsgServiceNumLen count) ++ infosBytes infos ++
        List.replicate ((count - infos.length) * 60) 0).take (ctrlmsgServiceNumLen count % 65536)) := by
  have hsplit : read cres 0 12 = [getService.toByte] ++ [0] ++
      (leBytes 2 (ctrlmsgServiceNumLen count) ++ read m 4 8) := h.header
  have hheader := read_write_replace hsplit (show [retval.toByte].length = 1 from rfl)
  have hinfos : read (setRetval cres retval) 12 (count * 60) =
      infosBytes infos ++ List.replicate ((count - infos.length) * 60) 0 := by
    rw [setRetval, read_write_disjoint _ _ (.inr (by simp)), h.infos]
  have hall : read (setRetval cres retval) 0 (12 + count * 60) = replyHeader m retval (ctrlmsgServiceNumLen count) ++
        (infosBytes infos ++ List.replicate ((count - infos.length) * 60) 0) := by
    rw [read_add, zero_add, hinfos]
    exact congrArg (· ++ _) hheader
  have hlen : lenOf (setRetval cres retval) = ctrlmsgServiceNumLen count % 65536 := by
    have hslice := read_slice (setRetval cres retval) 0 (show 2 + 2 ≤ 12 by decide)
    have hbytes : read (setRetval cres retval) 2 2 = leBytes 2 (ctrlmsgServiceNumLen count) := by
      rw [← hslice, setRetval]
      rw [show (1 : ℕ) = 0 + [getService.toByte].length from rfl, hheader]
      simp
    rw [lenOf, hbytes, leNat_leBytes]
    norm_num
  have hle : ctrlmsgServiceNumLen count % 65536 ≤ 12 + count * 60 := Nat.mod_le _ _
  have htake := read_slice (setRetval cres retval) 0 (show 0 + ctrlmsgServiceNumLen count % 65536 ≤ _ from
    (zero_add _).le.trans hle)
  rw [hall, drop_zero] at htake
  rw [ctrlSendmsg, hlen, if_pos (Nat.mod_le _ _), ← htake, append_assoc]

end Reply

section Get

variable {tbl : Table} {pos : List Bool → Option Ptr} {M : BitMap ServiceEntry} {n : Ptr} {q : List Bool}
  {se : ServiceEntry} {m : Mem}

theorem fill_entry (hok : EntryOk se) (hdst : ∀ t ∈ targets se.targetSet, t.type = .forward → t.dst.length ≤ 4)
    (nd : BstNode ServiceEntry) (random : ℕ) (m : Mem) :
    ∃ cres, fillLoop nd (ctrlmsgServiceNumLen se.count.toNat) (iterFuel se) (serviceIterInit se .forward random).1 0
        (newReply m (ctrlmsgServiceNumLen se.count.toNat)) = some (cres, (described nd se).length) ∧
      Partly (replyHeader m .ok (ctrlmsgServiceNumLen se.count.toNat)) se.count.toNat cres (described nd se) := by
  have hstart := partly_newReply m (ctrlmsgServiceNumLen se.count.toNat) se.count.toNat
  cases hs : se.targetSet with
  | nil =>
    refine ⟨_, ?_, by simpa [described, hs] using hstart⟩
    simp [iterFuel, firstTargets, serviceIterInit, hs, described, fillLoop, serviceIterNext]
  | cons set rest =>
    have hcount : se.count.toNat = set.list.length + (targets rest).length := by
      rw [hok.count, hs, targets_cons, length_append]
    have hne : se.count ≠ 0 := by
      intro h0
      have hfill := length_pos_iff.mpr (hok.filled set (by simp [hs]))
      rw [h0] at hcount
      simp at hcount
      omega
    have hsub : ∀ t ∈ set.list, t ∈ targets se.targetSet := by
      intro t ht
      rw [hs, targets_cons]
      exact mem_append_left _ ht
    obtain ⟨cres, hloop, hpartly⟩ := fillLoop_spec nd set (iterFuel se)
      ⟨.forward, some set, some set.list, none⟩ set.list _ [] rfl rfl rfl
      (by simp [iterFuel, firstTargets, hs, hne]) (fun t ht => hdst t (hsub t ht)) (by simp [hcount]) hstart
    refine ⟨cres, ?_, by simpa [described, hs] using hpartly⟩
    simpa [serviceIterInit, hs, hne, described] using hloop

theorem get_spec (hrep : TableRep tbl pos M) (hok : EntryOk se) (hq : pos q = some n) (hl : M.lookup q = some se)
    (hfind : serviceFind tbl (infoAt m 0).srvid.toList (prefixBits (infoAt m 0)) = some (some n))
    (hdst : ∀ t ∈ targets se.targetSet, t.type = .forward → t.dst.length ≤ 4) (size random : ℕ) :
    ∃ nd, NodeOk pos q nd ∧ ctrlHandleGetServiceMsg size true random tbl m = some [reply m nd se] := by
  obtain ⟨nd, hnd, hnode⟩ := hrep.node q n hq
  have hentry : getService tbl n = some se := (getService_spec hrep hq).trans hl
  obtain ⟨cres, hloop, hpartly⟩ := fill_entry hok hdst nd random m
  refine ⟨nd, hnode, ?_⟩
  simp [ctrlHandleGetServiceMsg, hfind, hnd, hentry, hloop, hpartly.sent, reply]

theorem bitsOf_serviceGetId {nd : BstNode ServiceEntry} (hnode : NodeOk pos q nd) (hq : q.length ≤ 256) :
    bitsOf (serviceGetId nd).toList q.length = q := by
  nth_rewrite 2 [← hnode.stored.path]
  apply bitsOf_congr
  intro i hi
  have hsize : i / 8 < prefixSize nd.prefixBits := by
    rw [hnode.depth]
    unfold prefixSize prefixByte
    split <;> omega
  have hbyte : (serviceGetId nd).toList.getD (i / 8) 0 = nd.nodePrefix.getD (i / 8) 0 := by
    rw [serviceGetId, getD_toVec _ (by omega), getD_eq_getElem?_getD, getElem?_take_of_lt hsize, getD_eq_getElem?_getD]
  rw [bitAt, bitAt, hbyte]

end Get

def forwards (sets : List TargetSet) : List (TargetSet × Target) :=
  sets.flatMap fun set => (set.list.filter (·.type == .forward)).map (set, ·)

def Describes (q : List Bool) (st : TargetSet × Target) (info : ServiceInfo) : Prop :=
  info.address.toList = st.2.dst ∧ info.weight = st.2.weight ∧ info.priority = st.1.priority ∧
    info.srvidFlags.toNat = st.1.flags.toNat ∧ bitsOf info.srvid.toList q.length = q ∧
    info.srvidPrefixBits.toNat = q.length

/-- A `service_info` that is not filled in. -/
def unfilled : ServiceInfo := ⟨0, 0, 0, 0, 0, 0, 0, 0, toVec 4 [0, 0, 0, 0], toVec 32 (List.replicate 32 0)⟩

/-- The values of the FORWARD targets fit into the message, and their number into its length. Of other targets there are
none, or so many that the 16 bits of the length do not show them. A FORWARD target outside of the first set is one that
zeros describe. -/
structure Listed (q : List Bool) (se : ServiceEntry) : Prop where
  fits : ∀ st ∈ forwards se.targetSet, st.2.dst.length = 4 ∧ st.1.flags.toNat < 2 ^ 8 ∧ q.length < 2 ^ 8
  few : (forwards se.targetSet).length ≤ 1092
  others : ((targets se.targetSet).filter (·.type != .forward)).length % 16384 = 0
  lower : ∀ st ∈ forwards se.targetSet.tail, Describes q st unfilled

section Listed

variable {pos : List Bool → Option Ptr} {q : List Bool} {se : ServiceEntry} {nd : BstNode ServiceEntry}
  {infos : List ServiceInfo}

theorem forwards_cons (set : TargetSet) (sets : List TargetSet) :
    forwards (set :: sets) = (set.list.filter (·.type == .forward)).map (set, ·) ++ forwards sets := flatMap_cons

theorem count_forwards (sets : List TargetSet) :
    (forwards sets).length + ((targets sets).filter (·.type != .forward)).length = (targets sets).length := by
  induction sets with
  | nil => rfl
  | cons set sets ih =>
    have hset := length_eq_length_filter_add (l := set.list) (·.type == .forward)
    simp only [forwards_cons, targets_cons, filter_append, length_append, length_map]
    simp only [bne] at ih ⊢
    omega

theorem mem_forwards {sets : List TargetSet} {t : Target} (ht : t ∈ targets sets) (htype : t.type = .forward) :
    ∃ set, (set, t) ∈ forwards sets := by
  obtain ⟨set, hset, ht⟩ := mem_flatMap.mp ht
  exact ⟨set, mem_flatMap.mpr ⟨set, hset, mem_map_of_mem (mem_filter.mpr ⟨ht, by simp [htype]⟩)⟩⟩

theorem describes_describe (hnode : NodeOk pos q nd) (hq : q.length < 2 ^ 8) {set : TargetSet} {t : Target}
    (hflags : set.flags.toNat < 2 ^ 8) (hdst : t.dst.length = 4) : Describes q (set, t) (describe nd set t) := by
  refine ⟨?_, rfl, rfl, ?_, bitsOf_serviceGetId hnode (by omega), ?_⟩
  · rw [describe, hdst, drop_of_length_le (by simp), append_nil]
    exact toList_toVec hdst
  · exact (UInt16.toNat_toUInt8 set.flags).trans (Nat.mod_eq_of_lt hflags)
  · rw [describe, serviceGetPrefixBits, hnode.depth]
    exact UInt8.toNat_ofNat_of_lt' hq

theorem fits_of_describes (h : List.Forall₂ (Describes q) (forwards se.targetSet) infos) :
    ∀ st ∈ forwards se.targetSet, st.2.dst.length = 4 ∧ st.1.flags.toNat < 2 ^ 8 ∧ q.length < 2 ^ 8 := by
  intro st hst
  obtain ⟨i, hi, rfl⟩ := mem_iff_getElem.mp hst
  obtain ⟨haddress, -, -, hflags, -, hbits⟩ := h.get hi (h.length_eq ▸ hi)
  refine ⟨haddress ▸ List.Vector.toList_length _, hflags ▸ UInt8.toNat_lt _, hbits ▸ UInt8.toNat_lt _⟩

/-- The part of the message that its length lets through. -/
def listed (nd : BstNode ServiceEntry) (se : ServiceEntry) : List ServiceInfo :=
  described nd se ++ (forwards se.targetSet.tail).map fun _ => unfilled

theorem forwards_described (nd : BstNode ServiceEntry) (se : ServiceEntry) :
    (forwards se.targetSet).length = (described nd se).length + (forwards se.targetSet.tail).length := by
  unfold described
  cases se.targetSet with
  | nil => rfl
  | cons set rest => simp [forwards_cons]

/-- Each description that is filled in or is not is right where the values fit and zeros do for the lower sets. -/
theorem listed_iff (hnode : NodeOk pos q nd)
    (hfits : ∀ st ∈ forwards se.targetSet, st.2.dst.length = 4 ∧ st.1.flags.toNat < 2 ^ 8 ∧ q.length < 2 ^ 8) :
    List.Forall₂ (Describes q) (forwards se.targetSet) (listed nd se) ↔
      ∀ st ∈ forwards se.targetSet.tail, Describes q st unfilled := by
  unfold listed described
  cases hs : se.targetSet with
  | nil => simp [forwards]
  | cons set rest =>
    rw [hs] at hfits
    have hfirst : List.Forall₂ (Describes q) ((set.list.filter (·.type == .forward)).map (set, ·))
        ((set.list.filter (·.type == .forward)).map (describe nd set)) := by
      simp only [forall₂_map_left_iff, forall₂_map_right_iff, forall₂_same]
      intro t ht
      obtain ⟨hdst, hflags, hq⟩ := hfits (set, t) (forwards_cons .. ▸ mem_append_left _ (mem_map_of_mem ht))
      exact describes_describe hnode hq hflags hdst
    have hlower : List.Forall₂ (Describes q) (forwards rest) ((forwards rest).map fun _ => unfilled) ↔
        ∀ st ∈ forwards rest, Describes q st unfilled := by
      rw [forall₂_map_right_iff, forall₂_same]
    rw [forwards_cons, tail_cons, ← hlower]
    refine ⟨fun h => ?_, fun h => rel_append hfirst h⟩
    have hdrop := forall₂_drop (set.list.filter (·.type == .forward)).length h
    rwa [drop_left' (by simp), drop_left' (by simp)] at hdrop

theorem length_reply (m : Mem) (hle : (described nd se).length ≤ se.count.toNat) :
    (reply m nd se).length = ctrlmsgServiceNumLen se.count.toNat % 65536 := by
  simp only [reply, length_take, length_append, length_infosBytes, length_replicate, replyHeader, length_cons,
    length_leBytes, length_read, ctrlmsgServiceNumLen]
  omega

/-- Where the length is that of the FORWARD targets, the reply is a message of as many descriptions. -/
theorem reply_listed (m : Mem) (hle : (forwards se.targetSet).length ≤ se.count.toNat)
    (hlen : ctrlmsgServiceNumLen se.count.toNat % 65536 = ctrlmsgServiceNumLen (forwards se.targetSet).length) :
    reply m nd se = serviceMessage getService.toByte (if (described nd se).length = 0 then .noentry else .ok)
      (read m 4 8) (listed nd se) := by
  have hnum := forwards_described nd se
  have hzeros : infosBytes ((forwards se.targetSet.tail).map fun _ => unfilled) =
      List.replicate ((forwards se.targetSet.tail).length * 60) 0 := by
    rw [infosBytes, List.map_map, Function.comp_def, map_const', show unfilled.toBytes = List.replicate 60 0 by decide,
      flatten_replicate_replicate]
  have hsplit : (se.count.toNat - (described nd se).length) * 60 =
      (forwards se.targetSet.tail).length * 60 + (se.count.toNat - (forwards se.targetSet).length) * 60 := by
    omega
  have hbytes : leBytes 2 (ctrlmsgServiceNumLen se.count.toNat) = leBytes 2
    (ctrlmsgServiceNumLen (listed nd se).length) := by
    rw [← leBytes_mod, show 256 ^ 2 = 65536 from rfl, hlen, hnum, listed, length_append, length_map]
  simp only [reply, hsplit]
  rw [← replicate_append_replicate, ← hzeros, ← append_assoc, take_left']
  · simp [serviceMessage, replyHeader, hbytes, listed, infosBytes]
  · rw [hlen, hnum]
    simp [replyHeader, ctrlmsgServiceNumLen]
    omega

end Listed

theorem find_longest {tbl : Table} {pos : List Bool → Option Ptr} {M : BitMap ServiceEntry}
    (hrep : TableRep tbl pos M) {srvid : List UInt8} {bits : ℕ} {q : List Bool}
    (hlong : IsLongest (fun r => entryAt tbl r ≠ none) (bitsOf srvid bits) q) :
    ∃ n, pos q = some n ∧ serviceFind tbl srvid bits = some (some n) := by
  have hentry : ∀ r, entryAt tbl r ≠ none ↔ ∃ se, M.lookup r = some se ∧ RuleMatch.any.func se = some true := by
    intro r
    rw [entryAt_eq hrep, ne_none_iff_exists']
    simp [RuleMatch.func, serviceEntryAnyMatch]
  obtain ⟨r, hfind, hr⟩ := find_spec hrep srvid bits (m := .any) (by decide)
  cases r with
  | none =>
    obtain ⟨se, hl, hmatch⟩ := (hentry q).mp hlong.holds
    exact absurd hmatch (hr q se hlong.isPrefix hl)
  | some n =>
    obtain ⟨q', hq', hlong'⟩ := hr
    have hqq : q' = q := hlong'.unique
      ⟨hlong.isPrefix, (hentry q).mp hlong.holds, fun r hr hs => hlong.longest r hr ((hentry r).mpr hs)⟩
    subst hqq
    exact ⟨n, hq', hfind⟩

/-- The reply has one description for each FORWARD target, and its length is that of them, exactly if the entry is one
that the reply can list. -/
theorem get_replies_exact {tbl : Table} (h : Reachable Careful tbl) (m : Mem) (size random : ℕ) (q : List Bool)
    (se : ServiceEntry) (hse : entryAt tbl q = some se)
    (hlong : IsLongest (fun r => entryAt tbl r ≠ none) (bitsOf (infoAt m 0).srvid.toList (prefixBits (infoAt m 0))) q) :
    (∃ msg retval infos, ctrlHandleGetServiceMsg size true random tbl m = some [msg] ∧
      msg = serviceMessage getService.toByte retval (read m 4 8) infos ∧
      List.Forall₂ (Describes q) (forwards se.targetSet) infos ∧
      leNat ((msg.drop 2).take 2) = 12 + 60 * infos.length) ↔ Listed q se := by
  obtain ⟨pos, M, hrep, hok⟩ := reachable_mapOk h
  obtain ⟨n, hq, hfind⟩ := find_longest hrep hlong
  have hl : M.lookup q = some se := (entryAt_eq hrep q).symm.trans hse
  have heok := hok.entry q se hl
  have hcount := count_forwards se.targetSet
  rw [← heok.count] at hcount
  have hget (hfits : ∀ st ∈ forwards se.targetSet, st.2.dst.length = 4 ∧ st.1.flags.toNat < 2 ^ 8 ∧ q.length < 2 ^ 8) :=
    get_spec (m := m) hrep heok hq hl hfind (fun t ht htype => by
      obtain ⟨set, hst⟩ := mem_forwards ht htype
      exact (hfits _ hst).1.le) size random
  constructor
  · rintro ⟨msg, retval, infos, hrun, hmsg, hdescribes, -⟩
    have hfits := fits_of_describes hdescribes
    obtain ⟨nd, hnode, hreply⟩ := hget hfits
    obtain rfl : reply m nd se = msg := by simpa [hreply] using hrun
    have hnum := forwards_described nd se
    have hlen := congrArg List.length hmsg
    rw [length_reply m (by omega)] at hlen
    have hlen' : ctrlmsgServiceNumLen se.count.toNat % 65536 = ctrlmsgServiceNumLen (forwards se.targetSet).length := by
      rw [hlen, hdescribes.length_eq]
      simp [serviceMessage, ctrlmsgServiceNumLen, length_flatten, Function.comp_def]
      omega
    rw [reply_listed m (by omega) hlen'] at hmsg
    have hinfos := serviceMessage_infos (by rw [← hdescribes.length_eq, hnum, listed]; simp) hmsg
    simp only [ctrlmsgServiceNumLen] at hlen'
    exact ⟨hfits, by omega, by omega, (listed_iff hnode hfits).mp (hinfos ▸ hdescribes)⟩
  · intro hlisted
    obtain ⟨nd, hnode, hreply⟩ := hget hlisted.fits
    have hfew := hlisted.few
    have hothers := hlisted.others
    have hlen : ctrlmsgServiceNumLen se.count.toNat % 65536 = ctrlmsgServiceNumLen (forwards se.targetSet).length := by
      simp only [ctrlmsgServiceNumLen]
      omega
    have hdescribes := (listed_iff hnode hlisted.fits).mpr hlisted.lower
    refine ⟨_, _, _, hreply, reply_listed m (by omega) hlen, hdescribes, ?_⟩
    rw [reply_listed m (by omega) hlen, ← hdescribes.length_eq]
    have hbytes : leNat (leBytes 2 (ctrlmsgServiceNumLen (listed nd se).length)) = 12 + 60 * (listed nd se).length := by
      rw [leNat_leBytes, ← hdescribes.length_eq, ctrlmsgServiceNumLen]
      omega
    rw [hdescribes.length_eq, ← hbytes]
    simp [serviceMessage]

namespace Sample

open ServiceRuns.Sample

def request : Mem := write (write (fun _ => 0) 0 [getService.toByte, 0, 72, 0]) 40 srvid

def addBetter : Op := .add (some srvid) 1 .forward 0 1 1 (some ⟨4096, [10, 0, 0, 2]⟩) 4 (.oif 1) 8

def twoSets : Table := resultOf oneRule addBetter

def rule : Target := ⟨.forward, 1, {}, .oif 1, [10, 0, 0, 1]⟩

def entry : ServiceEntry := ⟨[⟨[rule], 1, 0, 0, 1⟩], 1⟩

theorem oneRule_careful : Reachable Careful oneRule :=
  .step (addRule 1) .init ⟨rfl, by decide⟩ ⟨by decide, fun se hse => by cases hse⟩ oneRule_run

theorem longest : IsLongest (fun r => entryAt oneRule r ≠ none)
    (bitsOf (infoAt request 0).srvid.toList (prefixBits (infoAt request 0))) [true] := by
  have hkey : bitsOf (infoAt request 0).srvid.toList (prefixBits (infoAt request 0)) = bitsOf srvid 256 := by
    decide +kernel
  rw [hkey]
  refine ⟨⟨(bitsOf srvid 256).tail, rfl⟩, by decide, ?_⟩
  intro r hr hsome
  rw [entry_of_single rfl (by decide) hr hsome]

theorem entry_listed : Listed [true] entry where
  fits := by decide
  few := by decide
  others := by decide
  lower := fun _ h => nomatch h

end Sample

open Sample in
theorem get_replies_exact_rule : ∃ msg retval infos,
    ctrlHandleGetServiceMsg 2048 true 0 ServiceRuns.Sample.oneRule request = some [msg] ∧
      msg = serviceMessage getService.toByte retval (read request 4 8) infos ∧
      List.Forall₂ (Describes [true]) (forwards entry.targetSet) infos ∧
      leNat ((msg.drop 2).take 2) = 12 + 60 * infos.length :=
  (get_replies_exact oneRule_careful request 2048 0 [true] entry rfl longest).mpr entry_listed

open Sample in
/-- The reply has the length for both rules, the one of the higher priority, and zeros for the other. -/
theorem get_misses_second_set : (entryAt twoSets [true]).map (fun se => (forwards se.targetSet).length) = some 2 ∧
    ∃ msg, ctrlHandleGetServiceMsg 2048 true 0 twoSets request = some [msg] ∧ leNat ((msg.drop 2).take 2) = 132 ∧
      ((msg.drop 36).take 4, msg.drop 72) = ([10, 0, 0, 2], List.replicate 60 0) := by
  refine ⟨by decide, (ctrlHandleGetServiceMsg 2048 true 0 twoSets request).getD [] |>.headD [], ?_⟩
  decide +kernel

/-! ## What was added is found -/

variable {h : CtrlService.Host} {tbl tbl' : Table} {i n size : ℕ} {m : Mem} {es made : List ServiceInfo}

theorem addOne_reaches {e : ServiceInfo} {done : Bool} (hone : addOne h tbl i e = some (tbl', done))
    (hreach : Reachable Ipv4 tbl) (hroom : Roomy (n + 1) tbl) (htype : ruleType e.type = .forward) :
    Reachable Ipv4 tbl' ∧ Roomy n tbl' := by
  obtain ⟨_, _, hone', hreach', hroom', -⟩ := addOne_spec h hreach hroom i htype
  cases hone.symm.trans hone'
  exact ⟨hreach', hroom'⟩

theorem added_targets (hadded : Added h i tbl es tbl' made) (hreach : Reachable Ipv4 tbl) (hroom : Roomy es.length tbl)
    (htype : ∀ e ∈ es, ruleType e.type = .forward) :
    Reachable Ipv4 tbl' ∧ (∀ q t, t ∈ targetsAt tbl q → t ∈ targetsAt tbl' q) ∧
      ∀ e ∈ made, ∃ t ∈ targetsAt tbl' (prefixOf e), t.type = .forward ∧ t.dst = e.address.toList := by
  induction hadded with
  | nil => exact ⟨hreach, fun _ _ ht => ht, by simp⟩
  | @created _ _ _ _ e _ _ hone hcreated _ ih =>
    rw [forall_mem_cons] at htype
    obtain ⟨hreach₁, hroom₁⟩ := addOne_reaches hone hreach hroom htype.1
    obtain ⟨hreach', hkept, hmade⟩ := ih hreach₁ hroom₁ htype.2
    obtain ⟨t, hforward, hdst, -, hperm⟩ := hcreated.target
    refine ⟨hreach', fun q u hu => hkept q u ?_, forall_mem_cons.mpr ⟨?_, hmade⟩⟩
    · by_cases hq : q = prefixOf e
      · rw [hq] at hu ⊢
        exact hperm.mem_iff.mpr (mem_cons_of_mem t hu)
      · rwa [targetsAt, hcreated.others q hq]
    · exact ⟨t, hkept _ t (hperm.mem_iff.mpr mem_cons_self), hforward, hdst⟩
  | refused hone hsame _ ih =>
    rw [forall_mem_cons] at htype
    obtain ⟨hreach₁, hroom₁⟩ := addOne_reaches hone hreach hroom htype.1
    obtain ⟨hreach', hkept, hmade⟩ := ih hreach₁ hroom₁ htype.2
    exact ⟨hreach', fun q u hu => hkept q u (by rwa [targetsAt, hsame]), hmade⟩

/-- A rule that the reply lists is used: its address is a FORWARD target of what `service_find` returns for every
service whose longest prefix it is. -/
theorem added_found (hreach : Reachable Ipv4 tbl) (hroom : Roomy n tbl)
    (hlen : lenOf m = ctrlmsgServiceNumLen n) (hsize : ctrlmsgServiceNumLen n ≤ size)
    (htype : ∀ e ∈ entries m 0 n, ruleType e.type = .forward) :
    ∃ tbl' m' made reply, ctrlHandleAddServiceMsg h size tbl m = some (tbl', m', [reply]) ∧ Reports m made reply ∧
      ∀ e ∈ made, ∀ key bits, IsLongest (fun q => entryAt tbl' q ≠ none) (bitsOf key bits) (prefixOf e) →
        ∃ nd se t, serviceFind tbl' key bits = some (some nd) ∧ getService tbl' nd = some se ∧
          t ∈ targets se.targetSet ∧ t.type = .forward ∧ t.dst = e.address.toList := by
  have hslots : slotAddr (0 + n) ≤ size := by
    simp only [ctrlmsgServiceNumLen, slotAddr] at hsize ⊢
    omega
  obtain ⟨tbl', is, hpassed, hadded⟩ := passed_added h hreach hroom hslots htype
  obtain ⟨m', hrun⟩ := addHandler_eq h hlen hsize hpassed
  obtain ⟨hreach', -, hmade⟩ := added_targets hadded hreach (by simpa [entries] using hroom) htype
  obtain ⟨pos, M, hrep, -⟩ := reachable_addressed hreach'
  refine ⟨tbl', m', _, _, hrun, reports_entriesReply _ (hlen ▸ Nat.le_add_right ..), fun e he key bits hlong => ?_⟩
  obtain ⟨nd, hnd, hfind⟩ := find_longest hrep hlong
  obtain ⟨t, ht, hforward, hdst⟩ := hmade e he
  obtain ⟨se, hse⟩ := ne_none_iff_exists'.mp hlong.holds
  refine ⟨nd, se, t, hfind, ?_, by simpa [targetsAt, hse] using ht, hforward, hdst⟩
  rw [getService_spec hrep hnd, ← entryAt_eq hrep, hse]

open CtrlService.Sample in
theorem added_found_two : ∃ tbl' m' made reply, ctrlHandleAddServiceMsg host 2048 serviceTableInit
      (message .addService [info 1, info 2]) = some (tbl', m', [reply]) ∧ made ≠ [] ∧
    ∀ e ∈ made, ∀ key bits, IsLongest (fun q => entryAt tbl' q ≠ none) (bitsOf key bits) (prefixOf e) →
      ∃ nd se t, serviceFind tbl' key bits = some (some nd) ∧ getService tbl' nd = some se ∧
        t ∈ targets se.targetSet ∧ t.type = .forward ∧ t.dst = e.address.toList := by
  obtain ⟨tbl', m', made, reply, hrun, hreports, hfound⟩ := @added_found host _ 2 2048
    (message .addService [info 1, info 2]) .init (init_roomy.mono (by decide)) (by decide +kernel) (by decide)
    (by decide +kernel)
  have hok : (ctrlHandleAddServiceMsg host 2048 serviceTableInit (message .addService [info 1, info 2])).map
      (fun out => out.2.2.map (·[1]?)) = some [some Retval.ok.toByte] := by decide +kernel
  refine ⟨tbl', m', made, reply, hrun, fun hnil => ?_, hfound⟩
  rw [hrun] at hok
  simp [hreports.noentry.mpr hnil, Retval.toByte] at hok

end CtrlGet
