import Serval.CtrlMessage

/-! # Statistics of flows

`ctrl_handle_stats_query_msg`. `struct flow_info` is not packed; every record is written 9 bytes beyond the size that
`kmalloc` was asked for.
-/
namespace CtrlStats

open ByteLayout ByteMemory CtrlMessage List CtrlType

abbrev FlowId := List.Vector UInt8 4

def IPPROTO_TCP : UInt8 := 6

/-! ## Records -/

structure TcpSock where
  totalRetrans : UInt32
  lostOut : UInt32
  srtt : UInt32
  mdev : UInt32
  mssCache : UInt32
  sndSsthresh : UInt32
  sndCwnd : UInt32
  sndWnd : UInt32
  sndUna : UInt32
  sndNxt : UInt32
  rcvWnd : UInt32
  rcvNxt : UInt32
  deriving DecidableEq

structure Sock where
  protocol : UInt8
  totPktsSent : UInt64
  totPktsRecv : UInt64
  totBytesSent : UInt64
  totBytesRecv : UInt64
  tcp : TcpSock
  deriving DecidableEq

def TcpSock.fields (tsk : TcpSock) : List (List UInt8) :=
  [tsk.totalRetrans, tsk.lostOut, tsk.srtt, tsk.mdev, tsk.mssCache, tsk.sndWnd, tsk.sndCwnd, tsk.sndSsthresh,
    tsk.sndUna, tsk.sndNxt, tsk.rcvWnd, tsk.rcvNxt].map fun x => leBytes 4 x.toNat

structure FlowInfo where
  flow : FlowId
  sk : Sock
  deriving DecidableEq

namespace FlowInfo

def isTcp (info : FlowInfo) : Prop := info.sk.protocol = IPPROTO_TCP

instance (info : FlowInfo) : Decidable info.isTcp := inferInstanceAs (Decidable (_ = _))

/-- The sizes of the fields, and not that of the structure. -/
def len (info : FlowInfo) : ℕ :=
  4 + 1 + 8 + 2 + if info.isTcp then 32 + 48 else 32

/-- The fields up to the packet counters, with the padding in front of `inode` and of `stats`; there is no inode
outside the kernel. -/
def front (info : FlowInfo) : List (List UInt8) :=
  [info.flow.toList, [info.sk.protocol], [0, 0, 0], leBytes 8 0, leBytes 2 info.len, [0, 0, 0, 0, 0, 0],
    leBytes 8 info.sk.totPktsSent.toNat, leBytes 8 info.sk.totPktsRecv.toNat]

def byteCounters (info : FlowInfo) : List (List UInt8) :=
  [leBytes 8 info.sk.totBytesSent.toNat, leBytes 8 info.sk.totBytesRecv.toNat]

def toBytes (info : FlowInfo) : List UInt8 :=
  info.front.flatten ++ info.byteCounters.flatten ++ if info.isTcp then info.sk.tcp.fields.flatten else []

def copied (info : FlowInfo) : List UInt8 := info.toBytes.take info.len

end FlowInfo

def servalSockStatsFlow (lookup : FlowId → Option Sock) (flow : FlowId) : Option FlowInfo :=
  (lookup flow).map fun sk => ⟨flow, sk⟩

/-! ## The handler -/

def STATS_RESP_F_MORE : UInt8 := 1

def BUFSIZE : ℕ := 2048

def infoSize : ℕ := BUFSIZE - 8 - 1

/-- `CTRLMSG_STATS_NUM_FLOWS`: the difference has 64 bits and no sign, the result is an `int`. -/
def ctrlmsgStatsNumFlows (csm : Mem) : ℤ :=
  (BitVec.ofNat 32 ((2 ^ 64 + lenOf csm - 8) % 2 ^ 64 / 4)).toInt

def queriedFlows (csm : Mem) : List FlowId :=
  (List.range (ctrlmsgStatsNumFlows csm).toNat).map fun i => toVec 4 (read csm (8 + 4 * i) 4)

def memsetZero (temp : Mem) : Mem := fun a => if a < BUFSIZE then 0 else temp a

/-- The type and the length, which counts one of the two bytes behind the common header. -/
def setHeader (temp : Mem) (offset : ℕ) : Mem :=
  setLen (write temp 0 [statsResp.toByte]) (8 + 1 + offset)

def setMore (temp : Mem) : Mem := write temp 8 [temp 8 ||| STATS_RESP_F_MORE]

def appendInfo (temp : Mem) (offset : ℕ) (info : FlowInfo) : Mem :=
  let temp := write temp (10 + offset) info.copied
  write temp 9 [temp 9 + 1]

def statsLoop (lookup : FlowId → Option Sock) : List FlowId → Mem → ℕ → Option (List (List UInt8))
  | [], temp, offset => do
    let last ← ctrlSendmsg BUFSIZE (setHeader temp offset)
    return [last]
  | flow :: flows, temp, offset =>
    match servalSockStatsFlow lookup flow with
    | none => statsLoop lookup flows temp offset
    | some info =>
      if infoSize - offset < info.len then do
        let sent ← ctrlSendmsg BUFSIZE (setMore (setHeader temp offset))
        let rest ← statsLoop lookup flows (appendInfo (memsetZero (setMore (setHeader temp offset))) 0 info) info.len
        return sent :: rest
      else statsLoop lookup flows (appendInfo temp offset info) (offset + info.len)

def ctrlHandleStatsQueryMsg (lookup : FlowId → Option Sock) (temp csm : Mem) : Option (List (List UInt8)) :=
  statsLoop lookup (queriedFlows csm) (memsetZero temp) 0

/-! ## Packing

Items are packed in their order, each into the current group unless that would become larger than the limit.
-/

section Packing

variable {α : Type*} (size : α → ℕ) (limit : ℕ)

def pack : List α → List α → List (List α) × List α
  | group, [] => ([], group)
  | group, x :: xs =>
    if limit < (group.map size).sum + size x then
      let packed := pack [x] xs
      (group :: packed.1, packed.2)
    else pack (group ++ [x]) xs

theorem pack_flatten (group xs : List α) :
    (pack size limit group xs).1.flatten ++ (pack size limit group xs).2 = group ++ xs := by
  induction xs generalizing group with
  | nil => simp [pack]
  | cons x xs ih =>
    rw [pack]
    split
    · simp [ih [x]]
    · simp [ih (group ++ [x])]

theorem pack_le {group xs : List α} (hgroup : (group.map size).sum ≤ limit) (hxs : ∀ x ∈ xs, size x ≤ limit) :
    ∀ g ∈ (pack size limit group xs).1 ++ [(pack size limit group xs).2], (g.map size).sum ≤ limit := by
  induction xs generalizing group with
  | nil => simpa [pack] using hgroup
  | cons x xs ih =>
    have hrest : ∀ y ∈ xs, size y ≤ limit := fun y hy => hxs y (mem_cons_of_mem x hy)
    rw [pack]
    split
    case isTrue =>
      have hx : ([x].map size).sum ≤ limit := by simpa using hxs x mem_cons_self
      intro g hg
      rcases mem_cons.mp hg with rfl | hg
      · exact hgroup
      · exact ih hx hrest g hg
    case isFalse hfits => exact ih (by simpa using hfits) hrest

end Packing

/-! ## The messages that are sent -/

namespace FlowInfo

variable (info : FlowInfo)

theorem length_toBytes : info.toBytes.length = info.len + 9 := by
  unfold toBytes len
  split <;> simp [front, byteCounters, TcpSock.fields]

@[simp] theorem length_copied : info.copied.length = info.len := by
  rw [copied, length_take, length_toBytes]
  omega

theorem len_le : info.len ≤ 95 := by
  unfold len
  split <;> omega

theorem le_len : 47 ≤ info.len := by
  unfold len
  split <;> omega

end FlowInfo

def total (group : List FlowInfo) : ℕ := (group.map FlowInfo.len).sum

def infosBytes (group : List FlowInfo) : List UInt8 := (group.map FlowInfo.copied).flatten

theorem length_infosBytes (group : List FlowInfo) : (infosBytes group).length = total group := by
  simp [infosBytes, total, length_flatten, Function.comp_def]

def responseHeader (flags : UInt8) (group : List FlowInfo) : List UInt8 :=
  [statsResp.toByte, 0] ++ leBytes 2 (9 + total group) ++ [0, 0, 0, 0, flags, UInt8.ofNat group.length]

def response (flags : UInt8) (group : List FlowInfo) : List UInt8 :=
  (responseHeader flags group ++ infosBytes group).take (9 + total group)

structure Filled (temp : Mem) (group : List FlowInfo) : Prop where
  header : read temp 0 10 = [0, 0, 0, 0, 0, 0, 0, 0, 0, UInt8.ofNat group.length]
  infos : read temp 10 (total group) = infosBytes group

section Sending

variable {temp : Mem} {group : List FlowInfo}

theorem filled_memsetZero (temp : Mem) : Filled (memsetZero temp) [] where
  header := by simp [ByteMemory.read, memsetZero, BUFSIZE, range_succ]
  infos := rfl

theorem Filled.appendInfo (h : Filled temp group) (info : FlowInfo) :
    Filled (appendInfo temp (total group) info) (group ++ [info]) := by
  set temp₁ := write temp (10 + total group) info.copied with htemp₁
  have hsplit : read temp₁ 0 10 = [0, 0, 0, 0, 0, 0, 0, 0, 0] ++ [UInt8.ofNat group.length] ++ [] := by
    rw [htemp₁, read_write_disjoint _ _ (.inl (by omega)), h.header]
    rfl
  have hnum : temp₁ 9 = UInt8.ofNat group.length := byte_of_read hsplit
  constructor
  · have hread := read_write_replace hsplit (show [temp₁ 9 + 1].length = 1 from rfl)
    rw [hnum] at hread
    simpa [CtrlStats.appendInfo, ← htemp₁, hnum] using hread
  · have htotal : total (group ++ [info]) = total group + info.len := by simp [total]
    have hread := read_write_end temp 10 (total group) info.copied
    rw [info.length_copied, h.infos] at hread
    rw [htotal, CtrlStats.appendInfo, read_write_disjoint _ _ (.inr (by simp)), hread]
    simp [infosBytes]

theorem read_header (h : Filled temp group) : read (setHeader temp (total group)) 0 10 = responseHeader 0 group := by
  have hsplit : read temp 0 10 = [] ++ [0] ++ [0, 0, 0, 0, 0, 0, 0, 0, UInt8.ofNat group.length] := h.header
  have htype : read (write temp 0 [statsResp.toByte]) 0 10 =
      [statsResp.toByte, 0] ++ [0, 0] ++ [0, 0, 0, 0, 0, UInt8.ofNat group.length] :=
    read_write_replace hsplit (show [statsResp.toByte].length = 1 from rfl)
  exact read_write_replace htype (length_leBytes 2 (9 + total group))

theorem read_setHeader (h : Filled temp group) :
    read (setHeader temp (total group)) 0 (10 + total group) = responseHeader 0 group ++ infosBytes group := by
  have hinfos : read (setHeader temp (total group)) 10 (total group) = infosBytes group := by
    rw [setHeader, setLen, read_write_disjoint _ _ (.inr (by simp)), read_write_disjoint _ _ (.inr (by simp)), h.infos]
  rw [read_add, read_header h, zero_add, hinfos]

theorem read_setMore (h : Filled temp group) : read (setMore (setHeader temp (total group))) 0 (10 + total group) =
      responseHeader STATS_RESP_F_MORE group ++ infosBytes group := by
  have hsplit : ∀ flags, responseHeader flags group ++ infosBytes group =
      ([statsResp.toByte, 0] ++ leBytes 2 (9 + total group) ++ [0, 0, 0, 0]) ++ [flags] ++
        (UInt8.ofNat group.length :: infosBytes group) := by
    intro flags
    simp [responseHeader]
  have hread := read_setHeader h
  rw [hsplit] at hread
  have hflags : setHeader temp (total group) 8 = 0 := by simpa using byte_of_read hread
  have hwrite := read_write_replace hread (show [STATS_RESP_F_MORE].length = 1 from rfl)
  rw [hsplit, setMore, hflags]
  simpa using hwrite

theorem send_of_read {m : Mem} {flags : UInt8} (hroom : total group ≤ infoSize)
    (hread : read m 0 (10 + total group) = responseHeader flags group ++ infosBytes group) :
    ctrlSendmsg BUFSIZE m = some (response flags group) := by
  have hlt : 9 + total group < 65536 := by
    simp only [infoSize, BUFSIZE] at hroom
    omega
  have hlen : lenOf m = 9 + total group := by
    have hslice := read_slice m 0 (show 2 + 2 ≤ 10 + total group by omega)
    rw [hread] at hslice
    have hbytes : read m 2 2 = leBytes 2 (9 + total group) := by
      rw [← hslice]
      simp [responseHeader]
    rw [lenOf, hbytes, leNat_leBytes]
    exact Nat.mod_eq_of_lt hlt
  have hsize : 9 + total group ≤ BUFSIZE := by
    simp only [infoSize] at hroom
    simp only [BUFSIZE] at *
    omega
  have htake := read_slice m 0 (show 0 + (9 + total group) ≤ 10 + total group by omega)
  rw [hread, drop_zero] at htake
  rw [ctrlSendmsg, hlen, if_pos hsize, response, htake]

theorem statsLoop_spec (lookup : FlowId → Option Sock) (flows : List FlowId) (h : Filled temp group)
    (hroom : total group ≤ infoSize) :
    let packed := pack FlowInfo.len infoSize group (flows.filterMap (servalSockStatsFlow lookup))
    statsLoop lookup flows temp (total group) =
      some (packed.1.map (response STATS_RESP_F_MORE) ++ [response 0 packed.2]) := by
  induction flows generalizing temp group with
  | nil => simp [statsLoop, pack, send_of_read hroom (read_setHeader h)]
  | cons flow flows ih =>
    simp only [statsLoop, filterMap_cons]
    cases hinfo : servalSockStatsFlow lookup flow with
    | none => exact ih h hroom
    | some info =>
      have hone : total [info] = info.len := by simp [total]
      have hsmall : info.len ≤ infoSize := info.len_le.trans (by decide)
      simp only [pack]
      by_cases hfull : infoSize < (group.map FlowInfo.len).sum + info.len
      · have hnext := ih ((filled_memsetZero (setMore (setHeader temp (total group)))).appendInfo info)
          (by simpa [hone] using hsmall)
        have hlt : infoSize - total group < info.len := by
          simp only [total] at *
          omega
        simp only [nil_append, hone] at hnext
        rw [if_pos hlt, if_pos hfull, send_of_read hroom (read_setMore h)]
        simp only [map_cons, cons_append]
        exact congrArg (Option.bind · _) hnext
      · have htotal : total (group ++ [info]) = total group + info.len := by simp [total]
        have hle : total (group ++ [info]) ≤ infoSize := by
          rw [htotal]
          exact not_lt.mp hfull
        have hnot : ¬ infoSize - total group < info.len := by
          simp only [total] at *
          omega
        rw [if_neg hnot, if_neg hfull, ← htotal]
        exact ih (h.appendInfo info) hle

end Sending

/-! ## Reading the messages -/

structure Record where
  flow : FlowId
  proto : UInt8
  len : ℕ
  pktsSent : UInt64
  pktsRecv : UInt64
  bytesSent : UInt64
  bytesRecv : UInt64
  deriving DecidableEq

def Record.ofFields (fs : List (List UInt8)) : Record where
  flow := toVec 4 (fs.getD 0 [])
  proto := (fs.getD 1 []).getD 0 0
  len := leNat (fs.getD 4 [])
  pktsSent := .ofNat (leNat (fs.getD 6 []))
  pktsRecv := .ofNat (leNat (fs.getD 7 []))
  bytesSent := .ofNat (leNat (fs.getD 8 []))
  bytesRecv := .ofNat (leNat (fs.getD 9 []))

def Record.ofBytes (bs : List UInt8) : Record := .ofFields (split ([4, 1, 3, 8, 2, 6, 8, 8] ++ [8, 8]) bs)

def records : ℕ → List UInt8 → List Record
  | 0, _ => []
  | n + 1, bs => .ofBytes bs :: records n (bs.drop (Record.ofBytes bs).len)

def cmhLen (msg : List UInt8) : ℕ := leNat ((msg.drop 2).take 2)

def flagsOf (msg : List UInt8) : UInt8 := msg.getD 8 0

def numInfos (msg : List UInt8) : ℕ := (msg.getD 9 0).toNat

def infosOf (msg : List UInt8) : List Record := records (numInfos msg) (msg.drop 10)

def Reports (info : FlowInfo) (r : Record) : Prop :=
  r.flow = info.flow ∧ r.proto = info.sk.protocol ∧ r.len = info.len ∧ r.pktsSent = info.sk.totPktsSent ∧
    r.pktsRecv = info.sk.totPktsRecv ∧
    (info.isTcp → r.bytesSent = info.sk.totBytesSent ∧ r.bytesRecv = info.sk.totBytesRecv)

namespace FlowInfo

variable (info : FlowInfo)

theorem widths_front : info.front.map List.length = [4, 1, 3, 8, 2, 6, 8, 8] := by
  simp [front]

theorem length_front : info.front.flatten.length = 40 := by
  rw [length_flatten, widths_front]
  rfl

theorem widths_byteCounters : info.byteCounters.map List.length = [8, 8] := by
  simp [byteCounters]

theorem dropLast_copied : ∃ rest, info.copied.dropLast = info.front.flatten ++ rest ∧
    (info.isTcp → ∃ more, rest = info.byteCounters.flatten ++ more) := by
  have hcut : info.copied.dropLast = info.toBytes.take (info.len - 1) := by
    rw [dropLast_eq_take, length_copied, copied, take_take, Nat.min_eq_left (Nat.sub_le _ _)]
  have hle := info.le_len
  refine ⟨(info.byteCounters.flatten ++ if info.isTcp then info.sk.tcp.fields.flatten else []).take (info.len - 1 - 40),
    ?_, ?_⟩
  · rw [hcut, toBytes, append_assoc, take_append, length_front, take_of_length_le (by rw [length_front]; omega)]
  · intro htcp
    have hlen : info.len = 95 := by simp [len, htcp]
    have hcounters : info.byteCounters.flatten.length = 16 := by
      rw [length_flatten, widths_byteCounters]
      rfl
    rw [take_append, take_of_length_le (by omega)]
    exact ⟨_, rfl⟩

end FlowInfo

theorem reports_ofBytes (info : FlowInfo) (bs : List UInt8) : Reports info (.ofBytes (info.copied.dropLast ++ bs)) := by
  obtain ⟨rest, hrest, htcp⟩ := info.dropLast_copied
  have hlen : leNat (leBytes 2 info.len) = info.len := by
    rw [leNat_leBytes]
    exact Nat.mod_eq_of_lt (info.len_le.trans_lt (by decide))
  rw [Record.ofBytes, hrest, append_assoc, split_append info.widths_front]
  refine ⟨?_, ?_, ?_, ?_, ?_, ?_⟩
  · simp [Record.ofFields, FlowInfo.front, toVec_toList]
  · simp [Record.ofFields, FlowInfo.front]
  · simp [Record.ofFields, FlowInfo.front, hlen]
  · simp [Record.ofFields, FlowInfo.front]
  · simp [Record.ofFields, FlowInfo.front]
  · intro h
    obtain ⟨more, rfl⟩ := htcp h
    rw [append_assoc, split_flatten_append info.widths_byteCounters]
    simp [Record.ofFields, FlowInfo.front, FlowInfo.byteCounters]

theorem reports_records (group : List FlowInfo) :
    List.Forall₂ Reports group (records group.length (infosBytes group).dropLast) := by
  induction group with
  | nil => exact .nil
  | cons info group ih =>
    have hne : info.copied ≠ [] := by
      intro h
      have := info.le_len
      rw [← info.length_copied, h] at this
      simp at this
    cases group with
    | nil =>
      have hbytes : (infosBytes [info]).dropLast = info.copied.dropLast ++ [] := by simp [infosBytes]
      rw [hbytes]
      exact .cons (reports_ofBytes info []) .nil
    | cons next group =>
      have hrest : infosBytes (next :: group) ≠ [] := by
        intro h
        have := next.le_len
        have hlen := congrArg List.length h
        rw [length_infosBytes] at hlen
        simp [total] at hlen
        omega
      have hbytes : (infosBytes (info :: next :: group)).dropLast =
          info.copied ++ (infosBytes (next :: group)).dropLast := by
        rw [← dropLast_append_of_ne_nil hrest]
        simp [infosBytes]
      have hreport : Reports info (.ofBytes (info.copied ++ (infosBytes (next :: group)).dropLast)) := by
        rw [← dropLast_concat_getLast hne, append_assoc]
        exact reports_ofBytes info _
      rw [hbytes, length_cons, records]
      refine .cons hreport ?_
      rw [hreport.2.2.1, ← info.length_copied, drop_left]
      exact ih

section Messages

variable {group : List FlowInfo}

variable (flags : UInt8)

theorem length_mul_le_total (group : List FlowInfo) : 47 * group.length ≤ total group := by
  induction group with
  | nil => simp
  | cons info group ih =>
    have := info.le_len
    simp only [total, map_cons, sum_cons, length_cons] at *
    omega

theorem length_response (group : List FlowInfo) : (response flags group).length = 9 + total group := by
  rw [response, length_take, length_append, length_infosBytes]
  simp [responseHeader]

theorem response_nil : response flags [] = [statsResp.toByte, 0, 9, 0, 0, 0, 0, 0, flags] := by
  simp [response, responseHeader, total, infosBytes, leBytes]

theorem response_of_ne_nil (hne : group ≠ []) :
    response flags group = responseHeader flags group ++ (infosBytes group).dropLast := by
  have hbytes : infosBytes group ≠ [] := by
    intro h
    have hlen := congrArg List.length h
    rw [length_infosBytes, length_nil] at hlen
    have := length_mul_le_total group
    have := length_pos_iff.mpr hne
    omega
  rw [← dropLast_append_of_ne_nil hbytes, dropLast_eq_take, length_append, length_infosBytes, response]
  simp [responseHeader]

theorem cmhLen_response (hroom : total group ≤ infoSize) : cmhLen (response flags group) = 9 + total group := by
  have hlt : 9 + total group < 65536 := by
    simp only [infoSize, BUFSIZE] at hroom
    omega
  have hbytes : ((response flags group).drop 2).take 2 = leBytes 2 (9 + total group) := by
    by_cases hne : group = []
    · subst hne
      rw [response_nil]
      rfl
    · rw [response_of_ne_nil flags hne]
      simp [responseHeader]
  rw [cmhLen, hbytes, leNat_leBytes]
  exact Nat.mod_eq_of_lt hlt

theorem flagsOf_response (group : List FlowInfo) : flagsOf (response flags group) = flags := by
  by_cases hne : group = []
  · subst hne
    rw [response_nil]
    rfl
  · rw [response_of_ne_nil flags hne]
    rfl

theorem infosOf_response (hroom : total group ≤ infoSize) :
    List.Forall₂ Reports group (infosOf (response flags group)) := by
  by_cases hne : group = []
  · subst hne
    rw [response_nil]
    exact .nil
  · have hnum : numInfos (response flags group) = group.length := by
      have hlt : group.length < 2 ^ 8 := by
        have := length_mul_le_total group
        simp only [infoSize, BUFSIZE] at hroom
        omega
      rw [response_of_ne_nil flags hne]
      exact UInt8.toNat_ofNat_of_lt' hlt
    rw [infosOf, hnum, response_of_ne_nil flags hne, drop_left' (by simp [responseHeader])]
    exact reports_records group

theorem sum_len_records {rs : List Record} (h : List.Forall₂ Reports group rs) :
    (rs.map Record.len).sum = total group := by
  induction h with
  | nil => rfl
  | cons hr _ ih =>
    simp only [total, map_cons, sum_cons] at *
    rw [ih, hr.2.2.1]

end Messages

def found (lookup : FlowId → Option Sock) (csm : Mem) : List FlowInfo :=
  (queriedFlows csm).filterMap (servalSockStatsFlow lookup)

theorem forall₂_flatten {α β γ : Type*} {R : α → β → Prop} {f : γ → List α} {g : γ → List β} {xs : List γ}
    (h : ∀ x ∈ xs, List.Forall₂ R (f x) (g x)) : List.Forall₂ R (xs.map f).flatten (xs.map g).flatten := by
  induction xs with
  | nil => exact .nil
  | cons x xs ih =>
    simp only [map_cons, flatten_cons]
    exact rel_append (h x mem_cons_self) (ih fun y hy => h y (mem_cons_of_mem x hy))

/-- Every message has at most 2048 bytes, as many as `cmh.len` says, one less than its header and infos take; all but
the last have the flag; and the infos are one record for each flow that exists, in the order of the query, in which
all but the byte counters of flows other than TCP can be read. -/
theorem stats_replies (lookup : FlowId → Option Sock) (temp csm : Mem) :
    ∃ msgs last, ctrlHandleStatsQueryMsg lookup temp csm = some (msgs ++ [last]) ∧
      (∀ msg ∈ msgs ++ [last], msg.length ≤ 2048 ∧ cmhLen msg = msg.length ∧
        cmhLen msg + 1 = 10 + ((infosOf msg).map Record.len).sum) ∧
      (∀ msg ∈ msgs, flagsOf msg = STATS_RESP_F_MORE) ∧ flagsOf last = 0 ∧
      List.Forall₂ Reports (found lookup csm) ((msgs ++ [last]).map infosOf).flatten := by
  have hloop := statsLoop_spec lookup (queriedFlows csm) (filled_memsetZero temp) (Nat.zero_le infoSize)
  have hsmall : ∀ info ∈ found lookup csm, info.len ≤ infoSize := fun info _ => info.len_le.trans (by decide)
  have hle := @pack_le _ FlowInfo.len infoSize [] _ (Nat.zero_le infoSize) hsmall
  have hflatten := pack_flatten FlowInfo.len infoSize [] (found lookup csm)
  set packed := pack FlowInfo.len infoSize [] (found lookup csm)
  refine ⟨packed.1.map (response STATS_RESP_F_MORE), response 0 packed.2, hloop, ?_, ?_, ?_, ?_⟩
  · have hone : ∀ flags, ∀ group ∈ packed.1 ++ [packed.2], (response flags group).length ≤ 2048 ∧
        cmhLen (response flags group) = (response flags group).length ∧
          cmhLen (response flags group) + 1 = 10 + ((infosOf (response flags group)).map Record.len).sum := by
      intro flags group hgroup
      have hroom : total group ≤ infoSize := hle group hgroup
      rw [cmhLen_response flags hroom, length_response, sum_len_records (infosOf_response flags hroom)]
      simp only [infoSize, BUFSIZE] at hroom
      omega
    intro msg hmsg
    simp only [mem_append, mem_map, mem_singleton] at hmsg
    rcases hmsg with ⟨group, hgroup, rfl⟩ | rfl
    · exact hone _ group (mem_append_left _ hgroup)
    · exact hone _ packed.2 (by simp)
  · intro msg hmsg
    obtain ⟨group, -, rfl⟩ := mem_map.mp hmsg
    exact flagsOf_response _ group
  · exact flagsOf_response 0 packed.2
  · rw [nil_append] at hflatten
    rw [← hflatten, map_append, flatten_append, map_map]
    refine rel_append ?_ ?_
    · have := @forall₂_flatten _ _ _ Reports id (infosOf ∘ response STATS_RESP_F_MORE) packed.1 fun group hgroup =>
        infosOf_response _ (hle group (mem_append_left _ hgroup))
      rwa [map_id] at this
    · simpa using infosOf_response 0 (hle packed.2 (by simp))

namespace Sample

def udp (received : UInt64) : Sock where
  protocol := 17
  totPktsSent := 1
  totPktsRecv := 1
  totBytesSent := 100
  totBytesRecv := received
  tcp := ⟨0, 0, 0, 0, 0, 0, 0, 0, 0, 0, 0, 0⟩

def query : Mem := write (fun _ => 0) 0 [10, 0, 12, 0, 0, 0, 0, 0, 0, 0, 0, 1]

def answer (received : UInt64) : Option (List (List UInt8)) :=
  ctrlHandleStatsQueryMsg (fun _ => some (udp received)) (fun _ => 0) query

end Sample

/-- The length is one short of the ten bytes of the header and the 47 of the record, and the record ends before the
counter of the bytes that were received. -/
theorem stats_record_cut : (Sample.answer 200).map (List.map cmhLen) = some [56] ∧
    (Sample.answer 200).map (List.map fun msg => (infosOf msg).map Record.len) = some [[47]] ∧
      Sample.answer 200 = Sample.answer 300 := by
  decide +kernel

end CtrlStats
