import Serval.ByteLayout
import Serval.ByteMemory
import Serval.ServiceTargets

/-! # Messages of the control channel

A message lies in memory from address 0 on, where the receiver has put it. Numbers have their low
byte first, and the structures are packed.
-/
namespace CtrlMessage

open ByteLayout ByteMemory List

inductive CtrlType where
  | register
  | unregister
  | resolve
  | addService
  | delService
  | modService
  | getService
  | serviceStat
  | capabilities
  | migrate
  | statsQuery
  | statsResp
  | delayNotify
  | delayVerdict
  | dummy
  deriving DecidableEq

def CtrlType.all : List CtrlType :=
  [.register, .unregister, .resolve, .addService, .delService, .modService, .getService, .serviceStat,
    .capabilities, .migrate, .statsQuery, .statsResp, .delayNotify, .delayVerdict, .dummy]

def CtrlType.ofByte (b : UInt8) : Option CtrlType := CtrlType.all[b.toNat]?

def CtrlType.toByte (type : CtrlType) : UInt8 := UInt8.ofNat (CtrlType.all.idxOf type)

inductive Retval where
  | ok
  | error
  | noentry
  | malformed
  deriving DecidableEq

def Retval.toByte : Retval → UInt8
  | .ok => 0
  | .error => 1
  | .noentry => 2
  | .malformed => 3

/-! ## Descriptions of services -/

structure ServiceInfo where
  type : UInt16
  srvidPrefixBits : UInt8
  srvidFlags : UInt8
  ifIndex : UInt32
  priority : UInt32
  weight : UInt32
  idleTimeout : UInt32
  hardTimeout : UInt32
  address : List.Vector UInt8 4
  srvid : List.Vector UInt8 32
  deriving DecidableEq

namespace ServiceInfo

def widths : List ℕ := [2, 1, 1, 4, 4, 4, 4, 4, 4, 32]

def fields (e : ServiceInfo) : List (List UInt8) :=
  [leBytes 2 e.type.toNat, leBytes 1 e.srvidPrefixBits.toNat, leBytes 1 e.srvidFlags.toNat,
    leBytes 4 e.ifIndex.toNat, leBytes 4 e.priority.toNat, leBytes 4 e.weight.toNat,
    leBytes 4 e.idleTimeout.toNat, leBytes 4 e.hardTimeout.toNat, e.address.toList, e.srvid.toList]

def ofFields (fs : List (List UInt8)) : ServiceInfo where
  type := UInt16.ofNat (leNat (fs.getD 0 []))
  srvidPrefixBits := UInt8.ofNat (leNat (fs.getD 1 []))
  srvidFlags := UInt8.ofNat (leNat (fs.getD 2 []))
  ifIndex := UInt32.ofNat (leNat (fs.getD 3 []))
  priority := UInt32.ofNat (leNat (fs.getD 4 []))
  weight := UInt32.ofNat (leNat (fs.getD 5 []))
  idleTimeout := UInt32.ofNat (leNat (fs.getD 6 []))
  hardTimeout := UInt32.ofNat (leNat (fs.getD 7 []))
  address := toVec 4 (fs.getD 8 [])
  srvid := toVec 32 (fs.getD 9 [])

def toBytes (e : ServiceInfo) : List UInt8 := e.fields.flatten

def ofBytes (bs : List UInt8) : ServiceInfo := ofFields (split widths bs)

variable (e : ServiceInfo)

theorem widths_fields : e.fields.map List.length = widths := by
  simp [fields, widths]

@[simp] theorem length_toBytes : e.toBytes.length = 60 := by
  rw [toBytes, length_flatten, widths_fields]
  rfl

theorem fields_ofFields {fs : List (List UInt8)} (h : fs.map List.length = widths) : (ofFields fs).fields = fs := by
  simp only [widths, map_eq_cons_iff, map_eq_nil_iff] at h
  obtain ⟨type, _, rfl, htype, bits, _, rfl, hbits, flags, _, rfl, hflags, ifIndex, _, rfl, hif, priority, _, rfl,
    hpriority, weight, _, rfl, hweight, idle, _, rfl, hidle, hard, _, rfl, hhard, address, _, rfl, haddress, srvid,
    _, rfl, hsrvid, rfl⟩ := h
  simp only [fields, ofFields, getD_cons_zero, getD_cons_succ, leBytes_uint16 htype, leBytes_uint8 hbits,
    leBytes_uint8 hflags, leBytes_uint32 hif, leBytes_uint32 hpriority, leBytes_uint32 hweight,
    leBytes_uint32 hidle, leBytes_uint32 hhard, toList_toVec haddress, toList_toVec hsrvid]

theorem toBytes_ofBytes {bs : List UInt8} (h : bs.length = 60) : (ofBytes bs).toBytes = bs := by
  have hsum : bs.length = widths.sum := h
  rw [toBytes, ofBytes, fields_ofFields (widths_split hsum), flatten_split hsum]

theorem ofFields_fields : ofFields e.fields = e := by
  have hbyte (x : UInt8) : UInt8.ofNat (leNat (leBytes 1 x.toNat)) = x := by
    rw [leNat_leBytes, pow_one, Nat.mod_eq_of_lt (x.toNat_lt), UInt8.ofNat_toNat]
  simp [fields, ofFields, toVec_toList, hbyte]

theorem toBytes_injective : Function.Injective toBytes := by
  intro e e' h
  rw [← ofFields_fields e, ← ofFields_fields e',
    show e.fields = e'.fields from eq_iff_flatten_eq.mpr ⟨h, (widths_fields e).trans (widths_fields e').symm⟩]

end ServiceInfo

/-! ## The header and the entries of a message in memory -/

def lenOf (m : Mem) : ℕ := leNat (read m 2 2)

def setRetval (m : Mem) (retval : Retval) : Mem := write m 1 [retval.toByte]

def setLen (m : Mem) (len : ℕ) : Mem := write m 2 (leBytes 2 len)

def slotAddr (i : ℕ) : ℕ := 12 + 60 * i

def slot (m : Mem) (i : ℕ) : List UInt8 := read m (slotAddr i) 60

def infoAt (m : Mem) (i : ℕ) : ServiceInfo := .ofBytes (slot m i)

def ctrlmsgServiceNumLen (num : ℕ) : ℕ := 12 + num * 60

/-- `CTRLMSG_SERVICE_NUM`: the difference has 64 bits and no sign, the result 32 bits. -/
def ctrlmsgServiceNum (m : Mem) : ℕ := (2 ^ 64 + lenOf m - 12) % 2 ^ 64 / 60 % 2 ^ 32

def ctrlSendmsg (size : ℕ) (m : Mem) : Option (List UInt8) :=
  if lenOf m ≤ size then some (read m 0 (lenOf m)) else none

def serviceMessage (type : UInt8) (retval : Retval) (xids : List UInt8) (infos : List ServiceInfo) : List UInt8 :=
  type :: retval.toByte :: (leBytes 2 (ctrlmsgServiceNumLen infos.length) ++ xids ++
    (infos.map ServiceInfo.toBytes).flatten)

theorem serviceMessage_infos {type : UInt8} {retval retval' : Retval} {xids : List UInt8} {infos infos' :
    List ServiceInfo}
    (hlen : infos.length = infos'.length)
    (h : serviceMessage type retval xids infos = serviceMessage type retval' xids infos') : infos = infos' := by
  have hbytes : retval.toByte = retval'.toByte ∧
      (infos.map ServiceInfo.toBytes).flatten = (infos'.map ServiceInfo.toBytes).flatten := by
    simpa [serviceMessage, hlen] using h
  have hmap : infos.map ServiceInfo.toBytes = infos'.map ServiceInfo.toBytes :=
    eq_iff_flatten_eq.mpr ⟨hbytes.2, by simp [Function.comp_def, hlen]⟩
  exact map_injective_iff.mpr ServiceInfo.toBytes_injective hmap

variable (m : Mem) (i : ℕ)

@[simp] theorem length_slot : (slot m i).length = 60 := length_read ..

theorem toBytes_infoAt : (infoAt m i).toBytes = slot m i :=
  ServiceInfo.toBytes_ofBytes (length_slot m i)

theorem serviceNum_of_len {m : Mem} {n : ℕ} (h : lenOf m = ctrlmsgServiceNumLen n) (hn : n < 2 ^ 32) :
    ctrlmsgServiceNum m = n := by
  have hsub : (2 ^ 64 + ctrlmsgServiceNumLen n - 12) % 2 ^ 64 = n * 60 := by
    rw [ctrlmsgServiceNumLen]
    omega
  rw [ctrlmsgServiceNum, h, hsub, Nat.mul_div_cancel n (by decide), Nat.mod_eq_of_lt hn]

theorem lenOf_setLen (len : ℕ) : lenOf (setLen m len) = len % 65536 := by
  have hread : read (setLen m len) 2 2 = leBytes 2 len := by
    have := read_write_self m 2 (leBytes 2 len)
    rwa [length_leBytes] at this
  rw [lenOf, hread, leNat_leBytes]
  norm_num

theorem lenOf_setRetval (retval : Retval) : lenOf (setRetval m retval) = lenOf m := by
  rw [lenOf, setRetval, read_write_disjoint m [retval.toByte] (.inr (by simp)), lenOf]

theorem read_slots (n : ℕ) : read m (slotAddr i) (n * 60) = ((List.range n).map fun j => slot m (i + j)).flatten := by
  induction n with
  | zero => simp
  | succ n ih =>
    have haddr : slotAddr i + n * 60 = slotAddr (i + n) := by
      simp only [slotAddr]
      ring
    rw [Nat.succ_mul, read_add, ih, haddr, range_succ, map_append, flatten_append]
    simp [slot]

end CtrlMessage
