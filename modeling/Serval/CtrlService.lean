import Serval.CtrlMessage
import Serval.ServiceAddresses

/-! # Adding and modifying services through the control channel

The handlers work on the message where it lies: the entries that have been processed are moved to the front, and the
message is sent back with a new length.
-/
namespace CtrlService

open ByteLayout ByteMemory CtrlMessage List Option Function ServiceInfo
open BitString ServiceTargets ServiceTable ServiceTableSpec ServiceRuns ServiceAddresses

/-! ## The functions of the source -/

structure Host where
  /-- The index of the device towards an address. -/
  resolveDev : List.Vector UInt8 4 → UInt32 → Option UInt32
  /-- The memory that there is while the entry of the index is processed. -/
  mem : ℕ → ℕ
  /-- The answer of the kernel's routing lookup for the entry of the index. -/
  routed : ℕ → Bool

def ruleType (type : UInt16) : RuleType :=
  match type.toNat with
  | 1 => .forward
  | 2 => .demux
  | 3 => .delay
  | 4 => .drop
  | _ => .undefined

def prefixBits (e : ServiceInfo) : ℕ :=
  if 0 < e.srvidPrefixBits then e.srvidPrefixBits.toNat else SERVICE_ID_MAX_PREFIX_BITS

def addressOf (i : ℕ) (e : ServiceInfo) : Option Buf := some ⟨slotAddr i + 24, e.address.toList⟩

/-- The body of the loop that adds, and whether the entry stays in the message. A rule of another type has no device. -/
def addOne (h : Host) (tbl : Table) (i : ℕ) (e : ServiceInfo) : Option (Table × Bool) :=
  if ruleType e.type = .forward then
    match h.resolveDev e.address e.ifIndex with
    | none => some (tbl, false)
    | some ifindex => do
      let (tbl, err) ← serviceAdd tbl (some e.srvid.toList) (prefixBits e) .forward e.srvidFlags.toUInt16 e.priority
        e.weight (addressOf i e) 4 (.oif ifindex) (h.mem i)
      return (tbl, 0 < err)
  else none

def modOne (h : Host) (tbl : Table) (i : ℕ) (old new : ServiceInfo) : Option (Table × Bool) :=
  match h.resolveDev old.address old.ifIndex with
  | none => some (tbl, false)
  | some _ => do
    let (tbl, err) ← serviceModify tbl (some old.srvid.toList) (prefixBits old) .forward old.srvidFlags.toUInt16
      new.priority new.weight (addressOf i old) 4 (addressOf (i + 1) new) 4 (h.routed i) (h.mem i)
    return (tbl, 0 < err)

def addStep (h : Host) (size : ℕ) (m : Mem) (tbl : Table) (i : ℕ) : Option (Table × Bool) :=
  if slotAddr (i + 1) ≤ size then addOne h tbl i (infoAt m i) else none

def modStep (h : Host) (size : ℕ) (m : Mem) (tbl : Table) (i : ℕ) : Option (Table × Bool) :=
  if slotAddr (i + 2) ≤ size then modOne h tbl i (infoAt m i) (infoAt m (i + 1)) else none

/-- The loop of both handlers. `src` is the entry that is moved to `index`. -/
def compactLoop (stride : ℕ) (src : ℕ → ℕ) (step : Mem → Table → ℕ → Option (Table × Bool)) :
    ℕ → ℕ → ℕ → Table → Mem → Option (Table × Mem × ℕ)
  | 0, _, index, tbl, m => some (tbl, m, index)
  | todo + 1, i, index, tbl, m => do
    let (tbl, done) ← step m tbl i
    if done then
      let m := if index < i then write m (slotAddr index) (slot m (src i)) else m
      compactLoop stride src step todo (i + stride) (index + 1) tbl m
    else compactLoop stride src step todo (i + stride) index tbl m

def sendEntries (size : ℕ) (tbl : Table) (m : Mem) (index : ℕ) : Option (Table × Mem × List (List UInt8)) := do
  let m := if index = 0 then setRetval m .noentry else setLen (setRetval m .ok) (ctrlmsgServiceNumLen index)
  let sent ← ctrlSendmsg size m
  return (tbl, m, [sent])

def ctrlHandleAddServiceMsg (h : Host) (size : ℕ) (tbl : Table) (m : Mem) :
    Option (Table × Mem × List (List UInt8)) := do
  let (tbl, m, index) ← compactLoop 1 id (addStep h size) (ctrlmsgServiceNum m) 0 0 tbl m
  sendEntries size tbl m index

def ctrlHandleModServiceMsg (h : Host) (size : ℕ) (tbl : Table) (m : Mem) : Option (Table × Mem × List (List UInt8)) :=
  let num := ctrlmsgServiceNum m
  if num < 2 ∨ num % 2 ≠ 0 then some (tbl, m, [])
  else do
    let (tbl, m, index) ← compactLoop 2 (· + 1) (modStep h size) (num / 2) 0 0 tbl m
    sendEntries size tbl m index

/-! ## The entries that are left -/

def passed (stride : ℕ) (step : Table → ℕ → Option (Table × Bool)) : ℕ → ℕ → Table → Option (Table × List ℕ)
  | 0, _, tbl => some (tbl, [])
  | todo + 1, i, tbl => do
    let (tbl, done) ← step tbl i
    let (tbl, rest) ← passed stride step todo (i + stride) tbl
    return (tbl, if done then i :: rest else rest)

structure Compacted (m m' : Mem) (index : ℕ) (slots : List (List UInt8)) : Prop where
  header : read m' 0 12 = read m 0 12
  front : ∀ j < index, slot m' j = slot m j
  moved : (List.range slots.length).map (fun k => slot m' (index + k)) = slots
  unmoved : slots = [] → m' = m

variable {m m' m₀ : Mem} {stride i j index : ℕ} {src : ℕ → ℕ} {step : Mem → Table → ℕ → Option (Table × Bool)}
  {tbl tbl' : Table} {bs : List UInt8}

theorem slot_write_self (hbs : bs.length = 60) : slot (write m (slotAddr i) bs) i = bs := by
  have := read_write_self m (slotAddr i) bs
  rwa [hbs] at this

theorem slot_write_ne (hbs : bs.length = 60) (hne : j ≠ i) : slot (write m (slotAddr i) bs) j = slot m j := by
  apply read_write_disjoint
  simp only [slotAddr, hbs]
  omega

theorem header_write : read (write m (slotAddr i) bs) 0 12 = read m 0 12 := by
  apply read_write_disjoint
  simp only [slotAddr]
  omega

section

variable {size n : ℕ} {infos : List ServiceInfo}

theorem Compacted.cons {m₁ : Mem} {first : List UInt8} {rest : List (List UInt8)}
    (hheader : read m₁ 0 12 = read m 0 12) (hfront : ∀ j < index, slot m₁ j = slot m j)
    (hfirst : slot m₁ index = first) (h : Compacted m₁ m' (index + 1) rest) :
    Compacted m m' index (first :: rest) where
  header := h.header.trans hheader
  front j hj := (h.front j (by omega)).trans (hfront j hj)
  moved := by
    have hhead : slot m' index = first := (h.front index (Nat.lt_succ_self index)).trans hfirst
    rw [List.length_cons, List.range_succ_eq_map, List.map_cons, List.map_map, add_zero, hhead]
    congr 1
    rw [← h.moved]
    simp only [List.length_map, List.length_range]
    apply List.map_congr_left
    intro k _
    simp only [comp_apply]
    congr 1
    omega
  unmoved hnil := by cases hnil

def ReadsFrom (step : Mem → Table → ℕ → Option (Table × Bool)) : Prop :=
  ∀ m m' tbl i, (∀ j, i ≤ j → slot m' j = slot m j) → step m' tbl i = step m tbl i

/-- The loop makes the calls on the entries as they came, and leaves those that succeed. By induction on the
entries that are left; the entries that are moved land in front of all of these, and `kept` is where each comes from: an
entry that is in its place is not moved. -/
theorem compactLoop_spec (hstep : ReadsFrom step) (hstride : 0 < stride) (hid : stride = 1 → src = id)
    (hsrc : ∀ i, i ≤ src i) (kept : ℕ → ℕ) (todo : ℕ) (hsame : ∀ j, i ≤ j → slot m j = slot m₀ j) (hindex : index ≤ i)
    (hkept : ∀ j, i < j → kept j = src j) (hfirst : kept i = if index < i then src i else i) :
    match passed stride (step m₀) todo i tbl with
    | none => compactLoop stride src step todo i index tbl m = none
    | some (tbl', is) => ∃ m', compactLoop stride src step todo i index tbl m = some (tbl', m', index + is.length) ∧
        Compacted m m' index (is.map fun i => slot m₀ (kept i)) := by
  induction todo generalizing i index tbl m with
  | zero => exact ⟨m, rfl, rfl, fun _ _ => rfl, rfl, fun _ => rfl⟩
  | succ todo ih =>
    rw [passed, compactLoop, hstep m₀ m tbl i hsame]
    cases hcall : step m₀ tbl i with
    | none => rfl
    | some out =>
      obtain ⟨tbl₁, done⟩ := out
      cases done with
      | false =>
        have hrest := @ih m (i + stride) index tbl₁ (fun j hj => hsame j (by omega)) (by omega)
          (fun j hj => hkept j (by omega)) (by rw [hkept _ (by omega), if_pos (by omega)])
        simp only [bind_eq_bind, bind_some, Bool.false_eq_true, if_false]
        generalize passed stride (step m₀) todo (i + stride) tbl₁ = r at hrest
        cases r with
        | none | some out => exact hrest
      | true =>
        set m₁ := if index < i then write m (slotAddr index) (slot m (src i)) else m with hm₁
        have hslots : ∀ j, j ≠ index → slot m₁ j = slot m j := by
          intro j hj
          rw [hm₁]
          split
          · exact slot_write_ne (length_slot ..) hj
          · rfl
        have hheader : read m₁ 0 12 = read m 0 12 := by
          rw [hm₁]
          split
          · exact header_write
          · rfl
        have hfirst : slot m₁ index = slot m₀ (kept i) := by
          rw [hm₁, hfirst]
          split
          · rw [slot_write_self (length_slot ..), hsame (src i) (hsrc i)]
          next hlt =>
            obtain rfl : index = i := by omega
            exact hsame index le_rfl
        have hnext : kept (i + stride) = if index + 1 < i + stride then src (i + stride) else i + stride := by
          rw [hkept _ (by omega)]
          split
          · rfl
          · rw [hid (by omega), id]
        have hrest := @ih m₁ (i + stride) (index + 1) tbl₁
          (fun j hj => (hslots j (by omega)).trans (hsame j (by omega))) (by omega)
            (fun j hj => hkept j (by omega)) hnext
        simp only [bind_eq_bind, bind_some, if_true]
        generalize passed stride (step m₀) todo (i + stride) tbl₁ = r at hrest
        cases r with
        | none => exact hrest
        | some out =>
          obtain ⟨tbl₂, is⟩ := out
          obtain ⟨m', hloop, hcompact⟩ := hrest
          refine ⟨m', ?_, .cons hheader (fun j hj => hslots j (by omega)) hfirst hcompact⟩
          simp only [hloop, length_cons, some.injEq, Prod.mk.injEq, true_and]
          omega

theorem addStep_readsFrom (h : Host) (size : ℕ) : ReadsFrom (addStep h size) := by
  intro m m' tbl i hsame
  rw [addStep, addStep, infoAt, hsame i le_rfl, infoAt]

theorem modStep_readsFrom (h : Host) (size : ℕ) : ReadsFrom (modStep h size) := by
  intro m m' tbl i hsame
  rw [modStep, modStep, infoAt, hsame i le_rfl, infoAt, infoAt, hsame (i + 1) (by omega), infoAt]

/-! ## The replies -/

theorem send_noentry (hlen : lenOf m ≤ size) :
    sendEntries size tbl m 0 = some (tbl, setRetval m .noentry, [read (setRetval m .noentry) 0 (lenOf m)]) := by
  simp [sendEntries, ctrlSendmsg, lenOf_setRetval, hlen]

def xids (m : Mem) : List UInt8 := read m 4 8

theorem header_edited (m : Mem) (retval : Retval) (len : ℕ) :
    read (setLen (setRetval m retval) len) 0 12 = m 0 :: retval.toByte :: (leBytes 2 len ++ xids m) := by
  have hsplit : read m 0 12 = [m 0] ++ [m 1] ++ (read m 2 2 ++ xids m) := by
    rw [xids, ← read_add _ 2 2 8]
    rfl
  have hretval : read (setRetval m retval) 0 12 = [m 0, retval.toByte] ++ read m 2 2 ++ xids m := by
    rw [append_assoc]
    exact read_write_replace hsplit rfl
  have hlen : read (setLen (setRetval m retval) len) 0 12 = [m 0, retval.toByte] ++ leBytes 2 len ++ xids m :=
    read_write_replace hretval (by simp)
  rw [hlen, append_assoc]
  rfl

theorem body_edited (m : Mem) (retval : Retval) (len n : ℕ) :
    read (setLen (setRetval m retval) len) (slotAddr 0) n = read m (slotAddr 0) n := by
  rw [setLen, read_write_disjoint _ _ (.inr (by simp [slotAddr])), setRetval,
    read_write_disjoint _ _ (.inr (by simp [slotAddr]))]

theorem send_entries (hcompact : Compacted m₀ m 0 (infos.map toBytes))
    (hne : infos ≠ []) (hn : infos.length ≤ n) (hlen : ctrlmsgServiceNumLen n < 2 ^ 16)
    (hsize : ctrlmsgServiceNumLen n ≤ size) :
    ∃ m', sendEntries size tbl m infos.length = some (tbl, m', [serviceMessage (m₀ 0) .ok (xids m₀) infos]) := by
  have hk : infos.length ≠ 0 := by simpa using hne
  set k := infos.length with hkdef
  have hle : ctrlmsgServiceNumLen k ≤ ctrlmsgServiceNumLen n := by
    simp only [ctrlmsgServiceNumLen]
    omega
  set m₁ := setRetval m .ok with hm₁
  set m₂ := setLen m₁ (ctrlmsgServiceNumLen k) with hm₂
  have hlen₂ : lenOf m₂ = ctrlmsgServiceNumLen k := by
    rw [hm₂, lenOf_setLen]
    exact Nat.mod_eq_of_lt (by omega)
  refine ⟨m₂, ?_⟩
  have hbody : read m (slotAddr 0) (k * 60) = (infos.map toBytes).flatten := by
    rw [read_slots]
    have hmoved := hcompact.moved
    rw [length_map] at hmoved
    rw [hmoved]
  have htype : m 0 = m₀ 0 := by simpa using byte_congr hcompact.header (show 0 < 12 by decide)
  have hxids : xids m = xids m₀ := slice_congr hcompact.header (show 4 + 8 ≤ 12 by decide)
  have hsent : read m₂ 0 (ctrlmsgServiceNumLen k) = serviceMessage (m₀ 0) .ok (xids m₀) infos := by
    rw [hm₂, hm₁, ctrlmsgServiceNumLen, read_add, header_edited, zero_add]
    have hrest := body_edited m .ok (12 + k * 60) (k * 60)
    rw [slotAddr, mul_zero, add_zero] at hrest
    rw [hrest]
    simp only [serviceMessage, ctrlmsgServiceNumLen, htype, hxids, ← hkdef, ← hbody, slotAddr, mul_zero, add_zero,
      cons_append]
  simp [sendEntries, hk, ← hm₁, ← hm₂, ctrlSendmsg, hlen₂, hsent, hle.trans hsize]

def entriesReply (m : Mem) (infos : List ServiceInfo) : List UInt8 :=
  if infos = [] then read (setRetval m .noentry) 0 (lenOf m) else serviceMessage (m 0) .ok (xids m) infos

theorem send_compacted (hcompact : Compacted m₀ m 0 (infos.map toBytes)) (hn : infos.length ≤ n)
    (hlen : lenOf m₀ = ctrlmsgServiceNumLen n) (hsize : ctrlmsgServiceNumLen n ≤ size) :
    ∃ m', sendEntries size tbl m infos.length = some (tbl, m', [entriesReply m₀ infos]) := by
  by_cases hnil : infos = []
  · subst hnil
    obtain rfl := hcompact.unmoved rfl
    refine ⟨setRetval m .noentry, ?_⟩
    rw [length_nil, send_noentry (hlen.trans_le hsize), entriesReply, if_pos rfl]
  · have hlt : ctrlmsgServiceNumLen n < 2 ^ 16 := by
      have := leNat_lt (read m₀ 2 2)
      rw [length_read] at this
      exact hlen ▸ this
    obtain ⟨m', hsend⟩ := @send_entries m m₀ tbl size n infos hcompact hnil hn hlt hsize
    exact ⟨m', by rw [hsend, entriesReply, if_neg hnil]⟩

theorem passed_spec {step : Table → ℕ → Option (Table × Bool)} {todo : ℕ} {is : List ℕ}
    (h : passed stride step todo i tbl = some (tbl', is)) : is.length ≤ todo ∧ ∀ j ∈ is, i ≤ j := by
  induction todo generalizing i tbl is with
  | zero =>
    cases h
    simp
  | succ todo ih =>
    obtain ⟨⟨tbl₁, done⟩, -, h⟩ := bind_eq_some_iff.mp h
    obtain ⟨⟨tbl₂, rest⟩, hrest, h⟩ := bind_eq_some_iff.mp h
    cases h
    obtain ⟨hlen, hfrom⟩ := ih hrest
    have hle : ∀ j ∈ rest, i ≤ j := fun j hj => (Nat.le_add_right i stride).trans (hfrom j hj)
    cases done with
    | false => exact ⟨Nat.le_succ_of_le hlen, hle⟩
    | true => exact ⟨Nat.succ_le_succ hlen, forall_mem_cons.mpr ⟨le_rfl, hle⟩⟩

theorem num_lt (hlen : lenOf m = ctrlmsgServiceNumLen n) : n < 2 ^ 32 := by
  have hlt := leNat_lt (read m 2 2)
  have hlen' : leNat (read m 2 2) = 12 + n * 60 := hlen
  rw [length_read] at hlt
  omega

end

variable {is : List ℕ}

/-- What both handlers do with a message of `n` entries. -/
theorem compacted_reply (kept : ℕ → ℕ) {todo size n : ℕ} (hstep : ReadsFrom step) (hstride : 0 < stride)
    (hid : stride = 1 → src = id) (hsrc : ∀ i, i ≤ src i) (hkept : ∀ j, 0 < j → kept j = src j) (hfirst : kept 0 = 0)
    (hpassed : passed stride (step m) todo 0 tbl = some (tbl', is)) (hle : todo ≤ n)
    (hlen : lenOf m = ctrlmsgServiceNumLen n) (hsize : ctrlmsgServiceNumLen n ≤ size) :
    ∃ m', ((compactLoop stride src step todo 0 0 tbl m).bind fun out => sendEntries size out.1 out.2.1 out.2.2) =
      some (tbl', m', [entriesReply m (is.map (infoAt m ∘ kept))]) := by
  have hloop := @compactLoop_spec m m stride 0 0 src step tbl hstep hstride hid hsrc kept todo (fun _ _ => rfl) le_rfl
    hkept hfirst
  rw [hpassed] at hloop
  obtain ⟨m₁, hloop, hcompact⟩ := hloop
  have hslots : (is.map fun i => slot m (kept i)) = (is.map (infoAt m ∘ kept)).map toBytes := by
    rw [List.map_map]
    exact List.map_congr_left fun i _ => (toBytes_infoAt m (kept i)).symm
  have hle : (is.map (infoAt m ∘ kept)).length ≤ n := (length_map _).trans_le ((passed_spec hpassed).1.trans hle)
  obtain ⟨m', hsend⟩ := @send_compacted m₁ m tbl' size n _ (hslots ▸ hcompact) hle hlen hsize
  refine ⟨m', ?_⟩
  rw [hloop, bind_some, zero_add]
  rwa [length_map] at hsend

theorem addHandler_eq (h : Host) {size n : ℕ} (hlen : lenOf m = ctrlmsgServiceNumLen n)
    (hsize : ctrlmsgServiceNumLen n ≤ size) (hpassed :
    passed 1 (addStep h size m) n 0 tbl = some (tbl', is)) :
    ∃ m', ctrlHandleAddServiceMsg h size tbl m = some (tbl', m', [entriesReply m (is.map (infoAt m))]) := by
  rw [ctrlHandleAddServiceMsg, serviceNum_of_len hlen (num_lt hlen)]
  exact compacted_reply id (addStep_readsFrom h size) Nat.one_pos (fun _ => rfl) (fun _ => le_rfl)
    (fun _ _ => rfl) rfl hpassed le_rfl hlen hsize

/-- Where the description of the reply comes from: the old one for the first pair, which is not moved, and the new one
for every other. -/
def keptAt (i : ℕ) : ℕ := if i = 0 then 0 else i + 1

theorem modHandler_eq (h : Host) {size n : ℕ} (hlen : lenOf m = ctrlmsgServiceNumLen (2 * n)) (hn : 0 < n)
    (hsize : ctrlmsgServiceNumLen (2 * n) ≤ size)
    (hpassed : passed 2 (modStep h size m) n 0 tbl = some (tbl', is)) :
    ∃ m', ctrlHandleModServiceMsg h size tbl m = some (tbl', m', [entriesReply m (is.map (infoAt m ∘ keptAt))]) := by
  have heven : ¬ (2 * n < 2 ∨ 2 * n % 2 ≠ 0) := by omega
  rw [ctrlHandleModServiceMsg, serviceNum_of_len hlen (num_lt hlen), if_neg heven,
    Nat.mul_div_cancel_left n Nat.two_pos]
  exact compacted_reply keptAt (modStep_readsFrom h size) Nat.two_pos (by simp) (fun i => Nat.le_succ i)
    (fun j hj => if_neg hj.ne') rfl hpassed (Nat.le_mul_of_pos_left n Nat.two_pos) hlen hsize

/-! ## The entries that a reply lists -/

def prefixOf (e : ServiceInfo) : List Bool := bitsOf e.srvid.toList (normBits e.srvid.toList (prefixBits e))

def entries (m : Mem) (i n : ℕ) : List ServiceInfo := (List.range' i n).map (infoAt m)

def pairs (m : Mem) (i n : ℕ) : List (ServiceInfo × ServiceInfo) :=
  (List.range' i n 2).map fun i => (infoAt m i, infoAt m (i + 1))

inductive Added (h : Host) : ℕ → Table → List ServiceInfo → Table → List ServiceInfo → Prop where
  | nil {i : ℕ} {tbl : Table} : Added h i tbl [] tbl []
  | created {i : ℕ} {tbl tbl₁ tbl' : Table} {e : ServiceInfo} {es made : List ServiceInfo} :
      addOne h tbl i e = some (tbl₁, true) →
      Created tbl tbl₁ (prefixOf e) e.address.toList (atLeastOne e.weight) → Added h (i + 1) tbl₁ es tbl' made →
      Added h i tbl (e :: es) tbl' (e :: made)
  | refused {i : ℕ} {tbl tbl₁ tbl' : Table} {e : ServiceInfo} {es made : List ServiceInfo} :
      addOne h tbl i e = some (tbl₁, false) →
      (∀ q, entryAt tbl₁ q = entryAt tbl q) → Added h (i + 1) tbl₁ es tbl' made → Added h i tbl (e :: es) tbl' made

inductive Modified (h : Host) : ℕ → Table → List (ServiceInfo × ServiceInfo) → Table → List ServiceInfo → Prop where
  | nil {i : ℕ} {tbl : Table} : Modified h i tbl [] tbl []
  | changed {i : ℕ} {tbl tbl₁ tbl' : Table} {old new : ServiceInfo} {es : List (ServiceInfo × ServiceInfo)}
      {made : List ServiceInfo} : modOne h tbl i old new = some (tbl₁, true) →
      Changed tbl tbl₁ (prefixOf old) old.address.toList new.address.toList (atLeastOne new.weight) →
      Modified h (i + 2) tbl₁ es tbl' made → Modified h i tbl ((old, new) :: es) tbl' (new :: made)
  | refused {i : ℕ} {tbl tbl₁ tbl' : Table} {old new : ServiceInfo} {es : List (ServiceInfo × ServiceInfo)}
      {made : List ServiceInfo} : modOne h tbl i old new = some (tbl₁, false) →
      Modified h (i + 2) tbl₁ es tbl' made → Modified h i tbl ((old, new) :: es) tbl' made

/-- A reply to the request that lists these entries: OK and the entries, or the request again with NOENTRY. -/
structure Reports (m : Mem) (infos : List ServiceInfo) (reply : List UInt8) : Prop where
  noentry : reply[1]? = some Retval.noentry.toByte ↔ infos = []
  listed : infos ≠ [] → reply = serviceMessage (m 0) .ok (xids m) infos
  length : infos ≠ [] → reply.length = 12 + 60 * infos.length
  request : infos = [] → reply = read (setRetval m .noentry) 0 (lenOf m)

theorem prefixBits_le (e : ServiceInfo) : prefixBits e ≤ 256 := by
  rw [prefixBits]
  split
  · exact e.srvidPrefixBits.toNat_lt.le
  · exact le_rfl

theorem addOne_spec (h : Host) {n : ℕ} (hreach : Reachable Ipv4 tbl) (hroom : Roomy (n + 1) tbl) (i : ℕ)
    {e : ServiceInfo}
    (htype : ruleType e.type = .forward) :
    ∃ tbl' done, addOne h tbl i e = some (tbl', done) ∧ Reachable Ipv4 tbl' ∧ Roomy n tbl' ∧
      (done = true ∧ Created tbl tbl' (prefixOf e) e.address.toList (atLeastOne e.weight) ∨
        done = false ∧ ∀ q, entryAt tbl' q = entryAt tbl q) := by
  rw [addOne, if_pos htype]
  cases h.resolveDev e.address e.ifIndex with
  | none => exact ⟨tbl, false, rfl, hreach, hroom.mono (Nat.le_succ n), .inr ⟨rfl, fun _ => rfl⟩⟩
  | some ifindex =>
    have hd : (Buf.mk (slotAddr i + 24) e.address.toList).bytes.length = 4 := e.address.toList_length
    obtain ⟨tbl', r, hrun, hreach', hroom', hout⟩ :=
      @add_forward tbl _ e.srvidFlags.toUInt16 e.priority e.weight ifindex (h.mem i) n e.srvid.toList
        (prefixBits e) hreach
        hroom e.srvid.toList_length (prefixBits_le e) hd
    refine ⟨tbl', decide (0 < r), ?_, hreach', hroom', ?_⟩
    · simp only [addressOf, hrun, Option.bind_eq_bind, Option.bind_some, Option.pure_def]
    · rcases hout with ⟨hpos, hcreated⟩ | ⟨hneg, hsame⟩
      · exact .inl ⟨decide_eq_true hpos, hcreated⟩
      · exact .inr ⟨decide_eq_false hneg, hsame⟩

/-- The first pair of a message is one that the table, the routes and the memory let be modified. -/
def Modifies (h : Host) (tbl : Table) (i : ℕ) (old new : ServiceInfo) : Prop :=
  (h.resolveDev old.address old.ifIndex).isSome ∧ h.routed i = true ∧
    ∃ se, entryAt tbl (prefixOf old) = some se ∧ Modifiable se old.address.toList new.priority (h.mem i)

theorem modOne_spec (h : Host) {n : ℕ} (hreach : Reachable Ipv4 tbl) (hroom : Roomy (n + 1) tbl) (i : ℕ)
    (old new : ServiceInfo) :
    ∃ tbl' done, modOne h tbl i old new = some (tbl', done) ∧ Reachable Ipv4 tbl' ∧ Roomy n tbl' ∧
      (done = true → Changed tbl tbl' (prefixOf old) old.address.toList new.address.toList (atLeastOne new.weight)) ∧
      (done = true ↔ Modifies h tbl i old new) := by
  rw [modOne, Modifies]
  cases h.resolveDev old.address old.ifIndex with
  | none => exact ⟨tbl, false, rfl, hreach, hroom.mono (Nat.le_succ n), by simp, by simp⟩
  | some ifindex =>
    have hd : (Buf.mk (slotAddr i + 24) old.address.toList).bytes.length = 4 := old.address.toList_length
    have hd' : (Buf.mk (slotAddr (i + 1) + 24) new.address.toList).bytes.length = 4 := new.address.toList_length
    obtain ⟨tbl', r, hrun, hreach', hroom', hout, hiff⟩ :=
      @modify_forward tbl _ _ old.srvidFlags.toUInt16 new.priority new.weight (h.mem i) n old.srvid.toList
        (prefixBits old)
        hreach hroom old.srvid.toList_length (prefixBits_le old) hd hd' (h.routed i)
    refine ⟨tbl', decide (0 < r), ?_, hreach', hroom', fun hdone => hout (of_decide_eq_true hdone), ?_⟩
    · simp only [addressOf, hrun, Option.bind_eq_bind, Option.bind_some, Option.pure_def]
    · simpa [prefixOf] using hiff

theorem passed_added (h : Host) {size n : ℕ} (hreach : Reachable Ipv4 tbl) (hroom : Roomy n tbl)
    (hsize : slotAddr (i + n) ≤ size) (htype : ∀ e ∈ entries m i n, ruleType e.type = .forward) :
    ∃ tbl' is, passed 1 (addStep h size m) n i tbl = some (tbl', is) ∧
      Added h i tbl (entries m i n) tbl' (is.map (infoAt m)) := by
  induction n generalizing i tbl with
  | zero => exact ⟨tbl, [], rfl, .nil⟩
  | succ n ih =>
    have hentries : entries m i (n + 1) = infoAt m i :: entries m (i + 1) n := rfl
    rw [hentries] at htype ⊢
    rw [forall_mem_cons] at htype
    have hstep : addStep h size m tbl i = addOne h tbl i (infoAt m i) := by
      rw [addStep, if_pos]
      simp only [slotAddr] at hsize ⊢
      omega
    obtain ⟨tbl₁, done, hone, hreach₁, hroom₁, hout⟩ := addOne_spec h hreach hroom i htype.1
    obtain ⟨tbl', is, hrest, hadded⟩ := ih hreach₁ hroom₁ (by rwa [add_assoc, add_comm 1 n]) htype.2
    refine ⟨tbl', if done then i :: is else is, ?_, ?_⟩
    · simp [passed, hstep, hone, hrest]
    · rcases hout with ⟨rfl, hcreated⟩ | ⟨rfl, hsame⟩
      · exact .created hone hcreated hadded
      · exact .refused hone hsame hadded

/-- A rule of another type ends the loop. -/
theorem passed_forward {h : Host} {size n : ℕ} (hpassed :
    passed 1 (addStep h size m) n i tbl = some (tbl', is)) :
    ∀ e ∈ entries m i n, ruleType e.type = .forward := by
  induction n generalizing i tbl tbl' is with
  | zero => exact fun e he => nomatch he
  | succ n ih =>
    obtain ⟨⟨tbl₁, done⟩, hfirst, hpassed⟩ := bind_eq_some_iff.mp hpassed
    obtain ⟨⟨tbl₂, rest⟩, hrest, -⟩ := bind_eq_some_iff.mp hpassed
    refine forall_mem_cons.mpr ⟨?_, ih hrest⟩
    by_contra htype
    rw [addStep, addOne, if_neg htype, ite_self] at hfirst
    cases hfirst

theorem passed_modified (h : Host) {size n : ℕ} (hreach : Reachable Ipv4 tbl) (hroom : Roomy n tbl)
    (hsize : slotAddr (i + 2 * n) ≤ size) :
    ∃ tbl' is, passed 2 (modStep h size m) n i tbl = some (tbl', is) ∧
      Modified h i tbl (pairs m i n) tbl' (is.map fun i => infoAt m (i + 1)) := by
  induction n generalizing i tbl with
  | zero => exact ⟨tbl, [], rfl, .nil⟩
  | succ n ih =>
    have hpairs : pairs m i (n + 1) = (infoAt m i, infoAt m (i + 1)) :: pairs m (i + 2) n := rfl
    have hstep : modStep h size m tbl i = modOne h tbl i (infoAt m i) (infoAt m (i + 1)) := by
      rw [modStep, if_pos]
      simp only [slotAddr] at hsize ⊢
      omega
    obtain ⟨tbl₁, done, hone, hreach₁, hroom₁, hout, -⟩ := modOne_spec h hreach hroom i (infoAt m i) (infoAt m (i + 1))
    obtain ⟨tbl', is, hrest, hmodified⟩ := ih hreach₁ hroom₁
      (by rwa [Nat.mul_succ, add_comm (2 * n), ← add_assoc] at hsize)
    refine ⟨tbl', if done then i :: is else is, ?_, ?_⟩
    · simp [passed, hstep, hone, hrest]
    · rw [hpairs]
      cases done with
      | true => exact .changed hone (hout rfl) hmodified
      | false => exact .refused hone hmodified

theorem reports_entriesReply (infos : List ServiceInfo) (hlen : 12 ≤ lenOf m) :
    Reports m infos (entriesReply m infos) := by
  by_cases hnil : infos = []
  · subst hnil
    have hreply : entriesReply m [] = read (setRetval m .noentry) 0 (lenOf m) := if_pos rfl
    refine ⟨?_, fun hne => absurd rfl hne, fun hne => absurd rfl hne, fun _ => hreply⟩
    have hbyte : (read (setRetval m .noentry) 0 (lenOf m))[1]? = some Retval.noentry.toByte := by
      rw [getElem?_read _ _ (by omega)]
      simp [setRetval, write]
    rw [hreply, hbyte]
    exact iff_of_true rfl rfl
  · have hreply : entriesReply m infos = serviceMessage (m 0) .ok (xids m) infos := if_neg hnil
    refine ⟨?_, fun _ => hreply, fun _ => ?_, fun h => absurd h hnil⟩
    · rw [hreply]
      refine iff_of_false ?_ hnil
      simp [serviceMessage, Retval.toByte]
    · have hflat : ((infos.map toBytes).flatten).length = 60 * infos.length := by
        simp [length_flatten, comp_def, mul_comm]
      rw [hreply]
      simp only [serviceMessage, length_cons, length_append, length_leBytes, hflat, xids, length_read]
      omega

theorem first_passed {h : Host} {size n : ℕ} (hreach : Reachable Ipv4 tbl) (hroom : Roomy n tbl) (hn : 1 < n)
    (hsize : ctrlmsgServiceNumLen n ≤ size)
    (hpassed : passed 2 (modStep h size m) (n / 2) 0 tbl = some (tbl', is)) :
    0 ∈ is ↔ Modifies h tbl 0 (infoAt m 0) (infoAt m 1) := by
  obtain ⟨k, hk⟩ : ∃ k, n / 2 = k + 1 := ⟨n / 2 - 1, by omega⟩
  rw [hk] at hpassed
  obtain ⟨⟨tbl₁, done⟩, hfirst, hpassed⟩ := bind_eq_some_iff.mp hpassed
  obtain ⟨⟨tbl₂, rest⟩, hrest, hpassed⟩ := bind_eq_some_iff.mp hpassed
  cases hpassed
  have hin : slotAddr (0 + 2) ≤ size := by
    simp only [ctrlmsgServiceNumLen, slotAddr] at hsize ⊢
    omega
  obtain ⟨_, _, hone, -, -, -, hiff⟩ := modOne_spec h hreach (hroom.mono (Nat.one_le_of_lt hn) : Roomy (0 + 1) tbl) 0
    (infoAt m 0) (infoAt m 1)
  rw [modStep, if_pos hin, hone] at hfirst
  cases hfirst
  cases done with
  | true => exact iff_of_true mem_cons_self (hiff.mp rfl)
  | false =>
    refine iff_of_false (fun h0 => absurd ((passed_spec hrest).2 0 h0) (by decide)) fun hm => ?_
    cases hiff.mpr hm

theorem Modified.unique {h : Host} {tbl₁ tbl₂ : Table} {es : List (ServiceInfo × ServiceInfo)}
    {made₁ made₂ : List ServiceInfo} (h₁ : Modified h i tbl es tbl₁ made₁) (h₂ : Modified h i tbl es tbl₂ made₂) :
    made₁ = made₂ := by
  induction h₁ generalizing tbl₂ made₂ with
  | nil =>
    cases h₂
    rfl
  | changed hone _ _ ih | refused hone _ ih =>
    cases h₂ with
    | changed hone' _ hrest | refused hone' hrest =>
      cases hone.symm.trans hone' <;> rw [ih hrest]

/-- What is reported as modified is right exactly if the first pair is not modified or has one description. -/
theorem kept_iff (hn : 12 ≤ lenOf m) :
    Reports m (is.map fun i => infoAt m (i + 1)) (entriesReply m (is.map (infoAt m ∘ keptAt))) ↔
      infoAt m 0 = infoAt m 1 ∨ 0 ∉ is := by
  constructor
  · intro hreports
    refine or_iff_not_imp_right.mpr fun h0 => ?_
    have h0 := not_not.mp h0
    have hne : is ≠ [] := ne_nil_of_mem h0
    have hsame := hreports.listed (by simpa using hne)
    rw [entriesReply, if_neg (by simpa using hne)] at hsame
    simpa [keptAt] using map_inj_left.mp (serviceMessage_infos (by simp) hsame) 0 h0
  · intro hfirst
    have hkept : is.map (infoAt m ∘ keptAt) = is.map fun i => infoAt m (i + 1) := by
      apply map_congr_left
      intro i hi
      rw [comp_apply, keptAt]
      split
      next h0 =>
        subst h0
        exact hfirst.resolve_right (not_not.mpr hi)
      · rfl
    exact hkept ▸ reports_entriesReply _ hn

/-- The replies of the two handlers: the entries for which a target has been created, exactly if all of them are
FORWARD rules, and the new descriptions of the pairs that have been modified, exactly if there are pairs and the first
of them is not modified or has one description. -/
theorem replies_list_entries (h : Host) {size n : ℕ} (hreach : Reachable Ipv4 tbl) (hroom : Roomy n tbl)
    (hlen : lenOf m = ctrlmsgServiceNumLen n) (hsize : ctrlmsgServiceNumLen n ≤ size) :
    ((∃ tbl' m' made reply, ctrlHandleAddServiceMsg h size tbl m = some (tbl', m', [reply]) ∧
        Added h 0 tbl (entries m 0 n) tbl' made ∧ Reports m made reply) ↔
      ∀ e ∈ entries m 0 n, ruleType e.type = .forward) ∧
    ((∃ tbl' m' changed reply, ctrlHandleModServiceMsg h size tbl m = some (tbl', m', [reply]) ∧
        Modified h 0 tbl (pairs m 0 (n / 2)) tbl' changed ∧ Reports m changed reply) ↔
      1 < n ∧ n % 2 = 0 ∧ (infoAt m 0 = infoAt m 1 ∨ ¬Modifies h tbl 0 (infoAt m 0) (infoAt m 1))) := by
  have hheader : 12 ≤ lenOf m := hlen ▸ Nat.le_add_right ..
  have hslots : ctrlmsgServiceNumLen n = slotAddr (0 + n) := by
    simp only [ctrlmsgServiceNumLen, slotAddr]
    omega
  refine ⟨⟨?_, fun htype => ?_⟩, ?_⟩
  · rintro ⟨tbl', m', made, reply, hrun, -⟩
    have hloop := @compactLoop_spec m m 1 0 0 id _ tbl (addStep_readsFrom h size) Nat.one_pos (fun _ => rfl)
      (fun _ => le_rfl) id n (fun _ _ => rfl) le_rfl (fun _ _ => rfl) rfl
    rw [ctrlHandleAddServiceMsg, serviceNum_of_len hlen (num_lt hlen)] at hrun
    cases hpassed : passed 1 (addStep h size m) n 0 tbl with
    | none =>
      rw [hpassed] at hloop
      rw [hloop] at hrun
      cases hrun
    | some out => exact passed_forward hpassed
  · obtain ⟨tbl', is, hpassed, hadded⟩ := passed_added h hreach hroom (hslots ▸ hsize) htype
    obtain ⟨m', hrun⟩ := addHandler_eq h hlen hsize hpassed
    exact ⟨tbl', m', _, _, hrun, hadded, reports_entriesReply _ hheader⟩
  by_cases hodd : n < 2 ∨ n % 2 ≠ 0
  · refine iff_of_false ?_ (by omega)
    rintro ⟨_, _, _, _, hrun, -⟩
    rw [ctrlHandleModServiceMsg, serviceNum_of_len hlen (num_lt hlen), if_pos hodd] at hrun
    cases hrun
  · have hn : 1 < n := by omega
    have heven : n = 2 * (n / 2) := by omega
    obtain ⟨tbl', is, hpassed, hmodified⟩ := @passed_modified m 0 tbl h size (n / 2) hreach (hroom.mono (by omega))
      (by rw [← heven]; exact hslots ▸ hsize)
    obtain ⟨m', hrun⟩ := modHandler_eq h (heven ▸ hlen) (by omega) (heven ▸ hsize) hpassed
    rw [← first_passed hreach hroom hn hsize hpassed, ← kept_iff hheader]
    refine ⟨?_, fun hreports => ⟨tbl', m', _, _, hrun, hmodified, hreports.2.2⟩⟩
    rintro ⟨_, _, changed, reply, hrun', hmodified', hreports⟩
    cases hrun.symm.trans hrun'
    exact ⟨hn, by omega, hmodified'.unique hmodified ▸ hreports⟩

namespace Sample

open ServiceRuns.Sample

def info (last : UInt8) : ServiceInfo :=
  ⟨1, 1, 0, 1, 0, 1, 0, 0, toVec 4 [10, 0, 0, last], toVec 32 srvid⟩

def message (type : CtrlType) (infos : List ServiceInfo) : Mem :=
  fun i => (serviceMessage type.toByte .ok (List.replicate 8 0) infos).getD i 0

def host : Host := ⟨fun _ _ => some 1, fun _ => 8, fun _ => true⟩

theorem init_roomy : Roomy 5 serviceTableInit := by
  refine ⟨by decide, fun p => ?_⟩
  have hnone : targetsAt serviceTableInit p = [] := by
    rw [targetsAt_eq tableRep_init]
    rfl
  rw [hnone]
  decide

theorem oneRule_ipv4 : Reachable Ipv4 oneRule ∧ Roomy 4 oneRule := by
  obtain ⟨tbl, r, hrun, hreach, hroom, -⟩ := @add_forward _
    ⟨4096, [10, 0, 0, 1]⟩ 0 0 1 1 8 4 srvid 1 .init init_roomy rfl
    (by decide) rfl
  cases oneRule_run.symm.trans hrun
  exact ⟨hreach, hroom⟩

end Sample

open ServiceRuns.Sample in
open Sample in
/-- Two rules are added to the empty table; of two pairs only the second has a rule in the table. -/
theorem replies_list_entries_two : (∃ tbl' m' made reply, ctrlHandleAddServiceMsg host 2048 serviceTableInit
        (message .addService [info 1, info 2]) = some (tbl', m', [reply]) ∧
      Added host 0 serviceTableInit (entries (message .addService [info 1, info 2]) 0 2) tbl' made ∧
      Reports (message .addService [info 1, info 2]) made reply) ∧
    ∃ tbl' m' changed reply, ctrlHandleModServiceMsg host 2048 oneRule
        (message .modService [info 3, info 4, info 1, info 2]) = some (tbl', m', [reply]) ∧
      Modified host 0 oneRule (pairs (message .modService [info 3, info 4, info 1, info 2]) 0 2) tbl' changed ∧
      Reports (message .modService [info 3, info 4, info 1, info 2]) changed reply := by
  constructor
  · exact (@replies_list_entries (message .addService [info 1, info 2]) _ host 2048 2 .init
      (init_roomy.mono (by decide)) (by decide +kernel) (by decide)).1.mpr (by decide +kernel)
  · refine (@replies_list_entries (message .modService [info 3, info 4, info 1, info 2]) _ host 2048 4 oneRule_ipv4.1
      oneRule_ipv4.2 (by decide +kernel) (by decide)).2.mpr ⟨by decide, rfl, .inr ?_⟩
    rintro ⟨-, -, se, hse, ⟨t, ht, hforwards⟩, -⟩
    have hinfo : infoAt (message .modService [info 3, info 4, info 1, info 2]) 0 = info 3 := by decide +kernel
    rw [hinfo] at hse hforwards
    have hall : ∀ t ∈ targetsAt oneRule (prefixOf (info 3)), forwards [10, 0, 0, 3] t = false := by decide +kernel
    rw [targetsAt, hse] at hall
    cases (hall t ht).symm.trans hforwards

open ServiceRuns.Sample in
open Sample in
/-- The only pair is modified, and the reply describes the rule as it was. -/
theorem old_description_reported :
    Reachable Ipv4 oneRule ∧ lenOf (message .modService [info 1, info 2]) = ctrlmsgServiceNumLen 2 ∧
      pairs (message .modService [info 1, info 2]) 0 1 = [(info 1, info 2)] ∧
      (modOne host oneRule 0 (info 1) (info 2)).map (fun out =>
        (out.2, (targetsAt out.1 [true]).map Target.dst)) = some (true, [[10, 0, 0, 2]]) ∧
      (ctrlHandleModServiceMsg host 2048 oneRule (message .modService [info 1, info 2])).map
        (·.2.2) = some [serviceMessage 5 .ok (List.replicate 8 0) [info 1]] :=
  ⟨oneRule_ipv4.1, by decide +kernel, by decide +kernel, by decide +kernel, by decide +kernel⟩

end CtrlService
