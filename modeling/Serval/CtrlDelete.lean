import Serval.CtrlService
import Serval.ServiceInverse
import Serval.ServiceOwned

/-! # Deleting services through the control channel

`ctrl_handle_del_service_msg` looks the entry up by exact match, removes a target from it, and reports its counters.
-/
namespace CtrlDelete

open BitString BstModel BstLayout BstLookup BstTraversal ByteLayout ByteMemory CtrlMessage List Option CtrlService
open ServiceTargets TargetSets ServiceTable ServiceTableSpec ServiceRuns ServiceFind ServiceAddresses ServiceOwned
open ServiceEntryInvariant (EntryOk entryOk_iff)

/-! ## The functions of the source -/

structure ServiceInfoStat where
  service : ServiceInfo
  durationSec : UInt32 := 0
  durationNsec : UInt32 := 0
  packetsResolved : UInt32 := 0
  bytesResolved : UInt32 := 0
  packetsDropped : UInt32 := 0
  bytesDropped : UInt32 := 0
  tokensConsumed : UInt32 := 0
  deriving DecidableEq

def ServiceInfoStat.toBytes (s : ServiceInfoStat) : List UInt8 :=
  s.service.toBytes ++ ([s.durationSec, s.durationNsec, s.packetsResolved, s.bytesResolved, s.packetsDropped,
    s.bytesDropped, s.tokensConsumed].map fun x => leBytes 4 x.toNat).flatten

def ctrlmsgServiceInfoStatNumLen (num : ℕ) : ℕ := 12 + num * 88

/-- For the default service the number of the message is taken, be it zero or not. -/
def delPrefixBits (e : ServiceInfo) : ℕ :=
  if e.srvid.toList = defaultService ∨ 0 < e.srvidPrefixBits then e.srvidPrefixBits.toNat
  else SERVICE_ID_MAX_PREFIX_BITS

/-- What is reported of a target. The last counter is that of the packets again. -/
def statOf (e : ServiceInfo) (tstat : TargetStats) : ServiceInfoStat where
  service := e
  packetsResolved := tstat.packetsResolved
  bytesResolved := tstat.bytesResolved
  packetsDropped := tstat.packetsDropped
  bytesDropped := tstat.packetsDropped

def delOne (tbl : Table) (i : ℕ) (e : ServiceInfo) : Option (Table × Option ServiceInfoStat) := do
  match ← serviceFindExact tbl e.srvid.toList (delPrefixBits e) with
  | none => return (tbl, none)
  | some se =>
    let (tbl, rem) ← ServiceTable.serviceEntryRemoveTarget tbl se (ruleType e.type) (addressOf i e) 4
    return (tbl, if 0 < rem.ret then some (statOf e (rem.stats.getD {})) else none)

def delStep (size : ℕ) (m : Mem) (tbl : Table) (i : ℕ) : Option (Table × Option ServiceInfoStat) :=
  if slotAddr (i + 1) ≤ size then delOne tbl i (infoAt m i) else none

def delLoop (size : ℕ) (m : Mem) : ℕ → ℕ → Table → Option (Table × List ServiceInfoStat)
  | 0, _, tbl => some (tbl, [])
  | todo + 1, i, tbl => do
    let (tbl, stat) ← delStep size m tbl i
    let (tbl, rest) ← delLoop size m todo (i + 1) tbl
    return (tbl, stat.toList ++ rest)

def statMessage (m : Mem) (stats : List ServiceInfoStat) : List UInt8 :=
  let len := ctrlmsgServiceInfoStatNumLen stats.length
  (CtrlType.delService.toByte :: Retval.ok.toByte :: (leBytes 2 len ++ xids m ++
    (stats.map ServiceInfoStat.toBytes).flatten)).take (len % 65536)

def ctrlHandleDelServiceMsg (size : ℕ) (alloc : Bool) (tbl : Table) (m : Mem) :
    Option (Table × Mem × List (List UInt8)) :=
  if alloc then do
    let (tbl, stats) ← delLoop size m (ctrlmsgServiceNum m) 0 tbl
    if stats = [] then
      let m := setRetval m .noentry
      let sent ← ctrlSendmsg size m
      return (tbl, m, [sent])
    else return (tbl, m, [statMessage m stats])
  else do
    let m := setRetval m .error
    let sent ← ctrlSendmsg size m
    return (tbl, m, [sent])

/-! ## Finding the entry -/

variable {tbl tbl' : Table} {pos : List Bool → Option Ptr} {M : BitMap ServiceEntry} {se : ServiceEntry}
  {e : ServiceInfo}

theorem delPrefix_eq (h : e.srvid.toList = defaultService → e.srvidPrefixBits = 0) :
    bitsOf e.srvid.toList (delPrefixBits e) = prefixOf e := by
  rw [prefixOf, normBits, delPrefixBits, prefixBits]
  by_cases hdefault : e.srvid.toList = defaultService
  · simp [hdefault, h hdefault]
  · simp [hdefault]

theorem globalMatch_forward {t : Target} (ht : t ∈ targets se.targetSet) (htype : t.type = .forward) :
    serviceEntryGlobalMatch se = some true := by
  have hsel : ∀ x ∈ targets se.targetSet, selects .forward none 0 matchNoProtocol x = some (x.type == .forward) := by
    intro x _
    by_cases hx : x.type = .forward
    · simp [selects, isTarget, hx]
    · simp [selects, isTarget, hx]
  obtain ⟨r, hfind, hr⟩ := findTarget_find hsel
  have hsome : ((targets se.targetSet).find? (·.type == .forward)).isSome := by
    rw [find?_isSome]
    exact ⟨t, ht, by simp [htype]⟩
  rw [← hr, isSome_map] at hsome
  simp [serviceEntryGlobalMatch, serviceEntryGetTarget, hfind, hsome]

theorem findExact_own (h : TableRep tbl pos M) {key : List UInt8} {bits : ℕ} (hl : M.lookup (bitsOf key bits) = some se)
    {t : Target} (ht : t ∈ targets se.targetSet) (htype : t.type = .forward) :
    ∃ n, pos (bitsOf key bits) = some n ∧ serviceFindExact tbl key bits = some (some n) := by
  obtain ⟨r, hfind, hr⟩ := find_match_spec h.toLayout key bits (some (matchNode .exact tbl))
  obtain ⟨n, -, hn, -⟩ := h.bound_node hl
  have hit : Hit tbl.tree (some (matchNode .exact tbl)) n :=
    (hit_iff_match h hn).mpr ⟨se, hl, globalMatch_forward ht htype⟩
  cases r with
  | none => exact absurd hit (hr _ n prefix_rfl hn)
  | some n' =>
    obtain ⟨q, hq, hlong⟩ := hr
    -- the own prefix is the longest there can be
    have hown : IsLongest (fun q => ∃ n, pos q = some n ∧ Hit tbl.tree (some (matchNode .exact tbl)) n)
        (bitsOf key bits) (bitsOf key bits) :=
      ⟨prefix_rfl, ⟨n, hn, hit⟩, fun _ hr _ => hr.length_le⟩
    obtain rfl := hlong.unique hown
    obtain ⟨nd, hnd, hnode⟩ := h.node _ n' hq
    refine ⟨n', hq, ?_⟩
    have hdepth : nd.prefixBits = bits := by rw [hnode.depth, length_bitsOf]
    simp [serviceFindExact, serviceTableFind, hfind, hnd, hdepth]

/-! ## The turn of one entry -/

structure Deleted (tbl tbl' : Table) (p : List Bool) (f : Found) : Prop where
  entry : ∃ se, entryAt tbl p = some se ∧ Lies f se.targetSet ∧
    entryAt tbl' p = if dropTarget f = [] then none else some ⟨dropTarget f, se.count - 1⟩
  others : ∀ q, q ≠ p → entryAt tbl' q = entryAt tbl q

/-- The default entry does not leave a table that has no other. -/
def KeepsRoot (tbl : Table) (p : List Bool) : Prop :=
  p = [] → 1 < (targetsAt tbl []).length ∨ ∃ q, q ≠ [] ∧ entryAt tbl q ≠ none

theorem releasable_of_keeps (h : TableRep tbl pos M) (hok : EntryOk se) {p : List Bool} (hl : M.lookup p = some se)
    {f : Found} (hlies : Lies f se.targetSet) (hroot : KeepsRoot tbl p) (hempty : dropTarget f = []) :
    BstRelease.Releasable pos p := by
  intro hp
  rcases hroot hp with hlen | ⟨q, hne, hq⟩
  · -- the entry had one target only
    subst hp
    have hperm := (drop_ok (entryOk_iff.mp hok).1 hlies).2.length_eq
    rw [hempty, targets_nil] at hperm
    rw [targetsAt_eq h, hl] at hlen
    simp only [map_some, getD_some, hperm, length_singleton, lt_irrefl] at hlen
  · exact ServiceInverse.root_has_child h ((ServiceInverse.mem_iff_entryAt h).mpr hq) hne

theorem delOne_spec (h : Managed tbl) {x : Target} (howned : Owned (prefixOf e) x tbl) (hdst : x.dst = e.address.toList)
    (htype : x.type = .forward) (hrule : ruleType e.type = .forward)
    (hdefault : e.srvid.toList = defaultService → e.srvidPrefixBits = 0) (hroot : KeepsRoot tbl (prefixOf e)) (i : ℕ) :
    ∃ tbl' f, delOne tbl i e = some (tbl', some (statOf e f.target.stats)) ∧ Deleted tbl tbl' (prefixOf e) f ∧
      Alike x f.target := by
  obtain ⟨pos, M, hrep, hok, hM⟩ := h
  obtain ⟨se, hl, t, hfilter, halike⟩ := (owned_iff hrep).mp howned
  have hd : (Buf.mk (slotAddr i + 24) e.address.toList).bytes.length = 4 := e.address.toList_length
  obtain ⟨hmem, hforwards⟩ := mem_filter.mp (show t ∈ _ from hfilter ▸ mem_singleton_self t)
  obtain ⟨f, hlies, rfl⟩ := lies_of_mem hmem
  rw [hdst] at hfilter hforwards
  have hfound := find_sole (hM _ _ hl) hd hfilter hlies hforwards
  have hrem : removeTarget .forward (addressOf i e) 4 se =
      some ⟨⟨dropTarget f, se.count - 1⟩, 1, dropTarget f = [], some f.target.stats⟩ := by
    simp [removeTarget, ServiceTargets.serviceEntryRemoveTarget, addressOf, hfound]
  have hown := delPrefix_eq hdefault
  obtain ⟨n, hn, hfind⟩ := findExact_own hrep (hown.symm ▸ hl) hmem (halike.1.trans htype)
  rw [hown] at hn
  obtain ⟨tbl', pos', hrun, hrep', -⟩ := removeFrom_spec hrep hn hl hrem
    (fun hgone => releasable_of_keeps hrep (hok.entry _ _ hl) hl hlies hroot (by simpa using hgone))
  refine ⟨tbl', f, ?_, ⟨⟨se, by rw [entryAt_eq hrep, hl], hlies, ?_⟩, ?_⟩, halike⟩
  · simp [delOne, hfind, hrule, ServiceTable.serviceEntryRemoveTarget, hrun]
  · rw [entryAt_eq hrep', lookup_assign, if_pos rfl]
    simp [outcome]
  · intro q hq
    rw [entryAt_eq hrep', lookup_assign, if_neg hq, entryAt_eq hrep]

theorem Deleted.restores {x : Target} {p : List Bool} {f₁ f : Found} {tbl₁ : Table} (h : Deleted tbl tbl' p f)
    (hmanaged : Managed tbl) (howned : Owned p x tbl) (hx : forwards x.dst f.target = true) (hlen : x.dst.length = 4)
    (hlies : Lies f₁ (setsAt tbl₁ p)) (hf₁ : forwards x.dst f₁.target = true)
    (hsame : List.Forall₂ AlikeSet (setsAt tbl₁ p) (setsAt tbl p)) :
    List.Forall₂ AlikeSet (dropTarget f₁) (setsAt tbl' p) := by
  obtain ⟨pos, M, hrep, -, hM⟩ := hmanaged
  obtain ⟨se, hse, hf, hafter⟩ := h.entry
  obtain ⟨_, hse', t, hfilter, -⟩ := howned
  cases hse.symm.trans hse'
  rw [show setsAt tbl p = se.targetSet by simp [setsAt, hse]] at hsame
  obtain ⟨f₂, hf₂, halike, hdrop⟩ := alike_drop hsame hlies
  -- both are what the search for the address finds
  have hl : M.lookup p = some se := by rw [← entryAt_eq hrep, hse]
  have hsame₂ : forwards x.dst f₂.target = true := by
    rw [forwards] at hf₁ ⊢
    rw [halike.1, halike.2.2.2, hf₁]
  have hfind := @find_sole t se f ⟨0, x.dst⟩ (hM _ _ hl) hlen hfilter hf hx
  have hfind₂ := @find_sole t se f₂ ⟨0, x.dst⟩ (hM _ _ hl) hlen hfilter hf₂ hsame₂
  obtain rfl : f = f₂ := some.inj (some.inj (hfind.symm.trans hfind₂))
  have hsets : setsAt tbl' p = dropTarget f := by
    rw [setsAt, hafter]
    split
    next hempty => simp [hempty]
    next => simp
  rw [hsets]
  exact hdrop

/-! ## The message -/

section Message

variable {size n i j : ℕ} {m m' : Mem}

theorem delLoop_add (size : ℕ) (m : Mem) (a b i : ℕ) (tbl : Table) : delLoop size m (a + b) i tbl =
    (delLoop size m a i tbl).bind fun x => (delLoop size m b (i + a) x.1).map fun y => (y.1, x.2 ++ y.2) := by
  induction a generalizing i tbl with
  | zero =>
    rw [zero_add, add_zero, delLoop, Option.bind_some]
    cases delLoop size m b i tbl <;> rfl
  | succ a ih =>
    rw [Nat.succ_add, delLoop, delLoop]
    cases delStep size m tbl i with
    | none => rfl
    | some out =>
      simp only [Option.bind_eq_bind, Option.bind_some, ih, Option.pure_def]
      rw [show i + 1 + a = i + (a + 1) by omega]
      cases delLoop size m a (i + 1) out.1 with
      | none => rfl
      | some x =>
        simp only [Option.bind_some]
        cases delLoop size m b (i + (a + 1)) x.1 with
        | none => rfl
        | some y => simp

theorem reports_split {start tbl₂ tbl₃ : Table} {before : List ServiceInfoStat} {stat : ServiceInfoStat}
    (hlen : lenOf m = ctrlmsgServiceNumLen n) (hj : j < n) (hbefore : delLoop size m j 0 start = some (tbl₂, before))
    (hstep : delStep size m tbl₂ j = some (tbl₃, some stat)) :
    (j + 1 = n → ctrlHandleDelServiceMsg size true start m = some (tbl₃, m, [statMessage m (before ++ [stat])])) ∧
      ∀ tbl₄ m₄ sent, ctrlHandleDelServiceMsg size true start m = some (tbl₄, m₄, sent) →
        ∃ after, sent = [statMessage m (before ++ stat :: after)] := by
  have hone : delLoop size m (j + 1) 0 start = some (tbl₃, before ++ [stat]) := by
    rw [delLoop_add, hbefore]
    simp [delLoop, hstep]
  have hnum := CtrlService.num_lt hlen
  constructor
  · rintro rfl
    simp [ctrlHandleDelServiceMsg, serviceNum_of_len hlen hnum, hone]
  · intro tbl₄ m₄ sent hrun
    obtain ⟨k, rfl⟩ := Nat.exists_eq_add_of_lt hj
    rw [ctrlHandleDelServiceMsg, if_pos rfl, serviceNum_of_len hlen hnum, add_right_comm, delLoop_add, hone] at hrun
    obtain ⟨⟨tbl₅, stats⟩, hrest, hrun⟩ := bind_eq_some_iff.mp hrun
    obtain ⟨⟨tbl₆, after⟩, -, hstats⟩ := map_eq_some_iff.mp hrest
    cases hstats
    dsimp only at hrun
    rw [if_neg (by simp)] at hrun
    obtain ⟨-, hrun⟩ := Prod.mk.inj (some.inj hrun)
    cases hrun
    exact ⟨after, by simp⟩

theorem accepted_owned (h : Host) (hmanaged : Managed tbl) (hroom : Roomy 1 tbl) {ifindex : UInt32}
    (hdev : h.resolveDev (infoAt m i).address (infoAt m i).ifIndex = some ifindex)
    (hadd : addStep h size m tbl i = some (tbl', true)) (he : infoAt m i = e) :
    ruleType e.type = .forward ∧ Managed tbl' ∧ Owned (prefixOf e) (ruleFor e.weight ifindex e.address.toList) tbl' ∧
      ∃ f, Lies f (setsAt tbl' (prefixOf e)) ∧ forwards e.address.toList f.target = true ∧
        dropTarget f = setsAt tbl (prefixOf e) := by
  rw [addStep] at hadd
  split at hadd
  · rw [he] at hadd hdev
    rw [addOne] at hadd
    split at hadd
    next hrule =>
      rw [hdev] at hadd
      obtain ⟨⟨tbl₁, r⟩, hserv, hadd⟩ := bind_eq_some_iff.mp hadd
      obtain ⟨rfl, hpos⟩ := Prod.mk.inj (some.inj hadd)
      have hd : (Buf.mk (slotAddr i + 24) e.address.toList).bytes.length = 4 := e.address.toList_length
      refine ⟨hrule, add_owned hmanaged ⟨e.srvid.toList_length, prefixBits_le e⟩ ⟨?_, fun se hse => ?_⟩ hd hserv
        (of_decide_eq_true hpos)⟩
      · have := hroom.1
        omega
      · exact Roomy.entry hroom hse _
    next => cases hadd
  · cases hadd

structure Exact (stat : ServiceInfoStat) (e : ServiceInfo) (s : TargetStats) : Prop where
  service : stat.service = e
  packetsResolved : stat.packetsResolved = s.packetsResolved
  bytesResolved : stat.bytesResolved = s.bytesResolved
  packetsDropped : stat.packetsDropped = s.packetsDropped
  bytesDropped : stat.bytesDropped = s.bytesDropped

/-- A rule that was added goes with a delete of the same description, alone, and is reported as it was: if a
default service is given with no bits, the default entry is not the last one, and the bytes and the packets that were
dropped are as many. -/
theorem add_del_exact (h : Host) {start tbl₀ tbl₁ tbl₂ : Table} {ifindex : UInt32} {before : List ServiceInfoStat}
    (hmanaged : Managed tbl₀) (hroom : Roomy 1 tbl₀)
    (hdev : h.resolveDev (infoAt m i).address (infoAt m i).ifIndex = some ifindex)
    (hadd : addStep h size m tbl₀ i = some (tbl₁, true)) (he : infoAt m i = e)
    (hrun : Run (prefixOf e) (ruleFor e.weight ifindex e.address.toList) tbl₁ tbl₂)
    (hlen : lenOf m' = ctrlmsgServiceNumLen n) (hsize : ctrlmsgServiceNumLen n ≤ size) (hj : j < n)
    (he' : infoAt m' j = e) (hbefore : delLoop size m' j 0 start = some (tbl₂, before))
    (hdefault : e.srvid.toList = defaultService → e.srvidPrefixBits = 0) (hroot : KeepsRoot tbl₂ (prefixOf e))
    (hdropped : ∀ t ∈ targetsAt tbl₂ (prefixOf e), forwards e.address.toList t = true →
      t.stats.bytesDropped = t.stats.packetsDropped) :
    ∃ tbl₃ f stat, Deleted tbl₂ tbl₃ (prefixOf e) f ∧ Alike (ruleFor e.weight ifindex e.address.toList) f.target ∧
      Exact stat e f.target.stats ∧
      (List.Forall₂ AlikeSet (setsAt tbl₁ (prefixOf e)) (setsAt tbl₂ (prefixOf e)) →
        List.Forall₂ AlikeSet (setsAt tbl₀ (prefixOf e)) (setsAt tbl₃ (prefixOf e))) ∧
      (j + 1 = n → ctrlHandleDelServiceMsg size true start m' = some (tbl₃, m', [statMessage m' (before ++ [stat])])) ∧
      ∀ tbl₄ m₄ sent, ctrlHandleDelServiceMsg size true start m' = some (tbl₄, m₄, sent) →
        ∃ after, sent = [statMessage m' (before ++ stat :: after)] := by
  obtain ⟨hrule, hmanaged₁, howned₁, f₁, hlies₁, hf₁, hdrop₁⟩ := accepted_owned h hmanaged hroom hdev hadd he
  obtain ⟨hmanaged₂, howned₂⟩ := run_owned hrun hmanaged₁ howned₁
  obtain ⟨tbl₃, f, hdel, hdeleted, halike⟩ := delOne_spec hmanaged₂ howned₂ rfl rfl hrule hdefault hroot j
  have hforwards : forwards e.address.toList f.target = true := by
    simp [forwards, halike.1, halike.2.2.2, ruleFor]
  have hstep : delStep size m' tbl₂ j = some (tbl₃, some (statOf e f.target.stats)) := by
    have hin : slotAddr (j + 1) ≤ size := by
      simp only [slotAddr, ctrlmsgServiceNumLen] at hsize ⊢
      omega
    rw [delStep, if_pos hin, he', hdel]
  refine ⟨tbl₃, f, statOf e f.target.stats, hdeleted, halike, ⟨rfl, rfl, rfl, rfl, ?_⟩, fun hsame => ?_,
    reports_split hlen hj hbefore hstep⟩
  · obtain ⟨se, hse, hlies, -⟩ := hdeleted.entry
    refine (hdropped f.target ?_ hforwards).symm
    rw [targetsAt, hse, map_some, getD_some, targets_of_lies hlies]
    simp
  · rw [← hdrop₁]
    exact hdeleted.restores hmanaged₂ howned₂ hforwards e.address.toList_length hlies₁ hf₁ hsame

end Message

namespace Sample

open ServiceRuns.Sample CtrlService.Sample

def addMessage : Mem := message .addService [info 1]

def delMessage : Mem := message .delService [info 1]

theorem added_run : addStep host 2048 addMessage serviceTableInit 0 = some (oneRule, true) := by
  have hinfo : infoAt addMessage 0 = info 1 := by decide +kernel
  rw [addStep, if_pos (by decide), hinfo]
  rfl

def counted (packets bytes : ℤ) : Table := (count oneRule [true] 0 0 packets bytes).getD oneRule

theorem counted_run (packets bytes : ℤ) : count oneRule [true] 0 0 packets bytes = some (counted packets bytes) := rfl

def defaultInfo : ServiceInfo := { info 1 with srvidPrefixBits := 8, srvid := toVec 32 defaultService }

def withDefault : Table := ((addOne host serviceTableInit 0 defaultInfo).getD (serviceTableInit, false)).1

theorem init_managed : Managed serviceTableInit := managed_of_reachable .init

end Sample

open ServiceRuns.Sample CtrlService.Sample Sample in
/-- The rule is added, three packets of it are counted, and it is deleted. -/
theorem add_del_exact_counted : ∃ tbl₃ f stat, Deleted (counted 3 300) tbl₃ (prefixOf (info 1)) f ∧
    Alike (ruleFor (info 1).weight 1 (info 1).address.toList) f.target ∧ Exact stat (info 1) f.target.stats ∧
    (List.Forall₂ AlikeSet (setsAt oneRule (prefixOf (info 1))) (setsAt (counted 3 300) (prefixOf (info 1))) →
      List.Forall₂ AlikeSet (setsAt serviceTableInit (prefixOf (info 1))) (setsAt tbl₃ (prefixOf (info 1)))) ∧
    (0 + 1 = 1 → ctrlHandleDelServiceMsg 2048 true (counted 3 300) delMessage =
      some (tbl₃, delMessage, [statMessage delMessage ([] ++ [stat])])) ∧
    ∀ tbl₄ m₄ sent, ctrlHandleDelServiceMsg 2048 true (counted 3 300) delMessage = some (tbl₄, m₄, sent) →
      ∃ after, sent = [statMessage delMessage ([] ++ stat :: after)] := by
  refine add_del_exact host init_managed (init_roomy.mono (by decide)) rfl added_run (by decide +kernel)
    (.count [true] 0 0 3 300 .refl (counted_run 3 300)) (by decide +kernel) (by decide) (by decide)
      (by decide +kernel) rfl
    (by decide +kernel) ?_ (by decide +kernel)
  intro hroot
  exact absurd hroot (by decide +kernel)

open ServiceRuns.Sample CtrlService.Sample Sample in
/-- A hundred dropped bytes are reported as one, and a rule for the default service that was added with a number of bits
is not found. -/
theorem dropped_bytes_misreported : addStep host 2048 addMessage serviceTableInit 0 = some (oneRule, true) ∧
      count oneRule [true] 0 0 (-1) (-100) = some (counted (-1) (-100)) ∧
      targetsAt (counted (-1) (-100)) [true] = [⟨.forward, 1, ⟨0, 0, 1, 100⟩, .oif 1, [10, 0, 0, 1]⟩] ∧
      (ctrlHandleDelServiceMsg 2048 true (counted (-1) (-100)) delMessage).map (·.2.2) =
        some [statMessage delMessage [{ service := info 1, packetsDropped := 1, bytesDropped := 1 }]] ∧
      addOne host serviceTableInit 0 defaultInfo = some (withDefault, true) ∧
      targetsAt withDefault [] = [⟨.forward, 1, {}, .oif 1, [10, 0, 0, 1]⟩] ∧
      (ctrlHandleDelServiceMsg 2048 true withDefault (message .delService [defaultInfo])).map (fun out =>
        (targetsAt out.1 [], out.2.2)) = some ([⟨.forward, 1, {}, .oif 1, [10, 0, 0, 1]⟩],
          [serviceMessage CtrlType.delService.toByte .noentry (List.replicate 8 0) [defaultInfo]]) :=
  ⟨added_run, counted_run _ _, by decide +kernel, by decide +kernel, rfl, by decide +kernel, by decide +kernel⟩

end CtrlDelete
