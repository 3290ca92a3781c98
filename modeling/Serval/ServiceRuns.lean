import Serval.ServiceTableSpec

/-! # Runs of the service table

The counters limit what a run may do: `Careful` keeps inside them. One call can leave an entry without targets
in the table: `Tidy` keeps away from that as well.
-/
namespace ServiceRuns

open BitString BstModel BstLayout BstLookup BstTraversal ServiceEntryInvariant Option Finmap
open ServiceTargets TargetSets ServiceIterator ServiceTable ServiceTableSpec
open List hiding after

inductive Op where
  | add (srvid : Option (List UInt8)) (prefixBits : ℕ) (type : RuleType) (flags : UInt16)
      (priority weight : UInt32) (dst : Option Buf) (dstlen : ℕ) (out : TargetOut) (mem : ℕ)
  | modify (srvid : Option (List UInt8)) (prefixBits : ℕ) (type : RuleType) (flags : UInt16)
      (priority weight : UInt32) (dst : Option Buf) (dstlen : ℕ) (newDst : Option Buf)
      (newDstlen : ℕ) (routed : Bool) (mem : ℕ)
  | delTarget (srvid : List UInt8) (prefixBits : ℕ) (type : RuleType) (dst : Option Buf)
      (dstlen : ℕ)
  | delTargetAll (type : RuleType) (dst : Option Buf) (dstlen : ℕ)
  | delDevAll (ifindex : UInt32)
  | entryRemove (p : List Bool) (type : RuleType) (dst : Option Buf) (dstlen : ℕ)

def run (tbl : Table) : Op → Option (Table × ℤ)
  | .add srvid prefixBits type flags priority weight dst dstlen out mem =>
    serviceAdd tbl srvid prefixBits type flags priority weight dst dstlen out mem
  | .modify srvid prefixBits type flags priority weight dst dstlen newDst newDstlen routed mem =>
    serviceModify tbl srvid prefixBits type flags priority weight dst dstlen newDst newDstlen
      routed mem
  | .delTarget srvid prefixBits type dst dstlen => do
    let (tbl, _) ← serviceTableDelTarget tbl srvid prefixBits type dst dstlen
    return (tbl, 0)
  | .delTargetAll type dst dstlen => serviceTableDelTargetAll tbl type dst dstlen
  | .delDevAll ifindex => serviceTableDelDevAll tbl ifindex
  | .entryRemove p type dst dstlen => do
    let n ← nodeAt tbl.tree p
    let (tbl, r) ← ServiceTable.serviceEntryRemoveTarget tbl n type dst dstlen
    return (tbl, r.ret)

def entryAt (tbl : Table) (p : List Bool) : Option ServiceEntry :=
  (nodeAt tbl.tree p).bind (getService tbl)

/-- Service identifiers have 256 bits; entries are only removed from while they are active. -/
def Legal (tbl : Table) : Op → Prop
  | .add (some srvid) prefixBits .. => srvid.length = 32 ∧ prefixBits ≤ 256
  | .modify (some srvid) prefixBits .. => srvid.length = 32 ∧ prefixBits ≤ 256
  | .delTarget srvid prefixBits .. => srvid.length = 32 ∧ prefixBits ≤ 256
  | .entryRemove p .. => entryAt tbl p ≠ none
  | _ => True

def DevOnce (tbl : Table) (ifindex : UInt32) : Prop :=
  ∀ p se, entryAt tbl p = some se → (targets se.targetSet).all (onDev ifindex) → (targets se.targetSet).length = 1

def Careful (tbl : Table) : Op → Prop
  | .add (some srvid) prefixBits _ _ priority .. => tbl.services.toNat < 2 ^ 32 - 1 ∧
      ∀ se, entryAt tbl (bitsOf srvid (normBits srvid prefixBits)) = some se →
        HasRoom se.targetSet priority ∧ (targets se.targetSet).length < 2 ^ 32 - 1
  | .modify (some srvid) prefixBits _ _ priority .. =>
      ∀ se, entryAt tbl (bitsOf srvid (normBits srvid prefixBits)) = some se → HasRoom se.targetSet priority
  | _ => True

/-- Besides, no call by device empties an entry of several targets. -/
def Tidy (tbl : Table) (op : Op) : Prop :=
  Careful tbl op ∧ ∀ ifindex, op = .delDevAll ifindex → DevOnce tbl ifindex

inductive Reachable (ok : Table → Op → Prop) : Table → Prop where
  | init : Reachable ok serviceTableInit
  | step {tbl tbl' r} (op : Op) : Reachable ok tbl → Legal tbl op → ok tbl op →
      run tbl op = some (tbl', r) → Reachable ok tbl'

structure MapOk (M : BitMap ServiceEntry) : Prop where
  entry : ∀ p se, M.lookup p = some se → EntryOk se
  card : M.keys.card < 2 ^ 32

def Full (M : BitMap ServiceEntry) : Prop := ∀ p se, M.lookup p = some se → se.targetSet ≠ []

variable {tbl tbl' : Table} {pos : List Bool → Option Ptr} {M : BitMap ServiceEntry}

theorem entryAt_eq (h : TableRep tbl pos M) (p : List Bool) : entryAt tbl p = M.lookup p := by
  rw [entryAt, h.nodeAt_eq]
  cases hp : pos p with
  | none => simp [h.lookup, hp]
  | some n => simp [getService_spec h hp]

theorem services_eq (h : TableRep tbl pos M) (hok : MapOk M) : tbl.services.toNat = M.keys.card := by
  rw [h.services, UInt32.toNat_ofNat']
  exact Nat.mod_eq_of_lt hok.card

variable {e se se' : ServiceEntry} {r : ℤ} {op : Op} {rem : Removal} {M' : BitMap ServiceEntry}
  {p : List Bool}

theorem targets_ne_nil (h : EntryOk se) (hne : se.targetSet ≠ []) : targets se.targetSet ≠ [] := by
  obtain ⟨set, rest, hs⟩ := exists_cons_of_ne_nil hne
  have hfill := h.filled set (by simp [hs])
  simp [hs, hfill]

theorem sets_ne_nil {sets : List TargetSet} (h : targets sets ≠ []) : sets ≠ [] := by
  rintro rfl
  exact h rfl

theorem entryOk_create : EntryOk serviceEntryCreate :=
  ServiceEntryInvariant.reachable_ok .create

def atLeastOne (weight : UInt32) : UInt32 := if weight = 0 then 1 else weight

def Swept (step : ServiceEntry → Option Removal) (M M' : BitMap ServiceEntry) : Prop :=
  (∀ p se, M.lookup p = some se → step se ≠ none) ∧
    ∀ p, M'.lookup p = (M.lookup p).bind fun se => (step se).bind fun r => (outcome r).1

def Outcome (M : BitMap ServiceEntry) (op : Op) (M' : BitMap ServiceEntry) (r : ℤ) : Prop :=
  match op with
  | .add none .. => M' = M ∧ r ≠ 1
  | .add (some srvid) prefixBits type flags priority weight dst dstlen out _ =>
    AddOutcome M (bitsOf srvid (normBits srvid prefixBits)) type flags priority
      (atLeastOne weight) dst dstlen out M' r
  | .modify none .. => M' = M
  | .modify (some srvid) prefixBits type flags priority weight dst dstlen newDst newDstlen routed
      mem => M' = M ∨ ∃ se se', M.lookup (bitsOf srvid (normBits srvid prefixBits)) = some se ∧
        serviceEntryModifyTarget se type flags priority (atLeastOne weight) dst dstlen newDst
          newDstlen routed mem = some (se', r) ∧
        M' = M.insert (bitsOf srvid (normBits srvid prefixBits)) se'
  | .delTarget srvid prefixBits type dst dstlen =>
    (M' = M ∧ ∀ q, q <+: bitsOf srvid prefixBits → q ∉ M) ∨
      ∃ q se rem, IsLongest (· ∈ M) (bitsOf srvid prefixBits) q ∧ M.lookup q = some se ∧
        removeTarget type dst dstlen se = some rem ∧ M' = assign M q (outcome rem).1
  | .delTargetAll type dst dstlen => Swept (removeTarget type dst dstlen) M M'
  | .delDevAll ifindex => Swept (removeByDev ifindex) M M'
  | .entryRemove p type dst dstlen => ∃ se rem, M.lookup p = some se ∧
      removeTarget type dst dstlen se = some rem ∧ M' = assign M p (outcome rem).1

theorem swept_of_run (h : TableRep tbl pos M) {step : ServiceEntry → Option Removal}
    (hrun : forAllEntries tbl (fun tbl n =>
      (removeFrom step tbl n).map fun x => (x.1, (x.2.ret : ℤ))) = some (tbl', r)) :
    ∃ pos' M', TableRep tbl' pos' M' ∧ Swept step M M' := by
  obtain ⟨hstuck, hruns⟩ := for_all_of (removeFrom_callback step) h
  have hfree : ∀ q v, M.lookup q = some v → ¬ Stuck (fun se => (step se).map outcome) pos q v := by
    intro q v hv hs
    have hnone := hstuck ⟨q, v, hv, hs⟩
    rw [hnone] at hrun
    cases hrun
  obtain ⟨tbl₁, pos', M', hrun', hrep, hM'⟩ := hruns hfree
  rw [hrun'] at hrun
  cases hrun
  refine ⟨pos', M', hrep, ?_, ?_⟩
  · intro p se hse hnone
    exact hfree p se hse (.inl (by simp [hnone]))
  · intro p
    rw [hM']
    cases M.lookup p with
    | none => rfl
    | some se => cases hs : step se <;> simp [after, hs]

/-- Every call that has an outcome leaves a table that stands for a map of that outcome. -/
theorem step_outcome (h : TableRep tbl pos M) (hok : MapOk M) (hl : Legal tbl op) (hc : Careful tbl op)
    (hrun : run tbl op = some (tbl', r)) : ∃ pos' M', TableRep tbl' pos' M' ∧ Outcome M op M' r := by
  cases op with
  | add srvid prefixBits type flags priority weight dst dstlen out mem =>
    cases srvid with
    | none =>
      cases hrun
      exact ⟨pos, M, h, rfl, by decide⟩
    | some srvid =>
      have hroom : HasEntryRoom M := by
        rw [HasEntryRoom, ← services_eq h hok]
        exact hc.1
      obtain ⟨pos', M', hrep, hout, -⟩ := add_spec h hroom (by rw [hl.1]; exact hl.2) hrun
      exact ⟨pos', M', hrep, hout⟩
  | modify srvid prefixBits type flags priority weight dst dstlen newDst newDstlen routed mem =>
    cases srvid with
    | none =>
      cases hrun
      exact ⟨pos, M, h, rfl⟩
    | some srvid =>
      obtain ⟨M', hrep, hout⟩ := modify_spec h hrun
      exact ⟨pos, M', hrep, hout.imp_left And.left⟩
  | delTarget srvid prefixBits type dst dstlen =>
    obtain ⟨⟨tbl₁, stats⟩, hdel, hrun⟩ := bind_eq_some_iff.mp hrun
    cases hrun
    obtain ⟨pos', M', hrep, -, hout⟩ := del_target_spec h hdel
    exact ⟨pos', M', hrep, hout⟩
  | delTargetAll type dst dstlen | delDevAll ifindex => exact swept_of_run h hrun
  | entryRemove p type dst dstlen =>
    obtain ⟨n, hn, hrun⟩ := bind_eq_some_iff.mp hrun
    obtain ⟨⟨tbl₁, rem⟩, hrem, hrun⟩ := bind_eq_some_iff.mp hrun
    cases hrun
    have hm : p ∈ M := by
      rw [Legal, entryAt_eq h] at hl
      exact mem_iff.mpr (Option.ne_none_iff_exists'.mp hl)
    rw [h.nodeAt_eq] at hn
    obtain ⟨se, pos', hlook, hstep, hrep, -⟩ := removeFrom_inv h hn hm hrem
    exact ⟨pos', _, hrep, se, rem, hlook, hstep, rfl⟩

variable {dst : Option Buf} {type : RuleType}

theorem removeTarget_ok {dstlen : ℕ}
    (hse : EntryOk se) (h : removeTarget type dst dstlen se = some rem) :
    (rem.entry = se ∧ rem.ret = 0 ∧ rem.gone = false ∧
      ∀ t ∈ targets se.targetSet, removes type dst dstlen t = some false) ∨
    (EntryOk rem.entry ∧ rem.ret = 1 ∧ (rem.gone = true ↔ rem.entry.targetSet = []) ∧
      ∃ t, removes type dst dstlen t = some true ∧ (targets se.targetSet).Perm (t :: targets rem.entry.targetSet)) := by
  obtain ⟨⟨se', ret, stats⟩, hrem, hr⟩ := bind_eq_some_iff.mp h
  cases hr
  have hrun : ServiceEntryInvariant.run se (.remove type dst dstlen) = some (se', ret) := by
    simp [ServiceEntryInvariant.run, hrem]
  have hfit : ServiceEntryInvariant.Fits se (.remove type dst dstlen) := trivial
  have hok := (step_ok hse hfit hrun).1
  obtain ⟨found, hfound, hrem⟩ := bind_eq_some_iff.mp hrem
  cases found with
  | none =>
    obtain ⟨rfl, rfl, rfl⟩ := by simpa using hrem
    exact .inl ⟨rfl, rfl, by simp, findTarget_none.mp hfound⟩
  | some f =>
    obtain ⟨rfl, rfl, rfl⟩ := by simpa using hrem
    obtain ⟨hlies, hsel, -⟩ := findTarget_some hfound
    exact .inr ⟨hok, rfl, by simp, f.target, hsel, (drop_ok (entryOk_iff.mp hse).1 hlies).2⟩

theorem removeByDev_ok (ifindex : UInt32) (hse : EntryOk se) :
    ∃ rem, removeByDev ifindex se = some rem ∧ EntryOk rem.entry ∧
      rem.ret = (targets se.targetSet).countP (onDev ifindex) ∧
      content rem.entry.targetSet = keepOnly (!onDev ifindex ·) (content se.targetSet) ∧
      (rem.gone = true ↔ rem.ret = 1 ∧ rem.entry.targetSet = []) := by
  obtain ⟨sets', hrun, hsets, hcont⟩ := removeSetsByDev_spec ifindex (entryOk_iff.mp hse).1
  have hdev : serviceEntryRemoveTargetByDev se ifindex = some
      (⟨sets', se.count - UInt32.ofNat ((targets se.targetSet).countP (onDev ifindex))⟩,
        (targets se.targetSet).countP (onDev ifindex)) := by
    simp [serviceEntryRemoveTargetByDev, hrun]
  have hfit : ServiceEntryInvariant.Fits se (.removeByDev ifindex) := trivial
  have hok := (step_ok hse hfit (by simp only [ServiceEntryInvariant.run, hdev]; rfl)).1
  exact ⟨_, by simp only [removeByDev, hdev]; rfl, hok, rfl, hcont, by simp⟩

theorem dev_targets {ifindex : UInt32}
    (hcont : content rem.entry.targetSet = keepOnly (!onDev ifindex ·) (content se.targetSet)) :
    targets rem.entry.targetSet = (targets se.targetSet).filter (!onDev ifindex ·) := by
  rw [targets_eq_content, hcont, flatMap_keepOnly, ← targets_eq_content]

theorem dev_empty_iff {ifindex : UInt32} (hok : EntryOk rem.entry)
    (hcont : content rem.entry.targetSet = keepOnly (!onDev ifindex ·) (content se.targetSet)) :
    rem.entry.targetSet = [] ↔ (targets se.targetSet).all (onDev ifindex) := by
  constructor
  · intro h
    have hnil := (dev_targets hcont).symm
    rw [h, targets_nil, filter_eq_nil_iff] at hnil
    exact all_eq_true.mpr fun t ht => by simpa using hnil t ht
  · intro hall
    by_contra hne
    have hsome := targets_ne_nil hok hne
    rw [dev_targets hcont] at hsome
    exact hsome (filter_eq_nil_iff.mpr fun t ht => by simpa using all_eq_true.mp hall t ht)

def deletes : Op → Option (RuleType × Option Buf × ℕ)
  | .delTarget _ _ type dst dstlen => some (type, dst, dstlen)
  | .delTargetAll type dst dstlen => some (type, dst, dstlen)
  | .entryRemove _ type dst dstlen => some (type, dst, dstlen)
  | _ => none

/-- All that a call can do to an entry that it leaves in the table: the entry of `p` was `se`, or `se` is new, and
becomes `se'`. -/
inductive Moves (M : BitMap ServiceEntry) : Op → List Bool → ServiceEntry → ServiceEntry → Prop where
  | add {srvid prefixBits type flags priority weight dst dstlen out mem se se' m m'} :
      ruleRefused type dst dstlen = false →
      serviceEntryAddTarget se type flags priority (atLeastOne weight) dst dstlen out m = some (se', 1, m') →
      (M.lookup (bitsOf srvid (normBits srvid prefixBits)) = none ∧ se = serviceEntryCreate ∨
        M.lookup (bitsOf srvid (normBits srvid prefixBits)) = some se ∧
          hasDuplicate type dst dstlen (iterFuel se) (serviceIterInit se .all 0).1 = some false) →
      Moves M (.add (some srvid) prefixBits type flags priority weight dst dstlen out mem)
        (bitsOf srvid (normBits srvid prefixBits)) se se'
  | modify {srvid prefixBits type flags priority weight dst dstlen newDst newDstlen routed mem se
      se' r} : M.lookup (bitsOf srvid (normBits srvid prefixBits)) = some se →
      serviceEntryModifyTarget se type flags priority (atLeastOne weight) dst dstlen newDst
        newDstlen routed mem = some (se', r) →
      Moves M (.modify (some srvid) prefixBits type flags priority weight dst dstlen newDst newDstlen
        routed mem) (bitsOf srvid (normBits srvid prefixBits)) se se'
  | remove {op type dst dstlen p se rem} : deletes op = some (type, dst, dstlen) →
      M.lookup p = some se → removeTarget type dst dstlen se = some rem → rem.gone = false →
      Moves M op p se rem.entry
  | removeByDev {ifindex p se rem} : M.lookup p = some se → removeByDev ifindex se = some rem →
      rem.gone = false → Moves M (.delDevAll ifindex) p se rem.entry

theorem outcome_some (h : (outcome rem).1 = some e) : rem.gone = false ∧ rem.entry = e := by
  cases hg : rem.gone with
  | true => simp [outcome, hg] at h
  | false => exact ⟨rfl, by simpa [outcome, hg] using h⟩

theorem moves_assign {q : List Bool} (hM : M' = assign M q (outcome rem).1)
    (hmove : rem.gone = false → Moves M op q se rem.entry) (he : M'.lookup p = some e) :
    M.lookup p = some e ∨ ∃ se, Moves M op p se e := by
  rw [hM, lookup_assign] at he
  split at he
  · rename_i hp
    obtain ⟨hg, hentry⟩ := outcome_some he
    rw [hp, ← hentry]
    exact .inr ⟨se, hmove hg⟩
  · exact .inl he

theorem moves_insert {q : List Bool} (hmove : Moves M op q se se') (he : (M.insert q se').lookup p = some e) :
    M.lookup p = some e ∨ ∃ se, Moves M op p se e := by
  by_cases hp : p = q
  · subst hp
    rw [lookup_insert] at he
    cases he
    exact .inr ⟨se, hmove⟩
  · exact .inl (by rwa [lookup_insert_of_ne _ hp] at he)

theorem moves_swept {step : ServiceEntry → Option Removal} (hs : Swept step M M')
    (hmove : ∀ se rem, M.lookup p = some se → step se = some rem → rem.gone = false → Moves M op p se rem.entry)
    (he : M'.lookup p = some e) : ∃ se, Moves M op p se e := by
  rw [hs.2] at he
  obtain ⟨se, hse, he⟩ := bind_eq_some_iff.mp he
  obtain ⟨rem, hrem, he⟩ := bind_eq_some_iff.mp he
  obtain ⟨hg, hentry⟩ := outcome_some he
  exact ⟨se, hentry ▸ hmove se rem hse hrem hg⟩

theorem entry_moves (hout : Outcome M op M' r) (he : M'.lookup p = some e) :
    M.lookup p = some e ∨ ∃ se, Moves M op p se e := by
  cases op with
  | add srvid prefixBits type flags priority weight dst dstlen out mem =>
    cases srvid with
    | none => exact .inl (hout.1 ▸ he)
    | some srvid =>
      rcases hout with ⟨rfl, -⟩ | ⟨-, hrule, se, se', m, m', hadd, rfl, hfrom⟩
      · exact .inl he
      · exact moves_insert (.add hrule hadd hfrom) he
  | modify srvid prefixBits type flags priority weight dst dstlen newDst newDstlen routed mem =>
    cases srvid with
    | none => exact .inl (hout ▸ he)
    | some srvid =>
      rcases hout with rfl | ⟨se, se', hl, hmod, rfl⟩
      · exact .inl he
      · exact moves_insert (.modify hl hmod) he
  | delTarget srvid prefixBits type dst dstlen =>
    rcases hout with ⟨rfl, -⟩ | ⟨q, se, rem, -, hl, hrem, hM⟩
    · exact .inl he
    · exact moves_assign hM (fun hg => .remove rfl hl hrem hg) he
  | delTargetAll type dst dstlen =>
    exact .inr (moves_swept hout (fun se rem hl hrem hg => .remove rfl hl hrem hg) he)
  | delDevAll ifindex =>
    exact .inr (moves_swept hout (fun se rem hl hrem hg => .removeByDev hl hrem hg) he)
  | entryRemove q type dst dstlen =>
    obtain ⟨se, rem, hl, hrem, hM⟩ := hout
    exact moves_assign hM (fun hg => .remove rfl hl hrem hg) he

theorem step_entries {P : ServiceEntry → Prop} (hout : Outcome M op M' r) (hP : ∀ p se, M.lookup p = some se → P se)
    (hmove : ∀ p se se', Moves M op p se se' → P se') : ∀ p se, M'.lookup p = some se → P se := by
  intro p e he
  rcases entry_moves hout he with hl | ⟨se, hm⟩
  · exact hP p e hl
  · exact hmove p se e hm

theorem add_keeps {flags : UInt16}
    {priority weight : UInt32} {dstlen : ℕ} {out : TargetOut} {m m' : ℕ}
    (hse : EntryOk se) (hroom : HasRoom se.targetSet priority) (hcount : (targets se.targetSet).length < 2 ^ 32 - 1)
    (h : serviceEntryAddTarget se type flags priority weight dst dstlen out m =
      some (se', 1, m')) : EntryOk se' ∧ se'.targetSet ≠ [] := by
  have hrun : ServiceEntryInvariant.run se
      (.add type flags priority weight dst dstlen out m) = some (se', 1) := by
    simp [ServiceEntryInvariant.run, h]
  have hfit : ServiceEntryInvariant.Fits se (.add type flags priority weight dst dstlen out m) :=
    ⟨hroom, hcount⟩
  refine ⟨(step_ok hse hfit hrun).1, ?_⟩
  rcases add_cases h with ⟨-, hne⟩ | ⟨-, protocol, t, -, -, -, rfl⟩
  · exact absurd rfl hne
  · obtain ⟨-, hperm⟩ := addTarget_ok (entryOk_iff.mp hse).1 hroom flags t
    exact sets_ne_nil fun h0 => by simpa [h0] using hperm.length_eq

theorem added_entry (h : TableRep tbl pos M) (hok : MapOk M) {srvid : List UInt8}
    {prefixBits : ℕ} {flags : UInt16} {priority weight : UInt32}
    {dstlen : ℕ} {out : TargetOut} {mem : ℕ}
    (hc : Careful tbl (.add (some srvid) prefixBits type flags priority weight dst dstlen out mem)) {dup : Prop}
    (hfrom : M.lookup (bitsOf srvid (normBits srvid prefixBits)) = none ∧ se = serviceEntryCreate ∨
      M.lookup (bitsOf srvid (normBits srvid prefixBits)) = some se ∧ dup) :
    EntryOk se ∧ HasRoom se.targetSet priority ∧ (targets se.targetSet).length < 2 ^ 32 - 1 := by
  rcases hfrom with ⟨-, rfl⟩ | ⟨hl, -⟩
  · exact ⟨entryOk_create, by simp [HasRoom, serviceEntryCreate], by simp [serviceEntryCreate]⟩
  · exact ⟨hok.entry _ _ hl, hc.2 se (by rw [entryAt_eq h, hl])⟩

theorem moves_entryOk (h : TableRep tbl pos M) (hok : MapOk M) (hc : Careful tbl op)
    (hm : Moves M op p se se') : EntryOk se' := by
  cases hm with
  | add hrule hadd hfrom =>
    obtain ⟨hse, hroom, hcount⟩ := added_entry h hok hc hfrom
    exact (add_keeps hse hroom hcount hadd).1
  | modify hl hmod => exact (modify_ok (hok.entry _ _ hl) (hc se (by rw [entryAt_eq h, hl])) hmod).1
  | remove _ hl hrem _ =>
    rcases removeTarget_ok (hok.entry _ _ hl) hrem with ⟨hentry, -⟩ | ⟨hse', -⟩
    · rw [hentry]
      exact hok.entry _ _ hl
    · exact hse'
  | removeByDev hl hrem _ =>
    obtain ⟨rem, hrem', hse', -⟩ := removeByDev_ok _ (hok.entry _ _ hl)
    cases hrem.symm.trans hrem'
    exact hse'

theorem moves_full (h : TableRep tbl pos M) (hok : MapOk M) (hfull : Full M)
    (ht : Tidy tbl op) (hm : Moves M op p se se') : se'.targetSet ≠ [] := by
  cases hm with
  | add hrule hadd hfrom =>
    obtain ⟨hse, hroom, hcount⟩ := added_entry h hok ht.1 hfrom
    exact (add_keeps hse hroom hcount hadd).2
  | modify hl hmod =>
    apply sets_ne_nil
    rcases (modify_ok (hok.entry _ _ hl) (ht.1 se (by rw [entryAt_eq h, hl])) hmod).2 with
      heq | ⟨t, t', rest, -, hnew, -⟩
    · rw [heq]
      exact targets_ne_nil (hok.entry _ _ hl) (hfull _ _ hl)
    · exact fun h0 => by simpa [h0] using hnew.length_eq
  | remove _ hl hrem hg =>
    rcases removeTarget_ok (hok.entry _ _ hl) hrem with ⟨hentry, -⟩ | ⟨-, -, hgone, -⟩
    · rw [hentry]
      exact hfull _ _ hl
    · exact fun h0 => by simp [hgone.mpr h0] at hg
  | @removeByDev ifindex _ _ rem hl hrem hg =>
    intro hempty
    obtain ⟨rem', hrem', hse', hret, hcont, hgone⟩ := removeByDev_ok ifindex (hok.entry _ _ hl)
    cases hrem.symm.trans hrem'
    -- all targets are on the device, so there was one, and the entry would be gone
    have hall := (dev_empty_iff hse' hcont).mp hempty
    have hone := ht.2 ifindex rfl p se (by rw [entryAt_eq h, hl]) hall
    have hcount : (targets se.targetSet).countP (onDev ifindex) = 1 := by
      rw [countP_eq_length.mpr (all_eq_true.mp hall), hone]
    simp [hgone.mpr ⟨by rw [hret, hcount], hempty⟩] at hg

theorem moves_active (hm : Moves M op p se se') :
    p ∈ M ∨ ∃ srvid prefixBits type flags priority weight dst dstlen out mem,
      op = .add (some srvid) prefixBits type flags priority weight dst dstlen out mem ∧
      p = bitsOf srvid (normBits srvid prefixBits) := by
  cases hm with
  | add => exact .inr ⟨_, _, _, _, _, _, _, _, _, _, rfl, rfl⟩
  | modify hl | remove _ hl | removeByDev hl => exact .inl (mem_of_lookup_eq_some hl)

theorem card_lt_of_outcome (h : TableRep tbl pos M) (hok : MapOk M) (hc : Careful tbl op)
    (hout : Outcome M op M' r) : M'.keys.card < 2 ^ 32 := by
  by_cases hsub : M'.keys ⊆ M.keys
  · exact lt_of_le_of_lt (Finset.card_le_card hsub) hok.card
  · obtain ⟨p, hp, hnew⟩ := Finset.not_subset.mp hsub
    obtain ⟨e, he⟩ := mem_iff.mp (mem_keys.mp hp)
    rcases entry_moves hout he with hl | ⟨se, hm⟩
    · exact absurd (mem_keys.mpr (mem_of_lookup_eq_some hl)) hnew
    · rcases moves_active hm with hm | ⟨srvid, bits, _, _, _, _, _, _, _, _, rfl, rfl⟩
      · exact absurd (mem_keys.mpr hm) hnew
      · have hroom := hc.1
        rw [services_eq h hok] at hroom
        have hins : M'.keys ⊆ insert (bitsOf srvid (normBits srvid bits)) M.keys := by
          intro q hq
          obtain ⟨e, he⟩ := mem_iff.mp (mem_keys.mp hq)
          rw [Finset.mem_insert]
          rcases entry_moves hout he with hl | ⟨se, hm⟩
          · exact .inr (mem_keys.mpr (mem_of_lookup_eq_some hl))
          · cases hm with
            | add => exact .inl rfl
            | remove hop => cases hop
        have := (Finset.card_le_card hins).trans (Finset.card_insert_le _ _)
        omega

theorem step_mapOk (h : TableRep tbl pos M) (hok : MapOk M)
    (hc : Careful tbl op) (hout : Outcome M op M' r) : MapOk M' :=
  ⟨step_entries hout hok.entry fun _ _ _ hm => moves_entryOk h hok hc hm, card_lt_of_outcome h hok hc hout⟩

theorem step_full (h : TableRep tbl pos M) (hok : MapOk M) (hfull : Full M)
    (ht : Tidy tbl op) (hout : Outcome M op M' r) : Full M' :=
  step_entries hout hfull fun _ _ _ hm => moves_full h hok hfull ht hm

theorem reachable_entries {ok : Table → Op → Prop} {P : ServiceEntry → Prop}
    (hcareful : ∀ tbl op, ok tbl op → Careful tbl op) (hmove : ∀ {tbl pos M op p se se'}, TableRep tbl pos M → MapOk M →
      (∀ p se, M.lookup p = some se → P se) → Legal tbl op → ok tbl op → Moves M op p se se' → P se')
    {tbl : Table} (h : Reachable ok tbl) :
    ∃ pos M, TableRep tbl pos M ∧ MapOk M ∧ ∀ p se, M.lookup p = some se → P se := by
  induction h with
  | init => exact ⟨_, ∅, tableRep_init, ⟨by simp, by simp⟩, by simp⟩
  | step op _ hl hop hrun ih =>
    obtain ⟨pos, M, hrep, hok, hP⟩ := ih
    obtain ⟨pos', M', hrep', hout⟩ := step_outcome hrep hok hl (hcareful _ _ hop) hrun
    exact ⟨pos', M', hrep', step_mapOk hrep hok (hcareful _ _ hop) hout,
      step_entries hout hP fun _ _ _ hm => hmove hrep hok hP hl hop hm⟩

theorem reachable_mapOk (h : Reachable Careful tbl) : ∃ pos M, TableRep tbl pos M ∧ MapOk M := by
  obtain ⟨pos, M, hrep, hok, -⟩ :=
    reachable_entries (fun _ _ hc => hc) (fun h hok _ _ hc hm => moves_entryOk h hok hc hm) h
  exact ⟨pos, M, hrep, hok⟩

theorem reachable_full (h : Reachable Tidy tbl) : ∃ pos M, TableRep tbl pos M ∧ MapOk M ∧ Full M :=
  reachable_entries (fun _ _ ht => ht.1) (fun h hok hP _ ht hm => moves_full h hok hP ht hm) h

namespace Sample

def srvid : List UInt8 := 128 :: List.replicate 31 0

def addRule (host : UInt8) : Op :=
  .add (some srvid) 1 .forward 0 0 1 (some ⟨4096, [10, 0, 0, host]⟩) 4 (.oif 1) 8

def resultOf (tbl : Table) (op : Op) : Table := ((run tbl op).getD (tbl, 0)).1

def oneRule : Table := resultOf serviceTableInit (addRule 1)

theorem oneRule_run : run serviceTableInit (addRule 1) = some (oneRule, 1) := rfl

def twoRules : Table := resultOf oneRule (addRule 2)

theorem twoRules_run : run oneRule (addRule 2) = some (twoRules, 1) := rfl

theorem entry_of_leaf {tbl : Table} {q : List Bool} (hleaf : ∀ b, nodeAt tbl.tree (p ++ [b]) = none) (hpq : p <+: q)
    (hq : entryAt tbl q ≠ none) : q = p := by
  obtain ⟨r, rfl⟩ := hpq
  cases r with
  | nil => exact append_nil p
  | cons b r =>
    have hstop : ∀ r : List Bool, r.foldl (fun n b => n.bind fun a => (tbl.tree.heap a).bind fun nd => childAt nd b)
        none = none := by
      intro r
      induction r with
      | nil => rfl
      | cons b r ih => exact ih
    have hnone : nodeAt tbl.tree (p ++ [b] ++ r) = none := by
      have hb := hleaf b
      rw [nodeAt] at hb ⊢
      rw [foldl_append, hb, hstop]
    rw [append_assoc, singleton_append] at hnone
    exact absurd (by rw [entryAt, hnone, Option.bind_none]) hq

theorem entry_of_single {tbl : Table} (hroot : entryAt tbl [] = none) (hleaf : ∀ b, nodeAt tbl.tree [true, b] = none)
    {q : List Bool} (hq : q <+: bitsOf srvid 256) (hentry : entryAt tbl q ≠ none) : q = [true] := by
  cases q with
  | nil => exact absurd hroot hentry
  | cons b q =>
    have hcons : bitsOf srvid 256 = true :: (bitsOf srvid 256).tail := rfl
    rw [hcons, cons_prefix_cons] at hq
    rw [hq.1] at hentry ⊢
    exact entry_of_leaf hleaf ⟨q, rfl⟩ hentry

theorem rules_reachable {ok : Table → Op → Prop} (hone : ok serviceTableInit (addRule 1)) (htwo :
    ok oneRule (addRule 2)) :
    Reachable ok oneRule ∧ Reachable ok twoRules := by
  have hfirst : Reachable ok oneRule := .step (addRule 1) .init ⟨rfl, by decide⟩ hone oneRule_run
  exact ⟨hfirst, .step (addRule 2) hfirst ⟨rfl, by decide⟩ htwo twoRules_run⟩

theorem rules_careful : Careful serviceTableInit (addRule 1) ∧ Careful oneRule (addRule 2) := by
  refine ⟨⟨by decide, nofun⟩, by decide, fun se hse => ?_⟩
  cases hse
  unfold HasRoom
  decide

theorem oneRule_reachable : Reachable (fun _ _ => True) oneRule := (rules_reachable trivial trivial).1

theorem twoRules_reachable : Reachable (fun _ _ => True) twoRules := (rules_reachable trivial trivial).2

end Sample

end ServiceRuns
