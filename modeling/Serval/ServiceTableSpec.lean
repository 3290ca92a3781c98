import Serval.BstInsert
import Serval.ServiceEntryInvariant
import Serval.ServiceTable

/-! # The service table as a map from prefixes to entries

One specification for each call, over the map that the trie stands for. The table's own
count of services follows the map as well, modulo `2^32`.
-/
namespace ServiceTableSpec

open BitString BstModel BstLayout BstLookup BstInsert BstRelease BstTraversal Option Finmap
open ServiceTargets ServiceIterator ServiceEntryInvariant ServiceTable

structure TableRep (tbl : Table) (pos : List Bool → Option Ptr) (M : BitMap ServiceEntry) : Prop
    extends Represents tbl.tree pos M where
  services : tbl.services = UInt32.ofNat M.keys.card

theorem tableRep_init : TableRep serviceTableInit (fun _ => none) ∅ :=
  ⟨represents_init, rfl⟩

variable {tbl : Table} {pos : List Bool → Option Ptr} {M : BitMap ServiceEntry}

theorem getService_spec (h : TableRep tbl pos M) {p : List Bool} {n : Ptr} (hp : pos p = some n) :
    getService tbl n = M.lookup p := by
  obtain ⟨nd, hn, -, hl⟩ := h.node_lookup hp
  simp [getService, hn, hl]

theorem card_keys_insert {p : List Bool} (hp : p ∈ M) (se : ServiceEntry) :
    (M.insert p se).keys.card = M.keys.card := by
  congr 1
  ext q
  rw [mem_keys, mem_keys, mem_insert]
  constructor
  · rintro (rfl | hq)
    · exact hp
    · exact hq
  · exact .inr

theorem setService_spec (h : TableRep tbl pos M) {p : List Bool} {n : Ptr} (hp : pos p = some n) (hm : p ∈ M)
    (se : ServiceEntry) : ∃ tbl', setService tbl n se = some tbl' ∧ TableRep tbl' pos (M.insert p se) := by
  obtain ⟨nd, hn, hok, -⟩ := h.node_lookup hp
  refine ⟨_, by simp only [setService, hn]; rfl, ?_⟩
  have hbase : Holds _ pos (M.insert p se) := h.toHolds.write hp
    (show NodeOk pos p { nd with priv := some se } from
      ⟨hok.depth, hok.child, hok.parent, hok.stored, by simp⟩)
    (lookup_insert M) (fun q hq => lookup_insert_of_ne M hq)
  exact ⟨⟨hbase, by rw [card_keys_insert hm]; exact h.entries⟩, by rw [card_keys_insert hm]; exact h.services⟩

theorem insert_erase (M : BitMap ServiceEntry) (p : List Bool) (se : ServiceEntry) :
    (M.insert p se).erase p = M.erase p := by
  apply ext_lookup
  intro q
  by_cases hq : q = p
  · subst hq
    simp
  · simp [hq, lookup_erase_ne, lookup_insert_of_ne]

def outcome (r : Removal) : Option ServiceEntry × ℕ :=
  (if r.gone then none else some r.entry, r.ret)

theorem not_releasable_iff {pos : List Bool → Option Ptr} {p : List Bool} :
    ¬ Releasable pos p ↔ p = [] ∧ pos [false] = none ∧ pos [true] = none := by
  simp only [Releasable, Classical.not_imp, not_or, not_not]

section Removing

variable {step : ServiceEntry → Option Removal} {p : List Bool} {n : Ptr} {se : ServiceEntry}

theorem removeFrom_undefined (h : TableRep tbl pos M) (hp : pos p = some n)
    (hl : M.lookup p = some se) (hstep : step se = none) : removeFrom step tbl n = none := by
  simp [removeFrom, getService_spec h hp, hl, hstep]

theorem removeFrom_stuck (h : TableRep tbl pos M) (hp : pos p = some n) (hl : M.lookup p = some se) {r : Removal}
    (hstep : step se = some r) (hg : r.gone = true) (hs : ¬ Releasable pos p) : removeFrom step tbl n = none := by
  obtain ⟨tbl₁, hset, hrep⟩ := setService_spec h hp (mem_of_lookup_eq_some hl) r.entry
  obtain ⟨rfl, h0, h1⟩ := not_releasable_iff.mp hs
  have hrel := release_childless_root hrep.toRepresents hp (mem_insert.mpr (.inl rfl)) h0 h1
  simp [removeFrom, getService_spec h hp, hl, hstep, hset, hg, hrel]

theorem removeFrom_spec (h : TableRep tbl pos M) (hp : pos p = some n)
    (hl : M.lookup p = some se) {r : Removal} (hstep : step se = some r) (hs : r.gone = true → Releasable pos p) :
    ∃ tbl' pos', removeFrom step tbl n = some (tbl', r) ∧
      TableRep tbl' pos' (assign M p (outcome r).1) ∧ Pruned pos pos' p ∧
      (Trimmed pos M → Trimmed pos' (assign M p (outcome r).1)) := by
  obtain ⟨tbl₁, hset, hrep⟩ := setService_spec h hp (mem_of_lookup_eq_some hl) r.entry
  have hsub : ∀ q ∈ M, q ∈ M.insert p r.entry := fun q hq => mem_insert.mpr (.inr hq)
  cases hg : r.gone with
  | false =>
    refine ⟨tbl₁, pos, by simp [removeFrom, getService_spec h hp, hl, hstep, hset, hg], ?_,
      Pruned.refl pos p, fun htrimmed => ?_⟩
    · simpa [outcome, hg, assign] using hrep
    · simpa [outcome, hg, assign] using htrimmed.mono hsub
  | true =>
    have hm : p ∈ M.insert p r.entry := mem_insert.mpr (.inl rfl)
    obtain ⟨t', pos', hrel, hrep', hpr, htrim⟩ := release_spec hrep.toRepresents hp hm (hs hg)
    refine ⟨⟨t', tbl₁.services - 1⟩, pos', ?_, ⟨?_, ?_⟩, hpr, fun htrimmed => ?_⟩
    · simp [removeFrom, getService_spec h hp, hl, hstep, hset, hg, hrel]
    · simpa [outcome, hg, assign, insert_erase] using hrep'
    · have hcard := card_erase_bound hm
      simp only [outcome, hg, ↓reduceIte, assign, ← insert_erase M p r.entry]
      rw [hrep.services, ← hcard, UInt32.ofNat_add]
      exact add_sub_cancel_right _ _
    · simpa [outcome, hg, assign, insert_erase] using htrim (htrimmed.mono hsub)

variable (step)

theorem removeFrom_callback_of {Inv : Table → (List Bool → Option Ptr) → BitMap ServiceEntry → Prop}
    (hrep : ∀ {tbl pos M}, Inv tbl pos M → TableRep tbl pos M)
    (hkeeps : ∀ {tbl pos M p n tbl' pos' r}, Inv tbl pos M → removeFrom step tbl n = some (tbl', r) →
      TableRep tbl' pos' (assign M p (outcome r).1) →
      (Trimmed pos M → Trimmed pos' (assign M p (outcome r).1)) → Inv tbl' pos' (assign M p (outcome r).1)) :
    Callback Table.tree (fun tbl n => (removeFrom step tbl n).map fun x => (x.1, (x.2.ret : ℤ)))
      Inv (fun se => (step se).map outcome) := by
  constructor
  · exact fun h => (hrep h).toRepresents
  · intro tbl pos M p n se hinv hp hl hstuck
    have h := hrep hinv
    rcases hstuck with hnone | ⟨rfl, h0, h1, c, hgone⟩
    · rw [removeFrom_undefined h hp hl (map_eq_none_iff.mp hnone), map_none]
    · obtain ⟨r, hstep, heq⟩ := map_eq_some_iff.mp hgone
      have hg : r.gone = true := by
        by_contra hg
        simp [outcome, hg] at heq
      rw [removeFrom_stuck h hp hl hstep hg (not_releasable_iff.mpr ⟨rfl, h0, h1⟩), map_none]
  · intro tbl pos M p n se hinv hp hl hfree
    have h := hrep hinv
    cases hstep : step se with
    | none => exact absurd (.inl (by simp [hstep])) hfree
    | some r =>
      obtain ⟨tbl', pos', hrun, hrep', hpr, htrim⟩ := removeFrom_spec h hp hl hstep (by
        intro hg
        by_contra hrel
        obtain ⟨rfl, h0, h1⟩ := not_releasable_iff.mp hrel
        exact hfree (.inr ⟨rfl, h0, h1, r.ret, by simp [hstep, outcome, hg]⟩))
      exact ⟨_, _, tbl', pos', rfl, by rw [hrun]; rfl, hkeeps hinv hrun hrep' htrim, hpr⟩

theorem removeFrom_callback :
    Callback Table.tree (fun tbl n => (removeFrom step tbl n).map fun x => (x.1, (x.2.ret : ℤ)))
      TableRep (fun se => (step se).map outcome) :=
  removeFrom_callback_of step (fun h => h) (fun _ _ hrep _ => hrep)

end Removing

theorem find_longest_spec {t : Bst ServiceEntry} (h : Represents t pos M) (key : List UInt8)
    (bits : ℕ) : ∃ r, bstFindLongestPrefix t key bits = some r ∧ match r with
      | none => ∀ q, q <+: bitsOf key bits → q ∉ M
      | some n => ∃ q, pos q = some n ∧ IsLongest (· ∈ M) (bitsOf key bits) q := by
  have hnode : ∀ q, q ∈ M ↔ ∃ n, pos q = some n ∧ Hit t none n := by
    intro q
    constructor
    · intro hq
      obtain ⟨v, hv⟩ := mem_iff.mp hq
      obtain ⟨n, -, hn, -⟩ := h.bound_node hv
      exact ⟨n, hn, (hit_iff h.toHolds hn).mpr ⟨hq, rfl⟩⟩
    · rintro ⟨n, hn, hit⟩
      exact ((hit_iff h.toHolds hn).mp hit).1
  obtain ⟨r, hfind, hr⟩ := find_match_spec h.toLayout key bits none
  refine ⟨r, hfind, ?_⟩
  cases r with
  | none =>
    intro q hq hm
    obtain ⟨n, hn, hit⟩ := (hnode q).mp hm
    exact hr q n hq hn hit
  | some n =>
    obtain ⟨q, hq, hlong⟩ := hr
    exact ⟨q, hq, hlong.isPrefix, (hnode q).mpr hlong.holds, fun r hr hm => hlong.longest r hr ((hnode r).mp hm)⟩

theorem findPrefix_spec (h : TableRep tbl pos M) (key : List UInt8) (bits : ℕ) :
    ∃ r, findPrefix tbl key bits = some r ∧ match r with
      | none => bitsOf key bits ∉ M
      | some n => pos (bitsOf key bits) = some n ∧ bitsOf key bits ∈ M := by
  obtain ⟨r, hfind, hr⟩ := find_longest_spec h.toRepresents key bits
  cases r with
  | none => exact ⟨none, by simp [findPrefix, hfind], hr _ List.prefix_rfl⟩
  | some n =>
    obtain ⟨q, hq, hlong⟩ := hr
    obtain ⟨nd, hn, hok⟩ := h.node q n hq
    by_cases hb : bits ≤ nd.prefixBits
    · have hlen : (bitsOf key bits).length ≤ q.length := by
        rw [length_bitsOf, ← hok.depth]
        exact hb
      obtain rfl := hlong.isPrefix.eq_of_length_le hlen
      exact ⟨some n, by simp [findPrefix, hfind, hn, hb], hq, hlong.holds⟩
    · refine ⟨none, by simp [findPrefix, hfind, hn, hb], fun hm => hb ?_⟩
      have := hlong.longest _ List.prefix_rfl hm
      rwa [length_bitsOf, ← hok.depth] at this

theorem srvOps_succeeds : InitSucceeds srvOps := by
  rintro f hf n
  obtain rfl : (fun _ => 0) = f := some.inj hf
  exact le_rfl

def HasEntryRoom (M : BitMap ServiceEntry) : Prop := M.keys.card < 2 ^ 32 - 1

theorem HasEntryRoom.exact (h : HasEntryRoom M) : CountExact M := by
  intro h0
  rw [HasEntryRoom] at h
  omega

theorem normBits_le (key : List UInt8) (bits : ℕ) : normBits key bits ≤ bits := by
  rw [normBits]
  split
  · exact Nat.zero_le bits
  · exact le_rfl

def Ample (mem : ℕ) : Prop := SERVICE_ID_MAX_PREFIX_BITS + 4 ≤ mem

/-- All that an add does to the map: nothing, or one target more in the entry of the prefix,
which may be new. -/
def AddOutcome (M : BitMap ServiceEntry) (k : List Bool) (type : RuleType) (flags : UInt16)
    (priority weight : UInt32) (dst : Option Buf) (dstlen : ℕ) (out : TargetOut)
    (M' : BitMap ServiceEntry) (r : ℤ) : Prop :=
  (M' = M ∧ r ≠ 1) ∨ (r = 1 ∧ ruleRefused type dst dstlen = false ∧ ∃ se se' m m',
    serviceEntryAddTarget se type flags priority weight dst dstlen out m = some (se', 1, m') ∧
    M' = M.insert k se' ∧ ((M.lookup k = none ∧ se = serviceEntryCreate) ∨ (M.lookup k = some se ∧
        hasDuplicate type dst dstlen (iterFuel se) (serviceIterInit se .all 0).1 = some false)))

variable {key : List UInt8} {bits : ℕ}

section Adding

variable {type : RuleType} {flags : UInt16} {priority weight : UInt32} {dst newDst : Option Buf}
  {dstlen newDstlen : ℕ} {out : TargetOut} {routed : Bool} {mem m : ℕ} {r : ℤ} {tbl' : Table}

theorem AddOutcome.subset {k : List Bool} {M' : BitMap ServiceEntry}
    (h : AddOutcome M k type flags priority weight dst dstlen out M' r) : ∀ q ∈ M, q ∈ M' := by
  rcases h with ⟨rfl, -⟩ | ⟨-, -, se, se', m, m', -, rfl, -⟩
  · exact fun q hq => hq
  · exact fun q hq => mem_insert.mpr (.inr hq)

theorem insert_lookup {p : List Bool} {se : ServiceEntry} (h : M.lookup p = some se) : M.insert p se = M := by
  apply ext_lookup
  intro q
  by_cases hq : q = p
  · subst hq
    simp [h]
  · simp [hq, lookup_insert_of_ne]

theorem add_to_empty {se : ServiceEntry}
    (h : serviceEntryAddTarget serviceEntryCreate type flags priority weight dst dstlen out mem =
      some (se, r, m)) : r < 0 ∨ r = 1 := by
  simp only [serviceEntryAddTarget, serviceEntryGetTarget, serviceEntryCreate, findTarget,
    bind_eq_bind, bind_eq_some_iff, bind_some] at h
  obtain ⟨protocol, -, made, -, h⟩ := h
  cases made with
  | none =>
    cases h
    exact .inl (by decide)
  | some t =>
    simp only [serviceEntryGetTargetSet, List.find?_nil] at h
    split at h <;> cases h
    · exact .inl (by decide)
    · exact .inr rfl

theorem add_memory {se se' : ServiceEntry}
    (h : serviceEntryAddTarget se type flags priority weight dst dstlen out mem = some (se', r, m)) : mem ≤ m + 2 := by
  simp only [serviceEntryAddTarget, bind_eq_bind, bind_eq_some_iff] at h
  obtain ⟨protocol, -, found, -, h⟩ := h
  cases found with
  | some f =>
    cases h
    omega
  | none =>
    obtain ⟨made, -, h⟩ := bind_eq_some_iff.mp h
    cases made with
    | none =>
      cases h
      omega
    | some t =>
      dsimp only at h
      split at h
      · cases h
        omega
      · split at h <;> cases h <;> omega

theorem addToEntry_spec (h : TableRep tbl pos M) {k : List Bool} {n : Ptr} (hp : pos k = some n)
    (hm : k ∈ M) (hrule : ruleRefused type dst dstlen = false)
    (hadd : addToEntry tbl n type flags priority weight dst dstlen out mem = some (tbl', r)) :
    ∃ M', TableRep tbl' pos M' ∧ AddOutcome M k type flags priority weight dst dstlen out M' r := by
  obtain ⟨se, hl⟩ := mem_iff.mp hm
  simp only [addToEntry, getService_spec h hp, hl, bind_eq_bind, bind_some, bind_eq_some_iff] at hadd
  obtain ⟨dup, hdup, hadd⟩ := hadd
  cases dup with
  | true =>
    cases hadd
    exact ⟨M, h, .inl ⟨rfl, by decide⟩⟩
  | false =>
    simp only [Bool.false_eq_true, ↓reduceIte] at hadd
    split at hadd
    · obtain ⟨⟨se', ret, m⟩, hentry, hadd⟩ := bind_eq_some_iff.mp hadd
      obtain ⟨tbl₁, hset, hrep⟩ := setService_spec h hp hm se'
      simp only [hset, bind_some, pure_def, some.injEq, Prod.mk.injEq] at hadd
      obtain ⟨rfl, rfl⟩ := hadd
      refine ⟨_, hrep, ?_⟩
      rcases add_cases hentry with ⟨rfl, hne⟩ | ⟨rfl, -⟩
      · exact .inl ⟨insert_lookup hl, hne⟩
      · exact .inr ⟨rfl, hrule, se, se', mem, m, hentry, rfl, .inr ⟨hl, hdup⟩⟩
    · cases hadd
      exact ⟨M, h, .inl ⟨rfl, by decide⟩⟩

theorem addEntry_spec (h : TableRep tbl pos M) (hroom : HasEntryRoom M)
    (hb : bits ≤ 8 * key.length) (hm : bitsOf key bits ∉ M) (hrule : ruleRefused type dst dstlen = false)
    (hadd : addEntry tbl key bits type flags priority weight dst dstlen out mem = some (tbl', r)) :
    ∃ pos' M', TableRep tbl' pos' M' ∧ AddOutcome M (bitsOf key bits) type flags priority weight dst dstlen out M' r ∧
      (Ample mem → bits ≤ SERVICE_ID_MAX_PREFIX_BITS → Trimmed pos M → Trimmed pos' M') := by
  rw [addEntry] at hadd
  split at hadd
  · cases hadd
    exact ⟨pos, M, h, .inl ⟨rfl, by decide⟩, fun _ _ htrimmed => htrimmed⟩
  · obtain ⟨⟨se, ret, m⟩, hentry, hadd⟩ := bind_eq_some_iff.mp hadd
    dsimp only at hadd
    split at hadd
    · cases hadd
      exact ⟨pos, M, h, .inl ⟨rfl, by decide⟩, fun _ _ htrimmed => htrimmed⟩
    · rename_i hneg
      obtain rfl : ret = 1 := (add_to_empty hentry).resolve_left hneg
      obtain ⟨t', node, pos', hins, hgrown, hout⟩ :=
        insert_grown h.toRepresents hroom.exact hb srvOps_succeeds se m
      simp only [hins] at hadd
      rcases hout with ⟨rfl, hwhy, hrep⟩ | ⟨a, rfl, -, -, hrep, ha⟩
      · cases hadd
        refine ⟨pos', M, ⟨hrep, h.services⟩, .inl ⟨rfl, by decide⟩, fun hample hbits _ => ?_⟩
        -- the memory would have been enough
        have hmissing := missing_le tbl.tree key bits
        have hmem := add_memory hentry
        have hfew := hwhy.resolve_left hm
        rw [Ample] at hample
        omega
      · cases hadd
        refine ⟨pos', _, ⟨hrep, ?_⟩, .inr ⟨rfl, hrule, serviceEntryCreate, se, mem - 1, m, hentry,
          rfl, .inl ⟨lookup_eq_none.mpr hm, rfl⟩⟩, fun _ _ htrimmed => ?_⟩
        · rw [card_insert_new hm, UInt32.ofNat_add, ← h.services]
          rfl
        · rcases hgrown with hgrown | ⟨rfl, hgrown⟩
          · exact trimmed_grown hrep.toLayout (by simp [ha]) hgrown htrimmed
          · exact trimmed_grown hrep.toLayout (by simp [ha]) hgrown (fun q _ hnode _ => absurd rfl hnode)

theorem add_spec (h : TableRep tbl pos M) (hroom : HasEntryRoom M) (hb : bits ≤ 8 * key.length)
    (hadd : serviceTableAdd tbl (some key) bits type flags priority weight dst dstlen out mem = some (tbl', r)) :
    ∃ pos' M', TableRep tbl' pos' M' ∧ AddOutcome M (bitsOf key (normBits key bits)) type flags
      priority weight dst dstlen out M' r ∧
      (Ample mem → bits ≤ SERVICE_ID_MAX_PREFIX_BITS → Trimmed pos M → Trimmed pos' M') := by
  rw [serviceTableAdd] at hadd
  split at hadd
  · cases hadd
    exact ⟨pos, M, h, .inl ⟨rfl, by decide⟩, fun _ _ htrimmed => htrimmed⟩
  · rename_i hrule
    rw [Bool.not_eq_true] at hrule
    obtain ⟨found, hfind, hfound⟩ := findPrefix_spec h key (normBits key bits)
    simp only [hfind] at hadd
    cases found with
    | some n =>
      obtain ⟨M', hrep, hout⟩ := addToEntry_spec h hfound.1 hfound.2 hrule hadd
      exact ⟨pos, M', hrep, hout, fun _ _ htrimmed => htrimmed.mono hout.subset⟩
    | none =>
      obtain ⟨pos', M', hrep, hout, htrim⟩ :=
        addEntry_spec h hroom ((normBits_le key bits).trans hb) hfound hrule hadd
      exact ⟨pos', M', hrep, hout, fun hample hbits => htrim hample ((normBits_le key bits).trans hbits)⟩

theorem modify_spec (h : TableRep tbl pos M)
    (hmod : serviceTableModify tbl (some key) bits type flags priority weight dst dstlen newDst
      newDstlen routed mem = some (tbl', r)) :
    ∃ M', TableRep tbl' pos M' ∧ (M' = M ∧ r < 0 ∧ bitsOf key (normBits key bits) ∉ M ∨
      ∃ se se', M.lookup (bitsOf key (normBits key bits)) = some se ∧
        serviceEntryModifyTarget se type flags priority weight dst dstlen newDst newDstlen routed mem = some (se', r) ∧
        M' = M.insert (bitsOf key (normBits key bits)) se') := by
  obtain ⟨found, hfind, hfound⟩ := findPrefix_spec h key (normBits key bits)
  simp only [serviceTableModify, hfind, bind_eq_bind, bind_some] at hmod
  cases found with
  | none =>
    cases hmod
    exact ⟨M, h, .inl ⟨rfl, by decide, hfound⟩⟩
  | some n =>
    obtain ⟨se, hl⟩ := mem_iff.mp hfound.2
    simp only [getService_spec h hfound.1, hl, bind_some, bind_eq_some_iff] at hmod
    obtain ⟨⟨se', ret⟩, hentry, tbl₁, hset, hmod⟩ := hmod
    cases hmod
    obtain ⟨tbl₂, hset₂, hrep⟩ := setService_spec h hfound.1 hfound.2 se'
    cases hset.symm.trans hset₂
    exact ⟨_, hrep, .inr ⟨se, se', hl, hentry, rfl⟩⟩

end Adding

theorem removeFrom_inv (h : TableRep tbl pos M) {step : ServiceEntry → Option Removal} {p : List Bool} {n : Ptr}
    (hp : pos p = some n) (hm : p ∈ M) {tbl' : Table} {r : Removal} (hrun : removeFrom step tbl n = some (tbl', r)) :
    ∃ se pos', M.lookup p = some se ∧ step se = some r ∧ TableRep tbl' pos' (assign M p (outcome r).1) ∧
      (Trimmed pos M → Trimmed pos' (assign M p (outcome r).1)) := by
  obtain ⟨se, hl⟩ := mem_iff.mp hm
  cases hstep : step se with
  | none =>
    rw [removeFrom_undefined h hp hl hstep] at hrun
    cases hrun
  | some r' =>
    have hs : r'.gone = true → Releasable pos p := by
      intro hg
      by_contra hrel
      rw [removeFrom_stuck h hp hl hstep hg hrel] at hrun
      cases hrun
    obtain ⟨tbl₁, pos', hrun', hrep, -, htrim⟩ := removeFrom_spec h hp hl hstep hs
    rw [hrun'] at hrun
    cases hrun
    exact ⟨se, pos', hl, hstep, hrep, htrim⟩

theorem del_target_spec (h : TableRep tbl pos M) {type : RuleType} {dst : Option Buf} {dstlen : ℕ} {tbl' : Table}
    {stats : Option TargetStats} (hdel : serviceTableDelTarget tbl key bits type dst dstlen = some (tbl', stats)) :
    ∃ pos' M', TableRep tbl' pos' M' ∧ (Trimmed pos M → Trimmed pos' M') ∧
      ((M' = M ∧ ∀ q, q <+: bitsOf key bits → q ∉ M) ∨
        ∃ q se r, IsLongest (· ∈ M) (bitsOf key bits) q ∧ M.lookup q = some se ∧
          removeTarget type dst dstlen se = some r ∧ M' = assign M q (outcome r).1) := by
  obtain ⟨found, hfind, hfound⟩ := find_longest_spec h.toRepresents key bits
  simp only [serviceTableDelTarget, hfind, bind_eq_bind, bind_some] at hdel
  cases found with
  | none =>
    cases hdel
    exact ⟨pos, M, h, fun htrimmed => htrimmed, .inl ⟨rfl, hfound⟩⟩
  | some n =>
    obtain ⟨q, hq, hlong⟩ := hfound
    obtain ⟨⟨tbl₁, r⟩, hrun, hdel⟩ := bind_eq_some_iff.mp hdel
    cases hdel
    obtain ⟨se, pos', hl, hstep, hrep, htrim⟩ := removeFrom_inv h hq hlong.holds hrun
    exact ⟨pos', _, hrep, htrim, .inr ⟨q, se, r, hlong, hl, hstep, rfl⟩⟩

theorem for_all_of {func : Table → Ptr → Option (Table × ℤ)} {f : ServiceEntry → Option (Option ServiceEntry × ℕ)}
    {Inv : Table → (List Bool → Option Ptr) → BitMap ServiceEntry → Prop} (cb : Callback Table.tree func Inv f)
    (h : Inv tbl pos M) :
    ((∃ q v, M.lookup q = some v ∧ Stuck f pos q v) → forAllEntries tbl func = none) ∧
    ((∀ q v, M.lookup q = some v → ¬ Stuck f pos q v) → ∃ tbl' pos' M', forAllEntries tbl func =
          some (tbl', ∑ q ∈ M.keys, (cost f (M.lookup q) : ℤ)) ∧ Inv tbl' pos' M' ∧
        ∀ q, M'.lookup q = (M.lookup q).bind (after f)) := by
  rw [forAllEntries]
  cases hr : tbl.tree.root with
  | some r => exact subtree_spec cb h hr
  | none =>
    have hrep := cb.rep h
    have hempty : ∀ q, M.lookup q = none := by
      intro q
      cases hv : M.lookup q with
      | none => rfl
      | some v =>
        obtain ⟨n, -, hn, -⟩ := hrep.bound_node hv
        have hroot := hrep.toLayout.prefix_some (List.nil_prefix (l := q)) (by simp [hn])
        rw [← hrep.root] at hroot
        exact absurd hr hroot
    have hM : M = ∅ := ext_lookup (by simp [hempty])
    subst hM
    exact ⟨by simp, fun _ => ⟨tbl, pos, ∅, by simp, h, by simp⟩⟩

end ServiceTableSpec
