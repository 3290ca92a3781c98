import Serval.ServiceUniqueness
import Serval.SockTables

/-! # The directory of sockets

What the service table is for the sockets: at most one socket for each prefix.
-/
namespace SockDirectory

open BitString BstTraversal ServiceTargets TargetSets ServiceTable List Finmap SockTables
open ServiceTableSpec ServiceRuns
open ServiceEntryInvariant (EntryOk entryOk_iff add_cases addTarget_ok targetCreate_some)
open Function

def DemuxOf (i : SockPtr) (t : Target) : Prop := t.type = .demux ∧ ∃ k, t.out = .sk (some k) ∧ k.addr = i.1

def Owns (tbl : Table) (p : List Bool) (i : SockPtr) : Prop :=
  ∃ se, entryAt tbl p = some se ∧ ∃ t ∈ targets se.targetSet, DemuxOf i t

def Sole : Option ServiceEntry → Option SockPtr → Prop
  | none, none => True
  | some se, some i => ∃ t, targets se.targetSet = [t] ∧ DemuxOf i t
  | _, _ => False

def IsDirectory (tbl : Table) (n : ℕ) (D : List Bool → Option SockPtr) : Prop :=
  ∃ pos M, TableRep tbl pos M ∧ MapOk M ∧ M.keys.card ≤ n ∧ ∀ p, Sole (M.lookup p) (D p)

variable {tbl tbl' : Table} {n : ℕ} {D : List Bool → Option SockPtr} {i : SockPtr} {p : List Bool}

theorem isDirectory_init : IsDirectory serviceTableInit 0 fun _ => none :=
  ⟨_, ∅, tableRep_init, ⟨by simp, by simp⟩, by simp, fun p => by simp [Sole]⟩

variable {se : ServiceEntry} {srvid : List UInt8} {t : Target} {bits : ℕ} {flags : UInt16} {m : ℕ}
  {priority weight : UInt32} {k : Sock}

theorem IsDirectory.mono (h : IsDirectory tbl n D) (hle : n ≤ m) : IsDirectory tbl m D := by
  obtain ⟨pos, M, hrep, hok, hcard, hsole⟩ := h
  exact ⟨pos, M, hrep, hok, hcard.trans hle, hsole⟩

theorem sole_some {se : Option ServiceEntry} (h : Sole se (some i)) :
    ∃ e t, se = some e ∧ targets e.targetSet = [t] ∧ DemuxOf i t := by
  cases se with
  | none => exact h.elim
  | some e =>
    obtain ⟨t, ht⟩ := h
    exact ⟨e, t, rfl, ht⟩

theorem DemuxOf.unique {j : SockPtr} {t : Target} (hi : DemuxOf i t) (hj : DemuxOf j t) : i = j := by
  obtain ⟨-, k, hk, hki⟩ := hi
  obtain ⟨-, k', hk', hkj⟩ := hj
  rw [hk] at hk'
  cases hk'
  exact Subtype.ext (hki.symm.trans hkj)

theorem IsDirectory.owns_iff (h : IsDirectory tbl n D) : Owns tbl p i ↔ D p = some i := by
  obtain ⟨pos, M, hrep, -, -, hsole⟩ := h
  have hp := hsole p
  rw [Owns, entryAt_eq hrep]
  constructor
  · rintro ⟨se, hse, t, ht, hdemux⟩
    rw [hse] at hp
    cases hD : D p with
    | none => exact (hD ▸ hp).elim
    | some j =>
      rw [hD] at hp
      obtain ⟨t', htargets, hj⟩ := hp
      rw [htargets, List.mem_singleton] at ht
      subst ht
      rw [hdemux.unique hj]
  · intro hD
    rw [hD] at hp
    obtain ⟨e, t, he, htargets, hdemux⟩ := sole_some hp
    exact ⟨e, he, t, by rw [htargets]; exact mem_singleton_self t, hdemux⟩

theorem has_duplicate (hse : EntryOk se) (htargets : targets se.targetSet = [t]) (htype : t.type = .demux) :
    hasDuplicate .demux none 0 (ServiceIterator.iterFuel se)
    (ServiceIterator.serviceIterInit se .all 0).1 ≠ some false := by
  intro hdup
  have hcount : se.count ≠ 0 := by
    intro hzero
    have := hse.count
    simp [hzero, htargets] at this
  -- the target is in the first set, since no set is empty
  have hfirst : t ∈ ServiceIterator.firstTargets se := by
    rw [ServiceIterator.firstTargets]
    cases hs : se.targetSet with
    | nil => simp [hs] at htargets
    | cons set rest =>
      obtain ⟨x, l, hl⟩ := exists_cons_of_ne_nil (hse.filled set (by simp [hs]))
      rw [hs, targets_cons, hl] at htargets
      simp only [if_neg hcount, hl]
      simp only [cons_append, List.cons.injEq] at htargets
      simp [htargets.1]
  have hno := (ServiceUniqueness.not_duplicate_first hdup t hfirst).1
  simp [isTarget, htype] at hno

theorem created_sole {m m' : ℕ} (hk : k.addr = i.1)
    (h : serviceEntryAddTarget serviceEntryCreate .demux flags priority weight none 0 (.sk (some k)) m =
      some (se, 1, m')) : Sole (some se) (some i) := by
  rcases add_cases h with ⟨-, hne⟩ | ⟨-, protocol, t, -, -, hcreate, hse⟩
  · exact absurd rfl hne
  · have hroom : ∀ set ∈ serviceEntryCreate.targetSet, set.priority = priority → set.list.length < 65535 := by
      simp [serviceEntryCreate]
    obtain ⟨-, hperm⟩ := addTarget_ok (entryOk_iff.mp entryOk_create).1 hroom flags t
    have htargets : targets se.targetSet = [t] := by
      rw [hse]
      exact perm_singleton.mp hperm
    have hout := (ServiceUniqueness.created_fields hcreate).2 rfl
    refine ⟨t, htargets, (targetCreate_some hcreate).1, k, ?_, hk⟩
    cases hto : t.out with
    | oif index =>
      rw [hto] at hout
      cases hout
    | sk s =>
      rw [hto] at hout
      exact congrArg TargetOut.sk hout

theorem add_sock_to_empty {mem m' : ℕ} {r : ℤ} (hmem : 2 ≤ mem)
    (h : serviceEntryAddTarget serviceEntryCreate .demux flags priority weight none 0 (.sk (some k)) mem =
      some (se, r, m')) : r = 1 := by
  have hraw : TargetOut.raw (.sk (some k)) ≠ 0 := k.nonnull
  have hfew : ¬mem < 2 := not_lt.mpr hmem
  have hsome : mem ≠ 0 := by omega
  simp only [serviceEntryAddTarget, targetProtocol, serviceEntryGetTarget, serviceEntryCreate, findTarget, targetCreate,
    TargetOut.asSk, hraw, hfew, hsome, and_false, lt_irrefl, if_true, if_false, Option.map_some, Option.bind_eq_bind,
    Option.bind_some, serviceEntryGetTargetSet, find?_nil] at h
  cases h
  rfl

/-- A prefix that has a socket is refused, and one that is free is given if there is memory for it. -/
theorem IsDirectory.add_result {mem : ℕ} {r : ℤ} (h : IsDirectory tbl n D) (hroom : n < 2 ^ 32 - 1)
    (hlen : srvid.length = 32) (hbits : bits ≤ 256)
    (hadd : serviceAdd tbl (some srvid) bits .demux flags priority weight none 0 (.sk (some k)) mem = some (tbl', r)) :
    (r < 0 ∨ r = 1) ∧ (D (bitsOf srvid (normBits srvid bits)) = none → Ample mem → r = 1) := by
  obtain ⟨pos, M, hrep, hok, hcard, hsole⟩ := h
  have hentries : HasEntryRoom M := lt_of_le_of_lt hcard hroom
  obtain ⟨found, hfind, hfound⟩ := findPrefix_spec hrep srvid (normBits srvid bits)
  have hkey := hsole (bitsOf srvid (normBits srvid bits))
  rw [serviceAdd, serviceTableAdd, if_neg (by decide)] at hadd
  simp only [hfind, Option.bind_eq_bind, Option.bind_some] at hadd
  cases found with
  | some n =>
    obtain ⟨se, hl⟩ := mem_iff.mp hfound.2
    simp only [addToEntry, getService_spec hrep hfound.1, hl, Option.bind_eq_bind, Option.bind_some] at hadd
    rw [hl] at hkey
    cases hD : D (bitsOf srvid (normBits srvid bits)) with
    | none => exact (hD ▸ hkey).elim
    | some j =>
      rw [hD] at hkey
      obtain ⟨t, htargets, hdemux⟩ := hkey
      obtain ⟨dup, hdup, hadd⟩ := Option.bind_eq_some_iff.mp hadd
      cases dup with
      | false => exact absurd hdup (has_duplicate (hok.entry _ _ hl) htargets hdemux.1)
      | true =>
        cases hadd
        refine ⟨.inl (by decide), fun hfree => ?_⟩
        cases hfree
  | none =>
    have hb : normBits srvid bits ≤ 8 * srvid.length := by
      have := normBits_le srvid bits
      omega
    dsimp only at hadd
    rw [addEntry] at hadd
    split at hadd
    next hzero =>
      cases hadd
      exact ⟨.inl (by decide), fun _ hample => by simp [Ample, hzero] at hample⟩
    · obtain ⟨⟨se, ret, m⟩, hentry, hadd⟩ := Option.bind_eq_some_iff.mp hadd
      dsimp only at hadd
      split at hadd
      next hneg =>
        cases hadd
        refine ⟨.inl (by decide), fun _ hample => ?_⟩
        rw [add_sock_to_empty (by unfold Ample at hample; omega) hentry] at hneg
        cases hneg
      next hneg =>
        obtain rfl : ret = 1 := (add_to_empty hentry).resolve_left hneg
        obtain ⟨t', node, pos', hins, -, hout⟩ :=
          BstInsert.insert_grown hrep.toRepresents hentries.exact hb srvOps_succeeds se m
        simp only [hins] at hadd
        rcases hout with ⟨rfl, hwhy, -⟩ | ⟨a, rfl, -⟩
        · cases hadd
          refine ⟨.inl (by decide), fun _ hample => ?_⟩
          have hmissing := BstInsert.missing_le tbl.tree srvid (normBits srvid bits)
          have hmem := add_memory hentry
          have hfew := hwhy.resolve_left hfound
          have hnorm := normBits_le srvid bits
          rw [Ample, SERVICE_ID_MAX_PREFIX_BITS] at hample
          omega
        · cases hadd
          exact ⟨.inr rfl, fun _ _ => rfl⟩

theorem IsDirectory.add
    {mem : ℕ} {r : ℤ} (h : IsDirectory tbl n D) (hroom : n < 2 ^ 32 - 1) (hlen : srvid.length = 32) (hbits : bits ≤ 256)
    (hk : k.addr = i.1)
    (hadd : serviceAdd tbl (some srvid) bits .demux flags priority weight none 0 (.sk (some k)) mem = some (tbl', r)) :
    (r ≠ 1 ∧ IsDirectory tbl' n D) ∨ (r = 1 ∧ D (bitsOf srvid (normBits srvid bits)) = none ∧
      IsDirectory tbl' (n + 1) (Function.update D (bitsOf srvid (normBits srvid bits)) (some i))) := by
  obtain ⟨pos, M, hrep, hok, hcard, hsole⟩ := h
  have hentry : HasEntryRoom M := lt_of_le_of_lt hcard hroom
  obtain ⟨pos', M', hrep', hout, -⟩ := add_spec hrep hentry (by rw [hlen]; exact hbits) hadd
  generalize bitsOf srvid (normBits srvid bits) = key at hout ⊢
  rcases hout with ⟨rfl, hne⟩ | ⟨hr, -, se, se', m, m', hse', rfl, hfrom⟩
  · exact .inl ⟨hne, pos', M', hrep', hok, hcard, hsole⟩
  refine .inr ⟨hr, ?_⟩
  rcases hfrom with ⟨hnone, rfl⟩ | ⟨hsome, hdup⟩
  · have hfree : D key = none := by
      have hp := hsole key
      rw [hnone] at hp
      cases hD : D key with
      | none => rfl
      | some j => exact (hD ▸ hp).elim
    have hnew : key ∉ M := fun hmem => by
      obtain ⟨v, hv⟩ := mem_iff.mp hmem
      simp [hnone] at hv
    obtain ⟨hok', -⟩ := add_keeps entryOk_create (by simp [ServiceEntryInvariant.HasRoom, serviceEntryCreate])
      (by simp [serviceEntryCreate]) hse'
    have hcard' : (M.insert key se').keys.card = M.keys.card + 1 := BstInsert.card_insert_new hnew
    refine ⟨hfree, pos', _, hrep', ⟨fun q e hq => ?_, by omega⟩, by omega, fun q => ?_⟩
    · by_cases hqk : q = key
      · subst hqk
        rw [lookup_insert] at hq
        exact Option.some.inj hq ▸ hok'
      · rw [lookup_insert_of_ne _ hqk] at hq
        exact hok.entry q e hq
    · by_cases hqk : q = key
      · subst hqk
        rw [lookup_insert, update_self]
        exact created_sole hk hse'
      · rw [lookup_insert_of_ne _ hqk, update_of_ne hqk]
        exact hsole q
  · -- a prefix that is taken
    exfalso
    have hp := hsole key
    rw [hsome] at hp
    cases hD : D key with
    | none =>
      rw [hD] at hp
      exact hp
    | some j =>
      rw [hD] at hp
      obtain ⟨t, htargets, hdemux⟩ := hp
      exact has_duplicate (hok.entry key se hsome) htargets hdemux.1 hdup

theorem IsDirectory.del {stats : Option TargetStats} (h : IsDirectory tbl n D) (hown : D (bitsOf srvid bits) = some i)
    (hdel : serviceTableDelTarget tbl srvid bits .demux none 0 = some (tbl', stats)) :
    IsDirectory tbl' n (Function.update D (bitsOf srvid bits) none) := by
  obtain ⟨pos, M, hrep, hok, hcard, hsole⟩ := h
  obtain ⟨e, t, he, htargets, hdemux⟩ := sole_some (hown ▸ hsole (bitsOf srvid bits))
  have hmem : bitsOf srvid bits ∈ M := mem_of_lookup_eq_some he
  obtain ⟨pos', M', hrep', -, hout⟩ := del_target_spec hrep hdel
  rcases hout with ⟨-, hnone⟩ | ⟨q, se, r, hlong, hse, hrem, rfl⟩
  · exact absurd hmem (hnone _ prefix_rfl)
  obtain rfl := hlong.unique ⟨prefix_rfl, hmem, fun r hr _ => hr.length_le⟩
  cases he.symm.trans hse
  have hgone : (outcome r).1 = none := by
    rcases removeTarget_ok (hok.entry _ e he) hrem with ⟨-, -, -, hall⟩ | ⟨hentry, -, hgone, t', -, hperm⟩
    · have := hall t (by simp [htargets])
      simp [removes, hdemux.1] at this
    · rw [htargets] at hperm
      have hnil : targets r.entry.targetSet = [] := by
        have := hperm.length_eq
        simpa using this
      have hempty : r.entry.targetSet = [] := by
        by_contra hne
        exact targets_ne_nil hentry hne hnil
      simp [outcome, hgone.mpr hempty]
  have hsub : (assign M (bitsOf srvid bits) (outcome r).1).keys ⊆ M.keys := by
    intro q hq
    rw [Finmap.mem_keys] at hq ⊢
    obtain ⟨v, hv⟩ := mem_iff.mp hq
    rw [lookup_assign, hgone] at hv
    split at hv
    · cases hv
    · exact mem_of_lookup_eq_some hv
  have hle := Finset.card_le_card hsub
  refine ⟨pos', _, hrep', ⟨fun q v hv => ?_, hle.trans_lt hok.card⟩, hle.trans hcard, fun q => ?_⟩
  · rw [lookup_assign, hgone] at hv
    split at hv
    · cases hv
    · exact hok.entry q v hv
  · rw [lookup_assign, hgone]
    by_cases hq : q = bitsOf srvid bits
    · subst hq
      rw [if_pos rfl, update_self]
      trivial
    · rw [if_neg hq, update_of_ne hq]
      exact hsole q

end SockDirectory
