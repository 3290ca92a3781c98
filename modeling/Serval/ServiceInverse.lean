import Serval.ServiceRuns

/-! # Adding and deleting a target

`service_add` and `service_del_target` find the entry by different lookups and the target by different tests.
-/
namespace ServiceInverse

open BitString BstModel BstLayout BstLookup BstRelease BstTraversal Option Finmap
open ServiceTargets TargetSets ServiceTable ServiceTableSpec ServiceRuns
open ServiceEntryInvariant (EntryOk HasRoom entryOk_iff add_cases addTarget_undone selects_of_forward
  targetCreate_cases targetCreate_some)

def givenPrefix (srvid : List UInt8) (prefixBits : ℕ) : List Bool :=
  bitsOf srvid (normBits srvid prefixBits)

def Restores (tbl tbl₁ : Table) (srvid : List UInt8) (prefixBits : ℕ) (type : RuleType)
    (dst : Option Buf) (dstlen : ℕ) : Prop :=
  ∃ tbl₂ stats, serviceTableDelTarget tbl₁ srvid prefixBits type dst dstlen = some (tbl₂, stats) ∧
    ∀ p, entryAt tbl₂ p = entryAt tbl p

def Names (type : RuleType) (dst : Option Buf) (dstlen : ℕ) (sk : Sock) (t : Target) : Prop :=
  t.type = type ∧ (type = .demux → t.out = .sk (some sk)) ∧
    (type = .forward → ∃ d, dst = some d ∧ t.dst = d.bytes.take dstlen)

/-- The call removes nothing, or one target that the arguments name from the entry of the
given prefix. -/
def DelExact (tbl : Table) (srvid : List UInt8) (prefixBits : ℕ) (type : RuleType)
    (dst : Option Buf) (dstlen : ℕ) (sk : Sock) : Prop :=
  ∃ tbl' stats, serviceTableDelTarget tbl srvid prefixBits type dst dstlen = some (tbl', stats) ∧
    ((∀ p, entryAt tbl' p = entryAt tbl p) ∨
      ∃ se f, entryAt tbl (givenPrefix srvid prefixBits) = some se ∧ Lies f se.targetSet ∧
        Names type dst dstlen sk f.target ∧
        entryAt tbl' (givenPrefix srvid prefixBits) =
          (if dropTarget f = [] then none else some ⟨dropTarget f, se.count - 1⟩) ∧
        ∀ p, p ≠ givenPrefix srvid prefixBits → entryAt tbl' p = entryAt tbl p)

/-- When a delete undoes an add: a forwarding rule, or a socket's with no other socket's target first; for the default
service no longer active prefix; and the empty prefix is not the first to be added. -/
structure Undoable (tbl : Table) (srvid : List UInt8) (prefixBits : ℕ) (type : RuleType)
    (priority : UInt32) : Prop where
  rule : type = .forward ∨ type = .demux ∧ ∀ se, entryAt tbl (givenPrefix srvid prefixBits) = some se →
      ∀ set ∈ se.targetSet, priority ≤ set.priority → ∀ t ∈ set.list, t.type ≠ .demux
  lookup : srvid = defaultService → ∀ q, q <+: bitsOf srvid prefixBits → q ≠ [] → entryAt tbl q = none
  root : givenPrefix srvid prefixBits = [] → ∃ p, entryAt tbl p ≠ none

/-- When a delete removes only what it names: the longest active prefix is the given one, its destinations have this
length, its sockets are the caller's, and the root's entry does not go while the root has no child. -/
structure Unambiguous (tbl : Table) (srvid : List UInt8) (prefixBits : ℕ) (type : RuleType)
    (dst : Option Buf) (dstlen : ℕ) (sk : Sock) : Prop where
  lookup : ∀ q, IsLongest (fun q => entryAt tbl q ≠ none) (bitsOf srvid prefixBits) q → q = givenPrefix srvid prefixBits
  forward : type = .forward → ∃ d, dst = some d ∧ dstlen ≤ d.bytes.length ∧
    ∀ se, entryAt tbl (givenPrefix srvid prefixBits) = some se →
      ∀ t ∈ targets se.targetSet, t.type = .forward → t.dst.length = dstlen
  demux : type = .demux → ∀ se, entryAt tbl (givenPrefix srvid prefixBits) = some se →
    ∀ t ∈ targets se.targetSet, t.type = .demux → t.out = .sk (some sk)
  root : ∀ se, entryAt tbl [] = some se → (targets se.targetSet).length = 1 →
    nodeAt tbl.tree [false] ≠ none ∨ nodeAt tbl.tree [true] ≠ none

section Calls

variable {dstlen prefixBits : ℕ} {dst : Option Buf} {out : TargetOut} {weight : UInt32} {t : Target}
  {se : ServiceEntry} {type : RuleType} {srvid : List UInt8} {sk : Sock}

theorem created_forward
    {mem : ℕ} (hlen : dstlen ≠ 0) (h : targetCreate .forward dst dstlen out weight mem = some (some t)) :
    removes .forward dst dstlen t = some true := by
  rcases targetCreate_cases h with ⟨-, d, rfl, hle, rfl⟩ | ⟨hzero, -⟩
  · simp [removes, memcmp, hle]
  · exact absurd hzero hlen

theorem removes_of_selects {d : Buf} {protocol : ℤ} (h : selects .forward (some d) dstlen protocol t = some false) :
    removes .forward (some d) dstlen t = some false := by
  by_cases htype : t.type = .forward
  · rw [selects_of_forward htype] at h
    simp [removes, htype, h]
  · simp [removes, htype]

theorem remove_undoes_add {se' : ServiceEntry} {flags : UInt16} {priority : UInt32} {m m' : ℕ}
    (hse : EntryOk se) (hroom : HasRoom se.targetSet priority) (hrule : ruleRefused type dst dstlen = false)
    (hkind : type = .forward ∨ type = .demux ∧
      ∀ set ∈ se.targetSet, priority ≤ set.priority → ∀ t ∈ set.list, t.type ≠ .demux)
    (hadd : serviceEntryAddTarget se type flags priority weight dst dstlen out m = some (se', 1, m')) :
    ∃ rem, removeTarget type dst dstlen se' = some rem ∧ rem.entry = se ∧ (rem.gone = true ↔ se.targetSet = []) := by
  rcases add_cases hadd with ⟨-, hne⟩ | ⟨-, protocol, t, hsel, -, hcreate, hse'⟩
  · exact absurd rfl hne
  subst hse'
  obtain ⟨f, hlies, htarget, hdrop, hahead⟩ :=
    addTarget_undone (entryOk_iff.mp hse).1 hroom flags t
  have hfound : findTarget (removes type dst dstlen)
      (updateSet priority (targetSetAddTarget · t)
        (ServiceEntryInvariant.withSet flags priority se.targetSet)) = some (some f) := by
    apply findTarget_eq hlies
    · intro x hx
      obtain ⟨set, hset, hle, hxs⟩ := hahead x hx
      rcases hkind with rfl | ⟨rfl, hnone⟩
      · obtain ⟨d, rfl⟩ : ∃ d, dst = some d := by
          cases dst with
          | none => simp [ruleRefused] at hrule
          | some d => exact ⟨d, rfl⟩
        exact removes_of_selects (hsel x (List.mem_flatMap.mpr ⟨set, hset, hxs⟩))
      · simp [removes, hnone set hset hle x hxs]
    · rw [htarget]
      rcases hkind with rfl | ⟨rfl, -⟩
      · refine created_forward ?_ hcreate
        rintro rfl
        simp [ruleRefused] at hrule
      · have hlen : dstlen = 0 := by simpa [ruleRefused] using hrule
        simp [removes, (targetCreate_some hcreate).1, hlen]
  refine ⟨⟨⟨dropTarget f, se.count + 1 - 1⟩, 1, dropTarget f = [], some f.target.stats⟩, ?_, ?_, ?_⟩
  · simp [removeTarget, ServiceTargets.serviceEntryRemoveTarget, hfound]
  · simp [hdrop]
  · simp [hdrop]

variable {tbl : Table} {pos : List Bool → Option Ptr} {M : BitMap ServiceEntry}

theorem mem_iff_entryAt (h : TableRep tbl pos M) {p : List Bool} : p ∈ M ↔ entryAt tbl p ≠ none := by
  rw [entryAt_eq h, mem_iff, ne_none_iff_exists']

theorem givenPrefix_mono (srvid : List UInt8) (prefixBits : ℕ) :
    givenPrefix srvid prefixBits <+: bitsOf srvid prefixBits := by
  apply bitsOf_mono
  rw [normBits]
  split
  · exact Nat.zero_le _
  · exact le_rfl

theorem added_is_longest (se : ServiceEntry)
    (hlookup : srvid = defaultService → ∀ q, q <+: bitsOf srvid prefixBits → q ≠ [] → q ∉ M) :
    IsLongest (· ∈ M.insert (givenPrefix srvid prefixBits) se) (bitsOf srvid prefixBits)
      (givenPrefix srvid prefixBits) := by
  refine ⟨givenPrefix_mono srvid prefixBits, mem_insert.mpr (.inl rfl), ?_⟩
  intro q hq hm
  by_cases hd : srvid = defaultService
  · rcases mem_insert.mp hm with rfl | hm
    · exact le_rfl
    · by_cases hnil : q = []
      · simp [hnil]
      · exact absurd hm (hlookup hd q hq hnil)
  · have heq : givenPrefix srvid prefixBits = bitsOf srvid prefixBits := by
      simp [givenPrefix, normBits, hd]
    rw [heq]
    exact hq.length_le

theorem del_target_runs (h : TableRep tbl pos M) {q : List Bool} (hlong : IsLongest (· ∈ M) (bitsOf srvid prefixBits) q)
    (hl : M.lookup q = some se) {rem : Removal}
    (hrem : removeTarget type dst dstlen se = some rem) (hs : rem.gone = true → Releasable pos q) :
    ∃ tbl', serviceTableDelTarget tbl srvid prefixBits type dst dstlen = some (tbl', rem.stats) ∧
      ∀ p, entryAt tbl' p = if p = q then (outcome rem).1 else M.lookup p := by
  obtain ⟨r, hfind, hr⟩ := find_longest_spec h.toRepresents srvid prefixBits
  cases r with
  | none => exact absurd hlong.holds (hr q hlong.isPrefix)
  | some n =>
    obtain ⟨q', hq', hlong'⟩ := hr
    obtain rfl := hlong.unique hlong'
    obtain ⟨tbl', pos', hrun, hrep, -⟩ := removeFrom_spec h hq' hl hrem hs
    refine ⟨tbl', by simp [serviceTableDelTarget, hfind, hrun], ?_⟩
    intro p
    rw [entryAt_eq hrep, lookup_assign]

theorem root_has_child (h : TableRep tbl pos M) {p : List Bool} (hp : p ∈ M) (hne : p ≠ []) :
    pos [false] ≠ none ∨ pos [true] ≠ none := by
  obtain ⟨v, hv⟩ := mem_iff.mp hp
  obtain ⟨n, -, hn, -⟩ := h.bound_node hv
  obtain ⟨b, rest, rfl⟩ := List.exists_cons_of_ne_nil hne
  have hb : pos [b] ≠ none := h.toLayout.prefix_some (q := b :: rest) ⟨rest, rfl⟩ (by simp [hn])
  cases b
  · exact .inl hb
  · exact .inr hb

theorem restores_of_undoable (h : TableRep tbl pos M) (hok : MapOk M) (hfull : Full M)
    {flags : UInt16} {priority : UInt32} {mem : ℕ} {tbl₁ : Table}
    (hl : Legal tbl (.add (some srvid) prefixBits type flags priority weight dst dstlen out mem))
    (hc : Careful tbl (.add (some srvid) prefixBits type flags priority weight dst dstlen out mem))
    (hund : Undoable tbl srvid prefixBits type priority)
    (hadd : serviceAdd tbl (some srvid) prefixBits type flags priority weight dst dstlen out mem =
      some (tbl₁, 1)) : Restores tbl tbl₁ srvid prefixBits type dst dstlen := by
  obtain ⟨pos₁, M₁, hrep₁, hout⟩ := step_outcome h hok hl hc hadd
  rcases hout with ⟨-, hne⟩ | ⟨-, hrule, se, se', m, m', hentry, rfl, hfrom⟩
  · exact absurd rfl hne
  -- the entry the add worked on, new or not
  obtain ⟨hse, hroom, -⟩ := added_entry h hok hc hfrom
  have hkind : type = .forward ∨ type = .demux ∧
      ∀ set ∈ se.targetSet, priority ≤ set.priority → ∀ t ∈ set.list, t.type ≠ .demux := by
    refine hund.rule.imp id fun hd => ⟨hd.1, ?_⟩
    rcases hfrom with ⟨-, rfl⟩ | ⟨hlook, -⟩
    · simp [serviceEntryCreate]
    · exact hd.2 se (by rw [entryAt_eq h]; exact hlook)
  obtain ⟨rem, hrem, hback, hgone⟩ := remove_undoes_add hse hroom hrule hkind hentry
  have hlong := added_is_longest se' fun hd q hq hne hm =>
    (mem_iff_entryAt h).mp hm (hund.lookup hd q hq hne)
  have hempty : se.targetSet = [] ↔ M.lookup (givenPrefix srvid prefixBits) = none := by
    rcases hfrom with ⟨hnone, rfl⟩ | ⟨hlook, -⟩
    · exact ⟨fun _ => hnone, fun _ => rfl⟩
    · exact ⟨fun h0 => absurd h0 (hfull _ _ hlook), fun h0 => by cases h0.symm.trans hlook⟩
  have hsafe : rem.gone = true → Releasable pos₁ (givenPrefix srvid prefixBits) := by
    intro hg hroot
    obtain ⟨p, hp⟩ := hund.root hroot
    have hpM := (mem_iff_entryAt h).mpr hp
    refine root_has_child hrep₁ (mem_insert.mpr (.inr hpM)) ?_
    rintro rfl
    rw [hroot] at hempty
    exact lookup_eq_none.mp (hempty.mp (hgone.mp hg)) hpM
  obtain ⟨tbl₂, hdel, hentries⟩ :=
    del_target_runs hrep₁ hlong (lookup_insert M) hrem hsafe
  refine ⟨tbl₂, rem.stats, hdel, ?_⟩
  intro p
  rw [hentries, entryAt_eq h]
  split
  · rename_i hp
    subst hp
    by_cases hg : rem.gone = true
    · rw [hempty.mp (hgone.mp hg)]
      simp [outcome, hg]
    · rcases hfrom with ⟨hnone, -⟩ | ⟨hlook, -⟩
      · exact absurd (hgone.mpr (hempty.mpr hnone)) hg
      · rw [show M.lookup (givenPrefix srvid prefixBits) = some se from hlook]
        simp [outcome, hg, hback]
  · rename_i hp
    exact lookup_insert_of_ne M hp

theorem removes_ne_none (hun : Unambiguous tbl srvid prefixBits type dst dstlen sk)
    (hse : entryAt tbl (givenPrefix srvid prefixBits) = some se) :
    ∀ t ∈ targets se.targetSet, removes type dst dstlen t ≠ none := by
  intro t ht
  by_cases htype : t.type = type
  · cases type with
    | forward =>
      obtain ⟨d, hd, hlen, hdst⟩ := hun.forward rfl
      have ht := hdst se hse t ht htype
      simp [removes, htype, hd, memcmp, hlen, ht]
    | undefined | demux | delay | drop => simp [removes, htype]
  · simp [removes, htype]

theorem names_of_removes (hun : Unambiguous tbl srvid prefixBits type dst dstlen sk)
    (hse : entryAt tbl (givenPrefix srvid prefixBits) = some se) (ht : t ∈ targets se.targetSet)
    (hrem : removes type dst dstlen t = some true) : Names type dst dstlen sk t := by
  have htype : t.type = type := by
    by_contra hne
    simp [removes, hne] at hrem
  refine ⟨htype, ?_, ?_⟩
  · intro hd
    exact hun.demux hd se hse t ht (htype.trans hd)
  · intro hf
    obtain ⟨d, hd, hlen, hdst⟩ := hun.forward hf
    have hl := hdst se hse t ht (htype.trans hf)
    subst hf
    refine ⟨d, hd, ?_⟩
    have heq : t.dst.take dstlen = d.bytes.take dstlen := by
      simpa [removes, htype, hd, memcmp, hlen, hl] using hrem
    rwa [← hl, List.take_length, hl] at heq

theorem exact_of_unambiguous (h : TableRep tbl pos M) (hok : MapOk M)
    (hun : Unambiguous tbl srvid prefixBits type dst dstlen sk) : DelExact tbl srvid prefixBits type dst dstlen sk := by
  obtain ⟨r, hfind, hr⟩ := find_longest_spec h.toRepresents srvid prefixBits
  cases r with
  | none => exact ⟨tbl, none, by simp [serviceTableDelTarget, hfind], .inl fun _ => rfl⟩
  | some n =>
    obtain ⟨q, -, hlong⟩ := hr
    have hq : q = givenPrefix srvid prefixBits := by
      apply hun.lookup q
      exact ⟨hlong.isPrefix, (mem_iff_entryAt h).mp hlong.holds,
        fun r hr hm => hlong.longest r hr ((mem_iff_entryAt h).mpr hm)⟩
    subst hq
    obtain ⟨se, hl⟩ := mem_iff.mp hlong.holds
    have hse : entryAt tbl (givenPrefix srvid prefixBits) = some se := by rw [entryAt_eq h, hl]
    obtain ⟨found, hfound⟩ :=
      ne_none_iff_exists'.mp (findTarget_ne_none (removes_ne_none hun hse))
    cases found with
    | none =>
      have hrem : removeTarget type dst dstlen se = some ⟨se, 0, false, none⟩ := by
        simp [removeTarget, ServiceTargets.serviceEntryRemoveTarget, hfound]
      obtain ⟨tbl', hdel, hentries⟩ := del_target_runs h hlong hl hrem (by simp)
      refine ⟨tbl', none, hdel, .inl fun p => ?_⟩
      rw [hentries, entryAt_eq h]
      split
      · rename_i hp
        subst hp
        rw [hl]
        rfl
      · rfl
    | some f =>
      obtain ⟨hlies, hsel, -⟩ := findTarget_some hfound
      have hperm := (drop_ok (entryOk_iff.mp (hok.entry _ _ hl)).1 hlies).2
      have hmem : f.target ∈ targets se.targetSet := hperm.mem_iff.mpr (by simp)
      have hrem : removeTarget type dst dstlen se = some
          ⟨⟨dropTarget f, se.count - 1⟩, 1, dropTarget f = [], some f.target.stats⟩ := by
        simp [removeTarget, ServiceTargets.serviceEntryRemoveTarget, hfound]
      obtain ⟨tbl', hdel, hentries⟩ := del_target_runs h hlong hl hrem (by
        intro hg hroot
        have hempty : dropTarget f = [] := by simpa using hg
        have hone : (targets se.targetSet).length = 1 := by rw [hperm.length_eq, hempty]; rfl
        have hchild := hun.root se (by rw [← hroot]; exact hse) hone
        simpa [h.nodeAt_eq] using hchild)
      refine ⟨tbl', _, hdel, .inr ⟨se, f, hse, hlies, names_of_removes hun hse hmem hsel, ?_, ?_⟩⟩
      · rw [hentries, if_pos rfl]
        simp [outcome]
      · intro p hp
        rw [hentries, if_neg hp, entryAt_eq h]

/-- In every table reached by tidy calls: a delete undoes an add, and a delete removes one
target at most and the one it names, wherever the conditions on the table hold. -/
theorem add_del_inverse {tbl : Table} (h : Reachable Tidy tbl) :
    (∀ srvid prefixBits type flags priority weight dst dstlen out mem tbl₁,
      Legal tbl (.add (some srvid) prefixBits type flags priority weight dst dstlen out mem) →
      Careful tbl (.add (some srvid) prefixBits type flags priority weight dst dstlen out mem) →
      Undoable tbl srvid prefixBits type priority →
      serviceAdd tbl (some srvid) prefixBits type flags priority weight dst dstlen out mem =
        some (tbl₁, 1) → Restores tbl tbl₁ srvid prefixBits type dst dstlen) ∧
    ∀ srvid prefixBits type dst dstlen sk, Legal tbl (.delTarget srvid prefixBits type dst dstlen) →
      Unambiguous tbl srvid prefixBits type dst dstlen sk →
      DelExact tbl srvid prefixBits type dst dstlen sk := by
  obtain ⟨pos, M, hrep, hok, hfull⟩ := reachable_full h
  constructor
  · intro srvid prefixBits type flags priority weight dst dstlen out mem tbl₁ hl hc hund hadd
    exact restores_of_undoable hrep hok hfull hl hc hund hadd
  · intro srvid prefixBits type dst dstlen sk _ hun
    exact exact_of_unambiguous hrep hok hun

def Laws (tbl : Table) : Prop :=
  (∀ srvid prefixBits type flags priority weight dst dstlen out mem tbl₁,
    Legal tbl (.add (some srvid) prefixBits type flags priority weight dst dstlen out mem) →
    serviceAdd tbl (some srvid) prefixBits type flags priority weight dst dstlen out mem =
      some (tbl₁, 1) → Restores tbl tbl₁ srvid prefixBits type dst dstlen) ∧
  ∀ srvid prefixBits type dst dstlen sk, Legal tbl (.delTarget srvid prefixBits type dst dstlen) →
    DelExact tbl srvid prefixBits type dst dstlen sk

end Calls

namespace Counterexample

open ServiceRuns.Sample

def host : Option Buf := some ⟨4096, [10, 0, 0, 1]⟩

def caller : Sock := ⟨64, 17, by decide⟩

def delLonger : Op := .delTarget srvid 2 .forward host 4

def emptied : Table := resultOf oneRule delLonger

theorem emptied_run : serviceTableDelTarget oneRule srvid 2 .forward host 4 = some (emptied, some {}) := rfl

def addDrop : Op := .add (some srvid) 1 .drop 0 0 1 host 4 (.oif 0) 8

def dropped : Table := resultOf serviceTableInit addDrop

theorem dropped_run : serviceAdd serviceTableInit (some srvid) 1 .drop 0 0 1 host 4 (.oif 0) 8 =
    some (dropped, 1) := rfl

theorem dropped_del : serviceTableDelTarget dropped srvid 1 .drop host 4 =
    some (resultOf dropped (.delTarget srvid 1 .drop host 4), none) := rfl

end Counterexample

open Counterexample ServiceRuns.Sample in
/-- A delete for a prefix without an entry removes the target of a shorter one, and a delete
of a DROP rule does not undo its add. -/
theorem add_del_not_inverse :
    (∃ tbl, Reachable (fun _ _ => True) tbl ∧ ∃ sk, ¬ DelExact tbl srvid 2 .forward host 4 sk) ∧
    ¬ ∀ tbl, Reachable (fun _ _ => True) tbl → Laws tbl := by
  constructor
  · refine ⟨oneRule, oneRule_reachable, caller, ?_⟩
    rintro ⟨tbl', stats, hrun, hsame | ⟨se, f, hse, -⟩⟩
    · rw [emptied_run] at hrun
      cases hrun
      have h := hsame [true]
      cases h
    · cases hse
  · intro hall
    obtain ⟨tbl₂, stats, hdel, hsame⟩ := (hall _ .init).1 srvid 1 .drop 0 0 1 host 4 (.oif 0) 8
      dropped ⟨rfl, by decide⟩ dropped_run
    rw [dropped_del] at hdel
    cases hdel
    have h := hsame [true]
    cases h

open Counterexample ServiceRuns.Sample in
/-- The second of two rules is undone, and a delete takes the first of them. -/
theorem add_del_inverse_rules : Restores oneRule twoRules srvid 1 .forward (some ⟨4096, [10, 0, 0, 2]⟩) 4 ∧
    DelExact twoRules srvid 1 .forward host 4 caller := by
  obtain ⟨hone, htwo⟩ := @rules_reachable Tidy ⟨rules_careful.1, nofun⟩ ⟨rules_careful.2, nofun⟩
  constructor
  · exact (add_del_inverse hone).1 srvid 1 .forward 0 0 1 _ 4 (.oif 1) 8 twoRules ⟨rfl, by decide⟩ rules_careful.2
      ⟨.inl rfl, fun hd => absurd hd (by decide), fun hroot => absurd hroot (by decide)⟩ twoRules_run
  · refine (add_del_inverse htwo).2 srvid 1 .forward host 4 caller ⟨rfl, by decide⟩ ⟨?_, fun _ => ?_, nofun, nofun⟩
    · intro q hq
      exact entry_of_single rfl (by decide) (hq.isPrefix.trans ⟨(bitsOf srvid 256).tail, rfl⟩) hq.holds
    · refine ⟨_, rfl, by decide, fun se hse => ?_⟩
      cases hse
      decide

end ServiceInverse
