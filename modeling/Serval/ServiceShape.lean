import Serval.ServiceAddresses

/-! # The shape of the trie of a service table

Beyond what the table stands for: the bytes that the nodes store, the leaves, and the counters.
-/
namespace ServiceShape

open BitString BstModel BstLayout BstLookup BstInsert BstTraversal List Option Finmap Function
open ServiceTargets ServiceTable ServiceTableSpec ServiceRuns ServiceDefined

variable {tbl tbl' : Table} {pos : List Bool → Option Ptr} {M : BitMap ServiceEntry} {n : Ptr}

variable {step : ServiceEntry → Option Removal}

structure Shaped (tbl : Table) (pos : List Bool → Option Ptr) (M : BitMap ServiceEntry) : Prop
    extends TableRep tbl pos M where
  trimmed : Trimmed pos M

theorem shaped_init : Shaped serviceTableInit (fun _ => none) ∅ :=
  ⟨tableRep_init, fun _ _ hnode => absurd rfl hnode⟩

def Roomy (tbl : Table) : Op → Prop
  | .add (some _) _ _ _ _ _ _ _ _ mem => tbl.services.toNat < 2 ^ 32 - 1 ∧ Ample mem
  | _ => True

theorem card_le_of_subset {M' : BitMap ServiceEntry} (h : ∀ q ∈ M', q ∈ M) : M'.keys.card ≤ M.keys.card := by
  refine Finset.card_le_card fun q hq => ?_
  rw [Finmap.mem_keys] at hq ⊢
  exact h q hq

theorem mem_of_assign {p q : List Bool} {v : Option ServiceEntry} (hp : p ∈ M) (hq : q ∈ assign M p v) : q ∈ M := by
  by_cases hqp : q = p
  · exact hqp ▸ hp
  · obtain ⟨se, hse⟩ := mem_iff.mp hq
    rw [lookup_assign, if_neg hqp] at hse
    exact mem_of_lookup_eq_some hse

theorem sweep_shaped (h : Shaped tbl pos M) (hcard : M.keys.card < 2 ^ 32) {r : ℤ}
    (hrun : forAllEntries tbl (fun tbl n => (removeFrom step tbl n).map fun x => (x.1, (x.2.ret : ℤ))) =
      some (tbl', r)) : ∃ pos' M', Shaped tbl' pos' M' ∧ M'.keys.card < 2 ^ 32 := by
  have hcallback := @removeFrom_callback_of step Shaped (fun h => h.toTableRep)
    (fun h _ hrep htrim => ⟨hrep, htrim h.trimmed⟩)
  obtain ⟨hstuck, hruns⟩ := for_all_of hcallback h
  have hfree : ∀ q v, M.lookup q = some v → ¬ Stuck (fun se => (step se).map outcome) pos q v := by
    intro q v hv hs
    rw [hstuck ⟨q, v, hv, hs⟩] at hrun
    cases hrun
  obtain ⟨tbl₁, pos', M', hrun', hshaped, hM'⟩ := hruns hfree
  rw [hrun'] at hrun
  cases hrun
  refine ⟨pos', M', hshaped, (card_le_of_subset fun q hq => ?_).trans_lt hcard⟩
  obtain ⟨v', hv'⟩ := mem_iff.mp hq
  rw [hM'] at hv'
  obtain ⟨v, hv, -⟩ := bind_eq_some_iff.mp hv'
  exact mem_of_lookup_eq_some hv

theorem remove_shaped (h : Shaped tbl pos M) (hcard : M.keys.card < 2 ^ 32) {p : List Bool} {r : Removal}
    (hp : pos p = some n) (hm : p ∈ M) (hrun : removeFrom step tbl n = some (tbl', r)) :
    ∃ pos' M', Shaped tbl' pos' M' ∧ M'.keys.card < 2 ^ 32 := by
  obtain ⟨se, pos', -, -, hrep, htrim⟩ := removeFrom_inv h.toTableRep hp hm hrun
  exact ⟨pos', _, ⟨hrep, htrim h.trimmed⟩, (card_le_of_subset fun q => mem_of_assign hm).trans_lt hcard⟩

theorem services_card (h : TableRep tbl pos M) (hcard : M.keys.card < 2 ^ 32) : tbl.services.toNat = M.keys.card := by
  rw [h.services, UInt32.toNat_ofNat']
  exact Nat.mod_eq_of_lt hcard

theorem add_card {k : List Bool} {type : RuleType} {flags : UInt16} {priority weight : UInt32} {dst : Option Buf}
    {dstlen : ℕ} {out : TargetOut} {M' : BitMap ServiceEntry} {r : ℤ}
    (h : AddOutcome M k type flags priority weight dst dstlen out M' r) : M'.keys.card ≤ M.keys.card + 1 := by
  rcases h with ⟨rfl, -⟩ | ⟨-, -, se, se', m, m', -, rfl, -⟩
  · exact Nat.le_succ _
  · by_cases hk : k ∈ M
    · rw [card_keys_insert hk]
      exact Nat.le_succ _
    · rw [card_insert_new hk]

theorem step_shaped (h : Shaped tbl pos M) (hcard : M.keys.card < 2 ^ 32) {op : Op} {r : ℤ} (hl : Legal tbl op)
    (hroomy : Roomy tbl op) (hrun : run tbl op = some (tbl', r)) :
    ∃ pos' M', Shaped tbl' pos' M' ∧ M'.keys.card < 2 ^ 32 := by
  cases op with
  | add srvid prefixBits type flags priority weight dst dstlen out mem =>
    cases srvid with
    | none =>
      cases hrun
      exact ⟨pos, M, h, hcard⟩
    | some srvid =>
      have hroom : HasEntryRoom M := by
        rw [HasEntryRoom, ← services_card h.toTableRep hcard]
        exact hroomy.1
      have hb : prefixBits ≤ 8 * srvid.length := by
        rw [hl.1]
        exact hl.2
      obtain ⟨pos', M', hrep, hout, htrim⟩ := add_spec h.toTableRep hroom hb hrun
      refine ⟨pos', M', ⟨hrep, htrim hroomy.2 hl.2 h.trimmed⟩, ?_⟩
      have hle := add_card hout
      rw [HasEntryRoom] at hroom
      omega
  | modify srvid prefixBits type flags priority weight dst dstlen newDst newDstlen routed mem =>
    cases srvid with
    | none =>
      cases hrun
      exact ⟨pos, M, h, hcard⟩
    | some srvid =>
      obtain ⟨M', hrep, hout⟩ := modify_spec h.toTableRep hrun
      rcases hout with ⟨rfl, -⟩ | ⟨se, se', hlook, -, rfl⟩
      · exact ⟨pos, M', ⟨hrep, h.trimmed⟩, hcard⟩
      · refine ⟨pos, _, ⟨hrep, h.trimmed.mono fun q hq => mem_insert.mpr (.inr hq)⟩, ?_⟩
        rwa [card_keys_insert (mem_of_lookup_eq_some hlook)]
  | delTarget srvid prefixBits type dst dstlen =>
    obtain ⟨⟨tbl₁, stats⟩, hdel, hrun⟩ := bind_eq_some_iff.mp hrun
    cases hrun
    obtain ⟨found, hfind, hfound⟩ := find_longest_spec h.toRepresents srvid prefixBits
    simp only [serviceTableDelTarget, hfind, bind_eq_bind, bind_some] at hdel
    cases found with
    | none =>
      cases hdel
      exact ⟨pos, M, h, hcard⟩
    | some n =>
      obtain ⟨q, hq, hlong⟩ := hfound
      obtain ⟨⟨tbl₂, rem⟩, hrem, hdel⟩ := bind_eq_some_iff.mp hdel
      cases hdel
      exact remove_shaped h hcard hq hlong.holds hrem
  | delTargetAll type dst dstlen | delDevAll ifindex => exact sweep_shaped h hcard hrun
  | entryRemove p type dst dstlen =>
    obtain ⟨n, hn, hrun⟩ := bind_eq_some_iff.mp hrun
    obtain ⟨⟨tbl₁, rem⟩, hrem, hrun⟩ := bind_eq_some_iff.mp hrun
    cases hrun
    rw [Legal, entryAt_eq h.toTableRep] at hl
    have hm : p ∈ M := mem_iff.mpr (ne_none_iff_exists'.mp hl)
    rw [h.nodeAt_eq] at hn
    exact remove_shaped h hcard hn hm hrem

def RootKept (tbl : Table) (type : RuleType) (dst : Option Buf) (dstlen : ℕ) : Prop :=
  ∀ se, entryAt tbl [] = some se → Empties type dst dstlen se →
    nodeAt tbl.tree [false] ≠ none ∨ nodeAt tbl.tree [true] ≠ none

def AllReadable (tbl : Table) (type : RuleType) (dstlen : ℕ) : Prop :=
  ∀ p se, entryAt tbl p = some se → Readable type dstlen se

/-- The comparisons of destinations stay inside their memory, and no removal takes the last target of a root without
children. The removal by device is left out. -/
def Defined (tbl : Table) : Op → Prop
  | .add (some _) _ type _ _ _ dst dstlen out _ =>
    Given dst dstlen ∧ AllReadable tbl type dstlen ∧ (dstlen = 0 → out.asSk ≠ none)
  | .modify (some _) _ type _ _ _ dst dstlen newDst newDstlen _ _ =>
    Given dst dstlen ∧ AllReadable tbl type dstlen ∧ (newDst ≠ none → Given newDst newDstlen)
  | .delTarget _ _ type dst dstlen | .delTargetAll type dst dstlen | .entryRemove _ type dst dstlen =>
    Given dst dstlen ∧ AllReadable tbl type dstlen ∧ RootKept tbl type dst dstlen
  | .delDevAll _ => False
  | _ => True

def Safe (tbl : Table) (op : Op) : Prop := Roomy tbl op ∧ Defined tbl op

theorem sweep_runs {type : RuleType} {dst : Option Buf} {dstlen : ℕ} (h : TableRep tbl pos M) (hd : Given dst dstlen)
    (hread : AllReadable tbl type dstlen) (hroot : RootKept tbl type dst dstlen) :
    ∃ x, serviceTableDelTargetAll tbl type dst dstlen = some x := by
  obtain ⟨-, hruns⟩ := for_all_of (removeFrom_callback (removeTarget type dst dstlen)) h
  obtain ⟨tbl', -, -, hrun, -⟩ := hruns fun q se hse hstuck => by
    rw [← entryAt_eq h] at hse
    obtain ⟨r, hrem, hgone⟩ := @removeTarget_runs se type dst dstlen (hread q se hse) hd
    rw [Stuck, hrem] at hstuck
    obtain ⟨rfl, hzero, hone, c, hout⟩ := hstuck.resolve_left (by simp)
    have hempties : r.gone = true := by
      by_contra hkept
      simp [outcome, hkept] at hout
    rcases hroot se hse (hgone hempties) with hnode | hnode
    · exact hnode ((h.nodeAt_eq _).trans hzero)
    · exact hnode ((h.nodeAt_eq _).trans hone)
  exact ⟨_, hrun⟩

theorem step_runs (h : Shaped tbl pos M) (hcard : M.keys.card < 2 ^ 32) {op : Op} (hl : Legal tbl op)
    (hsafe : Safe tbl op) : ∃ tbl' r, run tbl op = some (tbl', r) := by
  have hrep := h.toTableRep
  have hentry : ∀ {p se}, M.lookup p = some se → entryAt tbl p = some se := fun hse => by rw [entryAt_eq hrep, hse]
  obtain ⟨hroomy, hdef⟩ := hsafe
  -- one removal, from the node of an entry
  have hremoves : ∀ {p n type dst dstlen}, Given dst dstlen → AllReadable tbl type dstlen →
      RootKept tbl type dst dstlen → pos p = some n → p ∈ M →
      ∃ x, removeFrom (removeTarget type dst dstlen) tbl n = some x := by
    intro p n type dst dstlen hd hread hroot hp hm
    obtain ⟨se, hse⟩ := mem_iff.mp hm
    refine removeFrom_runs hrep hp hse (hread p se (hentry hse)) hd fun hnil hempties => ?_
    rw [← h.nodeAt_eq, ← h.nodeAt_eq]
    exact hroot se (hentry (hnil ▸ hse)) hempties
  cases op with
  | add srvid prefixBits type flags priority weight dst dstlen out mem =>
    cases srvid with
    | none => exact ⟨_, _, rfl⟩
    | some srvid =>
      have hroom : HasEntryRoom M := by
        rw [HasEntryRoom, ← services_card hrep hcard]
        exact hroomy.1
      obtain ⟨tbl', r, hrun, -⟩ := @add_runs tbl pos M type dst dstlen flags priority weight out mem hrep hroom srvid
        prefixBits (fun se hse => hdef.2.1 _ se (hentry hse)) (by rw [hl.1]; exact hl.2) hdef.1 hdef.2.2
      exact ⟨tbl', r, hrun⟩
  | modify srvid prefixBits type flags priority weight dst dstlen newDst newDstlen routed mem =>
    cases srvid with
    | none => exact ⟨_, _, rfl⟩
    | some srvid =>
      obtain ⟨tbl', r, hrun, -⟩ := @modify_runs tbl pos M type dst newDst dstlen newDstlen flags priority weight mem
        hrep srvid prefixBits (fun se hse => hdef.2.1 _ se (hentry hse)) hdef.1 hdef.2.2 routed
      exact ⟨tbl', r, hrun⟩
  | delTarget srvid prefixBits type dst dstlen =>
    obtain ⟨found, hfind, hfound⟩ := find_longest_spec h.toRepresents srvid prefixBits
    cases found with
    | none => exact ⟨tbl, 0, by simp [run, serviceTableDelTarget, hfind]⟩
    | some n =>
      obtain ⟨q, hq, hlong⟩ := hfound
      obtain ⟨x, hrem⟩ := hremoves hdef.1 hdef.2.1 hdef.2.2 hq hlong.holds
      exact ⟨x.1, 0, by simp [run, serviceTableDelTarget, hfind, hrem]⟩
  | delTargetAll type dst dstlen =>
    obtain ⟨x, hrun⟩ := sweep_runs hrep hdef.1 hdef.2.1 hdef.2.2
    exact ⟨x.1, x.2, hrun⟩
  | delDevAll ifindex => exact hdef.elim
  | entryRemove p type dst dstlen =>
    obtain ⟨se, hse⟩ := ne_none_iff_exists'.mp hl
    rw [entryAt_eq hrep] at hse
    obtain ⟨n, -, hn, -⟩ := hrep.bound_node hse
    obtain ⟨x, hrem⟩ := hremoves hdef.1 hdef.2.1 hdef.2.2 hn (mem_of_lookup_eq_some hse)
    have hnode : nodeAt tbl.tree p = some n := (h.nodeAt_eq p).trans hn
    exact ⟨x.1, x.2.ret, by simp [run, hnode, ServiceTable.serviceEntryRemoveTarget, hrem]⟩

theorem reachable_shaped (h : Reachable Safe tbl) : ∃ pos M, Shaped tbl pos M ∧ M.keys.card < 2 ^ 32 := by
  induction h with
  | init => exact ⟨_, _, shaped_init, by decide⟩
  | step op _ hl hsafe hrun ih =>
    obtain ⟨pos, M, hshaped, hcard⟩ := ih
    exact step_shaped hshaped hcard hl hsafe.1 hrun

/-- What the trie of a table looks like, read off the child pointers. The root is its own parent. -/
structure WellShaped (tbl : Table) : Prop where
  node : ∀ p n, nodeAt tbl.tree p = some n → ∃ nd, tbl.tree.heap n = some nd ∧ nd.prefixBits = p.length ∧
    Stored p nd.nodePrefix ∧ nodeAt tbl.tree p.dropLast = some nd.parent
  leaf : ∀ p, p ≠ [] → nodeAt tbl.tree p ≠ none → (∀ b, nodeAt tbl.tree (p ++ [b]) = none) → entryAt tbl p ≠ none
  count : ∃ active : Finset (List Bool), (∀ p, p ∈ active ↔ entryAt tbl p ≠ none) ∧
    tbl.tree.entries.toNat = active.card ∧ tbl.services.toNat = active.card

theorem Shaped.wellShaped (h : Shaped tbl pos M) (hcard : M.keys.card < 2 ^ 32) : WellShaped tbl := by
  have hmem : ∀ p, entryAt tbl p ≠ none ↔ p ∈ M := by
    intro p
    rw [entryAt_eq h.toTableRep, ne_eq, lookup_eq_none, not_not]
  refine ⟨?_, ?_, M.keys, ?_, ?_, services_card h.toTableRep hcard⟩
  · intro p n hn
    rw [h.nodeAt_eq] at hn
    obtain ⟨nd, hnd, hok⟩ := h.node p n hn
    exact ⟨nd, hnd, hok.depth, hok.stored, by rw [h.nodeAt_eq, hok.parent]⟩
  · intro p hp hnode hleaf
    rw [hmem]
    rw [h.nodeAt_eq] at hnode
    refine h.trimmed p hp hnode fun b => ?_
    rw [← h.nodeAt_eq, hleaf b]
  · intro p
    rw [hmem, Finmap.mem_keys]
  · rw [h.entries, UInt32.toNat_ofNat']
    exact Nat.mod_eq_of_lt hcard

/-- Every table that is reached by safe calls has that shape, and the next safe call has an outcome of that shape. -/
theorem reachable_wellShaped (h : Reachable Safe tbl) : WellShaped tbl ∧
    ∀ op, Legal tbl op → Safe tbl op → ∃ tbl' r, run tbl op = some (tbl', r) ∧ WellShaped tbl' := by
  obtain ⟨pos, M, hshaped, hcard⟩ := reachable_shaped h
  refine ⟨hshaped.wellShaped hcard, fun op hl hsafe => ?_⟩
  obtain ⟨tbl', r, hrun⟩ := step_runs hshaped hcard hl hsafe
  obtain ⟨pos', M', hshaped', hcard'⟩ := step_shaped hshaped hcard hl hsafe.1 hrun
  exact ⟨tbl', r, hrun, hshaped'.wellShaped hcard'⟩

namespace Sample

open ServiceAddresses (Ipv4 reachable_addressed)
open ServiceRuns.Sample (srvid resultOf)

def address : Option Buf := some ⟨4096, [10, 0, 0, 1]⟩

def addDefault : Op := .add (some defaultService) 0 .forward 0 0 1 address 4 (.oif 1) 260

def delDefault : Op := .delTarget defaultService 0 .forward address 4

def addDeep : Op := .add (some srvid) 2 .forward 0 0 1 address 4 (.oif 1) 260

def onlyDefault : Table := resultOf serviceTableInit addDefault

def chain : Table := resultOf onlyDefault addDeep

theorem readable_of_ipv4 (h : Reachable Ipv4 tbl) : AllReadable tbl .forward 4 := by
  obtain ⟨pos, M, hrep, -, hM⟩ := reachable_addressed h
  intro p se hse
  rw [entryAt_eq hrep] at hse
  exact (hM p se hse).readable

theorem onlyDefault_ipv4 : Reachable Ipv4 onlyDefault :=
  .step addDefault .init ⟨rfl, by decide⟩ ⟨⟨by decide, nofun⟩, fun _ _ _ _ _ _ _ _ _ hop => by cases hop; rfl⟩ rfl

theorem chain_ipv4 : Reachable Ipv4 chain :=
  .step addDeep onlyDefault_ipv4 ⟨rfl, by decide⟩
    ⟨⟨by decide, nofun⟩, fun _ _ _ _ _ _ _ _ _ hop => by cases hop; rfl⟩ rfl

theorem onlyDefault_reachable : Reachable Safe onlyDefault :=
  .step addDefault .init ⟨rfl, by decide⟩
    ⟨⟨by decide, by unfold Ample; decide⟩, le_rfl, readable_of_ipv4 .init, nofun⟩ rfl

theorem chain_reachable : Reachable Safe chain :=
  .step addDeep onlyDefault_reachable ⟨rfl, by decide⟩
    ⟨⟨by decide, by unfold Ample; decide⟩, le_rfl, readable_of_ipv4 onlyDefault_ipv4, nofun⟩ rfl

end Sample

open Sample in
/-- The default entry goes while a prefix of two bits keeps the root. -/
theorem chain_wellShaped : WellShaped chain ∧ ∃ tbl' r, run chain delDefault = some (tbl', r) ∧ WellShaped tbl' := by
  obtain ⟨hshape, hnext⟩ := reachable_wellShaped chain_reachable
  refine ⟨hshape, hnext delDefault ⟨rfl, by decide⟩ ⟨trivial, le_rfl, readable_of_ipv4 chain_ipv4, ?_⟩⟩
  exact fun _ _ _ => .inr (by decide)

open Sample in
/-- The removal of the only rule goes on from the root that it has freed. -/
theorem default_removal_undefined : Reachable Safe onlyDefault ∧ Legal onlyDefault delDefault ∧
      Roomy onlyDefault delDefault ∧ AllReadable onlyDefault .forward 4 ∧ run onlyDefault delDefault = none :=
  ⟨onlyDefault_reachable, ⟨rfl, by decide⟩, trivial, readable_of_ipv4 onlyDefault_ipv4, rfl⟩

end ServiceShape
