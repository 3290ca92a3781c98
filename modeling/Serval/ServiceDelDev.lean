import Serval.ServiceRuns

/-! # Removing everything that goes through a device

`service_del_dev_all` walks the trie and removes targets and entries on the way. Its
callback releases an entry only when exactly one target was removed from it.
-/
namespace ServiceDelDev

open BstModel BstLayout BstTraversal Option
open ServiceTargets TargetSets ServiceTable ServiceTableSpec ServiceRuns
open ServiceEntryInvariant (EntryOk)

def Active (tbl : Table) (S : Finset (List Bool)) : Prop := ∀ p, p ∈ S ↔ entryAt tbl p ≠ none

def devTargets (tbl : Table) (ifindex : UInt32) (p : List Bool) : ℕ :=
  match entryAt tbl p with
  | none => 0
  | some se => (targets se.targetSet).countP (onDev ifindex)

/-- What becomes of an entry: it goes if all its targets are on the device, and otherwise
keeps the others, with their priorities, flags and weights. -/
def Stripped (ifindex : UInt32) (old new : Option ServiceEntry) : Prop :=
  match old with
  | none => new = none
  | some se =>
    if (targets se.targetSet).all (onDev ifindex) then new = none
    else ∃ se', new = some se' ∧ EntryOk se' ∧
      content se'.targetSet = keepOnly (!onDev ifindex ·) (content se.targetSet)

/-- The call removes exactly the targets on the device and the entries that had no others, returns their number, and
leaves an exact count. -/
def DelDevCorrect (tbl : Table) (ifindex : UInt32) : Prop :=
  ∃ tbl' r S S', serviceTableDelDevAll tbl ifindex = some (tbl', r) ∧ Active tbl S ∧ Active tbl' S' ∧
    (∀ p, Stripped ifindex (entryAt tbl p) (entryAt tbl' p)) ∧
    r = ∑ p ∈ S, (devTargets tbl ifindex p : ℤ) ∧
    (∀ p se, entryAt tbl' p = some se → targets se.targetSet ≠ []) ∧
    tbl'.services.toNat = S'.card

def RootSafe (tbl : Table) (ifindex : UInt32) : Prop :=
  ∀ se, entryAt tbl [] = some se → (targets se.targetSet).all (onDev ifindex) →
    nodeAt tbl.tree [false] ≠ none ∨ nodeAt tbl.tree [true] ≠ none

variable {tbl : Table} {pos : List Bool → Option Ptr} {M : BitMap ServiceEntry}

theorem active_keys (h : TableRep tbl pos M) : Active tbl M.keys := by
  intro p
  rw [entryAt_eq h, Finmap.mem_keys, Finmap.mem_iff, ne_none_iff_exists']

variable {ifindex : UInt32} {se : ServiceEntry}

theorem all_countP {l : List Target} (h : l.all (onDev ifindex)) : l.countP (onDev ifindex) = l.length :=
  List.countP_eq_length.mpr (List.all_eq_true.mp h)

theorem stripped_step (ifindex : UInt32) (hse : EntryOk se)
    (honce : (targets se.targetSet).all (onDev ifindex) → (targets se.targetSet).length = 1) :
    Stripped ifindex (some se) ((removeByDev ifindex se).bind fun rem => (outcome rem).1) := by
  obtain ⟨rem, hrem, hok, hret, hcont, hgone⟩ := removeByDev_ok ifindex hse
  rw [Stripped, hrem, bind_some]
  split
  · rename_i hall
    have hg : rem.gone = true :=
      hgone.mpr ⟨by rw [hret, all_countP hall, honce hall], (dev_empty_iff hok hcont).mpr hall⟩
    simp [outcome, hg]
  · rename_i hall
    have hg : rem.gone = false := by
      rw [← Bool.not_eq_true]
      exact fun hg => hall ((dev_empty_iff hok hcont).mp (hgone.mp hg).2)
    exact ⟨rem.entry, by simp [outcome, hg], hok, hcont⟩

theorem stuck_dev_iff (hok : MapOk M) (ifindex : UInt32) {q : List Bool} (hl : M.lookup q = some se) :
    Stuck (fun se => (removeByDev ifindex se).map outcome) pos q se ↔ q = [] ∧ pos [false] = none ∧ pos [true] = none ∧
        (targets se.targetSet).all (onDev ifindex) ∧ (targets se.targetSet).length = 1 := by
  obtain ⟨rem, hrem, hok', hret, hcont, hgone⟩ := removeByDev_ok ifindex (hok.entry q se hl)
  have hiff : (∃ c, (removeByDev ifindex se).map outcome = some (none, c)) ↔
      (targets se.targetSet).all (onDev ifindex) ∧ (targets se.targetSet).length = 1 := by
    rw [hrem, map_some]
    constructor
    · rintro ⟨c, hc⟩
      have hg : rem.gone = true := by
        by_contra hg
        simp [outcome, hg] at hc
      obtain ⟨hone, hempty⟩ := hgone.mp hg
      have hall := (dev_empty_iff hok' hcont).mp hempty
      exact ⟨hall, by rw [← all_countP hall, ← hret, hone]⟩
    · rintro ⟨hall, hone⟩
      have hg : rem.gone = true :=
        hgone.mpr ⟨by rw [hret, all_countP hall, hone], (dev_empty_iff hok' hcont).mpr hall⟩
      exact ⟨rem.ret, by simp [outcome, hg]⟩
  rw [Stuck, hiff]
  simp [hrem]

/-- An entry whose targets are all on the device leaves the table only if it has one. -/
theorem once_of_gone (ifindex : UInt32) (hse : EntryOk se) (hall : (targets se.targetSet).all (onDev ifindex))
    (hgone : ((removeByDev ifindex se).bind fun rem => (outcome rem).1) = none) :
    (targets se.targetSet).length = 1 := by
  obtain ⟨rem, hrem, -, hret, -, hiff⟩ := removeByDev_ok ifindex hse
  rw [hrem, bind_some] at hgone
  have hg : rem.gone = true := by
    by_contra hg
    simp [outcome, hg] at hgone
  rw [← all_countP hall, ← hret, (hiff.mp hg).1]

theorem conditions_of_correct (hrep : TableRep tbl pos M) (hok : MapOk M)
    (h : DelDevCorrect tbl ifindex) : DevOnce tbl ifindex ∧ RootSafe tbl ifindex := by
  obtain ⟨tbl', r, S, S', hrun, -, -, hstrip, -, -, -⟩ := h
  have honce : DevOnce tbl ifindex := by
    intro p se hse hall
    obtain ⟨pos', M', hrep', -, hM'⟩ := swept_of_run hrep hrun
    have hgone := hstrip p
    rw [hse, Stripped, if_pos hall, entryAt_eq hrep', hM'] at hgone
    rw [entryAt_eq hrep] at hse
    rw [hse, bind_some] at hgone
    exact once_of_gone ifindex (hok.entry p se hse) hall hgone
  refine ⟨honce, ?_⟩
  intro se hse hall
  by_contra hchild
  rw [not_or, not_not, not_not, hrep.nodeAt_eq, hrep.nodeAt_eq] at hchild
  have hone := honce [] se hse hall
  rw [entryAt_eq hrep] at hse
  have hnone := (for_all_of (removeFrom_callback (removeByDev ifindex)) hrep).1
    ⟨[], se, hse, (stuck_dev_iff hok ifindex hse).mpr ⟨rfl, hchild.1, hchild.2, hall, hone⟩⟩
  cases hnone.symm.trans hrun

theorem cost_dev (hrep : TableRep tbl pos M) (hok : MapOk M) (ifindex : UInt32) (p : List Bool) :
    cost (fun se => (removeByDev ifindex se).map outcome) (M.lookup p) = devTargets tbl ifindex p := by
  rw [devTargets, entryAt_eq hrep]
  cases hl : M.lookup p with
  | none => rfl
  | some se =>
    obtain ⟨rem, hrem, -, hret, -⟩ := removeByDev_ok ifindex (hok.entry p se hl)
    simp [cost, hrem, outcome, hret]

theorem full_of_devOnce (hrep : TableRep tbl pos M) (honce : DevOnce tbl ifindex) : Full M := by
  intro p se hl hempty
  have hone := honce p se (by rw [entryAt_eq hrep, hl]) (by simp [hempty])
  simp [hempty] at hone

theorem correct_of_conditions (hrep : TableRep tbl pos M) (hok : MapOk M)
    (honce : DevOnce tbl ifindex) (hroot : RootSafe tbl ifindex) : DelDevCorrect tbl ifindex := by
  have hfree : ∀ q v, M.lookup q = some v → ¬ Stuck (fun se => (removeByDev ifindex se).map outcome) pos q v := by
    intro q se hl hs
    obtain ⟨rfl, h0, h1, hall, -⟩ := (stuck_dev_iff hok ifindex hl).mp hs
    have hchild := hroot se (by rw [entryAt_eq hrep, hl]) hall
    simp [hrep.nodeAt_eq, h0, h1] at hchild
  obtain ⟨tbl', pos', M', hrun, hrep', -⟩ := (for_all_of (removeFrom_callback (removeByDev ifindex)) hrep).2 hfree
  obtain ⟨pos₂, M₂, hrep₂, hswept⟩ := swept_of_run hrep hrun
  have htidy : Tidy tbl (.delDevAll ifindex) := ⟨trivial, fun i hi => by cases hi; exact honce⟩
  have hout : Outcome M (.delDevAll ifindex) M₂ 0 := hswept
  have hok₂ : MapOk M₂ := step_mapOk hrep hok htidy.1 hout
  have hfull₂ : Full M₂ := step_full hrep hok (full_of_devOnce hrep honce) htidy hout
  refine ⟨tbl', _, M.keys, M₂.keys, hrun, active_keys hrep, active_keys hrep₂, ?_, ?_, ?_, ?_⟩
  · intro p
    rw [entryAt_eq hrep, entryAt_eq hrep₂, hswept.2]
    cases hl : M.lookup p with
    | none => rfl
    | some se =>
      exact stripped_step ifindex (hok.entry p se hl) (honce p se (by rw [entryAt_eq hrep, hl]))
  · exact Finset.sum_congr rfl fun p _ => by rw [cost_dev hrep hok]
  · intro p se hse
    rw [entryAt_eq hrep₂] at hse
    exact targets_ne_nil (hok₂.entry p se hse) (hfull₂ p se hse)
  · exact services_eq hrep₂ hok₂

/-- In every run of careful calls, for every device: the call is correct exactly if no entry
loses several targets and all of them, and the root is not released without a child. -/
theorem del_dev_all_correct_iff (h : Reachable Careful tbl) (ifindex : UInt32) :
    DelDevCorrect tbl ifindex ↔ DevOnce tbl ifindex ∧ RootSafe tbl ifindex := by
  obtain ⟨pos, M, hrep, hok⟩ := reachable_mapOk h
  constructor
  · exact conditions_of_correct hrep hok
  · exact fun hcond => correct_of_conditions hrep hok hcond.1 hcond.2

namespace Counterexample

open ServiceRuns.Sample

def swept : Table := resultOf twoRules (.delDevAll 1)

theorem swept_run : serviceTableDelDevAll twoRules 1 = some (swept, 2) := rfl

theorem swept_entry : entryAt swept [true] = some ⟨[], 0⟩ := rfl

end Counterexample

open Counterexample ServiceRuns.Sample in
/-- Two rules for one prefix through one device: the call removes both and leaves the entry
in the table, active and empty. -/
theorem del_dev_leaves_empty_entry :
    ¬ ∀ tbl, Reachable (fun _ _ => True) tbl → ∀ ifindex, DelDevCorrect tbl ifindex := by
  intro hall
  obtain ⟨tbl', r, S, S', hrun, -, -, -, -, hfull, -⟩ := hall twoRules twoRules_reachable 1
  rw [swept_run] at hrun
  cases hrun
  exact hfull [true] _ swept_entry rfl

open ServiceRuns.Sample in
theorem del_dev_all_correct_iff_rule : DelDevCorrect oneRule 1 ↔ DevOnce oneRule 1 ∧ RootSafe oneRule 1 :=
  del_dev_all_correct_iff
    (.step (addRule 1) .init ⟨rfl, by decide⟩ ⟨by decide, fun se hse => by cases hse⟩ oneRule_run) 1

end ServiceDelDev
