import Serval.ServiceRuns

/-! # What the iterator returns

The lookups of an entry scan all of its sets. The iterator stops at the end of the first set,
so it agrees with them only as far as the other sets hold nothing of the kind.
-/
namespace ServiceIterCoverage

open ServiceTargets TargetSets ServiceIterator ServiceTable ServiceRuns List

def wanted (se : ServiceEntry) (mode : IterMode) : List Target :=
  (targets se.targetSet).filter mode.lets

/-- No set but the first has a target of the kind, and neither has an entry that counts none. -/
structure Confined (se : ServiceEntry) (mode : IterMode) : Prop where
  first : ∀ t ∈ targets se.targetSet.tail, mode.lets t = false
  counted : se.count = 0 → ∀ t ∈ targets se.targetSet, mode.lets t = false

def accepted (se : ServiceEntry) : IterMode → Option Bool
  | .demux => serviceEntryLocalMatch se
  | .forward => serviceEntryGlobalMatch se
  | _ => some false

theorem first_append (se : ServiceEntry) (h : se.count ≠ 0) :
    firstTargets se ++ targets se.targetSet.tail = targets se.targetSet := by
  rw [firstTargets]
  cases se.targetSet with
  | nil => rfl
  | cons set rest => simp [h]

variable {se : ServiceEntry}

theorem first_of_count_zero (h : se.count = 0) : firstTargets se = [] := by
  rw [firstTargets]
  cases se.targetSet with
  | nil => rfl
  | cons set rest => simp [h]

theorem tail_targets {t : Target} (h : t ∈ targets se.targetSet.tail) :
    t ∈ targets se.targetSet := by
  cases hs : se.targetSet with
  | nil => simp [hs] at h
  | cons set rest =>
    rw [targets_cons]
    exact mem_append_right _ (by simpa [hs] using h)

theorem covers_iff (se : ServiceEntry) (mode : IterMode) :
    (firstTargets se).filter mode.lets = wanted se mode ↔ Confined se mode := by
  have hnil : ∀ l : List Target, l.filter mode.lets = [] ↔ ∀ t ∈ l, mode.lets t = false := by
    simp [filter_eq_nil_iff]
  by_cases hc : se.count = 0
  · rw [first_of_count_zero hc, filter_nil, eq_comm, wanted, hnil]
    constructor
    · intro h
      exact ⟨fun t ht => h t (tail_targets ht), fun _ => h⟩
    · intro h
      exact h.counted hc
  · rw [wanted, ← first_append se hc, filter_append, self_eq_append_right, hnil]
    constructor
    · intro h
      exact ⟨h, fun h0 => absurd h0 hc⟩
    · intro h
      exact h.first

theorem wanted_of_accepted {mode : IterMode} (h : accepted se mode = some true) :
    wanted se mode ≠ [] := by
  have hfind : ∀ {type : RuleType} {protocol : ℤ} {f : Found}, (∀ t, mode.lets t = (t.type == type)) →
      serviceEntryGetTarget se type none 0 protocol = some (some f) → wanted se mode ≠ [] := by
    intro type protocol f hmode hf
    obtain ⟨⟨hsets, hlist⟩, hsel, -⟩ := findTarget_some hf
    have htype : f.target.type = type := by
      by_contra hne
      simp [selects, isTarget, hne] at hsel
    apply ne_nil_of_mem (a := f.target)
    simp [wanted, hmode, htype, hsets, hlist]
  cases mode with
  | all | anycast => cases h
  | demux | forward =>
    obtain ⟨found, hfound, h⟩ := Option.bind_eq_some_iff.mp h
    cases found with
    | none => cases h
    | some f => exact hfind (fun _ => rfl) hfound

/-- For every entry and every mode that filters: the calls return NULL in the end, and before
it exactly the targets of the kind in all sets, in order, if and only if the first set has them
all; then an accepted entry has one. The sets of a reachable entry have decreasing priorities. -/
theorem iterator_covers_iff (se : ServiceEntry) {mode : IterMode} (hmode : mode ≠ .anycast) (random : ℕ) :
    ∃ L, iterTargets (iterFuel se) (serviceIterInit se mode random).1 = some L ∧
      (L = wanted se mode ↔ Confined se mode) ∧
      (Confined se mode → accepted se mode = some true → L ≠ []) ∧
      ∀ tbl p, Reachable Careful tbl → entryAt tbl p = some se → (se.targetSet.map (·.priority)).Pairwise (· > ·) := by
  refine ⟨_, iterTargets_init se hmode random, covers_iff se mode, ?_, ?_⟩
  · intro hconf hacc
    rw [(covers_iff se mode).mpr hconf]
    exact wanted_of_accepted hacc
  · intro tbl p hreach hse
    obtain ⟨pos, M, hrep, hok⟩ := reachable_mapOk hreach
    rw [entryAt_eq hrep] at hse
    exact (hok.entry p se hse).sorted

namespace Counterexample

open ServiceRuns.Sample

theorem listener_nonnull : 64 ≠ 0 := by decide

def listener : Sock := ⟨64, 17, listener_nonnull⟩

def addListener : Op := .add (some srvid) 1 .demux 0 1 1 none 0 (.sk (some listener)) 8

def mixed : Table := resultOf oneRule addListener

theorem mixed_run : run oneRule addListener = some (mixed, 1) := rfl

def mixedEntry : ServiceEntry :=
  ⟨[⟨[⟨.demux, 1, {}, .sk (some listener), []⟩], 1, 1, 0, 1⟩,
    ⟨[⟨.forward, 1, {}, .oif 1, [10, 0, 0, 1]⟩], 1, 0, 0, 1⟩], 2⟩

theorem mixed_entry : entryAt mixed [true] = some mixedEntry := rfl

end Counterexample

open Counterexample ServiceRuns.Sample in
/-- A socket and a forwarding rule of lower priority: the entry is accepted by the lookup for
forwarding rules, and the iterator over them returns NULL at once. -/
theorem iterator_misses_second_set :
    ∃ tbl p se, Reachable (fun _ _ => True) tbl ∧ entryAt tbl p = some se ∧ serviceEntryGlobalMatch se = some true ∧
      (wanted se .forward).length = 1 ∧
      iterTargets (iterFuel se) (serviceIterInit se .forward 0).1 = some [] := by
  exact ⟨mixed, [true], mixedEntry, .step addListener oneRule_reachable ⟨rfl, by decide⟩ trivial mixed_run,
    mixed_entry, rfl, rfl, rfl⟩

open Counterexample in
theorem iterator_covers_iff_listener :
    ∃ L, iterTargets (iterFuel mixedEntry) (serviceIterInit mixedEntry .demux 0).1 = some L ∧
      (L = wanted mixedEntry .demux ↔ Confined mixedEntry .demux) := by
  obtain ⟨L, hL, hiff, -⟩ := iterator_covers_iff mixedEntry (show IterMode.demux ≠ .anycast by decide) 0
  exact ⟨L, hL, hiff⟩

end ServiceIterCoverage
