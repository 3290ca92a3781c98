import Serval.ServiceEntryInvariant

/-! # Modifying a target

`__service_entry_modify_target` overwrites the destination of the target it has found before it knows whether there is
memory for the set that the target is to move to.
-/
namespace ServiceModify

open ServiceTargets TargetSets ServiceEntryInvariant List

/-! ## The set of a priority -/

section Lookup

variable {l r sets : List TargetSet} {q set : TargetSet} {p priority : UInt32} {f : Found}

theorem getTargetSet_append (hl : ∀ s ∈ l, s.priority ≠ q.priority) :
    serviceEntryGetTargetSet (l ++ q :: r) q.priority = some q := by
  rw [serviceEntryGetTargetSet, find?_append, find?_eq_none.mpr (by simpa using hl)]
  simp

theorem getTargetSet_skip (h : q.priority ≠ p) :
    serviceEntryGetTargetSet (l ++ q :: r) p = serviceEntryGetTargetSet (l ++ r) p := by
  simp [serviceEntryGetTargetSet, find?_append, h]

variable {g : TargetSet → TargetSet}

theorem getTargetSet_update (hg : ∀ s, (g s).priority = s.priority) (p : UInt32) :
    serviceEntryGetTargetSet (updateSet priority g sets) p =
      if p = priority then (serviceEntryGetTargetSet sets p).map g else serviceEntryGetTargetSet sets p := by
  induction sets with
  | nil => simp [updateSet, serviceEntryGetTargetSet]
  | cons s rest ih =>
    simp only [serviceEntryGetTargetSet] at ih ⊢
    rw [updateSet]
    by_cases hs : s.priority = priority
    · by_cases hp : p = priority
      · simp [hs, hp, hg]
      · simp [hs, hp, hg, Ne.symm hp]
    · by_cases hsp : s.priority = p
      · subst hsp
        simp [hs]
      · simp [hs, hsp, ih]

theorem getTargetSet_insert (hnone : serviceEntryGetTargetSet sets set.priority = none) :
    serviceEntryGetTargetSet (serviceEntryInsertTargetSet set sets) set.priority = some set ∧ ∀ p, p ≠ set.priority →
        serviceEntryGetTargetSet (serviceEntryInsertTargetSet set sets) p = serviceEntryGetTargetSet sets p := by
  obtain ⟨l, r, rfl, hins⟩ := insert_split set sets
  rw [hins]
  refine ⟨getTargetSet_append ?_, fun p hp => getTargetSet_skip hp.symm⟩
  intro s hs
  exact getTargetSet_none.mp hnone s (mem_append_left _ hs)

theorem getTargetSet_drop (hsorted : (sets.map (·.priority)).Pairwise (· > ·)) (hf : Lies f sets) :
    serviceEntryGetTargetSet (dropTarget f) f.set.priority =
        (if (targetSetRemoveTarget f).count = 0 then none else some (targetSetRemoveTarget f)) ∧
      ∀ p, p ≠ f.set.priority → serviceEntryGetTargetSet (dropTarget f) p = serviceEntryGetTargetSet sets p := by
  obtain ⟨rfl, -⟩ := hf
  have hne := sorted_ne hsorted
  rw [dropTarget]
  by_cases hempty : (targetSetRemoveTarget f).count = 0
  · simp only [hempty, ↓reduceIte]
    exact ⟨getTargetSet_none.mpr hne, fun p hp => (getTargetSet_skip hp.symm).symm⟩
  · simp only [hempty, ↓reduceIte]
    refine ⟨@getTargetSet_append _ _ (targetSetRemoveTarget f) fun s hs => hne s (by simp [hs]), fun p hp => ?_⟩
    have hskip : (targetSetRemoveTarget f).priority ≠ p := hp.symm
    rw [getTargetSet_skip hskip, getTargetSet_skip hp.symm]

theorem getTargetSet_withSet (flags : UInt16) (priority : UInt32) (sets : List TargetSet) :
    (∃ q, serviceEntryGetTargetSet (withSet flags priority sets) priority = some q ∧
      q.list = ((serviceEntryGetTargetSet sets priority).map (·.list)).getD []) ∧
      ∀ p, p ≠ priority →
        serviceEntryGetTargetSet (withSet flags priority sets) p = serviceEntryGetTargetSet sets p := by
  rw [withSet]
  cases hset : serviceEntryGetTargetSet sets priority with
  | some q => exact ⟨⟨q, hset, rfl⟩, fun p _ => rfl⟩
  | none =>
    obtain ⟨hnew, hothers⟩ := @getTargetSet_insert sets (targetSetCreate flags priority) hset
    exact ⟨⟨_, hnew, rfl⟩, hothers⟩

theorem sorted_updateSet (hg : ∀ s, (g s).priority = s.priority) :
    (updateSet priority g sets).map (·.priority) = sets.map (·.priority) := by
  induction sets with
  | nil => rfl
  | cons s rest ih =>
    rw [updateSet]
    split
    · simp [hg]
    · simp [ih]

end Lookup

def targetsAt (se : ServiceEntry) (priority : UInt32) : List Target :=
  ((serviceEntryGetTargetSet se.targetSet priority).map (·.list)).getD []

/-- Target `f` of the first entry has become `t` in the second one, and nothing else has changed but the flags of the
set that it is in. -/
structure Changed (se se' : ServiceEntry) (flags : UInt16) (priority weight : UInt32) (f : Found) (t : Target) :
    Prop where
  same : t = { f.target with dst := t.dst, weight := weight }
  stays : f.set.priority = priority → targetsAt se' priority = f.ahead ++ t :: f.behind
  moves : f.set.priority ≠ priority → targetsAt se' f.set.priority = f.ahead ++ f.behind ∧
    targetsAt se' priority = targetsAt se priority ++ [t]
  others : ∀ p, p ≠ f.set.priority → p ≠ priority →
    serviceEntryGetTargetSet se'.targetSet p = serviceEntryGetTargetSet se.targetSet p
  flagged : (serviceEntryGetTargetSet se'.targetSet priority).map (·.flags) = some flags
  sorted : (se'.targetSet.map (·.priority)).Pairwise (· > ·)
  filled : ∀ set ∈ se'.targetSet, set.list ≠ []
  count : se'.count = se.count

section Changes

variable {se : ServiceEntry} {flags : UInt16} {priority weight : UInt32} {f f' : Found} {t : Target}

theorem targetsAt_of_some {set : TargetSet} (h : serviceEntryGetTargetSet se.targetSet priority = some set) :
    targetsAt se priority = set.list := by
  rw [targetsAt, h]
  rfl

theorem changed_putBack (hsets : SetsOk none se.targetSet) (hf : Lies f se.targetSet) (hp : f.set.priority = priority)
    (ht : t = { f.target with dst := t.dst, weight := weight }) (normalizer : TargetSet → UInt32) :
    Changed se { se with targetSet := putBack f t fun set => { set with normalizer := normalizer set, flags := flags } }
      flags priority weight f t := by
  have hsplit := hf.sets_eq
  have hne := sorted_ne (hsplit ▸ hsets.sorted)
  -- the set with the new target has the priority of the old one
  let q : TargetSet :=
    { f.set with normalizer := normalizer f.set, flags := flags, list := f.ahead ++ t :: f.behind }
  have hbefore : ∀ s ∈ f.before, s.priority ≠ q.priority := fun s hs => hne s (mem_append_left _ hs)
  have hthere : serviceEntryGetTargetSet (f.before ++ q :: f.after) priority = some q :=
    hp ▸ getTargetSet_append hbefore
  refine ⟨ht, ?_, ?_, ?_, ?_, ?_, ?_, rfl⟩
  · intro _
    exact @targetsAt_of_some ⟨f.before ++ q :: f.after, se.count⟩ priority q hthere
  · intro hmoved
    exact absurd hp hmoved
  · intro p hpp _
    show serviceEntryGetTargetSet (f.before ++ q :: f.after) p = _
    have hq : q.priority ≠ p := hpp.symm
    rw [hsplit, getTargetSet_skip hq, getTargetSet_skip hpp.symm]
  · show (serviceEntryGetTargetSet (f.before ++ q :: f.after) priority).map _ = _
    rw [hthere]
    rfl
  · simpa [putBack, hsplit] using hsets.sorted
  · intro s hs
    rw [putBack, mem_append, mem_cons] at hs
    rcases hs with hs | rfl | hs
    · exact hsets.filled s (hsplit ▸ mem_append_left _ hs) (by simp)
    · simp
    · exact hsets.filled s (hsplit ▸ mem_append_right _ (mem_cons_of_mem _ hs)) (by simp)

theorem changed_moveTarget (hsets : SetsOk none se.targetSet) (hp : f.set.priority ≠ priority)
    (hlies : Lies f' (withSet flags priority se.targetSet)) (hsame : SamePlace f f')
    (ht : t = { f.target with dst := t.dst, weight := weight }) :
    Changed se { se with targetSet := moveTarget f' t flags priority } flags priority weight f t := by
  have hwith := withSet_setsOk hsets flags priority
  obtain ⟨⟨q, hq, hlist⟩, hothers⟩ := getTargetSet_withSet flags priority se.targetSet
  obtain ⟨hleft, hkept⟩ := getTargetSet_drop hwith.sorted hlies
  obtain ⟨hdrop, -⟩ := drop_ok hwith hlies
  have hcounted : Counted (targetSetRemoveTarget f') :=
    counted_remove (hwith.counted f'.set (by simp [hlies.sets_eq])) hlies.list_eq
  rw [hsame.set] at hleft hkept
  have hupdate := fun p => @getTargetSet_update (dropTarget f') priority
    (fun nset => { targetSetAddTarget nset t with flags := flags }) (fun _ => rfl) p
  have hnew : serviceEntryGetTargetSet (moveTarget f' t flags priority) priority =
      some { targetSetAddTarget q t with flags := flags } := by
    rw [moveTarget, hupdate, if_pos rfl, hkept priority hp.symm, hq]
    rfl
  refine ⟨ht, ?_, ?_, ?_, ?_, ?_, ?_, rfl⟩
  · intro hstays
    exact absurd hstays hp
  · intro _
    constructor
    · rw [targetsAt, moveTarget, hupdate, if_neg hp, hleft]
      by_cases hempty : (targetSetRemoveTarget f').count = 0
      · have hnil : f'.ahead ++ f'.behind = [] := (counted_empty_iff hcounted).mp hempty
        rw [if_pos hempty, ← hsame.ahead, ← hsame.behind, hnil]
        rfl
      · rw [if_neg hempty, ← hsame.ahead, ← hsame.behind]
        rfl
    · rw [targetsAt, hnew, targetsAt, ← hlist]
      rfl
  · intro p hold hpp
    rw [moveTarget, hupdate, if_neg hpp, hkept p hold, hothers p hpp]
  · rw [hnew]
    rfl
  · have hpriorities := @sorted_updateSet (dropTarget f') priority
      (fun nset => { targetSetAddTarget nset t with flags := flags }) fun _ => rfl
    rw [moveTarget, hpriorities]
    exact hdrop.sorted
  · have hex : ∃ set ∈ dropTarget f', set.priority = priority := by
      have hfind := hkept priority hp.symm
      rw [hq] at hfind
      exact ⟨q, getTargetSet_some hfind⟩
    obtain ⟨l, nset, r, hsplit, hnset, hmoved⟩ := updateSet_split
      (fun nset => { targetSetAddTarget nset t with flags := flags }) hex
    have hne := sorted_ne (hsplit ▸ hdrop.sorted)
    intro s hs
    rw [moveTarget, hmoved, mem_append, mem_cons] at hs
    have hfilled : s ∈ l ++ r → s.list ≠ [] := by
      intro hmem
      apply hdrop.filled s
      · rw [hsplit, mem_append, mem_cons]
        rw [mem_append] at hmem
        tauto
      · have hother := hne s hmem
        rw [hnset] at hother
        simpa using hother
    rcases hs with hs | rfl | hs
    · exact hfilled (mem_append_left _ hs)
    · simp [targetSetAddTarget]
    · exact hfilled (mem_append_right _ hs)

end Changes

/-! ## The call -/

theorem putBack_same {f : Found} {sets : List TargetSet} (hf : Lies f sets) : putBack f f.target id = sets := by
  rw [hf.sets_eq, putBack, id, ← hf.list_eq]

theorem copyDst_dst {t t' : Target} {newDst : Option Buf} {newDstlen : ℕ} (h : copyDst t newDst newDstlen = some t') :
    (∀ d, newDst = some d → newDstlen = t.dst.length → t'.dst = d.bytes.take newDstlen) ∧
      ((newDst = none ∨ newDstlen ≠ t.dst.length) → t'.dst = t.dst) := by
  rcases copyDst_cases h with ⟨rfl, rfl | hlen⟩ | ⟨d, rfl, hlen, -, rfl⟩
  · simp
  · exact ⟨fun _ _ heq => absurd heq hlen, fun _ => rfl⟩
  · simp [hlen]

theorem putBack_eq_same {f : Found} {t : Target} {sets : List TargetSet} (hf : Lies f sets) (h :
    putBack f t id = sets) :
    t = f.target := by
  rw [← putBack_same hf, putBack, putBack] at h
  have hset := (cons.inj (append_cancel_left h)).1
  exact (cons.inj (append_cancel_left (TargetSet.mk.inj hset).1)).1

/-- The call does nothing, a set can be had for the new priority, or the target that is found keeps its destination. -/
def Undisturbed (se : ServiceEntry) (type : RuleType) (priority : UInt32) (dst : Option Buf) (dstlen : ℕ)
    (newDst : Option Buf) (newDstlen : ℕ) (routed : Bool) (mem : ℕ) : Prop :=
  (type = .demux ∨ dstlen = 0 ∨ routed = false) ∨ mem ≠ 0 ∨ (∃ set ∈ se.targetSet, set.priority = priority) ∨
    ∀ f, serviceEntryGetTarget se type dst dstlen matchNoProtocol = some (some f) →
      copyDst f.target newDst newDstlen = some f.target

section Call

variable {se se' : ServiceEntry} {type : RuleType} {flags : UInt16} {priority weight : UInt32} {dst newDst : Option Buf}
  {dstlen newDstlen : ℕ} {routed : Bool} {mem : ℕ} {r : ℤ}

theorem disturbed_changes
    (h : serviceEntryModifyTarget se type flags priority weight dst dstlen newDst newDstlen routed mem = some (se', r))
    (hnot : ¬Undisturbed se type priority dst dstlen newDst newDstlen routed mem) : r ≤ 0 ∧ se' ≠ se := by
  simp only [Undisturbed, not_or, not_exists, not_and, not_forall, ne_eq, not_not, Bool.not_eq_false] at hnot
  obtain ⟨⟨htype, hlen, rfl⟩, rfl, hset, f, hfound, hcopy⟩ := hnot
  have hlies := (findTarget_some hfound).1
  have hp : f.set.priority ≠ priority := hset f.set (by simp [hlies.sets_eq])
  have hnone : serviceEntryGetTargetSet se.targetSet priority = none := getTargetSet_none.mpr hset
  rw [serviceEntryModifyTarget, if_neg (not_or.mpr ⟨htype, hlen⟩)] at h
  simp only [hfound, hnone, Option.bind_eq_bind, Option.bind_some, if_true] at h
  obtain ⟨t, ht, h⟩ := Option.bind_eq_some_iff.mp h
  rw [if_pos hp] at h
  cases h
  refine ⟨by decide, fun hsame => hcopy ?_⟩
  rw [ht, putBack_eq_same hlies (congrArg ServiceEntry.targetSet hsame)]

/-- A call that fails leaves the entry as it was, and a call that succeeds changes the target that it has found and no
other one: exactly where a failure comes too early to disturb the target. -/
theorem modify_atomic (hok : EntryOk se)
    (h : serviceEntryModifyTarget se type flags priority weight dst dstlen newDst newDstlen routed mem =
      some (se', r)) :
    ((r ≤ 0 ∨ r = 1) ∧ (r ≤ 0 → se' = se) ∧
      (r = 1 → ∃ f t, serviceEntryGetTarget se type dst dstlen matchNoProtocol = some (some f) ∧
        Lies f se.targetSet ∧ Changed se se' flags priority weight f t ∧
        (∀ d, newDst = some d → newDstlen = f.target.dst.length → t.dst = d.bytes.take newDstlen) ∧
        ((newDst = none ∨ newDstlen ≠ f.target.dst.length) → t.dst = f.target.dst))) ↔
      Undisturbed se type priority dst dstlen newDst newDstlen routed mem := by
  constructor
  · rintro ⟨-, hfail, -⟩
    by_contra hnot
    obtain ⟨hr, hne⟩ := disturbed_changes h hnot
    exact hne (hfail hr)
  intro hundisturbed
  have hsets := (entryOk_iff.mp hok).1
  rcases modify_cases h with ⟨rfl, hr⟩ | ⟨f, t, hfound, ht, hdone, hcase⟩
  · exact ⟨.inl hr, fun _ => rfl, fun h1 => absurd hr (by omega)⟩
  · have hlies := (findTarget_some hfound).1
    have hsame : { t with weight := weight } = { f.target with dst := t.dst, weight := weight } := by
      rw [copyDst_some ht]
    obtain ⟨hnew, hold⟩ := copyDst_dst ht
    rcases hcase with ⟨rfl, hmem, hnone, rfl⟩ | ⟨rfl, hp, rfl⟩ | ⟨rfl, hp, f', hlies', hplace, rfl⟩
    · have hkeeps : t = f.target := by
        rcases hundisturbed with hidle | hmem' | ⟨set, hset, hp⟩ | hkeeps
        · exact absurd hidle hdone
        · exact absurd hmem hmem'
        · exact absurd hp (getTargetSet_none.mp hnone set hset)
        · exact Option.some.inj (ht.symm.trans (hkeeps f hfound))
      rw [hkeeps, putBack_same hlies]
      exact ⟨.inl (by decide), fun _ => rfl, fun h1 => absurd h1 (by decide)⟩
    · refine ⟨.inr rfl, fun hle => absurd hle (by decide), fun _ =>
        ⟨f, { t with weight := weight }, hfound, hlies, ?_, hnew, hold⟩⟩
      exact changed_putBack hsets hlies hp hsame fun set => set.normalizer - t.weight + weight
    · refine ⟨.inr rfl, fun hle => absurd hle (by decide), fun _ =>
        ⟨f, { t with weight := weight }, hfound, hlies, ?_, hnew, hold⟩⟩
      exact changed_moveTarget hsets hp hlies' hplace hsame

end Call

namespace Sample

def hostA : Buf := ⟨256, [10, 0, 0, 1]⟩
def hostB : Buf := ⟨512, [10, 0, 0, 2]⟩

def entry : ServiceEntry := ⟨[⟨[⟨.forward, 1, {}, .oif 1, [10, 0, 0, 1]⟩], 1, 1, 0, 1⟩], 1⟩

theorem entry_ok : EntryOk entry where
  sorted := by decide
  filled := by decide
  setCount := by decide
  normalizer := by decide
  count := by decide

end Sample

open Sample in
/-- The rule moves to priority 2 and to the second host, with memory for the new set. -/
theorem modify_atomic_moved :
    ∃ se', serviceEntryModifyTarget entry .forward 0 2 5 (some hostA) 4 (some hostB) 4 true 1 = some (se', 1) ∧
      ∃ f t, Changed entry se' 0 2 5 f t := by
  refine ⟨_, rfl, ?_⟩
  obtain ⟨-, -, hone⟩ := (modify_atomic entry_ok (rfl : serviceEntryModifyTarget entry .forward 0 2 5 (some hostA) 4
    (some hostB) 4 true 1 = some (_, 1))).mpr (.inr (.inl (by decide)))
  obtain ⟨f, t, -, -, hchanged, -⟩ := hone rfl
  exact ⟨f, t, hchanged⟩

open Sample in
/-- Without memory for the set of priority 2 the call fails, and the rule leads to the second host. -/
theorem modify_failed_rewrites :
    ∃ se', serviceEntryModifyTarget entry .forward 0 2 5 (some hostA) 4 (some hostB) 4 true 0 = some (se', -ENOMEM) ∧
      targetsAt entry 1 = [⟨.forward, 1, {}, .oif 1, [10, 0, 0, 1]⟩] ∧
      targetsAt se' 1 = [⟨.forward, 1, {}, .oif 1, [10, 0, 0, 2]⟩] :=
  ⟨_, rfl, rfl, rfl⟩

end ServiceModify
