import Serval.TargetSets

/-! # The invariant of a service entry

The counters are a 16-bit count and a 32-bit normalizer for each set and a 32-bit count for the entry; a set is
freed when the 16-bit count says that it is empty.
-/
namespace ServiceEntryInvariant

open ServiceTargets TargetSets List Option

def withSet (flags : UInt16) (priority : UInt32) (sets : List TargetSet) : List TargetSet :=
  match serviceEntryGetTargetSet sets priority with
  | some _ => sets
  | none => serviceEntryInsertTargetSet (targetSetCreate flags priority) sets

variable {se se' : ServiceEntry} {type : RuleType} {flags : UInt16} {priority weight : UInt32}
  {dst newDst : Option Buf} {dstlen newDstlen : ℕ} {sets : List TargetSet} {out : TargetOut} {routed : Bool} {mem : ℕ}
  {t t' : Target}

/-- All that an add can do: refuse and change nothing, or create one target and put it in
the set of its priority. -/
theorem add_cases {m : ℕ} {r : ℤ}
    (h : serviceEntryAddTarget se type flags priority weight dst dstlen out mem = some (se', r, m)) :
    (se' = se ∧ r ≠ 1) ∨
    (r = 1 ∧ ∃ protocol t, (∀ x ∈ targets se.targetSet, selects type dst dstlen protocol x = some false) ∧
      targetProtocol dstlen out = some protocol ∧
      targetCreate type dst dstlen out weight mem = some (some t) ∧
      se' = ⟨updateSet priority (targetSetAddTarget · t) (withSet flags priority se.targetSet), se.count + 1⟩) := by
  simp only [serviceEntryAddTarget, serviceEntryGetTarget, bind_eq_bind, bind_eq_some_iff] at h
  obtain ⟨protocol, hp, found, hfound, h⟩ := h
  cases found with
  | some f =>
    cases h
    exact .inl ⟨rfl, by split <;> decide⟩
  | none =>
    obtain ⟨made, hmade, h⟩ := bind_eq_some_iff.mp h
    cases made with
    | none =>
      cases h
      exact .inl ⟨rfl, by decide⟩
    | some t =>
      cases hset : serviceEntryGetTargetSet se.targetSet priority with
      | some set =>
        simp only [hset] at h
        cases h
        exact .inr ⟨rfl, protocol, t, findTarget_none.mp hfound, hp, hmade, by simp [withSet, hset]⟩
      | none =>
        simp only [hset] at h
        split at h <;> cases h
        · exact .inl ⟨rfl, by decide⟩
        · exact .inr ⟨rfl, protocol, t, findTarget_none.mp hfound, hp, hmade, by simp [withSet, hset]⟩

theorem withSet_setsOk (h : SetsOk none sets) (flags : UInt16) (priority : UInt32) :
    SetsOk (some priority) (withSet flags priority sets) := by
  rw [withSet]
  cases hset : serviceEntryGetTargetSet sets priority with
  | some set => exact h.weaken _
  | none => exact insert_ok h (getTargetSet_none.mp hset) flags

theorem withSet_ok (h : SetsOk none sets)
    (hfit : ∀ set ∈ sets, set.priority = priority → set.list.length < 65535) (flags : UInt16) :
    SetsOk (some priority) (withSet flags priority sets) ∧
      (∃ set ∈ withSet flags priority sets, set.priority = priority) ∧
      (∀ set ∈ withSet flags priority sets, set.priority = priority → set.list.length < 65535) ∧
      (targets (withSet flags priority sets)).Perm (targets sets) := by
  refine ⟨withSet_setsOk h flags priority, ?_⟩
  rw [withSet]
  cases hset : serviceEntryGetTargetSet sets priority with
  | some set => exact ⟨⟨set, getTargetSet_some hset⟩, hfit, List.Perm.refl _⟩
  | none =>
    refine ⟨?_, ?_, ?_⟩
    · exact ⟨_, mem_insertTargetSet.mpr (.inl rfl), rfl⟩
    · intro s hs hp
      rcases mem_insertTargetSet.mp hs with rfl | hs
      · exact Nat.zero_lt_succ _
      · exact hfit s hs hp
    · exact targets_insertTargetSet _ _

theorem addTarget_ok (h : SetsOk none sets)
    (hfit : ∀ set ∈ sets, set.priority = priority → set.list.length < 65535) (flags : UInt16) (t : Target) :
    SetsOk none (updateSet priority (targetSetAddTarget · t) (withSet flags priority sets)) ∧
      (targets (updateSet priority (targetSetAddTarget · t) (withSet flags priority sets))).Perm
        (t :: targets sets) := by
  obtain ⟨hok, hex, hfit', hperm⟩ := withSet_ok h hfit flags
  obtain ⟨hfill, hadd⟩ := fill_ok hok hex hfit' t
    (g := (targetSetAddTarget · t)) (fun s => ⟨s.flags, rfl⟩)
  exact ⟨hfill, hadd.trans (hperm.cons t)⟩

/-- Where the target sits after an add, and that taking it out again undoes the add. Ahead of
it are targets of its own priority and of higher ones. -/
theorem addTarget_undone (h : SetsOk none sets)
    (hfit : ∀ set ∈ sets, set.priority = priority → set.list.length < 65535) (flags : UInt16) (t : Target) :
    ∃ f, Lies f (updateSet priority (targetSetAddTarget · t) (withSet flags priority sets)) ∧
      f.target = t ∧ dropTarget f = sets ∧
      ∀ x ∈ targets f.before ++ f.ahead, ∃ set ∈ sets, priority ≤ set.priority ∧ x ∈ set.list := by
  have hsorted := (withSet_ok h hfit flags).1.sorted
  -- the set that takes the target, with or without targets before the add
  obtain ⟨l, q, r, hwith, hq, hcase⟩ : ∃ l q r, withSet flags priority sets = l ++ q :: r ∧ q.priority = priority ∧
      (sets = l ++ q :: r ∨ q = targetSetCreate flags priority ∧ sets = l ++ r) := by
    rw [withSet]
    cases hset : serviceEntryGetTargetSet sets priority with
    | some set =>
      obtain ⟨l, q, r, hl, hq, -⟩ := updateSet_split id ⟨set, getTargetSet_some hset⟩
      exact ⟨l, q, r, hl, hq, .inl hl⟩
    | none =>
      obtain ⟨l, r, hl, hins⟩ := insert_split (targetSetCreate flags priority) sets
      exact ⟨l, _, r, hins, rfl, .inr ⟨rfl, hl⟩⟩
  rw [hwith] at hsorted ⊢
  have habove := sorted_above hsorted
  have hup : updateSet priority (targetSetAddTarget · t) (l ++ q :: r) = l ++ targetSetAddTarget q t :: r :=
    updateSet_append _ (fun s hs => hq ▸ (UInt32.ne_of_lt (habove s hs)).symm) hq
  have hundo : targetSetRemoveTarget ⟨l, targetSetAddTarget q t, q.list, t, [], r⟩ = q := by
    simp [targetSetRemoveTarget, targetSetAddTarget]
  refine ⟨⟨l, targetSetAddTarget q t, q.list, t, [], r⟩, ⟨hup, rfl⟩, rfl, ?_, ?_⟩
  · rw [dropTarget, hundo]
    rcases hcase with hsets | ⟨hnew, hsets⟩
    · have hmem : q ∈ sets := by simp [hsets]
      have hne : q.count ≠ 0 := fun h0 => h.filled q hmem (by simp)
        ((counted_empty_iff (h.counted q hmem)).mp h0)
      simp [hne, hsets]
    · simp [hnew, hsets, targetSetCreate]
  · intro x hx
    rcases mem_append.mp hx with hx | hx
    · obtain ⟨s, hs, hxs⟩ := mem_flatMap.mp hx
      refine ⟨s, ?_, ?_, hxs⟩
      · rcases hcase with hsets | ⟨-, hsets⟩ <;> simp [hsets, hs]
      · exact hq ▸ UInt32.le_of_lt (habove s hs)
    · rcases hcase with hsets | ⟨hnew, -⟩
      · exact ⟨q, by simp [hsets], by rw [hq]; exact UInt32.le_refl _, hx⟩
      · simp [hnew, targetSetCreate] at hx

/-- The destination is replaced by one of the same length only. -/
theorem copyDst_cases (h : copyDst t newDst newDstlen = some t') :
    t' = t ∧ (newDst = none ∨ newDstlen ≠ t.dst.length) ∨ ∃ d, newDst = some d ∧ newDstlen = t.dst.length ∧
      newDstlen ≤ d.bytes.length ∧ t' = { t with dst := d.bytes.take newDstlen } := by
  unfold copyDst at h
  split at h
  · cases h
    exact .inl ⟨rfl, .inl rfl⟩
  · split at h
    next hlen =>
      split at h
      · cases h
      next hshort =>
        cases h
        exact .inr ⟨_, rfl, hlen, not_lt.mp hshort, rfl⟩
    next hlen =>
      cases h
      exact .inl ⟨rfl, .inr hlen⟩

theorem copyDst_some (h : copyDst t newDst newDstlen = some t') : t' = { t with dst := t'.dst } := by
  rcases copyDst_cases h with ⟨rfl, -⟩ | ⟨d, -, -, -, rfl⟩ <;> rfl

theorem selects_of_forward (htype : t.type = .forward) (d : Buf) (dstlen : ℕ) (protocol : ℤ) :
    selects .forward (some d) dstlen protocol t = memcmp t.dst d.bytes dstlen := by
  simp only [selects, isTarget, htype, ne_eq, not_true_eq_false, ↓reduceIte, reduceCtorEq, bind_eq_bind]
  cases memcmp t.dst d.bytes dstlen with
  | none => rfl
  | some same => cases same <;> rfl

/-- All that a modify can do: nothing; or change the destination of the target it found, and
then its weight, where it is or in the set of the new priority. -/
theorem modify_cases {r : ℤ}
    (h : serviceEntryModifyTarget se type flags priority weight dst dstlen newDst newDstlen routed
    mem = some (se', r)) :
    (se' = se ∧ r ≤ 0) ∨ ∃ f t, findTarget (selects type dst dstlen matchNoProtocol) se.targetSet = some (some f) ∧
      copyDst f.target newDst newDstlen = some t ∧ ¬(type = .demux ∨ dstlen = 0 ∨ routed = false) ∧
      ((r = -ENOMEM ∧ mem = 0 ∧ serviceEntryGetTargetSet se.targetSet priority = none ∧
        se' = { se with targetSet := putBack f t id }) ∨
       (r = 1 ∧ f.set.priority = priority ∧ se' = { se with targetSet := putBack f { t with weight } fun set =>
          { set with normalizer := set.normalizer - t.weight + weight, flags } }) ∨
       (r = 1 ∧ f.set.priority ≠ priority ∧ ∃ f', Lies f' (withSet flags priority se.targetSet) ∧ SamePlace f f' ∧
        se' = { se with targetSet := moveTarget f' { t with weight } flags priority })) := by
  rw [serviceEntryModifyTarget] at h
  split at h
  · cases h
    exact .inl ⟨rfl, by decide⟩
  · rename_i hdemux
    simp only [serviceEntryGetTarget, bind_eq_bind, bind_eq_some_iff] at h
    obtain ⟨found, hfound, h⟩ := h
    cases found with
    | none =>
      cases h
      exact .inl ⟨rfl, by decide⟩
    | some f =>
      cases routed with
      | false =>
        cases h
        exact .inl ⟨rfl, by decide⟩
      | true =>
        obtain ⟨t, ht, h⟩ := bind_eq_some_iff.mp h
        refine .inr ⟨f, t, hfound, ht, by simpa using hdemux, ?_⟩
        have hlies := (findTarget_some hfound).1
        split at h
        · rename_i hp
          cases hset : serviceEntryGetTargetSet se.targetSet priority with
          | some set =>
            rw [hset] at h
            cases h
            exact .inr (.inr ⟨rfl, hp, f, by simpa [withSet, hset] using hlies, .refl f, rfl⟩)
          | none =>
            rw [hset] at h
            dsimp only at h
            split at h
            · rename_i hmem
              cases h
              exact .inl ⟨rfl, hmem, rfl, rfl⟩
            · cases h
              obtain ⟨hl, hsame⟩ := insertAround_lies hlies (targetSetCreate flags priority)
              exact .inr (.inr ⟨rfl, hp, _, by simpa [withSet, hset] using hl, hsame, rfl⟩)
        · rename_i hp
          cases h
          exact .inr (.inl ⟨rfl, not_not.mp hp, rfl⟩)

structure EntryOk (se : ServiceEntry) : Prop where
  sorted : (se.targetSet.map (·.priority)).Pairwise (· > ·)
  filled : ∀ set ∈ se.targetSet, set.list ≠ []
  setCount : ∀ set ∈ se.targetSet, set.count.toNat = set.list.length
  normalizer : ∀ set ∈ se.targetSet, set.normalizer.toNat = (set.list.map (·.weight.toNat)).sum % 2 ^ 32
  count : se.count.toNat = (targets se.targetSet).length

theorem entryOk_iff : EntryOk se ↔ SetsOk none se.targetSet ∧ se.count.toNat = (targets se.targetSet).length := by
  constructor
  · intro h
    exact ⟨⟨h.sorted, fun s hs => ⟨h.setCount s hs, h.normalizer s hs⟩, fun s hs _ => h.filled s hs⟩, h.count⟩
  · rintro ⟨h, hc⟩
    exact ⟨h.sorted, fun s hs => h.filled s hs (by simp), fun s hs => (h.counted s hs).count,
      fun s hs => (h.counted s hs).normalizer, hc⟩

inductive Op where
  | add (type : RuleType) (flags : UInt16) (priority weight : UInt32) (dst : Option Buf)
      (dstlen : ℕ) (out : TargetOut) (mem : ℕ)
  | modify (type : RuleType) (flags : UInt16) (priority weight : UInt32) (dst : Option Buf)
      (dstlen : ℕ) (newDst : Option Buf) (newDstlen : ℕ) (routed : Bool) (mem : ℕ)
  | remove (type : RuleType) (dst : Option Buf) (dstlen : ℕ)
  | removeByDev (ifindex : UInt32)

def run (se : ServiceEntry) : Op → Option (ServiceEntry × ℤ)
  | .add type flags priority weight dst dstlen out mem => do
    let (se, r, _) ← serviceEntryAddTarget se type flags priority weight dst dstlen out mem
    return (se, r)
  | .modify type flags priority weight dst dstlen newDst newDstlen routed mem =>
    serviceEntryModifyTarget se type flags priority weight dst dstlen newDst newDstlen routed mem
  | .remove type dst dstlen => do
    let (se, r, _) ← serviceEntryRemoveTarget se type dst dstlen
    return (se, r)
  | .removeByDev ifindex => do
    let (se, r) ← serviceEntryRemoveTargetByDev se ifindex
    return (se, r)

inductive Reachable (ok : ServiceEntry → Op → Prop) : ServiceEntry → Prop where
  | create : Reachable ok serviceEntryCreate
  | step {se se' r} (op : Op) : Reachable ok se → ok se op → run se op = some (se', r) → Reachable ok se'

def HasRoom (sets : List TargetSet) (priority : UInt32) : Prop :=
  ∀ set ∈ sets, set.priority = priority → set.list.length < 65535

def Fits (se : ServiceEntry) : Op → Prop
  | .add _ _ priority _ _ _ _ _ =>
    HasRoom se.targetSet priority ∧ (targets se.targetSet).length < 2 ^ 32 - 1
  | .modify _ _ priority .. => HasRoom se.targetSet priority
  | _ => True

/-- What a call does to the targets, in whatever order the sets hold them: one is added, one
is changed in place of itself, or those that a removal selects go. -/
def Effect (old new : List Target) : Op → Prop
  | .add type _ _ weight .. => new = old ∨ ∃ t, t.type = type ∧ t.weight = weight ∧ new.Perm (t :: old)
  | .modify _ _ _ weight .. => new = old ∨ ∃ t t' rest, old.Perm (t :: rest) ∧
      new.Perm (t' :: rest) ∧ t'.type = t.type ∧ t'.out = t.out ∧ t'.stats = t.stats ∧
      (t'.weight = t.weight ∨ t'.weight = weight)
  | .remove type dst dstlen => new = old ∨ ∃ t, removes type dst dstlen t = some true ∧ old.Perm (t :: new)
  | .removeByDev ifindex => new = old.filter (!onDev ifindex ·)

theorem targetCreate_cases (h : targetCreate type dst dstlen out weight mem = some (some t)) :
    (0 < dstlen ∧ ∃ d, dst = some d ∧ dstlen ≤ d.bytes.length ∧
      t = ⟨type, weight, {}, .oif out.asOif, d.bytes.take dstlen⟩) ∨
    dstlen = 0 ∧ ∃ s, out.asSk = some s ∧ t = ⟨type, weight, {}, .sk (some s), []⟩ := by
  unfold targetCreate at h
  split at h
  · cases h
  · split at h
    · cases h
    · split at h
      next hpos =>
        obtain ⟨d, hd, h⟩ := bind_eq_some_iff.mp h
        split at h
        · cases h
        next hshort =>
          cases h
          exact .inl ⟨hpos, d, hd, not_lt.mp hshort, rfl⟩
      next hpos =>
        obtain ⟨s, hs, h⟩ := bind_eq_some_iff.mp h
        cases h
        exact .inr ⟨Nat.eq_zero_of_not_pos hpos, s, hs, rfl⟩

theorem targetCreate_some (h : targetCreate type dst dstlen out weight mem = some (some t)) :
    t.type = type ∧ t.weight = weight := by
  rcases targetCreate_cases h with ⟨-, d, -, -, rfl⟩ | ⟨-, s, -, rfl⟩ <;> exact ⟨rfl, rfl⟩

theorem modify_exchanges {r : ℤ} (hsets : SetsOk none se.targetSet) (hfit : HasRoom se.targetSet priority)
    (h : serviceEntryModifyTarget se type flags priority weight dst dstlen newDst newDstlen routed
    mem = some (se', r)) :
    (se' = se ∧ r ≠ 1) ∨ ∃ f t w rest,
      findTarget (selects type dst dstlen matchNoProtocol) se.targetSet = some (some f) ∧
      copyDst f.target newDst newDstlen = some t ∧ (w = t.weight ∧ r ≠ 1 ∨ w = weight) ∧
      SetsOk none se'.targetSet ∧ se'.count = se.count ∧
      (targets se.targetSet).Perm (f.target :: rest) ∧
      (targets se'.targetSet).Perm ({ t with weight := w } :: rest) := by
  rcases modify_cases h with ⟨hsame, hr⟩ | ⟨f, t, hfound, ht, -, hcase⟩
  · exact .inl ⟨hsame, by omega⟩
  · have hlies := (findTarget_some hfound).1
    have hw : t.weight = f.target.weight := by rw [copyDst_some ht]
    refine .inr ⟨f, t, ?_⟩
    rcases hcase with ⟨rfl, -, -, rfl⟩ | ⟨-, -, rfl⟩ | ⟨-, hp, f', hlies', hsame, rfl⟩
    · obtain ⟨h1, rest, h2, h3⟩ := putBack_ok (g := id) hsets hlies t (by simp [hw])
      exact ⟨t.weight, rest, hfound, ht, .inl ⟨rfl, by decide⟩, h1, rfl, h2, h3⟩
    · obtain ⟨h1, rest, h2, h3⟩ := putBack_ok (g := fun set =>
        { set with normalizer := set.normalizer - t.weight + weight, flags }) hsets hlies
        { t with weight } (by simp [hw])
      exact ⟨weight, rest, hfound, ht, .inr rfl, h1, rfl, h2, h3⟩
    · obtain ⟨hok', hex, hfit', hperm⟩ := withSet_ok hsets hfit flags
      obtain ⟨h1, rest, h2, h3⟩ := move_ok hok' hlies' (by rw [hsame.set]; exact hp) hex hfit'
        { t with weight } flags
      rw [hsame.target] at h2
      exact ⟨weight, rest, hfound, ht, .inr rfl, h1, rfl, hperm.symm.trans h2, h3⟩

theorem modify_ok {r : ℤ} (hok : EntryOk se) (hfit : HasRoom se.targetSet priority)
    (h : serviceEntryModifyTarget se type flags priority weight dst dstlen newDst newDstlen routed
    mem = some (se', r)) :
    EntryOk se' ∧ Effect (targets se.targetSet) (targets se'.targetSet)
      (.modify type flags priority weight dst dstlen newDst newDstlen routed mem) := by
  rcases modify_exchanges (entryOk_iff.mp hok).1 hfit h with
    ⟨rfl, -⟩ | ⟨f, t, w, rest, -, hcopy, hw, hsets', hcount, hold, hnew⟩
  · exact ⟨hok, .inl rfl⟩
  · replace hw := hw.imp_left And.left
    rw [copyDst_some hcopy] at hw hnew
    refine ⟨entryOk_iff.mpr ⟨hsets', ?_⟩, .inr ⟨f.target, _, rest, hold, hnew, rfl, rfl, rfl, hw⟩⟩
    rw [hcount, hok.count, hold.length_eq, hnew.length_eq]
    rfl

theorem step_ok {op : Op} {r : ℤ} (hok : EntryOk se) (hfit : Fits se op) (h : run se op = some (se', r)) :
    EntryOk se' ∧ Effect (targets se.targetSet) (targets se'.targetSet) op := by
  obtain ⟨hsets, hcount⟩ := entryOk_iff.mp hok
  cases op with
  | add type flags priority weight dst dstlen out mem =>
    obtain ⟨⟨se₁, r₁, m⟩, hadd, h⟩ := bind_eq_some_iff.mp h
    cases h
    rcases add_cases hadd with ⟨rfl, -⟩ | ⟨-, protocol, t, -, -, hcreate, rfl⟩
    · exact ⟨hok, .inl rfl⟩
    · obtain ⟨htype, hweight⟩ := targetCreate_some hcreate
      obtain ⟨hsets', hperm⟩ := addTarget_ok hsets hfit.1 flags t
      refine ⟨entryOk_iff.mpr ⟨hsets', ?_⟩, .inr ⟨t, htype, hweight, hperm⟩⟩
      have hlt := hfit.2
      rw [hperm.length_eq, UInt32.toNat_add, hcount, length_cons]
      change (_ + 1) % 2 ^ 32 = _
      omega
  | modify type flags priority weight dst dstlen newDst newDstlen routed mem =>
    exact modify_ok hok hfit h
  | remove type dst dstlen =>
    obtain ⟨⟨se₁, r₁, m⟩, hremove, h⟩ := bind_eq_some_iff.mp h
    obtain ⟨found, hfound, hremove⟩ := bind_eq_some_iff.mp hremove
    cases h
    cases found with
    | none =>
      cases hremove
      exact ⟨hok, .inl rfl⟩
    | some f =>
      cases hremove
      obtain ⟨hlies, hsel, -⟩ := findTarget_some hfound
      obtain ⟨hsets', hperm⟩ := drop_ok hsets hlies
      refine ⟨entryOk_iff.mpr ⟨hsets', ?_⟩, .inr ⟨f.target, hsel, hperm⟩⟩
      have hlt := se.count.toNat_lt
      rw [hperm.length_eq, length_cons] at hcount
      rw [UInt32.toNat_sub]
      change (2 ^ 32 - 1 + se.count.toNat) % 2 ^ 32 = (targets (dropTarget f)).length
      omega
  | removeByDev ifindex =>
    obtain ⟨sets', hrun, hsets', hcont⟩ := removeSetsByDev_spec ifindex hsets
    simp only [run, serviceEntryRemoveTargetByDev, hrun] at h
    cases h
    have htargets : targets sets' = (targets se.targetSet).filter (!onDev ifindex ·) := by
      rw [targets_eq_content, hcont, flatMap_keepOnly, ← targets_eq_content]
    refine ⟨entryOk_iff.mpr ⟨hsets', ?_⟩, htargets⟩
    have hlt := se.count.toNat_lt
    have hsplit : (targets se.targetSet).length = (targets se.targetSet).countP (onDev ifindex) +
        (targets se.targetSet).countP (!onDev ifindex ·) := by
      simp [length_eq_countP_add_countP (onDev ifindex)]
    rw [htargets, ← countP_eq_length_filter, UInt32.toNat_sub, UInt32.toNat_ofNat']
    omega

theorem reachable_ok (h : Reachable Fits se) : EntryOk se := by
  induction h with
  | create => exact ⟨List.Pairwise.nil, by simp [serviceEntryCreate], by simp [serviceEntryCreate],
      by simp [serviceEntryCreate], rfl⟩
  | step op _ hfit hrun ih => exact (step_ok ih hfit hrun).1

/-- In every run whose calls fit the counters, every entry reached is in order, and the next
call removes no target but those it selects. -/
theorem entry_invariant {se : ServiceEntry} (h : Reachable Fits se) :
    EntryOk se ∧ ∀ op se' r, Fits se op → run se op = some (se', r) →
      Effect (targets se.targetSet) (targets se'.targetSet) op :=
  ⟨reachable_ok h, fun _ _ _ hfit hrun => (step_ok (reachable_ok h) hfit hrun).2⟩

namespace Counterexample

def address (k : ℕ) : List UInt8 := [10, 0, UInt8.ofNat (k / 256), UInt8.ofNat k]

def rule (k : ℕ) : Target := ⟨.forward, 1, {}, .oif 1, address k⟩

def addRule (k : ℕ) : Op := .add .forward 0 0 1 (some ⟨4096, address k⟩) 4 (.oif 1) 2

def flooded (n : ℕ) : ServiceEntry :=
  ⟨[⟨(List.range n).map rule, UInt32.ofNat n, 0, 0, UInt16.ofNat n⟩], UInt32.ofNat n⟩

variable {j n k : ℕ}

theorem address_injective (hj : j < 65536) (hk : k < 65536) (h : address j = address k) : j = k := by
  simp only [address, List.cons.injEq, and_true, true_and, ← UInt8.toNat_inj, UInt8.toNat_ofNat'] at h
  omega

theorem rule_differs (hj : j < k) (hk : k < 65536) :
    selects .forward (some ⟨4096, address k⟩) 4 matchNoProtocol (rule j) = some false := by
  have hne : (address j == address k) = false := by
    rw [beq_eq_false_iff_ne]
    exact fun h => absurd (address_injective (by omega) hk h) (by omega)
  have hcmp : memcmp (address j) (address k) 4 = some false := by
    rw [memcmp, if_pos (by simp [address])]
    exact congrArg some hne
  simp [selects, isTarget, rule, hcmp]

theorem flooded_step (hn : n < 65536) : run (flooded n) (addRule n) = some (flooded (n + 1), 1) := by
  have hnone : findTarget (selects .forward (some ⟨4096, address n⟩) 4 matchNoProtocol)
      (flooded n).targetSet = some none := by
    rw [findTarget_none]
    intro x hx
    simp only [flooded, targets_cons, targets_nil, List.append_nil, List.mem_map, List.mem_range] at hx
    obtain ⟨j, hj, rfl⟩ := hx
    exact rule_differs hj hn
  have hcreate : targetCreate .forward (some ⟨4096, address n⟩) 4 (.oif 1) 1 2 = some (some (rule n)) := rfl
  have hset : serviceEntryGetTargetSet (flooded n).targetSet 0 = (flooded n).targetSet.head? := rfl
  simp only [run, addRule, serviceEntryAddTarget, targetProtocol, serviceEntryGetTarget,
    OfNat.ofNat_ne_zero, ↓reduceIte, Option.bind_eq_bind, Option.bind_some, hnone, hcreate, hset,
    Option.pure_def]
  simp [flooded, updateSet, targetSetAddTarget, List.range_succ, rule]

theorem flooded_reachable (hn : n < 65536) : Reachable (fun _ _ => True) (flooded (n + 1)) := by
  induction n with
  | zero => exact .step (addRule 0) .create trivial rfl
  | succ n ih => exact .step (addRule (n + 1)) (ih (by omega)) trivial (flooded_step hn)

end Counterexample

open Counterexample in
/-- 65536 forwarding rules of one priority bring the set's count back to zero. -/
theorem set_count_wraps : ¬ ∀ se, Reachable (fun _ _ => True) se → EntryOk se := by
  intro hall
  have hok := hall _ (flooded_reachable (n := 65535) (by decide))
  have hcount := hok.setCount _ (mem_singleton_self _)
  simp at hcount

namespace Sample

open Counterexample

def addAbove : Op := .add .forward 0 2 1 (some ⟨4096, address 1⟩) 4 (.oif 1) 2

def twoSets : ServiceEntry := ⟨[⟨[rule 1], 1, 2, 0, 1⟩, ⟨[rule 0], 1, 0, 0, 1⟩], 2⟩

def removeBelow : Op := .remove .forward (some ⟨4096, address 0⟩) 4

theorem twoSets_reachable : Reachable Fits twoSets :=
  .step addAbove (.step (addRule 0) .create ⟨by simp [HasRoom, serviceEntryCreate], by decide⟩ rfl)
    ⟨by unfold HasRoom; decide, by decide⟩ rfl

end Sample

open Sample Counterexample in
/-- Two rules of two priorities, of which the lower one is then removed. -/
theorem entry_invariant_two_sets : EntryOk twoSets ∧ run twoSets removeBelow = some (⟨[⟨[rule 1], 1, 2, 0, 1⟩], 1⟩, 1) ∧
    Effect [rule 1, rule 0] [rule 1] removeBelow := by
  obtain ⟨hok, heffect⟩ := entry_invariant twoSets_reachable
  exact ⟨hok, rfl, heffect removeBelow _ 1 trivial rfl⟩

end ServiceEntryInvariant
