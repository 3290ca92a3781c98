import Serval.ServiceOwned

/-! # Counting packets along an iteration

`service_iter_inc_stats` counts on the target at `iter->last_pos`, where the last call of `service_iter_next` has
started. A position is the place of a target in the first set.
-/
namespace ServiceStats

open ServiceTargets ServiceIterator ServiceOwned

structure Cursor where
  mode : IterMode
  /-- Whether `iter->set` is not NULL. -/
  set : Bool
  pos : Option ℕ
  lastPos : Option ℕ
  deriving DecidableEq, Repr

def firstList (se : ServiceEntry) : List Target := (se.targetSet.head?.map (·.list)).getD []

def serviceIterInit (se : ServiceEntry) (mode : IterMode) (random : ℕ) : Cursor × ℤ :=
  match se.targetSet with
  | [] => (⟨mode, false, none, none⟩, -1)
  | set :: _ =>
    if se.count = 0 then (⟨mode, false, none, none⟩, -1)
    else if mode = .anycast ∧ set.flags &&& SVSF_MULTICAST ≠ 0 then (⟨mode, false, none, none⟩, -1)
    else if mode = .anycast then
      let sample := UInt64.ofNat ((random <<< 32) / RAND_MAX) * set.normalizer.toUInt64
      (⟨mode, false, some (set.list.length - (sampleTarget sample 0 set.list).length), none⟩, 0)
    else (⟨mode, true, some 0, none⟩, 0)

def nextPlace (mode : IterMode) : ℕ → List Target → ℕ × Option ℕ
  | k, [] => (k, none)
  | k, t :: rest => if mode.lets t then (k + 1, some k) else nextPlace mode (k + 1) rest

def serviceIterNext (se : ServiceEntry) (iter : Cursor) : Option (Cursor × Option ℕ) :=
  let iter := { iter with lastPos := iter.pos }
  match iter.pos, iter.set with
  | none, _ => some (iter, none)
  | some k, true =>
    let (pos, t) := nextPlace iter.mode k ((firstList se).drop k)
    some ({ iter with pos := some pos }, t)
  | some k, false => if k < (firstList se).length then some ({ iter with pos := none }, some k) else none

/-! ## Counting -/

structure Counters where
  entry : ServiceEntry
  stats : TargetStats
  table : TargetStats

def Counters.inc (c : Counters) (packets bytes : ℤ) : Counters :=
  { c with stats := countedStats packets bytes c.stats, table := countedStats packets bytes c.table }

def Counters.credit (c : Counters) (i k : ℕ) (packets bytes : ℤ) : Counters :=
  { c.inc packets bytes with entry := incTargetStats i k packets bytes c.entry }

/-- Behind the last target the call writes into the set, as if its list head was part of a target. -/
def serviceIterIncStats (c : Counters) (iter : Cursor) (packets bytes : ℤ) : Option Counters :=
  match iter.lastPos with
  | none => some (if 0 < packets then c else c.inc packets bytes)
  | some k => if k < (firstList c.entry).length then some (c.credit 0 k packets bytes) else none

/-- The points of an iteration: what the last call of `service_iter_next` has returned. In between packets are counted,
by this iteration and by others. -/
inductive Reached (mode : IterMode) (random : ℕ) : Counters → Cursor → Option ℕ → Prop where
  | init {c iter t} : serviceIterNext c.entry (serviceIterInit c.entry mode random).1 = some (iter, t) →
      Reached mode random c iter t
  | next {c iter t iter' t'} : Reached mode random c iter t → serviceIterNext c.entry iter = some (iter', t') →
      Reached mode random c iter' t'
  | inc {c c' iter t} (packets bytes : ℤ) : Reached mode random c iter t →
      serviceIterIncStats c iter packets bytes = some c' → Reached mode random c' iter t
  | other {c iter t} (i k : ℕ) (packets bytes : ℤ) : Reached mode random c iter t →
      Reached mode random (c.credit i k packets bytes) iter t

/-! ## The target that is counted -/

structure Like (c c' : Counters) : Prop where
  count : c'.entry.count = c.entry.count
  sets : List.Forall₂ AlikeSet c.entry.targetSet c'.entry.targetSet

theorem like_credit (c : Counters) (i k : ℕ) (packets bytes : ℤ) : Like c (c.credit i k packets bytes) :=
  ⟨rfl, alike_incTargetStats i k packets bytes c.entry⟩

variable {c c' : Counters}

theorem like_incStats {packets bytes : ℤ} (h : serviceIterIncStats c iter packets bytes = some c') : Like c c' := by
  have hsame : List.Forall₂ AlikeSet c.entry.targetSet c.entry.targetSet :=
    List.forall₂_same.mpr fun s _ => .refl s
  rw [serviceIterIncStats] at h
  split at h
  · cases h
    split
    · exact ⟨rfl, hsame⟩
    · exact ⟨rfl, hsame⟩
  · split at h
    · cases h
      exact like_credit c 0 _ packets bytes
    · cases h

theorem Like.firstList (h : Like c c') :
    List.Forall₂ Alike (ServiceStats.firstList c.entry) (ServiceStats.firstList c'.entry) := by
  have hsets := h.sets
  rw [ServiceStats.firstList, ServiceStats.firstList]
  generalize c.entry.targetSet = sets at hsets ⊢
  generalize c'.entry.targetSet = sets' at hsets ⊢
  cases hsets with
  | nil => exact .nil
  | cons hset _ => exact hset.1

variable {mode : IterMode} {t : Option ℕ}

theorem lets_of_alike {x y : Target} (h : Alike x y) : mode.lets y = mode.lets x := by
  cases mode <;> simp [IterMode.lets, h.1]

/-- Which targets of the first set the iteration returns. -/
def passes (mode : IterMode) (se : ServiceEntry) : List Bool := (firstList se).map mode.lets

theorem Like.passes (h : Like c c') : ServiceStats.passes mode c'.entry = ServiceStats.passes mode c.entry := by
  have hlets : List.Forall₂ (fun x y => mode.lets x = mode.lets y) (ServiceStats.firstList c.entry)
      (ServiceStats.firstList c'.entry) := h.firstList.imp fun _ _ halike => (lets_of_alike halike).symm
  exact (List.forall₂_eq_eq_eq ▸ List.forall₂_map_left_iff.mpr (List.forall₂_map_right_iff.mpr hlets)).symm

def Setless (mode : IterMode) (se : ServiceEntry) : Prop := mode = .anycast ∨ se.count = 0 ∨ se.targetSet = []

theorem Like.setless (h : Like c c') : Setless mode c'.entry ↔ Setless mode c.entry := by
  rw [Setless, Setless, h.count, ← List.length_eq_zero_iff, ← List.length_eq_zero_iff, h.sets.length_eq]

theorem nextPlace_spec (mode : IterMode) (l : List Target) (j : ℕ) :
    (∀ k, (nextPlace mode j l).2 = some k → (nextPlace mode j l).1 = k + 1 ∧ j ≤ k ∧
      (l.map mode.lets)[k - j]? = some true ∧ ∀ i, j ≤ i → i < k → (l.map mode.lets)[i - j]? = some false) ∧
    ((nextPlace mode j l).2 = none → (nextPlace mode j l).1 = j + l.length) := by
  induction l generalizing j with
  | nil => exact ⟨nofun, fun _ => rfl⟩
  | cons x rest ih =>
    rw [nextPlace]
    by_cases hx : mode.lets x = true
    · rw [if_pos hx]
      refine ⟨?_, nofun⟩
      rintro _ ⟨⟩
      exact ⟨rfl, le_rfl, by simp [hx], fun i hi hk => absurd hk (not_lt.mpr hi)⟩
    · rw [if_neg hx]
      obtain ⟨hsome, hnone⟩ := ih (j + 1)
      constructor
      · intro k hk
        obtain ⟨hpos, hjk, hat, hbefore⟩ := hsome k hk
        have hback : ∀ i, j + 1 ≤ i → ((x :: rest).map mode.lets)[i - j]? = (rest.map mode.lets)[i - (j + 1)]? := by
          intro i hi
          rw [List.map_cons, show i - j = i - (j + 1) + 1 by omega, List.getElem?_cons_succ]
        refine ⟨hpos, by omega, (hback k hjk).trans hat, fun i hi hik => ?_⟩
        by_cases hij : i = j
        · subst hij
          simpa using hx
        · exact (hback i (by omega)).trans (hbefore i (by omega) hik)
      · intro hk
        rw [hnone hk, List.length_cons]
        omega

/-- Where the last call has started and where it has ended. -/
def Walked (P : List Bool) (iter : Cursor) (j : ℕ) : Option ℕ → Prop
  | some k => iter.pos = some (k + 1) ∧ j ≤ k ∧ P[k]? = some true ∧ (∀ i, j ≤ i → i < k → P[i]? = some false) ∧
      (j = 0 ∨ P[j - 1]? = some true)
  | none => iter.pos = some P.length

structure Inv (mode : IterMode) (c : Counters) (iter : Cursor) (t : Option ℕ) : Prop where
  same : iter.mode = mode
  set : iter.set = true ↔ ¬Setless mode c.entry
  single : iter.set = false → iter.lastPos = t ∧ ∀ k, t = some k → mode = .anycast ∧ k < (firstList c.entry).length
  unstarted : iter.set = false → mode ≠ .anycast → iter.pos = none
  walked : iter.set = true → ∃ j, iter.lastPos = some j ∧ Walked (passes mode c.entry) iter j t

theorem Inv.like (h : Inv mode c iter t) (hlike : Like c c') : Inv mode c' iter t := by
  refine ⟨h.same, h.set.trans (not_congr hlike.setless.symm), ?_, h.unstarted, ?_⟩
  · rw [← hlike.firstList.length_eq]
    exact h.single
  · rw [hlike.passes]
    exact h.walked

/-- A call of `service_iter_next` from a place that it has reached before, or from the first. -/
theorem inv_next {iter' : Cursor} (hmode : iter.mode = mode) (hset : iter.set = true ↔ ¬Setless mode c.entry)
    (hunstarted : iter.set = false → mode ≠ .anycast → iter.pos = none)
    (hfrom : iter.set = true → ∃ j, iter.pos = some j ∧ j ≤ (passes mode c.entry).length ∧
      (j < (passes mode c.entry).length → j = 0 ∨ (passes mode c.entry)[j - 1]? = some true))
    (h : serviceIterNext c.entry iter = some (iter', t)) : Inv mode c iter' t := by
  obtain ⟨m, set, pos, lastPos⟩ := iter
  subst hmode
  cases set with
  | true =>
    obtain ⟨j, rfl, hle, hstart⟩ := hfrom rfl
    cases h
    refine ⟨rfl, hset, nofun, nofun, fun _ => ⟨j, rfl, ?_⟩⟩
    have hspec := nextPlace_spec m ((firstList c.entry).drop j) j
    have hdrop : ∀ i, j ≤ i → (((firstList c.entry).drop j).map m.lets)[i - j]? = (passes m c.entry)[i]? := by
      intro i hi
      rw [List.map_drop, List.getElem?_drop, passes, Nat.add_sub_cancel' hi]
    cases hplace : (nextPlace m j ((firstList c.entry).drop j)).2 with
    | none =>
      rw [passes, List.length_map] at hle
      simp [Walked, passes, hspec.2 hplace, Nat.add_sub_cancel' hle]
    | some k =>
      obtain ⟨hpos, hjk, hk, hbefore⟩ := hspec.1 k hplace
      rw [hdrop k hjk] at hk
      refine ⟨congrArg some hpos, hjk, hk, fun i hi hik => (hdrop i hi).symm.trans (hbefore i hi hik), hstart ?_⟩
      exact hjk.trans_lt (List.getElem?_eq_some_iff.mp hk).1
  | false =>
    cases pos with
    | none =>
      cases h
      exact ⟨rfl, hset, fun _ => ⟨rfl, nofun⟩, fun _ _ => rfl, nofun⟩
    | some k =>
      simp only [serviceIterNext] at h
      split at h
      next hlt =>
        cases h
        refine ⟨rfl, hset, fun _ => ⟨rfl, ?_⟩, fun _ _ => rfl, nofun⟩
        intro k' hk'
        cases hk'
        have hmode : m = .anycast := by_contra fun hne => nomatch hunstarted rfl hne
        exact ⟨hmode, hlt⟩
      · cases h

theorem init_inv (se : ServiceEntry) (mode : IterMode) (random : ℕ) : (serviceIterInit se mode random).1.mode = mode ∧
      ((serviceIterInit se mode random).1.set = true ↔ ¬Setless mode se) ∧
      ((serviceIterInit se mode random).1.set = false → mode ≠ .anycast →
        (serviceIterInit se mode random).1.pos = none) ∧
      ((serviceIterInit se mode random).1.set = true → (serviceIterInit se mode random).1.pos = some 0) := by
  rw [serviceIterInit]
  cases hsets : se.targetSet with
  | nil => simp [Setless, hsets]
  | cons set rest =>
    dsimp only
    split
    next hcount => simp [Setless, hcount]
    next hcount =>
      by_cases hmode : mode = .anycast
      · simp only [hmode, true_and, if_true]
        split <;> simp [Setless]
      · simp [Setless, hmode, hcount, hsets]

theorem reached_inv {random : ℕ} (h : Reached mode random c iter t) : Inv mode c iter t := by
  induction h with
  | @init c iter t hnext =>
    obtain ⟨hmode, hset, hunstarted, hpos⟩ := init_inv c.entry mode random
    exact inv_next hmode hset hunstarted (fun h => ⟨0, hpos h, Nat.zero_le _, fun _ => .inl rfl⟩) hnext
  | @next c iter t iter' t' _ hnext ih =>
    refine inv_next ih.same ih.set ih.unstarted (fun h => ?_) hnext
    obtain ⟨j, -, hwalked⟩ := ih.walked h
    cases t with
    | none => exact ⟨_, hwalked, le_rfl, fun hlt => absurd hlt (lt_irrefl _)⟩
    | some k =>
      obtain ⟨hpos, -, hk, -⟩ := hwalked
      exact ⟨k + 1, hpos, (List.getElem?_eq_some_iff.mp hk).1, fun _ => .inr hk⟩
  | inc packets bytes _ hinc ih => exact ih.like (like_incStats hinc)
  | other i k packets bytes _ ih => exact ih.like (like_credit _ i k packets bytes)

def targetAt (se : ServiceEntry) (i k : ℕ) : Option Target := se.targetSet[i]?.bind (·.list[k]?)

theorem targetAt_inc (se : ServiceEntry) (i k i' k' : ℕ) (packets bytes : ℤ) :
    targetAt (incTargetStats i k packets bytes se) i' k' =
      (targetAt se i' k').map fun t => if i = i' ∧ k = k' then countTarget packets bytes t else t := by
  rw [targetAt, targetAt, incTargetStats, List.getElem?_modify]
  cases hset : se.targetSet[i']? with
  | none => rfl
  | some set =>
    by_cases hi : i = i'
    · simp [hi, countInSet, List.getElem?_modify]
    · simp [hi]

/-- The packets are counted on the target at place `k` of the first set and on no other target, on the entry, and on the
table. -/
structure Credited (c c' : Counters) (k : ℕ) (packets bytes : ℤ) : Prop where
  target : targetAt c'.entry 0 k = (targetAt c.entry 0 k).map (countTarget packets bytes)
  others : ∀ i j, (i, j) ≠ (0, k) → targetAt c'.entry i j = targetAt c.entry i j
  stats : c'.stats = countedStats packets bytes c.stats
  table : c'.table = countedStats packets bytes c.table

theorem credited (c : Counters) (k : ℕ) (packets bytes : ℤ) :
    Credited c (c.credit 0 k packets bytes) k packets bytes := by
  refine ⟨?_, ?_, rfl, rfl⟩
  · rw [Counters.credit, targetAt_inc]
    simp
  · intro i j hne
    have hother : ¬(0 = i ∧ k = j) := by
      rintro ⟨rfl, rfl⟩
      exact hne rfl
    rw [Counters.credit, targetAt_inc]
    simp [hother]

theorem countTarget_ne {packets : ℤ} (hp : packets ≠ 0) (hint : packets.natAbs < 2 ^ 32) (bytes : ℤ) (t : Target) :
    countTarget packets bytes t ≠ t := by
  have hadd : ∀ x : UInt32, x + .ofInt packets.natAbs ≠ x := by
    intro x hx
    have hzero : (UInt32.ofInt packets.natAbs).toNat = 0 := congrArg UInt32.toNat (add_eq_left.mp hx)
    rw [UInt32.ofInt, UInt32.toNat_ofNat'] at hzero
    omega
  intro hsame
  have hstats : countedStats packets bytes t.stats = t.stats := congrArg Target.stats hsame
  rw [countedStats] at hstats
  split at hstats
  next hpos =>
    have hfield := congrArg TargetStats.packetsResolved hstats
    rw [← Int.natAbs_of_nonneg hpos.le] at hfield
    exact hadd _ hfield
  next hneg =>
    have hfield := congrArg TargetStats.packetsDropped hstats
    rw [← Int.ofNat_natAbs_of_nonpos (not_lt.mp hneg)] at hfield
    exact hadd _ hfield

/-- The target ahead of place `k` in the first set is one that the iteration returns, so that none was passed over. -/
def Direct (mode : IterMode) (se : ServiceEntry) (k : ℕ) : Prop :=
  mode = .anycast ∨ k = 0 ∨ (passes mode se)[k - 1]? = some true

theorem Inv.lastPos_iff {k : ℕ} (h : Inv mode c iter (some k)) :
    ∃ j, iter.lastPos = some j ∧ j ≤ k ∧ k < (firstList c.entry).length ∧ (j = k ↔ Direct mode c.entry k) := by
  by_cases hset : iter.set = true
  · obtain ⟨j, hlast, -, hjk, hk, hbefore, hstart⟩ := h.walked hset
    have hlt : k < (passes mode c.entry).length := (List.getElem?_eq_some_iff.mp hk).1
    rw [passes, List.length_map] at hlt
    refine ⟨j, hlast, hjk, hlt, ?_, fun hdirect => ?_⟩
    · rintro rfl
      exact .inr hstart
    · by_contra hne
      have hmode : mode ≠ .anycast := fun hany => h.set.mp hset (.inl hany)
      rcases hdirect with hany | hzero | hprev
      · exact hmode hany
      · omega
      · rw [hbefore (k - 1) (by omega) (by omega)] at hprev
        cases hprev
  · obtain ⟨hlast, hk⟩ := h.single (Bool.not_eq_true _ ▸ hset)
    obtain ⟨hmode, hlt⟩ := hk k rfl
    exact ⟨k, hlast, le_rfl, hlt, iff_of_true rfl (.inl hmode)⟩

/-- At every point of an iteration: the packets are counted on the target that was returned last, exactly if none was
passed over, and after NULL on no target, exactly if the iteration has no set. -/
theorem incStats_credits {mode : IterMode} {random : ℕ} {c : Counters} {iter : Cursor} {t : Option ℕ}
    (h : Reached mode random c iter t) {packets : ℤ} (bytes : ℤ) (hp : packets ≠ 0) (hint : packets.natAbs < 2 ^ 32) :
    (∀ k, t = some k → (targetAt c.entry 0 k).isSome ∧
      ((∃ c', serviceIterIncStats c iter packets bytes = some c' ∧ Credited c c' k packets bytes) ↔
        Direct mode c.entry k)) ∧
    (t = none → ((∃ c', serviceIterIncStats c iter packets bytes = some c' ∧ c'.entry = c.entry) ↔
      Setless mode c.entry)) := by
  have hinv := reached_inv h
  have hat : ∀ j, j < (firstList c.entry).length → ∃ x, targetAt c.entry 0 j = some x := by
    intro j hj
    rw [firstList] at hj
    cases hsets : c.entry.targetSet with
    | nil => simp [hsets] at hj
    | cons set rest =>
      rw [hsets] at hj
      exact ⟨_, by rw [targetAt, hsets]; exact List.getElem?_eq_getElem hj⟩
  -- counting on a target is seen there
  have hseen : ∀ j, j < (firstList c.entry).length →
      targetAt (c.credit 0 j packets bytes).entry 0 j ≠ targetAt c.entry 0 j := by
    intro j hj
    obtain ⟨x, hx⟩ := hat j hj
    rw [(credited c j packets bytes).target, hx, Option.map_some, ne_eq, Option.some_inj]
    exact countTarget_ne hp hint bytes x
  constructor
  · rintro k rfl
    obtain ⟨j, hlast, hjk, hk, hiff⟩ := hinv.lastPos_iff
    obtain ⟨x, hx⟩ := hat k hk
    refine ⟨by simp [hx], ?_⟩
    rw [← hiff, serviceIterIncStats, hlast]
    simp only [hjk.trans_lt hk, if_true, Option.some_inj, exists_eq_left']
    constructor
    · intro hcredited
      by_contra hne
      exact hseen j (hjk.trans_lt hk) (hcredited.others 0 j (by simpa using hne))
    · rintro rfl
      exact credited c j packets bytes
  · rintro rfl
    by_cases hset : iter.set = true
    · obtain ⟨j, hlast, -⟩ := hinv.walked hset
      refine iff_of_false ?_ (hinv.set.mp hset)
      rintro ⟨c', hinc, hsame⟩
      rw [serviceIterIncStats, hlast] at hinc
      dsimp only at hinc
      split at hinc
      next hj =>
        cases hinc
        exact hseen j hj (by rw [hsame])
      · cases hinc
    · obtain ⟨hlast, -⟩ := hinv.single (Bool.not_eq_true _ ▸ hset)
      refine iff_of_true ⟨_, by rw [serviceIterIncStats, hlast], ?_⟩ (not_not.mp (mt hinv.set.mpr hset))
      split <;> rfl

namespace Sample

theorem listener_nonnull : 64 ≠ 0 := by decide

def listener : Sock := ⟨64, 17, listener_nonnull⟩
def socket : Target := ⟨.demux, 1, {}, .sk (some listener), []⟩
def host : Target := ⟨.forward, 1, {}, .oif 1, [10, 0, 0, 1]⟩

def mixed : Counters := ⟨⟨[⟨[socket, host], 2, 1, 0, 2⟩], 2⟩, {}, {}⟩

def onlyHost : Counters := ⟨⟨[⟨[host], 1, 1, 0, 1⟩], 1⟩, {}, {}⟩

def atHost : Cursor := ⟨.forward, true, some 2, some 0⟩

theorem atHost_reached : Reached .forward 0 mixed atHost (some 1) := .init rfl

end Sample

open Sample in
/-- The second of two calls returns the host, and the packet is counted on it. -/
theorem incStats_credits_host :
    ∃ iter c', Reached .all 0 mixed iter (some 1) ∧ serviceIterIncStats mixed iter 1 100 = some c' ∧
      Credited mixed c' 1 1 100 := by
  have hfirst : Reached .all 0 mixed ⟨.all, true, some 1, some 0⟩ (some 0) := .init rfl
  have hsecond : Reached .all 0 mixed ⟨.all, true, some 2, some 1⟩ (some 1) := .next hfirst rfl
  obtain ⟨-, hiff⟩ := (incStats_credits hsecond 100 one_ne_zero (by decide)).1 1 rfl
  obtain ⟨c', hinc, hcredited⟩ := hiff.mpr (.inr (.inr rfl))
  exact ⟨_, c', hsecond, hinc, hcredited⟩

open Sample in
/-- The host is returned, and the socket ahead of it is counted on. After the last target the list head is. -/
theorem incStats_misses : (Reached .forward 0 mixed atHost (some 1) ∧ targetAt mixed.entry 0 1 = some host ∧
      ∃ c', serviceIterIncStats mixed atHost 1 100 = some c' ∧ targetAt c'.entry 0 1 = some host ∧
        targetAt c'.entry 0 0 = some { socket with stats := ⟨1, 100, 0, 0⟩ }) ∧
    ∃ iter, Reached .all 0 onlyHost iter none ∧ serviceIterIncStats onlyHost iter (-1) (-100) = none := by
  refine ⟨⟨atHost_reached, rfl, _, rfl, rfl, rfl⟩, ⟨.all, true, some 1, some 1⟩, ?_, rfl⟩
  have hfirst : Reached .all 0 onlyHost ⟨.all, true, some 1, some 0⟩ (some 0) := .init rfl
  exact .next hfirst rfl

end ServiceStats
