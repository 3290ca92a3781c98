import Serval.TargetSets

/-! # The iterator over the targets of an entry

`iter->pos` is the targets from that position to the end of its list, so that the list head is the empty list.
-/
namespace ServiceIterator

open ServiceTargets
open List hiding set

inductive IterMode where
  | all
  | demux
  | forward
  | anycast
  deriving DecidableEq, Repr

structure ServiceIter where
  mode : IterMode
  set : Option TargetSet
  pos : Option (List Target)
  lastPos : Option (List Target)
  deriving Repr

def SVSF_MULTICAST : UInt16 := 32

def RAND_MAX : ℕ := 2 ^ 31 - 1

/-- The position of the first target whose cumulated weight, in 64 bits, reaches the sample, or the list head. -/
def sampleTarget (sample : UInt64) : UInt64 → List Target → List Target
  | _, [] => []
  | sumweight, t :: rest =>
    let sumweight := sumweight + (t.weight.toUInt64 <<< 32)
    if sample ≤ sumweight then t :: rest else sampleTarget sample sumweight rest

def serviceIterInit (se : ServiceEntry) (mode : IterMode) (random : ℕ) : ServiceIter × ℤ :=
  let iter : ServiceIter := ⟨mode, none, none, none⟩
  match se.targetSet with
  | [] => (iter, -1)
  | set :: _ =>
    if se.count = 0 then (iter, -1)
    else if mode = .anycast ∧ set.flags &&& SVSF_MULTICAST ≠ 0 then (iter, -1)
    else if mode = .anycast then
      let sample := UInt64.ofNat ((random <<< 32) / RAND_MAX) * set.normalizer.toUInt64
      ({ iter with pos := some (sampleTarget sample 0 set.list) }, 0)
    else ({ iter with pos := some set.list, set := some set }, 0)

def IterMode.lets (mode : IterMode) (t : Target) : Bool :=
  match mode with
  | .all => true
  | .demux => t.type == .demux
  | .forward => t.type == .forward
  | .anycast => false

def nextInSet (mode : IterMode) : List Target → List Target × Option Target
  | [] => ([], none)
  | t :: rest => if mode.lets t then (rest, some t) else nextInSet mode rest

/-- A sampled position at the list head is no target: reading it gives no result. -/
def serviceIterNext (iter : ServiceIter) : Option (ServiceIter × Option Target) :=
  let iter := { iter with lastPos := iter.pos }
  match iter.pos, iter.set with
  | none, _ => some (iter, none)
  | some pos, some _ =>
    let (pos, t) := nextInSet iter.mode pos
    some ({ iter with pos := some pos }, t)
  | some (t :: _), none => some ({ iter with pos := none }, some t)
  | some [], none => none

def iterTargets : ℕ → ServiceIter → Option (List Target)
  | 0, _ => none
  | fuel + 1, iter => do
    let (iter, t) ← serviceIterNext iter
    match t with
    | none => return []
    | some t =>
      let rest ← iterTargets fuel iter
      return t :: rest

variable {mode : IterMode}

theorem nextInSet_none {pos : List Target} (h : pos.filter mode.lets = []) :
    nextInSet mode pos = ([], none) := by
  induction pos with
  | nil => rfl
  | cons t rest ih =>
    rw [filter_eq_nil_iff, forall_mem_cons, ← filter_eq_nil_iff] at h
    simp [nextInSet, h.1, ih h.2]

theorem nextInSet_some {pos ts : List Target} {t : Target} (h : pos.filter mode.lets = t :: ts) :
    ∃ rest, nextInSet mode pos = (rest, some t) ∧ rest.filter mode.lets = ts ∧ rest.length < pos.length := by
  induction pos with
  | nil => simp at h
  | cons x pos ih =>
    by_cases hx : mode.lets x = true
    · rw [filter_cons_of_pos hx] at h
      obtain ⟨rfl, rfl⟩ := cons.inj h
      exact ⟨pos, by simp [nextInSet, hx], rfl, Nat.lt_succ_self _⟩
    · rw [filter_cons_of_neg hx] at h
      obtain ⟨rest, hnext, hrest, hlen⟩ := ih h
      exact ⟨rest, by simp [nextInSet, hx, hnext], hrest, Nat.lt_succ_of_lt hlen⟩

/-- Inside a set the calls return the targets of the mode, in order. The induction is on the
calls; each leaves fewer targets ahead. -/
theorem iterTargets_set (fuel : ℕ) : ∀ (iter : ServiceIter) (set : TargetSet) (pos : List Target),
    iter.set = some set → iter.pos = some pos → pos.length < fuel →
    iterTargets fuel iter = some (pos.filter iter.mode.lets) := by
  induction fuel with
  | zero => intro iter set pos _ _ hlt; omega
  | succ fuel ih =>
    intro iter set pos hset hpos hlt
    rw [iterTargets]
    cases hf : pos.filter iter.mode.lets with
    | nil => simp [serviceIterNext, hset, hpos, nextInSet_none hf]
    | cons t ts =>
      obtain ⟨rest, hnext, hrest, hlen⟩ := nextInSet_some hf
      have hih := ih ⟨iter.mode, some set, some rest, some pos⟩ set rest rfl rfl (by omega)
      simp [serviceIterNext, hset, hpos, hnext, hih, hrest]

def firstTargets (se : ServiceEntry) : List Target :=
  match se.targetSet with
  | [] => []
  | set :: _ => if se.count = 0 then [] else set.list

def iterFuel (se : ServiceEntry) : ℕ := (firstTargets se).length + 1

theorem iterTargets_init (se : ServiceEntry) (hmode : mode ≠ .anycast) (random : ℕ) :
    iterTargets (iterFuel se) (serviceIterInit se mode random).1 = some ((firstTargets se).filter mode.lets) := by
  unfold iterFuel firstTargets serviceIterInit
  cases hs : se.targetSet with
  | nil => rfl
  | cons set rest =>
    by_cases hc : se.count = 0
    · simp [hc, iterTargets, serviceIterNext]
    · simp only [hc, ↓reduceIte, hmode, false_and]
      exact iterTargets_set _ ⟨mode, some set, some set.list, none⟩ set set.list rfl rfl
        (Nat.lt_succ_self _)

/-! ## The targets that an iterator returns -/

inductive Returns : ServiceIter → List Target → Prop
  | nil {iter iter' : ServiceIter} (h : serviceIterNext iter = some (iter', none)) : Returns iter []
  | cons {iter iter' : ServiceIter} {t : Target} {ts : List Target} (h : serviceIterNext iter = some (iter', some t))
      (rest : Returns iter' ts) : Returns iter (t :: ts)

theorem returns_of_iterTargets {fuel : ℕ} {iter : ServiceIter} {ts : List Target}
    (h : iterTargets fuel iter = some ts) : Returns iter ts := by
  induction fuel generalizing iter ts with
  | zero => cases h
  | succ fuel ih =>
    obtain ⟨⟨iter', t⟩, hnext, h⟩ := Option.bind_eq_some_iff.mp h
    cases t with
    | none =>
      cases h
      exact .nil hnext
    | some t =>
      obtain ⟨rest, hrest, h⟩ := Option.bind_eq_some_iff.mp h
      cases h
      exact .cons hnext (ih hrest)

def ServiceIter.ahead (iter : ServiceIter) : List Target := iter.pos.getD []

theorem nextInSet_sublist {pos rest : List Target} {t : Option Target}
    (h : nextInSet mode pos = (rest, t)) : (t.toList ++ rest).Sublist pos := by
  induction pos with
  | nil =>
    cases h
    exact .slnil
  | cons x pos ih =>
    rw [nextInSet] at h
    split at h
    · cases h
      exact .refl _
    · exact (ih h).cons x

theorem next_sublist {iter iter' : ServiceIter} {t : Option Target} (h : serviceIterNext iter = some (iter', t)) :
    (t.toList ++ iter'.ahead).Sublist iter.ahead := by
  cases hpos : iter.pos with
  | none =>
    simp only [serviceIterNext, hpos] at h
    cases h
    simp [ServiceIter.ahead, hpos]
  | some pos =>
    cases hset : iter.set with
    | some set =>
      simp only [serviceIterNext, hpos, hset] at h
      cases h
      simpa [ServiceIter.ahead, hpos] using @nextInSet_sublist iter.mode pos _ _ rfl
    | none =>
      cases pos with
      | nil => simp [serviceIterNext, hpos, hset] at h
      | cons x rest =>
        simp only [serviceIterNext, hpos, hset] at h
        cases h
        simp [ServiceIter.ahead, hpos]

theorem returns_sublist {iter : ServiceIter} {ts : List Target} (h : Returns iter ts) : ts.Sublist iter.ahead := by
  induction h with
  | nil _ => exact nil_sublist _
  | cons h _ ih => exact (ih.cons_cons _).trans (next_sublist h)

theorem sampleTarget_suffix (sample sum : UInt64) (ts : List Target) : sampleTarget sample sum ts <:+ ts := by
  induction ts generalizing sum with
  | nil => exact suffix_refl _
  | cons t rest ih =>
    rw [sampleTarget]
    split
    · exact suffix_refl _
    · exact (ih _).trans (suffix_cons t rest)

theorem ahead_init (se : ServiceEntry) (mode : IterMode) (random : ℕ) :
    (serviceIterInit se mode random).1.ahead.Sublist (firstTargets se) := by
  unfold serviceIterInit firstTargets
  cases se.targetSet with
  | nil => exact .slnil
  | cons set rest =>
    dsimp only
    split
    · exact .slnil
    · split
      · exact nil_sublist _
      · split
        · exact (sampleTarget_suffix ..).sublist
        · exact .refl _

end ServiceIterator
