import Serval.IndexedHeap
import Serval.LabelledRuns
import Mathlib.Tactic.Ring

/-! # The timer queue

`timer.c`: timers in a heap by their timeout. A timer is scheduled if its heap item is active. Every call reads
the clock at most once, and the reading is an argument.
-/
namespace TimerQueue

open HeapOrder LabelledRuns IndexedHeap Option Function Bool

set_option linter.unusedSectionVars false

structure Timespec where
  tvSec : ℤ
  tvNsec : ℤ
  deriving DecidableEq

def NSEC_PER_SEC : ℤ := 1000000000

def timespecNormalize (t : Timespec) : Timespec :=
  if NSEC_PER_SEC ≤ t.tvNsec then ⟨t.tvSec + 1, t.tvNsec - NSEC_PER_SEC⟩
  else if t.tvNsec < 0 then ⟨t.tvSec - 1, t.tvNsec + NSEC_PER_SEC⟩
  else t

def timespecAddNsec (t : Timespec) (nsec : ℤ) : Timespec :=
  timespecNormalize ⟨t.tvSec + nsec.tdiv NSEC_PER_SEC, t.tvNsec + nsec.tmod NSEC_PER_SEC⟩

def timespecLt (t₁ t₂ : Timespec) : Bool :=
  t₁.tvSec < t₂.tvSec || (t₁.tvSec == t₂.tvSec && t₁.tvNsec < t₂.tvNsec)

variable {ι : Type} [DecidableEq ι]

structure Queue (ι : Type) where
  queue : Heap ι
  timeout : ι → Timespec
  expires : ι → ℤ

def timerQueueInit (map : ℕ → ι) (index : ι → ℕ) (timeout : ι → Timespec) (expires : ι → ℤ) : Queue ι :=
  ⟨heapInit 0 map index, timeout, expires⟩

def heapCmp (timeout : ι → Timespec) (t₁ t₂ : ι) : Bool := timespecLt (timeout t₁) (timeout t₂)

def Queue.setExpires (tq : Queue ι) (t : ι) (e : ℤ) : Queue ι := { tq with expires := update tq.expires t e }

def timerScheduled (tq : Queue ι) (t : ι) : Bool := tq.queue.active t

def timerInit (tq : Queue ι) (t : ι) : Queue ι :=
  { queue := { tq.queue with
      index := update tq.queue.index t 0, active := update tq.queue.active t false }
    timeout := update tq.timeout t ⟨0, 0⟩
    expires := update tq.expires t 0 }

def timerDel (tq : Queue ι) (t : ι) : Option (Queue ι) := do
  let (queue, _) ← heapRemove (heapCmp tq.timeout) tq.queue (tq.queue.index t)
  return { tq with queue := queue }

def toLong (e : ℕ) : ℤ := if e % 2 ^ 64 < 2 ^ 63 then (e % 2 ^ 64 : ℕ) else (e % 2 ^ 64 : ℕ) - 2 ^ 64

def longMul (a b : ℤ) : Option ℤ := if -2 ^ 63 ≤ a * b ∧ a * b < 2 ^ 63 then some (a * b) else none

def timerEnqueue (tq : Queue ι) (t : ι) (now : Timespec) (mem : Bool) : Option (Queue ι × ℤ) := do
  let nsec ← longMul (tq.expires t) 1000
  let timeout := update tq.timeout t (timespecAddNsec now nsec)
  let (queue, ret) ← heapInsert (heapCmp timeout) tq.queue t mem
  return ({ tq with queue := queue, timeout := timeout }, if ret = 0 then 1 else -1)

/-- The new time is stored only if the timer was scheduled. -/
def timerMod (tq : Queue ι) (t : ι) (expires : ℕ) (now : Timespec) (mem : Bool) : Option (Queue ι × ℤ) :=
  if timerScheduled tq t then do
    let tq ← timerDel tq t
    timerEnqueue (tq.setExpires t (toLong expires)) t now mem
  else timerEnqueue tq t now mem

def timerAdd (tq : Queue ι) (t : ι) (now : Timespec) (mem : Bool) : Option (Queue ι × ℤ) :=
  if timerScheduled tq t then some (tq, -1) else timerMod tq t (tq.expires t % 2 ^ 64).toNat now mem

def timerHandleTimeout (tq : Queue ι) : Option (Queue ι × ℤ × Option ι) :=
  if heapEmpty tq.queue then some (tq, -1, none)
  else do
    let (queue, t) ← heapRemove (heapCmp tq.timeout) tq.queue 0
    return ({ tq with queue := queue }, 0, t)

def ns (t : Timespec) : ℤ := t.tvSec * NSEC_PER_SEC + t.tvNsec

def Normal (t : Timespec) : Prop := 0 ≤ t.tvNsec ∧ t.tvNsec < NSEC_PER_SEC

theorem ns_normalize {t : Timespec} (hlow : -NSEC_PER_SEC ≤ t.tvNsec) (hhigh : t.tvNsec < 2 * NSEC_PER_SEC) :
    Normal (timespecNormalize t) ∧ ns (timespecNormalize t) = ns t := by
  rw [timespecNormalize]
  split
  · simp only [Normal, ns, NSEC_PER_SEC] at *
    omega
  · split
    · simp only [Normal, ns, NSEC_PER_SEC] at *
      omega
    next hmany hfew => exact ⟨⟨Int.not_lt.mp hfew, Int.not_le.mp hmany⟩, rfl⟩

variable {now : Timespec}

theorem ns_addNsec (hnow : Normal now) {n : ℤ} (hn : 0 ≤ n) :
    Normal (timespecAddNsec now n) ∧ ns (timespecAddNsec now n) = ns now + n := by
  have hdiv : n.tdiv NSEC_PER_SEC = n / NSEC_PER_SEC := Int.tdiv_eq_ediv_of_nonneg hn
  have hmod : n.tmod NSEC_PER_SEC = n % NSEC_PER_SEC := Int.tmod_eq_emod_of_nonneg hn
  rw [timespecAddNsec, hdiv, hmod]
  simp only [Normal, NSEC_PER_SEC] at hnow
  have hnormal := @ns_normalize ⟨now.tvSec + n / NSEC_PER_SEC, now.tvNsec + n % NSEC_PER_SEC⟩
    (by dsimp only [NSEC_PER_SEC]; omega) (by dsimp only [NSEC_PER_SEC]; omega)
  refine ⟨hnormal.1, hnormal.2.trans ?_⟩
  simp only [ns, NSEC_PER_SEC]
  omega

theorem timespecLt_iff {t₁ t₂ : Timespec} (h₁ : Normal t₁) (h₂ : Normal t₂) :
    timespecLt t₁ t₂ = true ↔ ns t₁ < ns t₂ := by
  obtain ⟨h0, h1⟩ := h₁
  obtain ⟨h2, h3⟩ := h₂
  simp only [timespecLt, or_eq_true, and_eq_true, decide_eq_true_eq, beq_iff_eq, ns, NSEC_PER_SEC] at *
  omega

instance (timeout : ι → Timespec) : IsStrictWeakOrder ι fun a b => heapCmp timeout a b = true where
  irrefl a := by simp [heapCmp, timespecLt]
  trans a b c hab hbc := by
    simp only [heapCmp, timespecLt, or_eq_true, and_eq_true, decide_eq_true_eq, beq_iff_eq] at *
    omega
  incomp_trans a b c hab hbc := by
    simp only [heapCmp, timespecLt, or_eq_true, and_eq_true, decide_eq_true_eq, beq_iff_eq] at *
    omega

structure Good (tq : Queue ι) (S : Set ι) : Prop where
  items : Items tq.queue S
  ordered : Ordered (heapCmp tq.timeout · · = true) tq.queue.map tq.queue.size
  normal : ∀ t ∈ S, Normal (tq.timeout t)

theorem good_init (map : ℕ → ι) (index : ι → ℕ) (timeout : ι → Timespec) (expires : ι → ℤ) :
    Good (timerQueueInit map index timeout expires) ∅ :=
  ⟨items_init 0 map index, fun j _ hj => absurd hj (Nat.not_lt_zero j), fun t ht => absurd ht (Set.notMem_empty t)⟩

def schedule (tq : Queue ι) (t : ι) : Option ℤ := if timerScheduled tq t then some (ns (tq.timeout t)) else none

def Located (tq : Queue ι) (t : ι) : Prop :=
  tq.queue.index t < tq.queue.size ∧ tq.queue.map (tq.queue.index t) = t

/-- The last timer of the heap may take the place of `t`. -/
def Removable (tq : Queue ι) (t : ι) : Prop := Located tq t ∧ Fits (heapCmp tq.timeout) tq.queue (tq.queue.index t)

variable {tq tq' : Queue ι} {S : Set ι} {t : ι}

theorem Good.scheduled (h : Good tq S) (t : ι) : timerScheduled tq t = true ↔ t ∈ S := h.items.active t

theorem Good.schedule_none (h : Good tq S) (ht : t ∉ S) : schedule tq t = none :=
  if_neg (fun hs => ht ((h.scheduled t).mp hs))

theorem Good.schedule_some (h : Good tq S) (ht : t ∈ S) : schedule tq t = some (ns (tq.timeout t)) :=
  if_pos ((h.scheduled t).mpr ht)

theorem schedule_eq_none_iff : schedule tq t = none ↔ timerScheduled tq t = false := by
  simp [schedule]

theorem Good.setExpires (h : Good tq S) (t : ι) (e : ℤ) : Good (tq.setExpires t e) S := ⟨h.items, h.ordered, h.normal⟩

theorem Good.once (h : Good tq S) (ht : timerScheduled tq t = true) : ∃! i, i < tq.queue.size ∧ tq.queue.map i = t := by
  obtain ⟨i, hi, rfl⟩ := (h.items.mem t).mp ((h.scheduled t).mp ht)
  exact ⟨i, ⟨hi, rfl⟩, fun j hj => h.items.distinct j i hj.1 hi hj.2⟩

theorem schedule_setExpires (tq : Queue ι) (t : ι) (e : ℤ) : schedule (tq.setExpires t e) = schedule tq := rfl

theorem schedule_congr {S' : Set ι} (h : Good tq S) (h' : Good tq' S') {u : ι} (hmem : u ∈ S' ↔ u ∈ S)
    (htime : tq'.timeout u = tq.timeout u) : schedule tq' u = schedule tq u := by
  by_cases hu : u ∈ S
  · rw [h.schedule_some hu, h'.schedule_some (hmem.mpr hu), htime]
  · rw [h.schedule_none hu, h'.schedule_none (fun hu' => hu (hmem.mp hu'))]

theorem del_spec (h : Good tq S) (hr : Removable tq t) :
    ∃ tq', timerDel tq t = some tq' ∧ Good tq' (S \ {t}) ∧ tq'.timeout = tq.timeout ∧ tq'.expires = tq.expires ∧
      tq'.queue.size = tq.queue.size - 1 := by
  obtain ⟨⟨hlt, hmap⟩, hfits⟩ := hr
  obtain ⟨q, hrun, hitems, hsize, hord, -⟩ := remove_spec (heapCmp tq.timeout) h.items hlt
  rw [hmap] at hitems
  refine ⟨{ tq with queue := q }, ?_, ⟨hitems, hord h.ordered hfits, fun u hu => h.normal u hu.1⟩, rfl, rfl, hsize⟩
  rw [timerDel, hrun]
  rfl

theorem schedule_del {S' : Set ι} (h : Good tq S) (h' : Good tq' S') (hS' : S' = S \ {t}) (htime :
    tq'.timeout = tq.timeout) :
    schedule tq' = update (schedule tq) t none := by
  funext u
  by_cases hu : u = t
  · rw [hu, update_self, h'.schedule_none (by simp [hS'])]
  · rw [update_of_ne hu]
    exact schedule_congr h h' (by simp [hS', hu]) (by rw [htime])

theorem enqueue_spec (h : Good tq S) (ht : t ∉ S) (hnow : Normal now) (he : 0 ≤ tq.expires t)
    (hlong : tq.expires t * 1000 < 2 ^ 63) (hsize : tq.queue.size + 1 < 2 ^ 31) :
    ∃ tq', timerEnqueue tq t now true = some (tq', 1) ∧ Good tq' (insert t S) ∧ tq'.expires = tq.expires ∧
      tq'.queue.size = tq.queue.size + 1 ∧ (∀ u, u ≠ t → tq'.timeout u = tq.timeout u) ∧
      ns (tq'.timeout t) = ns now + tq.expires t * 1000 := by
  have hmul : longMul (tq.expires t) 1000 = some (tq.expires t * 1000) := if_pos ⟨by omega, hlong⟩
  obtain ⟨hnormal, hns⟩ := ns_addNsec hnow (show 0 ≤ tq.expires t * 1000 by omega)
  have hother : ∀ u, u ≠ t → update tq.timeout t (timespecAddNsec now (tq.expires t * 1000)) u = tq.timeout u :=
    fun u hu => update_of_ne hu _ _
  -- the timers in the heap keep their timeouts, so the heap is in order for the new comparison
  have hin : ∀ j, j < tq.queue.size → tq.queue.map j ≠ t := fun j hj he => ht ((h.items.mem t).mpr ⟨j, hj, he⟩)
  have hordered : Ordered (heapCmp (update tq.timeout t (timespecAddNsec now (tq.expires t * 1000))) · · = true)
      tq.queue.map tq.queue.size :=
    h.ordered.congr_lt fun i j hi hj => by simp only [heapCmp, hother _ (hin i hi), hother _ (hin j hj)]
  rcases insert_spec (heapCmp (update tq.timeout t (timespecAddNsec now (tq.expires t * 1000)))) h.items ht hsize
    true with ⟨-, -, hmem⟩ | ⟨q, hrun, hitems, hsize', hord, -⟩
  · cases hmem
  · refine ⟨⟨q, update tq.timeout t (timespecAddNsec now (tq.expires t * 1000)), tq.expires⟩, ?_,
      ⟨hitems, hord hordered, fun u hu => ?_⟩, rfl, hsize', hother, ?_⟩
    · simp only [timerEnqueue, hmul, hrun, bind_eq_bind, bind_some, pure_def, if_true]
    · by_cases hut : u = t
      · simp only [hut, update_self]
        exact hnormal
      · simp only [hother u hut]
        exact h.normal u (hu.resolve_left hut)
    · simp only [update_self]
      exact hns

theorem schedule_put {S' : Set ι} (h : Good tq S) (h' : Good tq' S') (hS' : S' = insert t S)
    (htime : ∀ u, u ≠ t → tq'.timeout u = tq.timeout u) :
    schedule tq' = update (schedule tq) t (some (ns (tq'.timeout t))) := by
  funext u
  by_cases hu : u = t
  · rw [hu, update_self, h'.schedule_some (by simp [hS'])]
  · rw [update_of_ne hu]
    exact schedule_congr h h' (by simp [hS', hu]) (htime u hu)

inductive Call (ι : Type) where
  | init (t : ι)
  | setExpires (t : ι) (e : ℤ)
  | add (t : ι) (now : Timespec)
  | mod (t : ι) (e : ℕ) (now : Timespec)
  | del (t : ι)
  | handle

inductive Ret (ι : Type) where
  | void
  | int (r : ℤ)
  | fired (t : Option ι)
  deriving DecidableEq

def run (tq : Queue ι) : Call ι → Option (Queue ι × Ret ι)
  | .init t => some (timerInit tq t, .void)
  | .setExpires t e => some (tq.setExpires t e, .void)
  | .add t now => (timerAdd tq t now true).map fun x => (x.1, .int x.2)
  | .mod t e now => (timerMod tq t e now true).map fun x => (x.1, .int x.2)
  | .del t => (timerDel tq t).map fun tq => (tq, .void)
  | .handle => (timerHandleTimeout tq).map fun x => (x.1, .fired x.2.2)

def Ok (tq : Queue ι) : Call ι → Prop
  | .init t => timerScheduled tq t = false
  | .setExpires _ _ => True
  | .add t now => timerScheduled tq t = false ∧ Normal now ∧ 0 ≤ tq.expires t ∧ tq.expires t * 1000 < 2 ^ 63 ∧
      tq.queue.size + 1 < 2 ^ 31
  | .mod t e now => Normal now ∧ e * 1000 < 2 ^ 63 ∧ tq.queue.size + 1 < 2 ^ 31 ∧
      if timerScheduled tq t then Removable tq t else tq.expires t = e
  | .del t => if timerScheduled tq t then Removable tq t else tq.queue.size ≤ tq.queue.index t
  | .handle => True

def Effect (tq : Queue ι) (c : Call ι) (tq' : Queue ι) (r : Ret ι) : Prop :=
  match c with
  | .init _ => schedule tq' = schedule tq
  | .setExpires _ _ => schedule tq' = schedule tq
  | .add t now => r = .int 1 ∧ schedule tq' = update (schedule tq) t (some (ns now + tq.expires t * 1000)) ∧
      ∀ u, u ≠ t → tq'.timeout u = tq.timeout u
  | .mod t e now => r = .int 1 ∧ schedule tq' = update (schedule tq) t (some (ns now + e * 1000)) ∧
      ∀ u, u ≠ t → tq'.timeout u = tq.timeout u
  | .del t => schedule tq' = update (schedule tq) t none ∧ tq'.timeout = tq.timeout
  | .handle => tq'.timeout = tq.timeout ∧ ((r = .fired none ∧ tq' = tq ∧ ∀ t, schedule tq t = none) ∨
      ∃ t τ, r = .fired (some t) ∧ schedule tq t = some τ ∧ (∀ u υ, schedule tq u = some υ → τ ≤ υ) ∧
        schedule tq' = update (schedule tq) t none)

theorem init_spec (h : Good tq S) (ht : t ∉ S) : Good (timerInit tq t) S ∧ schedule (timerInit tq t) = schedule tq := by
  have hother : ∀ u, u ∈ S → update tq.timeout t ⟨0, 0⟩ u = tq.timeout u := by
    intro u hu
    refine update_of_ne ?_ _ _
    rintro rfl
    exact ht hu
  have hin : ∀ j, j < tq.queue.size → tq.queue.map j ∈ S := fun j hj => (h.items.mem _).mpr ⟨j, hj, rfl⟩
  have hgood : Good (timerInit tq t) S := by
    refine ⟨⟨h.items.distinct, h.items.mem, fun u => ?_, h.items.room, h.items.small⟩, ?_, fun u hu => ?_⟩
    · simp only [timerInit, update_apply]
      by_cases hu : u = t
      · simp [hu, ht]
      · rw [if_neg hu]
        exact h.items.active u
    · refine h.ordered.congr_lt fun i j hi hj => ?_
      simp only [heapCmp, timerInit, hother _ (hin i hi), hother _ (hin j hj)]
    · simp only [timerInit, hother u hu]
      exact h.normal u hu
  refine ⟨hgood, ?_⟩
  funext u
  by_cases hu : u ∈ S
  · exact schedule_congr h hgood Iff.rfl (hother u hu)
  · rw [h.schedule_none hu, hgood.schedule_none hu]

theorem Good.front (h : Good tq S) (hpos : 0 < tq.queue.size) :
    heapFront tq.queue ∈ S ∧ ∀ u ∈ S, ns (tq.timeout (heapFront tq.queue)) ≤ ns (tq.timeout u) := by
  obtain ⟨hmem, hleast⟩ := front_least (heapCmp tq.timeout) h.items h.ordered hpos
  refine ⟨hmem, fun u hu => ?_⟩
  have hnot := hleast u hu
  rw [heapCmp, eq_false_iff, ne_eq, timespecLt_iff (h.normal u hu) (h.normal _ hmem)] at hnot
  omega

/-- The front has no parent that the last timer could be less than. -/
theorem Good.handle (h : Good tq S) (hpos : 0 < tq.queue.size) :
    ∃ q, timerHandleTimeout tq = some ({ tq with queue := q }, 0, some (heapFront tq.queue)) ∧
      Good ({ tq with queue := q } : Queue ι) (S \ {heapFront tq.queue}) ∧ q.size = tq.queue.size - 1 := by
  obtain ⟨q, hrun, hitems, hsize, hord, -⟩ := remove_spec (heapCmp tq.timeout) h.items hpos
  refine ⟨q, ?_, ⟨hitems, hord h.ordered fun h0 => absurd h0 (lt_irrefl 0), fun u hu => h.normal u hu.1⟩, hsize⟩
  rw [timerHandleTimeout, if_neg (by simpa [heapEmpty] using hpos.ne'), hrun]
  rfl

theorem handle_spec (h : Good tq S) :
    ∃ tq' ret r S', timerHandleTimeout tq = some (tq', ret, r) ∧ Good tq' S' ∧ Effect tq .handle tq' (.fired r) := by
  by_cases hempty : tq.queue.size = 0
  · refine ⟨tq, -1, none, S, ?_, h, rfl, .inl ⟨rfl, rfl, fun t => h.schedule_none fun ht => ?_⟩⟩
    · simp [timerHandleTimeout, heapEmpty, hempty]
    · obtain ⟨i, hi, -⟩ := (h.items.mem t).mp ht
      omega
  · have hpos : 0 < tq.queue.size := pos_of_ne_zero hempty
    obtain ⟨q, hrun, hgood, -⟩ := h.handle hpos
    obtain ⟨hmem, hleast⟩ := h.front hpos
    refine ⟨_, 0, _, _, hrun, hgood, rfl,
      .inr ⟨heapFront tq.queue, _, rfl, h.schedule_some hmem, fun u υ hu => ?_, schedule_del h hgood rfl rfl⟩⟩
    by_cases hus : u ∈ S
    · cases (h.schedule_some hus).symm.trans hu
      exact hleast u hus
    · rw [h.schedule_none hus] at hu
      cases hu

theorem add_spec (h : Good tq S) (hok : Ok tq (.add t now)) :
    ∃ tq' S', timerAdd tq t now true = some (tq', 1) ∧ Good tq' S' ∧ Effect tq (.add t now) tq' (.int 1) := by
  obtain ⟨hs, hnow, he, hlong, hsize⟩ := hok
  have ht : t ∉ S := fun hmem => by
    rw [(h.scheduled t).mpr hmem] at hs
    cases hs
  have hns : ¬ timerScheduled tq t = true := by rw [hs]; exact false_ne_true
  obtain ⟨tq', hrun, hgood', -, -, htime', htime⟩ := enqueue_spec h ht hnow he hlong hsize
  refine ⟨tq', _, ?_, hgood', rfl, ?_, htime'⟩
  · rw [timerAdd, if_neg hns, timerMod, if_neg hns, hrun]
  · rw [schedule_put h hgood' rfl htime', htime]

theorem mod_spec (h : Good tq S) {e : ℕ} (hok : Ok tq (.mod t e now)) :
    ∃ tq' S', timerMod tq t e now true = some (tq', 1) ∧ Good tq' S' ∧ Effect tq (.mod t e now) tq' (.int 1) := by
  obtain ⟨hnow, hlong, hsize, hok⟩ := hok
  by_cases hs : timerScheduled tq t = true
  · rw [if_pos hs] at hok
    have ht : t ∈ S := (h.scheduled t).mp hs
    obtain ⟨tq₁, hdel, hgood₁, htime₁, -, hsize₁⟩ := del_spec h hok
    have hconv : toLong e = e := by
      have hmod : e % 2 ^ 64 = e := Nat.mod_eq_of_lt (by omega)
      rw [toLong, hmod, if_pos (by omega)]
    have hgood₂ := hgood₁.setExpires t (toLong e)
    have hexp : (tq₁.setExpires t (toLong e)).expires t = e := by rw [← hconv]; exact update_self ..
    obtain ⟨tq', hrun, hgood', -, -, htime', hns⟩ := enqueue_spec hgood₂ (fun hmem => hmem.2 rfl) hnow
      (by rw [hexp]; omega) (by rw [hexp]; omega) (show tq₁.queue.size + 1 < 2 ^ 31 by omega)
    refine ⟨tq', _, ?_, hgood', rfl, ?_, fun u hu => (htime' u hu).trans (congrFun htime₁ u)⟩
    · rw [timerMod, if_pos hs, hdel]
      exact hrun
    · have hput := schedule_put hgood₂ hgood' rfl htime'
      rw [hput, hns, hexp, schedule_setExpires, schedule_del h hgood₁ rfl htime₁, update_idem]
  · rw [if_neg hs] at hok
    have ht : t ∉ S := fun hmem => hs ((h.scheduled t).mpr hmem)
    obtain ⟨tq', hrun, hgood', -, -, htime', hns⟩ :=
      enqueue_spec h ht hnow (by rw [hok]; omega) (by rw [hok]; omega) hsize
    refine ⟨tq', _, ?_, hgood', rfl, ?_, htime'⟩
    · rw [timerMod, if_neg hs, hrun]
    · rw [schedule_put h hgood' rfl htime', hns, hok]

theorem call_spec (h : Good tq S) {c : Call ι} (hok : Ok tq c) :
    ∃ tq' r S', run tq c = some (tq', r) ∧ Good tq' S' ∧ Effect tq c tq' r := by
  cases c with
  | init t =>
    have ht : t ∉ S := fun hmem => by
      rw [Ok, (h.scheduled t).mpr hmem] at hok
      cases hok
    obtain ⟨hgood, hsched⟩ := init_spec h ht
    exact ⟨_, .void, S, rfl, hgood, hsched⟩
  | setExpires t e => exact ⟨_, .void, S, rfl, h.setExpires t e, schedule_setExpires tq t e⟩
  | add t now =>
    obtain ⟨tq', S', hrun, hgood', heffect⟩ := add_spec h hok
    exact ⟨tq', .int 1, S', by rw [run, hrun]; rfl, hgood', heffect⟩
  | mod t e now =>
    obtain ⟨tq', S', hrun, hgood', heffect⟩ := mod_spec h hok
    exact ⟨tq', .int 1, S', by rw [run, hrun]; rfl, hgood', heffect⟩
  | del t =>
    by_cases hs : timerScheduled tq t = true
    · rw [Ok, if_pos hs] at hok
      obtain ⟨tq', hrun, hgood', htime, -⟩ := del_spec h hok
      exact ⟨tq', .void, _, by rw [run, hrun]; rfl, hgood', schedule_del h hgood' rfl htime, htime⟩
    · rw [Ok, if_neg hs] at hok
      refine ⟨tq, .void, S, ?_, h, ?_, rfl⟩
      · rw [run, timerDel, heapRemove, if_pos hok]
        rfl
      · rw [eq_comm, update_eq_self_iff, h.schedule_none fun hmem => hs ((h.scheduled t).mpr hmem)]
  | handle =>
    obtain ⟨tq', ret, r, S', hrun, hgood', heffect⟩ := handle_spec h
    exact ⟨tq', .fired r, S', by rw [run, hrun]; rfl, hgood', heffect⟩

inductive Reachable : Queue ι → Prop where
  | init (map : ℕ → ι) (index : ι → ℕ) (timeout : ι → Timespec) (expires : ι → ℤ) :
      Reachable (timerQueueInit map index timeout expires)
  | step {tq tq' r} (c : Call ι) : Reachable tq → Ok tq c → run tq c = some (tq', r) → Reachable tq'

theorem reachable_good (hr : Reachable tq) : ∃ S, Good tq S := by
  induction hr with
  | init map index timeout expires => exact ⟨∅, good_init map index timeout expires⟩
  | step c _ hok hrun ih =>
    obtain ⟨S, hgood⟩ := ih
    obtain ⟨tq', r, S', hrun', hgood', -⟩ := call_spec hgood hok
    cases hrun.symm.trans hrun'
    exact ⟨S', hgood'⟩

/-- In every run of calls that find their timers in place, a scheduled timer is in the queue exactly once, and the
next call does to the schedule what it is to do, and nothing to other timers. -/
theorem timer_calls_exact (hr : Reachable tq) :
    (∀ t, timerScheduled tq t = true ↔ ∃! i, i < tq.queue.size ∧ tq.queue.map i = t) ∧
      ∀ c, Ok tq c → ∃ tq' r, run tq c = some (tq', r) ∧ Effect tq c tq' r := by
  obtain ⟨S, hgood⟩ := reachable_good hr
  refine ⟨fun t => ⟨hgood.once, ?_⟩, fun c hok => ?_⟩
  · rintro ⟨i, hi, -⟩
    exact (hgood.scheduled t).mpr ((hgood.items.mem t).mpr ⟨i, hi⟩)
  · obtain ⟨tq', r, -, hrun, -, heffect⟩ := call_spec hgood hok
    exact ⟨tq', r, hrun, heffect⟩

namespace Sample

def empty : Queue ℕ := timerQueueInit (fun _ => 0) (fun _ => 0) (fun _ => ⟨0, 0⟩) (fun _ => 0)

def at5 : Timespec := ⟨5, 0⟩

def after (tq : Queue ℕ) (c : Call ℕ) : Queue ℕ := ((run tq c).map Prod.fst).getD tq

def both : Queue ℕ := [Call.setExpires 1 1000000, .add 1 at5, .setExpires 2 2000000, .add 2 at5].foldl after empty

theorem both_reachable : Reachable both := by
  have hone : Reachable ([Call.setExpires 1 1000000, .add 1 at5].foldl after empty) :=
    .step (.add 1 at5) (.step (.setExpires 1 1000000) (.init _ _ _ _) trivial rfl)
      ⟨rfl, ⟨by decide, by decide⟩, by decide, by decide, by decide⟩ rfl
  exact .step (.add 2 at5) (.step (.setExpires 2 2000000) hone trivial rfl)
    ⟨rfl, ⟨by decide, by decide⟩, by decide, by decide, by decide⟩ rfl

end Sample

open Sample in
theorem timer_calls_exact_both : schedule both 2 = some (ns ⟨7, 0⟩) ∧
    ∃ tq' r, run both (.del 1) = some (tq', r) ∧ Effect both (.del 1) tq' r := by
  refine ⟨by decide, (timer_calls_exact both_reachable).2 (.del 1) ?_⟩
  rw [Ok, if_pos (by decide)]
  exact ⟨by unfold Located; decide, by unfold Fits; decide⟩

open Sample in
/-- A timer that is not scheduled gets the time it had; deleting one that is not scheduled removes the first in the
queue; and after one of two timers has fired, the other is not found. -/
theorem other_timers_affected : ((run empty (.mod 1 3000000 at5)).map fun x => schedule x.1 1) = some (some (ns at5)) ∧
      (schedule both 3 = none ∧ schedule (after both (.del 3)) 1 = none) ∧
      (run both .handle).map Prod.snd = some (.fired (some 1)) ∧
      schedule (after (after both .handle) (.del 2)) 2 = some (ns ⟨7, 0⟩) := by
  decide

/-! ## The next timeout -/

def timespecSub (t₁ t₂ : Timespec) : Timespec := timespecNormalize ⟨t₁.tvSec - t₂.tvSec, t₁.tvNsec - t₂.tvNsec⟩

theorem ns_sub {t₁ t₂ : Timespec} (h₁ : Normal t₁) (h₂ : Normal t₂) :
    Normal (timespecSub t₁ t₂) ∧ ns (timespecSub t₁ t₂) = ns t₁ - ns t₂ := by
  simp only [Normal, NSEC_PER_SEC] at h₁ h₂
  have hnormal := @ns_normalize ⟨t₁.tvSec - t₂.tvSec, t₁.tvNsec - t₂.tvNsec⟩
    (by dsimp only [NSEC_PER_SEC]; omega) (by dsimp only [NSEC_PER_SEC]; omega)
  refine ⟨hnormal.1, hnormal.2.trans ?_⟩
  simp only [ns, NSEC_PER_SEC]
  omega

/-- The sum is computed as a `long` and stored as an `unsigned long`. -/
def timerNextTimeout (tq : Queue ι) (now : Timespec) : Option (ℤ × Option ℕ) :=
  if heapEmpty tq.queue then some (0, none)
  else do
    let later := timespecSub (tq.timeout (heapFront tq.queue)) now
    let usec ← longMul later.tvSec 1000000
    let usec ← longMul (usec + later.tvNsec.tdiv 1000) 1
    return (1, some (usec % 2 ^ 64).toNat)

def timerNextTimeoutTimespec (tq : Queue ι) (now : Timespec) : ℤ × Option Timespec :=
  if heapEmpty tq.queue then (0, none)
  else
    let timeout := timespecSub (tq.timeout (heapFront tq.queue)) now
    (1, some (if timeout.tvSec < 0 then ⟨0, 0⟩ else timeout))

theorem timespec_reports (h : Good tq S) (hnow : Normal now) (hpos : 0 < tq.queue.size) :
    ∃ ts, timerNextTimeoutTimespec tq now = (1, some ts) ∧ Normal ts ∧
      ns ts = max 0 (ns (tq.timeout (heapFront tq.queue)) - ns now) := by
  obtain ⟨hnormal, hns⟩ := ns_sub (h.normal _ (h.front hpos).1) hnow
  have hempty : ¬heapEmpty tq.queue = true := by simpa [heapEmpty] using Nat.pos_iff_ne_zero.mp hpos
  refine ⟨_, if_neg hempty, ?_⟩
  rw [← hns]
  generalize timespecSub (tq.timeout (heapFront tq.queue)) now = later at hnormal
  simp only [Normal, ns, NSEC_PER_SEC] at *
  by_cases hpassed : later.tvSec < 0
  · rw [if_pos hpassed]
    dsimp only
    omega
  · rw [if_neg hpassed]
    omega

theorem usec_reports_iff (h : Good tq S) (hnow : Normal now) (hpos : 0 < tq.queue.size) :
    (∃ v : ℕ, timerNextTimeout tq now = some (1, some v) ∧
        (v : ℤ) = max 0 (ns (tq.timeout (heapFront tq.queue)) - ns now) / 1000) ↔
      ns now ≤ ns (tq.timeout (heapFront tq.queue)) ∧
        ns (tq.timeout (heapFront tq.queue)) - ns now < 1000 * 2 ^ 63 := by
  obtain ⟨hnormal, hns⟩ := ns_sub (h.normal _ (h.front hpos).1) hnow
  have hempty : ¬heapEmpty tq.queue = true := by simpa [heapEmpty] using Nat.pos_iff_ne_zero.mp hpos
  rw [timerNextTimeout, if_neg hempty, ← sub_nonneg, ← hns]
  simp only
  generalize timespecSub (tq.timeout (heapFront tq.queue)) now = later at hnormal ⊢
  rw [Int.tdiv_eq_ediv_of_nonneg hnormal.1]
  simp only [Normal, ns, NSEC_PER_SEC] at hnormal ⊢
  constructor
  · rintro ⟨v, hrun, hv⟩
    simp only [longMul, bind_eq_bind, bind_eq_some_iff, ite_none_right_eq_some, some_inj] at hrun
    obtain ⟨-, ⟨hsec, rfl⟩, -, ⟨hsum, rfl⟩, hret⟩ := hrun
    -- a negative sum is a large number in the `unsigned long`
    cases hret
    omega
  · rintro ⟨hbefore, hfits⟩
    have hsec : longMul later.tvSec 1000000 = some (later.tvSec * 1000000) := if_pos (by omega)
    have hsum : longMul (later.tvSec * 1000000 + later.tvNsec / 1000) 1 =
        some ((later.tvSec * 1000000 + later.tvNsec / 1000) * 1) := if_pos (by omega)
    rw [hsec, bind_eq_bind, bind_some, hsum]
    exact ⟨_, rfl, by omega⟩

def Fires (tq : Queue ι) (t : ι) (tq' : Queue ι) : Prop := timerHandleTimeout tq = some (tq', 0, some t)

theorem Good.fires (h : Good tq S) :
    ∃ ts tq', Run Fires tq ts tq' ∧ tq'.queue.size = 0 ∧ ts.Nodup ∧ (∀ t, t ∈ ts ↔ t ∈ S) ∧
      ts.Pairwise fun t u => ns (tq.timeout t) ≤ ns (tq.timeout u) := by
  induction hn : tq.queue.size generalizing tq S with
  | zero => exact ⟨[], tq, .nil, hn, .nil, fun t => by simp [h.items.mem, hn], .nil⟩
  | succ n ih =>
    have hpos : 0 < tq.queue.size := by omega
    obtain ⟨hfront, hleast⟩ := h.front hpos
    obtain ⟨q, hfires, hgood, hsize⟩ := h.handle hpos
    obtain ⟨ts, tq', hruns, hempty, hnodup, hmem, hsorted⟩ := ih hgood (by simp only [hsize]; omega)
    refine ⟨heapFront tq.queue :: ts, tq', .cons hfires hruns, hempty, ?_, fun t => ?_, ?_⟩
    · exact List.nodup_cons.mpr ⟨fun ht => ((hmem _).mp ht).2 rfl, hnodup⟩
    · by_cases ht : t = heapFront tq.queue
      · exact iff_of_true (ht ▸ List.mem_cons_self) (ht ▸ hfront)
      · simp [hmem, ht]
    · exact List.pairwise_cons.mpr ⟨fun u hu => hleast u ((hmem u).mp hu).1, hsorted⟩

end TimerQueue
