import Serval.TimerQueue
import Mathlib.Data.List.Sort

/-! # The timers of the user-level stack

`userlevel/timer.c`: a list of timers by their absolute time, with a lock. A timer is pending if its link is set. The
outcome is `none` if the call waits for the lock for good, stops in `BUG_ON`, or overwrites a timer in the list.
-/
namespace UserTimer

open TimerQueue List Function

variable {ι : Type} [DecidableEq ι]

structure Timers (ι : Type) where
  startTime : Timespec
  head : List ι
  next : ι → Bool
  expires : ι → ℕ
  expiresAbs : ι → Timespec
  locked : Bool

def HZ : ℤ := 100

def TICKS_PER_HZ : ℤ := 10000000

/-- The readings of the clock within one call coincide. -/
def gettimeJiffies (s : Timers ι) (now : Timespec) : ℤ :=
  let t := timespecSub now s.startTime
  (t.tvSec * HZ + t.tvNsec.tdiv TICKS_PER_HZ) % 2 ^ 64

def jiffiesToNsecs (j : ℤ) : ℤ := j * TICKS_PER_HZ % 2 ^ 64

def listDel (s : Timers ι) (t : ι) : Timers ι :=
  { s with head := s.head.erase t, next := update s.next t false }

/-- The timer goes before the first one that expires later. -/
def listInsert (s : Timers ι) (t : ι) (expires : ℕ) (now : Timespec) : Timers ι :=
  let abs := update s.expiresAbs t
    (timespecAddNsec now (jiffiesToNsecs ((expires - gettimeJiffies s now) % 2 ^ 64)))
  { s with
    head := s.head.orderedInsert (fun a b => timespecLt (abs a) (abs b) = true) t
    next := update s.next t true
    expires := update s.expires t expires
    expiresAbs := abs }

def initTimer (s : Timers ι) (t : ι) : Option (Timers ι) :=
  if s.next t then none
  else some { s with
    expires := update s.expires t 0, expiresAbs := update s.expiresAbs t ⟨0, 0⟩ }

def modTimer (s : Timers ι) (t : ι) (expires : ℕ) (now : Timespec) : Option (Timers ι × ℤ) :=
  if s.locked then none
  else if s.next t ∧ s.expires t = expires then some (s, 1)
  else if s.next t then some (listInsert (listDel s t) t expires now, 1)
  else some (listInsert s t expires now, 0)

def addTimer (s : Timers ι) (t : ι) (now : Timespec) : Option (Timers ι × ℤ) :=
  if s.next t then none else modTimer s t (s.expires t) now

/-- The lock is kept if the timer is not pending. -/
def delTimer (s : Timers ι) (t : ι) : Option (Timers ι × ℤ) :=
  if s.locked then none
  else if s.next t = false then some ({ s with locked := true }, 0)
  else some (listDel s t, 1)

def timerListHandleTimeout (s : Timers ι) : Option (Timers ι × ℤ) :=
  if s.locked then none
  else match s.head with
    | [] => some (s, 0)
    | t :: _ => some (listDel s t, 1)

/-- To add a timer is to set its time first. -/
inductive Call (ι : Type) where
  | init (t : ι)
  | add (t : ι) (expires : ℕ)
  | mod (t : ι) (expires : ℕ)
  | del (t : ι)
  | handleTimeout

def call (s : Timers ι) (now : Timespec) : Call ι → Option (Timers ι × ℤ)
  | .init t => (initTimer s t).map fun s => (s, 0)
  | .add t expires => addTimer { s with expires := update s.expires t expires } t now
  | .mod t expires => modTimer s t expires now
  | .del t => delTimer s t
  | .handleTimeout => timerListHandleTimeout s

def reported (s : Timers ι) : Call ι → ℤ
  | .init _ | .add _ _ => 0
  | .mod t _ | .del t => if s.next t then 1 else 0
  | .handleTimeout => if s.head = [] then 0 else 1

set_option linter.unusedSectionVars false

variable {s : Timers ι} {t : ι} {expires : ℕ} {now clock : Timespec}

/-- The absolute time of a timer belongs to the jiffy in which it expires. -/
structure Sound (s : Timers ι) : Prop where
  start : Normal s.startTime
  sorted : s.head.Pairwise fun a b => ns (s.expiresAbs a) ≤ ns (s.expiresAbs b)
  nodup : s.head.Nodup
  pending : ∀ t, s.next t = true ↔ t ∈ s.head
  normal : ∀ t ∈ s.head, Normal (s.expiresAbs t)
  abs : ∀ t ∈ s.head, s.expires t * TICKS_PER_HZ ≤ ns (s.expiresAbs t) - ns s.startTime ∧
    ns (s.expiresAbs t) - ns s.startTime < (s.expires t + 1) * TICKS_PER_HZ
  unlocked : s.locked = false

/-- The time has not passed yet. -/
def Future (s : Timers ι) (now : Timespec) (expires : ℕ) : Prop :=
  expires < 2 ^ 40 ∧ (ns now - ns s.startTime) / TICKS_PER_HZ ≤ expires

/-- No timer is deleted that is not pending, or set to a time that has passed. -/
def Ok (s : Timers ι) (now : Timespec) : Call ι → Prop
  | .init t => s.next t = false
  | .add t expires => s.next t = false ∧ Future s now expires
  | .mod t expires => (s.next t = true ∧ s.expires t = expires) ∨ Future s now expires
  | .del t => s.next t = true
  | .handleTimeout => True

inductive Reach (ok : Timers ι → Timespec → Call ι → Prop) : Timers ι → Timespec → Prop where
  | start {startTime : Timespec} (expires : ι → ℕ) (expiresAbs : ι → Timespec) : Normal startTime →
      Reach ok ⟨startTime, [], fun _ => false, expires, expiresAbs, false⟩ startTime
  | step {s s' : Timers ι} {clock now : Timespec} {r : ℤ} (c : Call ι) : Reach ok s clock → Normal now →
      ns clock ≤ ns now → ok s now c → call s now c = some (s', r) → Reach ok s' now

theorem pairwise_orderedInsert {r : ι → ι → Prop} [DecidableRel r] {k : ι → ℤ} {l : List ι}
    (hr : ∀ b ∈ l, r t b ↔ k t < k b) (h : l.Pairwise (k · ≤ k ·)) : (l.orderedInsert r t).Pairwise (k · ≤ k ·) := by
  induction l with
  | nil => simp
  | cons b l ih =>
    obtain ⟨hb, hl⟩ := pairwise_cons.mp h
    rw [List.orderedInsert]
    split
    next hlt =>
      have hle : k t ≤ k b := ((hr b mem_cons_self).mp hlt).le
      refine pairwise_cons.mpr ⟨fun c hc => ?_, h⟩
      rcases mem_cons.mp hc with rfl | hc
      · exact hle
      · exact hle.trans (hb c hc)
    next hlt =>
      rw [hr b mem_cons_self, not_lt] at hlt
      refine pairwise_cons.mpr ⟨fun c hc => ?_, ih (fun c hc => hr c (mem_cons_of_mem b hc)) hl⟩
      rcases (mem_orderedInsert ..).mp hc with rfl | hc
      · exact hlt
      · exact hb c hc

theorem Sound.del (h : Sound s) (t : ι) : Sound (listDel s t) := by
  have hsub : ∀ {u}, u ∈ s.head.erase t → u ∈ s.head := fun hu => mem_of_mem_erase hu
  refine ⟨h.start, h.sorted.sublist erase_sublist, h.nodup.erase t, fun u => ?_, fun u hu => h.normal u (hsub hu),
    fun u hu => h.abs u (hsub hu), h.unlocked⟩
  rw [listDel, h.nodup.mem_erase_iff, ← h.pending]
  by_cases hu : u = t
  · simp [hu]
  · simp [hu]

theorem addNsec_abs (hstart : Normal s.startTime) (hnow : Normal now) (hle : ns s.startTime ≤ ns now)
    (hfuture : Future s now expires) :
    let abs := timespecAddNsec now (jiffiesToNsecs ((expires - gettimeJiffies s now) % 2 ^ 64))
    Normal abs ∧ expires * TICKS_PER_HZ ≤ ns abs - ns s.startTime ∧
      ns abs - ns s.startTime < (expires + 1) * TICKS_PER_HZ := by
  obtain ⟨hnormal, hns⟩ := ns_sub hnow hstart
  obtain ⟨hlt, hpassed⟩ := hfuture
  obtain ⟨habs, hsum⟩ := ns_addNsec hnow (n := jiffiesToNsecs ((expires - gettimeJiffies s now) % 2 ^ 64))
    (Int.emod_nonneg _ (by decide))
  refine ⟨habs, ?_⟩
  rw [hsum, jiffiesToNsecs, gettimeJiffies]
  generalize timespecSub now s.startTime = d at hnormal hns
  have htdiv : d.tvNsec.tdiv TICKS_PER_HZ = d.tvNsec / TICKS_PER_HZ := Int.tdiv_eq_ediv_of_nonneg hnormal.1
  simp only [htdiv]
  simp only [TimerQueue.Normal, ns, NSEC_PER_SEC, TICKS_PER_HZ, HZ] at *
  omega

theorem Sound.insert (h : Sound s) (hnow : Normal now) (hle : ns s.startTime ≤ ns now) (hidle : s.next t = false)
    (hfuture : Future s now expires) : Sound (listInsert s t expires now) := by
  obtain ⟨hnormal, hlow, hhigh⟩ := addNsec_abs h.start hnow hle hfuture
  have hnot : t ∉ s.head := fun ht => by simp [(h.pending t).mpr ht] at hidle
  have hne : ∀ {u}, u ∈ s.head → u ≠ t := fun hu he => hnot (he ▸ hu)
  rw [listInsert]
  generalize timespecAddNsec now _ = abs at hnormal hlow hhigh
  have hmem : ∀ {u r} [DecidableRel r], u ∈ s.head.orderedInsert r t → u = t ∨ u ∈ s.head :=
    fun hu => (mem_orderedInsert ..).mp hu
  constructor
  case start => exact h.start
  case sorted =>
    refine pairwise_orderedInsert (fun b hb => timespecLt_iff ?_ ?_) (h.sorted.imp_of_mem fun ha hb hab => ?_)
    · simpa using hnormal
    · simpa [hne hb] using h.normal b hb
    · simpa [hne ha, hne hb] using hab
  case nodup => exact (perm_orderedInsert _ t s.head).nodup_iff.mpr (nodup_cons.mpr ⟨hnot, h.nodup⟩)
  case pending =>
    intro u
    rw [mem_orderedInsert, ← h.pending]
    by_cases hu : u = t
    · simp [hu]
    · simp [hu]
  case normal =>
    intro u hu
    rcases hmem hu with rfl | hu
    · simpa using hnormal
    · simpa [hne hu] using h.normal u hu
  case abs =>
    intro u hu
    rcases hmem hu with rfl | hu
    · simpa using ⟨hlow, hhigh⟩
    · simpa [hne hu] using h.abs u hu
  case unlocked => exact h.unlocked

theorem Sound.idle (h : Sound s) (hidle : s.next t = false) (e : ℕ) (abs : Timespec) :
    Sound { s with expires := update s.expires t e, expiresAbs := update s.expiresAbs t abs } := by
  have hne : ∀ {u}, u ∈ s.head → u ≠ t := fun hu he => by simp [he ▸ (h.pending _).mpr hu] at hidle
  refine ⟨h.start, h.sorted.imp_of_mem fun ha hb hab => ?_, h.nodup, h.pending, fun u hu => ?_, fun u hu =>
    ?_, h.unlocked⟩
  · simpa [hne ha, hne hb] using hab
  · simpa [hne hu] using h.normal u hu
  · simpa [hne hu] using h.abs u hu

theorem call_sound (h : Sound s) (hnow : Normal now) (hle : ns s.startTime ≤ ns now) {c : Call ι} (hok : Ok s now c) :
    ∃ s', call s now c = some (s', reported s c) ∧ Sound s' ∧ s'.startTime = s.startTime := by
  cases c with
  | init t =>
    have hidle : s.next t = false := hok
    exact ⟨_, by simp [call, initTimer, hidle, reported], h.idle hidle 0 ⟨0, 0⟩, rfl⟩
  | add t expires =>
    obtain ⟨hidle, hfuture⟩ := hok
    have hset : Sound { s with expires := update s.expires t expires } := by
      simpa using h.idle hidle expires (s.expiresAbs t)
    exact ⟨_, by simp [call, addTimer, modTimer, hidle, reported, h.unlocked], hset.insert hnow hle hidle hfuture, rfl⟩
  | mod t expires =>
    by_cases hsame : s.next t = true ∧ s.expires t = expires
    · exact ⟨s, by simp [call, modTimer, hsame, reported, h.unlocked], h, rfl⟩
    have hfuture : Future s now expires := hok.resolve_left hsame
    by_cases hpending : s.next t = true
    · have hother : s.expires t ≠ expires := fun he => hsame ⟨hpending, he⟩
      have hidle : (listDel s t).next t = false := by simp [listDel]
      have hsound := (h.del t).insert hnow hle hidle hfuture
      exact ⟨_, by simp [call, modTimer, hpending, hother, reported, h.unlocked], hsound, rfl⟩
    · rw [Bool.not_eq_true] at hpending
      exact ⟨_, by simp [call, modTimer, hpending, reported, h.unlocked], h.insert hnow hle hpending hfuture, rfl⟩
  | del t =>
    have hpending : s.next t = true := hok
    exact ⟨_, by simp [call, delTimer, hpending, reported, h.unlocked], h.del t, rfl⟩
  | handleTimeout =>
    cases hhead : s.head with
    | nil => exact ⟨s, by simp [call, timerListHandleTimeout, hhead, reported, h.unlocked], h, rfl⟩
    | cons t rest =>
      exact ⟨_, by simp [call, timerListHandleTimeout, hhead, reported, h.unlocked], h.del t, rfl⟩

theorem reach_sound (h : Reach Ok s clock) : Sound s ∧ ns s.startTime ≤ ns clock := by
  induction h with
  | start expires expiresAbs hstart => exact ⟨⟨hstart, by simp, by simp, by simp, by simp, by simp, rfl⟩, le_rfl⟩
  | step c _ hnow hclock hok hcall ih =>
    obtain ⟨s', hs', hsound, hstart⟩ := call_sound ih.1 hnow (ih.2.trans hclock) hok
    cases hs'.symm.trans hcall
    rw [hstart]
    exact ⟨hsound, ih.2.trans hclock⟩

/-- Along every such run the list is in order and holds the pending timers once each, and every call has an outcome,
reports whether its timer was pending and releases the lock. -/
theorem timer_calls_sound (h : Reach Ok s clock) : Sound s ∧ ∀ now c, Normal now → ns clock ≤ ns now → Ok s now c →
      ∃ s', call s now c = some (s', reported s c) ∧ Sound s' := by
  obtain ⟨hsound, hstart⟩ := reach_sound h
  refine ⟨hsound, fun now c hnow hclock hok => ?_⟩
  obtain ⟨s', hcall, hs', -⟩ := call_sound hsound hnow (hstart.trans hclock) hok
  exact ⟨s', hcall, hs'⟩

namespace Sample

def idle : Timers Bool := ⟨⟨0, 0⟩, [], fun _ => false, fun _ => 0, fun _ => ⟨0, 0⟩, false⟩

def after (s : Timers Bool) (c : Call Bool) : Timers Bool := ((call s ⟨10, 0⟩ c).getD (s, 0)).1

def two : Timers Bool := after (after idle (.mod true 1005)) (.mod false 1002)

theorem idle_reach : Reach Ok idle ⟨0, 0⟩ := .start _ _ ⟨by decide, by decide⟩

theorem two_reach : Reach Ok two ⟨10, 0⟩ := by
  have hfirst : Reach Ok (after idle (.mod true 1005)) ⟨10, 0⟩ :=
    .step (.mod true 1005) idle_reach ⟨by decide, by decide⟩ (by decide) (.inr ⟨by decide, by decide⟩) rfl
  exact .step (.mod false 1002) hfirst ⟨by decide, by decide⟩ le_rfl (.inr ⟨by decide, by decide⟩) rfl

end Sample

open Sample in
/-- The second timer is put before the first, and then the first is deleted. -/
theorem timer_calls_sound_two : two.head = [false, true] ∧ ∃ s', call two ⟨10, 5⟩ (.del true) = some (s', 1) ∧
    s'.head = [false] ∧ Sound s' := by
  obtain ⟨s', hcall, hsound⟩ := (timer_calls_sound two_reach).2 ⟨10, 5⟩ (.del true) ⟨by decide, by decide⟩
    (by decide) rfl
  refine ⟨by decide, s', hcall, ?_, hsound⟩
  cases hcall
  decide

open Sample in
/-- To delete a timer that is not pending keeps the lock, and every later call waits. A timer set to a time that has
passed expires after centuries. -/
theorem timer_calls_fail : (call idle ⟨10, 0⟩ (.del true)).map (fun x => (x.2, x.1.locked)) = some (0, true) ∧
      (call idle ⟨10, 0⟩ (.del true)).bind (fun x => call x.1 ⟨10, 0⟩ (.mod false 1005)) = none ∧
      (call idle ⟨10, 0⟩ (.mod true 999)).map (fun x => (x.1.head, x.1.expiresAbs true)) =
        some ([true], ⟨18446744083, 699551616⟩) := by
  decide +kernel

end UserTimer
