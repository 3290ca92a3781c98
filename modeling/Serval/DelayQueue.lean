import Serval.CtrlChannel

/-! # The queue of delayed packets

`delay_queue.c`: packets wait for the verdict of a user-level process. Every call holds the lock of the queue, so it is
one step.
-/
namespace DelayQueue

open List CtrlChannel
open Function

structure Queue extends CtrlChannel.DelayQueue where
  queueId : UInt32
  queueMaxlen : UInt32

def DELAY_QUEUE_MAX_DEFAULT : UInt32 := 1024

def initial : Queue := ⟨⟨0, [], 0, 0⟩, 0, DELAY_QUEUE_MAX_DEFAULT⟩

def ENOMEM : ℤ := 12
def ENOSPC : ℤ := 28
def EHOSTUNREACH : ℤ := 113
def EBUSY : ℤ := 16

structure Effect where
  ret : ℤ
  freed : List ℕ := []
  out : List Output := []
  notified : List (UInt32 × List UInt8) := []

/-- `alloc` is whether there is memory for the entry, `sendmsg` the result of the notification. The number of the
entry is used up also where the packet is not queued. -/
def delayQueueSkb (q : Queue) (skb : ℕ) (sk : Option ℕ) (srvid : List UInt8) (alloc : Bool) (sendmsg : ℤ) :
    Queue × Effect :=
  if !alloc then (q, { ret := -ENOMEM, freed := [skb] })
  else
    let de : DelayEntry := ⟨q.queueId, skb, sk⟩
    let q := { q with queueId := q.queueId + 1 }
    if q.queueMaxlen ≤ q.queueTotal then
      ({ q with queueDropped := q.queueDropped + 1 }, { ret := -ENOSPC, freed := [skb] })
    else if sendmsg ≠ 0 then
      ({ q with queueDropped := q.queueDropped + 1 }, { ret := -EHOSTUNREACH, freed := [skb] })
    else
      ({ q with queue := q.queue ++ [de], queueTotal := q.queueTotal + 1 }, { ret := 0, notified := [(de.id, srvid)] })

def delayQueueSetVerdict (dead : ℕ → Bool) (q : Queue) (pktId verdict : UInt32) (pid : ℤ) : Queue × Effect :=
  if q.peerPid ≠ 0 ∧ q.peerPid ≠ pid then (q, { ret := -EBUSY })
  else
    let q := { q with peerPid := pid }
    match q.queue.find? (·.id == pktId) with
    | none => (q, { ret := 0 })
    | some entry =>
      let q := { q with queue := q.queue.eraseP (·.id == pktId), queueTotal := q.queueTotal - 1 }
      if verdict = DELAY_DROP then ({ q with queueDropped := q.queueDropped + 1 }, { ret := 0, freed := [entry.skb] })
      else if verdict = DELAY_RELEASE then
        match entry.sk with
        | some sk =>
          if dead sk then ({ q with queueDropped := q.queueDropped + 1 }, { ret := 0, freed := [entry.skb] })
          else (q, { ret := 1, out := [.xmit entry.skb] })
        | none => (q, { ret := 1, out := [.reresolve entry.skb] })
      else (q, { ret := 0 })

/-- On the control channel only the queue itself and what is sent are seen. -/
theorem setVerdict_channel (dead : ℕ → Bool) (q : Queue) (pktId verdict : UInt32) (pid : ℤ) :
    CtrlChannel.delayQueueSetVerdict dead q.toDelayQueue pktId verdict pid =
      ((delayQueueSetVerdict dead q pktId verdict pid).1.toDelayQueue,
        (delayQueueSetVerdict dead q pktId verdict pid).2.out) := by
  rw [CtrlChannel.delayQueueSetVerdict, delayQueueSetVerdict]
  simp only
  split
  · rfl
  · cases q.queue.find? (·.id == pktId) with
    | none => rfl
    | some entry =>
      obtain ⟨id, skb, sk⟩ := entry
      cases sk <;> simp only <;> split_ifs <;> rfl

def purges (sk : Option ℕ) (entry : DelayEntry) : Bool := sk.isNone || entry.sk == sk

def purgeLoop (sk : Option ℕ) : List DelayEntry → Queue → Queue × List ℕ
  | [], q => ({ q with queue := [] }, [])
  | entry :: rest, q =>
    if purges sk entry then
      let (q, freed) := purgeLoop sk rest
        { q with queueTotal := q.queueTotal - 1, queueDropped := q.queueDropped + 1 }
      (q, entry.skb :: freed)
    else
      let (q, freed) := purgeLoop sk rest q
      ({ q with queue := entry :: q.queue }, freed)

def delayQueuePurgeSock (q : Queue) (sk : Option ℕ) : Queue × Effect :=
  let (q, freed) := purgeLoop sk q.queue q
  (q, { ret := 0, freed := freed })

/-! ## What a call can do -/

section Cases

variable (q : Queue) (skb : ℕ) (sk : Option ℕ) (srvid : List UInt8) (alloc : Bool) (sendmsg : ℤ)

theorem skb_cases :
    (alloc = false ∧ delayQueueSkb q skb sk srvid alloc sendmsg = (q, { ret := -ENOMEM, freed := [skb] })) ∨
    (alloc = true ∧ (q.queueMaxlen ≤ q.queueTotal ∨ sendmsg ≠ 0) ∧
      ∃ ret, ret < 0 ∧ delayQueueSkb q skb sk srvid alloc sendmsg =
      ({ q with queueId := q.queueId + 1, queueDropped := q.queueDropped + 1 }, { ret := ret, freed := [skb] })) ∨
    (alloc = true ∧ q.queueTotal < q.queueMaxlen ∧ sendmsg = 0 ∧ delayQueueSkb q skb sk srvid alloc sendmsg = ({ q with
          queueId := q.queueId + 1
          queue := q.queue ++ [⟨q.queueId, skb, sk⟩]
          queueTotal := q.queueTotal + 1 }, { ret := 0, notified := [(q.queueId, srvid)] })) := by
  rw [delayQueueSkb]
  cases alloc with
  | false => exact .inl ⟨rfl, rfl⟩
  | true =>
    simp only [Bool.not_true, Bool.false_eq_true, ↓reduceIte]
    by_cases hroom : q.queueMaxlen ≤ q.queueTotal
    · rw [if_pos hroom]
      exact .inr (.inl ⟨trivial, .inl hroom, -ENOSPC, by decide, rfl⟩)
    · rw [if_neg hroom]
      by_cases hsent : sendmsg ≠ 0
      · rw [if_pos hsent]
        exact .inr (.inl ⟨trivial, .inr hsent, -EHOSTUNREACH, by decide, rfl⟩)
      · rw [if_neg hsent]
        exact .inr (.inr ⟨trivial, UInt32.not_le.mp hroom, not_not.mp hsent, rfl⟩)

def packetOf : Output → Option ℕ
  | .xmit skb | .reresolve skb => some skb
  | .reply _ => none

theorem find_split {p : DelayEntry → Bool} {queue : List DelayEntry} {entry : DelayEntry}
    (h : queue.find? p = some entry) : ∃ l r, queue = l ++ entry :: r ∧ queue.eraseP p = l ++ r := by
  obtain ⟨hp, l, r, rfl, hl⟩ := find?_eq_some_iff_append.mp h
  have hnone : ∀ x ∈ l, ¬p x = true := fun x hx => by simpa using hl x hx
  refine ⟨l, r, rfl, ?_⟩
  rw [eraseP_append_right _ hnone, eraseP_cons_of_pos hp]

def accepts (q : Queue) (pid : ℤ) : Prop := q.peerPid = 0 ∨ q.peerPid = pid

def known (verdict : UInt32) : Prop := verdict = DELAY_RELEASE ∨ verdict = DELAY_DROP

/-- A verdict is refused; or there is no entry of its number; or it takes the first one from the queue and frees its
packet, or hands it on, or, where it is none of the enumeration, does nothing with it. -/
theorem verdict_cases (dead : ℕ → Bool) (pktId verdict : UInt32) (pid : ℤ) :
    (¬accepts q pid ∧ delayQueueSetVerdict dead q pktId verdict pid = (q, { ret := -EBUSY })) ∨
    (accepts q pid ∧ q.queue.find? (·.id == pktId) = none ∧
      delayQueueSetVerdict dead q pktId verdict pid = ({ q with peerPid := pid }, { ret := 0 })) ∨
    (accepts q pid ∧ ∃ entry l r, q.queue.find? (·.id == pktId) = some entry ∧ q.queue = l ++ entry :: r ∧
      q.queue.eraseP (·.id == pktId) = l ++ r ∧
      ((known verdict ∧ delayQueueSetVerdict dead q pktId verdict pid = ({ q with
              peerPid := pid
              queue := l ++ r
              queueTotal := q.queueTotal - 1
              queueDropped := q.queueDropped + 1 }, { ret := 0, freed := [entry.skb] })) ∨
        (∃ out, known verdict ∧ packetOf out = some entry.skb ∧ delayQueueSetVerdict dead q pktId verdict pid =
          ({ q with peerPid := pid, queue := l ++ r, queueTotal := q.queueTotal - 1 }, { ret := 1, out := [out] })) ∨
        (¬known verdict ∧ delayQueueSetVerdict dead q pktId verdict pid =
          ({ q with peerPid := pid, queue := l ++ r, queueTotal := q.queueTotal - 1 }, { ret := 0 })))) := by
  have haccepts : accepts q pid ↔ ¬(q.peerPid ≠ 0 ∧ q.peerPid ≠ pid) := by
    rw [accepts, not_and_or, not_not, not_not]
  rw [haccepts, delayQueueSetVerdict]
  by_cases hpeer : q.peerPid ≠ 0 ∧ q.peerPid ≠ pid
  · exact .inl ⟨not_not.mpr hpeer, if_pos hpeer⟩
  · rw [if_neg hpeer]
    refine .inr ?_
    cases hfind : q.queue.find? (·.id == pktId) with
    | none => exact .inl ⟨hpeer, rfl, by simp only [hfind]⟩
    | some entry =>
      obtain ⟨l, r, hsplit, herase⟩ := find_split hfind
      refine .inr ⟨hpeer, entry, l, r, rfl, hsplit, herase, ?_⟩
      simp only [hfind, herase]
      by_cases hdrop : verdict = DELAY_DROP
      · exact .inl ⟨.inr hdrop, if_pos hdrop⟩
      · rw [if_neg hdrop]
        by_cases hrelease : verdict = DELAY_RELEASE
        · rw [if_pos hrelease]
          cases hsk : entry.sk with
          | none => exact .inr (.inl ⟨.reresolve entry.skb, .inl hrelease, rfl, rfl⟩)
          | some sk =>
            cases hdead : dead sk with
            | true => exact .inl ⟨.inl hrelease, if_pos hdead⟩
            | false => exact .inr (.inl ⟨.xmit entry.skb, .inl hrelease, rfl, if_neg (by rw [hdead]; decide)⟩)
        · exact .inr (.inr ⟨not_or.mpr ⟨hrelease, hdrop⟩, if_neg hrelease⟩)

theorem purgeLoop_eq (entries : List DelayEntry) (q : Queue) : purgeLoop sk entries q = ({ q with
          queue := entries.filter (!purges sk ·)
          queueTotal := q.queueTotal - .ofNat (entries.filter (purges sk)).length
          queueDropped := q.queueDropped + .ofNat (entries.filter (purges sk)).length },
        (entries.filter (purges sk)).map (·.skb)) := by
  induction entries generalizing q with
  | nil => simp [purgeLoop]
  | cons entry rest ih =>
    by_cases hgone : purges sk entry = true
    · have htotal (n : UInt32) : q.queueTotal - 1 - n = q.queueTotal - (n + 1) := by grind
      have hdropped (n : UInt32) : q.queueDropped + 1 + n = q.queueDropped + (n + 1) := by grind
      simp [purgeLoop, hgone, ih, htotal, hdropped]
    · simp [purgeLoop, hgone, ih]

theorem purge_eq : delayQueuePurgeSock q sk = ({ q with
          queue := q.queue.filter (!purges sk ·)
          queueTotal := q.queueTotal - .ofNat (q.queue.filter (purges sk)).length
          queueDropped := q.queueDropped + .ofNat (q.queue.filter (purges sk)).length },
        { ret := 0, freed := (q.queue.filter (purges sk)).map (·.skb) }) := by
  rw [delayQueuePurgeSock, purgeLoop_eq]

end Cases

/-! ## The books of a run -/

instance (q : Queue) (pid : ℤ) : Decidable (accepts q pid) :=
  inferInstanceAs (Decidable (_ ∨ _))

instance (verdict : UInt32) : Decidable (known verdict) :=
  inferInstanceAs (Decidable (_ ∨ _))

inductive Call where
  | skb (skb : ℕ) (sk : Option ℕ) (srvid : List UInt8) (alloc : Bool) (sendmsg : ℤ)
  | verdict (dead : ℕ → Bool) (pktId verdict : UInt32) (pid : ℤ)
  | purge (sk : Option ℕ)

/-- The queue, and the books beside it: the numbers given out; the entries that wait, each with how many had been
given out before its own; the packets passed to the queue, handed on, freed, and taken by an unknown verdict; and the
refusals. -/
structure Books where
  queue : Queue
  ids : ℕ
  waiting : List (DelayEntry × ℕ)
  passed : List ℕ
  handed : List ℕ
  freed : List ℕ
  lost : List ℕ
  uncounted : ℕ

def start : Books := ⟨initial, 0, [], [], [], [], [], 0⟩

def Books.enter (b : Books) (call : Queue × Effect) : Books :=
  { b with
    queue := call.1
    handed := b.handed ++ call.2.out.filterMap packetOf
    freed := b.freed ++ call.2.freed }

def step (b : Books) : Call → Books
  | .skb skb sk srvid alloc sendmsg =>
    let call := delayQueueSkb b.queue skb sk srvid alloc sendmsg
    { b.enter call with
      ids := b.ids + alloc.toNat
      waiting := b.waiting ++ (if call.2.ret = 0 then [(⟨b.queue.queueId, skb, sk⟩, b.ids)] else [])
      passed := b.passed ++ [skb]
      uncounted := b.uncounted + (!alloc).toNat }
  | .verdict dead pktId verdict pid =>
    { b.enter (delayQueueSetVerdict dead b.queue pktId verdict pid) with
      waiting := if accepts b.queue pid then b.waiting.eraseP (·.1.id == pktId) else b.waiting
      lost := b.lost ++ (if accepts b.queue pid ∧ ¬known verdict
        then (b.queue.queue.find? (·.id == pktId)).toList.map (·.skb) else []) }
  | .purge sk =>
    { b.enter (delayQueuePurgeSock b.queue sk) with waiting := b.waiting.filter (!purges sk ·.1) }

def run (b : Books) (calls : List Call) : Books := calls.foldl step b

def Call.packet : Call → Option ℕ
  | .skb packet .. => some packet
  | _ => none

def Call.Known : Call → Prop
  | .verdict _ _ v _ => known v
  | _ => True

def Call.Allocated : Call → Prop
  | .skb _ _ _ alloc _ => alloc = true
  | _ => True

def Young (b : Books) : Prop := ∀ x ∈ b.waiting, b.ids ≤ x.2 + 2 ^ 32

structure Inv (b : Books) : Prop where
  entries : b.queue.queue = b.waiting.map (·.1)
  total : b.queue.queueTotal.toNat = b.waiting.length
  room : b.waiting.length ≤ b.queue.queueMaxlen.toNat
  next : b.queue.queueId = .ofNat b.ids
  number : ∀ x ∈ b.waiting, x.1.id = .ofNat x.2
  order : b.waiting.Pairwise (·.2 < ·.2)
  given : ∀ x ∈ b.waiting, x.2 < b.ids
  places : b.passed.Perm (b.queue.queue.map (·.skb) ++ b.handed ++ b.freed ++ b.lost)
  counted : b.queue.queueDropped + .ofNat b.uncounted = .ofNat b.freed.length

theorem start_inv : Inv start where
  entries := rfl
  total := rfl
  room := Nat.zero_le _
  next := rfl
  number := fun _ h => nomatch h
  order := .nil
  given := fun _ h => nomatch h
  places := .nil
  counted := rfl

section Step

variable {b : Books}

theorem refuse_inv (h : Inv b) (skb ids uncounted : ℕ) (dropped : UInt32)
    (hcounted : dropped + .ofNat (b.uncounted + uncounted) = b.queue.queueDropped + .ofNat b.uncounted + 1) :
    Inv { b with
      queue := { b.queue with queueId := b.queue.queueId + .ofNat ids, queueDropped := dropped }
      ids := b.ids + ids
      passed := b.passed ++ [skb]
      freed := b.freed ++ [skb]
      uncounted := b.uncounted + uncounted } where
  entries := h.entries
  total := h.total
  room := h.room
  next := by simp [h.next]
  number := h.number
  order := h.order
  given := fun x hx => Nat.lt_add_right ids (h.given x hx)
  places := by
    refine perm_iff_count.mpr fun x => ?_
    have hall := h.places.count_eq x
    simp only [count_append] at hall ⊢
    omega
  counted := by
    rw [hcounted, h.counted, length_append, UInt32.ofNat_add]
    rfl

theorem queue_inv (h : Inv b) (skb : ℕ) (sk : Option ℕ) (hroom : b.queue.queueTotal < b.queue.queueMaxlen) :
    Inv { b with
      queue := { b.queue with
        queueId := b.queue.queueId + 1
        queue := b.queue.queue ++ [⟨b.queue.queueId, skb, sk⟩]
        queueTotal := b.queue.queueTotal + 1 }
      ids := b.ids + 1
      waiting := b.waiting ++ [(⟨b.queue.queueId, skb, sk⟩, b.ids)]
      passed := b.passed ++ [skb] } := by
  have hlt : b.waiting.length < b.queue.queueMaxlen.toNat := h.total ▸ UInt32.lt_iff_toNat_lt.mp hroom
  have hmax : b.queue.queueMaxlen.toNat < 2 ^ 32 := UInt32.toNat_lt _
  refine ⟨?_, ?_, ?_, ?_, ?_, ?_, ?_, ?_, h.counted⟩
  · simp [h.entries]
  · rw [UInt32.toNat_add, h.total, length_append]
    exact Nat.mod_eq_of_lt (by simp only [UInt32.toNat_one]; omega)
  · simpa using hlt
  · simp [h.next]
  · simpa [or_imp, forall_and, h.next] using h.number
  · exact pairwise_append.mpr ⟨h.order, pairwise_singleton _ _, fun x hx y hy => by
      rw [mem_singleton.mp hy]
      exact h.given x hx⟩
  · intro x hx
    rcases mem_append.mp hx with hx | hx
    · exact Nat.lt_succ_of_lt (h.given x hx)
    · rw [mem_singleton.mp hx]
      exact Nat.lt_succ_self _
  · refine perm_iff_count.mpr fun x => ?_
    have hall := h.places.count_eq x
    simp only [map_append, map_cons, map_nil, count_append] at hall ⊢
    omega

theorem leave_inv (h : Inv b) (pid : ℤ) (handed freed lost : List ℕ) {keep : List (DelayEntry × ℕ)} {total : UInt32}
    (hkeep : keep.Sublist b.waiting)
    (hgone : (b.waiting.map (·.1.skb)).Perm (keep.map (·.1.skb) ++ handed ++ freed ++ lost))
    (htotal : total = b.queue.queueTotal - .ofNat (handed.length + freed.length + lost.length)) :
    Inv { b with
      queue := { b.queue with
        peerPid := pid
        queue := keep.map (·.1)
        queueTotal := total
        queueDropped := b.queue.queueDropped + .ofNat freed.length }
      waiting := keep
      handed := b.handed ++ handed
      freed := b.freed ++ freed
      lost := b.lost ++ lost } where
  entries := rfl
  total := by
    have hlength := hgone.length_eq
    simp only [length_append, length_map] at hlength
    have hall : b.queue.queueTotal.toNat = b.waiting.length := h.total
    have hmax : b.queue.queueTotal.toNat < 2 ^ 32 := UInt32.toNat_lt _
    have hsmall : (UInt32.ofNat (handed.length + freed.length + lost.length)).toNat =
        handed.length + freed.length + lost.length :=
      UInt32.toNat_ofNat_of_lt' (by show _ < 2 ^ 32; omega)
    rw [htotal, UInt32.toNat_sub_of_le _ _ (UInt32.le_iff_toNat_le.mpr (by omega)), hsmall, hall]
    show _ = keep.length
    omega
  room := hkeep.length_le.trans h.room
  next := h.next
  number := fun x hx => h.number x (hkeep.subset hx)
  order := h.order.sublist hkeep
  given := fun x hx => h.given x (hkeep.subset hx)
  places := by
    refine perm_iff_count.mpr fun x => ?_
    have hall := h.places.count_eq x
    have hleft := hgone.count_eq x
    simp only [h.entries, map_map, comp_def, count_append] at hall hleft ⊢
    omega
  counted := by
    rw [length_append, UInt32.ofNat_add, ← h.counted]
    grind

theorem verdict_inv (h : Inv b) (dead : ℕ → Bool) (pktId verdict : UInt32) (pid : ℤ) :
    Inv (step b (.verdict dead pktId verdict pid)) := by
  rw [step, Books.enter]
  rcases verdict_cases b.queue dead pktId verdict pid with
    ⟨hpeer, hq⟩ | ⟨hpeer, hnone, hq⟩ | ⟨hpeer, entry, l, r, hfind, hsplit, herase, hq⟩
  · rw [hq, if_neg hpeer, if_neg fun hlost => hpeer hlost.1]
    simpa using h
  · have hkeep : b.waiting.eraseP (·.1.id == pktId) = b.waiting := by
      refine eraseP_of_forall_not fun x hx => ?_
      simpa using find?_eq_none.mp hnone x.1 (h.entries ▸ mem_map_of_mem hx)
    rw [hq, if_pos hpeer, hkeep, hnone]
    simpa [← h.entries] using leave_inv h pid [] [] [] (.refl _) (by simp) rfl
  · have hmap : (b.waiting.eraseP (·.1.id == pktId)).map (·.1) = l ++ r := by
      rw [← herase, h.entries, eraseP_map]
      rfl
    have hgone : (b.waiting.map (·.1.skb)).Perm
        ((b.waiting.eraseP (·.1.id == pktId)).map (·.1.skb) ++ [entry.skb]) := by
      have hwaiting : b.waiting.map (·.1.skb) = b.queue.queue.map (·.skb) := by simp [h.entries]
      have hleft : (b.waiting.eraseP (·.1.id == pktId)).map (·.1.skb) = (l ++ r).map (·.skb) := by
        simp only [← hmap, map_map, comp_def]
      rw [hwaiting, hleft, hsplit, map_append, map_cons, map_append]
      exact perm_middle.trans (perm_append_singleton _ _).symm
    rw [if_pos hpeer, hfind]
    rcases hq with ⟨hknown, hq⟩ | ⟨out, hknown, hout, hq⟩ | ⟨hknown, hq⟩
    · rw [hq, ← hmap, if_neg fun hlost => hlost.2 hknown]
      simpa using leave_inv h pid [] [entry.skb] [] eraseP_sublist (by simpa using hgone) rfl
    · rw [hq, ← hmap, if_neg fun hlost => hlost.2 hknown]
      simpa [hout] using leave_inv h pid [entry.skb] [] [] eraseP_sublist (by simpa using hgone) rfl
    · rw [hq, ← hmap, if_pos ⟨hpeer, hknown⟩]
      simpa using leave_inv h pid [] [] [entry.skb] eraseP_sublist (by simpa using hgone) rfl

theorem purge_inv (h : Inv b) (sk : Option ℕ) : Inv (step b (.purge sk)) := by
  have hmap (p : DelayEntry → Bool) : b.queue.queue.filter p = (b.waiting.filter (p ·.1)).map (·.1) := by
    rw [h.entries, filter_map]
    rfl
  rw [step, Books.enter, purge_eq, hmap]
  have hgone : (b.waiting.map (·.1.skb)).Perm ((b.waiting.filter (!purges sk ·.1)).map (·.1.skb) ++
      (b.queue.queue.filter (purges sk)).map (·.skb)) := by
    rw [hmap, map_map, ← comp_def, ← map_append]
    exact ((filter_append_perm (purges sk ·.1) b.waiting).symm.trans perm_append_comm).map _
  have hinv := leave_inv h b.queue.peerPid [] _ [] filter_sublist (by simpa using hgone) rfl
  rw [length_nil, zero_add, add_zero, length_map] at hinv
  simpa using hinv

theorem skb_inv (h : Inv b) (skb : ℕ) (sk : Option ℕ) (srvid : List UInt8) (alloc : Bool) (sendmsg : ℤ) :
    Inv (step b (.skb skb sk srvid alloc sendmsg)) := by
  rw [step, Books.enter]
  rcases skb_cases b.queue skb sk srvid alloc sendmsg with
    ⟨rfl, hq⟩ | ⟨rfl, -, ret, hret, hq⟩ | ⟨rfl, hroom, -, hq⟩
  · rw [hq]
    simpa [ENOMEM] using refuse_inv h skb 0 1 b.queue.queueDropped (by simp [UInt32.add_assoc])
  · rw [hq]
    simpa [hret.ne] using refuse_inv h skb 1 0 (b.queue.queueDropped + 1) (by simp; grind)
  · rw [hq]
    simpa using queue_inv h skb sk hroom

theorem step_inv (h : Inv b) (call : Call) : Inv (step b call) := by
  cases call with
  | skb skb sk srvid alloc sendmsg => exact skb_inv h skb sk srvid alloc sendmsg
  | verdict dead pktId verdict pid => exact verdict_inv h dead pktId verdict pid
  | purge sk => exact purge_inv h sk

theorem run_inv (h : Inv b) (calls : List Call) : Inv (run b calls) := by
  induction calls generalizing b with
  | nil => exact h
  | cons call rest ih => exact ih (step_inv h call)

variable {calls : List Call} {n : ℕ}

theorem run_passed (calls : List Call) : (run b calls).passed = b.passed ++ calls.filterMap Call.packet := by
  induction calls generalizing b with
  | nil => simp [run]
  | cons call rest ih =>
    have hrest : (run b (call :: rest)).passed = (step b call).passed ++ rest.filterMap Call.packet := ih
    rw [hrest]
    cases call with
    | skb skb => simp [step, Call.packet]
    | verdict | purge => rfl

theorem run_lost (hknown : ∀ call ∈ calls, call.Known) : (run b calls).lost = b.lost := by
  induction calls generalizing b with
  | nil => rfl
  | cons call rest ih =>
    have hrest : (run b (call :: rest)).lost = (step b call).lost :=
      ih fun c hc => hknown c (mem_cons_of_mem call hc)
    rw [hrest]
    have hcall := hknown call mem_cons_self
    cases call with
    | skb skb | purge => rfl
    | verdict dead pktId verdict pid =>
      have hnone : ¬(accepts b.queue pid ∧ ¬known verdict) := fun hlost => hlost.2 hcall
      simp only [step, if_neg hnone, append_nil]

theorem run_uncounted (halloc : ∀ call ∈ calls, call.Allocated) : (run b calls).uncounted = b.uncounted := by
  induction calls generalizing b with
  | nil => rfl
  | cons call rest ih =>
    have hrest : (run b (call :: rest)).uncounted = (step b call).uncounted :=
      ih fun c hc => halloc c (mem_cons_of_mem call hc)
    rw [hrest]
    have hcall := halloc call mem_cons_self
    cases call with
    | skb _ _ _ alloc => simp [step, show alloc = true from hcall]
    | verdict | purge => rfl

/-- Two numbers among the last `2 ^ 32` are the same word only if they are the same. -/
theorem ids_nodup (h : Inv b) (hyoung : Young b) : (b.queue.queue.map (·.id)).Nodup := by
  rw [h.entries, map_map, List.Nodup, pairwise_map]
  refine h.order.imp_of_mem ?_
  intro x y hx hy hlt hid
  rw [Function.comp, Function.comp, h.number x hx, h.number y hy] at hid
  have hmod : x.2 % 2 ^ 32 = y.2 % 2 ^ 32 := by simpa using congrArg UInt32.toNat hid
  have hold := hyoung x hx
  have hnew := h.given y hy
  omega

/-! ## A number is used once -/

def Spent (n : ℕ) (b : Books) : Prop := n < b.ids ∧ ∀ x ∈ b.waiting, x.2 ≠ n

theorem step_spent (h : Spent n b) (call : Call) : Spent n (step b call) := by
  obtain ⟨hlt, hgone⟩ := h
  cases call with
  | skb skb sk srvid alloc sendmsg =>
    refine ⟨hlt.trans_le (Nat.le_add_right _ _), fun x hx => ?_⟩
    rcases mem_append.mp hx with hx | hx
    · exact hgone x hx
    · split at hx
      · rw [mem_singleton.mp hx]
        exact hlt.ne'
      · cases hx
  | verdict dead pktId verdict pid =>
    refine ⟨hlt, fun x hx => ?_⟩
    simp only [step] at hx
    split at hx
    · exact hgone x (mem_of_mem_eraseP hx)
    · exact hgone x hx
  | purge sk => exact ⟨hlt, fun x hx => hgone x (mem_of_mem_filter hx)⟩

theorem run_spent (h : Spent n b) (calls : List Call) : Spent n (run b calls) := by
  induction calls generalizing b with
  | nil => exact h
  | cons call rest ih => exact ih (step_spent h call)

theorem find_spent (h : Inv b) (hyoung : Young b) (hspent : Spent n b) (hids : b.ids ≤ n + 2 ^ 32) :
    b.queue.queue.find? (·.id == .ofNat n) = none := by
  rw [h.entries, find?_eq_none]
  intro entry hentry hid
  obtain ⟨x, hx, rfl⟩ := mem_map.mp hentry
  rw [beq_iff_eq, h.number x hx] at hid
  have hmod : x.2 % 2 ^ 32 = n % 2 ^ 32 := by simpa using congrArg UInt32.toNat hid
  have hne := hspent.2 x hx
  have hlt := hspent.1
  have hold := hyoung x hx
  have hnew := h.given x hx
  omega

theorem find_waiting (h : Inv b) (hyoung : Young b) {x : DelayEntry × ℕ} (hx : x ∈ b.waiting) :
    b.queue.queue.find? (·.id == x.1.id) = some x.1 ∧ ∀ y ∈ b.waiting.eraseP (·.1.id == x.1.id), y.2 ≠ x.2 := by
  have hnodup := ids_nodup h hyoung
  rw [h.entries, map_map] at hnodup
  obtain ⟨l, r, hsplit⟩ := append_of_mem hx
  have hother : ∀ y ∈ l ++ r, y.1.id ≠ x.1.id := by
    rw [hsplit, map_append, map_cons, nodup_middle, nodup_cons, ← map_append] at hnodup
    exact fun y hy hid => hnodup.1 (mem_map.mpr ⟨y, hy, hid⟩)
  have hleft : ∀ y ∈ l, ¬(y.1.id == x.1.id) = true := by
    intro y hy
    simpa using hother y (mem_append_left r hy)
  constructor
  · have hnone : (l.map (·.1)).find? (·.id == x.1.id) = none := by
      rw [find?_eq_none]
      intro entry hentry
      obtain ⟨y, hy, rfl⟩ := mem_map.mp hentry
      exact hleft y hy
    rw [h.entries, hsplit, map_append, find?_append, hnone]
    simp
  · rw [hsplit, eraseP_append_right _ hleft, eraseP_cons_of_pos (by simp)]
    intro y hy hnumber
    apply hother y hy
    have hmem : y ∈ b.waiting := by
      rw [hsplit]
      rcases mem_append.mp hy with hy | hy
      · exact mem_append_left _ hy
      · exact mem_append_right _ (mem_cons_of_mem _ hy)
    rw [h.number y hmem, h.number x hx, hnumber]

/-- A RELEASE verdict hands the packet of the entry on to be sent again, and no verdict for its number hands a packet on
after that, until the number is given out again. -/
def Releases (b : Books) (entry : DelayEntry) (sk : ℕ) : Prop :=
  ∀ dead pid, accepts b.queue pid → dead sk = false →
    (delayQueueSetVerdict dead b.queue entry.id DELAY_RELEASE pid).2 = { ret := 1, out := [.xmit entry.skb] } ∧
    ∃ n, (entry, n) ∈ b.waiting ∧ ∀ calls, Young (run (step b (.verdict dead entry.id DELAY_RELEASE pid)) calls) →
      (run (step b (.verdict dead entry.id DELAY_RELEASE pid)) calls).ids ≤ n + 2 ^ 32 →
      ∀ dead' verdict pid', (delayQueueSetVerdict dead'
        (run (step b (.verdict dead entry.id DELAY_RELEASE pid)) calls).queue entry.id verdict pid').2.out = []

theorem releases_of_mem (h : Inv b) (hyoung : Young b) {entry : DelayEntry} {sk : ℕ} (hentry : entry ∈ b.queue.queue)
    (hsk : entry.sk = some sk) : Releases b entry sk := by
  intro dead pid haccepts hdead
  rw [h.entries] at hentry
  obtain ⟨⟨first, n⟩, hx, hfirst⟩ := mem_map.mp hentry
  obtain rfl : entry = first := hfirst.symm
  obtain ⟨hfind, hleft⟩ := find_waiting h hyoung hx
  have hpeer : ¬(b.queue.peerPid ≠ 0 ∧ b.queue.peerPid ≠ pid) := by
    rwa [not_and_or, not_not, not_not]
  refine ⟨?_, n, hx, fun calls hyoung' hids dead' verdict pid' => ?_⟩
  · rw [delayQueueSetVerdict, if_neg hpeer]
    simp only [hfind, hsk, hdead, ↓reduceIte, Bool.false_eq_true, show DELAY_RELEASE ≠ DELAY_DROP by decide]
  · have hspent : Spent n (step b (.verdict dead entry.id DELAY_RELEASE pid)) := by
      refine ⟨h.given _ hx, ?_⟩
      simp only [step, if_pos haccepts]
      exact hleft
    have hinv := run_inv (step_inv h (.verdict dead entry.id DELAY_RELEASE pid)) calls
    have hnone := find_spent hinv hyoung' (run_spent hspent calls) hids
    rw [← h.number _ hx] at hnone
    rcases verdict_cases (run (step b (.verdict dead entry.id DELAY_RELEASE pid)) calls).queue dead' entry.id verdict
      pid' with ⟨-, hq⟩ | ⟨-, -, hq⟩ | ⟨-, other, l, r, hsome, -⟩
    · rw [hq]
    · rw [hq]
    · rw [hnone] at hsome
      cases hsome

end Step

/-- After any calls, the two counters are right, and the entries that wait have different numbers where none is older
than `2 ^ 32` of them. Every packet that was passed is in one of the three places, where every verdict is one of the
enumeration; and every packet freed is counted where no entry wanted for memory. -/
theorem run_conserves (calls : List Call) (hyoung : Young (run start calls)) :
    (run start calls).queue.queueTotal.toNat = (run start calls).queue.queue.length ∧
    (run start calls).queue.queueTotal ≤ (run start calls).queue.queueMaxlen ∧
    ((run start calls).queue.queue.map (·.id)).Nodup ∧
    ((∀ call ∈ calls, call.Known) → (calls.filterMap Call.packet).Perm
      ((run start calls).queue.queue.map (·.skb) ++ (run start calls).handed ++ (run start calls).freed)) ∧
    ((∀ call ∈ calls, call.Allocated) →
      (run start calls).queue.queueDropped = .ofNat (run start calls).freed.length) := by
  have hinv : Inv (run start calls) := run_inv start_inv calls
  refine ⟨?_, ?_, ids_nodup hinv hyoung, ?_, ?_⟩
  · rw [hinv.total, hinv.entries, length_map]
  · exact UInt32.le_iff_toNat_le.mpr (hinv.total ▸ hinv.room)
  · intro hknown
    have hplaces := hinv.places
    rw [run_passed, run_lost hknown] at hplaces
    simpa [start] using hplaces
  · intro halloc
    have hcounted := hinv.counted
    rw [run_uncounted halloc] at hcounted
    simpa [start] using hcounted

namespace Sample

def calls : List Call :=
  [.skb 10 (some 1) [] true 0, .skb 11 none [] true 0, .skb 12 (some 1) [] true 0,
    .verdict (fun _ => false) 1 DELAY_RELEASE 5, .verdict (fun _ => false) 0 DELAY_DROP 5, .purge (some 1)]

theorem calls_young : Young (run start calls) :=
  fun _ h => nomatch h

end Sample

open Sample in
theorem run_conserves_three :
    [10, 11, 12].Perm ([] ++ [11] ++ [10, 12]) ∧ (run start calls).queue.queueDropped = 2 := by
  obtain ⟨-, -, -, hplaces, hcounted⟩ := run_conserves calls calls_young
  refine ⟨hplaces ?_, hcounted ?_⟩
  · simp [calls, Call.Known, known]
  · simp [calls, Call.Allocated]

/-- A verdict that is none of the enumeration takes the packet from the queue and leaves it nowhere; and a packet that
is refused for want of memory is freed and not counted. -/
theorem run_loses : ((run start [.skb 10 none [] true 0, .verdict (fun _ => false) 0 7 5]).queue.queue = [] ∧
      (run start [.skb 10 none [] true 0, .verdict (fun _ => false) 0 7 5]).handed = [] ∧
      (run start [.skb 10 none [] true 0, .verdict (fun _ => false) 0 7 5]).freed = []) ∧
    ((run start [.skb 10 none [] false 0]).freed = [10] ∧
      (run start [.skb 10 none [] false 0]).queue.queueDropped = 0) :=
  ⟨⟨rfl, rfl, rfl⟩, rfl, rfl⟩

end DelayQueue
