import Serval.SockTables

/-! # The established table

In every run of calls the slots of the established table hold the sockets that were hashed by their
flow identifier and not unhashed since, and a lookup finds them.
-/
namespace SockEstablished

open SockTables List Option ByteMemory Function World
open SalBuild (SalState)
open SalSocket (FlowId)

variable {w w' : World} {i j : SockPtr} {s : ServalSock} {f : ServalSock → ServalSock}

/-! ## Changes to one socket -/

@[simp] theorem edit_self (h : w.socks i = some s) : (w.edit i f).socks i = some (f s) := by
  simp [edit, h]

theorem edit_none (h : w.socks i = none) : w.edit i f = w := by
  rw [edit, h, map_none, ← h, update_eq_self]

theorem edit_other (h : j ≠ i) : (w.edit i f).socks j = w.socks j := by
  simp [edit, h]

@[simp] theorem edit_slots : (w.edit i f).slots = w.slots := rfl
@[simp] theorem edit_table : (w.edit i f).table = w.table := rfl
@[simp] theorem edit_history : (w.edit i f).history = w.history := rfl

theorem edit_cases {t : ServalSock} (h : (w.edit i f).socks j = some t) :
    j = i ∧ (∃ s, w.socks i = some s ∧ t = f s) ∨ j ≠ i ∧ w.socks j = some t := by
  by_cases hj : j = i
  · subst hj
    have hmap : (w.socks j).map f = some t := by simpa [edit] using h
    obtain ⟨s, hs, rfl⟩ := map_eq_some_iff.mp hmap
    exact .inl ⟨rfl, s, hs, rfl⟩
  · rw [edit_other hj] at h
    exact .inr ⟨hj, h⟩

/-! ## The invariant -/

/-- Hashed by its flow identifier in REQUEST or RESPOND, and not unhashed since. -/
def flowHashed : List TableEvent → SockPtr → Bool
  | [], _ => false
  | .flow j state :: rest, i => i = j && (state = .request || state = .respond) || flowHashed rest i
  | .unhash j :: rest, i => i ≠ j && flowHashed rest i
  | _ :: rest, i => flowHashed rest i

def unlinks (k : ℕ) : List TableEvent → ℕ
  | [] => 0
  | .unlink _ k' :: rest => (if k' = k then 1 else 0) + unlinks k rest
  | _ :: rest => unlinks k rest

def findable : SalState → Bool
  | .init | .listen | .closed => false
  | _ => true

structure LinkedSock (s : ServalSock) : Prop where
  state : findable s.skState = true
  key : s.hashKey = .flowid
  keyLen : s.hashKeyLen = 4
  hash : s.skHash = servalHashfn (bytes32 s.localFlowid) 4

def slotOf (s : ServalSock) : Option ℕ := if s.linked then some s.skHash else none

/-- The slot that a socket is linked in. -/
def place (w : World) (i : SockPtr) : Option ℕ := (w.socks i).bind slotOf

structure LinkedOk (w : World) : Prop where
  mem : ∀ k i, i ∈ (w.slots k).head ↔ place w i = some k
  nodup : ∀ k, (w.slots k).head.Nodup
  sock : ∀ i s, w.socks i = some s → s.linked = true → LinkedSock s
  flow : ∀ i, flowHashed w.history i = (place w i).isSome
  count : ∀ k, (w.slots k).count = (w.slots k).head.length + unlinks k w.history

theorem linkedOk_init : LinkedOk init where
  mem k i := by simp [init, place]
  nodup k := .nil
  sock i s h := by simp [init] at h
  flow i := rfl
  count k := rfl

theorem isSome_slotOf (s : ServalSock) : (slotOf s).isSome = s.linked := by
  rw [slotOf]
  cases s.linked <;> rfl

theorem place_eq_some {k : ℕ} : place w i = some k ↔ ∃ s, w.socks i = some s ∧ s.linked = true ∧ s.skHash = k := by
  simp [place, slotOf, bind_eq_some_iff]

theorem place_eq_none (hs : w.socks i = some s) (hno : s.linked = false) : place w i = none := by
  simp [place, slotOf, hs, hno]

theorem place_edit : place (w.edit i f) = update (place w) i ((w.socks i).bind fun s => slotOf (f s)) := by
  funext j
  by_cases hj : j = i
  · subst hj
    cases hs : w.socks j <;> simp [place, edit, hs]
  · rw [place, edit_other hj, update_of_ne hj, place]

theorem LinkedOk.not_linked (h : LinkedOk w) (hs : w.socks i = some s)
    (hno : findable s.skState = false ∨ s.hashKeyLen ≠ 4) : s.linked = false := by
  by_contra hlinked
  have hsock := h.sock i s hs (by simpa using hlinked)
  rcases hno with hstate | hlen
  · simp [hsock.state] at hstate
  · exact hlen hsock.keyLen

theorem LinkedOk.edit (h : LinkedOk w) (hslot : ∀ s, w.socks i = some s → slotOf (f s) = slotOf s)
    (hsock : ∀ s, w.socks i = some s → s.linked = true → LinkedSock s → LinkedSock (f s)) : LinkedOk (w.edit i f) := by
  have hplace : place (w.edit i f) = place w := by
    rw [place_edit, update_eq_self_iff, place]
    cases hs : w.socks i with
    | none => rfl
    | some s => exact hslot s hs
  refine ⟨fun k j => hplace ▸ h.mem k j, h.nodup, fun j t ht hl => ?_, fun j => hplace ▸ h.flow j, h.count⟩
  rcases edit_cases ht with ⟨rfl, s, hs, rfl⟩ | ⟨-, ht⟩
  · rw [← isSome_slotOf, hslot s hs, isSome_slotOf] at hl
    exact hsock s hs hl (h.sock _ s hs hl)
  · exact h.sock j t ht hl

/-! ## Hashing and unhashing -/

inductive HashCases (w : World) (i : SockPtr) (s : ServalSock) (mem : ℕ) (w' : World) : Prop where
  | kept : s.skState = .closed ∨ 0 < s.hashKeyLen → w' = w → HashCases w i s mem w'
  | flow : s.hashKeyLen = 0 → s.skState = .request ∨ s.skState = .respond → w' = servalTableHash w i s →
      HashCases w i s mem w'
  | service (table err) : s.hashKeyLen = 0 → s.skState ≠ .closed → s.skState ≠ .request → s.skState ≠ .respond →
      ServiceTable.serviceAdd w.table (some s.localSrvid.toList) s.prefixBits .demux s.srvidFlags
        LOCAL_SERVICE_DEFAULT_PRIORITY LOCAL_SERVICE_DEFAULT_WEIGHT none 0 (makeSockTarget i s) mem =
        some (table, err) →
      w' = serviceAdded w i s table err → HashCases w i s mem w'

theorem hash_cases {mem : ℕ} (h : servalSockHash w i mem = some w') :
    ∃ s, w.socks i = some s ∧ HashCases w i s mem w' := by
  obtain ⟨s, hs, h⟩ := bind_eq_some_iff.mp h
  refine ⟨s, hs, ?_⟩
  split at h
  next hkept => exact .kept hkept (some.inj h).symm
  next hkept =>
    rw [not_or, Nat.not_lt, Nat.le_zero] at hkept
    split at h
    next hflow => exact .flow hkept.2 hflow (some.inj h).symm
    next hservice =>
      rw [not_or] at hservice
      obtain ⟨⟨table, err⟩, hadd, h⟩ := bind_eq_some_iff.mp h
      exact .service table err hkept.2 hkept.1 hservice.1 hservice.2 hadd (some.inj h).symm

inductive UnhashCases (w : World) (i : SockPtr) (s : ServalSock) (w' : World) : Prop where
  | unhashed : s.hashKeyLen = 0 → w' = w.log (.unhash i) → UnhashCases w i s w'
  | service (table stats) : s.hashKeyLen ≠ 0 → s.skState = .listen ∨ s.skState = .init →
      ServiceTable.serviceTableDelTarget w.table s.localSrvid.toList s.prefixBits .demux none 0 = some (table, stats) →
      w' = serviceDeleted (w.log (.unhash i)) i table → UnhashCases w i s w'
  | linked : s.linked = true → w' = hlistDelInit (w.log (.unhash i)) i s → UnhashCases w i s w'
  | unlinked : s.linked = false → s.skState ≠ .listen → s.skState ≠ .init → w' = w.log (.unhash i) →
      UnhashCases w i s w'

theorem unhash_cases (h : servalSockUnhash w i = some w') : ∃ s, w.socks i = some s ∧ UnhashCases w i s w' := by
  obtain ⟨s, hs, h⟩ := bind_eq_some_iff.mp h
  refine ⟨s, hs, ?_⟩
  simp only at h
  split at h
  next hlen => exact .unhashed hlen (some.inj h).symm
  next hlen =>
    split at h
    next hstate =>
      obtain ⟨⟨table, stats⟩, hdel, h⟩ := bind_eq_some_iff.mp h
      exact .service table stats hlen hstate hdel (some.inj h).symm
    next hstate =>
      rw [not_or] at hstate
      split at h
      next hlinked => exact .linked hlinked (some.inj h).symm
      next hlinked => exact .unlinked (by simpa using hlinked) hstate.1 hstate.2 (some.inj h).symm

theorem LinkedOk.logUnhash (h : LinkedOk w) (hs : w.socks i = some s) (hno : s.linked = false) :
    LinkedOk (w.log (.unhash i)) := by
  refine ⟨h.mem, h.nodup, h.sock, fun j => ?_, h.count⟩
  change (decide (j ≠ i) && flowHashed w.history j) = (place w j).isSome
  rw [h.flow]
  by_cases hj : j = i
  · simp [hj, place_eq_none hs hno]
  · simp [hj]

theorem LinkedOk.unlink (h : LinkedOk w) (hs : w.socks i = some s) (hlinked : s.linked = true) :
    LinkedOk (hlistDelInit (w.log (.unhash i)) i s) := by
  have hi : place w i = some s.skHash := place_eq_some.mpr ⟨s, hs, hlinked, rfl⟩
  have hplace : place (hlistDelInit (w.log (.unhash i)) i s) = update (place w) i none := by
    refine place_edit.trans ?_
    simp only [setSlot, log, hs, bind_some]
    rfl
  have hhead : ∀ k j, j ∈ ((hlistDelInit (w.log (.unhash i)) i s).slots k).head ↔ j ≠ i ∧ j ∈ (w.slots k).head := by
    intro k j
    by_cases hk : k = s.skHash
    · subst hk
      simp [hlistDelInit, setSlot, log, (h.nodup _).mem_erase_iff]
    · simp only [hlistDelInit, setSlot, log, edit_slots, update_of_ne hk]
      refine ⟨fun hj => ⟨?_, hj⟩, And.right⟩
      rintro rfl
      exact hk (some.inj (((h.mem k j).mp hj).symm.trans hi))
  refine ⟨fun k j => ?_, fun k => ?_, fun j t ht hl => ?_, fun j => ?_, fun k => ?_⟩
  · rw [hhead, h.mem, hplace]
    by_cases hj : j = i
    · simp [hj]
    · simp [hj]
  · by_cases hk : k = s.skHash
    · subst hk
      simpa [hlistDelInit, setSlot, log] using (h.nodup _).erase i
    · simpa [hlistDelInit, setSlot, log, update_of_ne hk] using h.nodup k
  · rcases edit_cases ht with ⟨-, s', -, rfl⟩ | ⟨-, ht⟩
    · simp at hl
    · exact h.sock j t ht hl
  · change (decide (j ≠ i) && flowHashed w.history j) = _
    rw [h.flow, hplace]
    by_cases hj : j = i
    · simp [hj]
    · simp [hj]
  · have hcount := h.count k
    by_cases hk : k = s.skHash
    · subst hk
      have hmem := (h.mem _ i).mpr hi
      have hlength := length_erase_of_mem hmem
      have hpos := length_pos_of_mem hmem
      simp only [hlistDelInit, setSlot, log, edit_slots, edit_history, update_self, unlinks,
        if_true]
      omega
    · simpa [hlistDelInit, setSlot, log, update_of_ne hk, unlinks, Ne.symm hk] using hcount

theorem LinkedOk.unhash (h : LinkedOk w) (hrun : servalSockUnhash w i = some w') :
    LinkedOk w' ∧ ∃ s', w'.socks i = some s' ∧ s'.linked = false := by
  obtain ⟨s, hs, hcases⟩ := unhash_cases hrun
  cases hcases with
  | unhashed hlen hw =>
    have hno := h.not_linked hs (.inr (by omega))
    exact hw ▸ ⟨h.logUnhash hs hno, s, hs, hno⟩
  | service table stats hlen hstate hdel hw =>
    have hno := h.not_linked hs (.inl (by rcases hstate with hs | hs <;> rw [hs] <;> rfl))
    have hlog := h.logUnhash hs hno
    have htable : LinkedOk { w.log (.unhash i) with table := table } :=
      ⟨hlog.mem, hlog.nodup, hlog.sock, hlog.flow, hlog.count⟩
    refine hw ▸ ⟨htable.edit (fun _ _ => rfl) fun t ht hl => ?_, _, edit_self hs, hno⟩
    cases hs.symm.trans ht
    simp [hno] at hl
  | linked hlinked hw => exact hw ▸ ⟨h.unlink hs hlinked, _, edit_self hs, rfl⟩
  | unlinked hno _ _ hw => exact hw ▸ ⟨h.logUnhash hs hno, s, hs, hno⟩

theorem LinkedOk.link (h : LinkedOk w) (hs : w.socks i = some s) (hno : s.linked = false)
    (hstate : s.skState = .request ∨ s.skState = .respond) : LinkedOk (servalTableHash w i s) := by
  set k₀ := servalHashfn (bytes32 s.localFlowid) 4 with hk₀
  have hplace : place (servalTableHash w i s) = update (place w) i (some k₀) := by
    refine place_edit.trans ?_
    simp only [setSlot, hs, bind_some]
    rfl
  have hnone : place w i = none := place_eq_none hs hno
  have hhead : ∀ k, ((servalTableHash w i s).slots k).head =
      if k = k₀ then i :: (w.slots k).head else (w.slots k).head := by
    intro k
    by_cases hk : k = k₀
    · subst hk
      simp [servalTableHash, setSlot, log, ← hk₀]
    · simp [servalTableHash, setSlot, log, ← hk₀, hk]
  refine ⟨fun k j => ?_, fun k => ?_, fun j t ht hl => ?_, fun j => ?_, fun k => ?_⟩
  · rw [hhead, hplace]
    by_cases hj : j = i
    · subst hj
      by_cases hk : k = k₀
      · simp [hk]
      · simp [hk, Ne.symm hk, h.mem, hnone]
    · rw [update_of_ne hj, ← h.mem]
      split
      · simp [hj]
      · rfl
  · rw [hhead]
    split
    · exact nodup_cons.mpr ⟨by simp [h.mem, hnone], h.nodup k⟩
    · exact h.nodup k
  · rcases edit_cases ht with ⟨rfl, s', hs', rfl⟩ | ⟨-, ht⟩
    · cases hs.symm.trans hs'
      have hfind : findable s.skState = true := by rcases hstate with hs | hs <;> rw [hs] <;> rfl
      exact ⟨hfind, rfl, rfl, rfl⟩
    · exact h.sock j t ht hl
  · have hstates : (decide (s.skState = .request) || decide (s.skState = .respond)) = true := by simpa using hstate
    change (decide (j = i) && (decide (s.skState = .request) || decide (s.skState = .respond)) ||
      flowHashed w.history j) = _
    rw [hstates, Bool.and_true, h.flow, hplace]
    by_cases hj : j = i
    · simp [hj]
    · simp [hj]
  · have hcount := h.count k
    have hhistory : unlinks k (servalTableHash w i s).history = unlinks k w.history := rfl
    rw [hhead, hhistory]
    by_cases hk : k = k₀
    · subst hk
      have hslot : ((servalTableHash w i s).slots k₀).count = (w.slots k₀).count + 1 := by
        simp [servalTableHash, setSlot, log, ← hk₀]
      rw [hslot, if_pos rfl, length_cons]
      omega
    · have hslot : ((servalTableHash w i s).slots k).count = (w.slots k).count := by
        simp [servalTableHash, setSlot, log, ← hk₀, hk]
      rw [hslot, if_neg hk]
      exact hcount

theorem LinkedOk.hash {mem : ℕ} (h : LinkedOk w) (hrun : servalSockHash w i mem = some w') : LinkedOk w' := by
  obtain ⟨s, hs, hcases⟩ := hash_cases hrun
  cases hcases with
  | kept _ hw => exact hw ▸ h
  | flow hlen hstate hw =>
    exact hw ▸ h.link hs (h.not_linked hs (.inr (by omega))) hstate
  | service table err hlen _ _ _ _ hw =>
    have hno := h.not_linked hs (.inr (by omega))
    have htable : LinkedOk { w with table := table } := ⟨h.mem, h.nodup, h.sock, h.flow, h.count⟩
    have hedit : LinkedOk ({ w with table := table }.edit i fun s => { s with
        hashKey := .srvid
        hashKeyLen := s.prefixBits
        flags := if err < 0 then s.flags else servalSockSetFlag s.flags SSK_FLAG_HASHED }) := by
      refine htable.edit (fun _ _ => rfl) fun t ht hl => ?_
      cases hs.symm.trans ht
      simp [hno] at hl
    exact hw ▸ ⟨hedit.mem, hedit.nodup, hedit.sock, hedit.flow, hedit.count⟩

structure SamePlace (s t : ServalSock) : Prop where
  linked : t.linked = s.linked
  hash : t.skHash = s.skHash
  key : t.hashKey = s.hashKey
  keyLen : t.hashKeyLen = s.hashKeyLen
  flow : t.localFlowid = s.localFlowid
  state : t.skState = s.skState

theorem LinkedOk.editFields (h : LinkedOk w) (hsame : ∀ s, SamePlace s (f s)) : LinkedOk (w.edit i f) := by
  refine h.edit (fun s _ => by rw [slotOf, slotOf, (hsame s).linked, (hsame s).hash]) fun s _ _ hs => ?_
  exact ⟨(hsame s).state ▸ hs.state, (hsame s).key.trans hs.key, (hsame s).keyLen.trans hs.keyLen,
    by rw [(hsame s).hash, (hsame s).flow]; exact hs.hash⟩

/-- A socket changes its state. It leaves the table with CLOSED, and is not in it when it listens. -/
theorem LinkedOk.setState {newState : SalState} (h : LinkedOk w)
    (hstate : ∀ s, w.socks i = some s → s.linked = true → newState = .closed ∨ findable newState = true)
    (hrun : servalSockSetState w i newState = some w') : LinkedOk w' := by
  obtain ⟨w₁, hw₁, hrun⟩ := bind_eq_some_iff.mp hrun
  cases hrun
  split at hw₁
  next hclosed =>
    obtain ⟨hok, s, hs, hno⟩ := h.unhash hw₁
    refine hok.edit (fun _ _ => rfl) fun t ht hl => ?_
    cases hs.symm.trans ht
    simp [hno] at hl
  next hopen =>
    cases hw₁
    refine h.edit (fun _ _ => rfl) fun s hs hl hsock => ?_
    exact ⟨(hstate s hs hl).resolve_left hopen, hsock.key, hsock.keyLen, hsock.hash⟩

theorem LinkedOk.create (h : LinkedOk w) (hnone : w.socks i = none) (hno : s.linked = false) :
    LinkedOk { w with socks := Function.update w.socks i (some s) } := by
  have hplace : place { w with socks := Function.update w.socks i (some s) } = place w := by
    funext j
    by_cases hj : j = i
    · subst hj
      simp [place, slotOf, hnone, hno]
    · simp [place, hj]
  refine ⟨fun k j => hplace ▸ h.mem k j, h.nodup, fun j t ht hl => ?_, fun j => hplace ▸ h.flow j, h.count⟩
  by_cases hj : j = i
  · subst hj
    simp only [update_self, some.injEq] at ht
    simp [← ht, hno] at hl
  · simp only [update_of_ne hj] at ht
    exact h.sock j t ht hl

/-! ## Lookup -/

def Established (w : World) (flowid : FlowId) (i : SockPtr) : Prop :=
  ∃ k s, i ∈ (w.slots k).head ∧ w.socks i = some s ∧ s.localFlowid = flowid

theorem LinkedSock.matches_iff (h : LinkedSock s) (flowid : FlowId) :
    s.keyBytes.take (bytes32 flowid).length = bytes32 flowid ↔ s.localFlowid = flowid := by
  have hkey : s.keyBytes = bytes32 s.localFlowid := by rw [ServalSock.keyBytes, h.key]
  rw [hkey, ByteMemory.length_bytes32, take_of_length_le (by simp)]
  constructor
  · intro heq
    simpa using congrArg ByteMemory.word32 heq
  · exact congrArg bytes32

theorem LinkedOk.lookup_some (h : LinkedOk w) {flowid : FlowId} (hfind : servalSockLookupFlow w flowid = some i) :
    Established w flowid i := by
  have hmem := mem_of_find?_eq_some hfind
  have htest := find?_some hfind
  obtain ⟨s, hs, hl, -⟩ := place_eq_some.mp ((h.mem _ i).mp hmem)
  simp only [hs, beq_iff_eq] at htest
  exact ⟨_, s, hmem, hs, ((h.sock i s hs hl).matches_iff flowid).mp htest⟩

theorem LinkedOk.lookup_iff (h : LinkedOk w) (flowid : FlowId) :
    servalSockLookupFlow w flowid ≠ none ↔ ∃ i, Established w flowid i := by
  constructor
  · intro hfind
    obtain ⟨i, hi⟩ := ne_none_iff_exists'.mp hfind
    exact ⟨i, h.lookup_some hi⟩
  · rintro ⟨i, k, s, hmem, hs, rfl⟩ hnone
    obtain ⟨s', hs', hl, hk⟩ := place_eq_some.mp ((h.mem k i).mp hmem)
    cases hs.symm.trans hs'
    -- the socket is in the slot that is searched
    have hsock := h.sock i s hs hl
    have hslot : k = servalHashfn (bytes32 s.localFlowid) (bytes32 s.localFlowid).length := hk.symm.trans hsock.hash
    have htest := find?_eq_none.mp hnone i (hslot ▸ hmem)
    simp only [hs, beq_iff_eq] at htest
    exact htest ((hsock.matches_iff _).mpr rfl)

end SockEstablished
