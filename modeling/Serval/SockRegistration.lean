import Serval.SockCalls
import Serval.SockDirectory

/-! # Sockets in the service table

As long as every `service_add` succeeds, and none is made for a connection, the service table is the
directory of the sockets that wait.
-/
namespace SockRegistration

open BitString ServiceTable SockTables SockEstablished SockMoves SockCalls SockDirectory List Function
open SalSocket (ServiceId)

variable {w w' : World} {i j : SockPtr} {s : ServalSock} {f : ServalSock → ServalSock}
  {D D' : List Bool → Option SockPtr}

/-! ## The invariant -/

def name (s : ServalSock) : List Bool := bitsOf s.localSrvid.toList s.prefixBits

def Good : TableEvent → Prop
  | .add _ srvid state err => err = 1 ∧ (state = .init ∨ state = .listen) ∧ srvid ≠ nullService
  | _ => True

structure Orderly (w : World) : Prop where
  good : ∀ ev ∈ w.history, Good ev
  room : w.history.length < 2 ^ 32 - 1

/-- The service table is the directory of the sockets that are registered. -/
structure Owned (w : World) (D : List Bool → Option SockPtr) : Prop where
  directory : IsDirectory w.table w.history.length D
  owner : ∀ p i, D p = some i ↔ registered w.history i = true ∧ ∃ s, w.socks i = some s ∧ name s = p
  sock : ∀ i s, w.socks i = some s → registered w.history i = true →
    Waits s ∧ 0 < s.hashKeyLen ∧ s.localSrvid ≠ nullService
  keyed : ∀ i s, w.socks i = some s → 0 < s.hashKeyLen → s.linked = true ∨ registered w.history i = true

theorem owned_init : Owned init fun _ => none where
  directory := isDirectory_init
  owner p i := by simp [init, registered]
  sock i s h := by simp [init] at h
  keyed i s h := by simp [init] at h

theorem Orderly.earlier (h : Orderly w') (hhistory : w.history <:+ w'.history) : Orderly w :=
  ⟨fun ev hev => h.good ev (hhistory.subset hev), hhistory.length_le.trans_lt h.room⟩

variable {t : ServalSock} {p : List Bool}

theorem name_eq (h : SameName s t) : name t = name s := by
  rw [name, name, ServalSock.prefixBits, ServalSock.prefixBits, h.srvid, h.bits]

theorem Owned.change (h : Owned w D) (hleaves : ∀ j, j ≠ i → Leaves w w' j)
    (hdir : IsDirectory w'.table w'.history.length D') (hD : ∀ p j, j ≠ i → (D' p = some j ↔ D p = some j))
    (ht : w'.socks i = some t) (howner : ∀ p, D' p = some i ↔ registered w'.history i = true ∧ name t = p)
    (hsock : registered w'.history i = true → Waits t ∧ 0 < t.hashKeyLen ∧ t.localSrvid ≠ nullService)
    (hkeyed : 0 < t.hashKeyLen → t.linked = true ∨ registered w'.history i = true) : Owned w' D' := by
  refine ⟨hdir, fun p j => ?_, fun j u hu hreg => ?_, fun j u hu hlen => ?_⟩
  · by_cases hj : j = i
    · subst hj
      rw [howner p, ht]
      simp
    · rw [hD p j hj, h.owner p j, (hleaves j hj).sock, (hleaves j hj).registered]
  · by_cases hj : j = i
    · subst hj
      cases ht.symm.trans hu
      exact hsock hreg
    · rw [(hleaves j hj).sock] at hu
      rw [(hleaves j hj).registered] at hreg
      exact h.sock j u hu hreg
  · by_cases hj : j = i
    · subst hj
      cases ht.symm.trans hu
      exact hkeyed hlen
    · rw [(hleaves j hj).sock] at hu
      rw [(hleaves j hj).registered]
      exact h.keyed j u hu hlen

theorem Owned.not_owner (h : Owned w D) (hno : registered w.history i = false) (p : List Bool) : D p ≠ some i := by
  intro hD
  simp [((h.owner p i).mp hD).1] at hno

theorem Owned.unregistered (h : Owned w D) (hleaves : ∀ j, j ≠ i → Leaves w w' j)
    (htable : w'.table = w.table) (hlen : w.history.length ≤ w'.history.length)
    (hno : registered w.history i = false) (hno' : registered w'.history i = false) (ht : w'.socks i = some t)
    (hkeyed : 0 < t.hashKeyLen → t.linked = true) : Owned w' D := by
  refine h.change hleaves (htable ▸ h.directory.mono hlen) (fun _ _ _ => Iff.rfl) ht (fun p => ?_)
    (fun hreg => by simp [hno'] at hreg) fun hpos => .inl (hkeyed hpos)
  simp [hno', h.not_owner hno p]

theorem Owned.edit (h : Owned w D) (hplace : ∀ s, (f s).linked = s.linked ∧ (f s).hashKeyLen = s.hashKeyLen)
    (hname : ∀ s, w.socks i = some s → registered w.history i = true → SameName s (f s) ∧ Waits (f s)) :
    Owned (w.edit i f) D := by
  cases hs : w.socks i with
  | none => exact (edit_none hs).symm ▸ h
  | some s =>
  replace hname := hname s hs
  obtain ⟨hlinked, hlen⟩ := hplace s
  refine h.change (fun j hj => ⟨edit_other hj, rfl⟩) h.directory (fun _ _ _ => Iff.rfl) (edit_self hs) (fun p => ?_)
    (fun hreg => ?_) fun hpos => ?_
  · rw [h.owner p i, edit_history, hs]
    constructor
    · rintro ⟨hreg, t, ht, hp⟩
      cases ht
      exact ⟨hreg, (name_eq (hname hreg).1).trans hp⟩
    · rintro ⟨hreg, hp⟩
      exact ⟨hreg, s, rfl, (name_eq (hname hreg).1).symm.trans hp⟩
  · obtain ⟨-, hpos, hnull⟩ := h.sock i s hs hreg
    exact ⟨(hname hreg).2, hlen ▸ hpos, (hname hreg).1.srvid ▸ hnull⟩
  · rw [hlinked]
    exact h.keyed i s hs (hlen ▸ hpos)

/-! ## Moves -/

theorem Owned.linked_unregistered (h : Owned w D) (hok : LinkedOk w) (hs : w.socks i = some s)
    (hlinked : s.linked = true) : registered w.history i = false := by
  by_contra hreg
  obtain ⟨hwaits, -⟩ := h.sock i s hs (by simpa using hreg)
  have hfind := (hok.sock i s hs hlinked).state
  rcases hwaits with hstate | hstate <;> rw [hstate] at hfind <;> cases hfind

theorem Owned.keyless_unregistered (h : Owned w D) (hs : w.socks i = some s) (hlen : s.hashKeyLen = 0) :
    registered w.history i = false := by
  by_contra hreg
  obtain ⟨-, hpos, -⟩ := h.sock i s hs (by simpa using hreg)
  omega

theorem Owned.unhash (h : Owned w D) (hok : LinkedOk w) (hrun : servalSockUnhash w i = some w') :
    ∃ D', Owned w' D' := by
  have hleaves : ∀ j, j ≠ i → Leaves w w' j := fun j hj => unhash_leaves hj hrun
  have hlog : registered (.unhash i :: w.history) i = false := by simp [registered]
  obtain ⟨s, hs, hcases⟩ := unhash_cases hrun
  cases hcases with
  | unhashed hlen hw =>
    subst hw
    exact ⟨D, h.unregistered hleaves rfl (Nat.le_succ _) (h.keyless_unregistered hs hlen) hlog hs
      fun hpos => by omega⟩
  | linked hlinked hw =>
    subst hw
    exact ⟨D, h.unregistered hleaves rfl (Nat.le_add_right _ 2) (h.linked_unregistered hok hs hlinked) hlog
      (edit_self hs) fun hpos => by cases hpos⟩
  | unlinked hno hlisten hinit hw =>
    subst hw
    have hunreg : registered w.history i = false := by
      by_contra hreg
      rcases (h.sock i s hs (by simpa using hreg)).1 with hstate | hstate
      · exact hinit hstate
      · exact hlisten hstate
    refine ⟨D, h.unregistered hleaves rfl (Nat.le_succ _) hunreg hlog hs fun hpos => ?_⟩
    rcases h.keyed i s hs hpos with hlinked | hreg
    · exact hlinked
    · simp [hunreg] at hreg
  | service table stats hlen hstate hdel hw =>
    subst hw
    -- the key is one in the service table
    have hreg : registered w.history i = true := by
      refine (h.keyed i s hs (pos_of_ne_zero hlen)).resolve_left fun hlinked => ?_
      have hfind := (hok.sock i s hs hlinked).state
      rcases hstate with hstate | hstate <;> rw [hstate] at hfind <;> cases hfind
    have hown : D (name s) = some i := (h.owner _ i).mpr ⟨hreg, s, hs, rfl⟩
    have hother : ∀ p j, j ≠ i → (Function.update D (name s) none p = some j ↔ D p = some j) := by
      intro p j hj
      by_cases hp : p = name s
      · subst hp
        simp [hown, Ne.symm hj]
      · rw [update_of_ne hp]
    have hdir : IsDirectory table (w.history.length + 1) (Function.update D (name s) none) :=
      (h.directory.del hown hdel).mono (Nat.le_succ _)
    refine ⟨Function.update D (name s) none, h.change hleaves hdir hother (edit_self hs) (fun p => ?_) (fun hreg => ?_)
      fun hpos => by cases hpos⟩
    · have hself : registered (serviceDeleted (w.log (.unhash i)) i table).history i = false := hlog
      rw [hself]
      by_cases hp : p = name s
      · subst hp
        simp
      · rw [update_of_ne hp]
        constructor
        · intro hD
          obtain ⟨-, t, ht, hname⟩ := (h.owner p i).mp hD
          cases hs.symm.trans ht
          exact absurd hname.symm hp
        · rintro ⟨hfalse, -⟩
          cases hfalse
    · exact absurd (hlog.symm.trans hreg) (by decide)

theorem prefixBits_pos (s : ServalSock) : 0 < s.prefixBits := by
  rw [ServalSock.prefixBits]
  split
  next => decide
  next hne => exact pos_of_ne_zero fun hzero => hne (UInt8.toNat_inj.mp hzero)

theorem prefixBits_le (s : ServalSock) : s.prefixBits ≤ 256 := by
  rw [ServalSock.prefixBits]
  split
  next => exact le_rfl
  next => exact (UInt8.toNat_lt _).le

theorem normBits_name (hnull : s.localSrvid ≠ nullService) :
    normBits s.localSrvid.toList s.prefixBits = s.prefixBits := by
  rw [normBits, if_neg]
  intro heq
  exact hnull (List.Vector.eq _ _ heq)

theorem Owned.hash {mem : ℕ} (h : Owned w D) (horderly : Orderly w') (hrun : servalSockHash w i mem = some w') :
    ∃ D', Owned w' D' := by
  have hleaves : ∀ j, j ≠ i → Leaves w w' j := fun j hj => hash_leaves hj hrun
  obtain ⟨s, hs, hcases⟩ := hash_cases hrun
  cases hcases with
  | kept _ hw => exact hw ▸ ⟨D, h⟩
  | flow hlen _ hw =>
    subst hw
    have hno := h.keyless_unregistered hs hlen
    exact ⟨D, h.unregistered hleaves rfl (Nat.le_succ _) hno hno (edit_self hs) fun _ => rfl⟩
  | service table err hlen _ _ _ hadd hw =>
    subst hw
    have hno := h.keyless_unregistered hs hlen
    obtain ⟨rfl, hwaits, hnull⟩ := horderly.good (.add i s.localSrvid s.skState err) (mem_cons_self ..)
    have hroom : w.history.length < 2 ^ 32 - 1 := (Nat.lt_succ_self _).trans horderly.room
    have hdir := h.directory.add (i := i) hroom (by simp) (prefixBits_le s) rfl hadd
    obtain ⟨-, hfree, hdir⟩ := hdir.resolve_left fun hfail => hfail.1 rfl
    rw [normBits_name hnull] at hfree hdir
    have hother : ∀ p j, j ≠ i → (Function.update D (name s) (some i) p = some j ↔ D p = some j) := by
      intro p j hj
      by_cases hp : p = name s
      · subst hp
        have hfree' : D (name s) = none := hfree
        simp [hfree', Ne.symm hj]
      · rw [update_of_ne hp]
    have hreg : registered (serviceAdded w i s table 1).history i = true := by
      simp [serviceAdded, World.log, registered]
    have howner : ∀ p, Function.update D (name s) (some i) p = some i ↔
        registered (serviceAdded w i s table 1).history i = true ∧ name s = p := by
      intro p
      by_cases hp : p = name s
      · subst hp
        simp [hreg]
      · simp [update_of_ne hp, h.not_owner hno p, Ne.symm hp]
    exact ⟨_, h.change hleaves hdir hother (edit_self hs) howner (fun _ => ⟨hwaits, prefixBits_pos s, hnull⟩)
      fun _ => .inr hreg⟩

theorem Owned.move (h : Owned w D) (hok : LinkedOk w) (hnamed : Named w) (horderly : Orderly w')
    (hmove : Move i w w') : ∃ D', Owned w' D' := by
  have hleaves : ∀ j, j ≠ i → Leaves w w' j := fun j hj => hmove.leaves hj
  cases hmove with
  | create s hnone hno hlen =>
    have hunreg : registered w.history i = false := by
      by_contra hreg
      obtain ⟨t, ht, -⟩ := hnamed i (by simpa using hreg)
      simp [hnone] at ht
    exact ⟨D, h.unregistered hleaves rfl le_rfl hunreg hunreg (update_self i _ _) fun hpos => by omega⟩
  | edit f hplace hname =>
    refine ⟨D, h.edit (fun s => ⟨(hplace s).linked, (hplace s).keyLen⟩) fun s hs hreg => ⟨hname s hs hreg, ?_⟩⟩
    have hwaits := (h.sock i s hs hreg).1
    rwa [Waits, ← (hplace s).state] at hwaits
  | hash mem w' _ hrun => exact h.hash horderly hrun
  | unhash w' hrun => exact h.unhash hok hrun
  | state newState w' _ hwaits hrun =>
    obtain ⟨w₁, hw₁, hrun⟩ := Option.bind_eq_some_iff.mp hrun
    cases hrun
    split at hw₁
    next =>
      obtain ⟨D₁, h₁⟩ := h.unhash hok hw₁
      have hno := (hnamed.unhash hw₁).2
      exact ⟨D₁, h₁.edit (fun _ => ⟨rfl, rfl⟩) fun _ _ hreg => by simp [hno] at hreg⟩
    next hopen =>
      cases hw₁
      refine ⟨D, h.edit (fun _ => ⟨rfl, rfl⟩) fun s hs hreg => ⟨⟨rfl, rfl, rfl⟩, ?_⟩⟩
      have hnew := hwaits s hs hreg (h.sock i s hs hreg).1
      exact .inr (hnew.resolve_right hopen)

theorem Owned.moves {S : List SockPtr} (hmoves : Moves S w w') (hok : LinkedOk w) (hnamed : Named w) (h : Owned w D)
    (horderly : Orderly w') : ∃ D', Owned w' D' := by
  induction hmoves with
  | refl => exact ⟨D, h⟩
  | tail hmoves hmove ih =>
    obtain ⟨i, -, hmove⟩ := hmove
    obtain ⟨D₁, h₁⟩ := ih (horderly.earlier hmove.history)
    have hchain : Moves S w _ := hmoves
    exact h₁.move (hchain.invariant Move.linkedOk hok) (hchain.invariant Move.named hnamed) horderly hmove

theorem reach_owned (h : Reach w) (horderly : Orderly w) : ∃ D, Owned w D := by
  induction h with
  | init => exact ⟨_, owned_init⟩
  | step call r hreach henabled hrun ih =>
    have hcalm := reach_calm hreach
    obtain ⟨⟨S, hmoves⟩, -⟩ := step_moves hcalm henabled hrun
    obtain ⟨D, hD⟩ := ih (horderly.earlier hmoves.history)
    exact Owned.moves hmoves hcalm.linked hcalm.named hD horderly

/-! ## Losing a prefix -/

def Unhashed (w w' : World) (i : SockPtr) : Prop := ∃ new, w'.history = new ++ w.history ∧ TableEvent.unhash i ∈ new

theorem Unhashed.later {w₁ : World} (h : Unhashed w w₁ i) (hhistory : w₁.history <:+ w'.history) : Unhashed w w' i := by
  obtain ⟨new, heq, hmem⟩ := h
  obtain ⟨more, hmore⟩ := hhistory
  exact ⟨more ++ new, by rw [← hmore, heq, append_assoc], mem_append_right more hmem⟩

theorem Unhashed.earlier {w₁ : World} (h : Unhashed w₁ w' i) (hhistory : w.history <:+ w₁.history) :
    Unhashed w w' i := by
  obtain ⟨new, heq, hmem⟩ := h
  obtain ⟨more, hmore⟩ := hhistory
  exact ⟨new ++ more, by rw [heq, ← hmore, append_assoc], mem_append_left more hmem⟩

theorem unhash_logged (hrun : servalSockUnhash w i = some w') : Unhashed w w' i := by
  obtain ⟨s, hs, hcases⟩ := unhash_cases hrun
  cases hcases with
  | unhashed _ hw | service table stats _ _ _ hw | unlinked _ _ _ hw => exact hw ▸ ⟨[.unhash i], rfl, by simp⟩
  | linked _ hw => exact hw ▸ ⟨[.unlink i s.skHash, .unhash i], rfl, by simp⟩

def Registered (w : World) (p : List Bool) (i : SockPtr) : Prop :=
  registered w.history i = true ∧ ∃ s, w.socks i = some s ∧ name s = p

theorem Owned.owns_iff (h : Owned w D) (p : List Bool) (i : SockPtr) : Owns w.table p i ↔ Registered w p i :=
  h.directory.owns_iff.trans (h.owner p i)

theorem Leaves.registered_iff (h : Leaves w w' j) : Registered w' p j ↔ Registered w p j := by
  rw [Registered, Registered, h.sock, h.registered]

theorem Owned.move_keeps (h : Owned w D) (hmove : Move i w w') (hreg : Registered w p j) :
    Registered w' p j ∨ Unhashed w w' j := by
  by_cases hj : j = i
  case neg => exact .inl ((Leaves.registered_iff (hmove.leaves hj)).mpr hreg)
  subst hj
  obtain ⟨hreg, s, hs, hp⟩ := hreg
  cases hmove with
  | create t hnone _ _ => simp [hnone] at hs
  | edit f _ hname => exact .inl ⟨hreg, f s, edit_self hs, (name_eq (hname s hs hreg)).trans hp⟩
  | hash mem w' _ hrun =>
    have hlen : s.hashKeyLen ≠ 0 := (h.sock j s hs hreg).2.1.ne'
    obtain ⟨t, ht, hcases⟩ := hash_cases hrun
    cases hs.symm.trans ht
    cases hcases with
    | kept _ hw => exact .inl (hw ▸ ⟨hreg, s, hs, hp⟩)
    | flow hzero _ _ | service _ _ hzero _ _ _ _ _ => exact absurd hzero hlen
  | unhash w' hrun => exact .inr (unhash_logged hrun)
  | state newState w' _ _ hrun =>
    obtain ⟨w₁, hw₁, hrun⟩ := Option.bind_eq_some_iff.mp hrun
    cases hrun
    split at hw₁
    next => exact .inr ((unhash_logged hw₁).later suffix_rfl)
    next =>
      cases hw₁
      exact .inl ⟨hreg, _, edit_self hs, hp⟩

theorem Owned.moves_keep {S : List SockPtr} (hmoves : Moves S w w') (hok : LinkedOk w) (hnamed : Named w)
    (h : Owned w D) (horderly : Orderly w') (hreg : Registered w p j) : Registered w' p j ∨ Unhashed w w' j := by
  induction hmoves with
  | refl => exact .inl hreg
  | @tail w₁ w₂ hmoves hmove ih =>
    obtain ⟨i, -, hmove⟩ := hmove
    have hearlier := horderly.earlier hmove.history
    have hchain : Moves S w w₁ := hmoves
    rcases ih hearlier with hreg₁ | hunhashed
    · obtain ⟨D₁, h₁⟩ := Owned.moves hchain hok hnamed h hearlier
      exact (h₁.move_keeps hmove hreg₁).imp_right fun hun => hun.earlier hchain.history
    · exact .inr (hunhashed.later hmove.history)

/-! ## Sockets and tables -/

/-- In every world that calls lead to: the sockets that have a DEMUX target, and what a further call takes from them, as
long as every `service_add` was good; the sockets in the established table, and what a lookup returns. The count of a
slot is right until a socket leaves it. -/
theorem sockets_in_tables (h : Reach w) :
    (Orderly w → (∀ i, (∃ p, Owns w.table p i) ↔ ∃ s, w.socks i = some s ∧ s.has SSK_FLAG_BOUND = true ∧
        (s.skState = .init ∨ s.skState = .listen) ∧ registered w.history i = true) ∧
      ∀ call w' r, Enabled w call → step w call = some (w', r) → Orderly w' →
        ∀ p i, Owns w.table p i → Owns w'.table p i ∨ Unhashed w w' i) ∧
    (∀ i, (∃ k, i ∈ (w.slots k).head) ↔ flowHashed w.history i = true) ∧
    (∀ flowid, servalSockLookupFlow w flowid ≠ none ↔ ∃ i, Established w flowid i) ∧
    (∀ flowid i, servalSockLookupFlow w flowid = some i → Established w flowid i) ∧
    ∀ k, (w.slots k).count = (w.slots k).head.length ↔ unlinks k w.history = 0 := by
  have hcalm := reach_calm h
  refine ⟨fun horderly => ?_, fun i => ?_, hcalm.linked.lookup_iff, fun flowid i =>
    hcalm.linked.lookup_some, fun k => ?_⟩
  · obtain ⟨D, hD⟩ := reach_owned h horderly
    refine ⟨fun i => ⟨?_, ?_⟩, fun call w' r henabled hrun horderly' p i hown => ?_⟩
    · rintro ⟨p, hown⟩
      obtain ⟨hreg, s, hs, -⟩ := (hD.owns_iff p i).mp hown
      obtain ⟨t, ht, hbound⟩ := hcalm.named i hreg
      cases hs.symm.trans ht
      exact ⟨s, hs, hbound, (hD.sock i s hs hreg).1, hreg⟩
    · rintro ⟨s, hs, -, -, hreg⟩
      exact ⟨name s, (hD.owns_iff _ i).mpr ⟨hreg, s, hs, rfl⟩⟩
    · obtain ⟨⟨S, hmoves⟩, -⟩ := step_moves hcalm henabled hrun
      obtain ⟨D', hD'⟩ := Owned.moves hmoves hcalm.linked hcalm.named hD horderly'
      rw [hD'.owns_iff]
      exact Owned.moves_keep hmoves hcalm.linked hcalm.named hD horderly' ((hD.owns_iff p i).mp hown)
  · rw [hcalm.linked.flow]
    simp only [hcalm.linked.mem, Option.isSome_iff_exists]
  · have hcount := hcalm.linked.count k
    omega

namespace Sample

theorem alice_nonnull : 64 ≠ 0 := by decide

def alice : SockPtr := ⟨64, alice_nonnull⟩
def bob : SockPtr := ⟨128, by decide⟩

theorem service_length : (128 :: List.replicate 31 0 : List UInt8).length = 32 := rfl

def service : ServiceId := ⟨128 :: List.replicate 31 0, service_length⟩

def address : SockaddrSv := ⟨0, 1, service⟩

def after (w : World) (call : Call) : World := ((step w call).getD (w, 0)).1

def created : World := after (after init (.create alice 17 1)) (.create bob 17 2)

def bound : World := after created (.bind alice address 36 8)

def refused : World := after bound (.bind bob address 36 8)

def closed : World := after refused (.close bob false)

theorem created_reach : Reach created := by
  have hfirst : Reach (after init (.create alice 17 1)) := .step (.create alice 17 1) 0 .init rfl rfl
  have hnone : (after init (.create alice 17 1)).socks bob = none := rfl
  exact .step (.create bob 17 2) 0 hfirst hnone rfl

theorem bound_step : step created (.bind alice address 36 8) = some (bound, 0) := rfl

theorem refused_step : step bound (.bind bob address 36 8) = some (refused, -22) := rfl

theorem closed_step : step refused (.close bob false) = some (closed, 0) := rfl

theorem bound_enabled : Enabled created (.bind alice address 36 8) := ⟨_, rfl, nofun⟩

theorem refused_enabled : Enabled bound (.bind bob address 36 8) := ⟨_, rfl, nofun⟩

theorem closed_enabled : Enabled refused (.close bob false) := ⟨_, rfl, nofun⟩

theorem bound_reach : Reach bound := .step _ _ created_reach bound_enabled bound_step

theorem refused_reach : Reach refused := .step _ _ bound_reach refused_enabled refused_step

theorem bound_orderly : Orderly bound := by
  refine ⟨fun ev hev => ?_, by decide⟩
  obtain rfl : ev = .add alice service .init 1 := mem_singleton.mp hev
  exact ⟨rfl, .inl rfl, by decide⟩

def joined : World := after bound (.connect bob 0)

theorem joined_reach : Reach joined := .step (.connect bob 0) (-115) bound_reach ⟨_, rfl, nofun⟩ rfl

theorem joined_orderly : Orderly joined := by
  refine ⟨fun ev hev => ?_, by decide⟩
  rcases mem_cons.mp hev with rfl | hev
  · trivial
  · exact bound_orderly.good ev hev

theorem refused_owns : Owns refused.table [true] alice := ⟨_, rfl, _, mem_singleton_self _, rfl, _, rfl, rfl⟩

theorem closed_lost : ¬ Owns closed.table [true] alice := by
  rintro ⟨se, hse, -⟩
  have hnone : ServiceRuns.entryAt closed.table [true] = none := rfl
  simp [hnone] at hse

def connecting : World := after (after init (.create alice 17 1)) (.connect alice 0)

def unconnected : World := after connecting (.close alice false)

theorem unconnected_reach : Reach unconnected := by
  have hfirst : Reach (after init (.create alice 17 1)) := .step (.create alice 17 1) 0 .init rfl rfl
  have hsecond : Reach connecting := .step (.connect alice 0) (-115) hfirst ⟨_, rfl, nofun⟩ rfl
  exact .step (.close alice false) 0 hsecond ⟨_, rfl, nofun⟩ rfl

end Sample

open Sample in
/-- One socket is bound, and the other connects: only the first has a target, only the second is found by its flow. -/
theorem sockets_in_tables_two : (∃ p, Owns joined.table p alice) ∧ (¬ ∃ p, Owns joined.table p bob) ∧
    (∃ i, Established joined 2 i) ∧ (¬ ∃ i, Established joined 1 i) ∧
    ∀ k, (joined.slots k).count = (joined.slots k).head.length := by
  obtain ⟨htargets, -, hlookup, -, hcount⟩ := sockets_in_tables joined_reach
  obtain ⟨howns, -⟩ := htargets joined_orderly
  refine ⟨(howns alice).mpr ⟨_, rfl, rfl, .inl rfl, rfl⟩, ?_, (hlookup 2).mp (by decide), ?_, fun k =>
    (hcount k).mpr rfl⟩
  · rw [howns]
    rintro ⟨s, -, -, -, hreg⟩
    cases hreg
  · rw [← hlookup]
    decide

/-- A socket whose bind failed removes the target of another when it closes, and a slot keeps counting a
socket that has left it. -/
theorem close_removes_other_target : (¬ ∀ w, Reach w → ∀ call w' r, Enabled w call → step w call = some (w', r) →
      ∀ p i, Owns w.table p i → Owns w'.table p i ∨ Unhashed w w' i) ∧
    ¬ ∀ w, Reach w → ∀ k, (w.slots k).count = (w.slots k).head.length := by
  constructor
  · intro hall
    rcases hall _ Sample.refused_reach _ _ _ Sample.closed_enabled Sample.closed_step _ _ Sample.refused_owns
      with hown | hun
    · exact Sample.closed_lost hown
    · obtain ⟨new, hnew, hmem⟩ := hun
      have hin : TableEvent.unhash Sample.alice ∈ Sample.closed.history := by
        rw [hnew]
        exact mem_append_left _ hmem
      exact absurd hin (by decide)
  · intro hall
    have hcount := hall _ Sample.unconnected_reach 0
    exact absurd hcount (by decide)

end SockRegistration
