import Serval.SockRegistration

/-! # What a bind answers for

A bind that returns 0 has put the socket under its prefix. A bind, and a later bind or close of the
same socket, leave the other sockets where they are.
-/
namespace SockBind

open BitString ServiceTable SockTables SockEstablished SockMoves SockCalls SockDirectory SockRegistration

variable {w w' : World} {i j : SockPtr} {s : ServalSock} {D : List Bool → Option SockPtr} {p : List Bool}

def boundTo (addr : SockaddrSv) : List Bool :=
  bitsOf addr.svSrvid.toList (if addr.svPrefixBits = 0 then SERVICE_ID_MAX_PREFIX_BITS else addr.svPrefixBits.toNat)

/-! ## Other sockets -/

def OthersKeep (w w' : World) (i : SockPtr) : Prop := ∀ p j, j ≠ i → (Owns w'.table p j ↔ Owns w.table p j)

variable {w₁ : World} {mem : ℕ} {addr : SockaddrSv} {r : ℤ}

theorem OthersKeep.trans (h : OthersKeep w w₁ i) (h' : OthersKeep w₁ w' i) : OthersKeep w w' i :=
  fun p j hj => (h' p j hj).trans (h p j hj)

theorem hash_others (h : Owned w D) (hroom : w.history.length < 2 ^ 32 - 1)
    (hrun : servalSockHash w i mem = some w') : OthersKeep w w' i := by
  intro p j hj
  obtain ⟨s, hs, hcases⟩ := hash_cases hrun
  cases hcases with
  | kept _ hw | flow _ _ hw => exact hw ▸ Iff.rfl
  | service table err _ _ _ _ hadd hw =>
    have htable : w'.table = table := hw ▸ rfl
    rw [htable, h.directory.owns_iff]
    rcases h.directory.add (i := i) hroom (by simp) (prefixBits_le s) rfl hadd with ⟨-, hdir⟩ | ⟨-, hfree, hdir⟩
    · exact hdir.owns_iff
    · rw [hdir.owns_iff]
      by_cases hp : p = bitsOf s.localSrvid.toList (normBits s.localSrvid.toList s.prefixBits)
      · subst hp
        simp [hfree, Ne.symm hj]
      · rw [Function.update_of_ne hp]

theorem forgets_owned (h : Owned w D) (hok : LinkedOk w) (hnamed : Named w) (hs : w.socks i = some s)
    (hrun : forgets w i s = some w₁) : ∃ D₁, Owned w₁ D₁ := by
  rw [forgets] at hrun
  split at hrun
  next => exact h.unhash hok hrun
  next hbound =>
    cases hrun
    have hno := hnamed.unbound hs (by simpa using hbound)
    exact ⟨D, h.edit (fun _ => ⟨rfl, rfl⟩) fun _ _ hreg => by simp [hno] at hreg⟩

theorem renamed_owned (h : Owned w₁ D) (hno : registered w₁.history i = false) : Owned (w₁.edit i (renamed addr)) D :=
  h.edit (fun _ => ⟨rfl, rfl⟩) fun _ _ hreg => by simp [hno] at hreg

theorem leaves_others {D' : List Bool → Option SockPtr} (h : Owned w D) (h' : Owned w' D')
    (hleaves : ∀ j, j ≠ i → Leaves w w' j) : OthersKeep w w' i := by
  intro p j hj
  rw [h.owns_iff, h'.owns_iff]
  exact Leaves.registered_iff (hleaves j hj)

theorem bind_others {addrLen : ℕ} (hcalm : Calm w) (h : Owned w D)
    (hrun : servalBind w i addr addrLen mem = some (w', r)) (hroom : w'.history.length < 2 ^ 32 - 1) :
    OthersKeep w w' i := by
  cases bind_cases hrun with
  | refused hw _ => exact hw ▸ fun _ _ _ => Iff.rfl
  | hashed s w₁ t hs _ hw₁ hhash _ _ =>
    obtain ⟨hmoves, hno, -⟩ := forgets_moves hcalm.named hs hw₁
    obtain ⟨D₁, h₁⟩ := forgets_owned h hcalm.linked hcalm.named hs hw₁
    have hfirst : OthersKeep w w₁ i := leaves_others h h₁ fun j hj => hmoves.leaves (by simpa using hj)
    have hroom₁ := (hash_history hhash).length_le.trans_lt hroom
    have hlast : OthersKeep (w₁.edit i (renamed addr)) w' i := hash_others (renamed_owned h₁ hno) hroom₁ hhash
    exact hfirst.trans hlast

theorem close_others {reset : Bool} {D' : List Bool → Option SockPtr} (hcalm : Calm w) (h : Owned w D)
    (h' : Owned w' D') (hs : w.socks i = some s) (hrun : servalRelease w i reset = some (w', r)) :
    OthersKeep w w' i := by
  obtain ⟨hmoves, -, v, hsees⟩ := release_moves hcalm hs hrun
  intro p j hj
  rw [h.owns_iff, h'.owns_iff]
  by_cases hqueue : j ∈ s.acceptQueue
  · obtain ⟨u, hu, hconn⟩ := hcalm.settled.queued i _ (view_some hs) j hqueue
    have hno : ∀ {w D}, Owned w D → view w j = some u → ¬ Registered w p j := by
      rintro w D h hv ⟨hreg, t, ht, -⟩
      obtain rfl := sight_of_view hv ht
      rcases (h.sock j t ht hreg).1 with hstate | hstate
      · exact hconn.init hstate
      · exact hconn.listen hstate
    exact iff_of_false (hno h' (by rwa [hsees, Function.update_of_ne hj])) (hno h hu)
  · exact Leaves.registered_iff (hmoves.leaves (by simp [hj, hqueue]))

/-! ## The socket itself -/

theorem hashed_kept : ∀ flags : UInt8,
    servalSockFlag (servalSockResetFlag flags SSK_FLAG_HASHED) SSK_FLAG_HASHED = servalSockFlag flags SSK_FLAG_HASHED ∧
    servalSockFlag (servalSockSetFlag flags SSK_FLAG_BOUND) SSK_FLAG_HASHED = servalSockFlag flags SSK_FLAG_HASHED := by
  apply forall_flags
  decide +kernel

/-- The flag of an earlier bind is not reset, since the reset clears the flag's number. -/
theorem forgets_hashed (hs : w.socks i = some s) (hrun : forgets w i s = some w₁) :
    ∃ t, w₁.socks i = some t ∧ t.has SSK_FLAG_HASHED = s.has SSK_FLAG_HASHED := by
  rw [forgets] at hrun
  split at hrun
  · obtain ⟨t, ht, hcases⟩ := unhash_cases hrun
    cases hs.symm.trans ht
    cases hcases with
    | unhashed _ hw | unlinked _ _ _ hw => exact ⟨s, hw ▸ hs, rfl⟩
    | service _ _ _ _ _ hw | linked _ hw =>
      subst hw
      refine ⟨_, edit_self hs, ?_⟩
      exact (hashed_kept _).1
  · cases hrun
    refine ⟨_, edit_self hs, ?_⟩
    exact (hashed_kept _).2

/-- The bind shows its own failure, or cannot fail. -/
def Clear (w : World) (i : SockPtr) (s : ServalSock) (addr : SockaddrSv) (mem : ℕ) : Prop :=
  s.has SSK_FLAG_HASHED = false ∨ ServiceTableSpec.Ample mem ∧ ∀ j, j ≠ i → ¬Owns w.table (boundTo addr) j

theorem bind_hashes {addrLen : ℕ} (hcalm : Calm w) (h : Owned w D) (hs : w.socks i = some s) (hwaits : Waits s)
    (hclear : Clear w i s addr mem) (hrun : servalBind w i addr addrLen mem = some (w', r))
    (hroom : w'.history.length < 2 ^ 32 - 1) (hr : r = 0) : Owns w'.table (boundTo addr) i := by
  cases bind_cases hrun with
  | refused _ hr' =>
    rw [hr] at hr'
    cases hr'
  | hashed s' w₁ u hs' hnull hw₁ hhash hu hflag =>
    cases hs.symm.trans hs'
    obtain ⟨hmoves, hno, hview, -⟩ := forgets_moves hcalm.named hs hw₁
    obtain ⟨t, ht, hhashed⟩ := forgets_hashed hs hw₁
    obtain ⟨D₁, h₁⟩ := forgets_owned h hcalm.linked hcalm.named hs hw₁
    have hview₁ : view w₁ i = some (sight s) := hview ▸ view_some hs
    have hstate : t.skState = s.skState := congrArg Sight.sal (sight_of_view hview₁ ht)
    -- it has no key left, neither in the one table nor in the other
    have hlen : t.hashKeyLen = 0 := by
      by_contra hne
      rcases h₁.keyed i t ht (Nat.pos_of_ne_zero hne) with hlinked | hreg
      · have hfind := ((hmoves.invariant Move.linkedOk hcalm.linked).sock i t ht hlinked).state
        rw [hstate] at hfind
        rcases hwaits with hw | hw <;> rw [hw] at hfind <;> cases hfind
      · simp [hno] at hreg
    obtain ⟨t', ht', hcases⟩ := hash_cases hhash
    cases (edit_self ht).symm.trans ht'
    cases hcases with
    | kept hkept _ =>
      rcases hkept with hclosed | hpos
      · rcases hwaits with hw | hw <;> rw [← hstate, show t.skState = .closed from hclosed] at hw <;> cases hw
      · exact absurd hlen (Nat.pos_iff_ne_zero.mp hpos)
    | flow _ hflow _ =>
      rcases hflow with hflow | hflow <;> rcases hwaits with hw | hw <;>
        rw [← hstate, show t.skState = _ from hflow] at hw <;> cases hw
    | service table err _ _ _ _ hadd hw =>
      have hroom₁ := (hash_history hhash).length_le.trans_lt hroom
      have howned : Owned (w₁.edit i (renamed addr)) D₁ := renamed_owned h₁ hno
      have hkey : bitsOf (renamed addr t).localSrvid.toList
          (normBits (renamed addr t).localSrvid.toList (renamed addr t).prefixBits) = boundTo addr := by
        rw [normBits_name hnull]
        rfl
      obtain ⟨hresult, hfree⟩ := howned.directory.add_result hroom₁ (by simp) (prefixBits_le _) hadd
      rw [hkey] at hfree
      have herr : err = 1 := by
        rcases hclear with hclear | ⟨hample, hothers⟩
        · refine hresult.resolve_left fun hneg => ?_
          subst hw
          cases (edit_self (edit_self ht)).symm.trans hu
          have hset : servalSockFlag t.flags SSK_FLAG_HASHED = false := hhashed.trans hclear
          simp [ServalSock.has, renamed, hneg, hset, hr] at hflag
          cases hflag
        · refine hfree ?_ hample
          cases hD : D₁ (boundTo addr) with
          | none => rfl
          | some j =>
            have hj : j ≠ i := fun hj => h₁.not_owner hno _ (hj ▸ hD)
            have hkeep := leaves_others h h₁ (fun j hj => hmoves.leaves (by simpa using hj)) (boundTo addr) j hj
            exact absurd (hkeep.mp (h₁.directory.owns_iff.mpr hD)) (hothers j hj)
      subst hw herr
      obtain ⟨-, -, hdir⟩ := (howned.directory.add (i := i) hroom₁ (by simp) (prefixBits_le _) rfl hadd).resolve_left
        fun hfail => hfail.1 rfl
      rw [hkey] at hdir
      exact hdir.owns_iff.mpr (Function.update_self ..)

/-! ## A close adds nothing -/

theorem unhash_good (h : ∀ ev ∈ w.history, Good ev) (hrun : servalSockUnhash w i = some w') :
    ∀ ev ∈ w'.history, Good ev := by
  obtain ⟨s, -, hcases⟩ := unhash_cases hrun
  cases hcases with
  | unhashed _ hw | unlinked _ _ _ hw | service _ _ _ _ _ hw => exact hw ▸ List.forall_mem_cons.mpr ⟨trivial, h⟩
  | linked _ hw => exact hw ▸ List.forall_mem_cons.mpr ⟨trivial, List.forall_mem_cons.mpr ⟨trivial, h⟩⟩

theorem setState_good {newState : SalBuild.SalState} (h : ∀ ev ∈ w.history, Good ev)
    (hrun : servalSockSetState w i newState = some w') : ∀ ev ∈ w'.history, Good ev := by
  obtain ⟨w₁, hw₁, hrun⟩ := Option.bind_eq_some_iff.mp hrun
  cases hrun
  rw [edit_history]
  split at hw₁
  · exact unhash_good h hw₁
  · cases hw₁
    exact h

theorem unhashAll_good {queue : List SockPtr} (h : ∀ ev ∈ w.history, Good ev)
    (hrun : queue.foldlM servalSockUnhash w = some w') : ∀ ev ∈ w'.history, Good ev := by
  induction queue generalizing w with
  | nil => exact Option.some.inj hrun ▸ h
  | cons i queue ih =>
    rw [List.foldlM_cons] at hrun
    obtain ⟨w₁, hw₁, hrun⟩ := Option.bind_eq_some_iff.mp hrun
    exact ih (unhash_good h hw₁) hrun

theorem salClose_good {reset : Bool} (h : ∀ ev ∈ w.history, Good ev)
    (hrun : servalSalClose w i reset = some w') : ∀ ev ∈ w'.history, Good ev := by
  obtain ⟨s, -, hrun⟩ := Option.bind_eq_some_iff.mp hrun
  have hfinish : ∀ {newState}, (servalSockSetState w i newState).bind (fun w =>
      if reset then servalSockSetState w i .closed else some w) = some w' → ∀ ev ∈ w'.history, Good ev := by
    intro newState hrun
    obtain ⟨w₁, hw₁, hrun⟩ := Option.bind_eq_some_iff.mp hrun
    have h₁ := setState_good h hw₁
    split at hrun
    · exact setState_good h₁ hrun
    · exact Option.some.inj hrun ▸ h₁
  dsimp only at hrun
  split at hrun
  case h_4 | h_5 | h_6 | h_7 => exact Option.some.inj hrun ▸ h
  case h_1 | h_2 | h_3 => exact hfinish hrun
  case h_8 => exact setState_good h hrun

theorem release_orderly {reset : Bool} (h : Orderly w) (hrun : servalRelease w i reset = some (w', r))
    (hroom : w'.history.length < 2 ^ 32 - 1) : Orderly w' := by
  refine ⟨?_, hroom⟩
  obtain ⟨s, -, hrun⟩ := Option.bind_eq_some_iff.mp hrun
  obtain ⟨w₁, hw₁, hrun⟩ := Option.bind_eq_some_iff.mp hrun
  cases hrun
  rw [edit_history]
  split at hw₁
  · obtain ⟨w₂, hw₂, hw₁⟩ := Option.bind_eq_some_iff.mp hw₁
    obtain ⟨t, -, hw₂⟩ := Option.bind_eq_some_iff.mp hw₂
    obtain ⟨w₃, hw₃, hw₂⟩ := Option.bind_eq_some_iff.mp hw₂
    cases hw₂
    have hgood := unhashAll_good h.good hw₃
    rw [← edit_history] at hgood
    exact setState_good hgood hw₁
  · split at hw₁
    · exact salClose_good h.good hw₁
    · exact Option.some.inj hw₁ ▸ h.good

def Again (i : SockPtr) : Call → Prop
  | .bind j .. => j = i
  | .close j _ => j = i
  | _ => False

/-- A bind that returns 0 has put a socket that waits under its prefix, if the flag it reads was clear or
the prefix and memory are free. No bind touches the targets of the other sockets, and neither does a later
bind or close, as long as every `service_add` before was good. -/
theorem bind_answers {addr : SockaddrSv} {addrLen mem : ℕ} {r : ℤ} (h : Reach w) (horderly : Orderly w)
    (henabled : Enabled w (.bind i addr addrLen mem)) (hrun : servalBind w i addr addrLen mem = some (w', r))
    (hroom : w'.history.length < 2 ^ 32 - 1) :
    (∀ s, w.socks i = some s → Waits s → Clear w i s addr mem → r = 0 → Owns w'.table (boundTo addr) i) ∧
    (r ≠ 0 → OthersKeep w w' i) ∧
    ∀ w₁ w₂ call r', Later w' w₁ → Orderly w₁ → Enabled w₁ call → Again i call → step w₁ call = some (w₂, r') →
      w₂.history.length < 2 ^ 32 - 1 → OthersKeep w₁ w₂ i := by
  have hcalm := reach_calm h
  obtain ⟨D, hD⟩ := reach_owned h horderly
  have hreach' : Reach w' := .step _ r h henabled hrun
  refine ⟨fun s hs hwaits hclear hr => bind_hashes hcalm hD hs hwaits hclear hrun hroom hr,
    fun _ => bind_others hcalm hD hrun hroom, fun w₁ w₂ call r' hlater horderly₁ henabled₁ hagain hrun₁ hroom₂ => ?_⟩
  have hreach₁ := hreach'.later hlater
  have hcalm₁ := reach_calm hreach₁
  obtain ⟨D₁, h₁⟩ := reach_owned hreach₁ horderly₁
  cases call with
  | bind j addr addrLen mem =>
    obtain rfl : j = i := hagain
    exact bind_others hcalm₁ h₁ hrun₁ hroom₂
  | close j reset =>
    obtain rfl : j = i := hagain
    obtain ⟨D₂, h₂⟩ := reach_owned (.step _ r' hreach₁ henabled₁ hrun₁) (release_orderly horderly₁ hrun₁ hroom₂)
    obtain ⟨s, hs, -⟩ := henabled₁
    exact close_others hcalm₁ h₁ h₂ hs hrun₁
  | create | listen | connect | accept | child | state => exact hagain.elim

namespace Sample

open SockRegistration.Sample

def elsewhere : SockaddrSv := ⟨0, 1, ⟨64 :: List.replicate 31 0, rfl⟩⟩

def both : World := after bound (.bind bob elsewhere 36 8)

def rebound : World := after both (.bind bob address 36 8)

def left : World := after both (.close bob false)

theorem both_enabled : Enabled bound (.bind bob elsewhere 36 8) := ⟨_, rfl, nofun⟩

theorem both_run : servalBind bound bob elsewhere 36 8 = some (both, 0) := rfl

theorem both_reach : Reach both := .step (.bind bob elsewhere 36 8) 0 bound_reach both_enabled both_run

theorem both_orderly : Orderly both := by
  refine ⟨List.forall_mem_cons.mpr ⟨⟨rfl, .inl rfl, by decide⟩, bound_orderly.good⟩, by decide⟩

theorem left_enabled : Enabled both (.close bob false) := ⟨_, rfl, nofun⟩

theorem left_step : step both (.close bob false) = some (left, 0) := rfl

theorem rebound_enabled : Enabled both (.bind bob address 36 8) := ⟨_, rfl, nofun⟩

theorem rebound_run : servalBind both bob address 36 8 = some (rebound, 0) := rfl

theorem rebound_not_owned : ¬ Owns rebound.table [true] bob := by
  rintro ⟨se, hse, t, ht, -, k, hk, hbob⟩
  cases hse
  obtain rfl := List.mem_singleton.mp ht
  cases hk
  exact absurd hbob (by decide)

end Sample

open Sample SockRegistration.Sample in
/-- A second socket beside the first: its bind, its close, and the bind that is refused. -/
theorem bind_answers_second : Owns both.table (boundTo elsewhere) bob ∧ OthersKeep both left bob ∧
    OthersKeep bound refused bob := by
  have hboth := bind_answers bound_reach bound_orderly both_enabled both_run (by decide)
  have hrefused := bind_answers bound_reach bound_orderly refused_enabled refused_step (by decide)
  exact ⟨hboth.1 _ rfl (.inl rfl) (.inl rfl) rfl,
    hboth.2.2 _ _ _ _ .refl both_orderly left_enabled rfl left_step (by decide), hrefused.2.1 (by decide)⟩

/-- A bind returns 0 without a target, since the flag of an earlier one is never reset; and a socket whose
bind failed removes the target of another when it closes. -/
theorem bind_answers_wrongly : (¬ ∀ w i addr addrLen mem w' r, Reach w → Enabled w (.bind i addr addrLen mem) →
      servalBind w i addr addrLen mem = some (w', r) → r = 0 → Owns w'.table (boundTo addr) i) ∧
    ¬ ∀ w i addr addrLen mem w' r, Reach w → Enabled w (.bind i addr addrLen mem) →
      servalBind w i addr addrLen mem = some (w', r) → r ≠ 0 →
      ∀ w₁ w₂ call r', Later w' w₁ → Enabled w₁ call → Again i call → step w₁ call = some (w₂, r') →
        OthersKeep w₁ w₂ i := by
  constructor
  · intro hall
    exact Sample.rebound_not_owned (hall _ _ _ _ _ _ _ Sample.both_reach Sample.rebound_enabled Sample.rebound_run rfl)
  · intro hall
    have hkeep := hall _ _ _ _ _ _ _ SockRegistration.Sample.bound_reach SockRegistration.Sample.refused_enabled
      SockRegistration.Sample.refused_step (by decide) _ _ _ _ .refl SockRegistration.Sample.closed_enabled rfl
      SockRegistration.Sample.closed_step
    have hown := (hkeep [true] SockRegistration.Sample.alice (by decide)).mpr SockRegistration.Sample.refused_owns
    exact SockRegistration.Sample.closed_lost hown

end SockBind
