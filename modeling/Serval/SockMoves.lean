import Serval.SockEstablished

/-! # Moves

Every call is a chain of hashing, unhashing and changes to single sockets. An invariant of the tables
has to be shown for these moves alone.
-/
namespace SockMoves

open SockTables SockEstablished List Relation Option
open SalBuild (SalState)

variable {w w' : World} {i j : SockPtr} {s : ServalSock} {f : ServalSock → ServalSock}

def registered : List TableEvent → SockPtr → Bool
  | [], _ => false
  | .add j _ _ err :: rest, i => if i = j then err = 1 else registered rest i
  | .unhash j :: rest, i => i ≠ j && registered rest i
  | _ :: rest, i => registered rest i

structure SameName (s t : ServalSock) : Prop where
  bound : t.has SSK_FLAG_BOUND = s.has SSK_FLAG_BOUND
  srvid : t.localSrvid = s.localSrvid
  bits : t.srvidPrefixBits = s.srvidPrefixBits

def Waits (s : ServalSock) : Prop := s.skState = .init ∨ s.skState = .listen

inductive Move (i : SockPtr) (w : World) : World → Prop where
  | create (s : ServalSock) : w.socks i = none → s.linked = false → s.hashKeyLen = 0 →
      Move i w { w with socks := Function.update w.socks i (some s) }
  | edit (f : ServalSock → ServalSock) : (∀ s, SamePlace s (f s)) →
      (∀ s, w.socks i = some s → registered w.history i = true → SameName s (f s)) → Move i w (w.edit i f)
  | hash (mem : ℕ) (w' : World) : (∀ s, w.socks i = some s → s.skState ≠ .request → s.skState ≠ .respond →
      s.has SSK_FLAG_BOUND = true) → servalSockHash w i mem = some w' → Move i w w'
  | unhash (w' : World) : servalSockUnhash w i = some w' → Move i w w'
  | state (newState : SalState) (w' : World) :
      (∀ s, w.socks i = some s → s.linked = true → newState = .closed ∨ findable newState = true) →
      (∀ s, w.socks i = some s → registered w.history i = true → Waits s → newState = .listen ∨ newState = .closed) →
      servalSockSetState w i newState = some w' → Move i w w'

def Moves (S : List SockPtr) : World → World → Prop := ReflTransGen fun w w' => ∃ i ∈ S, Move i w w'

variable {S : List SockPtr}

theorem Moves.refl : Moves S w w := ReflTransGen.refl

variable {w₁ : World} {mem : ℕ}

theorem Moves.tail (h : Moves S w w₁) (hi : i ∈ S) (hmove : Move i w₁ w') : Moves S w w' :=
  ReflTransGen.tail h ⟨i, hi, hmove⟩

theorem Move.moves (h : Move i w w') (hi : i ∈ S) : Moves S w w' := Moves.refl.tail hi h

theorem Moves.trans (h : Moves S w w₁) (h' : Moves S w₁ w') : Moves S w w' := ReflTransGen.trans h h'

theorem Moves.invariant {P : World → Prop} (hstep : ∀ {i w w'}, Move i w w' → P w → P w') (h : Moves S w w')
    (hw : P w) : P w' := by
  induction h with
  | refl => exact hw
  | tail _ hmove ih =>
    obtain ⟨i, -, hmove⟩ := hmove
    exact hstep hmove ih

theorem Move.linkedOk (h : Move i w w') (hok : LinkedOk w) : LinkedOk w' := by
  cases h with
  | create s hnone hno _ => exact hok.create hnone hno
  | edit f hplace _ => exact hok.editFields hplace
  | hash mem w' _ hrun => exact hok.hash hrun
  | unhash w' hrun => exact (hok.unhash hrun).1
  | state newState w' hstate _ hrun => exact hok.setState hstate hrun

theorem forall_flags {P : UInt8 → Prop} (h : ∀ n : Fin 256, P (.ofFin n)) (flags : UInt8) : P flags := h flags.toFin

theorem bound_hashed : ∀ flags : UInt8,
    servalSockFlag (servalSockSetFlag flags SSK_FLAG_HASHED) SSK_FLAG_BOUND = servalSockFlag flags SSK_FLAG_BOUND := by
  apply forall_flags
  decide +kernel

def Named (w : World) : Prop :=
  ∀ i, registered w.history i = true → ∃ s, w.socks i = some s ∧ s.has SSK_FLAG_BOUND = true

theorem Named.unhash (h : Named w) (hrun : servalSockUnhash w i = some w') :
    Named w' ∧ registered w'.history i = false := by
  obtain ⟨s, hs, hcases⟩ := unhash_cases hrun
  have hlog : ∀ j, registered (.unhash i :: w.history) j = true → j ≠ i ∧ registered w.history j = true := by
    intro j hj
    simpa [registered] using hj
  have hself : registered (.unhash i :: w.history) i = false := by simp [registered]
  have hother : ∀ {f : ServalSock → ServalSock} {w₁ : World}, w₁.socks = w.socks → ∀ j,
      registered (.unhash i :: w.history) j = true → ∃ s, (w₁.edit i f).socks j = some s ∧
        s.has SSK_FLAG_BOUND = true := by
    intro f w₁ hw₁ j hj
    obtain ⟨hne, hreg⟩ := hlog j hj
    rw [edit_other hne, hw₁]
    exact h j hreg
  cases hcases with
  | unhashed _ hw | unlinked _ _ _ hw => exact hw ▸ ⟨fun j hj => h j (hlog j hj).2, hself⟩
  | service table stats _ _ _ hw | linked _ hw => exact hw ▸ ⟨hother rfl, hself⟩

theorem Named.edit (h : Named w) (hbound : ∀ s, w.socks i = some s → registered w.history i = true →
    (f s).has SSK_FLAG_BOUND = s.has SSK_FLAG_BOUND) : Named (w.edit i f) := by
  intro j hj
  obtain ⟨s, hs, hb⟩ := h j hj
  by_cases hji : j = i
  · subst hji
    exact ⟨f s, edit_self hs, (hbound s hs hj).trans hb⟩
  · exact ⟨s, (edit_other hji).trans hs, hb⟩

theorem Named.hash (h : Named w)
    (hbound : ∀ s, w.socks i = some s → s.skState ≠ .request → s.skState ≠ .respond → s.has SSK_FLAG_BOUND = true)
    (hrun : servalSockHash w i mem = some w') : Named w' := by
  obtain ⟨s, hs, hcases⟩ := hash_cases hrun
  cases hcases with
  | kept _ hw => exact hw ▸ h
  | flow _ _ hw =>
    subst hw
    intro j hj
    refine Named.edit (w := w.setSlot _ _) h (fun t _ _ => ?_) j hj
    exact bound_hashed t.flags
  | service table err hlen hclosed hreq hresp _ hw =>
    subst hw
    intro j hj
    by_cases hji : j = i
    · subst hji
      refine ⟨_, edit_self hs, ?_⟩
      have hb := hbound s hs hreq hresp
      dsimp only [ServalSock.has]
      split
      · exact hb
      · exact (bound_hashed _).trans hb
    · have hreg : registered w.history j = true := by
        simpa [serviceAdded, World.log, registered, hji] using hj
      obtain ⟨t, ht, hb⟩ := h j hreg
      exact ⟨t, (edit_other hji).trans ht, hb⟩

theorem Move.named (h : Move i w w') (hnamed : Named w) : Named w' := by
  cases h with
  | create s hnone _ _ =>
    intro j hj
    obtain ⟨t, ht, hb⟩ := hnamed j hj
    refine ⟨t, ?_, hb⟩
    dsimp only
    rwa [Function.update_of_ne]
    rintro rfl
    simp [hnone] at ht
  | edit f _ hname => exact hnamed.edit fun s hs hreg => (hname s hs hreg).bound
  | hash mem w' hbound hrun => exact hnamed.hash hbound hrun
  | unhash w' hrun => exact (hnamed.unhash hrun).1
  | state newState w' _ _ hrun =>
    obtain ⟨w₁, hw₁, hrun⟩ := bind_eq_some_iff.mp hrun
    cases hrun
    have hnamed₁ : Named w₁ := by
      split at hw₁
      · exact (hnamed.unhash hw₁).1
      · exact some.inj hw₁ ▸ hnamed
    exact hnamed₁.edit fun _ _ _ => rfl

theorem Named.unbound (h : Named w) (hs : w.socks i = some s) (hno : s.has SSK_FLAG_BOUND = false) :
    registered w.history i = false := by
  by_contra hreg
  obtain ⟨t, ht, hb⟩ := h i (by simpa using hreg)
  cases hs.symm.trans ht
  simp [hno] at hb

theorem Move.editUnregistered (hplace : ∀ s, SamePlace s (f s)) (hno : registered w.history i = false) :
    Move i w (w.edit i f) :=
  .edit f hplace fun _ _ hreg => by simp [hno] at hreg

theorem Move.editOther (hplace : ∀ s, SamePlace s (f s)) (hname : ∀ s, SameName s (f s)) : Move i w (w.edit i f) :=
  .edit f hplace fun s _ _ => hname s

theorem Move.editState (st : Option SocketState) : Move i w (w.edit i fun s => { s with state := st }) :=
  .editOther (fun _ => ⟨rfl, rfl, rfl, rfl, rfl, rfl⟩) fun _ => ⟨rfl, rfl, rfl⟩

theorem Move.editQueue (queue : ServalSock → List SockPtr) :
    Move i w (w.edit i fun s => { s with acceptQueue := queue s }) :=
  .editOther (fun _ => ⟨rfl, rfl, rfl, rfl, rfl, rfl⟩) fun _ => ⟨rfl, rfl, rfl⟩

theorem Move.close (hrun : servalSockSetState w i .closed = some w') : Move i w w' :=
  .state .closed w' (fun _ _ _ => .inl rfl) (fun _ _ _ _ => .inr rfl) hrun

theorem Move.advance {newState : SalState} (hs : w.socks i = some s) (hstate : ¬ Waits s)
    (hnew : findable newState = true) (hrun : servalSockSetState w i newState = some w') : Move i w w' := by
  refine .state newState w' (fun _ _ _ => .inr hnew) (fun t ht _ hwaits => ?_) hrun
  cases hs.symm.trans ht
  exact absurd hwaits hstate

theorem bound_reset : ∀ flags : UInt8,
    servalSockFlag (servalSockResetFlag flags SSK_FLAG_HASHED) SSK_FLAG_BOUND =
    servalSockFlag flags SSK_FLAG_BOUND := by
  apply forall_flags
  decide +kernel

theorem bound_set : ∀ flags : UInt8, servalSockFlag (servalSockSetFlag flags SSK_FLAG_BOUND) SSK_FLAG_BOUND = true := by
  apply forall_flags
  decide +kernel

theorem bound_autobound : ∀ flags : UInt8, servalSockFlag
    (servalSockSetFlag (servalSockSetFlag flags SSK_FLAG_BOUND) SSK_FLAG_AUTOBOUND) SSK_FLAG_BOUND = true := by
  apply forall_flags
  decide +kernel

theorem unhash_sock (hs : w.socks i = some s) (hrun : servalSockUnhash w i = some w') :
    ∃ t, w'.socks i = some t ∧ SameName s t := by
  obtain ⟨s', hs', hcases⟩ := unhash_cases hrun
  cases hs.symm.trans hs'
  cases hcases with
  | unhashed _ hw | unlinked _ _ _ hw => exact hw ▸ ⟨s, hs, rfl, rfl, rfl⟩
  | service table stats _ _ _ hw | linked _ hw => exact hw ▸ ⟨_, edit_self hs, bound_reset _, rfl, rfl⟩

/-! ## Other sockets -/

structure Leaves (w w' : World) (j : SockPtr) : Prop where
  sock : w'.socks j = w.socks j
  registered : registered w'.history j = registered w.history j

theorem unhash_leaves (hj : j ≠ i) (hrun : servalSockUnhash w i = some w') : Leaves w w' j := by
  obtain ⟨s, hs, hcases⟩ := unhash_cases hrun
  have hlog : registered (.unhash i :: w.history) j = registered w.history j := by simp [registered, hj]
  cases hcases with
  | unhashed _ hw | unlinked _ _ _ hw => exact hw ▸ ⟨rfl, hlog⟩
  | service table stats _ _ _ hw | linked _ hw => exact hw ▸ ⟨edit_other hj, hlog⟩

theorem hash_leaves (hj : j ≠ i) (hrun : servalSockHash w i mem = some w') : Leaves w w' j := by
  obtain ⟨s, hs, hcases⟩ := hash_cases hrun
  cases hcases with
  | kept _ hw => exact hw ▸ ⟨rfl, rfl⟩
  | flow _ _ hw => exact hw ▸ ⟨edit_other hj, rfl⟩
  | service table err _ _ _ _ _ hw =>
    exact hw ▸ ⟨edit_other hj, by simp [serviceAdded, World.log, SockMoves.registered, hj]⟩

theorem Leaves.trans (h : Leaves w w₁ j) (h' : Leaves w₁ w' j) : Leaves w w' j :=
  ⟨h'.sock.trans h.sock, h'.registered.trans h.registered⟩

theorem Move.leaves (h : Move i w w') (hj : j ≠ i) : Leaves w w' j := by
  cases h with
  | create s _ _ _ => exact ⟨Function.update_of_ne hj _ _, rfl⟩
  | edit f _ _ => exact ⟨edit_other hj, rfl⟩
  | hash mem w' _ hrun => exact hash_leaves hj hrun
  | unhash w' hrun => exact unhash_leaves hj hrun
  | state newState w' _ _ hrun =>
    obtain ⟨w₁, hw₁, hrun⟩ := bind_eq_some_iff.mp hrun
    cases hrun
    have hfirst : Leaves w w₁ j := by
      split at hw₁
      · exact unhash_leaves hj hw₁
      · exact some.inj hw₁ ▸ ⟨rfl, rfl⟩
    exact hfirst.trans ⟨edit_other hj, rfl⟩

theorem Moves.leaves (h : Moves S w w') (hj : j ∉ S) : Leaves w w' j := by
  induction h with
  | refl => exact ⟨rfl, rfl⟩
  | tail _ hmove ih =>
    obtain ⟨i, hi, hmove⟩ := hmove
    exact ih.trans (hmove.leaves fun heq => hj (heq ▸ hi))

/-! ## The history -/

theorem unhash_history (hrun : servalSockUnhash w i = some w') : w.history <:+ w'.history := by
  obtain ⟨s, hs, hcases⟩ := unhash_cases hrun
  have hlog : w.history <:+ .unhash i :: w.history := suffix_cons _ _
  cases hcases with
  | unhashed _ hw | service table stats _ _ _ hw | unlinked _ _ _ hw => exact hw ▸ hlog
  | linked _ hw => exact hw ▸ hlog.trans (suffix_cons _ _)

theorem hash_history (hrun : servalSockHash w i mem = some w') : w.history <:+ w'.history := by
  obtain ⟨s, hs, hcases⟩ := hash_cases hrun
  cases hcases with
  | kept _ hw => exact hw ▸ suffix_rfl
  | flow _ _ hw | service table err _ _ _ _ _ hw => exact hw ▸ suffix_cons _ _

theorem Move.history (h : Move i w w') : w.history <:+ w'.history := by
  cases h with
  | create s _ _ _ | edit f _ _ => exact suffix_rfl
  | hash mem w' _ hrun => exact hash_history hrun
  | unhash w' hrun => exact unhash_history hrun
  | state newState w' _ _ hrun =>
    obtain ⟨w₁, hw₁, hrun⟩ := bind_eq_some_iff.mp hrun
    cases hrun
    rw [edit_history]
    split at hw₁
    · exact unhash_history hw₁
    · exact some.inj hw₁ ▸ suffix_rfl

theorem Moves.history (h : Moves S w w') : w.history <:+ w'.history := by
  induction h with
  | refl => exact suffix_rfl
  | tail _ hmove ih =>
    obtain ⟨i, -, hmove⟩ := hmove
    exact ih.trans hmove.history

end SockMoves
