import Serval.SockMoves

/-! # Calls as moves

Each call of a socket is a chain of moves. Between calls, a socket that the user takes for unconnected
is in no connection, and the sockets in an accept queue are.
-/
namespace SockCalls

open SockTables SockEstablished SockMoves List Option Relation Function Move
open SalBuild (SalState)
open SalSocket (FlowId ServiceId)

variable {w w' : World} {i j : SockPtr} {s : ServalSock} {f : ServalSock → ServalSock}

/-! ## What the calls look at -/

structure Sight where
  sal : SalState
  user : Option SocketState
  queue : List SockPtr

def sight (s : ServalSock) : Sight := ⟨s.skState, s.state, s.acceptQueue⟩

def view (w : World) (i : SockPtr) : Option Sight := (w.socks i).map sight

theorem view_some (h : w.socks i = some s) : view w i = some (sight s) := by
  rw [view, h, map_some]

variable {v v' : Sight}

/-- The call leaves all other sockets as they look. -/
def Sees (w w' : World) (i : SockPtr) (v : Sight) : Prop := view w' = update (view w) i (some v)

theorem Sees.self (h : Sees w w' i v) : view w' i = some v := by rw [h, update_self]

theorem Sees.refl (h : view w i = some v) : Sees w w i v := (update_eq_self_iff.mpr h.symm).symm

theorem Sees.trans {w'' : World} (h : Sees w w' i v) (h' : Sees w' w'' i v') : Sees w w'' i v' := by
  rw [Sees, h', h, update_idem]

theorem Sees.of_view {w'' : World} (h : Sees w w' i v) (hview : view w'' = view w') : Sees w w'' i v := hview.trans h

theorem sees_edit (hs : w.socks i = some s) : Sees w (w.edit i f) i (sight (f s)) := by
  funext j
  by_cases hj : j = i
  · subst hj
    rw [view, edit_self hs, update_self, map_some]
  · rw [view, edit_other hj, update_of_ne hj, view]

theorem view_edit_same (h : ∀ s, sight (f s) = sight s) : view (w.edit i f) = view w := by
  funext j
  by_cases hj : j = i
  · subst hj
    cases hs : w.socks j <;> simp [view, World.edit, hs, h]
  · rw [view, edit_other hj, view]

theorem view_unhash (h : servalSockUnhash w i = some w') : view w' = view w := by
  obtain ⟨s, hs, hcases⟩ := unhash_cases h
  cases hcases with
  | unhashed _ hw | unlinked _ _ _ hw => exact hw ▸ rfl
  | service table stats _ _ _ hw | linked _ hw => exact hw ▸ view_edit_same fun _ => rfl

theorem view_hash {mem : ℕ} (h : servalSockHash w i mem = some w') : view w' = view w := by
  obtain ⟨s, hs, hcases⟩ := hash_cases h
  cases hcases with
  | kept _ hw => exact hw ▸ rfl
  | flow _ _ hw | service table err _ _ _ _ _ hw => exact hw ▸ view_edit_same fun _ => rfl

variable {newState : SalState} {r : ℤ}

theorem sees_setState (h : servalSockSetState w i newState = some w') (hv : view w i = some v) :
    Sees w w' i { v with sal := newState } := by
  obtain ⟨w₁, hw₁, h⟩ := Option.bind_eq_some_iff.mp h
  cases h
  have hview : view w₁ = view w := by
    split at hw₁
    · exact view_unhash hw₁
    · exact some.inj hw₁ ▸ rfl
  rw [← hview] at hv
  obtain ⟨s, hs, rfl⟩ := map_eq_some_iff.mp hv
  rw [Sees, ← hview]
  exact sees_edit hs

theorem sight_of_view {t : ServalSock} (hv : view w i = some v) (ht : w.socks i = some t) : sight t = v :=
  some.inj ((view_some ht).symm.trans hv)

def Idle (v : Sight) : Prop := v.user = some .unconnected → findable v.sal = false

structure Connection (v : Sight) : Prop where
  init : v.sal ≠ .init
  listen : v.sal ≠ .listen
  unconnected : v.user ≠ some .unconnected
  connecting : v.user ≠ some .connecting

structure Settled (w : World) : Prop where
  idle : ∀ i v, view w i = some v → Idle v
  queued : ∀ i v, view w i = some v → ∀ c ∈ v.queue, ∃ u, view w c = some u ∧ Connection u

theorem Settled.of_view (h : Settled w) (hview : view w' = view w) : Settled w' :=
  ⟨hview ▸ h.idle, hview ▸ h.queued⟩

theorem Settled.put (h : Settled w) (hsees : Sees w w' i v') (hidle : Idle v')
    (hqueue : ∀ c ∈ v'.queue, ∃ u, view w c = some u ∧ Connection u)
    (hconn : ∀ v, view w i = some v → Connection v → Connection v') : Settled w' := by
  have hcases : ∀ {j u}, view w' j = some u → j = i ∧ u = v' ∨ view w j = some u := by
    intro j u hu
    rw [hsees] at hu
    by_cases hj : j = i
    · rw [hj, update_self] at hu
      exact .inl ⟨hj, (some.inj hu).symm⟩
    · exact .inr (by rwa [update_of_ne hj] at hu)
  refine ⟨fun j u hu => ?_, fun j u hu c hc => ?_⟩
  · rcases hcases hu with ⟨-, rfl⟩ | hu
    · exact hidle
    · exact h.idle j u hu
  · obtain ⟨x, hx, hcx⟩ : ∃ x, view w c = some x ∧ Connection x := by
      rcases hcases hu with ⟨-, rfl⟩ | hu
      · exact hqueue c hc
      · exact h.queued j u hu c hc
    by_cases hci : c = i
    · subst hci
      exact ⟨v', hsees.self, hconn x hx hcx⟩
    · exact ⟨x, by rwa [hsees, update_of_ne hci], hcx⟩

theorem Settled.change (h : Settled w) (hv : view w i = some v) (hsees : Sees w w' i v') (hidle : Idle v')
    (hqueue : v'.queue ⊆ v.queue) (hconn : Connection v → Connection v') : Settled w' := by
  refine h.put hsees hidle (fun c hc => h.queued i v hv c (hqueue hc)) fun u hu => ?_
  cases hv.symm.trans hu
  exact hconn

theorem Settled.create (h : Settled w) (hnone : w.socks i = none) (hidle : Idle (sight s))
    (hqueue : s.acceptQueue = []) : Settled { w with socks := update w.socks i (some s) } := by
  have hsees : Sees w { w with socks := update w.socks i (some s) } i (sight s) := by
    funext j
    by_cases hj : j = i
    · subst hj
      simp [view]
    · simp [view, hj]
  refine h.put hsees hidle (fun c hc => ?_) fun v hv => ?_
  · simp [sight, hqueue] at hc
  · simp [view, hnone] at hv

/-! ## Calls -/

structure Calm (w : World) : Prop where
  linked : LinkedOk w
  settled : Settled w
  named : Named w

theorem calm_init : Calm init :=
  ⟨linkedOk_init, ⟨fun i v h => by simp [view, init] at h, fun i v h => by simp [view, init] at h⟩,
    fun i h => by simp [init, registered] at h⟩

theorem Calm.moves {S : List SockPtr} (h : Calm w) (hmoves : Moves S w w') (hsettled : Settled w') : Calm w' :=
  ⟨hmoves.invariant Move.linkedOk h.linked, hsettled, hmoves.invariant Move.named h.named⟩

def renamed (addr : SockaddrSv) (s : ServalSock) : ServalSock :=
  { s with
    localSrvid := addr.svSrvid
    srvidPrefixBits := addr.svPrefixBits
    srvidFlags := addr.svFlags.toUInt16 }

def forgets (w : World) (i : SockPtr) (s : ServalSock) : Option World :=
  if s.has SSK_FLAG_BOUND then servalSockUnhash w i
  else some (w.edit i fun s => { s with flags := servalSockSetFlag s.flags SSK_FLAG_BOUND })

inductive BindCases (w : World) (i : SockPtr) (addr : SockaddrSv) (mem : ℕ) (w' : World) (r : ℤ) : Prop where
  | refused : w' = w → r = -EINVAL → BindCases w i addr mem w' r
  | hashed (s w₁ t) : w.socks i = some s → addr.svSrvid ≠ nullService → forgets w i s = some w₁ →
      servalSockHash (w₁.edit i (renamed addr)) i mem = some w' → w'.socks i = some t →
      r = (if t.has SSK_FLAG_HASHED then 0 else -EINVAL) → BindCases w i addr mem w' r

theorem bind_cases {addr : SockaddrSv} {addrLen mem : ℕ}
    (h : servalBind w i addr addrLen mem = some (w', r)) : BindCases w i addr mem w' r := by
  obtain ⟨s, hs, h⟩ := bind_eq_some_iff.mp h
  split at h
  next =>
    cases h
    exact .refused rfl rfl
  next =>
    split at h
    next =>
      cases h
      exact .refused rfl rfl
    next hnull =>
      obtain ⟨w₁, hw₁, h⟩ := bind_eq_some_iff.mp h
      obtain ⟨w₂, hw₂, h⟩ := bind_eq_some_iff.mp h
      obtain ⟨t, ht, h⟩ := bind_eq_some_iff.mp h
      cases h
      exact .hashed s w₁ t hs hnull hw₁ hw₂ ht rfl

theorem forgets_moves {w₁ : World} (h : Named w) (hs : w.socks i = some s) (hrun : forgets w i s = some w₁) :
    Moves [i] w w₁ ∧ registered w₁.history i = false ∧ view w₁ = view w ∧
      ∃ t, w₁.socks i = some t ∧ t.has SSK_FLAG_BOUND = true := by
  rw [forgets] at hrun
  split at hrun
  next hbound =>
    obtain ⟨t, ht, hname⟩ := unhash_sock hs hrun
    exact ⟨(unhash w₁ hrun).moves (by simp), (h.unhash hrun).2, view_unhash hrun, t, ht, hname.bound.trans hbound⟩
  next hbound =>
    cases hrun
    have hno := h.unbound hs (by simpa using hbound)
    have hmove : Move i w (w.edit i fun s => { s with flags := servalSockSetFlag s.flags SSK_FLAG_BOUND }) :=
      .editUnregistered (fun _ => ⟨rfl, rfl, rfl, rfl, rfl, rfl⟩) hno
    exact ⟨hmove.moves (by simp), hno, view_edit_same fun _ => rfl, _, edit_self hs, bound_set _⟩

theorem bind_moves {addr : SockaddrSv} {addrLen mem : ℕ} (h : Calm w)
    (hrun : servalBind w i addr addrLen mem = some (w', r)) : Moves [i] w w' ∧ view w' = view w := by
  cases bind_cases hrun with
  | refused hw _ => exact hw ▸ ⟨.refl, rfl⟩
  | hashed s w₁ t hs _ hw₁ hhash _ _ =>
    obtain ⟨hmoves, hno, hview, t, ht, hbound⟩ := forgets_moves h.named hs hw₁
    have hrename : Move i w₁ (w₁.edit i (renamed addr)) :=
      .editUnregistered (fun _ => ⟨rfl, rfl, rfl, rfl, rfl, rfl⟩) hno
    have hhash' : Move i (w₁.edit i (renamed addr)) w' := by
      refine .hash mem w' (fun u hu _ _ => ?_) hhash
      cases (edit_self ht).symm.trans hu
      exact hbound
    refine ⟨(hmoves.tail (by simp) hrename).tail (by simp) hhash', ?_⟩
    calc view w' = view (w₁.edit i (renamed addr)) := view_hash hhash
      _ = view w₁ := view_edit_same fun _ => rfl
      _ = view w := hview

theorem listen_moves {srvid : ServiceId} {mem : ℕ} (h : Calm w)
    (hrun : servalListen w i srvid mem = some (w', r)) : Moves [i] w w' ∧ Settled w' := by
  obtain ⟨s, hs, hrun⟩ := bind_eq_some_iff.mp hrun
  split at hrun
  next =>
    cases hrun
    exact ⟨.refl, h.settled⟩
  next hstate =>
    obtain ⟨w₁, hw₁, hrun⟩ := bind_eq_some_iff.mp hrun
    obtain ⟨w₂, hw₂, hrun⟩ := bind_eq_some_iff.mp hrun
    obtain ⟨rfl, -⟩ := Prod.mk.inj (some.inj hrun)
    rw [not_not] at hstate
    have hfirst : Moves [i] w w₁ ∧ view w₁ = view w := by
      split at hw₁
      next => exact some.inj hw₁ ▸ ⟨.refl, rfl⟩
      next hbound =>
        have hno := h.named.unbound hs (by simpa using hbound)
        refine ⟨Moves.tail (moves ?_ (mem_singleton_self i)) (by simp) (hash mem w₁ (fun u hu _ _ => ?_) hw₁),
          (view_hash hw₁).trans (view_edit_same fun _ => rfl)⟩
        · exact .editUnregistered (fun _ => ⟨rfl, rfl, rfl, rfl, rfl, rfl⟩) hno
        · cases (edit_self hs).symm.trans hu
          exact bound_autobound _
    obtain ⟨hmoves, hview⟩ := hfirst
    have hv₁ : view w₁ i = some (sight s) := hview ▸ view_some hs
    refine ⟨hmoves.tail (by simp) (.state .listen w₂ (fun t ht hl => ?_) (fun _ _ _ _ => .inl rfl) hw₂), ?_⟩
    · -- the socket is not connecting, and so not in the table
      have hidle := h.settled.idle i _ (view_some hs) hstate
      have hsal : t.skState = s.skState := congrArg Sight.sal (sight_of_view hv₁ ht)
      have hno := (hmoves.invariant linkedOk h.linked).not_linked ht (.inl (hsal ▸ hidle))
      simp [hno] at hl
    · exact (h.settled.of_view hview).change hv₁ (sees_setState hw₂ hv₁) (fun _ => rfl) (List.Subset.refl _)
        fun hconn => absurd hstate hconn.unconnected

theorem sees_editState (st : Option SocketState) (hv : view w i = some v) :
    Sees w (w.edit i fun s => { s with state := st }) i { v with user := st } := by
  obtain ⟨s, hs, rfl⟩ := map_eq_some_iff.mp hv
  exact sees_edit hs

theorem finish_moves (h : Calm w) (hs : w.socks i = some s) (hstate : s.state = some .connecting)
    (hrun : connectFinish w i s = (w', r)) : Moves [i] w w' ∧ Settled w' := by
  have hedit : ∀ {st}, (st = some .unconnected → findable s.skState = false) →
      Moves [i] w (w.edit i fun s => { s with state := st }) ∧ Settled (w.edit i fun s => { s with state := st }) := by
    intro st hidle
    exact ⟨(editState st).moves (by simp), h.settled.change (view_some hs) (sees_editState _ (view_some hs)) hidle
      (List.Subset.refl _) fun hconn => absurd hstate hconn.connecting⟩
  rw [connectFinish] at hrun
  split at hrun
  next =>
    cases hrun
    exact ⟨.refl, h.settled⟩
  next =>
    split at hrun
    next hclosed =>
      cases hrun
      exact hedit fun _ => by rw [hclosed]; rfl
    next =>
      cases hrun
      exact hedit fun hst => by cases hst

theorem connect_moves {err : ℤ} (h : Calm w) (hrun : servalConnect w i err = some (w', r)) :
    Moves [i] w w' ∧ Settled w' := by
  obtain ⟨s, hs, hrun⟩ := bind_eq_some_iff.mp hrun
  have hsame : ∀ {err : ℤ}, some (w, err) = some (w', r) → Moves [i] w w' ∧ Settled w' := by
    intro err heq
    cases heq
    exact ⟨.refl, h.settled⟩
  split at hrun
  next => exact hsame hrun
  next => exact hsame hrun
  next hstate => exact finish_moves h hs hstate (some.inj hrun)
  next hstate =>
    split at hrun
    next => exact hsame hrun
    next =>
      obtain ⟨w₁, hw₁, hrun⟩ := bind_eq_some_iff.mp hrun
      obtain ⟨w₂, hw₂, hrun⟩ := bind_eq_some_iff.mp hrun
      obtain ⟨w₃, hw₃, hrun⟩ := bind_eq_some_iff.mp hrun
      have hfirst : Moves [i] w w₁ ∧ view w₁ = view w ∧ registered w₁.history i = false := by
        split at hw₁
        next => exact ⟨(unhash w₁ hw₁).moves (by simp), view_unhash hw₁, (h.named.unhash hw₁).2⟩
        next hbound => exact some.inj hw₁ ▸ ⟨.refl, rfl, h.named.unbound hs (by simpa using hbound)⟩
      obtain ⟨hmoves, hview, hno⟩ := hfirst
      have hrequest : Move i w₁ w₂ :=
        .state .request w₂ (fun _ _ _ => .inr rfl) (fun _ _ hreg => by simp [hno] at hreg) hw₂
      have hsees₂ := sees_setState hw₂ (hview ▸ view_some hs)
      have hhash : Move i w₂ w₃ :=
        .hash 0 w₃ (fun t ht hne _ => absurd (congrArg Sight.sal (sight_of_view hsees₂.self ht)) hne) hw₃
      have hmoves₃ : Moves [i] w w₃ := (hmoves.tail (by simp) hrequest).tail (by simp) hhash
      have hsees : Sees w₁ w₃ i { sight s with sal := .request } := hsees₂.of_view (view_hash hw₃)
      rw [Sees, hview] at hsees
      have hconn : ∀ {v}, Connection (sight s) → Connection v := fun hconn => absurd hstate hconn.unconnected
      split at hrun
      next =>
        obtain ⟨w₄, hw₄, hrun⟩ := bind_eq_some_iff.mp hrun
        cases hrun
        exact ⟨hmoves₃.tail (by simp) (.close hw₄),
          h.settled.change (view_some hs) (Sees.trans hsees (sees_setState hw₄ (Sees.self hsees))) (fun _ => rfl)
            (List.Subset.refl _) hconn⟩
      next =>
        cases hrun
        exact ⟨hmoves₃.tail (by simp) (.editState _),
          h.settled.change (view_some hs) (Sees.trans hsees (sees_editState _ (Sees.self hsees)))
            (fun hst => by cases hst) (List.Subset.refl _) hconn⟩

theorem accept_moves (h : Calm w) (hrun : servalAccept w i = some (w', r)) : ∃ S, Moves S w w' ∧ Settled w' := by
  obtain ⟨s, hs, hrun⟩ := bind_eq_some_iff.mp hrun
  split at hrun
  next =>
    cases hrun
    exact ⟨[], .refl, h.settled⟩
  next =>
    split at hrun
    next =>
      cases hrun
      exact ⟨[], .refl, h.settled⟩
    next child rest hqueue =>
      cases hrun
      have hidle : Idle (sight s) := h.settled.idle i _ (view_some hs)
      have hrest : rest ⊆ s.acceptQueue := by
        rw [hqueue]
        exact subset_cons_self child rest
      have hsees : Sees w (w.edit i fun s => { s with acceptQueue := rest }) i _ := sees_edit hs
      have hfirst : Settled (w.edit i fun s => { s with acceptQueue := rest }) :=
        h.settled.change (view_some hs) hsees hidle hrest
          fun hconn => ⟨hconn.init, hconn.listen, hconn.unconnected, hconn.connecting⟩
      obtain ⟨u, hu, hconn⟩ := h.settled.queued i _ (view_some hs) child (by simp [sight, hqueue])
      have hkept : ∃ v, view (w.edit i fun s => { s with acceptQueue := rest }) child = some v := by
        by_cases hchild : child = i
        · subst hchild
          exact ⟨_, hsees.self⟩
        · exact ⟨u, by rwa [hsees, update_of_ne hchild]⟩
      obtain ⟨v, hv⟩ := hkept
      refine ⟨[i, child], (moves (.editQueue fun _ => rest) (by simp)).tail (by simp) (.editState _), ?_⟩
      exact hfirst.change hv (sees_editState _ hv) (fun hst => by cases hst) (List.Subset.refl _)
        fun hconn => ⟨hconn.init, hconn.listen, nofun, nofun⟩

theorem unhashAll_moves {S queue : List SockPtr} (hsub : queue ⊆ S) (hrun : queue.foldlM servalSockUnhash w = some w') :
    Moves S w w' ∧ view w' = view w := by
  induction queue generalizing w with
  | nil => exact some.inj hrun ▸ ⟨.refl, rfl⟩
  | cons i queue ih =>
    rw [foldlM_cons] at hrun
    obtain ⟨w₁, hw₁, hrun⟩ := bind_eq_some_iff.mp hrun
    obtain ⟨hi, hsub⟩ := cons_subset.mp hsub
    obtain ⟨hmoves, hview⟩ := ih hsub hrun
    exact ⟨((unhash w₁ hw₁).moves hi).trans hmoves, hview.trans (view_unhash hw₁)⟩

structure Closing (s : ServalSock) (v : Sight) : Prop where
  queue : v.queue = s.acceptQueue
  sal : ¬ Waits s → v.sal ≠ .init ∧ v.sal ≠ .listen

theorem salClose_moves {S : List SockPtr} {reset : Bool} (hs : w.socks i = some s) (hi : i ∈ S)
    (hrun : servalSalClose w i reset = some w') : Moves S w w' ∧ ∃ v, Sees w w' i v ∧ Closing s v := by
  obtain ⟨s', hs', hrun⟩ := bind_eq_some_iff.mp hrun
  cases hs.symm.trans hs'
  have hv := view_some hs
  have hfinish : ∀ {newState : SalState}, ¬ Waits s → findable newState = true →
      ((servalSockSetState w i newState).bind fun w₁ =>
        if reset then servalSockSetState w₁ i .closed else some w₁) = some w' →
      Moves S w w' ∧ ∃ v, Sees w w' i v ∧ Closing s v := by
    intro newState hwaits hnew hrun
    obtain ⟨w₁, hw₁, hw'⟩ := bind_eq_some_iff.mp hrun
    have hmove := (advance hs hwaits hnew hw₁).moves hi
    have hsees := sees_setState hw₁ hv
    split at hw'
    next =>
      exact ⟨hmove.tail hi (.close hw'), _, hsees.trans (sees_setState hw' hsees.self), rfl, fun _ =>
        ⟨by simp, by simp⟩⟩
    next =>
      cases hw'
      refine ⟨hmove, _, hsees, rfl, fun _ => ⟨?_, ?_⟩⟩ <;> rintro rfl <;> cases hnew
  have hclosed : servalSockSetState w i .closed = some w' → Moves S w w' ∧ ∃ v, Sees w w' i v ∧ Closing s v :=
    fun hw => ⟨(close hw).moves hi, _, sees_setState hw hv, rfl, fun _ => ⟨by simp, by simp⟩⟩
  have hstay : (pure w : Option World) = some w' → Moves S w w' ∧ ∃ v, Sees w w' i v ∧ Closing s v :=
    fun hw => some.inj hw ▸ ⟨.refl, _, .refl hv, rfl, fun hwaits => not_or.mp hwaits⟩
  dsimp only at hrun
  split at hrun
  next hstate => exact hfinish (by simp [Waits, hstate]) rfl hrun
  next hstate => exact hfinish (by simp [Waits, hstate]) rfl hrun
  next hstate => exact hfinish (by simp [Waits, hstate]) rfl hrun
  all_goals first
    | exact hclosed hrun
    | exact hstay hrun

theorem release_moves {reset : Bool} (h : Calm w) (hs : w.socks i = some s)
    (hrun : servalRelease w i reset = some (w', r)) :
    Moves (i :: s.acceptQueue) w w' ∧ Settled w' ∧ ∃ v, Sees w w' i v := by
  obtain ⟨s', hs', hrun⟩ := bind_eq_some_iff.mp hrun
  cases hs.symm.trans hs'
  obtain ⟨w₁, hw₁, hrun⟩ := bind_eq_some_iff.mp hrun
  cases hrun
  have hfirst : Moves (i :: s.acceptQueue) w w₁ ∧ ∃ v, Sees w w₁ i v ∧ v.queue ⊆ s.acceptQueue ∧
      (¬ Waits s → v.sal ≠ .init ∧ v.sal ≠ .listen) := by
    split at hw₁
    next hlisten =>
      obtain ⟨w₂, hw₂, hw₁⟩ := bind_eq_some_iff.mp hw₁
      obtain ⟨t, ht, hw₂⟩ := bind_eq_some_iff.mp hw₂
      cases hs.symm.trans ht
      obtain ⟨w₃, hw₃, hw₂⟩ := bind_eq_some_iff.mp hw₂
      cases hw₂
      obtain ⟨hmoves, hview⟩ := unhashAll_moves (subset_cons_self i s.acceptQueue) hw₃
      obtain ⟨u, hu⟩ : ∃ u, w₃.socks i = some u := by
        have hv : view w₃ i = some (sight s) := hview ▸ view_some hs
        obtain ⟨u, hu, -⟩ := map_eq_some_iff.mp hv
        exact ⟨u, hu⟩
      have hsees := (sees_edit hu).trans (sees_setState hw₁ (view_some (edit_self hu)))
      rw [Sees, hview] at hsees
      exact ⟨(hmoves.tail (by simp) (.editQueue _)).tail (by simp) (.close hw₁), _, hsees, nil_subset _,
        fun hwaits => absurd (.inr hlisten) hwaits⟩
    next =>
      split at hw₁
      next =>
        obtain ⟨hmoves, v, hsees, hclosing⟩ := salClose_moves hs (mem_cons_self (l := s.acceptQueue)) hw₁
        exact ⟨hmoves, v, hsees, hclosing.queue ▸ List.Subset.refl _, hclosing.sal⟩
      next =>
        cases hw₁
        exact ⟨.refl, _, .refl (view_some hs), List.Subset.refl _, fun hwaits => not_or.mp hwaits⟩
  obtain ⟨hmoves, v, hsees, hqueue, hsal⟩ := hfirst
  have hlast := hsees.trans (sees_editState none hsees.self)
  refine ⟨hmoves.tail (by simp) (.editState none), ?_, _, hlast⟩
  refine h.settled.change (view_some hs) hlast (fun hst => by cases hst) hqueue fun hconn => ?_
  obtain ⟨hinit, hlisten⟩ := hsal (not_or.mpr ⟨hconn.init, hconn.listen⟩)
  exact ⟨hinit, hlisten, nofun, nofun⟩

theorem Settled.enqueue (h : Settled w) (hs : w.socks i = some s) (hv : view w j = some v) (hconn : Connection v) :
    Settled (w.edit i fun p => { p with acceptQueue := p.acceptQueue ++ [j] }) := by
  have hidle : Idle (sight s) := h.idle i _ (view_some hs)
  refine h.put (sees_edit hs) hidle (fun c hc => ?_) fun u hu hc => ?_
  · rcases mem_append.mp hc with hc | hc
    · exact h.queued i _ (view_some hs) c hc
    · exact mem_singleton.mp hc ▸ ⟨v, hv, hconn⟩
  · obtain rfl := sight_of_view hu hs
    exact ⟨hc.init, hc.listen, hc.unconnected, hc.connecting⟩

theorem child_moves {parent : SockPtr} {flowid : FlowId} {srvid : ServiceId} (h : Calm w) (hnone : w.socks i = none)
    (hrun : servalSalCreateRespondSock w parent i flowid srvid = some w') : Moves [i, parent] w w' ∧ Settled w' := by
  obtain ⟨p, hp, hrun⟩ := bind_eq_some_iff.mp hrun
  have hparent : i ≠ parent := by
    rintro rfl
    simp [hnone] at hp
  dsimp only at hrun
  set child : ServalSock := { p with
    skState := .respond
    flags := servalSockSetFlag p.flags SSK_FLAG_CHILD
    hashKey := .null
    hashKeyLen := 0
    localFlowid := flowid
    localSrvid := srvid
    linked := false
    acceptQueue := []
    state := none } with hchild
  have hmade : ({ w with socks := update w.socks i (some child) } : World).socks i = some child :=
    update_self i _ _
  have hsettled : Settled { w with socks := update w.socks i (some child) } :=
    h.settled.create hnone (fun hst => by cases hst) rfl
  refine ⟨((moves (.create child hnone rfl rfl) (by simp)).tail (by simp) (.editQueue _)).tail (by simp)
    (.hash 0 w' (fun t ht _ hne => ?_) hrun), ?_⟩
  · rw [edit_other hparent] at ht
    cases hmade.symm.trans ht
    exact absurd rfl hne
  · have hp' : ({ w with socks := update w.socks i (some child) } : World).socks parent = some p := by
      simpa [hparent.symm] using hp
    exact (hsettled.enqueue hp' (view_some hmade) ⟨nofun, nofun, nofun, nofun⟩).of_view (view_hash hrun)

theorem state_moves (h : Calm w) (hs : w.socks i = some s) (hfollows : follows s.skState newState = true)
    (hrun : servalSockSetState w i newState = some w') : Moves [i] w w' ∧ Settled w' := by
  have hfindable : findable s.skState = true → newState = .closed ∨ findable newState = true := by
    revert hfollows
    cases s.skState <;> cases newState <;> simp [follows, findable]
  have hclosed : findable s.skState = false → newState = .closed := by
    revert hfollows
    cases s.skState <;> cases newState <;> simp [follows, findable]
  have hnew : newState ≠ .init ∧ newState ≠ .listen := by
    revert hfollows
    cases s.skState <;> cases newState <;> simp [follows]
  refine ⟨moves (.state newState w' (fun t ht hl => ?_) (fun t ht _ hwaits => .inr ?_) hrun) (mem_singleton_self i), ?_⟩
  · cases hs.symm.trans ht
    exact hfindable (h.linked.sock i s hs hl).state
  · cases hs.symm.trans ht
    rcases hwaits with hstate | hstate <;> exact hclosed (hstate ▸ rfl)
  · refine h.settled.change (view_some hs) (sees_setState hrun (view_some hs)) (fun hst => ?_) (List.Subset.refl _)
      fun hconn => ⟨hnew.1, hnew.2, hconn.unconnected, hconn.connecting⟩
    have hidle : findable s.skState = false := h.settled.idle i _ (view_some hs) hst
    rw [hclosed hidle]
    rfl

theorem step_moves {call : Call} (h : Calm w) (henabled : Enabled w call) (hrun : step w call = some (w', r)) :
    (∃ S, Moves S w w') ∧ Calm w' := by
  have hboth : ∃ S, Moves S w w' ∧ Settled w' := by
    cases call with
    | create i protocol flowid =>
      cases hrun
      exact ⟨[i], moves (.create _ henabled rfl rfl) (by simp), h.settled.create henabled (fun _ => rfl) rfl⟩
    | bind i addr addrLen mem =>
      obtain ⟨hmoves, hview⟩ := bind_moves h hrun
      exact ⟨[i], hmoves, h.settled.of_view hview⟩
    | listen i srvid mem => exact ⟨[i], listen_moves h hrun⟩
    | connect i err => exact ⟨[i], connect_moves h hrun⟩
    | accept i => exact accept_moves h hrun
    | close i reset =>
      obtain ⟨s, hs, -⟩ := henabled
      obtain ⟨hmoves, hsettled, -⟩ := release_moves h hs hrun
      exact ⟨_, hmoves, hsettled⟩
    | child parent i flowid srvid =>
      obtain ⟨w₁, hw₁, heq⟩ := map_eq_some_iff.mp hrun
      cases heq
      exact ⟨_, child_moves h henabled.1 hw₁⟩
    | state i newState =>
      obtain ⟨w₁, hw₁, heq⟩ := map_eq_some_iff.mp hrun
      cases heq
      obtain ⟨s, hs, hfollows⟩ := henabled
      exact ⟨_, state_moves h hs hfollows hw₁⟩
  obtain ⟨S, hmoves, hsettled⟩ := hboth
  exact ⟨⟨S, hmoves⟩, h.moves hmoves hsettled⟩

inductive Reach : World → Prop where
  | init : Reach init
  | step {w w' : World} (call : Call) (r : ℤ) : Reach w → Enabled w call → step w call = some (w', r) → Reach w'

theorem reach_calm (h : Reach w) : Calm w := by
  induction h with
  | init => exact calm_init
  | step call r _ henabled hrun ih => exact (step_moves ih henabled hrun).2

def Later : World → World → Prop :=
  ReflTransGen fun w w' => ∃ call r, Enabled w call ∧ step w call = some (w', r)

theorem Reach.later (h : Reach w) (hlater : Later w w') : Reach w' := by
  induction hlater with
  | refl => exact h
  | tail _ hstep ih =>
    obtain ⟨call, r, henabled, hrun⟩ := hstep
    exact .step call r ih henabled hrun

end SockCalls
