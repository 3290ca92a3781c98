import Serval.SalTeardown

/-! # Requests that nobody completes

The keepalive timer of a listening socket is set with its first request. When it expires
`serval_sal_keepalive_timeout` calls `serval_sal_synack_timeout`, which is empty.
-/
namespace SalRequestTimeout

open SalSocket SalInput SalListen SalRefine SalListener SalTeardown List

variable {env : Env} {w w' : World} {p : Packet} {sk sk' : Sock}

/-- A timer that expires is not set any more. -/
def keepaliveExpires (env : Env) (w : World) (owned keepopen : Bool) : World :=
  servalSalKeepaliveTimeout env (w.setSk { w.sk with timers := { w.sk.timers with keepalive := none } }) owned keepopen

/-- Packets, timer expiries and calls of `accept`, as long as the socket listens. `ok` is a
condition on the expiries. -/
inductive Listening (ok : World → Bool → Prop) (w₀ : World) : World → Prop where
  | start : Listening ok w₀ w₀
  | packet {w env tape p w' child} : Listening ok w₀ w → w.sk.skState = .listen →
      servalSalStateProcess env { w with tape := tape } p = some (w', child) → Listening ok w₀ w'
  | accept {w rsk sk'} : Listening ok w₀ w → w.sk.skState = .listen → servalAcceptDequeue w.sk = some (rsk, sk') →
      Listening ok w₀ (w.setSk sk')
  | expiry {w env owned keepopen} : Listening ok w₀ w → w.sk.skState = .listen →
      w.sk.timers.keepalive.isSome = true → ok w owned → Listening ok w₀ (keepaliveExpires env w owned keepopen)

structure Timed (sk : Sock) : Prop where
  qlen : sk.requestQlen = sk.synQueue.length
  armed : sk.synQueue ≠ [] → sk.timers.keepalive.isSome = true

def requests (sk : Sock) : List RequestSock × ℕ × Option ℕ := (sk.synQueue, sk.requestQlen, sk.timers.keepalive)

theorem Timed.of_eq (h : Timed sk) (heq : requests sk' = requests sk) : Timed sk' := by
  obtain ⟨hqueue, hrest⟩ := Prod.mk.inj heq
  obtain ⟨hqlen, hkeepalive⟩ := Prod.mk.inj hrest
  constructor
  · rw [hqlen, hqueue]
    exact h.qlen
  · rw [hqueue, hkeepalive]
    exact h.armed

/-! ## Packets -/

theorem rcvRsynack_requests (env : Env) (w : World) (p : Packet) :
    requests (servalSalRcvRsynack env w p).1.sk = requests w.sk := by
  obtain ⟨_, _, _, _, _, _, -, hsk⟩ := rcvRsynack_frame env w p
  rw [hsk]
  rfl

/-- Before the processing of LISTEN a reset closes the socket, and nothing else changes its requests. -/
theorem controlProcess_requests (hlisten : w.sk.skState = .listen) :
    (controlProcess env w p).2 = false ∧ (controlProcess env w p).1.sk.skState = .closed ∨
      requests (controlProcess env w p).1.sk = requests w.sk ∧ (controlProcess env w p).1.sk.skState = .listen := by
  have hverno : hasValidVerno p w.sk = true := by simp [hasValidVerno, hlisten]
  have hrefused : servalSalRcvRsyn env w p = (w, -1) := by simp [servalSalRcvRsyn, hlisten]
  rw [controlProcess]
  by_cases hctrl : p.ctrl.isNone = true
  · rw [if_pos hctrl]
    exact .inr ⟨rfl, hlisten⟩
  · rw [if_neg hctrl, hverno]
    simp only [Bool.not_true, Bool.false_eq_true, if_false]
    by_cases hrst : p.flags.rst = true
    · rw [if_pos hrst]
      exact .inl ⟨rfl, rcvReset_skState w⟩
    · rw [if_neg hrst]
      apply Or.inr
      split
      · split
        · exact ⟨rcvRsynack_requests .., rcvRsynack_same.skState.trans hlisten⟩
        · rw [hrefused]
          exact ⟨rfl, hlisten⟩
      · exact ⟨rfl, hlisten⟩

theorem added_timed (h : Timed w.sk) (rsk : RequestSock) : Timed (servalSockReqskQueueAdd env w rsk).sk := by
  constructor
  · exact congrArg (· + 1) h.qlen
  · intro _
    show Option.isSome (Timers.keepalive (if w.sk.requestQlen = 0 then _ else _)) = true
    split
    · rfl
    next hne =>
      apply h.armed
      intro hnil
      rw [h.qlen, hnil] at hne
      exact hne rfl

theorem accepted_timed (h : Timed w.sk) {rsk : RequestSock} (hmem : rsk ∈ w.sk.synQueue) :
    Timed (acceptRequest w rsk).sk := by
  have hlength := length_erase_of_mem hmem
  constructor
  · show w.sk.requestQlen - 1 = (w.sk.synQueue.erase rsk).length
    rw [hlength, h.qlen]
  · intro hleft
    show Option.isSome (Timers.keepalive (if w.sk.requestQlen = 1 then _ else _)) = true
    split
    next hone =>
      -- the last request has left the queue
      rw [← h.qlen, hone] at hlength
      exact absurd (length_eq_zero_iff.mp hlength) hleft
    · exact h.armed (ne_nil_of_mem hmem)

theorem stateProcess_timed {child : Option World} (hlisten : w.sk.skState = .listen) (h : Timed w.sk)
    (hrun : servalSalStateProcess env w p = some (w', child)) : w'.sk.skState = .listen → Timed w'.sk := by
  have hcontrol := @controlProcess_requests env w p hlisten
  rw [servalSalStateProcess] at hrun
  generalize controlProcess env w p = r at hrun hcontrol
  obtain ⟨w₁, go⟩ := r
  rcases hcontrol with ⟨rfl, hclosed⟩ | ⟨hrequests, hlisten₁⟩
  · cases hrun
    intro hstate
    cases hclosed.symm.trans hstate
  · have h₁ : Timed w₁.sk := h.of_eq hrequests
    intro _
    cases go with
    | false =>
      cases hrun
      exact h₁
    | true =>
      simp only [Bool.not_true, Bool.false_eq_true, if_false] at hrun hlisten₁
      rw [if_pos hlisten₁] at hrun
      obtain ⟨ms, -, hlistened⟩ := listenStateProcess_cases hrun
      cases hlistened with
      | refused hsk | repeated _ hsk => exact hsk ▸ h₁
      | requested _ hsk => exact hsk ▸ added_timed h₁ _
      | accepted _ hreq => exact accepted_timed h₁ (requestOf_spec hreq).1

/-! ## Runs -/

theorem expires_owned (h : Timed w.sk) (keepopen : Bool) : Timed (keepaliveExpires env w true keepopen).sk :=
  ⟨h.qlen, fun _ => rfl⟩

theorem expires_alone (env : Env) (hlisten : w.sk.skState = .listen) (keepopen : Bool) :
    (keepaliveExpires env w false keepopen).sk.synQueue = w.sk.synQueue ∧
      (keepaliveExpires env w false keepopen).sk.skState = .listen ∧
      (keepaliveExpires env w false keepopen).sk.timers.keepalive = none := by
  simp [keepaliveExpires, servalSalKeepaliveTimeout, World.setSk, hlisten]

theorem listening_timed {w₀ : World} (hstart : Timed w₀.sk) (h : Listening (fun _ owned => owned = true) w₀ w)
    (hlisten : w.sk.skState = .listen) : Timed w.sk := by
  induction h with
  | start => exact hstart
  | @packet w env tape p w' child _ hstate hrun ih =>
    exact stateProcess_timed (w := { w with tape := tape }) hstate (ih hstate) hrun hlisten
  | accept _ hstate hdequeue ih =>
    rw [servalAcceptDequeue] at hdequeue
    split at hdequeue
    · cases hdequeue
    · cases hdequeue
      exact (ih hstate).of_eq rfl
  | expiry _ hstate _ howned ih =>
    subst howned
    exact expires_owned (ih hstate) _

/-- As long as every expiry finds the socket in use, the timer is set while there are requests. An
expiry at any other time leaves a request that has expired, if there is one. -/
theorem requests_timed {w₀ : World} (hempty : w₀.sk.synQueue = []) (hqlen : w₀.sk.requestQlen = 0)
    (h : Listening (fun _ owned => owned = true) w₀ w) (hlisten : w.sk.skState = .listen) :
    (w.sk.synQueue ≠ [] → w.sk.timers.keepalive.isSome = true) ∧
      ∀ env keepopen, (∀ rsk ∈ (keepaliveExpires env w false keepopen).sk.synQueue, env.now < rsk.expires) ↔
        ∀ rsk ∈ w.sk.synQueue, env.now < rsk.expires := by
  have hstart : Timed w₀.sk := ⟨by rw [hqlen, hempty]; rfl, fun hne => absurd hempty hne⟩
  refine ⟨(listening_timed hstart h hlisten).armed, fun env keepopen => ?_⟩
  rw [(expires_alone env hlisten keepopen).1]

theorem syn_processed : ∃ w child,
    servalSalStateProcess (serverEnv 40) ⟨exampleListener, [], []⟩ (exampleSyn 20 1 6) = some (w, child) ∧
      w.sk.skState = .listen ∧ w.sk.timers.keepalive.isSome = true ∧ w.sk.synQueue.map (·.expires) = [300] :=
  ⟨_, _, rfl, by decide +kernel, by decide +kernel, by decide +kernel⟩

/-- The request of a SYN is timed, -/
theorem requests_timed_syn :
    ∃ w, Listening (fun _ owned => owned = true) ⟨exampleListener, [], []⟩ w ∧ w.sk.synQueue ≠ [] ∧
      w.sk.timers.keepalive.isSome = true := by
  obtain ⟨w, child, hrun, hlisten, -, hqueue⟩ := syn_processed
  have hreach : Listening (fun _ owned => owned = true) ⟨exampleListener, [], []⟩ w := .packet .start rfl hrun
  have hne : w.sk.synQueue ≠ [] := fun hnil => by simp [hnil] at hqueue
  exact ⟨w, hreach, hne, (requests_timed rfl rfl hreach hlisten).1 hne⟩

/-- but after three seconds it is still there, and the timer is not set any more. -/
theorem request_outlives_timer : ∃ (env : Env) (w : World), env.now = 300 ∧
      Listening (fun _ _ => True) ⟨exampleListener, [], []⟩ (keepaliveExpires env w false false) ∧
      (keepaliveExpires env w false false).sk.skState = .listen ∧
      (∃ rsk ∈ (keepaliveExpires env w false false).sk.synQueue, rsk.expires ≤ env.now) ∧
      (keepaliveExpires env w false false).sk.timers.keepalive = none := by
  obtain ⟨w, child, hrun, hlisten, harmed, hqueue⟩ := syn_processed
  obtain ⟨hsame, hstate, hnone⟩ := expires_alone { serverEnv 40 with now := 300 } hlisten false
  refine ⟨_, w, rfl, .expiry (.packet .start rfl hrun) hlisten harmed trivial, hstate, ?_, hnone⟩
  obtain ⟨rsk, hmem, hexpires⟩ := mem_map.mp (hqueue ▸ mem_singleton_self 300)
  exact ⟨rsk, hsame ▸ hmem, le_of_eq hexpires⟩

end SalRequestTimeout
