import Serval.SalRexmitRefine

/-! # Retransmissions over whole runs

What the machine keeps holds in every state that inputs lead to.
-/
namespace SalRetransmission

open SalRtt SalSocket SalRefine SalRuns SalRexmit SalRexmitRefine Option SalListen UInt32 UInt8

/-- The control queue of a socket that has just been made. -/
structure Fresh (sk : Sock) : Prop where
  queue : sk.ctrlQueue = none
  head : sk.sendHead = false
  wnd : sk.snd.wnd = 1
  timer : sk.timers.xmit = none
  retransmits : sk.retransmits = 0
  rto : sk.rtt.rto ≤ SAL_RTO_MAX

theorem init_fresh (sk : Sock) (nonce : Nonce) (iss : UInt32) : Fresh (servalSockInit sk nonce iss) :=
  ⟨rfl, rfl, rfl, rfl, rfl, show SAL_TIMEOUT_INIT ≤ SAL_RTO_MAX by decide⟩

/-- The worlds that inputs lead to, with how often the packet in the queue has been sent again. A destroyed socket
takes no input. -/
inductive Reach (ok : Env → World → Input → Prop) (w₀ : World) : World → ℕ → Prop where
  | start : Reach ok w₀ w₀ 0
  | step {w n env tape i w' n'} : Reach ok w₀ w n → w.sk.destroyed = false →
      (i = .event .rexmitTimeout → w.sk.timers.xmit.isSome = true) → ok env w i →
      stepIn env { w with tape := tape } i = some w' → Acts env i (rx w.sk) (rx w.sk) n (rx w'.sk) n' →
      (i = .event .rexmitTimeout → w.sk.retransmits.toNat ≠ env.maxRetransmits → n' = n + 1) →
      Reach ok w₀ w' n'

variable {ok : Env → World → Input → Prop} {env : Env} {w₀ w w' : World} {n : ℕ} {i : Input} {tape : List Answer}

theorem Reach.preserves {P : Rx → ℕ → Prop} (h : Reach ok w₀ w n) (hstart : P (rx w₀.sk) 0)
    (hstep : ∀ {env w i r n n'}, ok env w i → Acts env i (rx w.sk) (rx w.sk) n r n' → P (rx w.sk) n → P r n') :
    P (rx w.sk) n := by
  induction h with
  | start => exact hstart
  | step _ _ _ hok _ hacts _ ih => exact hstep hok hacts ih

/-- Every input leads on. -/
theorem Reach.next (h : Reach ok w₀ w n) (hlive : w.sk.destroyed = false)
    (harmed : i = .event .rexmitTimeout → w.sk.timers.xmit.isSome = true) (hok : ok env w i)
    (hstep : stepIn env { w with tape := tape } i = some w') : ∃ n', Reach ok w₀ w' n' := by
  by_cases hrexmit : i = .event .rexmitTimeout ∧ w.sk.retransmits.toNat ≠ env.maxRetransmits
  · obtain ⟨rfl, hne⟩ := hrexmit
    obtain rfl := some.inj hstep
    have hrx : rx (servalSalRexmitTimeout env { w with tape := tape }).sk = (rx w.sk).rexmit env.now :=
      rexmitTimeout_rx hne
    exact ⟨n + 1, h.step hlive harmed hok hstep (hrx ▸ (Act.rexmit rfl (harmed rfl) hne).acts) fun _ _ => rfl⟩
  · obtain ⟨n', hacts⟩ := stepIn_rexmits hstep harmed n
    exact ⟨n', h.step hlive harmed hok hstep hacts fun hi hne => absurd ⟨hi, hne⟩ hrexmit⟩

def expires : Input → Bool
  | .event .rexmitTimeout => true
  | _ => false

/-- Inputs in one environment where all allocations and transmissions succeed. -/
def run (env : Env) (w : World) : List Input → Option World
  | [] => some w
  | i :: rest =>
    if w.sk.destroyed || expires i && w.sk.timers.xmit.isNone then none
    else (stepIn env { w with tape := [] } i).bind (run env · rest)

theorem reach_run {l : List Input} (hok : ∀ w i, ok env w i) (h : run env w l = some w')
    (hw : Reach ok w₀ w n) : ∃ n', Reach ok w₀ w' n' := by
  induction l generalizing w n with
  | nil =>
    cases h
    exact ⟨n, hw⟩
  | cons i rest ih =>
    rw [run] at h
    split at h
    · cases h
    next hguard =>
      obtain ⟨w₁, hstep, hrest⟩ := bind_eq_some_iff.mp h
      rw [Bool.or_eq_true, Bool.and_eq_true, not_or, Bool.not_eq_true] at hguard
      have harmed : i = .event .rexmitTimeout → w.sk.timers.xmit.isSome = true := by
        rintro rfl
        by_contra hnot
        exact hguard.2 ⟨rfl, by simpa using hnot⟩
      obtain ⟨n₁, hnext⟩ := hw.next hguard.1 harmed (hok w i) hstep
      exact ih hrest hnext

theorem reach_of_run {P : World → Prop} [DecidablePred P] (env : Env) (l : List Input) (hok : ∀ w i, ok env w i)
    (h : (run env w₀ l).any (fun w => decide (P w)) = true) : ∃ w n, Reach ok w₀ w n ∧ P w := by
  obtain ⟨w, hw, hP⟩ := (any_eq_true ..).mp h
  obtain ⟨n, hreach⟩ := reach_run hok hw .start
  exact ⟨w, n, hreach, of_decide_eq_true hP⟩

/-! ## Intervals -/

theorem Reach.rto_le (h : Reach ok w₀ w n) (hfresh : Fresh w₀.sk) : w.sk.rtt.rto ≤ SAL_RTO_MAX :=
  h.preserves (P := fun r _ => r.rtt.rto ≤ SAL_RTO_MAX) hfresh.rto fun _ hacts hr => hacts.rto_le hr

theorem toNat_min (a b : UInt32) : (min a b).toNat = min a.toNat b.toNat := by
  show (if a ≤ b then a else b).toNat = _
  split
  next h => exact (min_eq_left (le_iff_toNat_le.mp h)).symm
  next h => exact (min_eq_right (le_of_not_ge fun hge => h (le_iff_toNat_le.mpr hge))).symm

/-- Below 18 the shift does not lose a bit. -/
theorem rexmitInterval_eq {rtt : Rtt} (hrto : rtt.rto ≤ SAL_RTO_MAX) (hbackoff : rtt.backoff < 18) :
    rexmitInterval rtt = min (rtt.rto.toNat * 2 ^ (rtt.backoff + 1).toNat) SAL_RTO_MAX.toNat ∧
      (rtt.backoff + 1).toNat = rtt.backoff.toNat + 1 := by
  have hrto : rtt.rto.toNat ≤ 12000 := le_iff_toNat_le.mp hrto
  have hbackoff : rtt.backoff.toNat < 18 := lt_iff_toNat_lt.mp hbackoff
  have hnext : (rtt.backoff + 1).toNat = rtt.backoff.toNat + 1 := by
    rw [UInt8.toNat_add]
    exact Nat.mod_eq_of_lt (by show rtt.backoff.toNat + 1 < 256; omega)
  have hpow : (2 : ℕ) ^ (rtt.backoff + 1).toNat ≤ 2 ^ 18 := Nat.pow_le_pow_right (by decide) (by omega)
  have hshift : (rtt.rto <<< (rtt.backoff + 1).toUInt32).toNat = rtt.rto.toNat * 2 ^ (rtt.backoff + 1).toNat := by
    have hbits : (rtt.backoff + 1).toNat % 32 = (rtt.backoff + 1).toNat := Nat.mod_eq_of_lt (by omega)
    have hfits : rtt.rto.toNat * 2 ^ (rtt.backoff + 1).toNat < 2 ^ 32 :=
      lt_of_le_of_lt (Nat.mul_le_mul hrto hpow) (by decide)
    rw [UInt32.toNat_shiftLeft, toNat_toUInt32, hbits, Nat.shiftLeft_eq]
    exact Nat.mod_eq_of_lt hfits
  rw [rexmitInterval, toNat_min, hshift, min_assoc, min_self]
  exact ⟨rfl, hnext⟩

/-- The timer expires; the answers are those that the transmission gets. -/
def timeout (env : Env) (tape : List Answer) (w : World) : World := servalSalRexmitTimeout env { w with tape := tape }

theorem writeErr_spec (w : World) : (servalSalWriteErr w).sk.skState = .closed ∧
    (servalSalWriteErr w).sk.skErr ≠ 0 ∧ (servalSalWriteErr w).sk.timers.xmit = none := by
  rw [servalSalWriteErr]
  obtain ⟨_, _, _, _, _, -, hsk⟩ := done_frame (w.setSk { w.sk with
    skErr := if w.sk.skErrSoft ≠ 0 then w.sk.skErrSoft else ETIMEDOUT })
  rw [hsk]
  refine ⟨rfl, ?_, rfl⟩
  show (if w.sk.skErrSoft ≠ 0 then w.sk.skErrSoft else ETIMEDOUT) ≠ 0
  split
  next h => exact h
  · decide

theorem timeout_limit (h : w.sk.retransmits.toNat = env.maxRetransmits) :
    timeout env tape w = servalSalWriteErr { w with tape := tape } := if_pos h

theorem timeout_rx (h : w.sk.retransmits.toNat ≠ env.maxRetransmits) :
    rx (timeout env tape w).sk = (rx w.sk).rexmit env.now :=
  rexmitTimeout_rx (w := { w with tape := tape }) h

theorem timeout_armed {t : ℕ} (h : (timeout env tape w).sk.timers.xmit = some t) :
    w.sk.retransmits.toNat ≠ env.maxRetransmits ∧ t = env.now + rexmitInterval w.sk.rtt := by
  have hne : w.sk.retransmits.toNat ≠ env.maxRetransmits := by
    intro hmax
    rw [timeout_limit hmax, (writeErr_spec _).2.2] at h
    cases h
  have hxmit : (timeout env tape w).sk.timers.xmit = some (env.now + rexmitInterval w.sk.rtt) :=
    congrArg Rx.xmit (timeout_rx hne)
  exact ⟨hne, some.inj (h.symm.trans hxmit)⟩

theorem Reach.counted {limit : ℕ} (h : Reach (fun env _ _ => env.maxRetransmits = limit) w₀ w n)
    (hlimit : limit < 256) (hfresh : Fresh w₀.sk) : Counted limit (rx w.sk) n := by
  have hqueue : (rx w₀.sk).queue = none := by rw [rx, hfresh.queue]; rfl
  have hzero : (rx w₀.sk).retransmits = 0 := hfresh.retransmits
  refine h.preserves (P := Counted limit) ⟨fun harmed => ?_, Nat.zero_le _, ?_, fun _ _ => hzero, fun _ _ => ?_⟩
    fun hok hacts hr => hacts.counted hok hlimit hr
  · rw [show (rx w₀.sk).xmit = none from hfresh.timer] at harmed
    cases harmed
  · exact hzero ▸ Nat.zero_le _
  · exact hzero ▸ rfl

/-- Before each of these inputs the packet is in the queue, and none of them is a timeout or lets
the transport take a sample. -/
structure Meanwhile (q : Option CtrlSkb) (env : Env) (w : World) (i : Input) : Prop where
  queued : w.sk.ctrlQueue = q
  quiet : i ≠ .event .rexmitTimeout
  unsampled : ∀ m, ¬Makes env i (.updateRtt m)

theorem Reach.rtt_eq (h : Reach (Meanwhile w₀.sk.ctrlQueue) w₀ w n) (hagain : (rx w₀.sk).again = true) :
    w.sk.rtt = w₀.sk.rtt := by
  induction h with
  | start => rfl
  | step _ _ _ hok _ hacts _ ih =>
    refine (hacts.rtt_eq hok.quiet hok.unsampled ?_).trans ih
    rw [← hagain, Rx.again, rx, hok.queued]
    rfl

/-- SAL_RETRANSMITS_MAX, the default of the limit. -/
def SAL_RETRANSMITS_MAX : ℕ := 15

theorem intervals_grow (hfresh : Fresh w₀.sk)
    (h : Reach (fun env _ _ => env.maxRetransmits = SAL_RETRANSMITS_MAX) w₀ w n)
    (harmed : w.sk.timers.xmit.isSome = true) (hbackoff : w.sk.rtt.backoff < 18) {t : ℕ}
    (ht : (timeout env tape w).sk.timers.xmit = some t) :
    ∃ d, t = env.now + d ∧ w.sk.rtt.rto.toNat ≤ d ∧ d ≤ SAL_RTO_MAX.toNat ∧ (timeout env tape w).sk.rtt.backoff < 32 ∧
      d = min (w.sk.rtt.rto.toNat * 2 ^ (timeout env tape w).sk.rtt.backoff.toNat) SAL_RTO_MAX.toNat ∧
      ∀ env' tape' w' n' t', Reach (Meanwhile (timeout env tape w).sk.ctrlQueue) (timeout env tape w) w' n' →
        w'.sk.rtt.backoff < 18 → (timeout env' tape' w').sk.timers.xmit = some t' →
        ∃ d', t' = env'.now + d' ∧ d ≤ d' := by
  have hrto := h.rto_le hfresh
  obtain ⟨hne, rfl⟩ := timeout_armed ht
  have hrx := @timeout_rx env w tape hne
  have hrtt : (timeout env tape w).sk.rtt = { w.sk.rtt with backoff := w.sk.rtt.backoff + 1 } := congrArg Rx.rtt hrx
  obtain ⟨hinterval, hnext⟩ := rexmitInterval_eq hrto hbackoff
  have hlt : w.sk.rtt.backoff.toNat < 18 := lt_iff_toNat_lt.mp hbackoff
  rw [hrtt]
  refine ⟨_, rfl, ?_, ?_, lt_iff_toNat_lt.mpr (by rw [hnext]; show _ < 32; omega), hinterval, ?_⟩
  · rw [hinterval]
    exact le_min (Nat.le_mul_of_pos_right _ (Nat.two_pow_pos _)) (le_iff_toNat_le.mp hrto)
  · rw [hinterval]
    exact min_le_right _ _
  · intro env' tape' w' n' t' hrun hbackoff' ht'
    obtain ⟨-, rfl⟩ := timeout_armed ht'
    -- the packet was sent again, and so what comes in is no sample
    have hagain : (rx (timeout env tape w).sk).again = true := by
      obtain ⟨q, hq⟩ := isSome_iff_exists.mp ((h.counted (by decide) hfresh).armed harmed)
      rw [hrx, Rx.again, Rx.rexmit, hq]
      rfl
    have hrtt' : w'.sk.rtt = { w.sk.rtt with backoff := w.sk.rtt.backoff + 1 } := (hrun.rtt_eq hagain).trans hrtt
    rw [hrtt'] at hbackoff' ⊢
    obtain ⟨hinterval', hnext'⟩ := @rexmitInterval_eq { w.sk.rtt with backoff := w.sk.rtt.backoff + 1 } hrto hbackoff'
    refine ⟨_, rfl, ?_⟩
    rw [hinterval, hinterval', hnext']
    exact min_le_min_right _ (Nat.mul_le_mul_left _ (Nat.pow_le_pow_right (by decide) (Nat.le_succ _)))

namespace Sample

def limited (limit : ℕ) : Env := { exampleEnv 20 21 with maxRetransmits := limit }

def client : World :=
  ⟨{ servalSockInit (skAlloc .dgram 17) (exampleNonce 6) 500 with localFlowid := 1, boundDevIf := 1, saddr := 20 },
    [], []⟩

theorem client_fresh : Fresh client.sk :=
  ⟨rfl, rfl, rfl, rfl, rfl, (init_fresh (skAlloc .dgram 17) (exampleNonce 6) 500).rto⟩

def connect : Input := .connect SalListener.exampleService (some 10)

def timeouts (k : ℕ) : List Input := List.replicate k (.event .rexmitTimeout)

def synack : Input := .event (.packet (examplePacket 10 20 40 1 3 { syn := true, ack := true } 900 501))

/-- The SYN times out as often as it may, and after it the RSYN all but once. -/
def unanswered : List Input := connect :: timeouts 15 ++ [synack, .event (.migrate 2)] ++ timeouts 14

end Sample

open Sample in
/-- The SYN of a client, -/
theorem intervals_grow_syn : ∃ w n, Reach (fun env _ _ => env.maxRetransmits = SAL_RETRANSMITS_MAX) client w n ∧
      ∃ d, 600 = 0 + d ∧ w.sk.rtt.rto.toNat ≤ d := by
  have hrun : ∃ w n, Reach (fun env _ _ => env.maxRetransmits = SAL_RETRANSMITS_MAX) client w n ∧
      w.sk.timers.xmit.isSome = true ∧ w.sk.rtt.backoff < 18 ∧
      (timeout (limited 15) [] w).sk.timers.xmit = some 600 :=
    reach_of_run (limited 15) [connect] (fun _ _ => rfl) (by decide +kernel)
  obtain ⟨w, n, hreach, harmed, hbackoff, ht⟩ := hrun
  obtain ⟨d, hd, hle, -⟩ := intervals_grow client_fresh hreach harmed hbackoff ht
  exact ⟨w, n, hreach, d, hd, hle⟩

/-- and its RSYN after that. With a backoff of 30 all bits of the timeout are shifted out: after two
minutes the packet is sent again, and then at once. -/
theorem interval_lost : ∃ w n, Reach (fun env _ _ => env.maxRetransmits = SAL_RETRANSMITS_MAX) Sample.client w n ∧
      w.sk.rtt.rto = 300 ∧ w.sk.rtt.backoff = 29 ∧ w.sk.timers.xmit = some ((Sample.limited 15).now + 12000) ∧
      (timeout (Sample.limited 15) [] w).sk.timers.xmit = some ((Sample.limited 15).now + 0) :=
  reach_of_run (Sample.limited 15) Sample.unanswered (fun _ _ => rfl) (by decide +kernel)

/-! ## The limit -/

theorem rexmits_limited {limit : ℕ} (hlimit : limit ≤ 255) (hfresh : Fresh w₀.sk)
    (h : Reach (fun env _ _ => env.maxRetransmits = limit) w₀ w n) :
    n ≤ limit ∧ ∀ env tape, env.maxRetransmits = limit → n = limit →
      (timeout env tape w).sk.skState = .closed ∧ (timeout env tape w).sk.skErr ≠ 0 ∧
        (timeout env tape w).sk.timers.xmit = none := by
  have hcounted := h.counted (Nat.lt_succ_of_le hlimit) hfresh
  refine ⟨hcounted.le.trans hcounted.limit, fun env tape hmax hn => ?_⟩
  have hretransmits : w.sk.retransmits.toNat = env.maxRetransmits :=
    hmax ▸ le_antisymm hcounted.limit (hn ▸ hcounted.le)
  rw [timeout_limit hretransmits]
  exact writeErr_spec _

open Sample in
/-- As long as the eight bits of the counter are not the limit, the SYN of a client is sent again. -/
theorem syn_repeated {limit : ℕ} (k : ℕ) (hk : ∀ j < k, j % 256 ≠ limit) : ∃ w n, k ≤ n ∧
    Reach (fun env _ _ => env.maxRetransmits = limit) client w n ∧ w.sk.retransmits.toNat = k % 256 ∧
      w.sk.skState = .request ∧ w.sk.destroyed = false ∧ w.sk.timers.xmit.isSome = true := by
  induction k with
  | zero =>
    have hconnect : ∃ w, run (limited 0) client [connect] = some w ∧ w.sk.retransmits.toNat = 0 ∧
        w.sk.skState = .request ∧ w.sk.destroyed = false ∧ w.sk.timers.xmit.isSome = true :=
      ⟨_, rfl, rfl, rfl, rfl, rfl⟩
    obtain ⟨w, hrun, hw⟩ := hconnect
    obtain ⟨n, hreach⟩ := @reach_run (fun env _ _ => env.maxRetransmits = limit) (limited limit) client client w 0
      [connect] (fun _ _ => rfl) hrun .start
    exact ⟨w, n, Nat.zero_le _, hreach, hw⟩
  | succ k ih =>
    obtain ⟨w, n, hn, hreach, hcount, hstate, hlive, harmed⟩ := ih fun j hj => hk j (hj.trans (Nat.lt_succ_self k))
    have hne : w.sk.retransmits.toNat ≠ (limited limit).maxRetransmits := hcount ▸ hk k (Nat.lt_succ_self k)
    have hrx := @timeout_rx (limited limit) w [] hne
    have hacts : Acts (limited limit) (.event .rexmitTimeout) (rx w.sk) (rx w.sk) n
        (rx (timeout (limited limit) [] w).sk) (n + 1) := hrx ▸ (Act.rexmit rfl harmed hne).acts
    have hnext : (timeout (limited limit) [] w).sk.retransmits = w.sk.retransmits + 1 := congrArg Rx.retransmits hrx
    refine ⟨timeout (limited limit) [] w, n + 1, Nat.succ_le_succ hn, ?_, ?_, ?_, ?_, ?_⟩
    · exact hreach.step hlive (fun _ => harmed) rfl rfl hacts fun _ _ => rfl
    · rw [hnext, UInt8.toNat_add, hcount]
      exact Nat.mod_add_mod k 256 1
    · exact (congrArg Rx.state hrx).trans hstate
    · exact (congrArg Rx.destroyed hrx).trans hlive
    · exact congrArg (fun r => r.xmit.isSome) hrx

open Sample in
/-- At the limit 2 the third timeout of a SYN closes the socket. -/
theorem rexmits_limited_syn : ∃ w, Reach (fun env _ _ => env.maxRetransmits = 2) client w 2 ∧ w.sk.skState = .request ∧
    (timeout (limited 2) [] w).sk.skState = .closed ∧ (timeout (limited 2) [] w).sk.skErr ≠ 0 := by
  obtain ⟨w, n, hn, hreach, -, hstate, -⟩ := @syn_repeated 2 2 fun j hj => by omega
  obtain ⟨hle, hlimit⟩ := rexmits_limited (by decide) client_fresh hreach
  obtain rfl : n = 2 := le_antisymm hle hn
  obtain ⟨hclosed, herr, -⟩ := hlimit (limited 2) [] rfl rfl
  exact ⟨w, hreach, hstate, hclosed, herr⟩

/-- Eight bits are never 256. -/
theorem rexmits_unlimited : ∃ w n, 256 < n ∧ Reach (fun env _ _ => env.maxRetransmits = 256) Sample.client w n ∧
    w.sk.skState = .request ∧ w.sk.destroyed = false ∧ w.sk.timers.xmit.isSome = true := by
  obtain ⟨w, n, hn, hreach, -, hw⟩ := @syn_repeated 256 257 fun j _ => by omega
  exact ⟨w, n, hn, hreach, hw⟩

/-! ## Queue, timer and numbers -/

theorem Reach.sound (h : Reach (fun env w i => Calm env (rx w.sk) i) w₀ w n) (hfresh : Fresh w₀.sk) :
    Sound (rx w.sk) := by
  have hqueue : (rx w₀.sk).queue = none := by rw [rx, hfresh.queue]; rfl
  have hxmit : (rx w₀.sk).xmit = none := hfresh.timer
  have hhead : (rx w₀.sk).sendHead = false := hfresh.head
  refine h.preserves (P := fun r _ => Sound r) ?_ fun hcalm hacts hr => hacts.sound hcalm hr
  constructor
  · exact hfresh.wnd
  all_goals simp [hqueue, hxmit, hhead]

theorem queue_consistent (hfresh : Fresh w₀.sk) (h : Reach (fun env w i => Calm env (rx w.sk) i) w₀ w n)
    (hopen : w.sk.skState ≠ .closed) :
    (w.sk.timers.xmit.isSome = true ↔ w.sk.ctrlQueue.isSome = true) ∧ (∀ skb, w.sk.ctrlQueue = some skb →
        skb.verno = w.sk.snd.una ∧ w.sk.snd.nxt - w.sk.snd.una ≤ w.sk.snd.wnd) ∧
      (w.sk.sendHead = true → ∃ skb, w.sk.ctrlQueue = some skb ∧ ∀ env a,
        (servalSalWriteXmit env w a).2 = (servalSalTransmitSkb env
          (w.setSk { w.sk with ctrlQueue := some { skb with stamp := salTimeStamp env } }) a
          { skb with stamp := salTimeStamp env } true).2) := by
  have hsound := h.sound hfresh
  have hsome : (rx w.sk).queue.isSome = w.sk.ctrlQueue.isSome := isSome_map ..
  have hwindow : w.sk.ctrlQueue.isSome = true → w.sk.snd.nxt - w.sk.snd.una ≤ w.sk.snd.wnd :=
    fun hq => hsound.window hopen (hsome ▸ hq)
  refine ⟨⟨fun harmed => hsome ▸ hsound.armed harmed, fun hq => hsound.timer hopen (hsome ▸ hq)⟩, ?_, ?_⟩
  · intro skb hskb
    refine ⟨(hsound.number skb.verno skb.flags.retrans ?_).symm, hwindow (hskb ▸ rfl)⟩
    rw [rx, hskb]
    rfl
  · intro hhead
    obtain ⟨skb, hskb⟩ := isSome_iff_exists.mp (hsome ▸ hsound.head hopen hhead)
    refine ⟨skb, hskb, fun env a => ?_⟩
    rw [servalSalWriteXmit, hskb]
    simp only [hhead, Bool.true_and, decide_eq_true_eq, hwindow (hskb ▸ rfl), if_true]
    split <;> rfl

namespace Sample

theorem connect_calm {r : Rx} : Calm (limited 15) r connect where
  fin _ hi := nomatch hi
  migrate _ hi := nomatch hi
  connect _ _ _ := le_rfl

def fin : Input := .event (.packet (examplePacket 10 20 40 1 3 { fin := true } 901 501))

/-- The transport closes the socket while it receives. -/
def closing : Env := { limited 15 with transport := { udpTransport with receive := [.done] } }

end Sample

open Sample in
/-- After a connect, -/
theorem queue_consistent_syn : ∃ w n, Reach (fun env w i => Calm env (rx w.sk) i) client w n ∧
      w.sk.ctrlQueue.isSome = true ∧ w.sk.timers.xmit.isSome = true := by
  obtain ⟨w, hw, hopen, hqueue⟩ : ∃ w, stepIn (limited 15) client connect = some w ∧
      w.sk.skState ≠ .closed ∧ w.sk.ctrlQueue.isSome = true := ⟨_, rfl, by decide +kernel, by decide +kernel⟩
  have hstart : Reach (fun env w i => Calm env (rx w.sk) i) client client 0 := .start
  obtain ⟨n, hreach⟩ := hstart.next (i := connect) rfl (fun hi => nomatch hi) connect_calm hw
  obtain ⟨harmed, -⟩ := queue_consistent client_fresh hreach hopen
  exact ⟨w, n, hreach, hqueue, harmed.mpr hqueue⟩

/-- and after a migration in REQUEST, which takes a number without a packet, and after a FIN during
which the transport has closed the socket: no timer is set for the RSYN. -/
theorem queue_inconsistent : (∃ w n, Reach (fun _ _ _ => True) Sample.client w n ∧ w.sk.skState = .request ∧
      w.sk.ctrlQueue.isSome = true ∧ ¬w.sk.snd.nxt - w.sk.snd.una ≤ w.sk.snd.wnd) ∧
    ∃ w n, Reach (fun _ _ _ => True) Sample.client w n ∧ w.sk.skState = .closewait ∧
      w.sk.ctrlQueue.isSome = true ∧ w.sk.timers.xmit = none :=
  ⟨reach_of_run (Sample.limited 15) [Sample.connect, .event (.migrate 2)] (fun _ _ => trivial) (by decide +kernel),
    reach_of_run Sample.closing [Sample.connect, Sample.synack, .event (.migrate 2), Sample.fin] (fun _ _ => trivial)
      (by decide +kernel)⟩

end SalRetransmission
