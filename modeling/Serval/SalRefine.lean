import Serval.SalControl
import Serval.SalListen

/-! # The code of a socket refines the control machine

Every function that a connection runs is a sequence of actions of the control machine on the
control state of the socket.
-/
namespace SalRefine

open SerialNumber SalSocket SalInput SalControl List World
open SalBuild (SalState)
open Option hiding or or_assoc

def ctl (sk : Sock) : Ctl where
  skState := sk.skState
  salState := sk.salState
  una := sk.snd.una
  nxt := sk.snd.nxt
  rcv := sk.rcv.nxt
  queue := sk.ctrlQueue.map fun skb => (skb.flags, skb.verno)
  destroyed := sk.destroyed
  saddr := sk.saddr
  daddr := sk.daddr
  migDaddr := sk.migDaddr
  boundDevIf := sk.boundDevIf
  migDevIf := sk.migDevIf
  localFlowid := sk.localFlowid
  peerFlowid := sk.peerFlowid
  localNonce := sk.localNonce
  peerNonce := sk.peerNonce

def Output.segment : Output → Option Segment
  | .sent seg => some seg
  | .delTarget _ _ => none

def sent (out : List Output) : List Segment := out.filterMap Output.segment

def Does (env : Env) (e : Event) (start : Ctl) (n : ℕ) (w w' : World) : Prop :=
  ∃ k ms, k ≤ n ∧ sent w'.out = sent w.out ++ ms ∧ Acts env e start k (ctl w.sk) ms (ctl w'.sk)

variable {env : Env} {e : Event} {start : Ctl} {n m : ℕ} {w w' w'' : World}

theorem Does.add (h₁ : Does env e start n w w') (h₂ : Does env e start m w' w'') : Does env e start (n + m) w w'' := by
  obtain ⟨k₁, ms₁, hk₁, hout₁, hacts₁⟩ := h₁
  obtain ⟨k₂, ms₂, hk₂, hout₂, hacts₂⟩ := h₂
  exact ⟨k₁ + k₂, ms₁ ++ ms₂, add_le_add hk₁ hk₂, by rw [hout₂, hout₁, append_assoc], hacts₁.trans hacts₂⟩

theorem Does.mono (h : Does env e start n w w') (hle : n ≤ m) : Does env e start m w w' := by
  obtain ⟨k, ms, hk, hout, hacts⟩ := h
  exact ⟨k, ms, hk.trans hle, hout, hacts⟩

theorem Does.trans (h₁ : Does env e start 0 w w') (h₂ : Does env e start n w' w'') : Does env e start n w w'' :=
  (h₁.add h₂).mono (by omega)

theorem Does.trans_free (h₁ : Does env e start n w w') (h₂ : Does env e start 0 w' w'') : Does env e start n w w'' :=
  h₁.add h₂

theorem Does.of_eq (hctl : ctl w'.sk = ctl w.sk) (hout : sent w'.out = sent w.out) : Does env e start n w w' :=
  ⟨0, [], Nat.zero_le n, by simp [hout], hctl ▸ Acts.refl⟩

theorem Does.refl : Does env e start n w w := .of_eq rfl rfl

theorem Does.of_act {ms : List Segment} (hact : Act env e start (ctl w.sk) ms (ctl w'.sk))
    (hout : sent w'.out = sent w.out ++ ms) (hn : ahead w.sk.snd.nxt w'.sk.snd.nxt ≤ n) : Does env e start n w w' :=
  ⟨_, ms, hn, hout, hact.acts⟩

theorem Does.act (hact : Act env e start (ctl w.sk) [] (ctl w'.sk)) (hout : sent w'.out = sent w.out)
    (hnxt : w'.sk.snd.nxt = w.sk.snd.nxt := by rfl) : Does env e start 0 w w' :=
  .of_act hact (by simp [hout]) (by simp [hnxt])

theorem Does.of_xmit {c : Ctl} {f : Flags} {v : UInt32} {ms : List Segment}
    (hact : Act env e start (ctl w.sk) ms (ctl w'.sk)) (hxmit : Xmit env.devs c f v ms (ctl w'.sk))
    (hout : sent w'.out = sent w.out ++ ms) (hn : ahead w.sk.snd.nxt c.nxt ≤ n) : Does env e start n w w' :=
  ⟨_, ms, by rw [hxmit.nxt]; exact hn, hout, hact.acts⟩

@[simp] theorem sent_append (out out' : List Output) : sent (out ++ out') = sent out ++ sent out' :=
  filterMap_append

@[simp] theorem sent_map (ms : List Segment) : sent (ms.map .sent) = ms := by
  simp [sent, Output.segment, filterMap_map, Function.comp_def]

/-! ## Sending -/

theorem buildHeader_carries (sk : Sock) (skb : CtrlSkb) (s d saddr daddr : Addr) : Carries (ctl sk) skb.flags skb.verno
      (servalSalBuildHeader { sk with saddr := s, daddr := d } skb saddr daddr) where
  ctrl ext hext := by
    simp only [servalSalBuildHeader] at hext
    split at hext
    · exact (some.inj hext).symm
    · cases hext
  srcFlowid := rfl
  dstFlowid := rfl
  srv0 hctrl hsyn hconn := by simp [servalSalBuildHeader, hctrl, hsyn, hconn]

structure Transmits (env : Env) (w : World) (skb : CtrlSkb) (w' : World) : Prop where
  sk : ∃ s d, w'.sk = { w.sk with saddr := s, daddr := d }
  tape : w'.tape = w.tape
  xmit : ∃ ms, w'.out = w.out ++ ms.map .sent ∧ Xmit env.devs (ctl w.sk) skb.flags skb.verno ms (ctl w'.sk)

variable {skb : CtrlSkb} {a : Answer}

theorem Transmits.failed : Transmits env w skb w where
  sk := ⟨_, _, rfl⟩
  tape := rfl
  xmit := ⟨[], by simp, .nothing⟩

section

variable (env w a) (dev : Option ℕ)

theorem queueXmit_out (skb : CtrlSkb) :
    (queueXmit env w a dev skb).1 = w ∨ (queueXmit env w a dev skb).1 =
        { w with out := w.out ++ [.sent (servalSalBuildHeader w.sk skb w.sk.saddr w.sk.daddr)] } := by
  rw [queueXmit]
  split
  · exact .inl rfl
  · simp only [emit]
    split
    · exact .inl rfl
    · exact .inr rfl

theorem queueXmit_sk (skb : CtrlSkb) : (queueXmit env w a dev skb).1.sk = w.sk := by
  rcases queueXmit_out env w a dev skb with h | h <;> rw [h]

theorem World.eq_setSk {w : World} {sk : Sock} (h : w.sk = sk) : w = w.setSk sk := by
  subst h
  rfl

def migrationSock (env : Env) (sk : Sock) : Sock :=
  { sk with
    saddr := (env.devs sk.migDevIf).getD sk.saddr
    daddr := if sk.salState = .recv then sk.migDaddr else sk.daddr }

theorem doXmit_rsyn (skb : CtrlSkb) (h : skb.flags.rsyn = true) :
    ∃ dev, (servalSalDoXmit env w a skb).1 =
      (queueXmit env (w.setSk (migrationSock env w.sk)) a dev skb).1.setSk { w.sk with
        saddr := if (env.devs w.sk.migDevIf).isSome then
            (env.devs w.sk.boundDevIf).getD (migrationSock env w.sk).saddr
          else w.sk.saddr } := by
  refine ⟨(env.devs w.sk.migDevIf).map fun _ => w.sk.migDevIf, ?_⟩
  by_cases hrecv : w.sk.salState = .recv
  · cases hdev : env.devs w.sk.migDevIf <;>
      simp [servalSalDoXmit, h, hrecv, hdev, setSk, queueXmit_sk, migrationSock]
  · cases hdev : env.devs w.sk.migDevIf
    · simp only [servalSalDoXmit, h, hdev, setSk, queueXmit_sk, migrationSock, getD_none,
        isSome_none, Bool.not_true, Bool.false_eq_true, if_false, hrecv, map_none]
      exact World.eq_setSk (queueXmit_sk ..)
    · simp [servalSalDoXmit, h, hrecv, hdev, setSk, queueXmit_sk, migrationSock]

theorem doXmit_transmits (skb : CtrlSkb) : Transmits env w skb (servalSalDoXmit env w a skb).1 := by
  cases hrsyn : skb.flags.rsyn
  · rw [servalSalDoXmit, if_pos (by simp [hrsyn])]
    rcases queueXmit_out env w a none skb with h | h <;> rw [h]
    · exact .failed
    · refine ⟨⟨_, _, rfl⟩, rfl, [_], rfl, ⟨_, _, rfl⟩, ?_, fun _ => rfl, fun _ => .inl rfl, ?_⟩
      · simp only [mem_singleton, forall_eq]
        exact buildHeader_carries w.sk skb _ _ _ _
      · intro _ m hm
        rw [mem_singleton.mp hm]
        exact ⟨by simp [hrsyn]; rfl, by simp [hrsyn]; rfl⟩
  · obtain ⟨dev, h⟩ := doXmit_rsyn env w a skb hrsyn
    have hsaddr : ∀ s, s = (if (env.devs w.sk.migDevIf).isSome then
            (env.devs w.sk.boundDevIf).getD (migrationSock env w.sk).saddr
          else w.sk.saddr) → s = w.sk.saddr ∨
        skb.flags.rsyn = true ∧ ((env.devs w.sk.boundDevIf).isSome → env.devs w.sk.boundDevIf = some s) := by
      intro s hs
      split at hs
      · refine .inr ⟨hrsyn, fun hdev => ?_⟩
        obtain ⟨addr, haddr⟩ := isSome_iff_exists.mp hdev
        simp [hs, haddr]
      · exact .inl hs
    rw [h]
    rcases queueXmit_out env (w.setSk (migrationSock env w.sk)) a dev skb with h' | h' <;> rw [h']
    · exact ⟨⟨_, _, rfl⟩, rfl, [], by simp [setSk], ⟨_, _, rfl⟩, by simp, fun _ => rfl,
        fun _ => hsaddr _ rfl, by simp⟩
    · refine ⟨⟨_, _, rfl⟩, rfl, [_], rfl, ⟨_, _, rfl⟩, ?_, fun _ => rfl, fun _ => hsaddr _ rfl, ?_⟩
      · simp only [mem_singleton, forall_eq]
        exact buildHeader_carries w.sk skb _ _ _ _
      · intro _ m hm
        rw [mem_singleton.mp hm]
        exact ⟨by simp [hrsyn]; rfl, by simp [hrsyn]; rfl⟩

theorem transmit_transmits (skb : CtrlSkb) (useCopy : Bool) :
    Transmits env w skb (servalSalTransmitSkb env w a skb useCopy).1 := by
  rw [servalSalTransmitSkb]
  split
  · exact .failed
  · split
    · exact doXmit_transmits env w a skb
    next hsend =>
      have hsend : ¬(sendsAtOnce (ctl w.sk).skState = true ∨ (ctl w.sk).daddr ≠ 0) := by
        simpa [ctl] using hsend
      split
      · exact .failed
      next legs saddr err _ =>
        refine ⟨⟨_, _, rfl⟩, rfl, legs.map fun leg => servalSalBuildHeader w.sk skb leg.1 leg.2,
          by simp [Function.comp_def], ⟨_, _, rfl⟩, ?_, fun h => absurd h hsend, fun h => absurd h hsend,
          fun h => absurd h hsend⟩
        intro m hm
        obtain ⟨leg, -, rfl⟩ := mem_map.mp hm
        exact buildHeader_carries w.sk skb _ _ _ _

end

theorem queue_ctl {sk : Sock} (hq : sk.ctrlQueue = some skb) : (ctl sk).queue = some (skb.flags, skb.verno) := by
  simp [ctl, hq]

theorem Transmits.sent_out (h : Transmits env w skb w') :
    ∃ ms, sent w'.out = sent w.out ++ ms ∧ Xmit env.devs (ctl w.sk) skb.flags skb.verno ms (ctl w'.sk) := by
  obtain ⟨ms, hout, hxmit⟩ := h.xmit
  exact ⟨ms, by simp [hout], hxmit⟩

/-! ## The control queue -/

section

variable (env w a) (ackno : UInt32) (all : Bool)

theorem cleanRtxQueue_ctl :
    ctl (servalSalCleanRtxQueue env w ackno all).1.sk =
      { ctl w.sk with queue := (ctl w.sk).queue.filter fun q => !(after ackno q.2 || all) } := by
  rw [servalSalCleanRtxQueue]
  cases hq : w.sk.ctrlQueue with
  | none => simp [ctl, hq]
  | some skb =>
    simp only [ctl, hq, map_some, filter_some]
    cases after ackno skb.verno || all <;>
      simp [hq, servalSockResetXmitTimer, servalSockClearXmitTimer, setSk]

theorem cleanRtxQueue_kept : (servalSalCleanRtxQueue env w ackno all).1.out = w.out ∧
    (servalSalCleanRtxQueue env w ackno all).1.tape = w.tape := by
  rw [servalSalCleanRtxQueue]
  split
  · exact ⟨rfl, rfl⟩
  · split <;> exact ⟨rfl, rfl⟩

theorem cleanRtxQueue_flags : (servalSalCleanRtxQueue env w ackno true).2 = (ctl w.sk).pending := by
  rw [servalSalCleanRtxQueue]
  cases hq : w.sk.ctrlQueue <;> simp [ctl, Ctl.pending, hq]

theorem writeXmit_sent (skb : CtrlSkb) (hq : w.sk.ctrlQueue = some skb) :
    ∃ ms, sent (servalSalWriteXmit env w a).1.out = sent w.out ++ ms ∧
      Xmit env.devs (ctl w.sk) skb.flags skb.verno ms (ctl (servalSalWriteXmit env w a).1.sk) := by
  rw [servalSalWriteXmit, hq]
  simp only
  split
  · set skb' : CtrlSkb := { skb with stamp := salTimeStamp env }
    set w₁ := w.setSk { w.sk with ctrlQueue := some skb' }
    have hctl : ctl w₁.sk = ctl w.sk := by simp [w₁, setSk, ctl, hq, skb']
    obtain ⟨ms, hout, hxmit⟩ := (transmit_transmits env w₁ a skb' true).sent_out
    rw [hctl] at hxmit
    split
    · exact ⟨ms, hout, hxmit⟩
    · exact ⟨ms, hout, hxmit⟩
  · exact ⟨[], by simp, .nothing⟩

theorem queueAndPush_sent (skb : CtrlSkb) : ∃ ms, sent (servalSalQueueAndPush env w a skb).1.out = sent w.out ++ ms ∧
      Xmit env.devs ((ctl w.sk).enqueue skb.flags skb.verno) (skb.flags.or (ctl w.sk).pending) skb.verno ms
        (ctl (servalSalQueueAndPush env w a skb).1.sk) := by
  rw [servalSalQueueAndPush]
  simp only [cleanRtxQueue_flags]
  set w₁ := (servalSalCleanRtxQueue env w 0 true).1 with hw₁
  have hclean : ctl w₁.sk = { ctl w.sk with queue := none } := by
    rw [hw₁, cleanRtxQueue_ctl]
    simp
  set skb' : CtrlSkb := { skb with flags := skb.flags.or (ctl w.sk).pending } with hskb'
  set w₂ := servalSockResetXmitTimer env (servalSalQueueCtrlSkb w₁ skb')
    (servalSalQueueCtrlSkb w₁ skb').sk.rtt.rto.toNat with hw₂
  have hctl : ctl w₂.sk = (ctl w.sk).enqueue skb.flags skb.verno := by
    have : ctl w₂.sk = { ctl w₁.sk with queue := some (skb'.flags, skb'.verno), una := skb'.verno } := rfl
    rw [this, hclean]
    rfl
  have hout : w₂.out = w.out := by
    rw [hw₂, servalSockResetXmitTimer, servalSalQueueCtrlSkb, setSk, setSk, hw₁, (cleanRtxQueue_kept ..).1]
  have hwrite := writeXmit_sent env w₂ a skb' rfl
  rw [hctl, hout] at hwrite
  exact hwrite

/-! ## Packets that are not queued, and the one that is -/

theorem sendAck_transmits : Transmits env { w with tape := w.tape.tail }
    ⟨{ ack := true }, w.sk.snd.nxt, 0, false⟩ (servalSalSendAck env w).1 := by
  rw [servalSalSendAck]
  rcases hans : w.answer with ⟨a, w₁⟩
  cases hans
  dsimp only
  split
  · exact .failed
  · exact transmit_transmits ..

theorem sendActiveReset_transmits : Transmits env { w with tape := w.tape.tail }
    ⟨{ rst := true, ack := true }, w.sk.snd.nxt, 0, false⟩ (servalSalSendActiveReset env w) := by
  rw [servalSalSendActiveReset]
  rcases hans : w.answer with ⟨a, w₁⟩
  cases hans
  dsimp only
  split
  · exact .failed
  · exact transmit_transmits ..

end

theorem rexmit_transmits (env : Env) (hq : w.sk.ctrlQueue = some skb) :
    let skb' : CtrlSkb := { skb with flags := { skb.flags with retrans := true } }
    Transmits env { w with sk := { w.sk with ctrlQueue := some skb' }, tape := w.tape.tail } skb'
      (servalSalRexmit env w) := by
  rw [servalSalRexmit, hq]
  exact transmit_transmits ..

theorem sendFin_pushes (env : Env) (w : World) : servalSalSendFin env w = servalSalQueueAndPush env
    { w with sk := { w.sk with snd := { w.sk.snd with nxt := w.sk.snd.nxt + 1 } }, tape := w.tape.tail }
    (w.tape.headD {}) ⟨finFlags w.sk.salState, w.sk.snd.nxt, 0, false⟩ := by
  obtain ⟨⟨⟩, out, tape⟩ := w
  cases ‹RsynState› <;> rfl

theorem sendReset_cases (w : World) (p : Packet) : (servalSalSendReset w p).sk = w.sk ∧
    ((servalSalSendReset w p).out = w.out ∨ (servalSalSendReset w p).out = w.out ++ [.sent (resetSegment p)]) := by
  rw [servalSalSendReset]
  rcases hans : w.answer with ⟨a, w₁⟩
  cases hans
  dsimp only [emit]
  split_ifs
  any_goals exact ⟨rfl, .inl rfl⟩
  exact ⟨rfl, .inr rfl⟩

/-! ## Actions of the socket -/

theorem sendAck_does : Does env e start 0 w (servalSalSendAck env w).1 := by
  obtain ⟨ms, hout, hxmit⟩ := (sendAck_transmits env w).sent_out
  exact .of_xmit (.ack hxmit) hxmit hout (ahead_self _).le

theorem sendActiveReset_does : Does env e start 0 w (servalSalSendActiveReset env w) := by
  obtain ⟨ms, hout, hxmit⟩ := (sendActiveReset_transmits env w).sent_out
  exact .of_xmit (.activeReset hxmit) hxmit hout (ahead_self _).le

theorem sendReset_does {p : Packet} (he : e = .packet p) (hclosed : w.sk.skState = .closed) :
    Does env e start 0 w (servalSalSendReset w p) := by
  obtain ⟨hsk, hout | hout⟩ := sendReset_cases w p
  · exact .of_eq (by rw [hsk]) (by rw [hout])
  · have hact : Act env e start (ctl w.sk) [resetSegment p] (ctl (servalSalSendReset w p).sk) := by
      rw [hsk]
      exact .reset he hclosed
    exact .of_act hact (by simp [hout, sent, Output.segment]) (by simp [hsk])

section

variable (w) (s : SalState)

theorem unhash_frame :
    ∃ len est, (servalSockUnhash w).sk = { w.sk with hashKeyLen := len, established := est } := by
  rw [servalSockUnhash]
  split
  · exact ⟨_, _, rfl⟩
  · split
    · exact ⟨_, _, rfl⟩
    · split <;> exact ⟨_, _, rfl⟩

theorem setState_frame :
    ∃ len est, (servalSockSetState w s).sk = { w.sk with hashKeyLen := len, established := est, skState := s } := by
  rw [servalSockSetState]
  split
  · obtain ⟨len, est, hsk⟩ := unhash_frame w
    exact ⟨len, est, by rw [setSk, hsk]⟩
  · exact ⟨_, _, rfl⟩

theorem done_frame : ∃ len est tw queue destroyed,
    (queue = w.sk.ctrlQueue ∧ destroyed = w.sk.destroyed ∨ queue = none ∧ destroyed = true) ∧
      (servalSalDone w).sk = { w.sk with
        skState := .closed, hashKeyLen := len, established := est, shutdown := ⟨true, true⟩
        timers := { w.sk.timers with xmit := none, tw := tw, keepalive := none }
        ctrlQueue := queue, destroyed := destroyed } := by
  obtain ⟨len, est, hsk⟩ := setState_frame w .closed
  rw [servalSalDone, servalSockDone]
  simp only
  split
  next hdead =>
    rw [servalSockDestroy, if_neg (by simpa using hdead)]
    exact ⟨len, est, none, none, true, .inr ⟨rfl, rfl⟩, by simp only [setSk, hsk]⟩
  · exact ⟨len, est, w.sk.timers.tw, w.sk.ctrlQueue, w.sk.destroyed, .inl ⟨rfl, rfl⟩, by simp only [setSk, hsk]⟩

theorem unhash_sent : sent (servalSockUnhash w).out = sent w.out := by
  rw [servalSockUnhash]
  split
  · rfl
  · split
    · simp [sent, Output.segment]
    · split <;> rfl

theorem setState_ctl : ctl (servalSockSetState w s).sk = { ctl w.sk with skState := s } := by
  obtain ⟨len, est, hsk⟩ := setState_frame w s
  rw [hsk]
  rfl

theorem setState_nxt : (servalSockSetState w s).sk.snd.nxt = w.sk.snd.nxt :=
  congrArg Ctl.nxt (setState_ctl w s)

theorem setState_sent : sent (servalSockSetState w s).out = sent w.out := by
  rw [servalSockSetState]
  split
  · exact unhash_sent w
  · rfl

end

theorem setState_does {s : SalState} (h : unconnected s = false) (hopen : start.skState ≠ .closed)
    (hconn : s = .connected → start.skState = .respond) : Does env e start 0 w (servalSockSetState w s) :=
  .act (setState_ctl w s ▸ .state h hopen hconn) (setState_sent w s) (setState_nxt w s)

theorem done_ctl (w : World) : ∃ queue destroyed,
    (queue = (ctl w.sk).queue ∧ destroyed = (ctl w.sk).destroyed ∨ queue = none ∧ destroyed = true) ∧
      ctl (servalSalDone w).sk = { ctl w.sk with skState := .closed, queue := queue, destroyed := destroyed } := by
  obtain ⟨len, est, tw, queue, destroyed, hqueue, hsk⟩ := done_frame w
  rw [hsk]
  rcases hqueue with ⟨rfl, rfl⟩ | ⟨rfl, rfl⟩
  · exact ⟨_, _, .inl ⟨rfl, rfl⟩, rfl⟩
  · exact ⟨none, true, .inr ⟨rfl, rfl⟩, rfl⟩

theorem done_sent (w : World) : sent (servalSalDone w).out = sent w.out := by
  have hsent := setState_sent w .closed
  rw [servalSalDone, servalSockDone]
  simp only
  split
  · rw [servalSockDestroy]
    split <;> exact hsent
  · exact hsent

theorem done_does : Does env e start 0 w (servalSalDone w) := by
  obtain ⟨queue, destroyed, hqueue, hctl⟩ := done_ctl w
  exact .act (hctl ▸ .done hqueue) (done_sent w) (congrArg Ctl.nxt hctl)

theorem rcvReset_does : Does env e start 0 w (servalSalRcvReset w) := by
  rw [servalSalRcvReset]
  split
  case h_3 => exact .refl
  all_goals exact (Does.of_eq rfl rfl).trans done_does

theorem writeErr_does : Does env e start 0 w (servalSalWriteErr w) := (Does.of_eq rfl rfl).trans done_does

theorem queueAndPush_does {w₀ : World} (hact : ∀ {ms c'}, Xmit env.devs ((ctl w.sk).enqueue skb.flags skb.verno)
      (skb.flags.or (ctl w.sk).pending) skb.verno ms c' → Act env e start (ctl w₀.sk) ms c')
    (hout : sent w.out = sent w₀.out) (hn : ahead w₀.sk.snd.nxt w.sk.snd.nxt ≤ n) :
    Does env e start n w₀ (servalSalQueueAndPush env w a skb).1 := by
  obtain ⟨ms, hsent, hxmit⟩ := queueAndPush_sent env w a skb
  exact .of_xmit (hact hxmit) hxmit (hout ▸ hsent) hn

theorem sendFin_does (he : e = .close ∧ env.transport.close = none ∨ Calls env e .sendFin) :
    Does env e start 1 w (servalSalSendFin env w).1 := by
  rw [sendFin_pushes]
  exact queueAndPush_does (Act.sendFin (c := ctl w.sk) he) rfl (ahead_succ_self _).le

def withMigDev (sk : Sock) (dev : ℕ) : Sock := { sk with migDevIf := dev, snd := { sk.snd with nxt := sk.snd.nxt + 1 } }

theorem migrate_refused (env : Env) (w : World) (dev : ℕ) (h : refusesRsyn w.sk.skState = true) :
    servalSockMigrate env w dev = (w.setSk (withMigDev w.sk dev), -1) := by
  have hstate : w.sk.skState = .request ∨ w.sk.skState = .listen ∨ w.sk.skState = .closed := by
    cases hs : w.sk.skState <;> simp_all [refusesRsyn]
  exact if_pos hstate

theorem migrate_pushes (env : Env) (w : World) (dev : ℕ) (h : refusesRsyn w.sk.skState = false) :
    servalSockMigrate env w dev = servalSalQueueAndPush env
        { w with sk := { withMigDev w.sk dev with salState := requested w.sk.salState }, tape := w.tape.tail }
        (w.tape.headD {}) ⟨rsynFlags w.sk.skState, w.sk.snd.nxt, 0, false⟩ := by
  have hstate : ¬(w.sk.skState = .request ∨ w.sk.skState = .listen ∨ w.sk.skState = .closed) := by
    rintro (hs | hs | hs) <;> simp [hs, refusesRsyn] at h
  have hfin : rsynFlags w.sk.skState = { rsyn := true, fin := decide (w.sk.skState = .finwait1 ∨
      w.sk.skState = .closing ∨ w.sk.skState = .lastack) } := by
    cases w.sk.skState <;> rfl
  refine (if_neg hstate).trans ?_
  rw [hfin]
  obtain ⟨⟨⟩, out, tape⟩ := w
  cases ‹RsynState› <;> rfl

theorem migrate_does {dev : ℕ} (he : e = .migrate dev) : Does env e (ctl w.sk) 1 w (servalSockMigrate env w dev).1 := by
  cases hstate : refusesRsyn w.sk.skState
  · rw [migrate_pushes env w dev hstate]
    exact queueAndPush_does (fun hxmit => @Act.migrate _ _ (ctl w.sk) _ _ _ he hstate hxmit) rfl
      (ahead_succ_self _).le
  · rw [migrate_refused env w dev hstate]
    exact .of_act (.refused he hstate) (append_nil _).symm (ahead_succ_self _).le

theorem rexmit_does (he : e = .rexmitTimeout) : Does env e start 0 w (servalSalRexmit env w) := by
  cases hq : w.sk.ctrlQueue with
  | none =>
    rw [servalSalRexmit, hq]
    exact .refl
  | some skb =>
    obtain ⟨ms, hout, hxmit⟩ := (rexmit_transmits env hq).sent_out
    exact .of_xmit (.rexmit he (queue_ctl hq) hxmit) hxmit hout (ahead_self _).le

theorem rexmitTimeout_does (he : e = .rexmitTimeout) : Does env e start 0 w (servalSalRexmitTimeout env w) := by
  rw [servalSalRexmitTimeout]
  split
  · exact writeErr_does
  · exact (rexmit_does he).trans (.of_eq rfl rfl)

/-- Apart from its end in FINWAIT2, the keepalive timeout sets its timer at most. -/
theorem keepaliveTimeout_cases (env : Env) (w : World) (owned keepopen : Bool) :
    (∃ timer, servalSalKeepaliveTimeout env w owned keepopen =
        w.setSk { w.sk with timers := { w.sk.timers with keepalive := timer } }) ∨
      servalSalKeepaliveTimeout env w owned keepopen = servalSalDone w ∧ w.sk.skState = .finwait2 := by
  rw [servalSalKeepaliveTimeout]
  simp only
  split
  · exact .inl ⟨_, rfl⟩
  · split
    · exact .inl ⟨w.sk.timers.keepalive, rfl⟩
    · split
      next hfinwait2 => exact .inr ⟨rfl, hfinwait2.1⟩
      · split
        · exact .inl ⟨w.sk.timers.keepalive, rfl⟩
        · exact .inl ⟨_, rfl⟩

theorem keepaliveTimeout_does {owned keepopen : Bool} :
    Does env e start 0 w (servalSalKeepaliveTimeout env w owned keepopen) := by
  rcases keepaliveTimeout_cases env w owned keepopen with ⟨timer, h⟩ | ⟨h, -⟩ <;> rw [h]
  · exact .of_eq rfl rfl
  · exact done_does

theorem close_does (he : e = .close) : Does env e (ctl w.sk) 1 w (servalSalClose env w) := by
  rcases close_cases env w with ⟨s, hstate, hfinish⟩ | hsame | hdone
  · -- the change of state, and what follows it
    have hs : unconnected s = false ∧ w.sk.skState ≠ .closed ∧ s ≠ .connected := by
      rcases hstate with ⟨h, rfl⟩ | ⟨h | h, rfl⟩
      · exact ⟨rfl, by simp [h], by simp⟩
      · exact ⟨rfl, by simp [h], by simp⟩
      · exact ⟨rfl, by simp [h], by simp⟩
    obtain ⟨hs, hopen, hconn⟩ := hs
    generalize servalSalClose env w = w' at hfinish
    refine (setState_does hs hopen fun h => absurd h hconn).trans ?_
    cases hfinish with
    | fin hclose => exact sendFin_does (.inl ⟨he, hclose⟩)
    | reset => exact ((setState_does rfl hopen (by simp)).trans sendActiveReset_does).mono (by simp)
    | transport => exact .refl
  · rw [hsame]
    exact .refl
  · rw [hdone]
    exact done_does.mono (by simp)

def finCount (calls : List TransportCall) : ℕ := calls.count .sendFin

def finCalls (env : Env) : ℕ := finCount env.transport.receive

theorem transportCall_does {call : TransportCall} (he : Calls env e call) :
    Does env e start (finCount [call]) w (transportCall env w call) := by
  cases call with
  | sendFin => exact sendFin_does (.inr he)
  | sendActiveReset => exact sendActiveReset_does
  | rcvReset => exact rcvReset_does
  | writeErr => exact writeErr_does
  | done => exact done_does
  | updateRtt rtt => exact .of_eq rfl rfl

theorem transportReceive_does {p : Packet} (he : e = .packet p) :
    Does env e start (finCalls env) w (transportReceive env w) := by
  rw [transportReceive]
  have hcalls : ∀ calls : List TransportCall, (∀ call ∈ calls, Calls env e call) →
      ∀ w, Does env e start (finCount calls) w (calls.foldl (transportCall env) w) := by
    intro calls
    induction calls with
    | nil => exact fun _ w => .refl
    | cons call calls ih =>
      intro h w
      have hcount : finCount (call :: calls) = finCount [call] + finCount calls := by
        rw [finCount, finCount, finCount, ← count_append, singleton_append]
      rw [hcount]
      exact (transportCall_does (h call (by simp))).add (ih (fun c hc => h c (by simp [hc])) _)
  exact hcalls _ (fun call hcall => .inr ⟨p, he, hcall⟩) w

/-! ## Packets -/

section

variable (env w) (p : Packet)

theorem ackAccept_ctl : ctl (ackAccept env w p).sk = (ctl w.sk).accept p := by
  have hclean := cleanRtxQueue_ctl env w p.ackno (migrating w.sk.salState)
  rw [ackAccept, Ctl.accept]
  generalize (servalSalCleanRtxQueue env w p.ackno (migrating w.sk.salState)).1 = w₁ at hclean ⊢
  have hctl : { ctl w.sk with queue := (ctl w.sk).acked p.ackno, una := p.ackno } =
      { ctl w₁.sk with una := p.ackno } := by
    rw [hclean]
    rfl
  rw [hctl]
  clear hclean hctl
  obtain ⟨⟨⟩, out, tape⟩ := w₁
  cases ‹RsynState› <;> cases p.flags.rsyn <;> rfl

theorem ackAccept_kept : (ackAccept env w p).out = w.out ∧ (ackAccept env w p).tape = w.tape := by
  have hclean := cleanRtxQueue_kept env w p.ackno (migrating w.sk.salState)
  rw [ackAccept]
  generalize (servalSalCleanRtxQueue env w p.ackno (migrating w.sk.salState)).1 = w₁ at hclean ⊢
  obtain ⟨⟨⟩, out, tape⟩ := w₁
  cases ‹RsynState› <;> cases p.flags.rsyn <;> exact hclean

def rsynReceived (sk : Sock) (p : Packet) : Sock :=
  { sk with
    salState := received sk.salState
    rcv := { sk.rcv with nxt := p.verno + 1 }
    migDaddr := p.saddr }

theorem rcvRsyn_cases :
    (servalSalRcvRsyn env w p).1 = w ∨ hasValidControlExtension w.sk p = true ∧ refusesRsyn w.sk.skState = false ∧
        ∃ w₁ a, w₁.sk = rsynReceived w.sk p ∧ w₁.out = w.out ∧ ((servalSalRcvRsyn env w p).1 = w₁ ∨
            (servalSalRcvRsyn env w p).1 = (servalSalQueueAndPush env w₁ a
              ⟨{ rsyn := true, ack := true }, w₁.sk.snd.nxt, salTimeStamp env, false⟩).1) := by
  rw [servalSalRcvRsyn]
  split
  · exact .inl rfl
  next hvalid =>
    split
    · exact .inl rfl
    next hstate =>
      have hrefuses : refusesRsyn w.sk.skState = false := by
        cases hs : w.sk.skState <;> simp_all [refusesRsyn]
      refine .inr ⟨by simpa using hvalid, hrefuses, { w with sk := rsynReceived w.sk p, tape := w.tape.tail },
        w.tape.headD {}, rfl, rfl, ?_⟩
      cases halloc : (w.tape.headD {}).alloc
      · left
        simp only [answer, setSk, halloc, Bool.not_false, if_true]
        rfl
      · right
        simp only [answer, setSk, halloc, Bool.not_true, Bool.false_eq_true, if_false]
        rfl

theorem sendAck_frame :
    ∃ s d, (servalSalSendAck env w).1.sk = { w.sk with saddr := s, daddr := d } := (sendAck_transmits env w).sk

theorem rexmit_frame : ∃ s d, (servalSalRexmit env w).sk = { w.sk with
    ctrlQueue := w.sk.ctrlQueue.map fun skb => { skb with flags := { skb.flags with retrans := true } }
    saddr := s, daddr := d } := by
  cases hq : w.sk.ctrlQueue with
  | none =>
    refine ⟨w.sk.saddr, w.sk.daddr, ?_⟩
    rw [servalSalRexmit, hq]
    show w.sk = { w.sk with ctrlQueue := none }
    rw [← hq]
  | some skb => exact (rexmit_transmits env hq).sk

theorem sendAck_readdressed : Readdressed (ctl w.sk) (ctl (servalSalSendAck env w).1.sk) := by
  obtain ⟨s, d, h⟩ := sendAck_frame env w
  rw [h]
  exact ⟨_, _, rfl⟩

end

section Packet
variable {p : Packet} (he : e = .packet p) (hrst : p.flags.rst = false)
include he hrst

theorem rcvRsynack_does (hrsyn : p.flags.rsyn = true) (hack : p.flags.ack = true) :
    Does env e start 0 w (servalSalRcvRsynack env w p).1 := by
  rw [servalSalRcvRsynack]
  split
  next hsent =>
    split
    · exact .refl
    next addr hdev =>
      split
      · exact .refl
      next hackno =>
        refine Does.trans ?_ sendAck_does
        refine .act ?_ rfl
        exact .rsynackDone he hrsyn hack hrst hsent hdev (not_not.mp hackno)
  next hcross =>
    refine Does.trans ?_ sendAck_does
    refine .act ?_ rfl
    exact .rsynackCross he hrsyn hack hrst hcross
  · exact sendAck_does
  · exact sendAck_does

omit he hrst in
theorem checked_of_valid (h : hasValidControlExtension w.sk p = true) : Checked (ctl w.sk) p := by
  intro ext hext
  simp only [hasValidControlExtension, hext, Bool.and_eq_true, Bool.or_eq_true, decide_eq_true_iff] at h
  exact h.2

theorem rcvRsyn_does (hrsyn : p.flags.rsyn = true) (hack : p.flags.ack = false)
    (hverno : before p.verno w.sk.rcv.nxt = false) : Does env e (ctl w.sk) 0 w (servalSalRcvRsyn env w p).1 := by
  rcases rcvRsyn_cases env w p with h | ⟨hvalid, hrefuses, w₁, a, hsk, hout, h⟩
  · rw [h]
    exact .refl
  · have hmigrates : Migrates (ctl w.sk) p := ⟨hrsyn, hack, hrst, hrefuses, checked_of_valid hvalid, hverno⟩
    have htaken : ctl w₁.sk = (ctl w.sk).rsynTaken p := by
      rw [hsk]
      rfl
    have hsyn : Does env e (ctl w.sk) 0 w w₁ :=
      .act (htaken ▸ .rsyn he hmigrates) (by rw [hout]) (congrArg Ctl.nxt htaken)
    refine hsyn.trans ?_
    rcases h with h | h <;> rw [h]
    · exact .refl
    · refine queueAndPush_does ?_ rfl (ahead_self _).le
      rw [show w₁.sk.snd.nxt = (ctl w.sk).nxt from congrArg Ctl.nxt htaken, htaken]
      exact Act.rsynack he hmigrates

theorem rcvFin_does (hfin : p.flags.fin = true)
    (hverno : before p.verno w.sk.rcv.nxt = false ∨ w.sk.rcv.nxt = p.verno + 1) :
    Does env e start 0 w (servalSalRcvFin env w p).1 := by
  rw [servalSalRcvFin]
  split
  · exact .refl
  next hvalid =>
    refine Does.trans ?_ sendAck_does
    refine .act ?_ rfl
    exact .fin he hfin hrst (checked_of_valid (by simpa using hvalid)) hverno

omit he hrst in
theorem rcvRsynack_settled (hopen : w.sk.skState ≠ .closed) (hrsyn : p.flags.rsyn = true)
    (hverno : before p.verno w.sk.rcv.nxt = false ∨ p.flags = { ack := true } ∨
      p.flags = { rsyn := true, ack := true }) :
    Settled env (ctl w.sk) (ctl (servalSalRcvRsynack env w p).1.sk) p := by
  have hplain : ∀ c : Ctl, p.flags.rsyn = false → Readdressed (ctl w.sk) c :=
    fun _ h => by simp [hrsyn] at h
  have hack : ∀ sk : Sock, sk.skState ≠ .closed → sk.salState ≠ .sent → sk.salState ≠ .sentRecv →
      Settled env (ctl w.sk) (ctl (servalSalSendAck env (w.setSk sk)).1.sk) p := by
    intro sk hopen hsent hcross
    have hsettled : Settled env (ctl w.sk) (ctl sk) p :=
      ⟨hopen, hverno, hplain _, fun _ h => absurd h hsent, fun _ => hcross⟩
    exact hsettled.readdressed (sendAck_readdressed env (w.setSk sk))
  have hrefused : w.sk.salState = .sent →
      env.devs w.sk.migDevIf = none ∨ p.ackno ≠ w.sk.snd.una + 1 → Settled env (ctl w.sk) (ctl w.sk) p :=
    fun hsal h => ⟨hopen, hverno, hplain _, fun _ _ => ⟨⟨_, _, rfl⟩, h⟩, fun _ => by simp [ctl, hsal]⟩
  rw [servalSalRcvRsynack]
  split
  next hsal =>
    split
    next hdev => exact hrefused hsal (.inl hdev)
    · split
      next hackno => exact hrefused hsal (.inr hackno)
      · exact hack _ hopen (by simp) (by simp)
  · exact hack _ hopen (by simp) (by simp)
  next hsal => exact hack w.sk hopen (by simp [hsal]) (by simp [hsal])
  next hsal => exact hack w.sk hopen (by simp [hsal]) (by simp [hsal])

omit he hrst in
theorem ackProcess_frame : (servalSalAckProcess env w p).1.sk.rcv.nxt = w.sk.rcv.nxt ∧
    (servalSalAckProcess env w p).1.sk.skState = w.sk.skState := by
  rw [servalSalAckProcess]
  split
  · have h := ackAccept_ctl env w p
    obtain ⟨s, d, m, hframe⟩ := (ctl w.sk).accept_frame p
    rw [hframe] at h
    exact ⟨congrArg Ctl.rcv h, congrArg Ctl.skState h⟩
  · exact ⟨rfl, rfl⟩

theorem ackProcess_does (hsettled : p.flags.ack = true → Settled env start (ctl w.sk) p) :
    Does env e start 0 w (servalSalAckProcess env w p).1 := by
  rw [servalSalAckProcess]
  split
  next hack =>
    have hctl := ackAccept_ctl env w p
    obtain ⟨s, d, m, hframe⟩ := (ctl w.sk).accept_frame p
    have hflag : p.flags.ack = true := by
      simp only [ackAcceptable, Bool.and_eq_true] at hack
      exact hack.1.1
    refine .act ?_ (by rw [(ackAccept_kept env w p).1]) (congrArg Ctl.nxt (hctl.trans hframe))
    rw [hctl]
    exact .accept he hrst hack (hsettled hflag)
  · exact .refl

omit he hrst in
theorem next_spec {accepted : Prop} {s t : SalState} (h : Next accepted s t) :
    unconnected t = false ∧ t ≠ .closed ∧ s ≠ .closed ∧ s ≠ .connected ∧ (t = .connected → s = .respond) := by
  unfold Next at h
  split at h
  all_goals first | exact ⟨rfl, by simp, by simp, by simp, by simp⟩ | cases h

structure Processed (env : Env) (e : Event) (start : Ctl) (p : Packet) (w w' : World) : Prop where
  does : Does env e start 0 w w'
  state : w'.sk.skState = w.sk.skState
  verno : p.flags.fin = true → before p.verno w'.sk.rcv.nxt = false ∨ w'.sk.rcv.nxt = p.verno + 1

structure Unprocessed (env : Env) (e : Event) (start : Ctl) (p : Packet) (w w' : World) : Prop
    extends Processed env e start p w w' where
  settled : w.sk.skState ≠ .closed → p.flags.ack = true → Settled env start (ctl w'.sk) p

theorem does_stages (hstart : start.skState = w.sk.skState) (hrequest : w.sk.skState ≠ .request) :
    Stages env p w.sk.skState True (Unprocessed env e start p w) (Processed env e start p w) (Does env e start 0 w)
      (Does env e start 0 w) (Does env e start (finCalls env) w) where
  ackFirst {w'} h := by
    obtain ⟨_, _, hsk⟩ := sendAck_frame env w'
    exact ⟨⟨h.does.trans sendAck_does, by rw [hsk]; exact h.state, by rw [hsk]; exact h.verno⟩,
      fun hopen hack => (h.settled hopen hack).readdressed (sendAck_readdressed env w')⟩
  accept _ _ := trivial
  process hopen h := ⟨h.does.trans (ackProcess_does he hrst (h.settled hopen)), ackProcess_frame.2.trans h.state, by
    rw [ackProcess_frame.1]
    exact h.verno⟩
  unprocessed h := h.toProcessed
  fin hfin h := h.does.trans (rcvFin_does he hrst hfin (h.verno hfin))
  respond hs h := h.does.trans (.act (.respond he (h.state.trans hs)) rfl)
  noFin h := h.does
  state hnext h := by
    obtain ⟨hconn, -, hopen, -, hrespond⟩ := next_spec hnext
    exact h.trans (setState_does hconn (hstart.trans_ne hopen) fun ht => hstart.trans (hrespond ht))
  sameState h := h
  timer h := h.trans (.of_eq rfl rfl)
  ackLast h := h.trans sendAck_does
  receive h := h.trans (transportReceive_does he)
  noReceive h := h.mono (Nat.zero_le _)
  closewait hs _ h := h.trans_free (setState_does rfl (by simp [hstart, hs]) (by simp))
  done _ _ h := h.trans_free done_does
  reset hs h := (h.does.trans (sendReset_does he (h.state.trans hs))).mono (Nat.zero_le _)
  request hs := absurd hs hrequest

theorem dispatch_does (hverno : p.flags.fin = true → before p.verno w.sk.rcv.nxt = false ∨ w.sk.rcv.nxt = p.verno + 1)
    (hsettled : w.sk.skState ≠ .closed → p.flags.ack = true → Settled env start (ctl w.sk) p)
    (hstart : start.skState = w.sk.skState) (hrequest : w.sk.skState ≠ .request) :
    Does env e start (finCalls env) w (dispatch env w p) :=
  (does_stages he hrst hstart hrequest).dispatch rfl ⟨⟨.refl, rfl, hverno⟩, hsettled⟩

end Packet

theorem rcvRsynack_frame (env : Env) (w : World) (p : Packet) : ∃ s d dev mig addr st,
    migrating st = migrating w.sk.salState ∧ (servalSalRcvRsynack env w p).1.sk = { w.sk with
      saddr := s, daddr := d, boundDevIf := dev, migDevIf := mig, migDaddr := addr, salState := st } := by
  rw [servalSalRcvRsynack]
  split
  next hsal =>
    split
    · exact ⟨_, _, _, _, _, _, rfl, rfl⟩
    next addr _ =>
      split
      · exact ⟨_, _, _, _, _, _, rfl, rfl⟩
      · obtain ⟨s, d, h⟩ := sendAck_frame env (w.setSk { w.sk with
          salState := .initial, saddr := addr, boundDevIf := w.sk.migDevIf, migDevIf := 0 })
        exact ⟨s, d, _, _, _, .initial, by rw [hsal]; rfl, h⟩
  next hsal =>
    obtain ⟨s, d, h⟩ := sendAck_frame env (w.setSk { w.sk with salState := .recv, migDaddr := p.saddr })
    exact ⟨s, d, _, _, _, .recv, by rw [hsal]; rfl, h⟩
  all_goals
    obtain ⟨s, d, h⟩ := sendAck_frame env w
    exact ⟨s, d, _, _, _, _, rfl, h⟩

theorem rcvRsyn_frame (env : Env) (w : World) (p : Packet) :
    (servalSalRcvRsyn env w p).1.sk.skState = w.sk.skState ∧ ((servalSalRcvRsyn env w p).1.sk.rcv.nxt = w.sk.rcv.nxt ∨
        (servalSalRcvRsyn env w p).1.sk.rcv.nxt = p.verno + 1) := by
  rcases rcvRsyn_cases env w p with h | ⟨-, -, w₁, a, hsk, -, h⟩
  · rw [h]
    exact ⟨rfl, .inl rfl⟩
  · have hw₁ : w₁.sk.skState = w.sk.skState ∧ w₁.sk.rcv.nxt = p.verno + 1 := by
      rw [hsk]
      exact ⟨rfl, rfl⟩
    rcases h with h | h <;> rw [h]
    · exact ⟨hw₁.1, .inr hw₁.2⟩
    · obtain ⟨ms, -, hxmit⟩ := queueAndPush_sent env w₁ a
        ⟨{ rsyn := true, ack := true }, w₁.sk.snd.nxt, salTimeStamp env, false⟩
      obtain ⟨s, d, hctl⟩ := hxmit.frame
      exact ⟨(congrArg Ctl.skState hctl).trans hw₁.1, .inr ((congrArg Ctl.rcv hctl).trans hw₁.2)⟩

theorem validVerno_cases {sk : Sock} {p : Packet} (hlisten : sk.skState ≠ .listen)
    (hrequest : sk.skState ≠ .request) (h : hasValidVerno p sk = true) :
    before p.verno sk.rcv.nxt = false ∨ p.flags = { ack := true } ∨ p.flags = { rsyn := true, ack := true } := by
  simpa [hasValidVerno, hlisten, hrequest, or_assoc] using h

/-- The part of the processing that all states share, and what is known where it goes on. -/
theorem controlProcess_does {p : Packet} (he : e = .packet p) (hlisten : w.sk.skState ≠ .listen)
    (hrequest : w.sk.skState ≠ .request) :
    Does env e (ctl w.sk) 0 w (controlProcess env w p).1 ∧ ((controlProcess env w p).2 = true →
        p.flags.rst = false ∧ (controlProcess env w p).1.sk.skState = w.sk.skState ∧
        (p.flags.fin = true → before p.verno (controlProcess env w p).1.sk.rcv.nxt = false ∨
          (controlProcess env w p).1.sk.rcv.nxt = p.verno + 1) ∧
        (w.sk.skState ≠ .closed → p.flags.ack = true →
          Settled env (ctl w.sk) (ctl (controlProcess env w p).1.sk) p)) := by
  rw [controlProcess]
  split
  next hctrl =>
    have hflags : p.flags = {} := by simp [Segment.flags, isNone_iff_eq_none.mp hctrl]
    exact ⟨.refl, fun _ => ⟨by rw [hflags], rfl, by simp [hflags], by simp [hflags]⟩⟩
  · split
    · exact ⟨sendAck_does, by simp⟩
    next hvalid =>
      have hverno := validVerno_cases hlisten hrequest (by simpa using hvalid)
      have hfin : p.flags.fin = true → before p.verno w.sk.rcv.nxt = false := by
        intro hfin
        rcases hverno with h | h | h
        · exact h
        · simp [h] at hfin
        · simp [h] at hfin
      split
      · exact ⟨rcvReset_does, by simp⟩
      next hrst =>
        have hrst : p.flags.rst = false := by simpa using hrst
        split
        next hrsyn =>
          split
          next hack =>
            refine ⟨rcvRsynack_does he hrst hrsyn hack, fun _ => ⟨hrst, ?_, fun h => .inl ?_,
              fun hopen _ => rcvRsynack_settled hopen hrsyn hverno⟩⟩
            all_goals
              obtain ⟨_, _, _, _, _, _, -, hframe⟩ := rcvRsynack_frame env w p
              rw [hframe]
            exact hfin h
          next hack =>
            have hack : p.flags.ack = false := by simpa using hack
            have hbefore : before p.verno w.sk.rcv.nxt = false := by
              rcases hverno with h | h | h
              · exact h
              · simp [h] at hack
              · simp [h] at hack
            have hframe := rcvRsyn_frame env w p
            refine ⟨rcvRsyn_does he hrst hrsyn hack hbefore, fun _ => ⟨hrst, hframe.1, fun h => ?_, by
              simp [hack]⟩⟩
            rcases hframe.2 with hrcv | hrcv
            · exact .inl (hrcv ▸ hbefore)
            · exact .inr hrcv
        next hrsyn =>
          exact ⟨.refl, fun _ => ⟨hrst, rfl, fun h => .inl (hfin h), fun hopen _ =>
            ⟨hopen, hverno, fun _ => ⟨_, _, rfl⟩, by simp [hrsyn], by simp [hrsyn]⟩⟩⟩

theorem connProcess_does {p : Packet} (he : e = .packet p) (hlisten : w.sk.skState ≠ .listen)
    (hrequest : w.sk.skState ≠ .request) : Does env e (ctl w.sk) (finCalls env) w (connProcess env w p) := by
  obtain ⟨hcontrol, hgo⟩ := @controlProcess_does env _ _ _ he hlisten hrequest
  rw [connProcess]
  rcases hr : controlProcess env w p with ⟨w₁, go⟩
  rw [hr] at hcontrol hgo
  cases go
  · exact hcontrol.mono (Nat.zero_le _)
  · obtain ⟨hrst, hstate, hverno, hsettled⟩ := hgo rfl
    exact hcontrol.trans (dispatch_does he hrst hverno (fun hopen => hsettled (hstate ▸ hopen)) hstate.symm
      (hstate ▸ hrequest))

end SalRefine
