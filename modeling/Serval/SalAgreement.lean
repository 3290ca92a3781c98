import Serval.SalHandshake
import Serval.SalRequests
import Serval.SalPair

/-! # The handshake of one server and many clients

When a child is made, the client it is made for is connected, and both agree on flow identifiers, nonces and
numbers.
-/
namespace SalAgreement

open SerialNumber SalSocket SalInput SalListen SalControl SalRefine SalRuns SalListener SalHandshake SalRequests Option
open Segment
open Ctl
open List hiding after

variable {env : Env} {e : Event} {start c c' : Ctl} {ms : List Segment} {w w' : World} {p : Packet}
  {rsk : RequestSock}

/-! ## Packets of a connection -/

structure Plain (m : Segment) : Prop where
  syn : m.flags.syn = false
  srv0 : m.srv0 = none

structure PlainFlags (f : Flags) : Prop where
  syn : f.syn = false
  connAck : f.connAck = false
  wantsControl : f.wantsControl = true

def PlainQueue (c : Ctl) : Prop := ∀ f v, c.queue = some (f, v) → PlainFlags f

variable {f : Flags} {v : UInt32} {m : Segment} {devs : ℕ → Option Addr} {sk : Sock} {tape : List Answer}

theorem Plain.of_carries (hf : PlainFlags f) (h : Carries c f v m) : Plain m where
  syn := by
    rcases SalPair.carries_numbers h with hflags | ⟨hflags, -⟩ <;> rw [hflags]
    exact hf.syn
  srv0 := h.srv0 hf.wantsControl hf.syn hf.connAck

theorem PlainFlags.or_pending (hf : PlainFlags f) (hc : PlainQueue c) : PlainFlags (f.or c.pending) := by
  cases hq : c.queue with
  | none =>
    simp only [pending, hq, map_none, getD_none]
    exact ⟨by simp [Flags.or, hf.syn], by simp [Flags.or, hf.connAck], by
      have := hf.wantsControl
      simp_all [Flags.or, Flags.wantsControl]⟩
  | some q =>
    obtain ⟨hsyn, hconn, -⟩ := hc q.1 q.2 hq
    simp only [pending, hq, map_some, getD_some]
    refine ⟨by simp [Flags.or, hf.syn, hsyn], by simp [Flags.or, hf.connAck, hconn], ?_⟩
    have := hf.wantsControl
    simp only [Flags.wantsControl, Flags.or, Bool.or_eq_true] at this ⊢
    tauto

/-- What a socket of a connection keeps: it sends nothing that is for a listening socket, and has
its flow identifier. -/
structure Keeps (c c' : Ctl) (ms : List Segment) : Prop where
  queue : PlainQueue c'
  sent : ∀ m ∈ ms, Plain m
  localFlowid : c'.localFlowid = c.localFlowid

theorem Keeps.of_xmit {c₁ : Ctl} (h : Xmit devs c₁ f v ms c')
    (hf : PlainFlags f) (hqueue : PlainQueue c₁) (hflow : c₁.localFlowid = c.localFlowid) : Keeps c c' ms := by
  have hcarries := h.carries
  obtain ⟨s, d, rfl⟩ := h.frame
  exact ⟨hqueue, fun m hm => .of_carries hf (hcarries m hm), hflow⟩

theorem PlainQueue.enqueue (hc : PlainQueue c) (hf : PlainFlags f) : PlainQueue (c.enqueue f v) := by
  rintro f' v' ⟨⟩
  exact hf.or_pending hc

theorem resetSegment_plain : Plain (resetSegment p) := ⟨rfl, rfl⟩

theorem act_keeps (hc : PlainQueue c) (h : Act env e start c ms c') : Keeps c c' ms := by
  cases h with
  | ack hx | activeReset hx => exact .of_xmit hx ⟨rfl, rfl, rfl⟩ hc rfl
  | reset =>
    refine ⟨hc, fun m hm => ?_, rfl⟩
    obtain rfl := mem_singleton.mp hm
    exact resetSegment_plain
  | done hqueue =>
    refine ⟨fun f v hq => ?_, by simp, rfl⟩
    rcases hqueue with ⟨rfl, -⟩ | ⟨rfl, -⟩
    · exact hc f v hq
    · cases hq
  | state | rsynackDone | rsynackCross | rsyn | fin | refused | respond => exact ⟨hc, by simp, rfl⟩
  | @rsynack p _ _ _ _ hx =>
    have hstart : PlainQueue (start.rsynTaken p) := hc
    exact .of_xmit hx (PlainFlags.or_pending ⟨rfl, rfl, rfl⟩ hstart) (hstart.enqueue ⟨rfl, rfl, rfl⟩) rfl
  | @accept _ p =>
    obtain ⟨s, d, m, hframe⟩ := c.accept_frame p
    refine ⟨fun f v hq => ?_, by simp, (congrArg localFlowid hframe :)⟩
    rw [hframe] at hq
    exact hc f v (filter_eq_some_iff.mp hq).1
  | sendFin _ hx =>
    have hf : PlainFlags (finFlags c.salState) := by cases c.salState <;> exact ⟨rfl, rfl, rfl⟩
    exact .of_xmit hx (hf.or_pending hc) (PlainQueue.enqueue (c := { c with nxt := c.nxt + 1 }) hc hf) rfl
  | @migrate dev _ _ _ _ hx =>
    have hf : PlainFlags (rsynFlags start.skState) := ⟨rfl, rfl, rfl⟩
    exact .of_xmit hx (hf.or_pending hc) (PlainQueue.enqueue (c := { start with
      migDevIf := dev, nxt := start.nxt + 1, salState := requested start.salState }) hc hf) rfl
  | @rexmit _ f v _ _ _ hq hx =>
    obtain ⟨hsyn, hconn, hctrl⟩ := hc f v hq
    have hf : PlainFlags { f with retrans := true } := ⟨hsyn, hconn, hctrl⟩
    refine .of_xmit hx hf ?_ rfl
    rintro f' v' ⟨⟩
    exact hf

theorem step_keeps (hconn : unconnected w.sk.skState = false) (hc : PlainQueue (ctl w.sk))
    (hstep : step env w e = some w') :
    ∃ ms, sent w'.out = sent w.out ++ ms ∧ Keeps (ctl w.sk) (ctl w'.sk) ms ∧
      unconnected w'.sk.skState = false := by
  have hest : Established w.sk := by constructor <;> (intro hs; simp [hs, unconnected] at hconn)
  obtain ⟨k, ms, -, hout, hacts⟩ := step_does hest hstep
  have hkeeps : Keeps (ctl w.sk) (ctl w'.sk) ([] ++ ms) ∧ unconnected (ctl w'.sk).skState = false :=
    Acts.invariant (n := 0) (P := fun _ c ms => Keeps (ctl w.sk) c ms ∧ unconnected c.skState = false)
      (fun hP hact => by
        have h := act_keeps hP.1.queue hact
        refine ⟨⟨h.queue, fun m hm => ?_, h.localFlowid.trans hP.1.localFlowid⟩, SalPair.act_connected hact hP.2⟩
        exact (mem_append.mp hm).elim (hP.1.sent m) (h.sent m))
      hacts ⟨⟨hc, by simp, rfl⟩, hconn⟩
  exact ⟨ms, hout, hkeeps⟩

/-! ## The clients -/

structure Identity where
  flowid : FlowId
  nonce : Nonce
  iss : UInt32

variable {who : Identity}

structure SynOf (who : Identity) (m : Segment) : Prop where
  srcFlowid : m.srcFlowid = who.flowid
  ctrl : ∀ ext, m.ctrl = some ext → ∃ ackno, ext = ⟨{ syn := true }, who.iss, ackno, who.nonce, 20⟩

structure SynQueued (who : Identity) (c : Ctl) (f : Flags) (v : UInt32) : Prop where
  localFlowid : c.localFlowid = who.flowid
  localNonce : c.localNonce = who.nonce
  flags : f.wire = { syn := true }
  verno : v = who.iss

def SynInQueue (who : Identity) (c : Ctl) : Prop := ∀ f v, c.queue = some (f, v) → SynQueued who c f v

structure Requesting (who : Identity) (c : Ctl) : Prop where
  state : c.skState = .request
  localFlowid : c.localFlowid = who.flowid
  localNonce : c.localNonce = who.nonce
  salState : c.salState = .initial
  nxt : c.nxt = who.iss + 1
  queue : SynInQueue who c

inductive Phase (who : Identity) (sk : Sock) : Prop where
  | idle (state : sk.skState = .init) (localFlowid : sk.localFlowid = who.flowid)
      (localNonce : sk.localNonce = who.nonce) (iss : sk.snd.iss = who.iss) (salState : sk.salState = .initial)
      (queue : sk.ctrlQueue = none)
  | requesting (h : Requesting who (ctl sk))
  | joined (state : unconnected sk.skState = false) (queue : PlainQueue (ctl sk))
  | stopped (state : sk.skState = .closed) (queue : SynInQueue who (ctl sk))

theorem SynOf.of_carries (h : SynQueued who c f v)
    (hm : Carries c f v m) : SynOf who m where
  srcFlowid := hm.srcFlowid.trans h.localFlowid
  ctrl ext hext := ⟨c.rcv, by rw [hm.ctrl ext hext, h.flags, h.verno, h.localNonce]⟩

theorem waits_queue (hc : SynInQueue who c) (h : Waits devs c ms c') :
    SynInQueue who c' ∧ ∀ m ∈ ms, SynOf who m ∨ Plain m := by
  cases h with
  | same => exact ⟨hc, by simp⟩
  | closed hqueue =>
    refine ⟨fun f v hq => ?_, by simp⟩
    rcases hqueue with rfl | rfl
    · exact { hc f v hq with }
    · cases hq
  | @rexmit f v _ _ hq hx =>
    have hsyn : SynQueued who { c with queue := some ({ f with retrans := true }, v) } { f with retrans := true } v :=
      { hc f v hq with }
    refine ⟨fun f' v' hq' => ?_, fun m hm => .inl (.of_carries hsyn (hx.carries m hm))⟩
    obtain ⟨s, d, rfl⟩ := hx.frame
    cases hq'
    exact { hsyn with }
  | ack hx =>
    refine ⟨fun f v hq => ?_, fun m hm => .inr (.of_carries ⟨rfl, rfl, rfl⟩ (hx.carries m hm))⟩
    obtain ⟨s, d, rfl⟩ := hx.frame
    exact { hc f v hq with }

theorem waits_state (h : Waits devs c ms c') :
    c'.skState = .closed ∨ c'.skState = c.skState ∧ c'.localFlowid = c.localFlowid ∧
      c'.localNonce = c.localNonce ∧ c'.salState = c.salState ∧ c'.nxt = c.nxt := by
  have hxmit : ∀ {c₁ : Ctl} {f v}, Xmit devs c₁ f v ms c' → ∀ queue, c₁ = { c with queue := queue } →
      c'.skState = .closed ∨ c'.skState = c.skState ∧ c'.localFlowid = c.localFlowid ∧
        c'.localNonce = c.localNonce ∧ c'.salState = c.salState ∧ c'.nxt = c.nxt := by
    rintro c₁ f v hx queue rfl
    obtain ⟨s, d, rfl⟩ := hx.frame
    exact .inr ⟨rfl, rfl, rfl, rfl, rfl⟩
  cases h with
  | same => exact .inr ⟨rfl, rfl, rfl, rfl, rfl⟩
  | closed => exact .inl rfl
  | rexmit _ hx | ack hx => exact hxmit hx _ rfl

theorem waited_phase (hstate : Requesting who (ctl w.sk) ∨ w.sk.skState = .closed)
    (hqueue : SynInQueue who (ctl w.sk)) (h : Waited env w w') :
    Phase who w'.sk ∧ ∃ ms, sent w'.out = sent w.out ++ ms ∧ ∀ m ∈ ms, SynOf who m ∨ Plain m := by
  obtain ⟨ms, hout, hwaits⟩ := h
  obtain ⟨hqueue', hsent⟩ := waits_queue hqueue hwaits
  refine ⟨?_, ms, hout, hsent⟩
  rcases waits_state hwaits with hclosed | ⟨hsame, hflow, hnonce, hsal, hnxt⟩
  · exact .stopped hclosed hqueue'
  · rcases hstate with h | h
    · exact .requesting ⟨hsame.trans h.state, hflow.trans h.localFlowid, hnonce.trans h.localNonce,
        hsal.trans h.salState, hnxt.trans h.nxt, hqueue'⟩
    · exact .stopped (hsame.trans h) hqueue'

structure Succeeds (t : Transport) : Prop where
  buildSyn : t.buildSyn = 0
  buildAck : t.buildAck = 0
  connRequest : t.connRequest = 0
  buildSynack : t.buildSynack = 0
  requestState : t.requestState = 0
  respondState : t.respondState = 0
  childSock : 0 ≤ t.childSock

theorem connect_phase {srvid : ServiceId} {addr : Option Addr} (htransport : Succeeds env.transport)
    (hstate : w.sk.skState = .init) (h : Phase who w.sk) :
    Phase who (servalConnect env w srvid addr).sk ∧
      ∃ ms, sent (servalConnect env w srvid addr).out = sent w.out ++ ms ∧ ∀ m ∈ ms, SynOf who m ∨ Plain m := by
  cases h with
  | requesting h => exact absurd (h.state.symm.trans hstate) (by decide)
  | joined h => simp [hstate, unconnected] at h
  | stopped h => simp [hstate] at h
  | idle _ hflow hnonce hiss hsal hqueue =>
    obtain ⟨ms, hout, hcases⟩ := @connect_cases env w srvid addr hqueue htransport.buildSyn
    rcases hcases with ⟨daddr, rfl, hctl⟩ | ⟨daddr, c, s, hx, hs, hctl⟩
    · refine ⟨.stopped (congrArg skState hctl) fun f v hq => ?_, [], hout, by simp⟩
      rw [hctl] at hq
      simp [ctl, hqueue] at hq
    · have hsyn : SynQueued who (synQueued (ctl w.sk) w.sk.snd.iss daddr) { syn := true } w.sk.snd.iss :=
        ⟨hflow, hnonce, rfl, hiss⟩
      refine ⟨?_, ms, hout, fun m hm => .inl (.of_carries hsyn (hx.carries m hm))⟩
      obtain ⟨saddr, daddr', rfl⟩ := hx.frame
      have hinq : SynInQueue who (ctl (servalConnect env w srvid addr).sk) := by
        rw [hctl]
        intro f v hq
        cases hq
        exact ⟨hflow, hnonce, rfl, hiss⟩
      rcases hs with rfl | rfl
      · refine .requesting ⟨?_, ?_, ?_, ?_, ?_, hinq⟩ <;> rw [hctl]
        · exact hflow
        · exact hnonce
        · exact hsal
        · exact congrArg (· + 1) hiss
      · exact .stopped (congrArg skState hctl) hinq

structure Knows (who : Identity) (rsk : RequestSock) (sk : Sock) : Prop where
  localFlowid : sk.localFlowid = who.flowid
  localNonce : sk.localNonce = who.nonce
  nxt : sk.snd.nxt = who.iss + 1
  peerFlowid : sk.peerFlowid = rsk.localFlowid
  peerNonce : sk.peerNonce = rsk.localNonce
  rcv : sk.rcv.nxt = rsk.issSeq + 1

theorem answered_phase {ctrl : CtrlExt} (htransport : Succeeds env.transport) (hreq : Requesting who (ctl w.sk))
    (hsynack : SynackOf rsk p.toSegment) (hrcv : rsk.rcvSeq = who.iss) (hctrl : p.ctrl = some ctrl)
    (h : Answers w.sk p) (hw' : w' = servalSalRequestStateProcess env w p) :
    w'.sk.skState = .connected ∧ PlainQueue (ctl w'.sk) ∧ Knows who rsk w'.sk ∧
      (sent w'.out = sent w.out ∨ sent w'.out = sent w.out ++ [handshakeAck w'.sk]) := by
  obtain ⟨⟨daddr, hctl⟩, hout⟩ := answered_ctl hreq.salState hctrl h htransport.requestState
  rw [← hw'] at hctl hout
  obtain ⟨q, saddr, hseg⟩ := hsynack
  have hext : ctrl = ⟨{ syn := true, ack := true }, rsk.issSeq, rsk.rcvSeq + 1, rsk.localNonce, 20⟩ :=
    some.inj (hctrl.symm.trans (congrArg Segment.ctrl hseg))
  have hverno : p.verno = rsk.issSeq := by rw [verno, hctrl, hext]; rfl
  have hackno : p.ackno = who.iss + 1 := by rw [ackno, hctrl, hext, ← hrcv]; rfl
  have hsrc : p.srcFlowid = rsk.localFlowid := congrArg srcFlowid hseg
  have hfield : ∀ {α : Type} (g : Ctl → α), g (ctl w'.sk) = g (answered (ctl w.sk) p ctrl daddr) :=
    fun g => congrArg g hctl
  refine ⟨hfield skState, fun f v hq => ?_, ⟨?_, ?_, ?_, ?_, ?_, ?_⟩, ?_⟩
  · -- the SYN is acknowledged
    have hacked : (ctl w.sk).acked p.ackno = some (f, v) := (hfield queue).symm.trans hq
    obtain ⟨hq', hold⟩ := filter_eq_some_iff.mp hacked
    have hv := (hreq.queue f v hq').verno
    rw [hackno, hv] at hold
    simp [after_succ_self] at hold
  · exact (hfield localFlowid).trans hreq.localFlowid
  · exact (hfield localNonce).trans hreq.localNonce
  · exact (hfield nxt).trans hreq.nxt
  · exact (hfield peerFlowid).trans hsrc
  · exact (hfield peerNonce).trans (by rw [answered, hext])
  · exact (hfield rcv).trans (by rw [answered, hverno])
  · rcases hout with hout | hout <;> rw [hout]
    · exact .inl rfl
    · exact .inr (by simp [sent, Output.segment])

/-- A socket is in the table of flows until it is closed, and only there it can be found by packets and migrations. The
transport has nothing to do before there is a connection. -/
def Possible (sk : Sock) : Event → Prop
  | .packet _ | .migrate _ => sk.skState ≠ .init ∧ sk.skState ≠ .closed
  | .transport _ => sk.skState ≠ .init ∧ sk.skState ≠ .closed ∧ sk.skState ≠ .request
  | .close | .rexmitTimeout | .timewaitTimeout | .keepaliveTimeout _ _ | .orphan => sk.skState ≠ .init

structure Entry (ι : Type) where
  client : ι
  synack : Packet
  sk : Sock
  deriving DecidableEq

def entries {ι : Type} (i : ι) (sk : Sock) (e : Event) (sk' : Sock) : List (Entry ι) :=
  match e with
  | .packet p => if sk.skState = .request ∧ sk'.skState = .connected then [⟨i, p, sk'⟩] else []
  | _ => []

inductive ClientStep {ι : Type} (made : RequestSock → Prop) (i : ι) (who : Identity) (sk : Sock) (e : Event)
    (sk' : Sock) (ms : List Segment) : Prop where
  | stays (hentries : entries i sk e sk' = []) (hsent : ∀ m ∈ ms, SynOf who m ∨ Plain m)
  | enters (p : Packet) (rsk : RequestSock) (he : e = .packet p) (hmade : made rsk)
      (hsynack : SynackOf rsk p.toSegment) (hknows : Knows who rsk sk')
      (hentries : entries i sk e sk' = [⟨i, p, sk'⟩]) (hsent : ms = [] ∨ ms = [handshakeAck sk'])

theorem client_step {ι : Type} {i : ι} {made : RequestSock → Prop} (htransport : Succeeds env.transport) (hphase :
    Phase who w.sk)
    (hpossible : Possible w.sk e) (hmigrate : w.sk.skState = .request → ∀ dev, e ≠ .migrate dev)
    (hpacket : ∀ p, e = .packet p → p.flags.syn = true → w.sk.localFlowid = who.flowid →
      ∃ rsk, made rsk ∧ SynackOf rsk p.toSegment ∧ rsk.rcvSeq = who.iss) (hstep : step env w e = some w') :
    Phase who w'.sk ∧ ∃ ms, sent w'.out = sent w.out ++ ms ∧ ClientStep made i who w.sk e w'.sk ms := by
  -- a socket that is not in REQUEST does not enter
  have hnot : ∀ sk' : Sock, w.sk.skState ≠ .request → entries i w.sk e sk' = [] := by
    intro sk' hne
    cases e <;> simp [entries, hne]
  cases hphase with
  | idle hstate => cases e <;> simp [Possible, hstate] at hpossible
  | joined hconn hqueue =>
    obtain ⟨ms, hout, hkeeps, hconn'⟩ := step_keeps hconn hqueue hstep
    refine ⟨.joined hconn' hkeeps.queue, ms, hout, .stays (hnot _ ?_) fun m hm => .inr (hkeeps.sent m hm)⟩
    intro hs
    simp [hs, unconnected] at hconn
  | stopped hstate hqueue =>
    have hlocal : isLocal e = true := by cases e <;> simp_all [Possible, isLocal]
    obtain ⟨hphase', ms, hout, hsent⟩ := waited_phase (.inr hstate) hqueue (step_waited (.inr hstate) hlocal hstep)
    exact ⟨hphase', ms, hout, .stays (hnot _ (by simp [hstate])) hsent⟩
  | requesting hreq =>
    have hstate : w.sk.skState = .request := hreq.state
    have hwaits : Waited env w w' → Phase who w'.sk ∧
        ∃ ms, sent w'.out = sent w.out ++ ms ∧ ClientStep made i who w.sk e w'.sk ms := by
      intro hwaited
      obtain ⟨hphase', ms, hout, hsent⟩ := waited_phase (.inl hreq) hreq.queue hwaited
      refine ⟨hphase', ms, hout, .stays ?_ hsent⟩
      have hne : w'.sk.skState ≠ .connected := by
        obtain ⟨_, -, h⟩ := hwaited
        rcases waits_state h with h | ⟨h, -⟩
        · exact fun hs => by simp [ctl, hs] at h
        · exact fun hs => by simp [ctl, hs, hstate] at h
      cases e <;> simp [entries, hne]
    cases e with
    | migrate dev => exact absurd rfl (hmigrate hstate dev)
    | transport => exact absurd hstate hpossible.2.2
    | close | rexmitTimeout | timewaitTimeout | keepaliveTimeout | orphan =>
      exact hwaits (step_waited (.inl hstate) rfl hstep)
    | packet p =>
      have hflags : p.flags.syn = true → p.flags.rsyn = false ∧ p.flags.rst = false := by
        intro hsyn
        obtain ⟨rsk, -, ⟨q, saddr, hseg⟩, -⟩ := hpacket p rfl hsyn hreq.localFlowid
        constructor <;> rw [hseg] <;> rfl
      obtain ⟨w₁, hstep₁, hcases⟩ := @request_packet env w p hstate hreq.salState hflags
      obtain rfl := some.inj (hstep₁.symm.trans hstep)
      rcases hcases with hwaited | ⟨ctrl, hctrl, hanswers, hw'⟩
      · exact hwaits hwaited
      · obtain ⟨rsk, hmade, hsynack, hrcv⟩ := hpacket p rfl hanswers.syn hreq.localFlowid
        obtain ⟨hconn, hqueue, hknows, hout⟩ :=
          answered_phase htransport hreq hsynack hrcv hctrl hanswers hw'
        have hjoined : Phase who w₁.sk := .joined (by rw [hconn]; rfl) hqueue
        have hentries : entries i w.sk (.packet p) w₁.sk = [⟨i, p, w₁.sk⟩] := by simp [entries, hstate, hconn]
        rcases hout with hout | hout
        · exact ⟨hjoined, [], by rw [hout, append_nil], .enters p rsk rfl hmade hsynack hknows hentries (.inl rfl)⟩
        · exact ⟨hjoined, _, hout, .enters p rsk rfl hmade hsynack hknows hentries (.inr rfl)⟩

/-! ## The listening socket -/

theorem requestOf_eq_some (hmem : rsk ∈ sk.synQueue)
    (hunique : ∀ r ∈ sk.synQueue, r.localFlowid = rsk.localFlowid → r = rsk) (h : Acknowledges p rsk) :
    requestOf sk p = some rsk := by
  obtain ⟨hflow, ⟨ctrl, hctrl, hnonce⟩, hverno, hackno⟩ := h
  have hfind : sk.synQueue.find? (·.localFlowid = p.dstFlowid) = some rsk := by
    cases hf : sk.synQueue.find? (·.localFlowid = p.dstFlowid) with
    | none => exact absurd hflow (by simpa using find?_eq_none.mp hf rsk hmem)
    | some r =>
      have hr : r.localFlowid = p.dstFlowid := by simpa using find?_some hf
      rw [hunique r (mem_of_find?_eq_some hf) (hr.trans hflow.symm)]
  simp [requestOf, hfind, hctrl, hnonce, hverno, hackno]

theorem child_connected {verno ackno : UInt32} {nonce : Nonce} (htransport : Succeeds env.transport)
    (h : Acknowledges p rsk) (hctrl : p.ctrl = some ⟨{ ack := true }, verno, ackno, nonce, 20⟩) :
    (connProcess env ⟨servalSalCreateRespondSock sk rsk, [], tape⟩ p).sk.skState = .connected := by
  set child := servalSalCreateRespondSock sk rsk with hchild
  have hstate : child.skState = .respond := rfl
  have hnonce : nonce = rsk.peerNonce := by
    obtain ⟨ctrl, hctrl', hn⟩ := h.nonce
    cases hctrl.symm.trans hctrl'
    exact hn.symm
  have hflags : p.flags = { ack := true } := by simp [flags, hctrl]
  have hvalid : hasValidControlExtension child p = true := by
    simp [hasValidControlExtension, hctrl, hnonce, hchild, servalSalCreateRespondSock]
  have hacceptable : ackAcceptable child p = true := by
    have hafter : before p.ackno rsk.issSeq = false := by
      rw [h.ackno]
      exact @not_after_of_le rsk.issSeq _ _ (by rw [ahead_self]; exact Nat.zero_le _)
        (by rw [ahead_succ_self]; decide)
    have hnext : after p.ackno (rsk.issSeq + 1) = false := by rw [h.ackno, after, before_self]
    simp [ackAcceptable, hflags, hchild, servalSalCreateRespondSock, hafter, hnext]
  have hcontrol : controlProcess env ⟨child, [], tape⟩ p = (⟨child, [], tape⟩, true) := by
    simp [controlProcess, hctrl, hflags, hasValidVerno]
  simp [connProcess, hcontrol, dispatch, hstate, servalSalRespondStateProcess, hvalid, servalSalAckProcess,
    hacceptable, htransport.respondState, servalSockSetState, World.setSk]

/-! ## The system -/

/-- A child with the request it was made of, as it was returned, and when the packet that made it had
been processed. -/
structure Child where
  request : RequestSock
  created : Sock
  processed : Sock
  sk : Sock
  deriving DecidableEq

/-- The server and the clients, what is on the way between them, all requests there have been, and
the clients that have become connected. -/
structure Hosts (ι : Type) where
  listener : Sock
  children : List Child
  client : ι → Sock
  toServer : List Segment
  toClients : List Segment
  requested : List RequestSock
  entered : List (Entry ι)

variable {ι : Type}

/-- `serval_sal_rcv`: a SYN is for the socket of the service, also everything with a service
extension that no socket is found for in the table of flows. -/
def Hosts.forListener (s : Hosts ι) (p : Packet) : Prop :=
  p.srv0.isSome = true ∧ ((p.flags.syn = true ∧ p.flags.ack = false) ∨
    ∀ c ∈ s.children, c.sk.skState ≠ .closed → c.sk.localFlowid ≠ p.dstFlowid)

def Hosts.Fresh (s : Hosts ι) (env : Env) : Prop :=
  ∀ new, env.newRequest = some new → ∀ r ∈ s.requested, r.localFlowid ≠ new.flowid

def madeChildren (sk : Sock) (p : Packet) (child : Option World) : List Child :=
  match requestOf sk p, child with
  | some rsk, some w => [⟨rsk, servalSalCreateRespondSock sk rsk, w.sk, w.sk⟩]
  | _, _ => []

theorem madeChildren_none (sk : Sock) (p : Packet) : madeChildren sk p none = [] := by
  unfold madeChildren
  cases requestOf sk p <;> rfl

def Hosts.setClient [DecidableEq ι] (s : Hosts ι) (i : ι) (w : World) (entries : List (Entry ι)) : Hosts ι :=
  { s with
    client := Function.update s.client i w.sk
    toServer := s.toServer ++ sent w.out
    entered := s.entered ++ entries }

def Hosts.setListener (s : Hosts ι) (p : Packet) (w : World) (child : Option World) : Hosts ι :=
  { s with
    listener := w.sk
    children := s.children ++ madeChildren s.listener p child
    toClients := s.toClients ++ sent w.out ++ (child.map (fun w => sent w.out)).getD []
    requested := w.sk.synQueue ++ s.requested }

/-- The network loses, repeats and reorders packets. A client or a child takes an event, and a packet
is for the socket with its flow identifier. -/
inductive Step [DecidableEq ι] (ok : Sock → Event → Prop) : Hosts ι → Hosts ι → Prop where
  | network {s : Hosts ι} {toServer toClients : List Segment} : toServer ⊆ s.toServer → toClients ⊆ s.toClients →
      Step ok s { s with toServer := toServer, toClients := toClients }
  | connect {s : Hosts ι} {i : ι} {env : Env} {tape : List Answer} {srvid : ServiceId} {addr : Option Addr} :
      Succeeds env.transport → (s.client i).skState = .init →
      Step ok s (s.setClient i (servalConnect env ⟨s.client i, [], tape⟩ srvid addr) [])
  | client {s : Hosts ι} {i : ι} {env : Env} {tape : List Answer} {e : Event} {w : World} :
      Succeeds env.transport → Possible (s.client i) e → ok (s.client i) e →
      (∀ p, e = .packet p → p.toSegment ∈ s.toClients ∧ p.dstFlowid = (s.client i).localFlowid) →
      step env ⟨s.client i, [], tape⟩ e = some w →
      Step ok s (s.setClient i w (entries i (s.client i) e w.sk))
  | listener {s : Hosts ι} {env : Env} {tape : List Answer} {p : Packet} {w : World} {child : Option World} :
      Succeeds env.transport → s.Fresh env → p.toSegment ∈ s.toServer → s.forListener p →
      servalSalStateProcess env ⟨s.listener, [], tape⟩ p = some (w, child) → Step ok s (s.setListener p w child)
  | keepalive {s : Hosts ι} {env : Env} {owned keepopen : Bool} :
      Step ok s { s with listener := (servalSalKeepaliveTimeout env ⟨s.listener, [], []⟩ owned keepopen).sk }
  | accept {s : Hosts ι} {rsk : RequestSock} {sk : Sock} : servalAcceptDequeue s.listener = some (rsk, sk) →
      Step ok s { s with listener := sk }
  | child {s : Hosts ι} {pre post : List Child} {c : Child} {env : Env} {tape : List Answer} {e : Event}
      {w : World} : Succeeds env.transport → s.children = pre ++ c :: post → Possible c.sk e →
      (∀ p, e = .packet p → p.toSegment ∈ s.toServer ∧ p.dstFlowid = c.sk.localFlowid) →
      step env ⟨c.sk, [], tape⟩ e = some w →
      Step ok s { s with
        children := pre ++ { c with sk := w.sk } :: post
        toClients := s.toClients ++ sent w.out }

/-! ## What every state has in common -/

structure MadeFor (who : Identity) (rsk : RequestSock) : Prop where
  peerFlowid : rsk.peerFlowid = who.flowid
  peerNonce : rsk.peerNonce = who.nonce
  rcvSeq : rsk.rcvSeq = who.iss

structure Entry.Answered (who : ι → Identity) (rsk : RequestSock) (e : Entry ι) : Prop where
  made : MadeFor (who e.client) rsk
  synack : SynackOf rsk e.synack.toSegment
  knows : Knows (who e.client) rsk e.sk

inductive ToServer (who : ι → Identity) (entered : List (Entry ι)) (m : Segment) : Prop where
  | syn (i : ι) (h : SynOf (who i) m)
  | ack (e : Entry ι) (he : e ∈ entered) (h : m = handshakeAck e.sk)
  | plain (h : Plain m)

structure ChildOk (who : ι → Identity) (s : Hosts ι) (c : Child) : Prop where
  requested : c.request ∈ s.requested
  moved : c.request ∉ s.listener.synQueue
  created : ∃ sk, c.created = servalSalCreateRespondSock sk c.request
  processed : c.processed.skState = .connected
  entered : ∃ e ∈ s.entered, e.Answered who c.request
  state : unconnected c.sk.skState = false
  queue : PlainQueue (ctl c.sk)
  flowid : c.sk.localFlowid = c.request.localFlowid

structure Inv (who : ι → Identity) (s : Hosts ι) : Prop where
  listen : s.listener.skState = .listen
  queues : ∀ r ∈ requests s.listener, r ∈ s.requested
  nodup : s.listener.synQueue.Nodup
  unique : ∀ r ∈ s.requested, ∀ r' ∈ s.requested, r.localFlowid = r'.localFlowid → r = r'
  made : ∀ r ∈ s.requested, ∃ i, MadeFor (who i) r
  toServer : ∀ m ∈ s.toServer, ToServer who s.entered m
  toClients : ∀ m ∈ s.toClients, m.flags.syn = true → ∃ r ∈ s.requested, SynackOf r m
  entered : ∀ e ∈ s.entered, ∃ r ∈ s.requested, e.Answered who r
  client : ∀ i, Phase (who i) (s.client i)
  child : ∀ c ∈ s.children, ChildOk who s c
  once : (s.children.map (·.request)).Nodup

variable {who : ι → Identity} {s s' : Hosts ι} {i : ι}

theorem ToServer.mono {entered entered' : List (Entry ι)} (h : ToServer who entered m)
    (hle : entered ⊆ entered') : ToServer who entered' m := by
  cases h with
  | syn i h => exact .syn i h
  | ack e he h => exact .ack e (hle he) h
  | plain h => exact .plain h

section Client
variable [DecidableEq ι] (h : Inv who s)
include h

theorem Inv.setClient {es : List (Entry ι)} (hphase : Phase (who i) w.sk)
    (hentered : ∀ e ∈ es, ∃ r ∈ s.requested, e.Answered who r)
    (hsent : ∀ m ∈ sent w.out, ToServer who (s.entered ++ es) m) : Inv who (s.setClient i w es) where
  listen := h.listen
  queues := h.queues
  nodup := h.nodup
  unique := h.unique
  made := h.made
  toServer m hm := (mem_append.mp hm).elim
    (fun hm => (h.toServer m hm).mono (subset_append_left _ _)) (hsent m)
  toClients := h.toClients
  entered e he := (mem_append.mp he).elim (h.entered e) (hentered e)
  client j := by
    by_cases hj : j = i
    · subst hj
      simpa [Hosts.setClient] using hphase
    · simpa [Hosts.setClient, hj] using h.client j
  child c hc := by
    obtain ⟨e, he, hans⟩ := (h.child c hc).entered
    exact { h.child c hc with entered := ⟨e, mem_append_left _ he, hans⟩ }
  once := h.once

theorem Inv.connect {srvid : ServiceId} {addr : Option Addr} (htransport : Succeeds env.transport)
    (hstate : (s.client i).skState = .init) :
    Inv who (s.setClient i (servalConnect env ⟨s.client i, [], tape⟩ srvid addr) []) := by
  obtain ⟨hphase, ms, hout, hms⟩ :=
    @connect_phase env ⟨s.client i, [], tape⟩ (who i) srvid addr htransport hstate (h.client i)
  refine h.setClient hphase (by simp) fun m hm => ?_
  rw [hout] at hm
  exact (hms m hm).elim (.syn i) .plain

theorem Inv.clientStep (hinj : Function.Injective fun i => (who i).flowid) (htransport : Succeeds env.transport)
    (hpossible : Possible (s.client i) e) (hok : (s.client i).skState = .request → ∀ dev, e ≠ .migrate dev)
    (hpacket : ∀ p, e = .packet p → p.toSegment ∈ s.toClients ∧ p.dstFlowid = (s.client i).localFlowid)
    (hstep : step env ⟨s.client i, [], tape⟩ e = some w) :
    Inv who (s.setClient i w (entries i (s.client i) e w.sk)) := by
  have hsynack : ∀ p, e = .packet p → p.flags.syn = true → (s.client i).localFlowid = (who i).flowid →
      ∃ rsk, (rsk ∈ s.requested ∧ MadeFor (who i) rsk) ∧ SynackOf rsk p.toSegment ∧ rsk.rcvSeq = (who i).iss := by
    intro p he hsyn hflow
    obtain ⟨hmem, hdst⟩ := hpacket p he
    obtain ⟨r, hr, hof⟩ := h.toClients _ hmem hsyn
    obtain ⟨j, hmade⟩ := h.made r hr
    have hij : j = i := by
      obtain ⟨q, saddr, hseg⟩ := hof
      have hpeer : p.dstFlowid = r.peerFlowid := congrArg dstFlowid hseg
      exact hinj (hmade.peerFlowid.symm.trans (hpeer.symm.trans (hdst.trans hflow)))
    subst hij
    exact ⟨r, ⟨hr, hmade⟩, hof, hmade.rcvSeq⟩
  obtain ⟨hphase, ms, hout, hclient⟩ := @client_step env e ⟨s.client i, [], tape⟩ w (who i) ι i
    (fun rsk => rsk ∈ s.requested ∧ MadeFor (who i) rsk) htransport (h.client i) hpossible hok hsynack hstep
  have hout : sent w.out = ms := hout
  cases hclient with
  | stays hentries hsent =>
    rw [hentries]
    refine h.setClient hphase (by simp) fun m hm => ?_
    exact (hsent m (hout ▸ hm)).elim (.syn i) .plain
  | enters p rsk he hmade hsynack hknows hentries hsent =>
    rw [hentries]
    refine h.setClient hphase (fun e he => ?_) fun m hm => ?_
    · obtain rfl := mem_singleton.mp he
      exact ⟨rsk, hmade.1, hmade.2, hsynack, hknows⟩
    · rw [hout] at hm
      rcases hsent with rfl | rfl
      · cases hm
      · exact .ack _ (mem_append_right _ (mem_singleton_self _)) (mem_singleton.mp hm)

end Client

section Listener
variable {child : Option World} (h : Inv who s)
include h

theorem Inv.setListener (hlisten : w.sk.skState = .listen) (hnodup : w.sk.synQueue.Nodup)
    (hqueues : ∀ r ∈ requests w.sk, r ∈ w.sk.synQueue ++ s.requested)
    (hunique : ∀ r ∈ w.sk.synQueue ++ s.requested, ∀ r' ∈ w.sk.synQueue ++ s.requested,
      r.localFlowid = r'.localFlowid → r = r') (hmade : ∀ r ∈ w.sk.synQueue, ∃ i, MadeFor (who i) r)
    (hold : ∀ r ∈ s.requested, r ∈ w.sk.synQueue → r ∈ s.listener.synQueue)
    (hsent : ∀ m ∈ sent w.out ++ (child.map (fun w => sent w.out)).getD [], m.flags.syn = true →
      ∃ r ∈ w.sk.synQueue ++ s.requested, SynackOf r m)
    (hchild : ∀ c ∈ madeChildren s.listener p child, c.request ∈ s.listener.synQueue ∧
      ChildOk who (s.setListener p w child) c) : Inv who (s.setListener p w child) where
  listen := hlisten
  queues := hqueues
  nodup := hnodup
  unique := hunique
  made r hr := (mem_append.mp hr).elim (hmade r) (h.made r)
  toServer := h.toServer
  toClients m hm hsyn := by
    rw [Hosts.setListener, append_assoc] at hm
    rcases mem_append.mp hm with hm | hm
    · obtain ⟨r, hr, hof⟩ := h.toClients m hm hsyn
      exact ⟨r, mem_append_right _ hr, hof⟩
    · exact hsent m hm hsyn
  entered e he := by
    obtain ⟨r, hr, hans⟩ := h.entered e he
    exact ⟨r, mem_append_right _ hr, hans⟩
  client := h.client
  child c hc := by
    rcases mem_append.mp hc with hc | hc
    · have hc := h.child c hc
      exact
        { hc with
          requested := mem_append_right _ hc.requested
          moved := fun hmem => hc.moved (hold _ hc.requested hmem) }
    · exact (hchild c hc).2
  once := by
    rw [Hosts.setListener, map_append, nodup_append]
    refine ⟨h.once, ?_, ?_⟩
    · unfold madeChildren
      split <;> simp
    · intro r hr r' hr' heq
      obtain ⟨c, hc, rfl⟩ := mem_map.mp hr
      obtain ⟨c', hc', rfl⟩ := mem_map.mp hr'
      exact (h.child c hc).moved (heq ▸ (hchild c' hc').1)

theorem Inv.unchanged (hsk : w.sk = s.listener)
    (hsent : ∀ m ∈ sent w.out, m.flags.syn = true → ∃ r ∈ s.requested, SynackOf r m) :
    Inv who (s.setListener p w none) := by
  have hqueue : ∀ r ∈ w.sk.synQueue ++ s.requested, r ∈ s.requested := by
    intro r hr
    rw [hsk] at hr
    exact (mem_append.mp hr).elim (fun hr => h.queues r (mem_append_left _ hr)) id
  refine h.setListener (hsk ▸ h.listen) (hsk ▸ h.nodup) (fun r hr => ?_) (fun r hr r' hr' => ?_) (fun r hr => ?_)
    (fun r _ hr => hsk ▸ hr) (fun m hm hsyn => ?_) (by simp [madeChildren_none])
  · rw [hsk] at hr
    exact mem_append_right _ (h.queues r hr)
  · exact h.unique r (hqueue r hr) r' (hqueue r' hr')
  · exact h.made r (hqueue r (mem_append_left _ hr))
  · obtain ⟨r, hr, hof⟩ := hsent m (by simpa using hm) hsyn
    exact ⟨r, mem_append_right _ hr, hof⟩

theorem Inv.requestAdded (hfresh : ∀ r ∈ s.requested, r.localFlowid ≠ rsk.localFlowid)
    (hmade : ∃ i, MadeFor (who i) rsk) (hlisten : w.sk.skState = .listen)
    (hsyn : w.sk.synQueue = rsk :: s.listener.synQueue) (haccept : w.sk.acceptQueue = s.listener.acceptQueue)
    (hsent : ∀ m ∈ sent w.out, SynackOf rsk m) : Inv who (s.setListener p w none) := by
  have hnew : rsk ∉ s.requested := fun hmem => hfresh rsk hmem rfl
  have hold : ∀ r ∈ s.listener.synQueue, r ∈ s.requested := fun r hr => h.queues r (mem_append_left _ hr)
  have hcases : ∀ r ∈ w.sk.synQueue ++ s.requested, r = rsk ∨ r ∈ s.requested := by
    intro r hr
    rw [hsyn, cons_append, mem_cons] at hr
    exact hr.imp id fun hr => (mem_append.mp hr).elim (hold r) id
  refine h.setListener hlisten ?_ (fun r hr => ?_) (fun r hr r' hr' heq => ?_) (fun r hr => ?_) (fun r hr hr' => ?_)
    (fun m hm _ => ?_) (by simp [madeChildren_none])
  · rw [hsyn]
    exact nodup_cons.mpr ⟨fun hmem => hnew (hold rsk hmem), h.nodup⟩
  · rcases mem_append.mp hr with hr | hr
    · exact mem_append_left _ hr
    · rw [haccept] at hr
      exact mem_append_right _ (h.queues r (mem_append_right _ hr))
  · rcases hcases r hr with rfl | hr
    · rcases hcases r' hr' with rfl | hr'
      · rfl
      · exact absurd heq.symm (hfresh r' hr')
    · rcases hcases r' hr' with rfl | hr'
      · exact absurd heq (hfresh r hr)
      · exact h.unique r hr r' hr' heq
  · rcases hcases r (mem_append_left _ hr) with rfl | hr
    · exact hmade
    · exact h.made r hr
  · rw [hsyn] at hr'
    rcases mem_cons.mp hr' with rfl | hr'
    · exact absurd hr hnew
    · exact hr'
  · refine ⟨rsk, mem_append_left _ ?_, hsent m (by simpa using hm)⟩
    rw [hsyn]
    exact mem_cons_self

theorem Inv.answered_of_flowid {en : Entry ι} (hmem : rsk ∈ s.requested) (hen : en ∈ s.entered)
    (hflow : rsk.localFlowid = en.sk.peerFlowid) : en.Answered who rsk := by
  obtain ⟨r, hr, hans⟩ := h.entered en hen
  obtain rfl := h.unique r hr rsk hmem (hans.knows.peerFlowid.symm.trans hflow.symm)
  exact hans

theorem Inv.childMade {en : Entry ι} (htransport : Succeeds env.transport)
    (hen : en ∈ s.entered) (hp : p.toSegment = handshakeAck en.sk) (hreq : requestOf s.listener p = some rsk) :
    Inv who (s.setListener p (acceptRequest ⟨s.listener, [], tape⟩ rsk)
      (some (connProcess env ⟨servalSalCreateRespondSock s.listener rsk, [], tape⟩ p))) := by
  obtain ⟨hmem, hacks⟩ := @requestOf_spec ⟨s.listener, [], tape⟩ p rsk hreq
  have hctrl : p.ctrl = some ⟨{ ack := true }, en.sk.snd.nxt, en.sk.rcv.nxt, en.sk.localNonce, 20⟩ :=
    congrArg ctrl hp
  have hdst : p.dstFlowid = en.sk.peerFlowid := congrArg dstFlowid hp
  have hrequested : ∀ r ∈ s.listener.synQueue, r ∈ s.requested := fun r hr => h.queues r (mem_append_left _ hr)
  have hanswered : en.Answered who rsk := h.answered_of_flowid (hrequested rsk hmem) hen (hacks.flowid.trans hdst)
  set child := servalSalCreateRespondSock s.listener rsk with hchild
  obtain ⟨ms, hout, hkeeps, hconn⟩ := @step_keeps env (.packet p) ⟨child, [], tape⟩ _ rfl
    (fun f v hq => by cases hq) (step_packet ⟨by simp [hchild, servalSalCreateRespondSock],
      by simp [hchild, servalSalCreateRespondSock]⟩)
  have hout : sent (connProcess env ⟨child, [], tape⟩ p).out = ms := hout
  have hqueue : ∀ r ∈ s.listener.synQueue.erase rsk ++ s.requested, r ∈ s.requested := fun r hr =>
    (mem_append.mp hr).elim (fun hr => hrequested r (mem_of_mem_erase hr)) id
  refine h.setListener h.listen (h.nodup.erase rsk) (fun r hr => ?_) (fun r hr r' hr' => ?_) (fun r hr => ?_)
    (fun r _ hr => mem_of_mem_erase hr) (fun m hm hsyn => ?_) fun c hc => ?_
  · refine mem_append_right _ ?_
    simp only [requests, acceptRequest, World.setSk, mem_append, mem_singleton] at hr
    rcases hr with hr | hr | rfl
    · exact hrequested r (mem_of_mem_erase hr)
    · exact h.queues r (mem_append_right _ hr)
    · exact hrequested r hmem
  · exact h.unique r (hqueue r hr) r' (hqueue r' hr')
  · exact h.made r (hqueue r (mem_append_left _ hr))
  · have hmem : m ∈ ms := by
      rw [← hout]
      simpa [acceptRequest, World.setSk, sent] using hm
    simp [(hkeeps.sent m hmem).syn] at hsyn
  · simp only [madeChildren, hreq, mem_singleton] at hc
    subst hc
    exact ⟨hmem,
      { requested := mem_append_right _ (hrequested rsk hmem)
        moved := h.nodup.not_mem_erase
        created := ⟨s.listener, rfl⟩
        processed := child_connected htransport hacks hctrl
        entered := ⟨en, hen, hanswered⟩
        state := hconn
        queue := hkeeps.queue
        flowid := hkeeps.localFlowid }⟩

theorem Inv.listenerStep (htransport : Succeeds env.transport) (hfresh : s.Fresh env) (hp : p.toSegment ∈ s.toServer)
    (hfor : s.forListener p) (hprocess : servalSalStateProcess env ⟨s.listener, [], tape⟩ p = some (w, child)) :
    Inv who (s.setListener p w child) := by
  -- the flags of what reaches the listening socket
  have hkind : p.flags.rst = false ∧ p.flags.rsyn = false ∧
      ((∃ i, SynOf (who i) p.toSegment) ∧ p.flags.ack = false ∨
        (∃ en ∈ s.entered, p.toSegment = handshakeAck en.sk) ∧ p.flags.syn = false) := by
    cases h.toServer _ hp with
    | plain hplain => simp [Hosts.forListener, hplain.srv0] at hfor
    | syn i hsyn =>
      cases hctrl : p.ctrl with
      | none => exact ⟨by simp [flags, hctrl], by simp [flags, hctrl],
          .inl ⟨⟨i, hsyn⟩, by simp [flags, hctrl]⟩⟩
      | some ext =>
        obtain ⟨ackno, rfl⟩ := hsyn.ctrl ext hctrl
        exact ⟨by simp [flags, hctrl], by simp [flags, hctrl],
          .inl ⟨⟨i, hsyn⟩, by simp [flags, hctrl]⟩⟩
    | ack en hen heq =>
      have hflags : p.flags = { ack := true } := congrArg flags heq
      exact ⟨by simp [hflags], by simp [hflags], .inr ⟨⟨en, hen, heq⟩, by simp [hflags]⟩⟩
  obtain ⟨hrst, hrsyn, hkind⟩ := hkind
  rw [stateProcess_through (w := ⟨s.listener, [], tape⟩) h.listen hrst (by simp [hrsyn])] at hprocess
  obtain ⟨ms, hout, hlistened⟩ := listenStateProcess_cases hprocess
  have hout : sent w.out = ms := by rw [hout, nil_append, sent_map]
  cases hlistened with
  | refused hsk hms =>
    refine h.unchanged hsk fun m hm hsyn => ?_
    rw [hms m (hout ▸ hm)] at hsyn
    simp [resetSegment_plain.syn] at hsyn
  | @repeated _ rsk _ hfind hsk hms =>
    have hmem := (findRsk_mem (w := ⟨s.listener, [], tape⟩) hfind).1
    exact h.unchanged hsk fun m hm _ => ⟨rsk, h.queues rsk hmem, hms m (hout ▸ hm)⟩
  | @requested _ rsk _ hrsk hsk hms =>
    obtain ⟨ctrl, srv, new, myaddr, hctrl, -, -, hnew, rfl⟩ := hrsk.new
    have hmade : ∃ i, MadeFor (who i) (newRequestSock env p ctrl srv new myaddr) := by
      rcases hkind with ⟨⟨i, hsyn⟩, -⟩ | ⟨-, hsyn⟩
      · obtain ⟨ackno, rfl⟩ := hsyn.ctrl ctrl hctrl
        exact ⟨i, hsyn.srcFlowid, rfl, by simp [newRequestSock, verno, hctrl]⟩
      · simp [hrsk.syn.1] at hsyn
    refine h.requestAdded (fun r hr => hfresh new hnew r hr) hmade ?_ ?_ ?_ (fun m hm => hms m (hout ▸ hm)) <;>
      rw [hsk]
    · exact h.listen
    · rfl
    · rfl
  | @accepted rsk hack hreq =>
    rcases hkind with ⟨-, hnot⟩ | ⟨⟨en, hen, heq⟩, -⟩
    · simp [hack] at hnot
    · exact h.childMade htransport hen heq hreq

theorem Inv.relisten (hlisten : sk.skState = .listen) (hsyn : sk.synQueue = s.listener.synQueue)
    (haccept : ∀ r ∈ sk.acceptQueue, r ∈ s.listener.acceptQueue) : Inv who { s with listener := sk } where
  listen := hlisten
  queues r hr := h.queues r <| by
    simp only [requests, mem_append] at hr ⊢
    exact hr.imp (hsyn ▸ ·) (haccept r)
  nodup := hsyn ▸ h.nodup
  unique := h.unique
  made := h.made
  toServer := h.toServer
  toClients := h.toClients
  entered := h.entered
  client := h.client
  child c hc := { h.child c hc with moved := hsyn ▸ (h.child c hc).moved }
  once := h.once

theorem Inv.childStep {pre post : List Child} {c : Child} (hchildren : s.children = pre ++ c :: post)
    (hstep : step env ⟨c.sk, [], tape⟩ e = some w) :
    Inv who { s with
      children := pre ++ { c with sk := w.sk } :: post
      toClients := s.toClients ++ sent w.out } := by
  have hc := h.child c (by rw [hchildren]; simp)
  obtain ⟨ms, hout, hkeeps, hconn⟩ := step_keeps (w := ⟨c.sk, [], tape⟩) hc.state hc.queue hstep
  have hout : sent w.out = ms := hout
  exact
    { h with
      toClients := fun m hm hsyn => by
        rcases mem_append.mp hm with hm | hm
        · exact h.toClients m hm hsyn
        · simp [(hkeeps.sent m (hout ▸ hm)).syn] at hsyn
      child := fun c' hc' => by
        rcases mem_append.mp hc' with hc' | hc'
        · exact { h.child c' (by rw [hchildren]; simp [hc']) with }
        · rcases mem_cons.mp hc' with rfl | hc'
          · exact { hc with state := hconn, queue := hkeeps.queue, flowid := hkeeps.localFlowid.trans hc.flowid }
          · exact { h.child c' (by rw [hchildren]; simp [hc']) with }
      once := by
        have honce := h.once
        rw [hchildren] at honce
        simpa using honce }

end Listener

structure Agree (who : Identity) (child client : Sock) : Prop where
  peerFlowid : child.peerFlowid = client.localFlowid
  peerNonce : child.peerNonce = client.localNonce
  rcv : child.rcv.nxt = who.iss + 1
  localFlowid : child.localFlowid = client.peerFlowid
  localNonce : child.localNonce = client.peerNonce
  snd : child.snd.nxt = client.rcv.nxt

theorem Entry.Answered.agree {en : Entry ι} (h : en.Answered who rsk) :
    Agree (who en.client) (servalSalCreateRespondSock sk rsk) en.sk where
  peerFlowid := h.made.peerFlowid.trans h.knows.localFlowid.symm
  peerNonce := h.made.peerNonce.trans h.knows.localNonce.symm
  rcv := congrArg (· + 1) h.made.rcvSeq
  localFlowid := h.knows.peerFlowid.symm
  localNonce := h.knows.peerNonce.symm
  snd := h.knows.rcv.symm

theorem Inv.ack_accepted {en : Entry ι} (h : Inv who s) (hrsk : rsk ∈ s.listener.synQueue) (hans : en.Answered who rsk)
    (htransport : Succeeds env.transport) (hcloned : env.cloned = true) (hp : p.toSegment = handshakeAck en.sk) :
    s.forListener p ∧ ∃ w child, servalSalStateProcess env ⟨s.listener, [], tape⟩ p = some (w, some child) ∧
      w.sk.synQueue = s.listener.synQueue.erase rsk ∧
      w.sk.acceptQueue = s.listener.acceptQueue ++ [rsk] ∧ child.sk.skState = .connected := by
  have hrequested : ∀ r ∈ s.listener.synQueue, r ∈ s.requested := fun r hr => h.queues r (mem_append_left _ hr)
  have hctrl : p.ctrl = some ⟨{ ack := true }, en.sk.snd.nxt, en.sk.rcv.nxt, en.sk.localNonce, 20⟩ :=
    congrArg ctrl hp
  have hflags : p.flags = { ack := true } := congrArg flags hp
  have hsrv : p.srv0 = some ⟨en.sk.peerSrvid, 36⟩ := congrArg srv0 hp
  have hdst : p.dstFlowid = rsk.localFlowid := (congrArg dstFlowid hp).trans hans.knows.peerFlowid
  have hacks : Acknowledges p rsk :=
    { flowid := hdst.symm
      nonce := ⟨_, hctrl, hans.made.peerNonce.trans hans.knows.localNonce.symm⟩
      verno := (congrArg verno hp).trans (hans.knows.nxt.trans (congrArg (· + 1) hans.made.rcvSeq.symm))
      ackno := (congrArg ackno hp).trans hans.knows.rcv }
  have hreq : requestOf s.listener p = some rsk := requestOf_eq_some hrsk
    (fun r hr => h.unique r (hrequested r hr) rsk (hrequested rsk hrsk)) hacks
  refine ⟨⟨by rw [hsrv]; rfl, .inr fun c hc _ heq => ?_⟩, acceptRequest ⟨s.listener, [], tape⟩ rsk,
    connProcess env ⟨servalSalCreateRespondSock s.listener rsk, [], tape⟩ p, ?_, rfl, rfl,
    child_connected htransport hacks hctrl⟩
  · have hc := h.child c hc
    have hsame : c.request = rsk := h.unique _ hc.requested rsk (hrequested rsk hrsk)
      (hc.flowid.symm.trans (heq.trans hdst))
    exact hc.moved (hsame ▸ hrsk)
  · rw [stateProcess_through (w := ⟨s.listener, [], tape⟩) h.listen (by simp [hflags]) (by simp [hflags])]
    simp [servalSalListenStateProcess, hflags, servalSalRequestSockHandle, hreq, hcloned,
      not_lt.mpr htransport.childSock, acceptRequest, World.setSk]

structure Start (who : ι → Identity) (s : Hosts ι) : Prop where
  listen : s.listener.skState = .listen
  requests : requests s.listener = []
  children : s.children = []
  toServer : s.toServer = []
  toClients : s.toClients = []
  requested : s.requested = []
  entered : s.entered = []
  client : ∀ i, (s.client i).skState = .init ∧ (s.client i).localFlowid = (who i).flowid ∧
    (s.client i).localNonce = (who i).nonce ∧ (s.client i).snd.iss = (who i).iss ∧
    (s.client i).salState = .initial ∧ (s.client i).ctrlQueue = none

theorem Start.inv (h : Start who s) : Inv who s where
  listen := h.listen
  queues := by simp [h.requests]
  nodup := by
    have hempty := (append_eq_nil_iff.mp h.requests).1
    simp [hempty]
  unique := by simp [h.requested]
  made := by simp [h.requested]
  toServer := by simp [h.toServer]
  toClients := by simp [h.toClients]
  entered := by simp [h.entered]
  client i := by
    obtain ⟨hstate, hflow, hnonce, hiss, hsal, hqueue⟩ := h.client i
    exact .idle hstate hflow hnonce hiss hsal hqueue
  child := by simp [h.children]
  once := by simp [h.children]

def NotRequesting (sk : Sock) (e : Event) : Prop := sk.skState = .request → ∀ dev, e ≠ .migrate dev

section Runs
variable [DecidableEq ι]

theorem step_inv (hinj : Function.Injective fun i => (who i).flowid) (hstep : Step NotRequesting s s')
    (h : Inv who s) : Inv who s' := by
  cases hstep with
  | network hserver hclients =>
    exact
      { h with
        toServer := fun m hm => h.toServer m (hserver hm)
        toClients := fun m hm => h.toClients m (hclients hm)
        child := fun c hc => { h.child c hc with } }
  | connect htransport hstate => exact h.connect htransport hstate
  | client htransport hpossible hok hpacket hstep => exact h.clientStep hinj htransport hpossible hok hpacket hstep
  | listener htransport hfresh hp hfor hprocess => exact h.listenerStep htransport hfresh hp hfor hprocess
  | keepalive =>
    have hlisten := h.listen
    rw [servalSalKeepaliveTimeout]
    simp only [hlisten, if_true]
    split
    · exact h.relisten rfl rfl fun r hr => hr
    · exact h.relisten h.listen rfl fun r hr => hr
  | accept hdequeue =>
    obtain ⟨rest, hqueue, rfl⟩ := acceptDequeue_cases hdequeue
    refine h.relisten h.listen rfl fun r hr => ?_
    rw [hqueue]
    exact mem_cons_of_mem _ hr
  | child _ hchildren _ _ hstep => exact h.childStep hchildren hstep

theorem run_inv (hinj : Function.Injective fun i => (who i).flowid) (hs : Start who s)
    (hrun : Relation.ReflTransGen (Step NotRequesting) s s') : Inv who s' := by
  induction hrun with
  | refl => exact hs.inv
  | tail _ hstep ih => exact step_inv hinj hstep ih

/-- In every run in which no client is asked to migrate before it is connected: a child is connected, and its client was
connected by the answer to the same request, and agrees with it; no request has two children; and the acknowledgment of
a client is accepted while its request waits. -/
theorem handshake_agreement (hinj : Function.Injective fun i => (who i).flowid) (hs : Start who s)
    (hrun : Relation.ReflTransGen (Step NotRequesting) s s') :
    (∀ c ∈ s'.children, c.processed.skState = .connected ∧
      ∃ en ∈ s'.entered, SynackOf c.request en.synack.toSegment ∧ Agree (who en.client) c.created en.sk) ∧
    (s'.children.map (·.request)).Nodup ∧
    ∀ en ∈ s'.entered, ∀ rsk ∈ s'.listener.synQueue, SynackOf rsk en.synack.toSegment →
      ∀ env tape (p : Packet), Succeeds env.transport → env.cloned = true → p.toSegment = handshakeAck en.sk →
        s'.forListener p ∧ ∃ w child, servalSalStateProcess env ⟨s'.listener, [], tape⟩ p = some (w, some child) ∧
          w.sk.synQueue = s'.listener.synQueue.erase rsk ∧
          w.sk.acceptQueue = s'.listener.acceptQueue ++ [rsk] ∧ child.sk.skState = .connected := by
  have h := run_inv hinj hs hrun
  refine ⟨fun c hc => ?_, h.once, fun en hen rsk hrsk hsynack env tape p htransport hcloned hp => ?_⟩
  · obtain ⟨sk, hcreated⟩ := (h.child c hc).created
    obtain ⟨en, hen, hans⟩ := (h.child c hc).entered
    exact ⟨(h.child c hc).processed, en, hen, hans.synack, hcreated ▸ hans.agree⟩
  · -- the SYN-ACK has the flow identifier of the request
    obtain ⟨r, hr, hans⟩ := h.entered en hen
    have heq : r = rsk := by
      obtain ⟨q, a, hq⟩ := hsynack
      obtain ⟨q', a', hq'⟩ := hans.synack
      exact h.unique r hr rsk (h.queues rsk (mem_append_left _ hrsk))
        (congrArg srcFlowid (hq'.symm.trans hq))
    exact h.ack_accepted hrsk (heq ▸ hans) htransport hcloned hp

end Runs

/-! One client connects, and then one that is asked to migrate meanwhile. -/

def exampleIdentity : Identity := ⟨1, exampleNonce 6, 500⟩

def exampleHosts : Hosts Unit where
  listener := exampleListener
  children := []
  client _ :=
    { servalSockInit (skAlloc .dgram 17) (exampleNonce 6) 500 with localFlowid := 1, boundDevIf := 1, saddr := 20 }
  toServer := []
  toClients := []
  requested := []
  entered := []

theorem exampleHosts_start : Start (fun _ => exampleIdentity) exampleHosts := by
  refine ⟨rfl, rfl, rfl, rfl, rfl, rfl, rfl, fun _ => ⟨rfl, rfl, rfl, rfl, rfl, rfl⟩⟩

theorem udpTransport_succeeds : Succeeds udpTransport := ⟨rfl, rfl, rfl, rfl, rfl, rfl, le_rfl⟩

def connecting : Hosts Unit :=
  exampleHosts.setClient () (servalConnect (exampleEnv 20 21)
    ⟨exampleHosts.client (), [], []⟩ exampleService (some 10)) []

def theSyn : Packet := { exampleSyn 20 1 6 with transport := true }

def theSynack : Packet := { examplePacket 10 20 40 1 3 { syn := true, ack := true } 900 501 with transport := true }

def theAck (verno : UInt32) : Packet :=
  { examplePacket 20 10 1 40 6 { ack := true } verno 901 with srv0 := some ⟨exampleService, 36⟩, transport := true }

def serve (flowid : FlowId) (s : Hosts Unit) (p : Packet) : Hosts Unit :=
  match servalSalStateProcess (serverEnv flowid) ⟨s.listener, [], []⟩ p with
  | some (w, child) => s.setListener p w child
  | none => s

def take (s : Hosts Unit) (e : Event) : Hosts Unit :=
  match step (exampleEnv 20 21) ⟨s.client (), [], []⟩ e with
  | some w => s.setClient () w (entries () (s.client ()) e w.sk)
  | none => s

theorem serve_step {ok : Sock → Event → Prop} {flowid : FlowId} {s : Hosts Unit} {p : Packet}
    (hfresh : ∀ r ∈ s.requested, r.localFlowid ≠ flowid) (hp : p.toSegment ∈ s.toServer) (hfor : s.forListener p)
    (hsome : (servalSalStateProcess (serverEnv flowid) ⟨s.listener, [], []⟩ p).isSome = true) :
    Step ok s (serve flowid s p) := by
  obtain ⟨⟨w, child⟩, heq⟩ := isSome_iff_exists.mp hsome
  have htransport : Succeeds (serverEnv flowid).transport := udpTransport_succeeds
  have hcounter : s.Fresh (serverEnv flowid) := by
    rintro new ⟨⟩
    exact hfresh
  rw [serve, heq]
  exact .listener htransport hcounter hp hfor heq

theorem take_step {ok : Sock → Event → Prop} {s : Hosts Unit} {e : Event} (hpossible : Possible (s.client ()) e)
    (hok : ok (s.client ()) e)
    (hp : ∀ p, e = .packet p → p.toSegment ∈ s.toClients ∧ p.dstFlowid = (s.client ()).localFlowid)
    (hsome : (step (exampleEnv 20 21) ⟨s.client (), [], []⟩ e).isSome = true) : Step ok s (take s e) := by
  obtain ⟨w, heq⟩ := isSome_iff_exists.mp hsome
  have htransport : Succeeds (exampleEnv 20 21).transport := udpTransport_succeeds
  rw [take, heq]
  exact .client htransport hpossible hok hp heq

def answered : Hosts Unit := take (serve 40 connecting theSyn) (.packet theSynack)

theorem answered_run : Relation.ReflTransGen (Step NotRequesting) exampleHosts answered := by
  have htransport : Succeeds (exampleEnv 20 21).transport := udpTransport_succeeds
  have hconnect : Step NotRequesting exampleHosts connecting := .connect htransport rfl
  have hsyn : Step NotRequesting connecting (serve 40 connecting theSyn) :=
    serve_step (by decide +kernel) (by decide +kernel) ⟨rfl, .inl ⟨rfl, rfl⟩⟩ (by decide +kernel)
  have hsynack : Step NotRequesting (serve 40 connecting theSyn) answered :=
    take_step ⟨by decide +kernel, by decide +kernel⟩ (fun _ dev h => by cases h)
      (fun p hp => by cases hp; decide +kernel) (by decide +kernel)
  exact ((Relation.ReflTransGen.single hconnect).tail hsyn).tail hsynack

def completed : Hosts Unit := serve 41 answered (theAck 501)

theorem client_and_child_agree :
    ∃ c ∈ completed.children, c.processed.skState = .connected ∧
      ∃ en ∈ completed.entered, SynackOf c.request en.synack.toSegment ∧ Agree exampleIdentity c.created en.sk := by
  have hnone : answered.children = [] := by decide +kernel
  have hack : Step NotRequesting answered completed :=
    serve_step (by decide +kernel) (by decide +kernel) ⟨rfl, .inr (by simp [hnone])⟩ (by decide +kernel)
  obtain ⟨hchildren, -, -⟩ := handshake_agreement (Function.injective_of_subsingleton _) exampleHosts_start
    (answered_run.tail hack)
  obtain ⟨c, hc⟩ := exists_mem_of_length_pos (show 0 < completed.children.length by decide +kernel)
  exact ⟨c, hc, hchildren c hc⟩

def disturbed : Hosts Unit := take connecting (.migrate 2)

def answeredLate : Hosts Unit := take (serve 40 disturbed theSyn) (.packet theSynack)

def theRequest : RequestSock :=
  newRequestSock (serverEnv 40) theSyn ⟨{ syn := true }, 500, 0, exampleNonce 6, 20⟩ ⟨exampleService, 36⟩
    ⟨40, exampleNonce 3, 900, List.Vector.replicate 32 0⟩ 10

/-- Its acknowledgment has a number that the request does not wait for. -/
theorem acknowledgment_refused :
    Relation.ReflTransGen (Step fun _ _ => True) exampleHosts answeredLate ∧
      (∃ en ∈ answeredLate.entered, theRequest ∈ answeredLate.listener.synQueue ∧
        SynackOf theRequest en.synack.toSegment ∧ (theAck 502).toSegment = handshakeAck en.sk) ∧
      (theAck 502).toSegment ∈ answeredLate.toServer ∧ answeredLate.forListener (theAck 502) ∧
      servalSalStateProcess (serverEnv 41) ⟨answeredLate.listener, [], []⟩ (theAck 502) =
        some (⟨answeredLate.listener, [], []⟩, none) := by
  have htransport : Succeeds (exampleEnv 20 21).transport := udpTransport_succeeds
  have hconnect : Step (fun _ _ => True) exampleHosts connecting := .connect htransport rfl
  have hmigrate : Step (fun _ _ => True) connecting disturbed :=
    take_step ⟨by decide +kernel, by decide +kernel⟩ trivial (fun p hp => by cases hp) (by decide +kernel)
  have hsyn : Step (fun _ _ => True) disturbed (serve 40 disturbed theSyn) :=
    serve_step (by decide +kernel) (by decide +kernel) ⟨rfl, .inl ⟨rfl, rfl⟩⟩ (by decide +kernel)
  have hsynack : Step (fun _ _ => True) (serve 40 disturbed theSyn) answeredLate :=
    take_step ⟨by decide +kernel, by decide +kernel⟩ trivial (fun p hp => by cases hp; decide +kernel)
      (by decide +kernel)
  have hnone : answeredLate.children = [] := by decide +kernel
  refine ⟨(((Relation.ReflTransGen.single hconnect).tail hmigrate).tail hsyn).tail hsynack,
    ⟨⟨(), theSynack, answeredLate.client ()⟩, by decide +kernel, by decide +kernel, ⟨theSyn, 10, by decide +kernel⟩,
      by decide +kernel⟩, by decide +kernel, ⟨rfl, .inr (by simp [hnone])⟩, by decide +kernel⟩

end SalAgreement
