import Serval.SalTeardown

/-! # The answer to a packet that belongs to nothing

`serval_sal_send_reset` takes the numbers of its RST from the packet that it answers. The socket that has sent the
packet looks at `verno` only.
-/
namespace SalReset

open SerialNumber SalSocket SalInput SalRuns SalTeardown

def bit (b : Bool) : UInt32 := if b then 1 else 0

/-- The numbers of a RST that answers `p`: the number that the packet has acknowledged, or the one behind the packet. -/
structure Answers (p : Packet) (c : CtrlExt) : Prop where
  rst : c.flags.rst = true
  acked : p.flags.ack = true → c.verno = p.ackno
  unacked : p.flags.ack = false → c.flags.ack = true ∧ c.ackno = p.verno + bit p.flags.syn + bit p.flags.fin

theorem sendReset_out {w : World} {p : Packet} {seg : Segment}
    (h : (servalSalSendReset w p).out = w.out ++ [.sent seg]) : seg = resetSegment p := by
  rcases (SalRefine.sendReset_cases w p).2 with hout | hout
  · exact absurd (hout.symm.trans h) (by simp)
  · simpa using h.symm.trans hout

theorem reset_answers_iff (p : Packet) :
    (∃ c, (resetSegment p).ctrl = some c ∧ Answers p c) ↔ p.flags.ack = true ∨ p.flags.fin = false := by
  constructor
  · rintro ⟨c, hc, -, -, hunacked⟩
    cases hc
    by_contra hnot
    rw [not_or, Bool.not_eq_true, Bool.not_eq_false] at hnot
    obtain ⟨hack, hfin⟩ := hnot
    have hackno := (hunacked hack).2
    -- the bit of FIN counts as 32
    simp only [hack, hfin, resetAckno, bit, Bool.false_eq_true, if_false, if_true] at hackno
    exact absurd (add_left_cancel hackno) (by decide)
  · intro hfin
    refine ⟨_, rfl, rfl, fun hack => by simp [hack], fun hack => ?_⟩
    have hno : p.flags.fin = false := hfin.resolve_left (by simp [hack])
    simp [hack, hno, resetAckno, bit]

theorem reset_valid_iff {sk : Sock} {skb : CtrlSkb} {saddr daddr : Addr} {p r : Packet}
    (hlisten : sk.skState ≠ .listen) (hsent : p.ctrl = (servalSalBuildHeader sk skb saddr daddr).ctrl)
    (hctrl : p.ctrl.isSome) (hreset : r.ctrl = (resetSegment p).ctrl) :
    hasValidVerno r sk = true ↔ p.flags.ack = true ∨ sk.skState = .request ∨ before 0 sk.rcv.nxt = false := by
  have hackno : p.ackno = sk.rcv.nxt := by
    rw [Segment.ackno, hsent]
    rw [hsent] at hctrl
    simp only [servalSalBuildHeader] at hctrl ⊢
    split at hctrl
    · rename_i hwants
      rw [if_pos hwants]
      rfl
    · cases hctrl
  have hverno : r.verno = if p.flags.ack then p.ackno else 0 := by
    rw [Segment.verno, hreset]
    rfl
  have hflags : r.flags = { rst := true, ack := !p.flags.ack } := by
    rw [Segment.flags, hreset]
    rfl
  rw [hasValidVerno, hverno, hflags]
  cases hack : p.flags.ack with
  | true => simp [hackno, before_self]
  | false => simp [hlisten]

theorem reset_closes (env : Env) {w : World} {p r : Packet} (hreset : r.ctrl = (resetSegment p).ctrl)
    (hvalid : hasValidVerno r w.sk = true) : (connProcess env w r).sk.skState = .closed := by
  have hsome : r.ctrl.isNone = false := by rw [hreset]; rfl
  have hrst : r.flags.rst = true := by rw [Segment.flags, hreset]; rfl
  rw [connProcess, controlProcess]
  simp only [hsome, hvalid, hrst, Bool.false_eq_true, ↓reduceIte, Bool.not_true]
  exact rcvReset_skState w

/-- A RST has the numbers that belong to the packet it answers, exactly if that is not a FIN without ACK. Delivered to
the socket that has sent the packet, it closes the socket, exactly if the packet had an ACK, in REQUEST, and where the
number 0 is not old. -/
theorem reset_reaches_sender {w : World} {p : Packet} {seg : Segment} (hctrl : p.ctrl.isSome)
    (hemits : (servalSalSendReset w p).out = w.out ++ [.sent seg]) :
    ((∃ c, seg.ctrl = some c ∧ Answers p c) ↔ p.flags.ack = true ∨ p.flags.fin = false) ∧
      ∀ (sk : Sock) (skb : CtrlSkb) (saddr daddr : Addr), sk.skState ≠ .listen → sk.skState ≠ .closed →
        p.ctrl = (servalSalBuildHeader sk skb saddr daddr).ctrl →
        ∀ (env : Env) (out : List Output) (tape : List Answer) (r : Packet), r.ctrl = seg.ctrl →
          (hasValidVerno r sk = true ∧ (connProcess env ⟨sk, out, tape⟩ r).sk.skState = .closed ↔
            p.flags.ack = true ∨ sk.skState = .request ∨ before 0 sk.rcv.nxt = false) := by
  obtain rfl := sendReset_out hemits
  refine ⟨reset_answers_iff p, ?_⟩
  intro sk skb saddr daddr hlisten _ hsent env out tape r hr
  rw [← reset_valid_iff hlisten hsent hctrl hr]
  exact ⟨fun h => h.1, fun hvalid => ⟨hvalid, reset_closes env hr hvalid⟩⟩

namespace Sample

def closing : Sock := { exampleSock 1 2 10 20 3 4 500 1000 with skState := .finwait1, snd := ⟨500, 501, 1, 499⟩ }

def theFin : Packet :=
  { servalSalBuildHeader closing ⟨{ fin := true }, 500, 0, false⟩ 1 2 with dev := 1, pktType := .host }
def theAck : Packet :=
  { servalSalBuildHeader closing ⟨{ ack := true }, 501, 0, false⟩ 1 2 with dev := 1, pktType := .host }

def gone : World := ⟨{ exampleSock 2 1 20 10 4 3 1000 500 with skState := .closed }, [], []⟩

def resetOf (p : Packet) : Packet := { resetSegment p with dev := 1, pktType := .host }

end Sample

open Sample in
/-- The RST that answers the acknowledgment closes the socket. -/
theorem reset_reaches_sender_ack : hasValidVerno (resetOf theAck) closing = true ∧
      (connProcess (exampleEnv 1 5) ⟨closing, [], []⟩ (resetOf theAck)).sk.skState = .closed :=
  ((reset_reaches_sender (w := gone) (p := theAck) rfl rfl).2 closing ⟨{ ack := true }, 501, 0, false⟩ 1 2
    (by decide) (by decide) rfl (exampleEnv 1 5) [] [] (resetOf theAck) rfl).mpr (.inl rfl)

open Sample in
/-- The RST that answers the FIN with number 500 acknowledges 532 instead of 501; its own number is 0, so the socket
takes it for an old packet and stays as it was. -/
theorem reset_of_fin_refused : (servalSalSendReset gone theFin).out = [.sent (resetSegment theFin)] ∧
      (∃ c, (resetSegment theFin).ctrl = some c ∧ c.flags.ack = true ∧ c.ackno = 532) ∧
      hasValidVerno (resetOf theFin) closing = false ∧
      (connProcess (exampleEnv 1 5) ⟨closing, [], []⟩ (resetOf theFin)).sk.skState = .finwait1 := by
  refine ⟨by decide +kernel, ⟨_, rfl, rfl, by decide⟩, by decide +kernel, by decide +kernel⟩

end SalReset
