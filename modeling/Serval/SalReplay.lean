import Serval.SalRuns

/-! # The number expected from the peer

A received packet leaves `rcv_seq.nxt` or moves it forward, by half the circle at most. A FIN or
an RSYN that has moved it is old from then on.
-/
namespace SalReplay

open SerialNumber SalSocket SalInput SalControl SalRuns

variable {env : Env} {w w' w'' : World} {e : Event} {p : Packet} {start c c' : Ctl} {ms : List Segment}

theorem xmit_rcv {devs : ℕ → Option Addr} {f : Flags} {v : UInt32} (h : Xmit devs c f v ms c') : c'.rcv = c.rcv := by
  obtain ⟨s, d, rfl⟩ := h.frame
  rfl

/-- An action leaves the expected number, or it is the processing of a FIN or RSYN that is not
old, or one that was not when the packet arrived. -/
theorem act_rcv (h : Act env e start c ms c') : c'.rcv = c.rcv ∨ ∃ p, e = .packet p ∧ c'.rcv = p.verno + 1 ∧
        (before p.verno c.rcv = false ∨ c.rcv = p.verno + 1) := by
  cases h with
  | ack h | activeReset h | rsynack _ _ h | sendFin _ h | migrate _ _ h | rexmit _ _ h => exact .inl (xmit_rcv h :)
  | reset _ _ | done _ | state | rsynackDone | rsynackCross | refused _ _ | respond _ _ => exact .inl rfl
  | rsyn he hmigrates => exact .inr ⟨_, he, rfl, .inl hmigrates.verno⟩
  | @accept _ p =>
    obtain ⟨s, d, m, h⟩ := c.accept_frame p
    exact .inl (congrArg Ctl.rcv h :)
  | fin he _ _ _ hverno => exact .inr ⟨_, he, rfl, hverno⟩

theorem acts_rcv {n : ℕ} (h : Acts env e start n c ms c') :
    c'.rcv = c.rcv ∨ ∃ p, e = .packet p ∧ c'.rcv = p.verno + 1 ∧ before p.verno c.rcv = false := by
  induction h with
  | refl => exact .inl rfl
  | tail _ hact ih =>
    rcases act_rcv hact with h | ⟨p, he, h, hfresh⟩
    · rw [h]
      exact ih
    · rcases ih with ih | ⟨p', he', ih, hbefore⟩
      · rw [ih] at hfresh
        rcases hfresh with hbefore | hsame
        · exact .inr ⟨p, he, h, hbefore⟩
        · exact .inl (h.trans hsame.symm)
      · obtain rfl : p' = p := by simpa using he'.symm.trans he
        exact .inr ⟨p', he', h, hbefore⟩

theorem step_rcv (h : Established w.sk) (hstep : step env w e = some w') : w'.sk.rcv.nxt = w.sk.rcv.nxt ∨
      ∃ p, e = .packet p ∧ w'.sk.rcv.nxt = p.verno + 1 ∧ before p.verno w.sk.rcv.nxt = false := by
  obtain ⟨n, ms, -, -, hacts⟩ := step_does h hstep
  exact acts_rcv hacts

inductive Moves : World → ℕ → World → Prop where
  | refl (w : World) : Moves w 0 w
  | tail {w₀ w₁ w₂ : World} {n : ℕ} (env : Env) (tape : List Answer) (e : Event) :
      Moves w₀ n w₁ → step env { w₁ with tape := tape } e = some w₂ →
      Moves w₀ (n + ahead w₁.sk.rcv.nxt w₂.sk.rcv.nxt) w₂

theorem Moves.ahead_le {n : ℕ} (h : Moves w n w') (hn : n < 2 ^ 32) : ahead w.sk.rcv.nxt w'.sk.rcv.nxt ≤ n := by
  induction h with
  | refl => simp
  | @tail w₁ w₂ n _ _ _ _ _ ih =>
    have ih := ih (by omega)
    rw [ahead_trans (b := w₁.sk.rcv.nxt) (by omega)]
    omega

theorem validVerno_old (h : Established w.sk) (hctrl : p.flags.fin = true ∨ p.flags.rsyn = true ∧ p.flags.ack = false)
    (hold : before p.verno w.sk.rcv.nxt = true) : hasValidVerno p w.sk = false := by
  have hflags : p.flags ≠ { ack := true } ∧ p.flags ≠ { rsyn := true, ack := true } := by
    constructor <;> intro hf <;> simp [hf] at hctrl
  simp [hasValidVerno, h.1, h.2, hold, hflags]

/-- An old FIN or RSYN is answered by an acknowledgment and has no other effect. -/
theorem step_old (h : Established w.sk) (hctrl : p.flags.fin = true ∨ p.flags.rsyn = true ∧ p.flags.ack = false)
    (hold : before p.verno w.sk.rcv.nxt = true) : step env w (.packet p) = some (servalSalSendAck env w).1 := by
  have hverno := validVerno_old h hctrl hold
  have hsome : p.ctrl.isNone = false := by
    rcases hc : p.ctrl with _ | ctrl
    · simp [Segment.flags, hc] at hctrl
    · rfl
  rw [step_packet h, connProcess, controlProcess]
  simp [hsome, hverno]

/-- Each packet leaves the expected number or advances it by at most half the circle. A packet
that has advanced it is not processed as FIN or RSYN when it is replayed, as long as the number
has moved by less than half the circle since. -/
theorem rcv_nxt_advances_and_replays_are_old (hw : Established w.sk) (hstep : step env w (.packet p) = some w') :
    (w'.sk.rcv.nxt = w.sk.rcv.nxt ∨ 1 ≤ ahead w.sk.rcv.nxt w'.sk.rcv.nxt ∧ ahead w.sk.rcv.nxt w'.sk.rcv.nxt ≤ 2 ^ 31) ∧
    (w'.sk.rcv.nxt ≠ w.sk.rcv.nxt → p.flags.fin = true ∨ p.flags.rsyn = true ∧ p.flags.ack = false →
      ∀ n w'', Moves w' n w'' → n < 2 ^ 31 → Established w''.sk → ∀ env, hasValidVerno p w''.sk = false ∧
          step env w'' (.packet p) = some (servalSalSendAck env w'').1) := by
  have hrcv : w'.sk.rcv.nxt = w.sk.rcv.nxt ∨ w'.sk.rcv.nxt = p.verno + 1 ∧ before p.verno w.sk.rcv.nxt = false := by
    rcases step_rcv hw hstep with h | ⟨p', he, h⟩
    · exact .inl h
    · obtain rfl : p = p' := by simpa using he
      exact .inr h
  rcases hrcv with h | ⟨hnext, hnew⟩
  · exact ⟨.inl h, fun hne => absurd h hne⟩
  · rw [hnext]
    refine ⟨.inr (ahead_succ_of_not_before hnew), fun _ hctrl n w'' hmoves hn hw'' env => ?_⟩
    have hle := hmoves.ahead_le (by omega)
    rw [hnext] at hle
    have hold : before p.verno w''.sk.rcv.nxt = true := before_of_ahead_succ (by omega)
    exact ⟨validVerno_old hw'' hctrl hold, step_old hw'' hctrl hold⟩

def receiver : World := ⟨exampleSock 10 20 1 2 5 6 100 200, [], []⟩

def finPacket : Packet := examplePacket 20 10 2 1 6 { fin := true } 200 100

def afterFin : World := connProcess (exampleEnv 10 11) receiver finPacket

/-- A FIN, and the same FIN again. -/
theorem fin_replayed :
    afterFin.sk.rcv.nxt = 201 ∧ afterFin.sk.skState = .closewait ∧ hasValidVerno finPacket afterFin.sk = false ∧
      step (exampleEnv 10 11) afterFin (.packet finPacket) = some (servalSalSendAck (exampleEnv 10 11) afterFin).1 := by
  have hreceiver : Established receiver.sk := by decide
  have hstate : afterFin.sk.skState = .closewait := by decide +kernel
  have hafter : Established afterFin.sk := by
    rw [Established, hstate]
    decide
  have h := rcv_nxt_advances_and_replays_are_old hreceiver
    (step_packet hreceiver : step (exampleEnv 10 11) receiver (.packet finPacket) = some afterFin)
  have hold := h.2 (by decide +kernel) (.inl (by decide)) 0 afterFin (.refl _) (by decide) hafter
    (exampleEnv 10 11)
  exact ⟨by decide +kernel, hstate, hold⟩

end SalReplay
