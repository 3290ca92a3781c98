import Serval.SalRuns

/-! # Two sockets and the network between them

Packets on the way to a side may be lost, duplicated and overtake each other, but there are none
that the other side has not sent.
-/
namespace SalPair

open SerialNumber SalSocket SalInput SalControl SalRefine SalRuns

structure Pair where
  sk : Bool → Sock
  net : Bool → List Segment

def Pair.put (s : Pair) (i : Bool) (w : World) : Pair where
  sk := Function.update s.sk i w.sk
  net := Function.update s.net (!i) (s.net (!i) ++ sent w.out)

def Pair.setNet (s : Pair) (i : Bool) (ms : List Segment) : Pair :=
  { s with net := Function.update s.net i ms }

inductive PairStep (ok : Bool → Env → Sock → Event → Sock → Prop) :
    Option (Bool × Event) → ℕ → Pair → Pair → Prop where
  | event {s : Pair} {i : Bool} {env : Env} {tape : List Answer} {e : Event} {w : World} :
      (∀ p, e ≠ .packet p) → step env ⟨s.sk i, [], tape⟩ e = some w → ok i env (s.sk i) e w.sk →
      PairStep ok (some (i, e)) (ahead (s.sk i).snd.nxt w.sk.snd.nxt) s (s.put i w)
  | deliver {s : Pair} {i : Bool} {env : Env} {tape : List Answer} {p : Packet} {w : World} :
      p.toSegment ∈ s.net i → step env ⟨s.sk i, [], tape⟩ (.packet p) = some w →
      ok i env (s.sk i) (.packet p) w.sk →
      PairStep ok (some (i, .packet p)) (finCalls env) s
        ((s.setNet i ((s.net i).erase p.toSegment)).put i w)
  | lose {s : Pair} {i : Bool} {m : Segment} : PairStep ok none 0 s (s.setNet i ((s.net i).erase m))
  | duplicate {s : Pair} {i : Bool} {m : Segment} : m ∈ s.net i → PairStep ok none 0 s (s.setNet i (m :: s.net i))

inductive PairRun (ok : Bool → Env → Sock → Event → Sock → Prop) (s : Pair) :
    List (Bool × Event) → ℕ → Pair → Prop where
  | refl : PairRun ok s [] 0 s
  | tail {l : List (Bool × Event)} {o : Option (Bool × Event)} {n k : ℕ} {s' s'' : Pair} :
      PairRun ok s l n s' → PairStep ok o k s' s'' → PairRun ok s (l ++ o.toList) (n + k) s''

def Fewer (s s' : Pair) : Prop := s'.sk = s.sk ∧ ∀ i, ∀ m ∈ s'.net i, m ∈ s.net i

structure Moves (ok : Bool → Env → Sock → Event → Sock → Prop) (n : ℕ) (s s' : Pair) (i : Bool) (env : Env) (e : Event)
    (ms : List Segment) : Prop where
  step : ∃ tape w, step env ⟨s.sk i, [], tape⟩ e = some w ∧ s'.sk i = w.sk
  acts : Acts env e (ctl (s.sk i)) n (ctl (s.sk i)) ms (ctl (s'.sk i))
  other : s'.sk (!i) = s.sk (!i)
  sent : s'.net (!i) = s.net (!i) ++ ms
  left : ∀ m ∈ s'.net i, m ∈ s.net i
  packet : ∀ p, e = .packet p → p.toSegment ∈ s.net i
  ok : ok i env (s.sk i) e (s'.sk i)

variable {ok : Bool → Env → Sock → Event → Sock → Prop} {o : Option (Bool × Event)} {n : ℕ} {s s' : Pair}

section

variable (s) (i : Bool) (w : World) (ms : List Segment)

@[simp] theorem put_sk : (s.put i w).sk i = w.sk := by simp [Pair.put]

@[simp] theorem put_sk_other : (s.put i w).sk (!i) = s.sk (!i) := by
  simp [Pair.put]

@[simp] theorem put_net : (s.put i w).net i = s.net i := by
  simp [Pair.put]

@[simp] theorem put_net_other : (s.put i w).net (!i) = s.net (!i) ++ sent w.out := by
  simp [Pair.put]

@[simp] theorem setNet_sk : (s.setNet i ms).sk = s.sk := rfl

@[simp] theorem setNet_net : (s.setNet i ms).net i = ms := by
  simp [Pair.setNet]

@[simp] theorem setNet_net_other : (s.setNet i ms).net (!i) = s.net (!i) := by
  simp [Pair.setNet]

end

theorem forall_side {P : Bool → Prop} (i : Bool) (h : P i) (hother : P (!i)) : ∀ j, P j := by
  intro j
  by_cases hj : j = i
  · exact hj ▸ h
  · exact Bool.eq_not.mpr hj ▸ hother

variable {i : Bool} {ms : List Segment} {env : Env} {e : Event} {c : Ctl}

theorem fewer_setNet (h : ∀ m ∈ ms, m ∈ s.net i) : Fewer s (s.setNet i ms) := by
  refine ⟨rfl, forall_side i ?_ ?_⟩
  · rw [setNet_net]
    exact h
  · rw [setNet_net_other]
    exact fun m hm => hm

theorem acts_ahead {start c' : Ctl} (h : Acts env e start n c ms c') (hn : n < 2 ^ 32) : ahead c.nxt c'.nxt = n := by
  induction h with
  | refl => exact ahead_self _
  | @tail k c ms c' ms' c'' _ _ ih =>
    rw [ahead_trans (b := c'.nxt) (by rw [ih (by omega)]; exact hn), ih (by omega)]

theorem numbers_event (he : ∀ p, e ≠ .packet p) : numbers env e ≤ 1 := by
  cases e with
  | packet p => exact absurd rfl (he p)
  | transport call => cases call <;> simp [numbers, finCount]
  | close | migrate | rexmitTimeout | timewaitTimeout | keepaliveTimeout | orphan => simp [numbers]

theorem pairStep_cases (h : PairStep ok o n s s') (hest : ∀ i, Established (s.sk i)) :
    o = none ∧ Fewer s s' ∨ ∃ i env e k ms, o = some (i, e) ∧ k ≤ n ∧ Moves ok k s s' i env e ms := by
  cases h with
  | @event _ i env tape e w he hstep hok =>
    obtain ⟨k, ms, hk, hout, hacts⟩ := @step_does env ⟨s.sk i, [], tape⟩ w e (hest i) hstep
    have hlt : k < 2 ^ 32 := (hk.trans (numbers_event he)).trans_lt (by decide)
    refine .inr ⟨i, env, e, k, ms, rfl, (acts_ahead hacts hlt).ge, ?_⟩
    have hms : sent w.out = ms := hout
    exact ⟨⟨tape, w, hstep, by simp⟩, by simpa using hacts, by simp, by simp [hms], by simp,
      fun p hp => absurd hp (he p), by simpa using hok⟩
  | @deliver _ i env tape p w hmem hstep hok =>
    obtain ⟨k, ms, hk, hout, hacts⟩ := @step_does env ⟨s.sk i, [], tape⟩ w (.packet p) (hest i) hstep
    refine .inr ⟨i, env, .packet p, k, ms, rfl, hk, ?_⟩
    have hms : sent w.out = ms := hout
    refine ⟨⟨tape, w, hstep, by simp⟩, by simpa using hacts, by simp, by simp [hms], ?_, ?_, by simpa using hok⟩
    · intro m hm
      rw [put_net, setNet_net] at hm
      exact List.mem_of_mem_erase hm
    · rintro p' ⟨⟩
      exact hmem
  | lose => exact .inl ⟨rfl, fewer_setNet fun m hm => List.mem_of_mem_erase hm⟩
  | duplicate hm =>
    refine .inl ⟨rfl, fewer_setNet fun m' hm' => ?_⟩
    rcases List.mem_cons.mp hm' with rfl | hm'
    · exact hm
    · exact hm'

theorem carries_numbers {f : Flags} {v : UInt32} {m : Segment} (h : Carries c f v m) :
    m.flags = {} ∨ m.flags = f.wire ∧ m.verno = v ∧ m.ackno = c.rcv := by
  cases hctrl : m.ctrl with
  | none => exact .inl (by simp [Segment.flags, hctrl])
  | some ext =>
    obtain rfl := h.ctrl ext hctrl
    exact .inr ⟨by simp [Segment.flags, hctrl], by simp [Segment.verno, hctrl], by simp [Segment.ackno, hctrl]⟩

/-! ## Connections stay connections -/

def Connected (sk : Sock) : Prop := unconnected sk.skState = false

theorem Connected.established {sk : Sock} (h : Connected sk) : Established sk := by
  constructor <;> (intro hs; simp [Connected, hs, unconnected] at h)

theorem act_connected {start c' : Ctl}
    (h : Act env e start c ms c') (hc : unconnected c.skState = false) : unconnected c'.skState = false := by
  have hxmit : ∀ {c₁ : Ctl} {f v}, Xmit env.devs c₁ f v ms c' → c₁.skState = c.skState →
      unconnected c'.skState = false := by
    intro c₁ f v hx hstate
    obtain ⟨s, d, rfl⟩ := hx.frame
    exact hstate ▸ hc
  cases h with
  | ack hx | activeReset hx | rsynack _ _ hx | sendFin _ hx | migrate _ _ hx | rexmit _ _ hx => exact hxmit hx rfl
  | reset | rsynackDone | rsynackCross | rsyn | fin | refused | respond => exact hc
  | done => rfl
  | state hs _ _ => exact hs
  | @accept _ p =>
    obtain ⟨s, d, m, h⟩ := c.accept_frame p
    rw [h]
    exact hc

theorem pairStep_connected (h : PairStep ok o n s s') (hs : ∀ i, Connected (s.sk i)) : ∀ i, Connected (s'.sk i) := by
  rcases pairStep_cases h fun i => (hs i).established with ⟨-, hfewer⟩ | ⟨i, env, e, k, ms, -, -, hmoves⟩
  · rw [hfewer.1]
    exact hs
  · refine forall_side i ?_ ?_
    · exact hmoves.acts.preserves (P := fun c => unconnected c.skState = false)
        (fun hc hact => act_connected hact hc) (hs i)
    · rw [Connected, hmoves.other]
      exact hs _

/-! ## Steps in which no allocation fails -/

def Pair.migrate (s : Pair) (i : Bool) (env : Env) (dev : ℕ) : Pair :=
  s.put i (servalSockMigrate env ⟨s.sk i, [], []⟩ dev).1

def Pair.deliver (s : Pair) (i : Bool) (env : Env) (p : Packet) : Pair :=
  (s.setNet i ((s.net i).erase p.toSegment)).put i (connProcess env ⟨s.sk i, [], []⟩ p)

theorem pairStep_migrate {dev : ℕ} (hok : ok i env (s.sk i) (.migrate dev) ((s.migrate i env dev).sk i)) :
    PairStep ok (some (i, .migrate dev)) (ahead (s.sk i).snd.nxt ((s.migrate i env dev).sk i).snd.nxt) s
      (s.migrate i env dev) := by
  rw [Pair.migrate, put_sk] at hok ⊢
  exact .event (by simp) rfl hok

theorem pairStep_deliver {p : Packet} (hmem : p.toSegment ∈ s.net i)
    (hest : Established (s.sk i)) (hok : ok i env (s.sk i) (.packet p) ((s.deliver i env p).sk i)) :
    PairStep ok (some (i, .packet p)) (finCalls env) s (s.deliver i env p) := by
  rw [Pair.deliver, put_sk] at hok
  exact .deliver hmem (step_packet hest) hok

def examplePair : Pair where
  sk i := if i then exampleSock 10 20 1 2 5 6 100 200 else exampleSock 20 10 2 1 6 5 200 100
  net _ := []

end SalPair
