import Serval.TranslatorCopy

/-! # The worker loop of the translator

`worker_thread`, for one client. An event is reported only if its socket was armed for it, and the socket is armed again
only after the work.
-/
namespace TranslatorWorker

open TranslatorCopy List Prod

def noEvents : Events := ⟨false, false, false⟩

def Events.union (a b : Events) : Events :=
  ⟨a.epollin || b.epollin, a.epollout || b.epollout, a.epollrdhup || b.epollrdhup⟩

def Events.Among (a b : Events) : Prop :=
  (a.epollin → b.epollin) ∧ (a.epollout → b.epollout) ∧ (a.epollrdhup → b.epollrdhup)

instance (a b : Events) : Decidable (Events.Among a b) := inferInstanceAs (Decidable (_ ∧ _))

def MAX_WORK : ℕ := 4

def clientAddWork (c : Client) (w : Work) : Client :=
  if c.work.length = MAX_WORK then c else { c with work := c.work ++ [w] }

def noTraffic : Traffic := ⟨0, 0, 0, [], [], []⟩

/-- A client after `accept`: the accepted socket waits for its peer to hang up, and the other is to connect. -/
def clientCreate (fromFamily : Side) : Client where
  fromFamily := fromFamily
  sock d := if d = fromFamily then ⟨noTraffic, .connected, ⟨false, false, true⟩, noEvents⟩
    else ⟨noTraffic, .init, ⟨false, true, false⟩, noEvents⟩
  work := [.connect]
  isGarbage := false

inductive ConnectAnswer where
  | noDestination | connected | inProgress | failed
  deriving DecidableEq

def connected (c : Client) (s : Side) : Client :=
  (c.modify s fun k =>
    { k with state := .connected, monitoredEvents := ⟨true, true, false⟩, activeEvents := noEvents }).modify s.other
    fun k => { k with monitoredEvents := ⟨true, true, false⟩, activeEvents := noEvents }

def clientConnect (c : Client) (answer : ConnectAnswer) : Client × WorkStatus :=
  match answer with
  | .noDestination => (c, .error)
  | .connected => (connected c c.fromFamily.other, .ok)
  | .inProgress => (c.modify c.fromFamily.other fun k =>
      { k with state := .connecting, monitoredEvents := ⟨false, true, false⟩, activeEvents := noEvents }, .ok)
  | .failed => (c.modify c.fromFamily.other fun k => { k with state := .closed, activeEvents := noEvents }, .error)

inductive ResultAnswer where
  | noResult | connected | inProgress | failed
  deriving DecidableEq

def clientConnectResult (c : Client) (answer : ResultAnswer) : Client × WorkStatus :=
  match answer with
  | .noResult => (c, .error)
  | .connected => (connected c c.fromFamily.other, .ok)
  | .inProgress => (c, .ok)
  | .failed => ((c.modify c.fromFamily.other fun k => { k with state := .closed, monitoredEvents := noEvents }).modify
      c.fromFamily fun k => { k with monitoredEvents := noEvents }, .error)

def clientClose (c : Client) : Client :=
  let c := if (c.sock .inet).state ≠ .closed then socketClose c .inet else c
  if (c.sock .serval).state ≠ .closed then socketClose c .serval else c

structure Answers where
  kernel : Kernel
  connect : ConnectAnswer
  result : ResultAnswer

def runWork (c : Client) (a : Answers) : Work → Option (Client × WorkStatus)
  | .connect => some (clientConnect c a.connect)
  | .connectResult => some (clientConnectResult c a.result)
  | .translate d => workTranslate c d a.kernel
  | .close => some (clientClose c, .exit)

def Client.activeIn (c : Client) (d : Side) (b : Bool) : Client :=
  c.modify d fun s => { s with activeEvents := { s.activeEvents with epollin := b } }

def Client.activeOut (c : Client) (d : Side) (b : Bool) : Client :=
  c.modify d fun s => { s with activeEvents := { s.activeEvents with epollout := b } }

def Client.activeRdhup (c : Client) (d : Side) (b : Bool) : Client :=
  c.modify d fun s => { s with activeEvents := { s.activeEvents with epollrdhup := b } }

def onReadable (c : Client) (s : Side) : Client :=
  (if (c.sock s.other).activeEvents.epollout then clientAddWork (Client.activeIn c s false) (.translate s)
    else c.monitorOut s.other true).monitorIn s false

def onWritable (c : Client) (s : Side) : Client :=
  if (c.sock s).state = .connecting then clientAddWork (Client.activeOut (c.monitorOut s false) s false) .connectResult
  else
    (if (c.sock s.other).activeEvents.epollin ∨ 0 < (c.sock s.other).bytesInPipe then
      clientAddWork (Client.activeOut c s false) (.translate s.other)
    else c.monitorIn s.other true).monitorOut s false

def checkSocketEvents (c : Client) (s : Side) (events : Events) : Client :=
  if (c.sock s).state = .closed ∨ (c.sock s).state = .init then c
  else if events.epollrdhup then clientAddWork (Client.activeRdhup c s false) .close
  else
    let c := if events.epollin then onReadable c s else c
    if events.epollout then onWritable c s else c

/-- The worker, as far as one client goes: what the sockets are armed for, the events that are not taken yet, and if it
is running the work of an event. -/
structure Loop where
  c : Client
  armed : Side → Events
  pending : List (Side × Events)
  busy : Bool

def start (fromFamily : Side) : Loop :=
  ⟨clientCreate fromFamily, fun d => ((clientCreate fromFamily).sock d).monitoredEvents, [], false⟩

inductive Move where
  | wait (events : List (Side × Events))
  | take
  | work (a : Answers)
  | rearm

/-- The events of one `epoll_wait`, at most one for each socket. -/
def Reported (l : Loop) (events : List (Side × Events)) : Prop :=
  (events.map fst).Nodup ∧ ∀ p ∈ events, Events.Among p.2 (l.armed p.1)

instance (l : Loop) (events : List (Side × Events)) : Decidable (Reported l events) :=
  inferInstanceAs (Decidable (_ ∧ _))

def noteEvents (c : Client) (s : Side) (events : Events) : Client :=
  c.modify s fun k => { k with activeEvents := Events.union k.activeEvents events }

/-- An event of a closed socket is ignored. -/
def take (l : Loop) (s : Side) (events : Events) (rest : List (Side × Events)) : Loop :=
  if (l.c.sock s).state = .closed then { l with pending := rest }
  else { l with c := checkSocketEvents (noteEvents l.c s events) s events, pending := rest, busy := true }

/-- `worker_dispose_client`, after which the rest of the work is dropped. -/
def finish (l : Loop) (c : Client) (status : WorkStatus) : Loop :=
  match status with
  | .error | .close | .exit => { l with c := { c with work := [], isGarbage := true }, busy := false }
  | .wouldBlock | .ok => { l with c := c }

def step (l : Loop) : Move → Option Loop
  | .wait events =>
    if l.busy = false ∧ l.pending = [] ∧ l.c.isGarbage = false ∧ Reported l events then
      some { l with armed := fun d => if d ∈ events.map fst then noEvents else l.armed d, pending := events }
    else none
  | .take =>
    match l.busy, l.pending with
    | false, (s, events) :: rest => some (take l s events rest)
    | _, _ => none
  | .work a =>
    match l.busy, l.c.work with
    | true, w :: ws => (runWork { l.c with work := ws } a w).map fun r => finish l r.1 r.2
    | _, _ => none
  | .rearm =>
    match l.busy, l.c.work with
    | true, [] => some { l with
        armed := fun d => if (l.c.sock d).state ≠ .closed then (l.c.sock d).monitoredEvents else noEvents
        busy := false }
    | _, _ => none

inductive Reachable : Loop → Prop where
  | start (fromFamily : Side) : Reachable (start fromFamily)
  | step {l l' : Loop} (m : Move) : Reachable l → step l m = some l' → Reachable l'

variable {c c' c'' : Client} {l l' : Loop} {s : Side} {events : Events}

variable {w : Work} {rest : List (Side × Events)} {ws : List Work}

/-! ## What an event leaves -/

/-- All of a client but its work, the events that are reported, and for which of data and room its sockets wait. -/
def view (c : Client) : Side × Bool × (Side → Traffic × SocketState × Bool) :=
  (c.fromFamily, c.isGarbage, fun e => ((c.sock e).toTraffic, (c.sock e).state, (c.sock e).monitoredEvents.epollrdhup))

theorem sock_of_view (h : view c' = view c) (e : Side) : (c'.sock e).toTraffic = (c.sock e).toTraffic ∧
    (c'.sock e).state = (c.sock e).state ∧
      (c'.sock e).monitoredEvents.epollrdhup = (c.sock e).monitoredEvents.epollrdhup := by
  simpa using congrFun (mk.inj (mk.inj h).2).2 e

theorem traffic_of_view (h : view c' = view c) (e : Side) : (c'.sock e).toTraffic = (c.sock e).toTraffic :=
  (sock_of_view h e).1

theorem state_of_view (h : view c' = view c) (e : Side) : (c'.sock e).state = (c.sock e).state :=
  (sock_of_view h e).2.1

theorem view_modify (c : Client) (d : Side) {f : Socket → Socket}
    (hf : ∀ s, ((f s).toTraffic, (f s).state, (f s).monitoredEvents.epollrdhup) =
      (s.toTraffic, s.state, s.monitoredEvents.epollrdhup)) : view (c.modify d f) = view c := by
  have hsock : ∀ e, (view (c.modify d f)).2.2 e = (view c).2.2 e := by
    intro e
    rcases d.eq_or e with rfl | rfl
    · simp only [view, modify_self, hf]
    · simp only [view, modify_other]
  exact Prod.ext rfl (Prod.ext rfl (funext hsock))

section

variable (c s w) (d : Side) (b : Bool)

@[simp] theorem clientAddWork_sock : (clientAddWork c w).sock = c.sock := by
  rw [clientAddWork]
  split <;> rfl

@[simp] theorem view_addWork : view (clientAddWork c w) = view c := by
  rw [clientAddWork]
  split <;> rfl

@[simp] theorem view_monitorIn : view (c.monitorIn d b) = view c :=
  view_modify c d fun _ => rfl

@[simp] theorem view_monitorOut : view (c.monitorOut d b) = view c :=
  view_modify c d fun _ => rfl

@[simp] theorem view_activeIn : view (Client.activeIn c d b) = view c :=
  view_modify c d fun _ => rfl

@[simp] theorem view_activeOut : view (Client.activeOut c d b) = view c :=
  view_modify c d fun _ => rfl

@[simp] theorem view_activeRdhup : view (Client.activeRdhup c d b) = view c :=
  view_modify c d fun _ => rfl

@[simp] theorem view_noteEvents (events : Events) : view (noteEvents c s events) = view c :=
  view_modify c s fun _ => rfl

@[simp] theorem view_onReadable : view (onReadable c s) = view c := by
  rw [onReadable, view_monitorIn]
  split <;> simp

@[simp] theorem view_onWritable : view (onWritable c s) = view c := by
  rw [onWritable]
  split
  · simp
  · rw [view_monitorOut]
    split <;> simp

theorem view_checkSocketEvents (events : Events) :
    view (checkSocketEvents (noteEvents c s events) s events) = view c := by
  rw [checkSocketEvents, ← view_noteEvents c s events]
  split
  · rfl
  · split
    · simp
    · dsimp only
      split <;> split <;> simp

end

/-! ## What an event does once both sockets are connected -/

theorem mem_clientAddWork {v : Work} (h : v ∈ (clientAddWork c w).work) : v ∈ c.work ∨ v = w := by
  rw [clientAddWork] at h
  split at h
  · exact .inl h
  · simpa using h

theorem onReadable_work (h : w ∈ (onReadable c s).work) : w ∈ c.work ∨ ∃ d, w = .translate d := by
  rw [onReadable] at h
  split at h
  · exact (mem_clientAddWork h).imp_right fun he => ⟨s, he⟩
  · exact .inl h

theorem onWritable_work (hs : (c.sock s).state ≠ .connecting) (h : w ∈ (onWritable c s).work) :
    w ∈ c.work ∨ ∃ d, w = .translate d := by
  rw [onWritable, if_neg hs] at h
  split at h
  · exact (mem_clientAddWork h).imp_right fun he => ⟨s.other, he⟩
  · exact .inl h

theorem checkSocketEvents_work (hs : (c.sock s).state ≠ .connecting) (hevents : events.epollrdhup = false)
    (h : w ∈ (checkSocketEvents c s events).work) : w ∈ c.work ∨ ∃ d, w = .translate d := by
  rw [checkSocketEvents] at h
  split at h
  · exact .inl h
  · rw [hevents, if_neg Bool.false_ne_true] at h
    have hread : view (if events.epollin then onReadable c s else c) = view c ∧
        (w ∈ (if events.epollin then onReadable c s else c).work → w ∈ c.work ∨ ∃ d, w = .translate d) := by
      split
      · exact ⟨view_onReadable c s, onReadable_work⟩
      · exact ⟨rfl, .inl⟩
    dsimp only at h
    split at h
    · exact (onWritable_work (state_of_view hread.1 s ▸ hs) h).elim hread.2 .inr
    · exact hread.2 h

theorem checkSocketEvents_rdhup (hs : (c.sock s).state ≠ .closed) (hinit : (c.sock s).state ≠ .init)
    (hevents : events.epollrdhup = true) :
    checkSocketEvents c s events = clientAddWork (Client.activeRdhup c s false) .close := by
  rw [checkSocketEvents, if_neg (by simp [hs, hinit]), if_pos hevents]

/-! ## Before and after the connection -/

def NoPipes (c : Client) : Prop := ∀ e, (c.sock e).pipe = []

def Waiting (fromFamily d : Side) (events : Events) : Prop :=
  events.epollin = false ∧ (d = fromFamily → events.epollout = false) ∧ (d ≠ fromFamily → events.epollrdhup = false)

structure Unconnected (c : Client) : Prop where
  empty : NoPipes c
  accepted : (c.sock c.fromFamily).state = .connected ∨ (c.sock c.fromFamily).state = .closed
  connecting : (c.sock c.fromFamily.other).state ≠ .connected
  monitored : ∀ e, Waiting c.fromFamily e (c.sock e).monitoredEvents

structure Early (l : Loop) : Prop where
  client : Unconnected l.c
  armed : ∀ e, Waiting l.c.fromFamily e (l.armed e)
  pending : ∀ p ∈ l.pending, Waiting l.c.fromFamily p.1 p.2
  count : l.pending.length ≤ if l.busy then 1 else 2
  work : ∀ d, .translate d ∉ l.c.work
  later : ∀ w ∈ l.c.work.tail, w = .close
  idle : l.busy = false → l.c.work = [] ∨ (l.c.work = [.connect] ∧ (l.c.sock l.c.fromFamily.other).state = .init)

/-- The client is connected, or was. That a peer hung up is still reported only if it was fetched before. -/
structure Late (l : Loop) : Prop where
  settled : Settled l.c
  monitored : ∀ e, (l.c.sock e).monitoredEvents.epollrdhup = false
  armed : l.busy = false → l.c.isGarbage = false → ∀ e, (l.armed e).epollrdhup = false
  work : .connect ∉ l.c.work ∧ .connectResult ∉ l.c.work
  idle : l.busy = false → l.c.work = []
  closing : (.close ∈ l.c.work ∨ ∃ p ∈ l.pending, p.2.epollrdhup = true) →
    NoPipes l.c ∧ (∀ d, .translate d ∉ l.c.work) ∧ l.pending.length ≤ 1

structure Inv (l : Loop) : Prop where
  copied : ∀ e, Copied l.c e
  phase : Early l ∨ Late l

theorem copied_of_traffic (h : ∀ e, Copied c e) (ht : ∀ e, (c'.sock e).toTraffic = (c.sock e).toTraffic) (e : Side) :
    Copied c' e :=
  (h e).congr (ht e) (ht e.other)

theorem noPipes_of_traffic (h : NoPipes c) (ht : ∀ e, (c'.sock e).toTraffic = (c.sock e).toTraffic) : NoPipes c' := by
  intro e
  rw [ht e]
  exact h e

theorem clientAddWork_work (h : c.work.length < MAX_WORK) : (clientAddWork c w).work = c.work ++ [w] := by
  rw [clientAddWork, if_neg h.ne]

theorem clientClose_spec (c : Client) : (clientClose c).fromFamily = c.fromFamily ∧ (clientClose c).work = c.work ∧
      ∀ e, ((clientClose c).sock e).toTraffic = (c.sock e).toTraffic ∧ ((clientClose c).sock e).state = .closed ∧
        ((clientClose c).sock e).monitoredEvents = (c.sock e).monitoredEvents := by
  by_cases hi : (c.sock .inet).state = .closed <;> by_cases hs : (c.sock .serval).state = .closed <;>
    refine ⟨?_, ?_, fun e => ?_⟩ <;> (try cases e) <;>
    simp [clientClose, socketClose, Client.modify, hi, hs]

theorem waiting_none (f d : Side) : Waiting f d noEvents := ⟨rfl, fun _ => rfl, fun _ => rfl⟩

theorem Waiting.among {f d : Side} {a b : Events} (h : Waiting f d b) (hab : Events.Among a b) : Waiting f d a := by
  obtain ⟨hin, hout, hrdhup⟩ := h
  refine ⟨Bool.eq_false_iff.mpr fun ha => ?_, fun hd => Bool.eq_false_iff.mpr fun ha => ?_,
    fun hd => Bool.eq_false_iff.mpr fun ha => ?_⟩
  · rw [hab.1 ha] at hin
    cases hin
  · have hb := hout hd
    rw [hab.2.1 ha] at hb
    cases hb
  · have hb := hrdhup hd
    rw [hab.2.2 ha] at hb
    cases hb

/-! ## The steps -/

theorem start_inv (fromFamily : Side) : Inv (start fromFamily) := by
  have hsock : ∀ e, ((clientCreate fromFamily).sock e).toTraffic = noTraffic := by
    intro e
    simp only [clientCreate]
    split <;> rfl
  have hwait : ∀ e, Waiting fromFamily e ((clientCreate fromFamily).sock e).monitoredEvents := by
    intro e
    by_cases he : e = fromFamily
    · simp [clientCreate, he, Waiting]
    · simp [clientCreate, he, Waiting]
  refine ⟨fun e => ?_, .inl ?_⟩
  · constructor <;> simp only [start, hsock] <;> decide
  · refine ⟨⟨fun e => ?_, .inl ?_, ?_, hwait⟩, hwait, fun p hp => ?_, Nat.zero_le _, fun d hd => ?_, fun w hw => ?_,
      fun _ => .inr ⟨rfl, ?_⟩⟩
    · simp only [start, hsock]
      rfl
    · simp [start, clientCreate]
    · simp [start, clientCreate]
    · cases hp
    · cases hd with
      | tail _ hd => cases hd
    · cases hw
    · simp [start, clientCreate]

theorem length_le_two {p : List (Side × Events)} (h : (p.map fst).Nodup) : p.length ≤ 2 := by
  have hsub : p.map fst ⊆ [.inet, .serval] := by
    intro d _
    cases d <;> simp
  simpa using (subperm_of_subset h hsub).length_le

theorem wait_inv {batch : List (Side × Events)} (h : Inv l) (hbusy : l.busy = false) (hlive : l.c.isGarbage = false)
    (hreported : Reported l batch) :
    Inv { l with armed := fun d => if d ∈ batch.map fst then noEvents else l.armed d, pending := batch } := by
  refine ⟨h.copied, h.phase.imp (fun he => ?_) fun hl => ?_⟩
  · refine { he with armed := fun e => ?_, pending := fun p hp => (he.armed p.1).among (hreported.2 p hp), count := ?_ }
    · dsimp only
      split
      · exact waiting_none _ e
      · exact he.armed e
    · rw [hbusy]
      exact length_le_two hreported.1
  · have hquiet : ∀ p ∈ batch, p.2.epollrdhup = false := by
      intro p hp
      rw [Bool.eq_false_iff]
      intro hr
      have harmed := (hreported.2 p hp).2.2 hr
      rw [hl.armed hbusy hlive p.1] at harmed
      cases harmed
    refine { hl with armed := fun _ _ e => ?_, closing := ?_ }
    · dsimp only
      split
      · rfl
      · exact hl.armed hbusy hlive e
    · rintro (hclose | ⟨p, hp, hr⟩)
      · rw [hl.idle hbusy] at hclose
        cases hclose
      · rw [hquiet p hp] at hr
        cases hr

theorem rearm_inv (h : Inv l) (hbusy : l.busy = true) (hwork : l.c.work = []) : Inv { l with
      armed := fun d => if (l.c.sock d).state ≠ .closed then (l.c.sock d).monitoredEvents else noEvents
      busy := false } := by
  refine ⟨h.copied, h.phase.imp (fun he => ?_) fun hl => ?_⟩
  · have hcount := he.count
    rw [hbusy, if_pos rfl] at hcount
    refine { he with armed := fun e => ?_, count := Nat.le_succ_of_le hcount, idle := fun _ => .inl hwork }
    dsimp only
    split
    · exact he.client.monitored e
    · exact waiting_none _ e
  · refine { hl with armed := fun _ _ e => ?_, idle := fun _ => hwork }
    dsimp only
    split
    · exact hl.monitored e
    · rfl

theorem activeRdhup_monitored (c : Client) (s e : Side) (b : Bool) :
    ((Client.activeRdhup c s b).sock e).monitoredEvents = (c.sock e).monitoredEvents := by
  rcases s.eq_or e with rfl | rfl <;> simp [Client.activeRdhup]

theorem noteEvents_monitored (c : Client) (s e : Side) (events : Events) :
    ((noteEvents c s events).sock e).monitoredEvents = (c.sock e).monitoredEvents := by
  rcases s.eq_or e with rfl | rfl <;> simp [noteEvents]

structure Checked (c c' : Client) : Prop where
  monitored : ∀ e, Waiting c.fromFamily e (c'.sock e).monitoredEvents
  work : c'.work = c.work ∨ c'.work = c.work ++ [.close] ∨ (c.work = [] ∧ c'.work = [.connectResult])

theorem early_check (h : Early l) (hbusy : l.busy = false) (hs : (l.c.sock s).state ≠ .closed)
    (hevents : Waiting l.c.fromFamily s events) :
    Checked l.c (checkSocketEvents (noteEvents l.c s events) s events) := by
  have hroom : l.c.work.length < MAX_WORK := by
    rcases h.idle hbusy with hw | ⟨hw, -⟩ <;> rw [hw] <;> decide
  have hstate := state_of_view (view_noteEvents l.c s events) s
  have hmonitored : ∀ e, Waiting l.c.fromFamily e ((noteEvents l.c s events).sock e).monitoredEvents := fun e => by
    rw [noteEvents_monitored]
    exact h.client.monitored e
  generalize hc : noteEvents l.c s events = c at hstate hmonitored ⊢
  have hwork : c.work = l.c.work := hc ▸ rfl
  have hsame : checkSocketEvents c s events = c → Checked l.c (checkSocketEvents c s events) := fun he => by
    rw [he]
    exact ⟨hmonitored, .inl hwork⟩
  obtain ⟨hin, hout, hrdhup⟩ := hevents
  by_cases hinit : (c.sock s).state = .init
  · exact hsame (by rw [checkSocketEvents, if_pos (.inr hinit)])
  have hopen : (c.sock s).state ≠ .closed := by rwa [hstate]
  by_cases hacc : s = l.c.fromFamily
  · by_cases hr : events.epollrdhup = true
    · rw [checkSocketEvents_rdhup hopen hinit hr]
      refine ⟨fun e => ?_, .inr (.inl ?_)⟩
      · rw [clientAddWork_sock, activeRdhup_monitored]
        exact hmonitored e
      · rw [← hwork] at hroom ⊢
        exact clientAddWork_work hroom
    · exact hsame (by simp [checkSocketEvents, hopen, hinit, hr, hin, hout hacc])
  · by_cases ho : events.epollout = true
    · have hother : s = l.c.fromFamily.other := (l.c.fromFamily.eq_or s).resolve_left hacc
      have hconnecting : (c.sock s).state = .connecting := by
        have hne := h.client.connecting
        rw [← hother, ← hstate] at hne
        generalize (c.sock s).state = st at *
        cases st <;> simp_all
      have hcheck : checkSocketEvents c s events =
          clientAddWork (Client.activeOut (c.monitorOut s false) s false) .connectResult := by
        simp [checkSocketEvents, hconnecting, hrdhup hacc, hin, ho, onWritable]
      have hnone : l.c.work = [] := by
        rcases h.idle hbusy with hw | ⟨-, hi⟩
        · exact hw
        · rw [← hother, ← hstate, hconnecting] at hi
          cases hi
      rw [hcheck]
      refine ⟨fun e => ?_, .inr (.inr ⟨hnone, ?_⟩)⟩
      · obtain ⟨hin', hout', hrdhup'⟩ := hmonitored e
        rw [clientAddWork_sock]
        rcases s.eq_or e with rfl | rfl
        · simp only [Client.activeOut, Client.monitorOut, modify_self]
          exact ⟨hin', fun _ => rfl, hrdhup'⟩
        · simp only [Client.activeOut, Client.monitorOut, modify_other]
          exact ⟨hin', hout', hrdhup'⟩
      · have hactive : (Client.activeOut (c.monitorOut s false) s false).work = [] := hwork.trans hnone
        rw [clientAddWork_work (by rw [hactive]; decide), hactive]
        rfl
    · exact hsame (by simp [checkSocketEvents, hopen, hinit, hrdhup hacc, hin, ho])

theorem take_closed_inv (h : Inv l) (hpending : l.pending = (s, events) :: rest) : Inv { l with pending := rest } := by
  have hmem : ∀ p ∈ rest, p ∈ l.pending := fun p hp => by
    rw [hpending]
    exact mem_cons_of_mem _ hp
  have hlength : rest.length ≤ l.pending.length := by simp [hpending]
  refine ⟨h.copied, h.phase.imp (fun he => ?_) fun hl => ?_⟩
  · exact { he with pending := fun p hp => he.pending p (hmem p hp), count := hlength.trans he.count }
  · refine { hl with closing := fun hclose => ?_ }
    obtain ⟨hempty, hwork, hle⟩ := hl.closing (hclose.imp_right fun ⟨p, hp, hr⟩ => ⟨p, hmem p hp, hr⟩)
    exact ⟨hempty, hwork, hlength.trans hle⟩

theorem take_early (h : Early l) (hbusy : l.busy = false) (hpending : l.pending = (s, events) :: rest)
    (hview : view c = view l.c) (hc : Checked l.c c) : Early { l with c := c, pending := rest, busy := true } := by
  have hcount := h.count
  rw [hbusy, if_neg Bool.false_ne_true, hpending, length_cons] at hcount
  have hfamily : c.fromFamily = l.c.fromFamily := (mk.inj hview).1
  constructor
  case client =>
    refine ⟨noPipes_of_traffic h.client.empty (traffic_of_view hview), ?_, ?_, ?_⟩
    · simpa only [hfamily, state_of_view hview] using h.client.accepted
    · simpa only [hfamily, state_of_view hview] using h.client.connecting
    · simpa only [hfamily] using hc.monitored
  case armed => simpa only [hfamily] using h.armed
  case pending =>
    simp only [hfamily]
    intro p hp
    refine h.pending p ?_
    rw [hpending]
    exact mem_cons_of_mem _ hp
  case count =>
    simp only [if_true]
    omega
  case work =>
    intro d hd
    have hold := h.work d
    rcases hc.work with hw | hw | ⟨-, hw⟩ <;> simp_all
  case later =>
    intro w hw
    rcases hc.work with hwork | hwork | ⟨-, hwork⟩ <;> rcases h.idle hbusy with hidle | ⟨hidle, -⟩ <;> simp_all
  case idle => exact fun hb => nomatch hb

theorem take_late_rdhup (h : Late l) (hbusy : l.busy = false)
    (hpending : l.pending = (s, events) :: rest) (hr : events.epollrdhup = true) :
    Late { l with c := clientAddWork (Client.activeRdhup (noteEvents l.c s events) s false) .close,
                  pending := rest, busy := true } := by
  obtain ⟨hempty, -, hle⟩ := h.closing (.inr ⟨(s, events), by simp [hpending], hr⟩)
  rw [hpending, length_cons] at hle
  have hview : view (Client.activeRdhup (noteEvents l.c s events) s false) = view l.c := by
    rw [view_activeRdhup, view_noteEvents]
  have hidle : (Client.activeRdhup (noteEvents l.c s events) s false).work = [] := h.idle hbusy
  have hwork : (clientAddWork (Client.activeRdhup (noteEvents l.c s events) s false) .close).work = [.close] := by
    rw [clientAddWork_work (by rw [hidle]; decide), hidle]
    rfl
  constructor
  case settled =>
    intro e
    rw [clientAddWork_sock, state_of_view hview]
    exact h.settled e
  case monitored =>
    intro e
    rw [clientAddWork_sock, activeRdhup_monitored, noteEvents_monitored]
    exact h.monitored e
  case armed => exact fun hb => nomatch hb
  case work =>
    simp only [hwork]
    decide
  case idle => exact fun hb => nomatch hb
  case closing =>
    refine fun _ => ⟨fun e => ?_, fun d => ?_, by dsimp only; omega⟩
    · rw [clientAddWork_sock, traffic_of_view hview]
      exact hempty e
    · simp [hwork]

theorem take_late (h : Late l) (hpending : l.pending = (s, events) :: rest)
    (hview : view c = view l.c) (hwork : ∀ w ∈ c.work, ∃ d, w = .translate d) :
    Late { l with c := c, pending := rest, busy := true } := by
  constructor
  case settled =>
    intro e
    rw [state_of_view hview]
    exact h.settled e
  case monitored =>
    intro e
    rw [(sock_of_view hview e).2.2]
    exact h.monitored e
  case armed => exact fun hb => nomatch hb
  case work =>
    constructor <;> intro hw <;> obtain ⟨d, hd⟩ := hwork _ hw <;> cases hd
  case idle => exact fun hb => nomatch hb
  case closing =>
    rintro (hw | ⟨p, hp, hpr⟩)
    · obtain ⟨d, hd⟩ := hwork _ hw
      cases hd
    · -- a second event after this one cannot be that the peer hung up
      obtain ⟨-, -, hle⟩ := h.closing (.inr ⟨p, by rw [hpending]; exact mem_cons_of_mem _ hp, hpr⟩)
      rw [hpending, length_cons] at hle
      have hpos : 0 < rest.length := length_pos_of_mem hp
      omega

theorem take_inv (h : Inv l) (hbusy : l.busy = false)
    (hpending : l.pending = (s, events) :: rest) : Inv (take l s events rest) := by
  rw [take]
  split
  · exact take_closed_inv h hpending
  rename_i hopen
  have hcheck := view_checkSocketEvents l.c s events
  refine ⟨copied_of_traffic h.copied (traffic_of_view hcheck), ?_⟩
  rcases h.phase with he | hl
  · refine .inl (take_early he hbusy hpending hcheck ?_)
    exact early_check he hbusy hopen (he.pending (s, events) (by simp [hpending]))
  · have hstate : ((noteEvents l.c s events).sock s).state = .connected := by
      rw [state_of_view (view_noteEvents ..)]
      exact (hl.settled s).resolve_right hopen
    by_cases hr : events.epollrdhup = true
    · rw [checkSocketEvents_rdhup (by simp [hstate]) (by simp [hstate]) hr]
      exact .inr (take_late_rdhup hl hbusy hpending hr)
    · refine .inr (take_late hl hpending hcheck fun w hw => ?_)
      refine (checkSocketEvents_work (by simp [hstate]) (by simpa using hr) hw).resolve_left fun hold => ?_
      rw [show (noteEvents l.c s events).work = [] from hl.idle hbusy] at hold
      cases hold

structure Stays (c c' : Client) : Prop where
  fromFamily : c'.fromFamily = c.fromFamily
  work : c'.work = c.work
  traffic : ∀ e, (c'.sock e).toTraffic = (c.sock e).toTraffic
  accepted : (c'.sock c.fromFamily).state = .connected ∨ (c'.sock c.fromFamily).state = .closed
  connecting : (c'.sock c.fromFamily.other).state ≠ .connected
  monitored : ∀ e, Waiting c.fromFamily e (c'.sock e).monitoredEvents

theorem Unconnected.stays (h : Unconnected c) : Stays c c :=
  ⟨rfl, rfl, fun _ => rfl, h.accepted, h.connecting, h.monitored⟩

theorem clientConnect_spec (h : Unconnected c) (answer : ConnectAnswer) :
    clientConnect c answer = (connected c c.fromFamily.other, .ok) ∨ Stays c (clientConnect c answer).1 := by
  cases answer with
  | noDestination => exact .inr h.stays
  | connected => exact .inl rfl
  | inProgress | failed =>
    refine .inr ⟨rfl, rfl, fun e => ?_, ?_, ?_, fun e => ?_⟩
    · rcases c.fromFamily.eq_or e with rfl | rfl <;> simp [clientConnect]
    · simpa [clientConnect] using h.accepted
    · simp [clientConnect]
    · have hmonitored := h.monitored e
      rcases c.fromFamily.eq_or e with rfl | rfl <;> simp_all [clientConnect, Waiting]

theorem clientConnectResult_spec (h : Unconnected c) (answer : ResultAnswer) :
    clientConnectResult c answer = (connected c c.fromFamily.other, .ok) ∨
    Stays c (clientConnectResult c answer).1 := by
  cases answer with
  | noResult | inProgress => exact .inr h.stays
  | connected => exact .inl rfl
  | failed =>
    refine .inr ⟨rfl, rfl, fun e => ?_, ?_, ?_, fun e => ?_⟩
    · rcases c.fromFamily.eq_or e with rfl | rfl <;> simp [clientConnectResult]
    · simpa [clientConnectResult] using h.accepted
    · simp [clientConnectResult]
    · rcases c.fromFamily.eq_or e with rfl | rfl <;> simp [clientConnectResult, waiting_none]

theorem clientClose_stays (h : Unconnected c) : Stays c (clientClose c) := by
  obtain ⟨hfamily, hwork, hsock⟩ := clientClose_spec c
  refine ⟨hfamily, hwork, fun e => (hsock e).1, .inr (hsock _).2.1, ?_, fun e => ?_⟩
  · rw [(hsock _).2.1]
    decide
  · rw [(hsock e).2.2]
    exact h.monitored e

theorem finish_early (h : Early l) (hbusy : l.busy = true) (hwork : l.c.work = w :: ws)
    (hc : Stays { l.c with work := ws } c) (status : WorkStatus) : Early (finish l c status) := by
  have hcount := h.count
  rw [hbusy, if_pos rfl] at hcount
  have hfamily : c.fromFamily = l.c.fromFamily := hc.fromFamily
  have hclient : Unconnected c := by
    refine ⟨noPipes_of_traffic h.client.empty hc.traffic, ?_, ?_, ?_⟩ <;> rw [hfamily]
    · exact hc.accepted
    · exact hc.connecting
    · exact hc.monitored
  have harmed := h.armed
  have hpending := h.pending
  rw [← hfamily] at harmed hpending
  have hstop : Early { l with c := { c with work := [], isGarbage := true }, busy := false } :=
    ⟨{ hclient with }, harmed, hpending, Nat.le_succ_of_le hcount, fun _ => not_mem_nil,
      fun _ hv => absurd hv not_mem_nil, fun _ => .inl rfl⟩
  have hws : c.work = ws := hc.work
  have hgo : Early { l with c := c } := by
    refine ⟨hclient, harmed, hpending, h.count, fun d hd => ?_, fun v hv => ?_, fun hb => ?_⟩
    · refine h.work d ?_
      rw [hwork]
      exact mem_cons_of_mem _ (hws ▸ hd)
    · refine h.later v ?_
      rw [hwork]
      exact mem_of_mem_tail (hws ▸ hv)
    · rw [show l.busy = false from hb] at hbusy
      cases hbusy
  cases status with
  | error | close | exit => exact hstop
  | ok | wouldBlock => exact hgo

theorem connected_late (h : Early l) (hbusy : l.busy = true) (hwork : l.c.work = w :: ws) :
    Late (finish l (connected { l.c with work := ws } l.c.fromFamily.other) .ok) := by
  have hlater := h.later
  rw [hwork, tail_cons] at hlater
  have hcount := h.count
  rw [hbusy, if_pos rfl] at hcount
  have hnot : ∀ v, v ≠ .close → v ∉ ws := fun v hv hmem => hv (hlater v hmem)
  have hidle : (finish l (connected { l.c with work := ws } l.c.fromFamily.other) .ok).busy ≠ false := by
    simp [finish, hbusy]
  constructor
  case settled =>
    intro e
    rcases l.c.fromFamily.eq_or e with rfl | rfl
    · simpa [finish, connected] using h.client.accepted
    · simp [finish, connected]
  case monitored =>
    intro e
    rcases l.c.fromFamily.eq_or e with rfl | rfl <;> simp [finish, connected]
  case armed => exact fun hb => absurd hb hidle
  case work => exact ⟨hnot _ (by decide), hnot _ (by decide)⟩
  case idle => exact fun hb => absurd hb hidle
  case closing =>
    refine fun _ => ⟨fun e => ?_, fun d => hnot _ (by simp), hcount⟩
    rcases l.c.fromFamily.eq_or e with rfl | rfl
    · simpa [finish, connected] using h.client.empty l.c.fromFamily
    · simpa [finish, connected] using h.client.empty l.c.fromFamily.other

section

variable {a : Answers} {status : WorkStatus}

theorem work_early (h : Early l) (hbusy : l.busy = true)
    (hwork : l.c.work = w :: ws) (hrun : runWork { l.c with work := ws } a w = some (c, status)) :
    (∀ e, (c.sock e).toTraffic = (l.c.sock e).toTraffic) ∧ (Early (finish l c status) ∨ Late (finish l c status)) := by
  have hself : Unconnected { l.c with work := ws } := { h.client with }
  have hends : (c, status) = (connected { l.c with work := ws } l.c.fromFamily.other, .ok) ∨
      Stays { l.c with work := ws } c := by
    cases w with
    | translate d => exact absurd (by simp [hwork]) (h.work d)
    | close =>
      cases hrun
      exact .inr (clientClose_stays hself)
    | connect => simpa [Option.some.inj hrun] using clientConnect_spec hself a.connect
    | connectResult => simpa [Option.some.inj hrun] using clientConnectResult_spec hself a.result
  rcases hends with he | hc
  · cases he
    refine ⟨fun e => ?_, .inr (connected_late h hbusy hwork)⟩
    rcases l.c.fromFamily.eq_or e with rfl | rfl <;> simp [connected]
  · exact ⟨hc.traffic, .inl (finish_early h hbusy hwork hc status)⟩

theorem finish_late (h : Late l) (hbusy : l.busy = true)
    (hwork : l.c.work = w :: ws) (hws : c.work = ws) (hsettled : Settled c)
    (hmonitored : ∀ e, (c.sock e).monitoredEvents.epollrdhup = false)
    (hclosing : (.close ∈ l.c.work ∨ ∃ p ∈ l.pending, p.2.epollrdhup = true) → NoPipes c) :
    Late (finish l c status) := by
  have hsub : ∀ v ∈ ws, v ∈ l.c.work := fun v hv => by
    rw [hwork]
    exact mem_cons_of_mem _ hv
  have hstop : Late { l with c := { c with work := [], isGarbage := true }, busy := false } := by
    refine ⟨hsettled, hmonitored, (fun _ hg => nomatch hg), ⟨not_mem_nil, not_mem_nil⟩, fun _ => rfl, fun hclose => ?_⟩
    have hclose' : .close ∈ l.c.work ∨ ∃ p ∈ l.pending, p.2.epollrdhup = true :=
      hclose.imp_left fun hv => absurd hv not_mem_nil
    exact ⟨hclosing hclose', fun _ => not_mem_nil, (h.closing hclose').2.2⟩
  have hgo : Late { l with c := c } := by
    have hbusy' : l.busy ≠ false := by rw [hbusy]; decide
    refine ⟨hsettled, hmonitored, fun hb => absurd hb hbusy', ?_, fun hb => absurd hb hbusy', fun hclose => ?_⟩
    · rw [hws]
      exact ⟨fun hv => h.work.1 (hsub _ hv), fun hv => h.work.2 (hsub _ hv)⟩
    · have hclose' := hclose.imp_left fun hv => hsub _ (hws ▸ hv)
      refine ⟨hclosing hclose', fun d hd => (h.closing hclose').2.1 d (hsub _ (hws ▸ hd)), (h.closing hclose').2.2⟩
  cases status with
  | error | close | exit => exact hstop
  | ok | wouldBlock => exact hgo

theorem work_inv (h : Inv l) (hbusy : l.busy = true) (hwork : l.c.work = w :: ws)
    (hrun : runWork { l.c with work := ws } a w = some (c, status)) : Inv (finish l c status) := by
  have hcopied : (∀ e, Copied c e) → ∀ e, Copied (finish l c status).c e := by
    intro hc
    cases status <;> exact copied_of_traffic hc fun _ => rfl
  rcases h.phase with he | hl
  · obtain ⟨htraffic, hphase⟩ := work_early he hbusy hwork hrun
    exact ⟨hcopied (copied_of_traffic h.copied htraffic), hphase⟩
  · cases w with
    | connect => exact absurd (by simp [hwork]) hl.work.1
    | connectResult => exact absurd (by simp [hwork]) hl.work.2
    | close =>
      cases hrun
      obtain ⟨-, hws, hsock⟩ := clientClose_spec { l.c with work := ws }
      refine ⟨hcopied (copied_of_traffic h.copied fun e => (hsock e).1), .inr ?_⟩
      refine finish_late hl hbusy hwork hws (fun e => .inr (hsock e).2.1) (fun e => ?_) fun hclose => ?_
      · rw [(hsock e).2.2]
        exact hl.monitored e
      · exact noPipes_of_traffic (hl.closing hclose).1 fun e => (hsock e).1
    | translate d =>
      obtain ⟨hspliced, -⟩ := workTranslate_spec hrun
      have hsettled : Settled { l.c with work := ws } := hl.settled
      refine ⟨hcopied (hspliced.copied (copied_of_traffic h.copied fun _ => rfl)), .inr ?_⟩
      refine finish_late hl hbusy hwork hspliced.kept.work (hsettled.kept hspliced.kept) (fun e => ?_) fun hclose => ?_
      · rw [hspliced.kept.rdhup e]
        exact hl.monitored e
      · exact absurd (by simp [hwork]) ((hl.closing hclose).2.1 d)

end

theorem step_inv {m : Move} (h : Inv l) (hstep : step l m = some l') : Inv l' := by
  cases m with
  | wait batch =>
    rw [step] at hstep
    split at hstep
    · rename_i hcond
      cases hstep
      exact wait_inv h hcond.1 hcond.2.2.1 hcond.2.2.2
    · cases hstep
  | take =>
    rw [step] at hstep
    split at hstep
    · rename_i hbusy hpending
      cases hstep
      exact take_inv h hbusy hpending
    · cases hstep
  | work a =>
    rw [step] at hstep
    split at hstep
    · rename_i hbusy hwork
      obtain ⟨⟨c, status⟩, hrun, rfl⟩ := Option.map_eq_some_iff.mp hstep
      exact work_inv h hbusy hwork hrun
    · cases hstep
  | rearm =>
    rw [step] at hstep
    split at hstep
    · rename_i hbusy hwork
      cases hstep
      exact rearm_inv h hbusy hwork
    · cases hstep

theorem reachable_inv (h : Reachable l) : Inv l := by
  induction h with
  | start fromFamily => exact start_inv fromFamily
  | step m _ hstep ih => exact step_inv ih hstep

/-- A translation is not run towards a closed socket, or one whose peer is gone, while that socket's own bytes wait. -/
def Allowed (c : Client) (a : Answers) : Work → Prop
  | .translate d => Clean c d a.kernel
  | _ => True

/-- For every schedule: the bytes written on each side are the first of those read on the other, the counters agree,
and a client that a work closes, or that is closed because a peer hung up, has nothing to write to an open socket. -/
theorem translator_no_loss (h : Reachable l) : (∀ d, (l.c.sock d.other).written <+: (l.c.sock d).read ∧
      (l.c.sock d).bytesRead = (l.c.sock d.other).bytesWritten + (l.c.sock d).bytesInPipe ∧
      (l.c.sock d).read.length = (l.c.sock d.other).written.length + (l.c.sock d).bytesInPipe.toNat) ∧
      (∀ w ws a c, l.busy = true → l.c.work = w :: ws → runWork { l.c with work := ws } a w = some (c, .close) →
        Allowed l.c a w → Drained c) ∧
      ∀ ws, l.c.work = .close :: ws → Drained l.c := by
  have hinv := reachable_inv h
  refine ⟨fun d => ⟨?_, (hinv.copied d).sum, ?_⟩, fun w ws a c hbusy hwork hrun hok => ?_, fun ws hwork => ?_⟩
  · rw [(hinv.copied d).order]
    exact prefix_append _ _
  · have hlt : (l.c.sock d).pipe.length < 2 ^ 64 := lt_of_le_of_lt (hinv.copied d).room (by decide)
    rw [(hinv.copied d).order, (hinv.copied d).inPipe, length_append, UInt64.toNat_ofNat_of_lt' hlt]
  · cases w with
    | connect =>
      have hc := Option.some.inj hrun
      simp only [clientConnect] at hc
      split at hc <;> cases hc
    | connectResult =>
      have hc := Option.some.inj hrun
      simp only [clientConnectResult] at hc
      split at hc <;> cases hc
    | close => cases hrun
    | translate d =>
      rcases hinv.phase with he | hl
      · exact absurd (by simp [hwork]) (he.work d)
      · exact workTranslate_drained hrun hl.settled (copied_of_traffic hinv.copied fun _ => rfl) hok
  · intro e _
    rcases hinv.phase with he | hl
    · exact he.client.empty e
    · exact (hl.closing (.inl (by simp [hwork]))).1 e

namespace Sample

def writable : Events := ⟨false, true, false⟩

def readable : Events := ⟨true, false, false⟩

def answers (first : List ToSock) (input : List FromSock) (second : List ToSock) : Answers :=
  ⟨⟨first, true, input, second⟩, .connected, .connected⟩

def nothing : Answers := answers [] [] []

def run (moves : List Move) : Option Loop := moves.foldlM step (start .inet)

def event (d : Side) (events : Events) (works : List Answers) : List Move :=
  .wait [(d, events)] :: .take :: works.map .work

def connecting : List Move :=
  event .serval writable [nothing] ++ [.rearm] ++ event .serval writable [] ++ [.rearm]

def blocked : List Move :=
  connecting ++ event .inet ⟨true, true, false⟩ [answers [] [.data [1, 2, 3], .eof] [.wouldBlock]] ++ [.rearm]

def closing : List Move := blocked ++ [.wait [(.serval, readable)], .take]

def broken : List Move :=
  connecting ++ event .inet writable [] ++ [.rearm] ++
    event .serval readable [answers [] [.data [9], .wouldBlock] [.wouldBlock]] ++ [.rearm] ++
    event .inet readable [answers [] [.data [1], .wouldBlock] [.epipe]]

def waiting : List Move :=
  connecting ++ event .inet ⟨true, true, false⟩ [answers [] [.data [1, 2, 3], .wouldBlock] [.wrote 2, .wouldBlock]] ++
    [.rearm, .wait [(.serval, writable)], .take]

def last : Answers := answers [.wrote 1] [.eof] []

theorem run_reachable {moves : List Move} (h : run moves = some l) : Reachable l := by
  have hruns : ∀ (moves : List Move) (l₀ : Loop), Reachable l₀ → moves.foldlM step l₀ = some l → Reachable l := by
    intro moves
    induction moves with
    | nil =>
      intro l₀ h₀ hrun
      cases hrun
      exact h₀
    | cons m ms ih =>
      intro l₀ h₀ hrun
      obtain ⟨l₁, hstep, hrun⟩ := Option.bind_eq_some_iff.mp hrun
      exact ih l₁ (.step m h₀ hstep) hrun
  exact hruns moves _ (.start .inet) h

end Sample

open Sample in
/-- One byte of three waits in the pipe. The work that writes it reads the end of the stream, and the client is
closed. -/
theorem translator_no_loss_waiting : ∃ l c, run waiting = some l ∧ (l.c.sock .inet).pipe = [3] ∧
    (l.c.sock .serval).written <+: (l.c.sock .inet).read ∧
    (l.c.sock .inet).bytesRead = (l.c.sock .serval).bytesWritten + (l.c.sock .inet).bytesInPipe ∧
    runWork { l.c with work := [] } last (.translate .inet) = some (c, .close) ∧ Drained c := by
  obtain ⟨l, hl⟩ := Option.isSome_iff_exists.mp (show (run waiting).isSome by decide +kernel)
  have hstate : (run waiting).map (fun l => (l.busy, l.c.work, (l.c.sock .inet).pipe, (l.c.sock .serval).pipe,
      (runWork { l.c with work := [] } last (.translate .inet)).map snd)) =
      some (true, [.translate .inet], [3], [], some .close) := by decide +kernel
  simp only [hl, Option.map_some, Option.some.injEq, Prod.mk.injEq] at hstate
  obtain ⟨hbusy, hwork, hpipe, hother, hclose⟩ := hstate
  obtain ⟨⟨c, status⟩, hrun, rfl⟩ := Option.map_eq_some_iff.mp hclose
  obtain ⟨hcopied, hworks, -⟩ := translator_no_loss (run_reachable hl)
  exact ⟨l, c, hl, hpipe, (hcopied .inet).1, (hcopied .inet).2.1, hrun,
    hworks _ [] last c hbusy hwork hrun fun _ hne => absurd hother hne⟩

open Sample in
/-- The peer of the INET side has sent three bytes and closed, and the Serval side has not taken them yet. When that
side gets readable, the client is disposed of. So it is when the Serval side breaks while a byte waits for the INET
side. -/
theorem bytes_lost_on_close :
    (run closing).map (fun l => (l.c.work, (l.c.sock .serval).state)) = some ([.translate .serval], .connected) ∧
      ((run (closing ++ [.work nothing])).map fun l =>
        (l.c.isGarbage, (l.c.sock .serval).state, (l.c.sock .inet).pipe)) = some (true, .connected, [1, 2, 3]) ∧
      ((run closing).bind fun l => (runWork { l.c with work := [] } nothing (.translate .serval)).map snd) =
        some .close ∧
      (run broken).map (fun l => (l.c.isGarbage, (l.c.sock .inet).state, (l.c.sock .serval).pipe)) =
        some (true, .connected, [9]) := by
  decide +kernel

end TranslatorWorker
