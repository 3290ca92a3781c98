import Mathlib.Data.UInt

/-! # Copying between the two sockets of a translator client

Each socket has a pipe for the bytes read from it. The answers of the kernel are arguments; `none` is an answer that it
does not give, or too few answers.
-/
namespace TranslatorCopy

open List Function UInt64 Option

inductive Side where
  | inet | serval
  deriving DecidableEq

def Side.other : Side → Side
  | .inet => .serval
  | .serval => .inet

inductive SocketState where
  | init | connecting | connected | closed
  deriving DecidableEq

inductive WorkStatus where
  | ok | close | exit | wouldBlock | error
  deriving DecidableEq

structure Events where
  epollin : Bool
  epollout : Bool
  epollrdhup : Bool
  deriving DecidableEq

/-- The counters of a socket, what is in its pipe, and all bytes that were read from it and written to it. -/
structure Traffic where
  bytesInPipe : UInt64
  bytesWritten : UInt64
  bytesRead : UInt64
  pipe : List UInt8
  read : List UInt8
  written : List UInt8
  deriving DecidableEq

structure Socket extends Traffic where
  state : SocketState
  monitoredEvents : Events
  activeEvents : Events
  deriving DecidableEq

/-- `translate d` is `work_inet_to_serval` or `work_serval_to_inet`, by the side the bytes come from. -/
inductive Work where
  | connect | connectResult | translate (d : Side) | close
  deriving DecidableEq

structure Client where
  fromFamily : Side
  sock : Side → Socket
  work : List Work
  isGarbage : Bool

def Client.modify (c : Client) (d : Side) (f : Socket → Socket) : Client :=
  { c with sock := Function.update c.sock d (f (c.sock d)) }

def socketClose (c : Client) (d : Side) : Client := c.modify d fun s => { s with state := .closed }

def Client.monitorIn (c : Client) (d : Side) (b : Bool) : Client :=
  c.modify d fun s => { s with monitoredEvents := { s.monitoredEvents with epollin := b } }

def Client.monitorOut (c : Client) (d : Side) (b : Bool) : Client :=
  c.modify d fun s => { s with monitoredEvents := { s.monitoredEvents with epollout := b } }

def pipeSize : ℕ := 65536

def readlen : ℕ := 4096

inductive FromSock where
  | data (bytes : List UInt8)
  | eof | wouldBlock | reset | error
  deriving DecidableEq

inductive ToSock where
  | wrote (n : ℕ)
  | zero | wouldBlock | epipe | error
  deriving DecidableEq

def fill (c : Client) (d : Side) (bytes : List UInt8) : Client :=
  c.modify d fun s => { s with
    bytesInPipe := s.bytesInPipe + .ofNat bytes.length
    bytesRead := s.bytesRead + .ofNat bytes.length
    pipe := s.pipe ++ bytes
    read := s.read ++ bytes }

def drain (c : Client) (d : Side) (n : ℕ) : Client :=
  (c.modify d.other fun s => { s with
    bytesWritten := s.bytesWritten + .ofNat n
    written := s.written ++ (c.sock d).pipe.take n }).modify d fun s => { s with
      bytesInPipe := s.bytesInPipe - .ofNat n
      pipe := s.pipe.drop n }

def sockToPipeLoop (d : Side) : List FromSock → Client → Option (Client × WorkStatus)
  | [], _ => none
  | .data bytes :: ks, c =>
    if bytes ≠ [] ∧ bytes.length ≤ readlen ∧ (c.sock d).pipe.length + bytes.length ≤ pipeSize then
      sockToPipeLoop d ks (fill c d bytes)
    else none
  | .eof :: _, c => some (socketClose c d, .close)
  | .wouldBlock :: _, c => some (c, if 0 < (c.sock d).bytesInPipe then .ok else .wouldBlock)
  | .reset :: _, c => some (socketClose c d, .close)
  | .error :: _, c => some (c, .error)

def sockToPipe (c : Client) (d : Side) (readable : Bool) (ks : List FromSock) : Option (Client × WorkStatus) :=
  if (c.sock d).state ≠ .connected ∨
      ((c.sock d.other).state ≠ .connected ∧ (c.sock d.other).state ≠ .connecting) then some (c, .close)
  else if readable then sockToPipeLoop d ks c
  else some (c, .wouldBlock)

def pipeToSockLoop (d : Side) : List ToSock → Client → Option (Client × WorkStatus)
  | [], c => if 0 < (c.sock d).bytesInPipe then none else some (c, .ok)
  | k :: ks, c =>
    if 0 < (c.sock d).bytesInPipe then
      match k with
      | .wrote n => if 0 < n ∧ n ≤ (c.sock d).pipe.length then pipeToSockLoop d ks (drain c d n) else none
      | .zero => some (c, .error)
      | .wouldBlock => some (c, .wouldBlock)
      | .epipe => some (socketClose c d.other, .close)
      | .error => some (c, .error)
    else some (c, .ok)

def pipeToSock (c : Client) (d : Side) (ks : List ToSock) : Option (Client × WorkStatus) :=
  if (c.sock d.other).state = .connecting then some (c, .wouldBlock)
  else if (c.sock d.other).state ≠ .connected then some (c, .close)
  else pipeToSockLoop d ks c

structure Kernel where
  first : List ToSock
  readable : Bool
  input : List FromSock
  second : List ToSock

def waitWritable (c : Client) (d : Side) : Client := (c.monitorIn d false).monitorOut d.other true

def out (c : Client) (d : Side) : Client := (c.monitorOut d.other false).monitorIn d true

/-- A close is returned also if there are bytes to write in the other direction. -/
def flush (c : Client) (d : Side) (ks : List ToSock) : Option (Client × WorkStatus) := do
  let (c, status) ← pipeToSock c d ks
  match status with
  | .wouldBlock => if 0 < (c.sock d).bytesInPipe then some (waitWritable c d, status) else some (out c d, status)
  | .close => if (c.sock d.other).bytesInPipe = 0 then some (c, status) else some (out c d, status)
  | _ => some (out c d, status)

/-- `work_translate` after the bytes left from the last time. -/
def readAndFlush (c : Client) (d : Side) (k : Kernel) : Option (Client × WorkStatus) := do
  let (c, status) ← sockToPipe c d k.readable k.input
  match status with
  | .wouldBlock => if 0 < (c.sock d).bytesInPipe then flush c d k.second else some (out c d, status)
  | .ok => flush c d k.second
  | .close => if 0 < (c.sock d).bytesInPipe then flush c d k.second else some (c, status)
  | _ => some (c, status)

def workTranslate (c : Client) (d : Side) (k : Kernel) : Option (Client × WorkStatus) :=
  if 0 < (c.sock d).bytesInPipe then do
    let (c, status) ← pipeToSock c d k.first
    match status with
    | .wouldBlock => some (waitWritable c d, status)
    | .ok => readAndFlush c d k
    | _ => some (c, status)
  else readAndFlush c d k

/-! ## Nothing is lost or reordered -/

variable {c c' c'' : Client} {d e : Side} {status : WorkStatus}

section

variable (c d) (f : Socket → Socket)

@[simp] theorem Side.other_other : d.other.other = d := by cases d <;> rfl

@[simp] theorem Side.other_ne : d.other ≠ d := by cases d <;> decide

@[simp] theorem Side.ne_other : d ≠ d.other := by cases d <;> decide

theorem Side.eq_or (e : Side) : e = d ∨ e = d.other := by cases d <;> cases e <;> decide

@[simp] theorem modify_self : (c.modify d f).sock d = f (c.sock d) :=
  update_self ..

@[simp] theorem modify_other : (c.modify d f).sock d.other = c.sock d.other :=
  update_of_ne (Side.other_ne d) ..

@[simp] theorem modify_other_self : (c.modify d.other f).sock d = c.sock d :=
  update_of_ne (Side.ne_other d) ..

end

/-- The bytes written to the other side are the first of those read from side `d`, the rest is in the pipe, and the
counters say so. -/
structure Copied (c : Client) (d : Side) : Prop where
  order : (c.sock d).read = (c.sock d.other).written ++ (c.sock d).pipe
  inPipe : (c.sock d).bytesInPipe = .ofNat (c.sock d).pipe.length
  room : (c.sock d).pipe.length ≤ pipeSize
  read : (c.sock d).bytesRead = .ofNat (c.sock d).read.length
  written : (c.sock d.other).bytesWritten = .ofNat (c.sock d.other).written.length

theorem Copied.congr (h : Copied c d) (hd : (c'.sock d).toTraffic = (c.sock d).toTraffic)
    (hother : (c'.sock d.other).toTraffic = (c.sock d.other).toTraffic) : Copied c' d := by
  obtain ⟨horder, hin, hroom, hread, hwritten⟩ := h
  constructor
  · rw [hd, hother]; exact horder
  · rw [hd]; exact hin
  · rw [hd]; exact hroom
  · rw [hd]; exact hread
  · rw [hother]; exact hwritten

theorem Copied.pos_iff (h : Copied c d) : 0 < (c.sock d).bytesInPipe ↔ (c.sock d).pipe ≠ [] := by
  have hlt : (c.sock d).pipe.length < 2 ^ 64 := lt_of_le_of_lt h.room (by decide)
  rw [h.inPipe, lt_iff_toNat_lt, toNat_ofNat_of_lt' hlt, ← length_pos_iff]
  rfl

theorem Copied.sum (h : Copied c d) :
    (c.sock d).bytesRead = (c.sock d.other).bytesWritten + (c.sock d).bytesInPipe := by
  rw [h.read, h.written, h.inPipe, h.order, length_append, ofNat_add]

theorem modify_copied (h : ∀ e, Copied c e) {f : Socket → Socket} (hf : ∀ s, (f s).toTraffic = s.toTraffic) (e : Side) :
    Copied (c.modify d f) e := by
  have htraffic : ∀ e, ((c.modify d f).sock e).toTraffic = (c.sock e).toTraffic := by
    intro e
    rcases d.eq_or e with rfl | rfl
    · rw [modify_self, hf]
    · rw [modify_other]
  exact (h e).congr (htraffic e) (htraffic e.other)

theorem fill_copied (h : ∀ e, Copied c e) {bytes : List UInt8}
    (hroom : (c.sock d).pipe.length + bytes.length ≤ pipeSize) (e : Side) : Copied (fill c d bytes) e := by
  rcases d.eq_or e with rfl | rfl
  · obtain ⟨horder, hin, -, hread, hwritten⟩ := h e
    constructor <;> simp only [fill, modify_self, modify_other]
    · rw [horder, append_assoc]
    · rw [hin, length_append, ofNat_add]
    · rw [length_append]
      exact hroom
    · rw [hread, length_append, ofNat_add]
    · exact hwritten
  · obtain ⟨horder, hin, hroom, hread, hwritten⟩ := h d.other
    rw [Side.other_other] at horder hwritten
    constructor <;> simp only [fill, modify_self, modify_other, Side.other_other]
    · exact horder
    · exact hin
    · exact hroom
    · exact hread
    · exact hwritten

theorem drain_copied (h : ∀ e, Copied c e) {n : ℕ} (hn : n ≤ (c.sock d).pipe.length) (e : Side) :
    Copied (drain c d n) e := by
  rcases d.eq_or e with rfl | rfl
  · obtain ⟨horder, hin, hroom, hread, hwritten⟩ := h e
    constructor <;> simp only [drain, modify_self, modify_other, modify_other_self]
    · rw [horder, append_assoc, take_append_drop]
    · have hsplit : (c.sock e).pipe.length = ((c.sock e).pipe.length - n) + n := by omega
      rw [hin, length_drop, hsplit, UInt64.ofNat_add, UInt64.add_sub_cancel, ← hsplit]
    · rw [length_drop]
      omega
    · exact hread
    · rw [hwritten, length_append, length_take, Nat.min_eq_left hn, ofNat_add]
  · obtain ⟨horder, hin, hroom, hread, hwritten⟩ := h d.other
    rw [Side.other_other] at horder hwritten
    constructor <;> simp only [drain, modify_self, modify_other, modify_other_self, Side.other_other]
    · exact horder
    · exact hin
    · exact hroom
    · exact hread
    · exact hwritten

structure Kept (c c' : Client) : Prop where
  fromFamily : c'.fromFamily = c.fromFamily
  work : c'.work = c.work
  isGarbage : c'.isGarbage = c.isGarbage
  state : ∀ e, (c'.sock e).state = (c.sock e).state ∨ (c'.sock e).state = .closed
  rdhup : ∀ e, (c'.sock e).monitoredEvents.epollrdhup = (c.sock e).monitoredEvents.epollrdhup

theorem Kept.refl (c : Client) : Kept c c := ⟨rfl, rfl, rfl, fun _ => .inl rfl, fun _ => rfl⟩

theorem Kept.trans (h : Kept c c') (h' : Kept c' c'') : Kept c c'' := by
  refine ⟨h'.fromFamily.trans h.fromFamily, h'.work.trans h.work, h'.isGarbage.trans h.isGarbage, fun e => ?_,
    fun e => (h'.rdhup e).trans (h.rdhup e)⟩
  rcases h'.state e with he | he
  · rw [he]
    exact h.state e
  · exact .inr he

theorem Kept.modify (c : Client) (d : Side) {f : Socket → Socket} (hstate : ∀ s, (f s).state = s.state ∨
    (f s).state = .closed)
    (hrdhup : ∀ s, (f s).monitoredEvents.epollrdhup = s.monitoredEvents.epollrdhup) : Kept c (c.modify d f) := by
  refine ⟨rfl, rfl, rfl, fun e => ?_, fun e => ?_⟩
  · rcases d.eq_or e with rfl | rfl
    · rw [modify_self]
      exact hstate _
    · rw [modify_other]
      exact .inl rfl
  · rcases d.eq_or e with rfl | rfl
    · rw [modify_self]
      exact hrdhup _
    · rw [modify_other]

theorem Kept.closed (h : Kept c c') (hd : (c.sock d).state = .closed) : (c'.sock d).state = .closed := by
  rcases h.state d with he | he
  · exact he.trans hd
  · exact he

structure Spliced (c : Client) (d : Side) (c' : Client) : Prop where
  copied : (∀ e, Copied c e) → ∀ e, Copied c' e
  kept : Kept c c'
  reverse : (c'.sock d.other).pipe = (c.sock d.other).pipe

theorem Spliced.refl (c : Client) (d : Side) : Spliced c d c := ⟨id, .refl c, rfl⟩

theorem Spliced.trans (h : Spliced c d c') (h' : Spliced c' d c'') : Spliced c d c'' :=
  ⟨fun hc => h'.copied (h.copied hc), h.kept.trans h'.kept, h'.reverse.trans h.reverse⟩

section

variable (c d e) (b : Bool)

theorem Spliced.modify {f : Socket → Socket} (htraffic : ∀ s, (f s).toTraffic = s.toTraffic)
    (hstate : ∀ s, (f s).state = s.state ∨ (f s).state = .closed)
    (hrdhup : ∀ s, (f s).monitoredEvents.epollrdhup = s.monitoredEvents.epollrdhup) : Spliced c d (c.modify e f) := by
  refine ⟨fun hc => modify_copied hc htraffic, .modify c e hstate hrdhup, ?_⟩
  rcases d.eq_or e with rfl | rfl
  · rw [modify_other]
  · rw [modify_self, htraffic]

theorem socketClose_spliced : Spliced c d (socketClose c e) :=
  .modify c d e (fun _ => rfl) (fun _ => .inr rfl) (fun _ => rfl)

theorem monitorIn_spliced : Spliced c d (c.monitorIn e b) :=
  .modify c d e (fun _ => rfl) (fun _ => .inl rfl) (fun _ => rfl)

theorem monitorOut_spliced : Spliced c d (c.monitorOut e b) :=
  .modify c d e (fun _ => rfl) (fun _ => .inl rfl) (fun _ => rfl)

end

/-- What is left to do after a write is to choose the events to wait for. -/
def Masked (c : Client) (d : Side) (c' : Client) : Prop := c' = c ∨ c' = out c d ∨ c' = waitWritable c d

theorem Masked.spliced (h : Masked c d c') : Spliced c d c' := by
  rcases h with rfl | rfl | rfl
  · exact .refl _ d
  · exact (monitorOut_spliced c d d.other false).trans (monitorIn_spliced _ d d true)
  · exact (monitorIn_spliced c d d false).trans (monitorOut_spliced _ d d.other true)

theorem Masked.sock (h : Masked c d c') (e : Side) :
    (c'.sock e).toTraffic = (c.sock e).toTraffic ∧ (c'.sock e).state = (c.sock e).state := by
  rcases h with rfl | rfl | rfl
  · exact ⟨rfl, rfl⟩
  all_goals rcases d.eq_or e with rfl | rfl <;> simp [out, waitWritable, Client.monitorIn, Client.monitorOut]

/-! ## The calls -/

theorem fill_spliced (c : Client) (d : Side) {bytes : List UInt8}
    (hroom : (c.sock d).pipe.length + bytes.length ≤ pipeSize) : Spliced c d (fill c d bytes) :=
  ⟨fun hc => fill_copied hc hroom, .modify c d (fun _ => .inl rfl) (fun _ => rfl), by rw [fill, modify_other]⟩

theorem drain_spliced (c : Client) (d : Side) {n : ℕ} (hn : n ≤ (c.sock d).pipe.length) :
    Spliced c d (drain c d n) := by
  refine ⟨fun hc => drain_copied hc hn, ?_, by simp [drain]⟩
  refine Kept.trans ?_ (.modify _ d (fun _ => .inl rfl) (fun _ => rfl))
  exact .modify c d.other (fun _ => .inl rfl) (fun _ => rfl)

theorem drain_state (c : Client) (d e : Side) (n : ℕ) : ((drain c d n).sock e).state = (c.sock e).state := by
  rcases d.eq_or e with rfl | rfl <;> simp [drain]

variable {ks : List FromSock} {k : Kernel}

def ends : List FromSock → Bool
  | .data _ :: ks => ends ks
  | .eof :: _ | .reset :: _ => true
  | _ => false

def endsAfterData : List FromSock → Bool
  | .data _ :: ks => ends ks
  | _ => false

theorem sockToPipeLoop_spec (h : sockToPipeLoop d ks c = some (c', status)) :
    Spliced c d c' ∧ c'.sock d.other = c.sock d.other ∧
      ((ends ks = true ∧ status = .close ∧ (c'.sock d).state = .closed) ∨
        (status ≠ .close ∧ (c'.sock d).state = (c.sock d).state)) := by
  induction ks generalizing c with
  | nil => cases h
  | cons k ks ih =>
    cases k with
    | data bytes =>
      rw [sockToPipeLoop] at h
      split at h
      next hk =>
        obtain ⟨hspliced, hother, hend⟩ := ih h
        rw [fill, modify_self] at hend
        refine ⟨(fill_spliced c d hk.2.2).trans hspliced, ?_, hend⟩
        rw [hother, fill, modify_other]
      · cases h
    | eof | reset =>
      cases h
      refine ⟨socketClose_spliced c d d, ?_, .inl ⟨rfl, rfl, ?_⟩⟩
      · rw [socketClose, modify_other]
      · rw [socketClose, modify_self]
    | wouldBlock =>
      cases h
      refine ⟨.refl _ d, rfl, .inr ⟨?_, rfl⟩⟩
      split <;> exact nofun
    | error =>
      cases h
      exact ⟨.refl _ d, rfl, .inr ⟨nofun, rfl⟩⟩

def Settled (c : Client) : Prop := ∀ e, (c.sock e).state = .connected ∨ (c.sock e).state = .closed

theorem Settled.kept (h : Settled c) (hk : Kept c c') : Settled c' := by
  intro e
  rcases hk.state e with he | he
  · rw [he]
    exact h e
  · exact .inr he

theorem Settled.closed (h : Settled c) (hd : (c.sock d).state ≠ .connected) : (c.sock d).state = .closed :=
  (h d).resolve_left hd

/-- A socket that is closed after the call was closed before, or by the first answer, or after data. -/
theorem sockToPipe_spec {readable : Bool} (h : sockToPipe c d readable ks = some (c', status)) :
    Spliced c d c' ∧ c'.sock d.other = c.sock d.other ∧
      (Settled c → status = .close → (c'.sock d).state = .closed ∨ (c.sock d.other).state = .closed) ∧
      ((c'.sock d).state = .closed →
        status = .close ∧ (endsAfterData ks = true ∨ (c'.sock d).bytesInPipe = (c.sock d).bytesInPipe)) := by
  rw [sockToPipe] at h
  split at h
  next hstate =>
    cases h
    refine ⟨.refl _ d, rfl, fun hs _ => ?_, fun _ => ⟨rfl, .inr rfl⟩⟩
    exact hstate.imp hs.closed fun hother => hs.closed hother.1
  next hstate =>
    split at h
    · obtain ⟨hspliced, hother, ⟨hends, hst, hclosed⟩ | ⟨hst, hsame⟩⟩ := sockToPipeLoop_spec h
      · refine ⟨hspliced, hother, fun _ _ => .inl hclosed, fun _ => ⟨hst, ?_⟩⟩
        cases ks with
        | nil => cases h
        | cons k ks =>
          cases k with
          | data bytes => exact .inl hends
          | eof | reset =>
            cases h
            exact .inr (by rw [socketClose, modify_self])
          | wouldBlock | error => cases hends
      · refine ⟨hspliced, hother, fun _ hclose => absurd hclose hst, fun hclosed => ?_⟩
        rw [hsame] at hclosed
        simp [hclosed] at hstate
    · cases h
      refine ⟨.refl _ d, rfl, fun _ => nofun, fun hclosed => ?_⟩
      simp [hclosed] at hstate

/-- What is in the pipe after a write that succeeded, or that would block. -/
def Left (c : Client) (d : Side) (status : WorkStatus) : Prop :=
  (status = .ok → ¬ 0 < (c.sock d).bytesInPipe) ∧ (status = .wouldBlock → 0 < (c.sock d).bytesInPipe)

/-- The other socket is closed by the call only if its peer is gone. -/
theorem pipeToSockLoop_spec {ks : List ToSock} (h : pipeToSockLoop d ks c = some (c', status)) :
    Spliced c d c' ∧ (status = .close → (c'.sock d.other).state = .closed ∧ .epipe ∈ ks) ∧
      (status ≠ .close → ∀ e, (c'.sock e).state = (c.sock e).state) ∧ Left c' d status := by
  induction ks generalizing c with
  | nil =>
    rw [pipeToSockLoop] at h
    split at h
    · cases h
    next hempty =>
      cases h
      exact ⟨.refl _ d, nofun, fun _ _ => rfl, fun _ => hempty, nofun⟩
  | cons k ks ih =>
    rw [pipeToSockLoop.eq_def] at h
    dsimp only at h
    split at h
    next hfilled =>
      cases k with
      | wrote n =>
        dsimp only at h
        split at h
        next hn =>
          obtain ⟨hspliced, hclose, hstate, hleft⟩ := ih h
          refine ⟨(drain_spliced c d hn.2).trans hspliced, fun hst => ?_, fun hst e => ?_, hleft⟩
          · exact ⟨(hclose hst).1, mem_cons_of_mem _ (hclose hst).2⟩
          · rw [hstate hst e, drain_state]
        · cases h
      | epipe =>
        cases h
        refine ⟨socketClose_spliced c d d.other, fun _ => ⟨?_, mem_cons_self⟩, fun hne => absurd rfl hne, nofun, nofun⟩
        rw [socketClose, modify_self]
      | zero | wouldBlock | error =>
        cases h
        exact ⟨.refl _ d, nofun, fun _ _ => rfl, nofun, fun _ => hfilled⟩
    next hempty =>
      cases h
      exact ⟨.refl _ d, nofun, fun _ _ => rfl, fun _ => hempty, nofun⟩

theorem pipeToSock_spec {ks : List ToSock} (h : pipeToSock c d ks = some (c', status)) :
    Spliced c d c' ∧ (Settled c → status = .close →
        (c'.sock d.other).state = .closed ∧ ((c.sock d.other).state = .closed ∨ .epipe ∈ ks)) ∧
      (status ≠ .close → ∀ e, (c'.sock e).state = (c.sock e).state) ∧ (Settled c → Left c' d status) := by
  rw [pipeToSock] at h
  split at h
  next hconnecting =>
    cases h
    refine ⟨.refl _ d, fun _ => nofun, fun _ _ => rfl, fun hs => ?_⟩
    have hother := hs d.other
    simp [hconnecting] at hother
  · split at h
    next hstate =>
      cases h
      refine ⟨.refl _ d, fun hs _ => ⟨hs.closed hstate, .inl (hs.closed hstate)⟩, fun _ _ => rfl, fun _ =>
        ⟨nofun, nofun⟩⟩
    · obtain ⟨hspliced, hclose, hstate, hleft⟩ := pipeToSockLoop_spec h
      exact ⟨hspliced, fun _ hst => ⟨(hclose hst).1, .inr (hclose hst).2⟩, hstate, fun _ => hleft⟩

/-! ## The work -/

theorem flush_cases {ks : List ToSock} (h : flush c d ks = some (c'', status)) :
    ∃ c', pipeToSock c d ks = some (c', status) ∧ Masked c' d c'' := by
  obtain ⟨⟨c', st⟩, hrun, h⟩ := bind_eq_some_iff.mp h
  refine ⟨c', ?_⟩
  cases st with
  | wouldBlock | close =>
    dsimp only at h
    split at h <;> cases h <;> simp [hrun, Masked]
  | ok | exit | error =>
    cases h
    simp [hrun, Masked]

theorem flush_spec {ks : List ToSock} (h : flush c d ks = some (c', status)) :
    Spliced c d c' ∧ (Settled c → status = .close →
      (c'.sock d.other).state = .closed ∧ ((c.sock d.other).state = .closed ∨ .epipe ∈ ks)) := by
  obtain ⟨c₁, hrun, hmasked⟩ := flush_cases h
  obtain ⟨hspliced, hclose, -⟩ := pipeToSock_spec hrun
  refine ⟨hspliced.trans hmasked.spliced, fun hs hst => ⟨?_, (hclose hs hst).2⟩⟩
  exact hmasked.spliced.kept.closed (hclose hs hst).1

/-- A close is flushed if there is something in the pipe. -/
theorem readAndFlush_cases (h : readAndFlush c d k = some (c'', status)) :
    ∃ c' st, sockToPipe c d k.readable k.input = some (c', st) ∧
      ((flush c' d k.second = some (c'', status) ∧ (st = .close → 0 < (c'.sock d).bytesInPipe)) ∨
        (st = status ∧ Masked c' d c'' ∧ (status = .close → ¬ 0 < (c'.sock d).bytesInPipe))) := by
  obtain ⟨⟨c', st⟩, hrun, h⟩ := bind_eq_some_iff.mp h
  refine ⟨c', st, hrun, ?_⟩
  cases st with
  | wouldBlock =>
    dsimp only at h
    split at h
    · exact .inl ⟨h, nofun⟩
    · cases h
      exact .inr ⟨rfl, .inr (.inl rfl), nofun⟩
  | ok => exact .inl ⟨h, nofun⟩
  | close =>
    dsimp only at h
    split at h
    next hfilled => exact .inl ⟨h, fun _ => hfilled⟩
    next hempty =>
      cases h
      exact .inr ⟨rfl, .inl rfl, fun _ => hempty⟩
  | exit | error =>
    cases h
    exact .inr ⟨rfl, .inl rfl, nofun⟩

/-- Why a work closes: the destination is or was found closed, or the source ended and its pipe is empty. -/
def Ended (c : Client) (d : Side) (ks : List ToSock) (c' : Client) : Prop :=
  ((c'.sock d.other).state = .closed ∧ ((c.sock d.other).state = .closed ∨ .epipe ∈ ks)) ∨
    ((c'.sock d).state = .closed ∧ (c'.sock d).pipe = [])

theorem readAndFlush_spec (h : readAndFlush c d k = some (c', status)) :
    Spliced c d c' ∧ (Settled c → (∀ e, Copied c e) → status = .close → Ended c d k.second c') := by
  obtain ⟨c₁, st, hread, hrest⟩ := readAndFlush_cases h
  obtain ⟨hspliced, hother, hclose, -⟩ := sockToPipe_spec hread
  rcases hrest with ⟨hflush, -⟩ | ⟨rfl, hmasked, hempty⟩
  · obtain ⟨hspliced', hclose'⟩ := flush_spec hflush
    refine ⟨hspliced.trans hspliced', fun hs _ hst => .inl ?_⟩
    -- reading does not close the socket that is written to
    rw [← hother]
    exact hclose' (hs.kept hspliced.kept) hst
  · have hmasks := hmasked.spliced
    refine ⟨hspliced.trans hmasks, fun hs hc hst => ?_⟩
    rcases hclose hs hst with hsource | hdest
    · refine .inr ⟨hmasks.kept.closed hsource, ?_⟩
      rw [(hmasked.sock d).1]
      by_contra hne
      exact hempty hst ((hspliced.copied hc d).pos_iff.mpr hne)
    · exact .inl ⟨(hspliced.trans hmasks).kept.closed hdest, .inl hdest⟩

theorem workTranslate_cases (h : workTranslate c d k = some (c'', status)) :
    (¬ 0 < (c.sock d).bytesInPipe ∧ readAndFlush c d k = some (c'', status)) ∨
      ∃ c' st, pipeToSock c d k.first = some (c', st) ∧ ((st = .ok ∧ readAndFlush c' d k = some (c'', status)) ∨
          (st = status ∧ st ≠ .ok ∧ Masked c' d c'')) := by
  rw [workTranslate] at h
  split at h
  · obtain ⟨⟨c', st⟩, hrun, h⟩ := bind_eq_some_iff.mp h
    refine .inr ⟨c', st, hrun, ?_⟩
    cases st with
    | ok => exact .inl ⟨rfl, h⟩
    | wouldBlock | close | exit | error =>
      cases h
      simp [Masked]
  next hempty => exact .inl ⟨hempty, h⟩

theorem workTranslate_spec (h : workTranslate c d k = some (c', status)) :
    Spliced c d c' ∧ (Settled c → (∀ e, Copied c e) → status = .close → Ended c d (k.first ++ k.second) c') := by
  have hmono : ∀ {c₁ : Client} {ks : List ToSock}, (c₁.sock d.other).state = (c.sock d.other).state →
      ks ⊆ k.first ++ k.second → Ended c₁ d ks c' → Ended c d (k.first ++ k.second) c' := by
    rintro c₁ ks hstate hsub (⟨hclosed, hcause⟩ | hsource)
    · rw [hstate] at hcause
      exact .inl ⟨hclosed, hcause.imp_right fun hmem => hsub hmem⟩
    · exact .inr hsource
  rcases workTranslate_cases h with ⟨-, hread⟩ | ⟨c₁, st, hrun, hrest⟩
  · obtain ⟨hspliced, hended⟩ := readAndFlush_spec hread
    exact ⟨hspliced, fun hs hc hst => hmono rfl (subset_append_right _ _) (hended hs hc hst)⟩
  · obtain ⟨hspliced, hclose, hstate, -⟩ := pipeToSock_spec hrun
    rcases hrest with ⟨rfl, hread⟩ | ⟨rfl, -, hmasked⟩
    · obtain ⟨hspliced', hended⟩ := readAndFlush_spec hread
      refine ⟨hspliced.trans hspliced', fun hs hc hst => ?_⟩
      exact hmono (hstate (by decide) d.other) (subset_append_right _ _)
        (hended (hs.kept hspliced.kept) (hspliced.copied hc) hst)
    · have hmasks := hmasked.spliced
      refine ⟨hspliced.trans hmasks, fun hs _ hst => .inl ?_⟩
      obtain ⟨hclosed, hcause⟩ := hclose hs hst
      exact ⟨hmasks.kept.closed hclosed, hcause.imp_right fun hmem => mem_append_left _ hmem⟩

def Drained (c : Client) : Prop := ∀ e, (c.sock e.other).state ≠ .closed → (c.sock e).pipe = []

/-- While bytes wait for the open socket `d`, the other socket is not closed and does not turn out to be. -/
def Clean (c : Client) (d : Side) (k : Kernel) : Prop :=
  (c.sock d).state ≠ .closed → (c.sock d.other).pipe ≠ [] →
    (c.sock d.other).state ≠ .closed ∧ .epipe ∉ k.first ++ k.second

theorem workTranslate_drained (h : workTranslate c d k = some (c', .close)) (hs : Settled c)
    (hc : ∀ e, Copied c e) (hclean : Clean c d k) : Drained c' := by
  obtain ⟨hspliced, hended⟩ := workTranslate_spec h
  intro e hopen
  rcases hended hs hc rfl with ⟨hclosed, hcause⟩ | ⟨hclosed, hempty⟩
  · rcases d.eq_or e with rfl | rfl
    · exact absurd hclosed hopen
    · rw [Side.other_other] at hopen
      by_contra hne
      rw [hspliced.reverse] at hne
      obtain ⟨hother, hepipe⟩ := hclean (fun hd => hopen (hspliced.kept.closed hd)) hne
      exact hcause.elim hother hepipe
  · rcases d.eq_or e with rfl | rfl
    · exact hempty
    · rw [Side.other_other] at hopen
      exact absurd hclosed hopen

end TranslatorCopy
