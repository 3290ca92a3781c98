import Serval.ClientMessage

/-! # Blocking calls over one stream

A call of libserval writes its request and reads its response from the stream that it shares with the stack's
`HAVE_DATA` notifications. The stack answers the requests in order and has at most one notification outstanding.
-/
namespace ClientCalls

open ByteLayout ClientMessage List Option UInt16 MsgType

/-- The exchanges of the calls; `accept` makes a second one, over the stream of the new socket. -/
inductive Call where
  | bind | connect | listen | accept | accept2 | send | sendto
  | recv (len : ℕ)
  | close
  deriving DecidableEq

namespace Call

def rspType : Call → MsgType
  | .bind => .bindRsp
  | .connect => .connectRsp
  | .listen => .listenRsp
  | .accept => .acceptRsp
  | .accept2 => .accept2Rsp
  | .send | .sendto => .sendRsp
  | .recv _ => .recvRsp
  | .close => .closeRsp

def fieldsLen : Call → ℕ
  | .bind | .connect => 32
  | .accept => 32 + 32 + 4
  | .recv _ => 32 + 4 + 2 + 4
  | .listen | .accept2 | .send | .sendto | .close => 0

def serialPldLen (c : Call) : ℕ := c.fieldsLen + 1

def direct : Call → Bool
  | .bind | .connect | .listen | .accept | .accept2 => true
  | .send | .sendto | .recv _ | .close => false

end Call

/-! ## The calls -/

inductive ToStack where
  | request (c : Call)
  | clearData
  deriving DecidableEq

structure Result where
  ok : Bool
  pld : List UInt8
  deriving DecidableEq

/-- `DATA_ERROR` and `DATA_CLOSED` need a stream that is broken or closed. -/
inductive DataVal where
  | wouldBlock | notEnough | ready
  deriving DecidableEq

def hasUnreadData (atleast : ℕ) (stream : List UInt8) : DataVal :=
  if stream = [] then .wouldBlock
  else if atleast ≤ min atleast stream.length then .notEnough
  else .ready

/-- What a call still does: `readn` blocks until the stream has the bytes. -/
inductive Prog where
  | done (r : Result)
  | peek (atleast : ℕ) (k : DataVal → Prog)
  | readn (n : ℕ) (k : List UInt8 → Prog)
  | write (m : ToStack) (p : Prog)

namespace Prog

def fail : Prog := .done ⟨false, []⟩

def readHdr (k : Hdr → Prog) : Prog := .readn CLIENT_MSG_HDR_LEN fun buf => k (Hdr.ofBytes buf)

/-- `Message::check_hdr`: a wrong type is logged, and `check_len` is never negative. -/
def checkHdr (h : Hdr) : Bool := h.version == CLIENT_MSG_VERSION

/-- `Message::read_from_stream_soc` of a class with `n` bytes of payload. -/
def readFromStreamSoc (n : ℕ) (error : Prog) (k : List UInt8 → Prog) : Prog :=
  readHdr fun h => if checkHdr h then .readn n k else error

def report (pos : ℕ) (pld : List UInt8) : Prog := .done ⟨pld.getD pos 0 == 0, pld⟩

def readDirect (c : Call) : Prog := readFromStreamSoc c.serialPldLen fail (report c.fieldsLen)

def sendPld (gotHavedata : Bool) : Prog :=
  .readn 1 fun pld =>
    if pld.getD 0 0 == 0 then
      if gotHavedata then .write .clearData (.done ⟨true, pld⟩) else .done ⟨true, pld⟩
    else .done ⟨false, pld⟩

/-- The version of the second header is not looked at. -/
def sendSecond : Prog :=
  readHdr fun h => if h.type == sendRsp.toByte then sendPld true else fail

def readSend : Prog :=
  readHdr fun h =>
    if !checkHdr h then fail
    else if h.type == haveData.toByte then sendSecond
    else if h.type == sendRsp.toByte then sendPld false
    -- a message of another type is logged, and the call goes on to its end
    else .done ⟨true, []⟩

def recvPld (len : ℕ) (h : Hdr) : Prog :=
  if h.payloadLength == 0 then .done ⟨true, []⟩
  else if len < (h.payloadLength - 43).toNat then fail
  else .readn 43 fun pld =>
    if leNat ((pld.drop 36).take 2) == 0 then report 42 pld
    else .readn (leNat ((pld.drop 36).take 2)) fun data => report 42 (pld ++ data)

def recvClear (len : ℕ) (gotHavedata : Bool) (h : Hdr) : Prog :=
  if gotHavedata then .write .clearData (recvPld len h) else recvPld len h

def recvSecond (len : ℕ) : Prog :=
  readHdr fun h => if h.type == recvRsp.toByte then recvClear len true h else fail

def readRecv (len : ℕ) (gotHavedata : Bool) : Prog :=
  readHdr fun h =>
    if !checkHdr h then fail
    else if h.type == haveData.toByte then recvSecond len
    else recvClear len gotHavedata h

/-- `close_sv` returns 0 whatever `query_serval_close` returned. -/
def closed (pld : List UInt8) : Prog := .done ⟨true, pld⟩

def closeSecond : Prog := readFromStreamSoc 1 (closed []) closed

def readClose : Prog :=
  readHdr fun h =>
    if !checkHdr h then closed []
    else if h.type == haveData.toByte then closeSecond
    else if h.type == closeRsp.toByte then .readn 1 closed
    else closed []

end Prog

open Prog

namespace Call

def read : Call → Prog
  | .send | .sendto => readSend
  | .recv len => readRecv len false
  | .close => readClose
  | c => readDirect c

def query : Call → Prog
  | .recv len => .peek 1 fun
    | .ready => readFromStreamSoc 0 fail fun _ => .write (.request (.recv len)) (readRecv len true)
    | .wouldBlock | .notEnough => .write (.request (.recv len)) (readRecv len false)
  | c => .write (.request c) c.read

def second : Call → Prog
  | .send | .sendto => sendSecond
  | .recv len => recvSecond len
  | .close => closeSecond
  | c => c.read

end Call

/-! ## The stack -/

structure Response where
  fields : List UInt8
  err : UInt8
  data : List UInt8
  deriving DecidableEq

namespace Response

def payload (r : Response) : List UInt8 := r.fields ++ r.err :: r.data

/-- The stack is asked for at most as much as a `uint16_t` holds, and says how much it returns. -/
def Answers (r : Response) (c : Call) : Prop :=
  r.fields.length = c.fieldsLen ∧ match c with
    | .recv len => leNat ((r.fields.drop 36).take 2) = r.data.length ∧ r.data.length ≤ len % 2 ^ 16
    | _ => r.data = []

instance (r : Response) (c : Call) : Decidable (r.Answers c) := by
  unfold Answers
  cases c <;> infer_instance

/-- The length of the payload is a `uint16_t` too, and `client_msg_write` writes as much as it says. -/
def toBytes (r : Response) (c : Call) : List UInt8 :=
  Hdr.toBytes ⟨CLIENT_MSG_VERSION, c.rspType.toByte, .ofNat r.payload.length⟩ ++
    r.payload.take (UInt16.ofNat r.payload.length).toNat

def result (r : Response) (c : Call) : Result := ⟨c == .close || r.err == 0, r.payload⟩

end Response

def haveData : List UInt8 := Hdr.toBytes ⟨CLIENT_MSG_VERSION, MsgType.haveData.toByte, 0⟩

structure Sys where
  running : Option (Call × Prog) := none
  toStack : List ToStack := []
  toApp : List UInt8 := []
  hasData : Bool := false
  issued : List Call := []
  responses : List Response := []
  returned : List Result := []

inductive Move where
  | issue (c : Call)
  | app
  | respond (r : Response)
  | clear
  | notify
  deriving DecidableEq

def step (s : Sys) : Move → Option Sys
  | .issue c =>
    match s.running with
    | none => some { s with running := some (c, c.query), issued := s.issued ++ [c] }
    | some _ => none
  | .app =>
    match s.running with
    | none => none
    | some (_, .done r) => some { s with running := none, returned := s.returned ++ [r] }
    | some (c, .peek n k) => some { s with running := some (c, k (hasUnreadData n s.toApp)) }
    | some (c, .readn n k) =>
      if n ≤ s.toApp.length then
        some { s with running := some (c, k (s.toApp.take n)), toApp := s.toApp.drop n }
      else none
    | some (c, .write m p) => some { s with running := some (c, p), toStack := s.toStack ++ [m] }
  | .respond r =>
    match s.toStack with
    | .request c :: ms =>
      if r.Answers c then
        some { s with toStack := ms, toApp := s.toApp ++ r.toBytes c, responses := s.responses ++ [r] }
      else none
    | _ => none
  | .clear =>
    match s.toStack with
    | .clearData :: ms => some { s with toStack := ms, hasData := false }
    | _ => none
  | .notify =>
    if s.hasData then none else some { s with toApp := s.toApp ++ haveData, hasData := true }

def run (s : Sys) : List Move → Option Sys
  | [] => some s
  | m :: ms => (step s m).bind fun s' => run s' ms

/-! ## What a call reads

A call that has been answered is followed by what it still reads and writes.
-/

/-- The program reads exactly these bytes and returns `res`; `clears` is whether it writes a `CLEAR_DATA`. -/
def Prog.Accepts : Prog → List UInt8 → Result → Bool → Prop
  | .done r, z, res, clears => z = [] ∧ r = res ∧ clears = false
  | .peek _ _, _, _, _ => False
  | .readn n k, z, res, clears => n ≤ z.length ∧ (k (z.take n)).Accepts (z.drop n) res clears
  | .write .clearData p, z, res, clears => clears = true ∧ p.Accepts z res false
  | .write (.request _) _, _, _, _ => False

theorem Prog.accepts_readn {n : ℕ} {k : List UInt8 → Prog} {x y : List UInt8} {res : Result} {clears : Bool}
    (hx : x.length = n) (hk : (k x).Accepts y res clears) : (Prog.readn n k).Accepts (x ++ y) res clears := by
  subst hx
  refine ⟨by simp, ?_⟩
  rwa [take_left, drop_left]

theorem Prog.accepts_readHdr {k : Hdr → Prog} {h : Hdr} {y : List UInt8} {res : Result} {clears : Bool}
    (hk : (k h).Accepts y res clears) : (readHdr k).Accepts (h.toBytes ++ y) res clears :=
  accepts_readn h.length_toBytes (by rwa [Hdr.ofBytes_toBytes])

def Response.Fits (r : Response) : Prop := r.payload.length < 2 ^ 16

instance (r : Response) : Decidable r.Fits := inferInstanceAs (Decidable (_ < _))

namespace Response

variable {r : Response} {c : Call}

theorem toBytes_of_fits (hf : r.Fits) : r.toBytes c =
    Hdr.toBytes ⟨CLIENT_MSG_VERSION, c.rspType.toByte, .ofNat r.payload.length⟩ ++ r.payload := by
  have hlen : (UInt16.ofNat r.payload.length).toNat = r.payload.length := toNat_ofNat_of_lt' hf
  rw [toBytes, hlen, take_length]

theorem Answers.payload_eq (ha : r.Answers c) (hc : ∀ len, c ≠ .recv len) : r.payload = r.fields ++ [r.err] := by
  have hd : r.data = [] := by
    cases c <;> first | exact ha.2 | exact absurd rfl (hc _)
  rw [payload, hd]

theorem getD_payload (ha : r.Answers c) : r.payload.getD c.fieldsLen 0 = r.err := by
  rw [payload, ← ha.1]
  simp

end Response

def Response.clears (r : Response) : Call → Bool
  | .send | .sendto => r.err == 0
  | .recv _ => true
  | _ => false

section Accepts

variable {r : Response} {c : Call}

theorem accepts_report (ha : r.Answers c) (hc : ∀ len, c ≠ .recv len) (hne : c ≠ .close) :
    (Prog.readn c.serialPldLen (report c.fieldsLen)).Accepts r.payload (r.result c) false := by
  have hlen : r.payload.length = c.serialPldLen := by
    rw [ha.payload_eq hc, length_append, ha.1]
    rfl
  rw [← append_nil r.payload]
  refine accepts_readn hlen ⟨rfl, ?_, rfl⟩
  have hclose : (c == Call.close) = false := by simpa using hne
  rw [r.getD_payload ha, Response.result, hclose, Bool.false_or]

theorem accepts_closed (ha : r.Answers .close) : (Prog.readn 1 closed).Accepts r.payload (r.result .close) false := by
  have hlen : r.payload.length = 1 := by
    rw [ha.payload_eq (by simp), length_append, ha.1]
    rfl
  rw [← append_nil r.payload]
  exact accepts_readn hlen ⟨rfl, rfl, rfl⟩

theorem accepts_sendPld (hc : c = .send ∨ c = .sendto) (ha : r.Answers c) (got : Bool) :
    (sendPld got).Accepts r.payload (r.result c) (got && r.err == 0) := by
  have hpld : r.payload = [r.err] := by
    have hfields : r.fields = [] := by
      apply eq_nil_of_length_eq_zero
      rw [ha.1]
      rcases hc with rfl | rfl <;> rfl
    rw [ha.payload_eq (by rcases hc with rfl | rfl <;> simp), hfields]
    rfl
  have hres : r.result c = ⟨r.err == 0, [r.err]⟩ := by
    rw [Response.result, hpld]
    rcases hc with rfl | rfl <;> rfl
  rw [hpld, hres, ← append_nil [r.err]]
  refine accepts_readn rfl ?_
  simp only [getD_cons_zero]
  cases herr : r.err == 0 <;> cases got <;> simp [Accepts]

abbrev Response.hdr (r : Response) (c : Call) : Hdr :=
  ⟨CLIENT_MSG_VERSION, c.rspType.toByte, .ofNat r.payload.length⟩

theorem recv_payloadLength {len : ℕ} (ha : r.Answers (.recv len)) (hf : r.Fits) :
    (r.hdr (.recv len)).payloadLength ≠ 0 ∧ ((r.hdr (.recv len)).payloadLength - 43).toNat = r.data.length := by
  have hfields : r.fields.length = 42 := ha.1
  have hlen : r.payload.length = 43 + r.data.length := by
    simp only [Response.payload, length_append, hfields, length_cons]
    omega
  have hnat : (UInt16.ofNat r.payload.length).toNat = 43 + r.data.length := by
    rw [← hlen]
    exact toNat_ofNat_of_lt' hf
  refine ⟨fun h => ?_, ?_⟩
  · have h0 := hnat.symm.trans (congrArg UInt16.toNat h)
    simp at h0
  · have hle : (43 : UInt16) ≤ UInt16.ofNat r.payload.length := by
      rw [le_iff_toNat_le, hnat]
      exact Nat.le_add_right 43 _
    rw [UInt16.toNat_sub_of_le _ _ hle, hnat]
    exact Nat.add_sub_cancel_left 43 _

theorem accepts_recvPld {len : ℕ} (ha : r.Answers (.recv len)) (hf : r.Fits) :
    (recvPld len (r.hdr (.recv len))).Accepts r.payload (r.result (.recv len)) false := by
  obtain ⟨hnonzero, hsub⟩ := recv_payloadLength ha hf
  have herr : r.payload.getD 42 0 = r.err := r.getD_payload ha
  obtain ⟨hfields, hdata, hle⟩ := ha
  have hfields : r.fields.length = 42 := hfields
  have hserial : (r.fields ++ [r.err]).length = 43 := by simp [hfields]
  have hpld : r.payload = (r.fields ++ [r.err]) ++ r.data := by simp [Response.payload]
  have hroom : ¬ len < r.data.length := by
    have := Nat.mod_le len (2 ^ 16)
    omega
  have hfield : leNat (((r.fields ++ [r.err]).drop 36).take 2) = r.data.length := by
    rw [drop_append_of_le_length (by omega), take_append_of_le_length (by simp [hfields]), hdata]
  have hreport : (report 42 r.payload).Accepts [] (r.result (.recv len)) false := by
    refine ⟨rfl, ?_, rfl⟩
    rw [herr]
    rfl
  rw [recvPld, if_neg (by simpa using hnonzero), hsub, if_neg hroom]
  nth_rewrite 1 [hpld]
  refine accepts_readn hserial ?_
  simp only [hfield]
  by_cases hd : r.data = []
  · rw [hd, append_nil] at hpld
    simpa [hd, hpld] using hreport
  · rw [if_neg (by simpa using hd), ← append_nil r.data]
    exact accepts_readn (by simp) (by simpa [hpld] using hreport)

theorem accepts_readDirect (ha : r.Answers c) (hf : r.Fits) (hc : c.direct = true) :
    (readDirect c).Accepts (r.toBytes c) (r.result c) false := by
  rw [Response.toBytes_of_fits hf, readDirect, readFromStreamSoc]
  refine accepts_readHdr ?_
  exact accepts_report ha (by rintro len rfl; cases hc) (by rintro rfl; cases hc)

theorem accepts_read (ha : r.Answers c) (hf : r.Fits) : c.read.Accepts (r.toBytes c) (r.result c) false := by
  cases c with
  | bind | connect | listen | accept | accept2 => exact accepts_readDirect ha hf rfl
  | send | sendto =>
    rw [Response.toBytes_of_fits hf, Call.read, readSend]
    exact accepts_readHdr (accepts_sendPld (by simp) ha false)
  | recv len =>
    rw [Response.toBytes_of_fits hf, Call.read, readRecv]
    exact accepts_readHdr (accepts_recvPld ha hf)
  | close =>
    rw [Response.toBytes_of_fits hf, Call.read, readClose]
    exact accepts_readHdr (accepts_closed ha)

theorem accepts_second (ha : r.Answers c) (hf : r.Fits) (hc : c.direct = false) :
    c.second.Accepts (r.toBytes c) (r.result c) (r.clears c) := by
  rw [Response.toBytes_of_fits hf]
  cases c with
  | bind | connect | listen | accept | accept2 => cases hc
  | send | sendto =>
    rw [Call.second, sendSecond]
    exact accepts_readHdr (accepts_sendPld (by simp) ha true)
  | recv len =>
    rw [Call.second, recvSecond]
    refine accepts_readHdr ?_
    exact ⟨rfl, accepts_recvPld ha hf⟩
  | close =>
    rw [Call.second, closeSecond, readFromStreamSoc]
    exact accepts_readHdr (accepts_closed ha)

end Accepts

theorem read_eq_readn (c : Call) : ∃ k, c.read = .readn CLIENT_MSG_HDR_LEN k := by
  cases c <;> exact ⟨_, rfl⟩

theorem second_eq_readn (c : Call) : ∃ k, c.second = .readn CLIENT_MSG_HDR_LEN k := by
  cases c <;> exact ⟨_, rfl⟩

theorem read_haveData {c : Call} (hc : c.direct = false) :
    ∃ k, c.read = .readn CLIENT_MSG_HDR_LEN k ∧ k haveData = c.second := by
  cases c with
  | bind | connect | listen | accept | accept2 => cases hc
  | send | sendto | recv | close => exact ⟨_, rfl, rfl⟩

theorem accepts_haveData {r : Response} {c : Call} (ha : r.Answers c) (hf : r.Fits) (hc : c.direct = false) :
    c.read.Accepts (haveData ++ r.toBytes c) (r.result c) (r.clears c) := by
  obtain ⟨k, hk, hsecond⟩ := read_haveData hc
  rw [hk]
  exact accepts_readn rfl (hsecond ▸ accepts_second ha hf hc)

/-! ## What the stream holds -/

def unread : Bool → List UInt8
  | true => haveData
  | false => []

def unhandled : Bool → List ToStack
  | true => [.clearData]
  | false => []

/-- Where the running call is: the calls and the responses that are not over, the request that is not answered, what
the call still reads of its response, and whether it has a notification to clear. -/
inductive Stage : Option (Call × Prog) → List Call → List Response → List ToStack → List UInt8 → Bool → Prop where
  | idle : Stage none [] [] [] [] false
  /-- The request is not written yet. -/
  | starting {c : Call} {p : Prog} (hp : p = c.query ∨ p = .write (.request c) c.read) :
      Stage (some (c, p)) [c] [] [] [] false
  /-- The request is written and not answered; a notification may come before the response. -/
  | waiting {c : Call} : Stage (some (c, c.read)) [c] [] [.request c] [] false
  /-- The notification is read, and no other can come. -/
  | notified {c : Call} (hc : c.direct = false) : Stage (some (c, c.second)) [c] [] [.request c] [] true
  | answered {c : Call} {r : Response} {p : Prog} {z : List UInt8} {clears : Bool}
      (hp : p.Accepts z (r.result c) clears) : Stage (some (c, p)) [c] [r] [] z clears

/-- The calls of `before` are over, each with the response to its own request. One notification is outstanding while
it is unread (`b`), or read by the running call, or its `CLEAR_DATA` unhandled, and never two of them. -/
structure Phase (s : Sys) (before : List (Call × Response)) (calls : List Call) (rs : List Response)
    (pending : List ToStack) (z : List UInt8) (clears cleared b : Bool) : Prop where
  stage : Stage s.running calls rs pending z clears
  issued : s.issued = before.map Prod.fst ++ calls
  responses : s.responses = before.map Prod.snd ++ rs
  returned : s.returned = before.map fun p => p.2.result p.1
  outstanding : clears.toNat + cleared.toNat + b.toNat ≤ s.hasData.toNat
  toStack : s.toStack = unhandled cleared ++ pending
  toApp : s.toApp = z ++ unread b
  direct : ∀ c ∈ calls, c.direct = true → rs = [] → b = false

def Inv (s : Sys) : Prop := ∃ before calls rs pending z clears cleared b,
    Phase s before calls rs pending z clears cleared b

/-- No notification is in front of a response that is read without a look at its type, and the responses fit. -/
def Allowed (s : Sys) : Move → Prop
  | .issue c => c.direct = true → s.toApp = []
  | .notify => ∀ c p, s.running = some (c, p) → c.direct = true → s.responses.length = s.issued.length
  | .respond r => r.Fits
  | .app | .clear => True

section Steps

variable {s s' : Sys} {before : List (Call × Response)} {calls : List Call} {rs : List Response}
  {pending : List ToStack} {z : List UInt8} {clears cleared b : Bool} {c : Call} {r : Response}

theorem query_cases (c : Call) : c.query = .write (.request c) c.read ∨
    ∃ k, c.query = .peek 1 k ∧ ∀ d, d ≠ .ready → k d = .write (.request c) c.read := by
  cases c with
  | recv len =>
    refine .inr ⟨_, rfl, fun d hd => ?_⟩
    cases d with
    | ready => exact absurd rfl hd
    | wouldBlock | notEnough => rfl
  | bind | connect | listen | accept | accept2 | send | sendto | close => exact .inl rfl

/-- The comparison of `has_unread_data` is the wrong way round: one byte is never enough. -/
theorem hasUnreadData_one (stream : List UInt8) : hasUnreadData 1 stream ≠ .ready := by
  unfold hasUnreadData
  split_ifs with hnil hle
  · simp
  · simp
  · have := length_pos_iff.mpr hnil
    omega

variable {running : Option (Call × Prog)}

theorem Stage.pending_ne (h : Stage running calls rs pending z clears) (ms : List ToStack) :
    pending ≠ .clearData :: ms := by
  cases h <;> simp

theorem Stage.request {ms : List ToStack} (h : Stage running calls rs (.request c :: ms) z clears) :
    ms = [] ∧ calls = [c] ∧ rs = [] ∧ z = [] ∧
      (running = some (c, c.read) ∧ clears = false ∨
        running = some (c, c.second) ∧ c.direct = false ∧ clears = true) := by
  cases h with
  | waiting => simp
  | notified hc => simp [hc]

theorem Stage.calls_eq {p : Prog} (h : Stage (some (c, p)) calls rs pending z clears) : calls = [c] := by
  cases h <;> rfl

theorem Stage.accepts {p : Prog} (h : Stage (some (c, p)) calls rs pending z clears) (hrs : rs ≠ []) :
    ∃ r : Response, p.Accepts z (r.result c) clears := by
  cases h with
  | answered hp => exact ⟨_, hp⟩
  | starting | waiting | notified => exact absurd rfl hrs

section Phase

variable (h : Phase s before calls rs pending z clears cleared b)
include h

theorem Phase.not_all_answered (hrs : rs = []) (hc : c ∈ calls) : s.responses.length ≠ s.issued.length := by
  rw [h.issued, h.responses, hrs]
  simpa using ne_nil_of_mem hc

theorem Phase.issue (hal : Allowed s (.issue c)) (hs : step s (.issue c) = some s') : Inv s' := by
  simp only [step] at hs
  split at hs
  case h_2 => cases hs
  case h_1 hnone =>
    cases hs
    have hstage := h.stage
    rw [hnone] at hstage
    cases hstage
    refine ⟨before, [c], [], [], [], false, cleared, b,
      { h with stage := .starting (.inl rfl), issued := by simp [h.issued], direct := fun c' hc' hd _ => ?_ }⟩
    obtain rfl := mem_singleton.mp hc'
    have hnil : unread b = [] := h.toApp.symm.trans (hal hd)
    cases b with
    | false => rfl
    | true => cases hnil

theorem Phase.respond (hf : r.Fits) (hs : step s (.respond r) = some s') : Inv s' := by
  simp only [step] at hs
  split at hs
  case h_2 => cases hs
  case h_1 c ms hto =>
    split at hs
    case isFalse => cases hs
    case isTrue ha =>
      cases hs
      have hstack := hto.symm.trans h.toStack
      have houtstanding := h.outstanding
      cases cleared with
      | true => cases hstack
      | false =>
        cases hstack
        obtain ⟨rfl, rfl, rfl, rfl, hrun⟩ := h.stage.request
        have happ : s.toApp = unread b := h.toApp
        -- what the call reads of the stream, with the notification in front of the response if it is unread
        have haccepts : ∃ p clears', s.running = some (c, p) ∧
            p.Accepts (unread b ++ r.toBytes c) (r.result c) clears' ∧ clears'.toNat ≤ s.hasData.toNat := by
          rcases hrun with ⟨hrun, rfl⟩ | ⟨hrun, hc, rfl⟩
          · cases b with
            | false => exact ⟨_, false, hrun, accepts_read ha hf, Nat.zero_le _⟩
            | true =>
              have hc : c.direct = false := by
                by_contra hd
                exact Bool.noConfusion (h.direct c (mem_singleton_self c) (by simpa using hd) rfl)
              exact ⟨_, _, hrun, accepts_haveData ha hf hc, (Bool.toNat_le _).trans houtstanding⟩
          · cases b with
            | false => exact ⟨_, _, hrun, accepts_second ha hf hc, (Bool.toNat_le _).trans houtstanding⟩
            | true => exact absurd (houtstanding.trans (Bool.toNat_le _)) (by decide)
        obtain ⟨p, clears', hrun, haccepts, hle⟩ := haccepts
        refine ⟨before, [c], [r], [], unread b ++ r.toBytes c, clears', false, false,
          { h with
            stage := hrun ▸ .answered haccepts
            responses := by simp [h.responses]
            outstanding := hle
            toStack := rfl
            toApp := by simp [happ, unread]
            direct := by simp }⟩

theorem Phase.clear (hs : step s .clear = some s') : Inv s' := by
  simp only [step] at hs
  split at hs
  case h_2 => cases hs
  case h_1 ms hto =>
    cases hs
    have hstack := hto.symm.trans h.toStack
    have hout := h.outstanding.trans (Bool.toNat_le _)
    cases cleared with
    | false =>
      exact absurd hstack.symm (h.stage.pending_ne ms)
    | true =>
      cases hstack
      obtain ⟨rfl, rfl⟩ : clears = false ∧ b = false := by
        revert hout
        cases clears <;> cases b <;> decide
      exact ⟨before, calls, rs, _, z, false, false, false, { h with outstanding := Nat.le_refl 0, toStack := rfl }⟩

theorem Phase.notify (hal : Allowed s .notify) (hs : step s .notify = some s') : Inv s' := by
  simp only [step] at hs
  split at hs
  case isTrue => cases hs
  case isFalse hdata =>
    cases hs
    have hout := h.outstanding
    rw [Bool.not_eq_true] at hdata
    rw [hdata] at hout
    obtain ⟨rfl, rfl, rfl⟩ : clears = false ∧ cleared = false ∧ b = false := by
      revert hout
      cases clears <;> cases cleared <;> cases b <;> decide
    refine ⟨before, calls, rs, pending, z, false, false, true,
      { h with outstanding := Nat.le_refl 1, toApp := by simp [h.toApp, unread], direct := fun c hc hd hrs => ?_ }⟩
    -- a direct call that still waits for its response is not notified
    have hstage := h.stage
    cases hrun : s.running with
    | none =>
      rw [hrun] at hstage
      cases hstage
      cases hc
    | some q =>
      rw [hrun] at hstage
      obtain rfl := mem_singleton.mp (hstage.calls_eq ▸ hc)
      exact absurd (hal q.1 q.2 hrun hd) (h.not_all_answered hrs hc)

theorem Phase.app_answered {p : Prog} (hcalls : calls = [c]) (hrs : rs = [r]) (hpending : pending = [])
    (hrun : s.running = some (c, p)) (hp : p.Accepts z (r.result c) clears) (hs : step s .app = some s') : Inv s' := by
  subst hcalls hrs hpending
  simp only [step, hrun] at hs
  cases p with
  | done res =>
    obtain ⟨rfl, rfl, rfl⟩ := hp
    cases hs
    exact ⟨before ++ [(c, r)], [], [], [], [], false, cleared, b, { h with
      stage := .idle
      issued := by simp [h.issued]
      responses := by simp [h.responses]
      returned := by simp [h.returned]
      direct := by simp }⟩
  | peek n k => exact hp.elim
  | readn n k =>
    obtain ⟨hn, hp⟩ := hp
    simp only [ite_none_right_eq_some, some.injEq] at hs
    obtain ⟨-, rfl⟩ := hs
    rw [h.toApp, take_append_of_le_length hn, drop_append_of_le_length hn]
    exact ⟨before, [c], [r], [], z.drop n, clears, cleared, b, { h with stage := .answered hp, toApp := rfl }⟩
  | write m p =>
    cases m with
    | request _ => exact hp.elim
    | clearData =>
      obtain ⟨rfl, hp⟩ := hp
      have hout := h.outstanding
      have hone := hout.trans (Bool.toNat_le _)
      obtain ⟨rfl, rfl⟩ : cleared = false ∧ b = false := by
        revert hone
        cases cleared <;> cases b <;> decide
      cases hs
      exact ⟨before, [c], [r], [], z, false, true, false,
        { h with stage := .answered hp, outstanding := hout, toStack := by simp [h.toStack, unhandled] }⟩

theorem Phase.app (hs : step s .app = some s') : Inv s' := by
  have hstage := h.stage
  generalize hrun : s.running = running at hstage
  cases hstage with
  | idle =>
    simp only [step, hrun] at hs
    cases hs
  | @starting c p hp =>
    simp only [step, hrun] at hs
    have hwrite : p = .write (.request c) c.read ∨
        ∃ k, p = .peek 1 k ∧ ∀ d, d ≠ .ready → k d = .write (.request c) c.read := by
      rcases hp with rfl | rfl
      · exact query_cases c
      · exact .inl rfl
    rcases hwrite with rfl | ⟨k, rfl, hk⟩
    · cases hs
      exact ⟨before, _, _, _, _, _, cleared, b, { h with stage := .waiting, toStack := by simp [h.toStack] }⟩
    · cases hs
      exact ⟨before, _, _, _, _, _, cleared, b,
        { h with stage := .starting (.inr (hk _ (hasUnreadData_one _))) }⟩
  | @waiting c =>
    -- only a notification can be there to read
    obtain ⟨k, hk⟩ := read_eq_readn c
    simp only [step, hrun, hk, ite_none_right_eq_some, some.injEq] at hs
    obtain ⟨hlen, rfl⟩ := hs
    have happ : s.toApp = unread b := h.toApp
    cases b with
    | false =>
      rw [happ] at hlen
      cases hlen
    | true =>
      have hc : c.direct = false := by
        by_contra hd
        exact Bool.noConfusion (h.direct c (mem_singleton_self c) (by simpa using hd) rfl)
      obtain ⟨k', hk', hsecond⟩ := read_haveData hc
      have hkk : k = k' := by
        have := hk.symm.trans hk'
        injection this
      subst hkk
      have hout := h.outstanding
      obtain rfl : cleared = false := by
        have hone := hout.trans (Bool.toNat_le _)
        revert hone
        cases cleared <;> decide
      have hnext : k (s.toApp.take CLIENT_MSG_HDR_LEN) = c.second := by
        rw [happ]
        exact hsecond
      refine ⟨before, [c], [], [.request c], [], true, false, false,
        { h with stage := hnext ▸ .notified hc, outstanding := hout, toApp := ?_, direct := fun _ _ _ _ => rfl }⟩
      rw [happ]
      rfl
  | @notified c hc =>
    -- there is nothing to read
    obtain ⟨k, hk⟩ := second_eq_readn c
    have happ : s.toApp = unread b := h.toApp
    have hone := h.outstanding.trans (Bool.toNat_le _)
    obtain rfl : b = false := by
      revert hone
      cases cleared <;> cases b <;> decide
    simp only [step, hrun, hk, happ, ite_none_right_eq_some] at hs
    cases hs.1
  | answered hp => exact h.app_answered rfl rfl rfl hrun hp hs

end Phase

theorem step_inv {m : Move} (h : Inv s) (hal : Allowed s m) (hs : step s m = some s') : Inv s' := by
  obtain ⟨before, calls, rs, pending, z, clears, cleared, b, h⟩ := h
  cases m with
  | issue c => exact h.issue hal hs
  | app => exact h.app hs
  | respond r => exact h.respond hal hs
  | clear => exact h.clear hs
  | notify => exact h.notify hal hs

end Steps

inductive Reachable : Sys → Prop where
  | init : Reachable {}
  | step {s s' : Sys} {m : Move} : Reachable s → Allowed s m → step s m = some s' → Reachable s'

theorem Reachable.inv {s : Sys} (h : Reachable s) : Inv s := by
  induction h with
  | init => exact ⟨[], [], [], [], [], false, false, false, .idle, rfl, rfl, rfl, Nat.le_refl 0, rfl, rfl, by simp⟩
  | step _ hal hs ih => exact step_inv ih hal hs

/-! ## Calls and responses -/

section Pairing

variable {s : Sys} {before : List (Call × Response)} {calls : List Call} {rs : List Response}
  {pending : List ToStack} {z : List UInt8} {clears cleared b : Bool}
  (h : Phase s before calls rs pending z clears cleared b)
include h

theorem Phase.paired {k : ℕ} {res : Result} (hk : s.returned[k]? = some res) :
    ∃ c r, s.issued[k]? = some c ∧ s.responses[k]? = some r ∧ res = r.result c := by
  rw [h.returned, getElem?_map, map_eq_some_iff] at hk
  obtain ⟨⟨c, r⟩, hcr, rfl⟩ := hk
  have hlt : k < before.length := (List.getElem?_eq_some_iff.mp hcr).1
  refine ⟨c, r, ?_, ?_, rfl⟩
  · rw [h.issued, getElem?_append_left (by simpa using hlt), getElem?_map, hcr]
    rfl
  · rw [h.responses, getElem?_append_left (by simpa using hlt), getElem?_map, hcr]
    rfl

theorem Phase.boundary (hidle : s.running = none) : s.toApp = [] ∨ s.toApp = haveData := by
  have hstage := h.stage
  rw [hidle] at hstage
  cases hstage
  cases b with
  | false => exact .inl h.toApp
  | true => exact .inr h.toApp

theorem Phase.not_blocked {c : Call} {n : ℕ} {k : List UInt8 → Prog}
    (hrun : s.running = some (c, .readn n k)) (hall : s.responses.length = s.issued.length) : n ≤ s.toApp.length := by
  have hstage := h.stage
  rw [hrun] at hstage
  have hc : c ∈ calls := hstage.calls_eq ▸ mem_singleton_self c
  by_cases hrs : rs = []
  · exact absurd hall (h.not_all_answered hrs hc)
  · obtain ⟨r, hp⟩ := hstage.accepts hrs
    rw [h.toApp, length_append]
    exact hp.1.trans (Nat.le_add_right _ _)

end Pairing

namespace Sample

def notifiedSend : List Move :=
  [.issue .send, .app, .notify, .respond ⟨[], 0, []⟩, .app, .app, .app, .app, .app]

def notifiedConnect : List Move :=
  [.notify, .issue .connect, .app, .respond ⟨1 :: List.replicate 31 0, 111, []⟩, .app, .app, .app]

end Sample

end ClientCalls
