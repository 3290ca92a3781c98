import Serval.ClientMessage

/-! # Send and receive requests over the stream

`SendReq` and `RecvReq`, from `Message::write_to_stream_soc` to `client_msg_read`. How the kernel splits the writes
and reads is an argument; `none` is an answer that it does not give, or a failed assertion.
-/
namespace ClientRequest

open ByteLayout ClientMessage List Option

structure SendReq where
  nb : Bool
  dstServiceId : List.Vector UInt8 32
  ipaddr : UInt32
  flags : UInt32
  nsbuf : List UInt8
  small : nsbuf.length < 2 ^ 16

structure RecvReq where
  len : UInt16
  flags : UInt32

inductive Request where
  | send (r : SendReq)
  | recv (r : RecvReq)

namespace Request

def type : Request → MsgType
  | .send _ => .sendReq
  | .recv _ => .recvReq

def fields : Request → List (List UInt8)
  | .send r => [[r.nb.toUInt8], r.dstServiceId.toList, leBytes 4 r.ipaddr.toNat, leBytes 2 r.nsbuf.length,
      leBytes 4 r.flags.toNat]
  | .recv r => [leBytes 2 r.len.toNat, leBytes 4 r.flags.toNat]

def serialPld (q : Request) : List UInt8 := q.fields.flatten

def nonserialBuf : Request → List UInt8
  | .send r => r.nsbuf
  | .recv _ => []

def pldLenV (q : Request) : UInt16 := .ofNat (q.serialPld.length + q.nonserialBuf.length)

def writeSerial (q : Request) : List UInt8 :=
  Hdr.toBytes ⟨CLIENT_MSG_VERSION, q.type.toByte, q.pldLenV⟩ ++ q.serialPld

end Request

/-! ## Writing -/

inductive WriteAnswer where
  | wrote (n : ℕ)
  | eintr | eagain | epipe | error
  deriving DecidableEq

/-- The inner loop of `SockIO::writev`: the vectors that `p` bytes finish, and the others. -/
def advance : ℕ → List (List UInt8) → Option (List (List UInt8) × List (List UInt8))
  | p, [] => if p = 0 then some ([], []) else none
  | p, v :: vs =>
    if p = 0 then some ([], v :: vs)
    else if v.length ≤ p then (advance (p - v.length) vs).map fun r => (v :: r.1, r.2)
    else some ([], v.drop p :: vs)

/-- Each call of `writev` is given the first vectors of the array, as many as are left; the ones that are finished are
still there. -/
def writevLoop : List WriteAnswer → List (List UInt8) → List (List UInt8) → ℕ → List UInt8 → Option (ℤ × List UInt8)
  | [], _, [], nbytes, stream => some (nbytes, stream)
  | [], _, _ :: _, _, _ => none
  | _ :: _, _, [], nbytes, stream => some (nbytes, stream)
  | k :: ks, done, v :: vs, nbytes, stream =>
    match k with
    | .wrote n =>
      if 0 < n ∧ n ≤ ((done ++ v :: vs).take (v :: vs).length).flatten.length then do
        let (finished, rest) ← advance n (v :: vs)
        writevLoop ks (done ++ finished) rest (nbytes + n)
          (stream ++ ((done ++ v :: vs).take (v :: vs).length).flatten.take n)
      else none
    | .eintr => writevLoop ks done (v :: vs) nbytes stream
    | .eagain => some (-1, stream)
    | .epipe => some (0, stream)
    | .error => some (-1, stream)

/-- `SockIO::writev` returns an `int`. -/
def writev (ks : List WriteAnswer) (iov : List (List UInt8)) (stream : List UInt8) : Option (ℤ × List UInt8) :=
  (writevLoop ks [] iov 0 stream).map fun r => (Int.bmod r.1 UInt32.size, r.2)

def iovecs (q : Request) : List (List UInt8) :=
  q.writeSerial :: if 0 < q.nonserialBuf.length then [q.nonserialBuf] else []

def writeToStreamSoc (q : Request) (ks : List WriteAnswer) (stream : List UInt8) : Option (ℤ × List UInt8) := do
  let (n, stream) ← writevLoop ks [] (iovecs q) 0 stream
  if n ≤ 0 then return (n, stream)
  else if n = (q.writeSerial.length + q.nonserialBuf.length : ℕ) then return (n, stream)
  else none

/-! ## Reading -/

inductive RecvAnswer where
  | got (n : ℕ)
  | error
  deriving DecidableEq

inductive ReadResult where
  | eof | error
  | msg (type : MsgType) (payloadLength : UInt16) (payload : List UInt8)
  deriving DecidableEq

def recvBytes (stream : List UInt8) (len n : ℕ) : Option (List UInt8 × List UInt8) :=
  if n ≤ len ∧ n ≤ stream.length ∧ (n = 0 → stream = []) then some (stream.take n, stream.drop n) else none

def readPayload (type : MsgType) (len : UInt16) (stream : List UInt8) (answer : RecvAnswer) :
    Option (ReadResult × List UInt8) :=
  match answer with
  | .error => some (.error, stream)
  | .got n => do
    let (payload, stream) ← recvBytes stream len.toNat n
    if n < len.toNat then return (.error, stream) else return (.msg type len payload, stream)

def clientMsgRead (stream : List UInt8) (first second : RecvAnswer) : Option (ReadResult × List UInt8) :=
  match first with
  | .error => some (.error, stream)
  | .got n => do
    let (bs, stream) ← recvBytes stream CLIENT_MSG_HDR_LEN n
    if n = 0 then return (.eof, stream)
    else if n < CLIENT_MSG_HDR_LEN then return (.error, stream)
    else do
      let type ← MsgType.ofByte (Hdr.ofBytes bs).type
      if (Hdr.ofBytes bs).payloadLength.toNat + CLIENT_MSG_HDR_LEN < type.len then return (.error, stream)
      else if (Hdr.ofBytes bs).payloadLength = 0 then return (.msg type 0 [], stream)
      else readPayload type (Hdr.ofBytes bs).payloadLength stream second

structure ClientMsgSendReq where
  nonBlocking : UInt8
  srvid : List.Vector UInt8 32
  ipaddr : UInt32
  dataLen : UInt16
  flags : UInt32
  data : List UInt8
  deriving DecidableEq

def sendWidths : List ℕ := [1, 32, 4, 2, 4]

def ClientMsgSendReq.ofFields (fs : List (List UInt8)) (data : List UInt8) : ClientMsgSendReq where
  nonBlocking := (fs.getD 0 []).getD 0 0
  srvid := toVec 32 (fs.getD 1 [])
  ipaddr := .ofNat (leNat (fs.getD 2 []))
  dataLen := .ofNat (leNat (fs.getD 3 []))
  flags := .ofNat (leNat (fs.getD 4 []))
  data := data

def ClientMsgSendReq.ofPayload (bs : List UInt8) : ClientMsgSendReq :=
  .ofFields (split sendWidths bs) (bs.drop sendWidths.sum)

structure ClientMsgRecvReq where
  dataLen : UInt16
  flags : UInt32
  deriving DecidableEq

def recvWidths : List ℕ := [2, 4]

def ClientMsgRecvReq.ofPayload (bs : List UInt8) : ClientMsgRecvReq where
  dataLen := .ofNat (leNat ((split recvWidths bs).getD 0 []))
  flags := .ofNat (leNat ((split recvWidths bs).getD 1 []))

def Decodes (q : Request) : ReadResult → Prop
  | .msg type len payload =>
    type = q.type ∧ len.toNat = (q.serialPld ++ q.nonserialBuf).length ∧ payload.length = len.toNat ∧ match q with
      | .send r => ClientMsgSendReq.ofPayload payload =
          ⟨r.nb.toUInt8, r.dstServiceId, r.ipaddr, .ofNat r.nsbuf.length, r.flags, r.nsbuf⟩
      | .recv r => ClientMsgRecvReq.ofPayload payload = ⟨r.len, r.flags⟩
  | _ => False

/-! ## One request -/

variable {q : Request} {ks : List WriteAnswer} {stream rest : List UInt8}

theorem widths_send (r : SendReq) : (Request.send r).fields.map List.length = sendWidths := by
  simp [Request.fields, sendWidths]

theorem widths_recv (r : RecvReq) : (Request.recv r).fields.map List.length = recvWidths := by
  simp [Request.fields, recvWidths]

theorem length_serialPld (q : Request) : q.serialPld.length + CLIENT_MSG_HDR_LEN = q.type.len := by
  cases q with
  | send r => rw [Request.serialPld, length_flatten, widths_send]; rfl
  | recv r => rw [Request.serialPld, length_flatten, widths_recv]; rfl

/-- A call of `writev` that does not write everything ends inside the first vector. -/
def Whole : List WriteAnswer → ℕ → ℕ → Prop
  | .eintr :: ks, a, b => Whole ks a b
  | .wrote n :: ks, a, b => n = a + b ∨ (0 < n ∧ n < a ∧ Whole ks (a - n) b)
  | _, _, _ => False

variable {vs : List (List UInt8)}

theorem advance_flatten (hvs : ∀ v ∈ vs, v ≠ []) :
    advance vs.flatten.length vs = some (vs, []) := by
  induction vs with
  | nil => rfl
  | cons v vs ih =>
    rw [forall_mem_cons] at hvs
    have hpos := length_pos_iff.mpr hvs.1
    have hlen : (v :: vs).flatten.length = v.length + vs.flatten.length := by simp
    rw [advance, hlen, if_neg (by omega), if_pos (by omega), Nat.add_sub_cancel_left, ih hvs.2]
    rfl

theorem writevLoop_whole {v : List UInt8} {nbytes : ℕ} (hv : v ≠ []) (hvs : ∀ w ∈ vs, w ≠ [])
    (hks : Whole ks v.length vs.flatten.length) :
    writevLoop ks [] (v :: vs) nbytes stream =
      some (((nbytes + (v :: vs).flatten.length : ℕ) : ℤ), stream ++ (v :: vs).flatten) := by
  have hlen : (v :: vs).flatten.length = v.length + vs.flatten.length := by simp
  induction ks generalizing v nbytes stream with
  | nil => cases hks
  | cons k ks ih =>
    cases k with
    | eintr => exact ih hv hks hlen
    | wrote n =>
      have hoffered : (([] : List (List UInt8)) ++ v :: vs).take (v :: vs).length = v :: vs := by simp
      rcases hks with rfl | ⟨hpos, hlt, hks⟩
      · have hpos := length_pos_iff.mpr hv
        rw [writevLoop, hoffered, ← hlen, if_pos ⟨by omega, le_rfl⟩, advance_flatten (forall_mem_cons.mpr ⟨hv, hvs⟩)]
        simp only [bind_eq_bind, bind_some, take_length]
        cases ks <;> rfl
      · have hdrop : v.drop n ≠ [] := by
          rw [ne_eq, drop_eq_nil_iff]
          omega
        rw [writevLoop, hoffered, if_pos ⟨hpos, by omega⟩, advance, if_neg (by omega), if_neg (by omega)]
        simp only [bind_eq_bind, bind_some, append_nil]
        rw [ih hdrop (by rwa [length_drop]) (by simp)]
        have htake : (v :: vs).flatten.take n = v.take n := by
          rw [flatten_cons, take_append_of_le_length (by omega)]
        rw [htake]
        congr 1
        refine Prod.ext ?_ ?_
        · simp only [flatten_cons, length_append, length_drop]
          omega
        · simp only [flatten_cons, append_assoc]
          rw [← append_assoc (v.take n), take_append_drop]
    | eagain | epipe | error => cases hks

/-! Outside of that condition the first vector is offered again, which shows if its bytes differ from those that are
due. -/

theorem advance_left {n : ℕ} (h : n < vs.flatten.length) :
    ∃ fs w ws, advance n vs = some (fs, w :: ws) := by
  induction vs generalizing n with
  | nil => cases h
  | cons v vs ih =>
    rw [advance]
    split
    · exact ⟨_, _, _, rfl⟩
    · split
      next hle =>
        rw [flatten_cons, length_append] at h
        obtain ⟨fs, w, ws, hrest⟩ := @ih (n - v.length) (by omega)
        exact ⟨_, _, _, by rw [hrest]; rfl⟩
      · exact ⟨_, _, _, rfl⟩

theorem writevLoop_initial {done vs : List (List UInt8)} {nbytes : ℕ} {r : ℤ} {s : List UInt8}
    (h : writevLoop ks done vs nbytes stream = some (r, s)) : stream <+: s := by
  induction ks generalizing done vs nbytes stream with
  | nil => cases vs <;> cases h; exact prefix_rfl
  | cons k ks ih =>
    cases vs with
    | nil => cases h; exact prefix_rfl
    | cons v vs =>
      cases k with
      | wrote n =>
        rw [writevLoop] at h
        split at h
        · obtain ⟨⟨fs, ws⟩, -, h⟩ := bind_eq_some_iff.mp h
          exact (prefix_append _ _).trans (ih h)
        · cases h
      | eintr => exact ih h
      | eagain | epipe | error => cases h; exact prefix_rfl

theorem writevLoop_repeats {x : UInt8} {u : List UInt8} {fs : List (List UInt8)} {v : List UInt8}
    {nbytes : ℕ} {r : ℤ} {s : List UInt8}
    (h : writevLoop ks ((x :: u) :: fs) (v :: vs) nbytes stream = some (r, s)) :
    r = -1 ∨ r = 0 ∨ stream ++ [x] <+: s := by
  induction ks with
  | nil => cases h
  | cons k ks ih =>
    cases k with
    | wrote n =>
      rw [writevLoop] at h
      split at h
      next hn =>
        obtain ⟨m, rfl⟩ := Nat.exists_eq_succ_of_ne_zero hn.1.ne'
        obtain ⟨⟨gs, ws⟩, -, h⟩ := bind_eq_some_iff.mp h
        refine .inr (.inr (IsPrefix.trans ?_ (writevLoop_initial h)))
        simp [prefix_append_right_inj]
      · cases h
    | eintr => exact ih h
    | eagain | error => cases h; exact .inl rfl
    | epipe => cases h; exact .inr (.inl rfl)

theorem whole_of_exact {a b nbytes : ℕ} {r : ℤ} (ha : 0 < a) (hvs : vs.flatten = replicate b 0)
    (hr : r ≠ -1 ∧ r ≠ 0)
    (h : writevLoop ks [] (replicate a 1 :: vs) nbytes stream = some (r, stream ++ (replicate a 1 ++ replicate b 0))) :
    Whole ks a b := by
  have hlen : (replicate a 1 :: vs).flatten = replicate a 1 ++ replicate b 0 := by rw [flatten_cons, hvs]
  induction ks generalizing a nbytes stream with
  | nil => cases h
  | cons k ks ih =>
    cases k with
    | eintr => exact ih ha h hlen
    | eagain | error => exact absurd (Prod.mk.inj (some.inj h)).1.symm hr.1
    | epipe => exact absurd (Prod.mk.inj (some.inj h)).1.symm hr.2
    | wrote n =>
      rw [writevLoop, nil_append, take_length, hlen, length_append, length_replicate, length_replicate] at h
      split at h
      · rename_i hn
        by_cases hall : n = a + b
        · exact .inl hall
        obtain ⟨⟨fs, ws⟩, hadvance, h⟩ := bind_eq_some_iff.mp h
        rw [advance, if_neg hn.1.ne', length_replicate] at hadvance
        split at hadvance
        next hle =>
          -- a byte of the first vector comes where one of the others is due
          obtain ⟨gs, w, ws', hleft⟩ := @advance_left vs (n - a) (by rw [hvs, length_replicate]; omega)
          rw [hleft] at hadvance
          cases hadvance
          obtain ⟨m, rfl⟩ := Nat.exists_eq_succ_of_ne_zero ha.ne'
          rcases writevLoop_repeats h with h | h | hprefix
          · exact absurd h hr.1
          · exact absurd h hr.2
          · rw [append_assoc, prefix_append_right_inj] at hprefix
            obtain ⟨t, ht⟩ := hprefix
            rw [append_assoc] at ht
            have hdrop := append_cancel_left ((take_append_drop n _).trans ht.symm)
            rw [drop_append, drop_of_length_le (by simpa using hle), nil_append, drop_replicate] at hdrop
            have hmem : 1 ∈ replicate (b - (n - (replicate (m + 1) (1 : UInt8)).length)) (0 : UInt8) := by
              rw [hdrop]
              exact mem_cons_self
            exact absurd (eq_of_mem_replicate hmem) (by decide)
        next hlt =>
          cases hadvance
          have hin := not_le.mp hlt
          obtain ⟨c, rfl⟩ := Nat.exists_eq_add_of_le hin.le
          have hnext : stream ++ (replicate (n + c) 1 ++ replicate b 0) =
              stream ++ replicate n 1 ++ (replicate c 1 ++ replicate b 0) := by
            rw [← replicate_append_replicate]
            simp only [append_assoc]
          dsimp only at h
          rw [hnext, nil_append, drop_replicate, Nat.add_sub_cancel_left, take_append_of_le_length (by simp),
            take_replicate, Nat.min_eq_left (by omega)] at h
          refine .inr ⟨hn.1, hin, ?_⟩
          rw [Nat.add_sub_cancel_left]
          exact ih (by omega) h (by rw [flatten_cons, hvs])
      · cases h

/-- Whatever the bytes are, the buffers are written once and in order: exactly if partial writes end in the first of
them and the total fits. -/
theorem writev_exact (ks : List WriteAnswer) (stream : List UInt8) {lens : List ℕ} (hlens : ∀ n ∈ lens, 0 < n) :
    (∀ iov : List (List UInt8), iov.map length = lens →
      writev ks iov stream = some ((lens.sum : ℤ), stream ++ iov.flatten)) ↔
    (∀ n ns, lens = n :: ns → Whole ks n ns.sum) ∧ lens.sum < 2 ^ 31 := by
  constructor
  · intro hexact
    constructor
    · rintro n ns rfl
      rw [forall_mem_cons] at hlens
      have hzeros : (ns.map fun k => replicate k (0 : UInt8)).flatten = replicate ns.sum 0 := by
        clear hlens hexact
        induction ns with
        | nil => rfl
        | cons k ns ih => rw [map_cons, flatten_cons, ih, replicate_append_replicate, sum_cons]
      have hrun := hexact (replicate n 1 :: ns.map fun k => replicate k 0) (by simp [Function.comp_def])
      obtain ⟨⟨r, s⟩, hloop, hr⟩ := map_eq_some_iff.mp hrun
      obtain ⟨hsum, rfl⟩ := Prod.mk.inj hr
      rw [flatten_cons, hzeros] at hloop
      refine whole_of_exact hlens.1 hzeros ⟨?_, ?_⟩ hloop
      · rintro rfl
        rw [sum_cons, show Int.bmod (-1) UInt32.size = -1 by decide] at hsum
        omega
      · rintro rfl
        rw [sum_cons, show Int.bmod 0 UInt32.size = 0 by decide] at hsum
        omega
    · obtain ⟨⟨r, s⟩, -, hr⟩ := map_eq_some_iff.mp
        (hexact (lens.map fun k => replicate k 0) (by simp [Function.comp_def]))
      have hlt := @Int.bmod_lt r UInt32.size (by decide)
      rw [(Prod.mk.inj hr).1, UInt32.size] at hlt
      omega
  · rintro ⟨hwhole, hfits⟩ iov rfl
    have hint : Int.bmod ((iov.map length).sum : ℤ) UInt32.size = (iov.map length).sum := by
      apply Int.bmod_eq_of_le
      · simp only [UInt32.size]
        omega
      · simp only [UInt32.size]
        omega
    have hiov : ∀ v ∈ iov, v ≠ [] := fun v hv => length_pos_iff.mp (hlens _ (mem_map_of_mem hv))
    cases iov with
    | nil => cases ks <;> simp [writev, writevLoop]
    | cons v vs =>
      rw [forall_mem_cons] at hiov
      have hks : Whole ks v.length vs.flatten.length := by
        rw [length_flatten]
        exact hwhole _ _ rfl
      rw [writev, writevLoop_whole hiov.1 hiov.2 hks, zero_add, map_some, length_flatten, hint]

theorem writev_exact_three :
    writev [.eintr, .wrote 1, .wrote 4] [[1, 2], [3], [4, 5]] [] = some (5, [1, 2, 3, 4, 5]) := by
  refine (@writev_exact _ [] [2, 1, 2] (by decide)).mpr ⟨fun n ns h => ?_, by decide⟩ _ rfl
  obtain ⟨rfl, rfl⟩ := cons.inj h
  exact .inr ⟨by decide, by decide, .inl rfl⟩

/-- After a write that ends in the second buffer the first one is written again, and a total of 2 GB is returned as a
negative number. -/
theorem writev_repeats : writev [.wrote 3, .wrote 1] [[1, 2], [3, 4]] [] = some (4, [1, 2, 3, 1]) ∧
    (writev [.wrote (2 ^ 30), .wrote (2 ^ 30)] [List.replicate (2 ^ 31) 0] []).map Prod.fst = some (-2 ^ 31) := by
  refine ⟨by decide, ?_⟩
  have hlen : (List.replicate (2 ^ 31) (0 : UInt8)).length = 2 ^ 31 := length_replicate
  have hne : List.replicate (2 ^ 31) (0 : UInt8) ≠ [] := by
    rw [ne_eq, replicate_eq_nil_iff]
    decide
  have hwhole : Whole [.wrote (2 ^ 30), .wrote (2 ^ 30)] (List.replicate (2 ^ 31) (0 : UInt8)).length
      ([] : List (List UInt8)).flatten.length := by
    rw [hlen]
    exact .inr ⟨by decide, by decide, .inl (by decide)⟩
  rw [writev, writevLoop_whole hne (fun _ h => absurd h not_mem_nil) hwhole, flatten_cons, flatten_nil,
    append_nil, hlen]
  rfl

theorem writeToStreamSoc_whole (hks : Whole ks q.writeSerial.length q.nonserialBuf.length) :
    writeToStreamSoc q ks stream =
      some (((q.writeSerial ++ q.nonserialBuf).length : ℤ), stream ++ (q.writeSerial ++ q.nonserialBuf)) := by
  have hne : q.writeSerial ≠ [] := by simp [Request.writeSerial, Hdr.toBytes]
  have hloop : writevLoop ks [] (iovecs q) 0 stream =
      some (((q.writeSerial ++ q.nonserialBuf).length : ℤ), stream ++ (q.writeSerial ++ q.nonserialBuf)) := by
    rw [iovecs]
    split
    · rename_i hpos
      have hks' : Whole ks q.writeSerial.length [q.nonserialBuf].flatten.length := by simpa using hks
      rw [writevLoop_whole hne (by simpa using length_pos_iff.mp hpos) hks']
      simp
    · rename_i hzero
      have hnil : q.nonserialBuf = [] := length_eq_zero_iff.mp (by omega)
      have hks' : Whole ks q.writeSerial.length ([] : List (List UInt8)).flatten.length := by simpa [hnil] using hks
      rw [writevLoop_whole hne (by simp) hks', hnil]
      simp
  have hpos : 0 < q.writeSerial.length := length_pos_iff.mpr hne
  simp only [writeToStreamSoc, hloop, bind_eq_bind, bind_some, length_append]
  rw [if_neg (by omega), if_pos trivial]
  rfl

def Request.Fits (q : Request) : Prop := q.serialPld.length + q.nonserialBuf.length < 2 ^ 16

instance (q : Request) : Decidable q.Fits := inferInstanceAs (Decidable (_ < _))

theorem toNat_pldLenV (h : q.Fits) : q.pldLenV.toNat = q.serialPld.length + q.nonserialBuf.length :=
  UInt16.toNat_ofNat_of_lt' h

theorem recvBytes_append {bs : List UInt8} (hbs : bs ≠ []) {n : ℕ} (hn : bs.length = n) :
    recvBytes (bs ++ rest) n n = some (bs, rest) := by
  subst hn
  rw [recvBytes, if_pos ⟨le_rfl, by simp, fun h0 => absurd (length_eq_zero_iff.mp h0) hbs⟩]
  simp

theorem recvBytes_hdr (q : Request) (rest : List UInt8) :
    recvBytes (q.writeSerial ++ q.nonserialBuf ++ rest) CLIENT_MSG_HDR_LEN CLIENT_MSG_HDR_LEN =
      some (Hdr.toBytes ⟨CLIENT_MSG_VERSION, q.type.toByte, q.pldLenV⟩, q.serialPld ++ q.nonserialBuf ++ rest) := by
  rw [Request.writeSerial, append_assoc, append_assoc, ← append_assoc q.serialPld]
  exact recvBytes_append (by simp [Hdr.toBytes]) (Hdr.length_toBytes _)

theorem clientMsgRead_request (h : q.Fits) :
    clientMsgRead (q.writeSerial ++ q.nonserialBuf ++ rest) (.got CLIENT_MSG_HDR_LEN)
      (.got (q.serialPld.length + q.nonserialBuf.length)) =
        some (.msg q.type q.pldLenV (q.serialPld ++ q.nonserialBuf), rest) := by
  have hlen := length_serialPld q
  have hval := toNat_pldLenV h
  have hpos : 0 < q.serialPld.length := by
    cases q <;> simp [Request.serialPld, Request.fields]
  have hnonzero : q.pldLenV ≠ 0 := fun h0 => by
    rw [h0] at hval
    have hzero : (0 : UInt16).toNat = 0 := rfl
    omega
  have hpld : recvBytes (q.serialPld ++ q.nonserialBuf ++ rest) q.pldLenV.toNat
      (q.serialPld.length + q.nonserialBuf.length) = some (q.serialPld ++ q.nonserialBuf, rest) := by
    rw [hval]
    exact recvBytes_append (fun h0 => by simp [length_pos_iff.mp hpos] at h0) (by simp)
  simp only [clientMsgRead, recvBytes_hdr, bind_eq_bind, bind_some, Hdr.ofBytes_toBytes, MsgType.ofByte_toByte]
  rw [if_neg (by decide), if_neg (by omega), if_neg (by omega), if_neg hnonzero]
  simp only [readPayload, hpld, bind_eq_bind, bind_some]
  rw [if_neg (by omega)]
  rfl

theorem decodes_request (h : q.Fits) : Decodes q (.msg q.type q.pldLenV (q.serialPld ++ q.nonserialBuf)) := by
  refine ⟨rfl, ?_, ?_, ?_⟩
  · rw [toNat_pldLenV h, length_append]
  · rw [toNat_pldLenV h, length_append]
  · cases q with
    | send r =>
      have hlen : (Request.send r).serialPld.length = sendWidths.sum := by
        rw [Request.serialPld, length_flatten, widths_send]
      have hsplit : split sendWidths ((Request.send r).serialPld ++ (Request.send r).nonserialBuf) =
          (Request.send r).fields := split_flatten_append (widths_send r) _
      have hdata : ((Request.send r).serialPld ++ (Request.send r).nonserialBuf).drop sendWidths.sum = r.nsbuf := by
        rw [← hlen, drop_left]
        rfl
      have hcount : leNat (leBytes 2 r.nsbuf.length) = r.nsbuf.length := by
        rw [leNat_leBytes]
        exact Nat.mod_eq_of_lt r.small
      simp [ClientMsgSendReq.ofPayload, ClientMsgSendReq.ofFields, hsplit, hdata, hcount, Request.fields, toVec_toList]
    | recv r =>
      have hsplit : split recvWidths ((Request.recv r).serialPld ++ (Request.recv r).nonserialBuf) =
          (Request.recv r).fields := by
        rw [Request.nonserialBuf, append_nil]
        exact split_flatten_of_widths (widths_recv r)
      simp [ClientMsgRecvReq.ofPayload, hsplit, Request.fields]

/-! ## Sequences of requests -/

def writeAll : List (Request × List WriteAnswer) → List UInt8 → Option (List UInt8)
  | [], stream => some stream
  | (q, ks) :: reqs, stream => do
    let (n, stream) ← writeToStreamSoc q ks stream
    if 0 < n then writeAll reqs stream else none

def readAll : List (RecvAnswer × RecvAnswer) → List UInt8 → Option (List ReadResult × List UInt8)
  | [], stream => some ([], stream)
  | (first, second) :: answers, stream => do
    let (result, stream) ← clientMsgRead stream first second
    let (results, stream) ← readAll answers stream
    return (result :: results, stream)

def fullReads (q : Request) : RecvAnswer × RecvAnswer :=
  (.got CLIENT_MSG_HDR_LEN, .got (q.serialPld.length + q.nonserialBuf.length))

theorem writeAll_whole {reqs : List (Request × List WriteAnswer)}
    (hwrites : ∀ p ∈ reqs, Whole p.2 p.1.writeSerial.length p.1.nonserialBuf.length) :
    writeAll reqs stream = some (stream ++ reqs.flatMap fun p => p.1.writeSerial ++ p.1.nonserialBuf) := by
  induction reqs generalizing stream with
  | nil => simp [writeAll]
  | cons p reqs ih =>
    rw [forall_mem_cons] at hwrites
    have hpos : (0 : ℤ) < (p.1.writeSerial ++ p.1.nonserialBuf).length := by
      simp [Request.writeSerial, Hdr.toBytes]
      omega
    simp only [writeAll, writeToStreamSoc_whole hwrites.1, bind_eq_bind, bind_some, if_pos hpos,
      ih hwrites.2, flatMap_cons, append_assoc]

/-- The requests are decoded to the same sequence, and the reader is left behind the last, if their payloads fit the
length field, partial writes end in the first vector, and reads are not split. -/
theorem requests_round_trip (reqs : List (Request × List WriteAnswer)) (hfits : ∀ p ∈ reqs, p.1.Fits)
    (hwrites : ∀ p ∈ reqs, Whole p.2 p.1.writeSerial.length p.1.nonserialBuf.length) :
    ∃ stream results, writeAll reqs [] = some stream ∧ List.Forall₂ (fun p r => Decodes p.1 r) reqs results ∧
      ∀ rest, readAll (reqs.map fun p => fullReads p.1) (stream ++ rest) = some (results, rest) := by
  refine ⟨reqs.flatMap fun p => p.1.writeSerial ++ p.1.nonserialBuf,
    reqs.map fun p => .msg p.1.type p.1.pldLenV (p.1.serialPld ++ p.1.nonserialBuf), ?_, ?_, fun rest => ?_⟩
  · rw [writeAll_whole hwrites, nil_append]
  · rw [forall₂_map_right_iff, forall₂_same]
    exact fun p hp => decodes_request (hfits p hp)
  · clear hwrites
    induction reqs with
    | nil => rfl
    | cons p reqs ih =>
      rw [forall_mem_cons] at hfits
      simp only [map_cons, flatMap_cons, append_assoc, fullReads, readAll]
      rw [← append_assoc p.1.writeSerial, clientMsgRead_request hfits.1]
      simp only [bind_eq_bind, bind_some]
      rw [show readAll (reqs.map fun p => (.got CLIENT_MSG_HDR_LEN,
        .got (p.1.serialPld.length + p.1.nonserialBuf.length)))
        _ = _ from ih hfits.2]
      rfl

namespace Sample

def small : SendReq := ⟨false, List.Vector.replicate 32 7, 0, 0, [9, 8], by decide⟩

def large : SendReq := ⟨false, List.Vector.replicate 32 7, 0, 0,
    List.replicate 65493 0, by rw [length_replicate]; decide⟩

def two : List (Request × List WriteAnswer) :=
  [(.send small, [.eintr, .wrote 5, .wrote 44]), (.recv ⟨100, 0⟩, [.wrote 10])]

end Sample

open Sample in
theorem requests_round_trip_two : ∃ stream results, writeAll two [] = some stream ∧
    List.Forall₂ (fun p r => Decodes p.1 r) two results ∧
    readAll (two.map fun p => fullReads p.1) (stream ++ [7]) = some (results, [7]) := by
  obtain ⟨stream, results, hwrite, hdecodes, hread⟩ := requests_round_trip two (by decide) (by
    simp only [two, forall_mem_cons, not_mem_nil, false_implies, implies_true, and_true]
    exact ⟨.inr ⟨by decide, by decide, .inl (by decide)⟩, .inl (by decide)⟩)
  exact ⟨stream, results, hwrite, hdecodes, hread [7]⟩

open Sample in
/-- A write that stops after the first of the two bytes is followed by the first byte of the header; a header that is
read in two parts is an error; and so is a request whose length does not fit. -/
theorem request_not_decoded : ((writeToStreamSoc (.send small) [.wrote 48, .wrote 1] []).bind fun w =>
      (clientMsgRead w.2 (.got 4) (.got 45)).map fun r => (w.1, r.2, match r.1 with
        | .msg _ _ payload => (ClientMsgSendReq.ofPayload payload).data
        | _ => [])) = some (49, [], [9, 1]) ∧
      (clientMsgRead (Request.send small).writeSerial (.got 2) (.got 45)).map Prod.fst = some .error ∧
      ∀ second, (clientMsgRead ((Request.send large).writeSerial ++ large.nsbuf) (.got 4) second).map Prod.fst =
        some .error := by
  refine ⟨by decide +kernel, by decide +kernel, fun second => ?_⟩
  have hlen : (Request.send large).pldLenV = 0 := by
    have hser := length_serialPld (.send large)
    have hfour : (Request.send large).type.len = 47 := rfl
    have hsum : (Request.send large).serialPld.length + (Request.send large).nonserialBuf.length = 65536 := by
      have hbuf : (Request.send large).nonserialBuf.length = 65493 := length_replicate
      have hhdr : CLIENT_MSG_HDR_LEN = 4 := rfl
      omega
    rw [Request.pldLenV, hsum]
    rfl
  have hread := recvBytes_hdr (.send large) []
  rw [append_nil] at hread
  have hread' : recvBytes ((Request.send large).writeSerial ++ large.nsbuf) CLIENT_MSG_HDR_LEN 4 = _ := hread
  simp only [clientMsgRead, hread', hlen]
  rfl

end ClientRequest
