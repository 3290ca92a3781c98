import Serval.SalHeader

/-! # The format of a SAL header

What lies behind the base header is a sequence of extensions, one behind the other. The
parser accepts the headers that are such a sequence, and the builders write one.
-/
namespace SalFormat

open ByteMemory SalHeader List OnesComplement

/-- A well-formed extension: PAD is one byte, the others state their length. -/
structure Ext where
  type : ExtType
  bytes : List UInt8
  hasType : bytes.head?.bind extType = some type
  hasLength : if type = .pad then bytes.length = 1 else (bytes.getD 1 0).toNat = bytes.length
  min : minExtLength type ≤ bytes.length
  addrs : type = .source → 2 ≤ numAddrs bytes.length

namespace Ext

def flags (e : Ext) : UInt16 := controlFlags (e.bytes.getD 2 0)
def verno (e : Ext) : UInt32 := word32 ((e.bytes.drop 4).take 4)
def ackno (e : Ext) : UInt32 := word32 ((e.bytes.drop 8).take 4)
def nonce (e : Ext) : List UInt8 := (e.bytes.drop 12).take 8

def srvid (e : Ext) : List UInt8 := (e.bytes.drop 4).take 32

def sources (e : Ext) : List (List UInt8) :=
  (List.range (numAddrs e.bytes.length)).map fun i => (e.bytes.drop (4 + 4 * i)).take 4

theorem pos (e : Ext) : 0 < e.bytes.length := by
  have h := e.min
  cases ht : e.type <;> simp only [ht, minExtLength] at h <;> omega

end Ext

def encode (exts : List Ext) : List UInt8 := exts.flatMap (·.bytes)

@[simp] theorem encode_nil : encode [] = [] := rfl

@[simp] theorem encode_cons (e : Ext) (exts : List Ext) : encode (e :: exts) = e.bytes ++ encode exts := rfl

@[simp] theorem encode_append (l r : List Ext) : encode (l ++ r) = encode l ++ encode r :=
  flatMap_append

def ofType (type : ExtType) (e : Ext) : Bool := e.type == type

structure Room (exts : List Ext) : Prop where
  control : exts.countP (ofType .control) ≤ 1
  service : exts.countP (ofType .service) ≤ 2
  source : exts.countP (ofType .source) ≤ 1

theorem Room.left {l r : List Ext} (h : Room (l ++ r)) : Room l := by
  obtain ⟨hc, hv, hs⟩ := h
  rw [countP_append] at hc hv hs
  exact ⟨by omega, by omega, by omega⟩

structure Permitted (exts : List Ext) : Prop extends Room exts where
  number : exts.length ≤ MAX_NUM_SAL_EXTENSIONS

structure Contains (m : Mem) (sh : ℕ) (exts : List Ext) : Prop where
  length : hdrLength m sh = SAL_HEADER_LEN + (encode exts).length
  body : read m (sh + SAL_HEADER_LEN) (encode exts).length = encode exts
  permitted : Permitted exts

def place (a : ℕ) : List Ext → List (ℕ × Ext)
  | [] => []
  | e :: exts => (a, e) :: place (a + e.bytes.length) exts

def found (type : ExtType) (a : ℕ) (exts : List Ext) : List (ℕ × Ext) :=
  (place a exts).filter fun x => ofType type x.2

structure Describes (ctx : SalContext) (sh : ℕ) (exts : List Ext) : Prop where
  hdr : ctx.hdr = sh
  ext : ctx.ext = (place (sh + SAL_HEADER_LEN) exts).map (·.1)
  ctrlExt : ctx.ctrlExt = (found .control (sh + SAL_HEADER_LEN) exts)[0]?.map (·.1)
  srvExt0 : ctx.srvExt0 = (found .service (sh + SAL_HEADER_LEN) exts)[0]?.map (·.1)
  srvExt1 : ctx.srvExt1 = (found .service (sh + SAL_HEADER_LEN) exts)[1]?.map (·.1)
  srcExt : ctx.srcExt = (found .source (sh + SAL_HEADER_LEN) exts)[0]?.map (·.1)
  addrExt : ctx.addrExt = none
  flags : ctx.flags = ((found .control (sh + SAL_HEADER_LEN) exts)[0]?.map (·.2.flags)).getD 0
  verno : ctx.verno = ((found .control (sh + SAL_HEADER_LEN) exts)[0]?.map (·.2.verno)).getD 0
  ackno : ctx.ackno = ((found .control (sh + SAL_HEADER_LEN) exts)[0]?.map (·.2.ackno)).getD 0

section

variable (type : ExtType) (a : ℕ) (exts l r : List Ext)

@[simp] theorem length_place : (place a exts).length = exts.length := by
  induction exts generalizing a with
  | nil => rfl
  | cons e exts ih => simp [place, ih]

theorem place_append : place a (l ++ r) = place a l ++ place (a + (encode l).length) r := by
  induction l generalizing a with
  | nil => rfl
  | cons e l ih => simp [place, ih, add_assoc]

theorem found_append : found type a (l ++ r) = found type a l ++ found type (a + (encode l).length) r := by
  rw [found, place_append, filter_append]
  rfl

theorem length_found : (found type a exts).length = exts.countP (ofType type) := by
  induction exts generalizing a with
  | nil => rfl
  | cons e exts ih =>
    have hrest := ih (a + e.bytes.length)
    rw [found] at hrest
    rw [found, place, filter_cons, countP_cons]
    split
    · rw [length_cons, hrest]
    · rw [hrest, add_zero]

end

variable {exts : List Ext}

theorem place_inside {m : Mem} {a : ℕ}
    (h : read m a (encode exts).length = encode exts) {b : ℕ} {e : Ext} (hm : (b, e) ∈ place a exts) :
    a ≤ b ∧ b + e.bytes.length ≤ a + (encode exts).length ∧ read m b e.bytes.length = e.bytes := by
  induction exts generalizing a with
  | nil => simp [place] at hm
  | cons x exts ih =>
    rw [encode_cons] at h
    obtain ⟨hx, hrest⟩ := read_eq_append h
    rw [place, mem_cons] at hm
    rw [encode_cons, length_append]
    rcases hm with heq | hm
    · cases heq
      exact ⟨le_refl _, by omega, hx⟩
    · obtain ⟨h1, h2, h3⟩ := ih hrest hm
      exact ⟨by omega, by omega, h3⟩

theorem contains_of_parts {m m' : Mem} {sh sh' : ℕ} (h : Contains m sh exts)
    (hshl : read m' (sh' + 8) 1 = read m (sh + 8) 1) (hbody : read m' (sh' + SAL_HEADER_LEN) (encode exts).length =
      read m (sh + SAL_HEADER_LEN) (encode exts).length) : Contains m' sh' exts := by
  refine ⟨?_, hbody.trans h.body, h.permitted⟩
  simp only [read_succ, read_zero, cons.injEq, and_true] at hshl
  rw [← h.length, hdrLength, hdrLength, shl, shl, hshl]

theorem contains_congr {m m' : Mem} {sh sh' : ℕ} (h : Contains m sh exts)
    (hread : read m' sh' (hdrLength m sh) = read m sh (hdrLength m sh)) : Contains m' sh' exts := by
  have hlen := h.length
  apply contains_of_parts h
  · apply slice_congr hread
    simp only [SAL_HEADER_LEN] at hlen
    omega
  · exact slice_congr hread hlen.ge

section SendCheck

variable {m : Mem} {sh : ℕ}

theorem read_sendCheck (m : Mem) {sh a n : ℕ} (h : a + n ≤ sh + 10 ∨ sh + 12 ≤ a) :
    read (servalSalSendCheck m sh) a n = read m a n := by
  rw [servalSalSendCheck, read_write_disjoint, read_write_disjoint]
  · simpa using h
  · simpa using h

theorem byte_sendCheck (m : Mem) {sh b : ℕ} (h : b < sh + 10 ∨ sh + 12 ≤ b) : servalSalSendCheck m sh b = m b := by
  have hread : read (servalSalSendCheck m sh) b 1 = read m b 1 := read_sendCheck m (by omega)
  simpa [read_succ] using hread

theorem hdrLength_sendCheck : hdrLength (servalSalSendCheck m sh) sh = hdrLength m sh := by
  rw [hdrLength, hdrLength, shl, shl, byte_sendCheck m (.inl (by omega))]

theorem csum_sendCheck (h : SAL_HEADER_LEN ≤ hdrLength m sh) :
    servalSalCsum (servalSalSendCheck m sh) sh (hdrLength (servalSalSendCheck m sh) sh) = 0 := by
  obtain ⟨k, hk⟩ := Nat.exists_eq_add_of_le h
  have hzero : hdrLength (write m (sh + 10) (bytes 0)) sh = 10 + 2 + k := by
    rw [hdrLength, shl, write_of_notMem (.inl (by omega))]
    exact hk
  have hsplit : ∀ (m : Mem) (w : UInt16), read (write m (sh + 10) (bytes w)) sh
      (10 + 2 + k) = read m sh 10 ++ bytes w ++ read m (sh + 12) k :=
    fun m w => read_write_within m sh 10 (bytes w) k
  have houter : ∀ w : UInt16, read (write m (sh + 10) (bytes w)) sh 10 = read m sh 10 ∧
      read (write m (sh + 10) (bytes w)) (sh + 12) k = read m (sh + 12) k :=
    fun w => ⟨read_write_disjoint _ _ (.inl (le_refl _)), read_write_disjoint _ _ (.inr (le_refl _))⟩
  rw [hdrLength_sendCheck, show hdrLength m sh = 10 + 2 + k from hk, servalSalCsum, servalSalSendCheck,
    hsplit, (houter 0).1, (houter 0).2, servalSalCsum, hzero, hsplit]
  exact checksum_stored (by rw [length_read]; decide) _

theorem contains_sendCheck (h : Contains m sh exts) : Contains (servalSalSendCheck m sh) sh exts := by
  refine ⟨by rw [hdrLength_sendCheck, h.length], ?_, h.permitted⟩
  exact (read_sendCheck m (.inr (le_refl (sh + 12)))).trans h.body

end SendCheck

end SalFormat
