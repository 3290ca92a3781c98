import Serval.SalSourceExt

/-! # The header that carries one address more

The lengths of the extension and of the header are bytes, and the parser reads ten extensions at most, so
there is a condition on the packet.
-/
namespace SalSourceSpec

open ByteMemory SkBuff SalHeader SalFormat SalParse SalBuild SalSourceExt List Option

section Extensions

theorem slice_middle {l x r : List UInt8} {a n : ℕ} (hl : l.length = a) (hx : x.length = n) :
    ((l ++ x ++ r).drop a).take n = x := by
  rw [append_assoc, drop_left' hl, take_left' hx]

theorem slice_left {l r : List UInt8} {a n : ℕ} (h : a + n ≤ l.length) :
    ((l ++ r).drop a).take n = (l.drop a).take n := by
  rw [drop_append_of_le_length (by omega), take_append_of_le_length (by rw [length_drop]; omega)]

def newSource (b res₀ res₁ : UInt8) {s d : List UInt8} (hs : s.length = 4) (hd : d.length = 4) : Ext where
  type := .source
  bytes := [setExtType .source b, 12, res₀, res₁] ++ s ++ d
  hasType := extType_setExtType .source b
  hasLength := by simp [hs, hd]
  min := by simp [hs, hd, minExtLength]
  addrs := fun _ => by simp [hs, hd, numAddrs]

theorem newSource_sources (b res₀ res₁ : UInt8) {s d : List UInt8} (hs : s.length = 4)
    (hd : d.length = 4) : (newSource b res₀ res₁ hs hd).sources = [s, d] := by
  have htwo : numAddrs (newSource b res₀ res₁ hs hd).bytes.length = 2 := by
    simp [newSource, hs, hd, numAddrs]
  have hfirst : ((newSource b res₀ res₁ hs hd).bytes.drop 4).take 4 = s := slice_middle rfl hs
  have hsecond : ((newSource b res₀ res₁ hs hd).bytes.drop 8).take 4 = d := by
    have h := slice_middle (l := [setExtType .source b, 12, res₀, res₁] ++ s) (r := []) (a := 8)
      (by simp [hs]) hd
    rwa [append_nil] at h
  rw [Ext.sources, htwo]
  simp [range_succ, hfirst, hsecond]

def addrsEnd (e : Ext) : ℕ := 4 + 4 * numAddrs e.bytes.length

theorem addrsEnd_le {e : Ext} (ht : e.type = .source) : 12 ≤ addrsEnd e ∧ addrsEnd e ≤ e.bytes.length := by
  have h := e.addrs ht
  simp only [addrsEnd, numAddrs] at h ⊢
  omega

def grownHead (e : Ext) : List UInt8 :=
  setExtType .source (e.bytes.getD 0 0) :: UInt8.ofNat (e.bytes.length + 4) :: (e.bytes.take (addrsEnd e)).drop 2

def grownBytes (e : Ext) (d : List UInt8) : List UInt8 :=
  grownHead e ++ d ++ e.bytes.drop (addrsEnd e)

theorem length_grownHead {e : Ext} (ht : e.type = .source) : (grownHead e).length = addrsEnd e := by
  have h := addrsEnd_le ht
  simp only [grownHead, length_cons, length_drop, length_take]
  omega

theorem length_grownBytes {e : Ext} {d : List UInt8} (hd : d.length = 4) (ht : e.type = .source) :
    (grownBytes e d).length = e.bytes.length + 4 := by
  have h := addrsEnd_le ht
  rw [grownBytes, length_append, length_append, length_grownHead ht, length_drop, hd]
  omega

def grownSource (e : Ext) {d : List UInt8} (hd : d.length = 4) (ht : e.type = .source)
    (hfit : e.bytes.length + 4 ≤ 255) : Ext where
  type := .source
  bytes := grownBytes e d
  hasType := extType_setExtType .source _
  hasLength := by
    rw [if_neg (by decide), length_grownBytes hd ht]
    exact Nat.mod_eq_of_lt (by omega)
  min := by
    rw [length_grownBytes hd ht]
    exact Nat.le_add_left 4 _
  addrs := fun _ => by
    have h := e.addrs ht
    rw [length_grownBytes hd ht]
    simp only [numAddrs] at h ⊢
    omega

theorem grownSource_sources (e : Ext) {d : List UInt8} (hd : d.length = 4) (ht : e.type = .source)
    (hfit : e.bytes.length + 4 ≤ 255) : (grownSource e hd ht hfit).sources = e.sources ++ [d] := by
  have h := addrsEnd_le ht
  have hnum : numAddrs (grownSource e hd ht hfit).bytes.length = numAddrs e.bytes.length + 1 := by
    have := length_grownBytes hd ht
    simp only [grownSource, this, numAddrs]
    omega
  rw [Ext.sources, hnum, range_succ, map_append, Ext.sources]
  congr 1
  · apply map_congr_left
    intro i hi
    rw [mem_range] at hi
    have hin : 4 + 4 * i + 4 ≤ addrsEnd e := by rw [addrsEnd]; omega
    calc ((grownHead e ++ d ++ e.bytes.drop (addrsEnd e)).drop (4 + 4 * i)).take 4
        = ((grownHead e).drop (4 + 4 * i)).take 4 := by
          rw [append_assoc, slice_left (by rw [length_grownHead ht]; exact hin)]
      _ = ((e.bytes.take (addrsEnd e)).drop (4 + 4 * i)).take 4 := by
          rw [show 4 + 4 * i = 2 + 4 * i + 1 + 1 by omega, grownHead, drop_succ_cons,
            drop_succ_cons, drop_drop, add_comm 2 (2 + 4 * i)]
      _ = (e.bytes.drop (4 + 4 * i)).take 4 := by
          rw [drop_take, take_take, Nat.min_eq_left (by omega)]
  · rw [map_singleton]
    exact congrArg (fun x => [x]) (slice_middle (length_grownHead ht) hd)

end Extensions

section Writes

variable {m : Mem} {iph sh a k len : ℕ} {ctx : SalContext}

def MAX_HDR_LENGTH : ℕ := 255 <<< 2

theorem read_setLength (h : a + k ≤ sh + 8 ∨ sh + 12 ≤ a) : read (setLength m sh len) a k = read m a k := by
  rw [setLength, read_write_disjoint, read_write_disjoint]
  · simpa [OnesComplement.bytes] using Or.imp_left (fun h => by omega) h
  · simp only [length_cons, length_nil]
    omega

theorem protocol_setLength : protocol (setLength m sh len) sh = protocol m sh := by
  rw [protocol, setLength, write_of_notMem (.inr (le_refl (sh + 9))),
    write_of_notMem (.inl (Nat.lt_succ_self (sh + 9))), protocol]

theorem hdrLength_setLength_mod : hdrLength (setLength m sh len) sh = len / 4 % 256 * 4 := by
  have hbyte : shl (setLength m sh len) sh = UInt8.ofNat (len >>> 2) :=
    write_of_mem (show 0 < [UInt8.ofNat (len >>> 2)].length from Nat.one_pos)
  rw [hdrLength, hbyte, Nat.shiftLeft_eq, Nat.shiftRight_eq_div_pow, UInt8.toNat_ofNat']

theorem hdrLength_setLength (hmax : len ≤ MAX_HDR_LENGTH) (hwords : 4 ∣ len) :
    hdrLength (setLength m sh len) sh = len := by
  have hmax : len ≤ 1020 := hmax
  rw [hdrLength_setLength_mod]
  omega

theorem addrs_write {bs : List UInt8} (h : iph + 20 ≤ a) :
    saddr (write m a bs) iph = saddr m iph ∧ daddr (write m a bs) iph = daddr m iph :=
  ⟨read_write_disjoint _ _ (.inl (by omega)), read_write_disjoint _ _ (.inl (by omega))⟩

theorem fillSource_new (m : Mem) {iph sh : ℕ} (hfar : iph + 20 ≤ sh) (hsrc : ctx.srcExt = none) :
    (∀ a k, a + k ≤ sh + ctx.length ∨ sh + ctx.length + 12 ≤ a → read (fillSource m iph sh ctx 12) a k = read m a k) ∧
    ∃ e : Ext, e.type = .source ∧ e.bytes.length = 12 ∧ e.sources = [saddr m iph, daddr m iph] ∧
      read (fillSource m iph sh ctx 12) (sh + ctx.length) 12 = e.bytes := by
  obtain ⟨x, hx⟩ : ∃ x, x = sh + ctx.length := ⟨_, rfl⟩
  have hfill : fillSource m iph sh ctx 12 =
      write (write (write m x [setExtType .source (m x), 12]) (x + 4) (saddr m iph)) (x + 8)
        (daddr m iph) := by
    simp only [fillSource, hsrc, getAddr, ← hx]
    rw [(addrs_write (by omega)).1, (addrs_write (by omega)).2, (addrs_write (by omega)).2]
    rfl
  rw [← hx, hfill]
  constructor
  · intro a k h
    rw [read_write_disjoint, read_write_disjoint, read_write_disjoint] <;>
      simp [saddr, daddr] <;> omega
  · have hs : (saddr m iph).length = 4 := length_read ..
    have hd : (daddr m iph).length = 4 := length_read ..
    have hlast := read_write_end (write (write m x [setExtType .source (m x), 12]) (x + 4)
      (saddr m iph)) x 8 (daddr m iph)
    have hfirst := read_write_end (write m x [setExtType .source (m x), 12]) x 4 (saddr m iph)
    have hhead : read (write m x [setExtType .source (m x), 12]) x 4 =
        [setExtType .source (m x), 12, m (x + 2), m (x + 3)] := read_write_start m x [_, _] 2
    rw [hd] at hlast
    rw [hs] at hfirst
    refine ⟨newSource (m x) (m (x + 2)) (m (x + 3)) hs hd, rfl, ?_, newSource_sources _ _ _ hs hd, ?_⟩
    · simp [newSource, hs, hd]
    · rw [hlast, hfirst, hhead]
      rfl

theorem fillSource_grown {src : ℕ} {e : Ext} (hfar : iph + 20 ≤ sh) (hsrc : ctx.srcExt = some src)
    (ht : e.type = .source) (hfit : e.bytes.length + 4 ≤ 255) {x : ℕ} (hx : x = sh + (src - ctx.hdr))
    (he : read m x (addrsEnd e) = e.bytes.take (addrsEnd e)) :
    (∀ a k, a + k ≤ x ∨ x + addrsEnd e + 4 ≤ a → read (fillSource m iph sh ctx (e.bytes.length + 4)) a k = read m a k) ∧
    read (fillSource m iph sh ctx (e.bytes.length + 4)) x (addrsEnd e + 4) = grownHead e ++ daddr m iph := by
  have hends := addrsEnd_le ht
  obtain ⟨n, hn⟩ : ∃ n, addrsEnd e = n + 2 := Nat.exists_eq_add_of_le' (by omega)
  have hparts : e.bytes.take (addrsEnd e) = m x :: m (x + 1) :: read m (x + 2) n := by
    rw [← he, hn, read_succ, read_succ]
  have htype : e.bytes.getD 0 0 = m x := by
    rw [getD_eq_getElem?_getD, ← getElem?_take_of_lt (show 0 < addrsEnd e by omega), hparts]
    rfl
  have hfill : fillSource m iph sh ctx (e.bytes.length + 4) =
      write (write m x [setExtType .source (m x), UInt8.ofNat (e.bytes.length + 4)])
        (x + addrsEnd e) (daddr m iph) := by
    have hlen : extLength (write m x [setExtType .source (m x), UInt8.ofNat (e.bytes.length + 4)]) x =
        e.bytes.length + 4 := by
      rw [extLength, write_of_mem (Nat.lt_succ_self 1)]
      exact Nat.mod_eq_of_lt (by omega)
    simp only [fillSource, hsrc, ← hx]
    rw [(addrs_write (by omega)).2, hlen, getLastAddr, if_neg (by omega)]
    congr 1
    rw [addrsEnd]
    simp only [addrsEnd, numAddrs] at hends ⊢
    omega
  have hd : (daddr m iph).length = 4 := length_read ..
  rw [hfill]
  constructor
  · intro a k h
    rw [read_write_disjoint, read_write_disjoint] <;> simp [daddr] <;> omega
  · have hlast := read_write_end (write m x [setExtType .source (m x),
      UInt8.ofNat (e.bytes.length + 4)]) x (addrsEnd e) (daddr m iph)
    have hstart := read_write_start m x [setExtType .source (m x), UInt8.ofNat (e.bytes.length + 4)] n
    rw [hd] at hlast
    rw [hlast, grownHead, hparts, htype, hn, add_comm n 2]
    exact congrArg (· ++ daddr m iph) hstart

end Writes

section Lists

variable {exts pre post : List Ext} {e : Ext} {ctx : SalContext} {sh src : ℕ}

def sourceList (exts : List Ext) : Option (List (List UInt8)) :=
  (exts.find? (ofType .source)).map Ext.sources

def others (exts : List Ext) : List (List UInt8) :=
  (exts.filter fun e => !ofType .source e).map (·.bytes)

def Sourceless (exts : List Ext) : Prop := exts.countP (ofType .source) = 0

theorem Sourceless.find (h : Sourceless exts) : exts.find? (ofType .source) = none := by
  rw [Sourceless, countP_eq_zero] at h
  exact find?_eq_none.mpr h

theorem Sourceless.sourceList (h : Sourceless exts) : sourceList exts = none := by
  rw [SalSourceSpec.sourceList, h.find, map_none]

theorem ofType_source (ht : e.type = .source) : ofType .source e = true := by
  simp [ofType, ht]

theorem sourceList_middle (hpre : Sourceless pre) (ht : e.type = .source) :
    sourceList (pre ++ e :: post) = some e.sources := by
  rw [sourceList, find?_append, hpre.find, none_or, find?_cons_of_pos (ofType_source ht), map_some]

theorem others_middle (ht : e.type = .source) : others (pre ++ e :: post) = others pre ++ others post := by
  simp [others, filter_append, ofType_source ht]

variable {m : Mem} {e' : Ext} {a : ℕ}

theorem length_others (exts : List Ext) : exts.countP (ofType .source) + (others exts).length = exts.length := by
  rw [others, length_map, ← countP_eq_length_filter, length_eq_countP_add_countP (ofType .source)]
  simp

theorem sourceless_of_describes (h : Describes ctx sh exts) (hsrc : ctx.srcExt = none) : Sourceless exts := by
  rw [h.srcExt, map_eq_none_iff, getElem?_eq_none_iff, Nat.le_zero, length_found] at hsrc
  exact hsrc

theorem source_split (h : Describes ctx sh exts) (hroom : Room exts) (hsrc : ctx.srcExt = some src) :
    ∃ pre e post, exts = pre ++ e :: post ∧ e.type = .source ∧ Sourceless pre ∧ Sourceless post ∧
      src = sh + SAL_HEADER_LEN + (encode pre).length := by
  have hone := hroom.source
  obtain ⟨e, hmem, ht⟩ : ∃ e ∈ exts, ofType .source e = true := by
    rw [← countP_pos_iff, ← length_found .source (sh + SAL_HEADER_LEN), length_pos_iff]
    intro hnil
    rw [h.srcExt, hnil] at hsrc
    cases hsrc
  have htype : e.type = .source := by simpa [ofType] using ht
  obtain ⟨pre, post, rfl⟩ := append_of_mem hmem
  rw [countP_append, countP_cons_of_pos ht] at hone
  have hpre : Sourceless pre := by rw [Sourceless]; omega
  have hfound : found .source (sh + SAL_HEADER_LEN) pre = [] := by
    rw [← length_eq_zero_iff, length_found, hpre]
  refine ⟨pre, e, post, rfl, htype, hpre, ?_, ?_⟩
  · rw [Sourceless]
    omega
  · rw [h.srcExt, found_append, hfound, nil_append, found, place, filter_cons_of_pos (by exact ht)] at hsrc
    exact (some.inj hsrc).symm

theorem read_middle (h : read m a (encode (pre ++ e :: post)).length = encode (pre ++ e :: post)) :
    read m (a + (encode pre).length) e.bytes.length = e.bytes := by
  rw [encode_append, encode_cons] at h
  exact (read_eq_append (read_eq_append h).2).1

theorem extLength_at (h : read m a e.bytes.length = e.bytes)
    (ht : e.type = .source) : extLength m a = e.bytes.length := by
  have hlen := length_at h
  rw [salExtLen, type_at h, ht, if_neg (by decide)] at hlen
  exact hlen

theorem sources_at (h : read m a e.bytes.length = e.bytes) :
    e.sources = (List.range (numAddrs e.bytes.length)).map fun i => read m (getAddr a i) 4 := by
  apply map_congr_left
  intro i hi
  have hin : 4 + 4 * i + 4 ≤ e.bytes.length := by
    rw [mem_range, numAddrs] at hi
    omega
  have hslice := read_slice m a hin
  rw [h] at hslice
  rw [hslice, getAddr, mul_comm i 4, add_assoc]

theorem check_exists_iff (hcontains : Contains m sh exts) (hdescribes : Describes ctx sh exts) (ipaddr : List UInt8) :
    servalSalSourceExtCheck m ctx ipaddr = .ipExists ↔ ∃ l, sourceList exts = some l ∧ ipaddr ∈ l := by
  cases hsrc : ctx.srcExt with
  | none =>
    have hnone := sourceless_of_describes hdescribes hsrc
    simp [servalSalSourceExtCheck, hsrc, hnone.sourceList]
  | some src =>
    obtain ⟨pre, e, post, rfl, ht, hpre, -, hat⟩ :=
      source_split hdescribes hcontains.permitted.toRoom hsrc
    have hread := read_middle hcontains.body
    rw [← hat] at hread
    rw [sourceList_middle hpre ht, sources_at hread]
    simp [servalSalSourceExtCheck, hsrc, extLength_at hread ht]

theorem permitted_middle (ht : e'.type = e.type) (h : Permitted (pre ++ e :: post)) :
    Permitted (pre ++ e' :: post) := by
  have hcount : ∀ type, (pre ++ e' :: post).countP (ofType type) = (pre ++ e :: post).countP (ofType type) := by
    intro type
    simp [countP_append, countP_cons, ofType, ht]
  obtain ⟨⟨hc, hv, hs⟩, hnum⟩ := h
  exact ⟨⟨by rw [hcount]; exact hc, by rw [hcount]; exact hv, by rw [hcount]; exact hs⟩, by simpa using hnum⟩

theorem permitted_append (ht : e'.type = .source) (h : Permitted exts)
    (hnone : Sourceless exts) (hnum : exts.length < MAX_NUM_SAL_EXTENSIONS) : Permitted (exts ++ [e']) := by
  refine ⟨(room_snoc_iff h.toRoom e').mpr ?_, by rw [length_append]; exact hnum⟩
  rw [ht]
  refine ⟨nofun, nofun, fun _ => ?_⟩
  rw [hnone]
  exact Nat.one_pos

theorem length_sourceList {l : List (List UInt8)} (h : sourceList exts = some l) :
    l.length ≤ 62 ∧ 0 < exts.countP (ofType .source) := by
  rw [sourceList, map_eq_some_iff] at h
  obtain ⟨e, hfind, rfl⟩ := h
  have ht : e.type = .source := by simpa [ofType] using find?_some hfind
  have hlen := e.hasLength
  rw [if_neg (by rw [ht]; decide)] at hlen
  have hbyte := (e.bytes.getD 1 0).toNat_lt
  constructor
  · rw [Ext.sources, length_map, length_range, numAddrs]
    omega
  · exact countP_pos_iff.mpr ⟨e, mem_of_find?_eq_some hfind, find?_some hfind⟩

end Lists

structure Recorded (skb skb' : Skb) (exts exts' : List Ext) (extraLen : ℕ) : Prop where
  contains : Contains skb'.mem skb'.transportHeader exts'
  source : sourceList exts' = some ((sourceList exts).getD [saddr skb.mem skb.networkHeader] ++
    [daddr skb.mem skb.networkHeader])
  others : others exts' = others exts
  length : hdrLength skb'.mem skb'.transportHeader = hdrLength skb.mem skb.transportHeader + extraLen
  flowids : read skb'.mem skb'.transportHeader 8 = read skb.mem skb.transportHeader 8
  protocol : protocol skb'.mem skb'.transportHeader = protocol skb.mem skb.transportHeader
  payload : ∀ k, read skb'.mem
      (skb'.transportHeader + hdrLength skb'.mem skb'.transportHeader) k =
    read skb.mem (skb.transportHeader + hdrLength skb.mem skb.transportHeader) k
  ip : ∀ i k, i + k ≤ skb.transportHeader - skb.networkHeader →
    read skb'.mem (skb'.networkHeader + i) k = read skb.mem (skb.networkHeader + i) k
  transport : skb'.transportHeader = skb'.networkHeader + (skb.transportHeader - skb.networkHeader)
  data : skb'.data = skb'.transportHeader
  len : skb'.len = skb.len + extraLen

section Grow

variable {skb s : Skb} {ctx : SalContext} {exts exts' : List Ext} {off extraLen extLen : ℕ}

def Fills (s : Skb) (ctx : SalContext) (off extraLen extLen : ℕ) : Prop :=
  ∀ a k, a + k ≤ s.transportHeader + SAL_HEADER_LEN ∨ s.transportHeader + extraLen + off ≤ a →
    read (fillSource s.mem s.networkHeader s.transportHeader ctx extLen) a k = read s.mem a k

theorem recorded_of_body (hcontains : Contains skb.mem skb.transportHeader exts)
    (hlen : ctx.length = hdrLength skb.mem skb.transportHeader)
    (hopened : Opened skb s off extraLen) (hfills : Fills s ctx off extraLen extLen)
    (hoff : SAL_HEADER_LEN ≤ off) (hend : off ≤ ctx.length) (hwords : 4 ∣ extraLen)
    (hmax : ctx.length + extraLen ≤ MAX_HDR_LENGTH) (hpermitted : Permitted exts')
    (hsize : (encode exts').length = (encode exts).length + extraLen)
    (hbody : read (fillSource s.mem s.networkHeader s.transportHeader ctx extLen)
      (s.transportHeader + SAL_HEADER_LEN) (encode exts').length = encode exts')
    (hsource : sourceList exts' = some ((sourceList exts).getD [saddr skb.mem skb.networkHeader] ++
      [daddr skb.mem skb.networkHeader])) (hothers : others exts' = others exts) :
    Recorded skb (fillHeader s ctx extraLen extLen) exts exts' extraLen := by
  have hoff' : 12 ≤ off := hoff
  have hfour : 4 ∣ ctx.length := by
    rw [hlen, hdrLength, Nat.shiftLeft_eq]
    exact Nat.dvd_mul_left ..
  have hnew : hdrLength (fillHeader s ctx extraLen extLen).mem s.transportHeader =
      ctx.length + extraLen := hdrLength_setLength hmax (Nat.dvd_add hfour hwords)
  have hread : ∀ a k, a + k ≤ s.transportHeader + 8 ∨ s.transportHeader + extraLen + off ≤ a →
      read (fillHeader s ctx extraLen extLen).mem a k = read s.mem a k := by
    intro a k h
    rw [fillHeader, read_setLength (by omega)]
    exact hfills a k (h.imp_left fun h => by simp only [SAL_HEADER_LEN]; omega)
  constructor
  · refine ⟨?_, ?_, hpermitted⟩
    · exact hnew.trans (by rw [hlen, hcontains.length, hsize, add_assoc])
    · exact (read_setLength (.inr (le_refl _))).trans hbody
  · exact hsource
  · exact hothers
  · rw [← hlen]
    exact hnew
  · exact (hread _ _ (.inl (le_refl _))).trans (hopened.front 0 8 (by omega))
  · have hbyte := (hfills (s.transportHeader + 9) 1 (.inl (Nat.le_add_right _ 2))).trans
      (hopened.front 9 1 (by omega))
    rw [fillHeader, protocol_setLength]
    simpa [protocol, read_succ] using hbyte
  · intro k
    rw [show (fillHeader s ctx extraLen extLen).transportHeader = s.transportHeader from rfl, hnew,
      hread _ _ (.inr (by omega)), ← hlen, ← hopened.back ctx.length k hend]
    congr 1
    omega
  · intro i k hik
    have hto := hopened.transport
    exact (hread _ _ (.inl (by simp only [fillHeader]; omega))).trans (hopened.ip i k hik)
  · exact hopened.transport
  · exact hopened.data
  · exact hopened.len

theorem read_addrs {m : Mem} {a : ℕ} {pre post : List Ext} {e : Ext} (ht : e.type = .source)
    (h : read m a (encode (pre ++ e :: post)).length = encode (pre ++ e :: post)) :
    read m a (encode pre).length = encode pre ∧
      read m (a + (encode pre).length) (addrsEnd e) = e.bytes.take (addrsEnd e) ∧
      read m (a + (encode pre).length + addrsEnd e)
        (e.bytes.drop (addrsEnd e) ++ encode post).length = e.bytes.drop (addrsEnd e) ++ encode post := by
  have hsplit : encode (pre ++ e :: post) =
      encode pre ++ (e.bytes.take (addrsEnd e) ++ (e.bytes.drop (addrsEnd e) ++ encode post)) := by
    rw [encode_append, encode_cons, ← append_assoc (List.take _ _), take_append_drop]
  rw [hsplit] at h
  obtain ⟨hfront, hrest⟩ := read_eq_append h
  obtain ⟨hext, hback⟩ := read_eq_append hrest
  rw [length_take, Nat.min_eq_left (addrsEnd_le ht).2] at hext hback
  exact ⟨hfront, hext, hback⟩

theorem append_fill {src : ℕ} {pre post : List Ext} {e : Ext}
    (hreceived : Received skb) (hsrc : ctx.srcExt = some src) (hhdr : ctx.hdr = skb.transportHeader)
    (hat : src = skb.transportHeader + SAL_HEADER_LEN + (encode pre).length)
    (hd : (daddr skb.mem skb.networkHeader).length = 4) (ht : e.type = .source) (hfit : e.bytes.length + 4 ≤ 255)
    (hbody : read skb.mem (skb.transportHeader + SAL_HEADER_LEN) (encode (pre ++ e :: post)).length =
      encode (pre ++ e :: post)) (hopened : Opened skb s (SAL_HEADER_LEN + (encode pre).length + addrsEnd e) 4) :
    Fills s ctx (SAL_HEADER_LEN + (encode pre).length + addrsEnd e) 4 (e.bytes.length + 4) ∧
    read (fillSource s.mem s.networkHeader s.transportHeader ctx (e.bytes.length + 4))
      (s.transportHeader + SAL_HEADER_LEN) (encode (pre ++ grownSource e hd ht hfit :: post)).length =
        encode (pre ++ grownSource e hd ht hfit :: post) := by
  have hiph := hreceived.iph
  have hto := hopened.transport
  obtain ⟨hfront, hext, hback⟩ := read_addrs ht hbody
  obtain ⟨x, hx⟩ : ∃ x, x = s.transportHeader + SAL_HEADER_LEN + (encode pre).length := ⟨_, rfl⟩
  obtain ⟨hframe, hfill⟩ := fillSource_grown (m := s.mem) (x := x)
    (show s.networkHeader + 20 ≤ s.transportHeader by omega) hsrc ht hfit (by rw [hhdr]; omega) (by
      rw [hx, add_assoc, hopened.front _ _ (le_refl _), ← add_assoc, hext])
  have hdaddr : daddr s.mem s.networkHeader = daddr skb.mem skb.networkHeader :=
    hopened.ip 16 4 (by omega)
  rw [hdaddr] at hfill
  refine ⟨fun a k h => hframe a k (by omega), ?_⟩
  have hnew : encode (pre ++ grownSource e hd ht hfit :: post) = encode pre ++
      ((grownHead e ++ daddr skb.mem skb.networkHeader) ++ (e.bytes.drop (addrsEnd e) ++ encode post)) := by
    simp only [encode_append, encode_cons, grownSource, grownBytes, append_assoc]
  have hkept := (hframe (s.transportHeader + SAL_HEADER_LEN) (encode pre).length (by omega)).trans
    ((hopened.front SAL_HEADER_LEN (encode pre).length (by omega)).trans hfront)
  have hgapEnd : x + (addrsEnd e + 4) = s.transportHeader + 4 +
      (SAL_HEADER_LEN + (encode pre).length + addrsEnd e) := by omega
  have hbehind : read (fillSource s.mem s.networkHeader s.transportHeader ctx (e.bytes.length + 4))
      (x + (addrsEnd e + 4)) (e.bytes.drop (addrsEnd e) ++ encode post).length =
        e.bytes.drop (addrsEnd e) ++ encode post := by
    rw [hframe _ _ (by omega), hgapEnd, hopened.back _ _ (le_refl _), ← add_assoc, ← add_assoc, hback]
  have hgrown : (grownHead e ++ daddr skb.mem skb.networkHeader).length = addrsEnd e + 4 := by
    rw [length_append, length_grownHead ht, hd]
  rw [hnew, length_append, length_append, hgrown, read_add, read_add, hkept, ← hx, hfill, hbehind]

variable (hreceived : Received skb) (hcontains : Contains skb.mem skb.transportHeader exts)
  (hdescribes : Describes ctx skb.transportHeader exts)
  (hlen : ctx.length = hdrLength skb.mem skb.transportHeader)

include hreceived hcontains hdescribes hlen

theorem recorded_new (hsrc : ctx.srcExt = none) (hopened : Opened skb s ctx.length 12)
    (hnum : exts.length < MAX_NUM_SAL_EXTENSIONS) (hmax : ctx.length + 12 ≤ MAX_HDR_LENGTH) :
    ∃ exts', Recorded skb (fillHeader s ctx 12 12) exts exts' 12 := by
  have hnone := sourceless_of_describes hdescribes hsrc
  have hiph := hreceived.iph
  have hto := hopened.transport
  have hhead : ctx.length = SAL_HEADER_LEN + (encode exts).length := hlen.trans hcontains.length
  have haddrs : saddr s.mem s.networkHeader = saddr skb.mem skb.networkHeader ∧
      daddr s.mem s.networkHeader = daddr skb.mem skb.networkHeader :=
    ⟨hopened.ip 12 4 (by omega), hopened.ip 16 4 (by omega)⟩
  obtain ⟨hframe, e, ht, hsize, hsources, hfill⟩ := fillSource_new s.mem
    (show s.networkHeader + 20 ≤ s.transportHeader by omega) hsrc
  rw [haddrs.1, haddrs.2] at hsources
  refine ⟨exts ++ [e], recorded_of_body hcontains hlen hopened ?_ ?_ (le_refl _) (by decide) hmax
    (permitted_append ht hcontains.permitted hnone hnum) ?_ ?_ ?_ ?_⟩
  · intro a k h
    exact hframe a k (by omega)
  · omega
  · simp [hsize]
  · have hkept := (hframe (s.transportHeader + SAL_HEADER_LEN) (encode exts).length (by omega)).trans
      ((hopened.front SAL_HEADER_LEN _ hhead.ge).trans hcontains.body)
    rw [hhead, ← add_assoc] at hfill
    rw [encode_append, encode_cons, encode_nil, append_nil, length_append, hsize, read_add, hkept, hfill]
  · rw [sourceList_middle hnone ht, hnone.sourceList, hsources]
    rfl
  · rw [others_middle ht]
    exact append_nil _

theorem recorded_append {src : ℕ} (hsrc : ctx.srcExt = some src) (hopened : Opened skb s (gapOffset skb.mem ctx) 4)
    (hfit : extLength skb.mem src + 4 ≤ 255) (hmax : ctx.length + 4 ≤ MAX_HDR_LENGTH) :
    ∃ exts', Recorded skb (fillHeader s ctx 4 (extLength skb.mem src + 4)) exts exts' 4 := by
  obtain ⟨pre, e, post, rfl, ht, hpre, -, hat⟩ :=
    source_split hdescribes hcontains.permitted.toRoom hsrc
  have hends := addrsEnd_le ht
  have hd : (daddr skb.mem skb.networkHeader).length = 4 := length_read ..
  have hlength : extLength skb.mem src = e.bytes.length := by
    rw [hat]
    exact extLength_at (read_middle hcontains.body) ht
  have hgap : gapOffset skb.mem ctx = SAL_HEADER_LEN + (encode pre).length + addrsEnd e := by
    simp only [gapOffset, hsrc, hlength, getLastAddr, hdescribes.hdr, addrsEnd, numAddrs] at hends ⊢
    rw [if_neg (by omega)]
    omega
  rw [hgap] at hopened
  rw [hlength] at hfit ⊢
  obtain ⟨hfills, hbody⟩ := append_fill hreceived hsrc hdescribes.hdr hat hd ht hfit hcontains.body hopened
  refine ⟨pre ++ grownSource e hd ht hfit :: post, recorded_of_body hcontains hlen hopened hfills
    (by omega) ?_ (by decide) hmax (permitted_middle ht.symm hcontains.permitted) ?_ hbody ?_ ?_⟩
  · rw [hlen, hcontains.length]
    simp only [encode_append, encode_cons, length_append]
    omega
  · have hgrown := length_grownBytes hd ht
    simp only [encode_append, encode_cons, length_append, grownSource, hgrown]
    omega
  · rw [sourceList_middle hpre rfl, grownSource_sources, sourceList_middle hpre ht]
    rfl
  · rw [others_middle rfl, others_middle ht]

end Grow

def sent (skb : Skb) : Mem := servalSalSendCheck skb.mem skb.transportHeader

/-- The header is accepted again, lists the destination behind the addresses it had, and is
otherwise what it was. -/
structure Preserved (skb skb' : Skb) (ret : ℤ) : Prop where
  accepted : (servalSalParseHdr (sent skb') skb'.transportHeader .all).2 = 0
  extensions : ∃ exts exts', Contains skb.mem skb.transportHeader exts ∧
    Contains (sent skb') skb'.transportHeader exts' ∧
    sourceList exts' = some ((sourceList exts).getD [saddr skb.mem skb.networkHeader] ++
      [daddr skb.mem skb.networkHeader]) ∧
    others exts' = others exts
  srcFlowid : srcFlowid (sent skb') skb'.transportHeader = srcFlowid skb.mem skb.transportHeader
  dstFlowid : dstFlowid (sent skb') skb'.transportHeader = dstFlowid skb.mem skb.transportHeader
  protocol : protocol (sent skb') skb'.transportHeader = protocol skb.mem skb.transportHeader
  length : (hdrLength (sent skb') skb'.transportHeader : ℤ) = hdrLength skb.mem skb.transportHeader + ret
  payload : read (sent skb') (skb'.transportHeader + hdrLength (sent skb') skb'.transportHeader)
      (skb'.len - hdrLength (sent skb') skb'.transportHeader) =
    read skb.mem (skb.transportHeader + hdrLength skb.mem skb.transportHeader)
      (skb.len - hdrLength skb.mem skb.transportHeader)

def AddCorrect (skb : Skb) (ctx : SalContext) (other : Option Mem) (hardHeaderLen : ℕ) (alloc : Bool) : Prop :=
  ∃ r, servalSalAddSourceExt skb ctx other hardHeaderLen alloc = some r ∧ (0 < r.2 → Preserved skb r.1 r.2)

def recordLen (ctx : SalContext) : ℕ := if ctx.srcExt.isSome then 4 else 12

theorem recordLen_pos (ctx : SalContext) : (0 : ℤ) < recordLen ctx := by
  rw [recordLen]
  split <;> decide

/-- The header, its extension and the table of extensions have room for it, and the extension is
not read after its buffer has been freed. -/
def Fits (skb : Skb) (ctx : SalContext) (other : Option Mem) (hardHeaderLen : ℕ) : Prop :=
  ctx.length + recordLen ctx ≤ MAX_HDR_LENGTH ∧ match ctx.srcExt with
    | none => ctx.ext.length < MAX_NUM_SAL_EXTENSIONS
    | some src => extLength skb.mem src + 4 ≤ 255 ∧ (Copies skb 4 hardHeaderLen → other ≠ none)

def CanGrow (skb : Skb) (ctx : SalContext) (other : Option Mem) (hardHeaderLen : ℕ) (alloc : Bool) : Prop :=
  servalSalSourceExtCheck skb.mem ctx (daddr skb.mem skb.networkHeader) = .ipExists ∨
    (Copies skb (recordLen ctx) hardHeaderLen ∧ alloc = false) ∨ Fits skb ctx other hardHeaderLen

section Add

variable {skb : Skb} {ctx : SalContext} {other : Option Mem} {hardHeaderLen : ℕ} {alloc : Bool}
  {exts : List Ext}

def newExtLen (skb : Skb) (ctx : SalContext) : ℕ :=
  ((ctx.srcExt.map (extLength skb.mem)).getD 8) + 4

theorem getD_other (hother : ∀ m ∈ other, m = skb.mem) : other.getD skb.mem = skb.mem := by
  cases other with
  | none => rfl
  | some m => exact hother m rfl

theorem addSourceExt_exists (hother : ∀ m ∈ other, m = skb.mem)
    (hcheck : servalSalSourceExtCheck skb.mem ctx (daddr skb.mem skb.networkHeader) = .ipExists) :
    servalSalAddSourceExt skb ctx other hardHeaderLen alloc = some (skb, -1) := by
  simp only [servalSalAddSourceExt, getD_other hother, hcheck]

theorem addSourceExt_new (hother : ∀ m ∈ other, m = skb.mem)
    (hcheck : servalSalSourceExtCheck skb.mem ctx (daddr skb.mem skb.networkHeader) ≠ .ipExists) :
    servalSalAddSourceExt skb ctx other hardHeaderLen alloc =
      growHeader skb ctx other (recordLen ctx) (newExtLen skb ctx) hardHeaderLen alloc := by
  rw [servalSalAddSourceExt, getD_other hother]
  cases hsrc : ctx.srcExt with
  | none => simp [servalSalSourceExtCheck, hsrc, recordLen, newExtLen]
  | some src =>
    have hnew : servalSalSourceExtCheck skb.mem ctx (daddr skb.mem skb.networkHeader) = .ipNone := by
      simp only [servalSalSourceExtCheck, hsrc] at hcheck ⊢
      split at hcheck
      · exact absurd rfl hcheck
      · rename_i hany
        rw [if_neg hany]
    simp [hnew, hsrc, recordLen, newExtLen]

theorem preserved_of_recorded {skb' : Skb} {exts' : List Ext} {n : ℕ}
    (hcontains : Contains skb.mem skb.transportHeader exts) (h : Recorded skb skb' exts exts' n) :
    Preserved skb skb' n := by
  have hnew := contains_sendCheck h.contains
  have hlen : hdrLength (sent skb') skb'.transportHeader =
      hdrLength skb.mem skb.transportHeader + n := hdrLength_sendCheck.trans h.length
  have hbase : SAL_HEADER_LEN ≤ hdrLength skb'.mem skb'.transportHeader := by
    rw [h.contains.length]
    exact Nat.le_add_right ..
  have hflowids : read (sent skb') skb'.transportHeader 4 ++ read (sent skb') (skb'.transportHeader + 4) 4 =
      read skb.mem skb.transportHeader 4 ++ read skb.mem (skb.transportHeader + 4) 4 := by
    rw [← read_add, ← read_add]
    exact (read_sendCheck _ (.inl (by omega))).trans h.flowids
  obtain ⟨hsrcFlowid, hdstFlowid⟩ := append_inj hflowids (by rw [length_read, length_read])
  obtain ⟨c, hparse, -, -⟩ := parse_contains hnew
  constructor
  · rw [sent, hparse]
  · exact ⟨exts, exts', hcontains, hnew, h.source, h.others⟩
  · exact hsrcFlowid
  · exact hdstFlowid
  · rw [sent, SalHeader.protocol, byte_sendCheck _ (.inl (by omega))]
    exact h.protocol
  · rw [hlen]
    omega
  · rw [hlen, h.len, show skb.len + n - (hdrLength skb.mem skb.transportHeader + n) =
      skb.len - hdrLength skb.mem skb.transportHeader by omega, ← h.payload, ← h.length]
    exact read_sendCheck _ (Or.inr (Nat.add_le_add_left hbase _))

theorem recorded_of_fits {s : Skb} (hreceived : Received skb) (hcontains : Contains skb.mem skb.transportHeader exts)
    (hdescribes : Describes ctx skb.transportHeader exts) (hlen : ctx.length = hdrLength skb.mem skb.transportHeader)
    (hfits : Fits skb ctx other hardHeaderLen) (hopened : Opened skb s (gapOffset skb.mem ctx) (recordLen ctx)) :
    ∃ exts', Recorded skb (fillHeader s ctx (recordLen ctx) (newExtLen skb ctx)) exts exts'
      (recordLen ctx) := by
  obtain ⟨hmax, hroom⟩ := hfits
  cases hsrc : ctx.srcExt with
  | none =>
    have hrecord : recordLen ctx = 12 := by simp [recordLen, hsrc]
    have hext : newExtLen skb ctx = 12 := by simp [newExtLen, hsrc]
    have hgap : gapOffset skb.mem ctx = ctx.length := by simp [gapOffset, hsrc]
    rw [hrecord, hgap] at hopened
    rw [hrecord] at hmax
    simp only [hsrc, hdescribes.ext, length_map, length_place] at hroom
    rw [hrecord, hext]
    exact recorded_new hreceived hcontains hdescribes hlen hsrc hopened hroom hmax
  | some src =>
    have hrecord : recordLen ctx = 4 := by simp [recordLen, hsrc]
    have hext : newExtLen skb ctx = extLength skb.mem src + 4 := by simp [newExtLen, hsrc]
    rw [hrecord] at hopened hmax
    simp only [hsrc] at hroom
    rw [hrecord, hext]
    exact recorded_append hreceived hcontains hdescribes hlen hsrc hopened hroom.1 hmax

theorem addSourceExt_spec (hreceived : Received skb) (hother : ∀ m ∈ other, m = skb.mem)
    (hcontains : Contains skb.mem skb.transportHeader exts) (hdescribes : Describes ctx skb.transportHeader exts)
    (hlen : ctx.length = hdrLength skb.mem skb.transportHeader)
    (hcheck : servalSalSourceExtCheck skb.mem ctx (daddr skb.mem skb.networkHeader) ≠ .ipExists)
    (hfits : Fits skb ctx other hardHeaderLen) :
    (∃ s, servalSalAddSourceExt skb ctx other hardHeaderLen alloc = some (s, -ENOMEM)) ∨
    ∃ skb' exts', servalSalAddSourceExt skb ctx other hardHeaderLen alloc =
        some (skb', (recordLen ctx : ℤ)) ∧ Recorded skb skb' exts exts' (recordLen ctx) := by
  have hcases := growHeader_cases hreceived ctx other (recordLen ctx) (newExtLen skb ctx) hardHeaderLen
    alloc
  rw [← addSourceExt_new hother hcheck, getD_other hother] at hcases
  split at hcases
  · exact .inl hcases
  · split at hcases
    · rename_i hfreed
      obtain ⟨src, hsrc⟩ := isSome_iff_exists.mp hfreed.2.2
      have hlive := hfits.2
      have hfour : recordLen ctx = 4 := by simp [recordLen, hsrc]
      simp only [hsrc] at hlive
      exact absurd hfreed.2.1 (hlive.2 (hfour ▸ hfreed.1))
    · obtain ⟨s, hopened, hrun⟩ := hcases
      obtain ⟨exts', h⟩ := recorded_of_fits hreceived hcontains hdescribes hlen hfits hopened
      exact .inr ⟨_, exts', hrun, h⟩

theorem fits_of_preserved {skb' : Skb} (hdescribes : ∀ exts,
      Contains skb.mem skb.transportHeader exts → Describes ctx skb.transportHeader exts)
    (hlen : ctx.length = hdrLength skb.mem skb.transportHeader)
    (hlive : Copies skb (recordLen ctx) hardHeaderLen → ctx.srcExt.isSome → other ≠ none)
    (h : Preserved skb skb' (recordLen ctx)) : Fits skb ctx other hardHeaderLen := by
  have hsum := h.length
  have hbyte := (shl (sent skb') skb'.transportHeader).toNat_lt
  obtain ⟨exts, exts', hold, hnew, hsource, hothers⟩ := h.extensions
  have hdesc := hdescribes exts hold
  obtain ⟨hsixty, hone⟩ := length_sourceList hsource
  constructor
  · rw [hdrLength, Nat.shiftLeft_eq, ← hlen] at hsum
    simp only [MAX_HDR_LENGTH]
    omega
  · cases hsrc : ctx.srcExt with
    | none =>
      have hnone := sourceless_of_describes hdesc hsrc
      have hcount := length_others exts
      have hcount' := length_others exts'
      have hten := hnew.permitted.number
      rw [hothers] at hcount'
      rw [hnone] at hcount
      simp only [hdesc.ext, length_map, length_place]
      omega
    | some src =>
      obtain ⟨pre, e, post, rfl, ht, hpre, -, hat⟩ := source_split hdesc hold.permitted.toRoom hsrc
      have hfour : recordLen ctx = 4 := by simp [recordLen, hsrc]
      have hlength : extLength skb.mem src = e.bytes.length := by
        rw [hat]
        exact extLength_at (read_middle hold.body) ht
      have haddrs := e.addrs ht
      rw [sourceList_middle hpre ht, getD_some, length_append, Ext.sources,
        length_map, length_range, length_singleton, numAddrs] at hsixty
      rw [hfour, hsrc] at hlive
      simp only [hlength]
      simp only [numAddrs] at haddrs
      exact ⟨by omega, fun hc => hlive hc rfl⟩

end Add

/-- For every received packet with an accepted header: the call does what it should exactly if
the packet can grow, or is refused. -/
theorem add_source_ext_correct_iff {skb : Skb} {ctx : SalContext} {other : Option Mem}
    (hreceived : Received skb) (hother : ∀ m ∈ other, m = skb.mem)
    (hparse : servalSalParseHdr skb.mem skb.transportHeader .all = (ctx, 0)) (hardHeaderLen : ℕ) (alloc : Bool) :
    AddCorrect skb ctx other hardHeaderLen alloc ↔ CanGrow skb ctx other hardHeaderLen alloc := by
  have hall : ∀ exts, Contains skb.mem skb.transportHeader exts →
      Describes ctx skb.transportHeader exts ∧ ctx.length = hdrLength skb.mem skb.transportHeader := by
    intro exts hcontains
    obtain ⟨c, hc, hdesc, hlen⟩ := parse_contains hcontains
    cases hparse.symm.trans hc
    exact ⟨hdesc, hlen⟩
  obtain ⟨exts, hcontains⟩ := contains_of_parse (congrArg Prod.snd hparse)
  obtain ⟨hdesc, hlen⟩ := hall exts hcontains
  by_cases hcheck :
      servalSalSourceExtCheck skb.mem ctx (daddr skb.mem skb.networkHeader) = .ipExists
  · refine ⟨fun _ => .inl hcheck, fun _ => ⟨_, addSourceExt_exists hother hcheck, ?_⟩⟩
    exact fun hpos => absurd hpos (show ¬ (0 : ℤ) < -1 by decide)
  have hcases := growHeader_cases hreceived ctx other (recordLen ctx) (newExtLen skb ctx)
    hardHeaderLen alloc
  rw [← addSourceExt_new hother hcheck] at hcases
  constructor
  · rintro ⟨r, hrun, hpreserved⟩
    rw [hrun] at hcases
    split at hcases
    · rename_i hrefused
      exact .inr (.inl hrefused)
    · split at hcases
      · cases hcases
      · rename_i hlive
        obtain ⟨s, -, hr⟩ := hcases
        cases hr
        refine .inr (.inr (fits_of_preserved (fun exts h => (hall exts h).1) hlen ?_
          (hpreserved (recordLen_pos ctx))))
        exact fun hcopies hsome hnone => hlive ⟨hcopies, hnone, hsome⟩
  · rintro (hexists | hrefused | hfits)
    · exact absurd hexists hcheck
    · rw [if_pos hrefused] at hcases
      obtain ⟨s, hrun⟩ := hcases
      exact ⟨_, hrun, fun hpos => absurd hpos (show ¬ (0 : ℤ) < -12 by decide)⟩
    · rcases addSourceExt_spec hreceived hother hcontains hdesc hlen hcheck hfits with
        ⟨s, hrun⟩ | ⟨skb', exts', hrun, hrecorded⟩
      · exact ⟨_, hrun, fun hpos => absurd hpos (show ¬ (0 : ℤ) < -12 by decide)⟩
      · exact ⟨_, hrun, fun _ => preserved_of_recorded hcontains hrecorded⟩

namespace FullHeader

def header : List UInt8 :=
  [0, 0, 0, 1, 0, 0, 0, 2, 11, 17, 0, 0] ++ .replicate 8 0 ++
    [48, 12, 0, 0, 0, 0, 0, 0, 0, 0, 0, 0] ++ [48, 12, 0, 0, 0, 0, 0, 0, 0, 0, 0, 0]

def packet : Skb := ⟨write (fun _ => 0) 120 header, 120, 44, 100, 120⟩

def context : SalContext := (servalSalParseHdr packet.mem 120 .all).1

def result : Skb := ((servalSalAddSourceExt packet context none 14 true).getD (packet, 0)).1

theorem packet_accepted : servalSalParseHdr packet.mem 120 .all = (context, 0) := rfl

theorem packet_grows : servalSalAddSourceExt packet context none 14 true = some (result, 12) := rfl

theorem result_rejected : (servalSalParseHdr (sent result) result.transportHeader .all).2 = 12 := rfl

end FullHeader

open FullHeader in
/-- The call succeeds and makes an eleventh extension, and the parser does not accept that. -/
theorem eleventh_extension_rejected : Received packet ∧
    servalSalParseHdr packet.mem packet.transportHeader .all = (context, 0) ∧
    ¬ AddCorrect packet context none 14 true := by
  refine ⟨⟨rfl, by decide⟩, packet_accepted, ?_⟩
  rintro ⟨r, hrun, hpreserved⟩
  cases packet_grows.symm.trans hrun
  have haccepted := (hpreserved (show (0 : ℤ) < 12 by decide)).accepted
  rw [result_rejected] at haccepted
  exact absurd haccepted (by decide)

/-- A packet with a bare header takes the address. -/
theorem add_source_ext_correct_bare :
    AddCorrect ⟨write (fun _ => 0) 120 [0, 0, 0, 1, 0, 0, 0, 2, 3, 17, 0, 0], 120, 12, 100, 120⟩
      { hdr := 120, length := 12 } none 14 true :=
  (add_source_ext_correct_iff ⟨rfl, by decide⟩ (by simp) rfl 14 true).mpr
    (.inr (.inr ⟨by decide, by decide⟩))

end SalSourceSpec
