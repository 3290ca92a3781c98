import Serval.SalFormat

/-! # The parser accepts the format

The loop of the parser takes one extension after the other from the bytes that are left.
-/
namespace SalParse

open ByteMemory SalHeader SalFormat List Option

def absorb (ctx : SalContext) (a : ℕ) (e : Ext) : Option SalContext :=
  match e.type with
  | .pad => some ctx
  | .control =>
    if ctx.ctrlExt.isSome then none
    else some { ctx with
      ctrlExt := some a, verno := e.verno, ackno := e.ackno, flags := ctx.flags ||| e.flags }
  | .service =>
    if ctx.srvExt0.isNone then some { ctx with srvExt0 := some a }
    else if ctx.srvExt1.isNone then some { ctx with srvExt1 := some a }
    else none
  | .address => some ctx
  | .source => if ctx.srcExt.isSome then none else some { ctx with srcExt := some a }

variable {m : Mem} {a : ℕ} {ctx : SalContext} {e : Ext}

theorem type_at (h : read m a e.bytes.length = e.bytes) : extType (m a) = some e.type := by
  have hhead : e.bytes.head? = some (m a) := by
    rw [← h, head?_eq_getElem?]
    exact getElem?_read m a e.pos
  have htype := e.hasType
  rwa [hhead, bind_some] at htype

theorem byte_at (h : read m a e.bytes.length = e.bytes) {i : ℕ} (hi : i < e.bytes.length) :
    e.bytes.getD i 0 = m (a + i) := by
  rw [getD_eq_getElem?_getD, ← h, getElem?_read m a hi, getD_some]

theorem length_at (h : read m a e.bytes.length = e.bytes) : salExtLen m a = e.bytes.length := by
  have hlen := e.hasLength
  rw [salExtLen, type_at h]
  by_cases hp : e.type = .pad
  · rw [if_pos hp] at hlen
    rw [hp, if_pos rfl, hlen]
  · rw [if_neg hp, byte_at h ((one_lt_minExtLength hp).trans_le e.min)] at hlen
    simpa [hp] using hlen

theorem parseExt_at (ctx : SalContext) (h : read m a e.bytes.length = e.bytes) :
    (∀ c, absorb ctx a e = some c → parseExt m a ctx = (c, (e.bytes.length : ℤ))) ∧
      (absorb ctx a e = none → (parseExt m a ctx).2 ≤ 0) := by
  have hmin := e.min
  have hlen : ¬ e.bytes.length < minExtLength e.type := not_lt.mpr hmin
  have hslice : ∀ i k, i + k ≤ e.bytes.length → (e.bytes.drop i).take k = read m (a + i) k := by
    intro i k hik
    rw [← h]
    exact read_slice m a hik
  simp only [parseExt, type_at h, length_at h, hlen, ↓reduceIte]
  cases ht : e.type with
  | pad =>
    have h1 := e.hasLength
    simp only [ht, ↓reduceIte] at h1
    simp [absorb, ht, parsePadExt, h1]
  | control =>
    rw [ht] at hmin
    have hverno : e.verno = word32 (read m (a + 4) 4) := by
      rw [Ext.verno, hslice 4 4 (by simp only [minExtLength] at hmin; omega)]
    have hackno : e.ackno = word32 (read m (a + 8) 4) := by
      rw [Ext.ackno, hslice 8 4 (by simp only [minExtLength] at hmin; omega)]
    have hflags : e.flags = controlFlags (m (a + 2)) := by
      rw [Ext.flags, byte_at h (by simp only [minExtLength] at hmin; omega)]
    cases hc : ctx.ctrlExt <;> simp [absorb, ht, parseControlExt, hc, hverno, hackno, hflags]
  | service =>
    cases h0 : ctx.srvExt0 <;> cases h1 : ctx.srvExt1 <;>
      simp [absorb, ht, parseServiceExt, h0, h1]
  | address => simp [absorb, ht, parseAddressExt]
  | source =>
    have haddrs : ¬ numAddrs e.bytes.length < 2 := not_lt.mpr (e.addrs ht)
    cases hc : ctx.srcExt <;> simp [absorb, ht, parseSourceExt, hc, haddrs]

theorem parseExt_pos (h : 0 < (parseExt m a ctx).2) :
    ∃ e : Ext, read m a e.bytes.length = e.bytes ∧ absorb ctx a e = some (parseExt m a ctx).1 := by
  suffices hex : ∃ e : Ext, read m a e.bytes.length = e.bytes by
    obtain ⟨e, he⟩ := hex
    obtain ⟨hsome, hnone⟩ := parseExt_at ctx he
    cases hc : absorb ctx a e with
    | none => exact absurd (hnone hc) (not_le.mpr h)
    | some c => exact ⟨e, he, by rw [hc, hsome c hc]⟩
  cases ht : extType (m a) with
  | none => simp [parseExt, ht] at h
  | some type =>
    by_cases hlen : salExtLen m a < minExtLength type
    · simp [parseExt, ht, hlen] at h
    · have hpos : 0 < salExtLen m a := by
        have : 0 < minExtLength type := by cases type <;> decide
        omega
      refine ⟨⟨type, read m a (salExtLen m a), ?_, ?_, ?_, ?_⟩, by simp⟩
      · rw [head?_eq_getElem?, getElem?_read m a hpos, bind_some]
        exact ht
      · rw [length_read]
        split
        · rename_i hp
          simp [salExtLen, ht, hp]
        · rename_i hp
          have hone : 1 < salExtLen m a := by
            have := one_lt_minExtLength hp
            omega
          rw [getD_eq_getElem?_getD, getElem?_read m a hone, getD_some]
          simp [salExtLen, ht, hp]
      · rw [length_read]
        omega
      · rintro rfl
        by_contra hfew
        rw [length_read, not_le] at hfew
        simp only [parseExt, ht, hlen, ↓reduceIte, parseSourceExt, hfew] at h
        split at h <;> simp at h

variable {sh : ℕ} {taken : List Ext}

variable {c : SalContext} (slots : ℕ)

theorem absorb_describes (h : Describes ctx sh taken)
    (ha : a = sh + SAL_HEADER_LEN + (encode taken).length) (hc : absorb ctx a e = some c) :
    Describes { c with ext := c.ext ++ [a] } sh (taken ++ [e]) := by
  obtain ⟨hhdr, hext, hctrl, hsrv0, hsrv1, hsrc, haddr, hflags, hverno, hackno⟩ := h
  have hfound : ∀ type, found type (sh + SAL_HEADER_LEN) (taken ++ [e]) =
      found type (sh + SAL_HEADER_LEN) taken ++ if e.type = type then [(a, e)] else [] := by
    intro type
    rw [found_append, ← ha]
    simp [found, place, filter_singleton, ofType]
  have hplace : (place (sh + SAL_HEADER_LEN) (taken ++ [e])).map (·.1) = ctx.ext ++ [a] := by
    rw [place_append, ← ha, map_append, hext]
    rfl
  cases ht : e.type with
  | pad | address =>
    simp only [absorb, ht, some.injEq] at hc
    subst hc
    constructor <;> simp [*]
  | control =>
    simp only [absorb, ht] at hc
    split at hc
    · cases hc
    · rename_i hnone
      cases hc
      have hnil : found .control (sh + SAL_HEADER_LEN) taken = [] := by
        simpa [hctrl] using hnone
      constructor <;> simp [*]
  | service =>
    simp only [absorb, ht] at hc
    split at hc
    · rename_i hnone
      cases hc
      have hnil : found .service (sh + SAL_HEADER_LEN) taken = [] := by
        simpa [hsrv0] using hnone
      constructor <;> simp [*]
    · rename_i hsome
      split at hc
      · rename_i hnone
        cases hc
        obtain ⟨x, hone⟩ : ∃ x, found .service (sh + SAL_HEADER_LEN) taken = [x] := by
          rw [← length_eq_one_iff]
          rw [hsrv0] at hsome
          rw [hsrv1] at hnone
          simp at hsome hnone
          have := length_pos_iff.mpr hsome
          omega
        constructor <;> simp [*]
      · cases hc
  | source =>
    simp only [absorb, ht] at hc
    split at hc
    · cases hc
    · rename_i hnone
      cases hc
      have hnil : found .source (sh + SAL_HEADER_LEN) taken = [] := by
        simpa [hsrc] using hnone
      constructor <;> simp [*]

theorem absorb_eq_none_iff (ctx : SalContext) (a : ℕ) (e : Ext) :
    absorb ctx a e = none ↔ (e.type = .control ∧ ctx.ctrlExt.isSome) ∨
      (e.type = .service ∧ ctx.srvExt0.isSome ∧ ctx.srvExt1.isSome) ∨
      (e.type = .source ∧ ctx.srcExt.isSome) := by
  cases ht : e.type with
  | pad | address => simp [absorb, ht]
  | control => cases hc : ctx.ctrlExt <;> simp [absorb, ht, hc]
  | service => cases h0 : ctx.srvExt0 <;> cases h1 : ctx.srvExt1 <;> simp [absorb, ht, h0, h1]
  | source => cases hc : ctx.srcExt <;> simp [absorb, ht, hc]

theorem room_snoc_iff (h : Room taken) (e : Ext) :
    Room (taken ++ [e]) ↔ (e.type = .control → taken.countP (ofType .control) < 1) ∧
      (e.type = .service → taken.countP (ofType .service) < 2) ∧
      (e.type = .source → taken.countP (ofType .source) < 1) := by
  have hcount : ∀ type, (taken ++ [e]).countP (ofType type) =
      taken.countP (ofType type) + if e.type = type then 1 else 0 := by
    intro type
    rw [countP_append, countP_singleton]
    simp [ofType]
  have hiff : ∀ type n, taken.countP (ofType type) ≤ n → ((taken ++ [e]).countP (ofType type) ≤ n ↔
        (e.type = type → taken.countP (ofType type) < n)) := by
    intro type n hn
    rw [hcount]
    split
    · rename_i ht
      simp only [ht, forall_const]
      omega
    · rename_i ht
      simp [ht, hn]
  rw [← hiff _ _ h.control, ← hiff _ _ h.service, ← hiff _ _ h.source]
  exact ⟨fun h => ⟨h.control, h.service, h.source⟩, fun h => ⟨h.1, h.2.1, h.2.2⟩⟩

theorem absorb_ne_none_iff (h : Describes ctx sh taken)
    (hroom : Room taken) (a : ℕ) (e : Ext) : absorb ctx a e ≠ none ↔ Room (taken ++ [e]) := by
  have hsome : ∀ (type : ExtType) (i : ℕ), ((found type (sh + SAL_HEADER_LEN) taken)[i]?.map Prod.fst).isSome ↔
        i < taken.countP (ofType type) := by
    intro type i
    rw [← length_found type (sh + SAL_HEADER_LEN)]
    simp
  rw [Ne, absorb_eq_none_iff, room_snoc_iff hroom, h.ctrlExt, h.srvExt0, h.srvExt1, h.srcExt, hsome,
    hsome, hsome, hsome]
  have hctrl := hroom.control
  have hsrv := hroom.service
  have hsrc := hroom.source
  constructor
  · intro hno
    refine ⟨fun ht => ?_, fun ht => ?_, fun ht => ?_⟩ <;> by_contra hlt <;> apply hno
    · exact .inl ⟨ht, by omega⟩
    · exact .inr (.inl ⟨ht, by omega, by omega⟩)
    · exact .inr (.inr ⟨ht, by omega⟩)
  · rintro ⟨h1, h2, h3⟩ (⟨ht, hlt⟩ | ⟨ht, -, hlt⟩ | ⟨ht, hlt⟩)
    · have := h1 ht
      omega
    · have := h2 ht
      omega
    · have := h3 ht
      omega

theorem parseLoop_neg (m : Mem) (slots a : ℕ) {hdrLen : ℤ} (h : hdrLen ≤ 0) (ctx : SalContext) :
    parseLoop m slots a hdrLen ctx = (ctx, hdrLen) := by
  cases slots with
  | zero => rfl
  | succ slots => rw [parseLoop, if_neg (not_lt.mpr h)]

theorem absorb_length (h : absorb ctx a e = some c) : c.length = ctx.length := by
  unfold absorb at h
  split at h <;> (try split at h) <;> (try split at h) <;> cases h <;> rfl

theorem parseLoop_step (h : Describes ctx sh taken) (ha : a = sh + SAL_HEADER_LEN + (encode taken).length)
    (hroom : Room (taken ++ [e])) (he : read m a e.bytes.length = e.bytes) (rest : ℕ) :
    ∃ c, Describes c sh (taken ++ [e]) ∧ c.length = ctx.length ∧
      parseLoop m (slots + 1) a (e.bytes.length + rest : ℕ) ctx = parseLoop m slots (a + e.bytes.length) rest c := by
  have hne := (absorb_ne_none_iff h hroom.left a e).mpr hroom
  obtain ⟨c, hc⟩ := ne_none_iff_exists'.mp hne
  have hlen : c.length = ctx.length := absorb_length hc
  refine ⟨{ c with ext := c.ext ++ [a] }, absorb_describes h ha hc, hlen, ?_⟩
  have hpos := e.pos
  rw [parseLoop, if_pos (by omega), (parseExt_at ctx he).1 c hc, salExtNext, length_at he]
  dsimp only
  have hleft : ((e.bytes.length + rest : ℕ) : ℤ) - e.bytes.length = rest := by omega
  rw [if_neg (by omega), hleft]

theorem parseLoop_encode (exts : List Ext) :
    ∀ {slots a : ℕ} {ctx : SalContext} {taken : List Ext}, Describes ctx sh taken →
      a = sh + SAL_HEADER_LEN + (encode taken).length → Room (taken ++ exts) →
      exts.length ≤ slots → read m a (encode exts).length = encode exts →
      ∃ c, parseLoop m slots a (encode exts).length ctx = (c, 0) ∧
        Describes c sh (taken ++ exts) ∧ c.length = ctx.length := by
  induction exts with
  | nil =>
    intro slots a ctx taken h _ _ _ _
    exact ⟨ctx, parseLoop_neg m slots a (le_refl 0) ctx, by simpa using h, rfl⟩
  | cons e exts ih =>
    intro slots a ctx taken h ha hroom hslots hread
    rw [encode_cons] at hread
    obtain ⟨he, hrest⟩ := read_eq_append hread
    rw [append_cons] at hroom ⊢
    cases slots with
    | zero => cases hslots
    | succ slots =>
      obtain ⟨c, hc, hlen, hstep⟩ := parseLoop_step slots h ha hroom.left he
        (encode exts).length
      obtain ⟨c', hrun, hdesc, hlen'⟩ := ih hc (by simp [ha, add_assoc]) hroom
        (Nat.le_of_succ_le_succ hslots) hrest
      refine ⟨c', ?_, hdesc, hlen'.trans hlen⟩
      rw [encode_cons, length_append, hstep, hrun]

theorem parseLoop_sound : ∀ {a r : ℕ} {ctx : SalContext} {taken : List Ext}, Describes ctx sh taken →
      a = sh + SAL_HEADER_LEN + (encode taken).length → Room taken → (parseLoop m slots a r ctx).2 = 0 →
      ∃ exts, exts.length ≤ slots ∧ r = (encode exts).length ∧ read m a r = encode exts ∧ Room (taken ++ exts) := by
  induction slots with
  | zero =>
    intro a r ctx taken _ _ hroom hret
    have hr : r = 0 := by simpa [parseLoop] using hret
    exact ⟨[], le_rfl, hr, by simp [hr], by simpa using hroom⟩
  | succ slots ih =>
    intro a r ctx taken h ha hroom hret
    by_cases hr : r = 0
    · exact ⟨[], Nat.zero_le _, hr, by simp [hr], by simpa using hroom⟩
    by_cases hpos : (parseExt m a ctx).2 ≤ 0
    · rw [parseLoop, if_pos (by omega)] at hret
      simp [hpos] at hret
    · obtain ⟨e, he, hc⟩ := parseExt_pos (not_le.mp hpos)
      have hroom' : Room (taken ++ [e]) := (absorb_ne_none_iff h hroom a e).mp (by simp [hc])
      by_cases hle : e.bytes.length ≤ r
      · obtain ⟨rest, rfl⟩ := Nat.exists_eq_add_of_le hle
        obtain ⟨c, hdesc, -, hstep⟩ := parseLoop_step slots h ha hroom' he rest
        rw [hstep] at hret
        obtain ⟨exts, hnum, hrest, hread, hroom''⟩ := ih hdesc (by simp [ha, add_assoc]) hroom' hret
        refine ⟨e :: exts, Nat.succ_le_succ hnum, by simp [hrest], ?_, by simpa using hroom''⟩
        rw [read_add, he, hread, encode_cons]
      · -- the extension reaches past the end, and the loop ends with a negative rest
        rw [parseLoop, if_pos (by omega), (parseExt_at ctx he).1 _ hc] at hret
        dsimp only at hret
        rw [if_neg (by have := e.pos; omega), parseLoop_neg m slots _ (by omega)] at hret
        dsimp only at hret
        omega

theorem hdrLength_eq (m : Mem) (sh : ℕ) : hdrLength m sh = (shl m sh).toNat * 4 := by
  rw [hdrLength, Nat.shiftLeft_eq]

theorem describes_nil (sh n : ℕ) : Describes { hdr := sh, length := n } sh [] := by
  constructor <;> rfl

theorem parse_contains {exts : List Ext} (h : Contains m sh exts) :
    ∃ c, servalSalParseHdr m sh .all = (c, 0) ∧ Describes c sh exts ∧ c.length = hdrLength m sh := by
  have hlen := h.length
  have hroom : Room ([] ++ exts) := h.permitted.toRoom
  obtain ⟨c, hrun, hdesc, hclen⟩ :=
    parseLoop_encode exts (describes_nil sh (hdrLength m sh)) rfl hroom h.permitted.number h.body
  refine ⟨c, ?_, hdesc, hclen⟩
  have hsub : hdrLength m sh - SAL_HEADER_LEN = (encode exts).length := by omega
  have hnot : ¬ hdrLength m sh < SAL_HEADER_LEN := by omega
  simp only [servalSalParseHdr, hnot, ↓reduceIte, reduceCtorEq, hsub]
  exact hrun

theorem contains_of_parse (h : (servalSalParseHdr m sh .all).2 = 0) : ∃ exts, Contains m sh exts := by
  by_cases hlen : hdrLength m sh < SAL_HEADER_LEN
  · simp [servalSalParseHdr, hlen] at h
  · simp only [servalSalParseHdr, hlen, ↓reduceIte, reduceCtorEq] at h
    have hroom : Room [] := ⟨Nat.zero_le _, Nat.zero_le _, Nat.zero_le _⟩
    obtain ⟨exts, hnum, hbody, hread, hroom⟩ :=
      parseLoop_sound MAX_NUM_SAL_EXTENSIONS (describes_nil sh (hdrLength m sh)) rfl hroom h
    exact ⟨exts, by omega, by rwa [hbody] at hread, hroom, hnum⟩

/-- For every memory and every address: the header there is accepted if and only if what lies
behind the base header, up to the stated length, is a sequence of permitted extensions; then
the context describes exactly them, and they all lie inside the header. -/
theorem parse_hdr_spec (m : Mem) (sh : ℕ) :
    ((servalSalParseHdr m sh .all).2 = 0 ↔ 12 ≤ (shl m sh).toNat * 4 ∧ ∃ exts, Permitted exts ∧
      read m (sh + 12) ((shl m sh).toNat * 4 - 12) = encode exts) ∧
    ∀ exts, 12 ≤ (shl m sh).toNat * 4 → Permitted exts → read m (sh + 12) ((shl m sh).toNat * 4 - 12) = encode exts →
      Describes (servalSalParseHdr m sh .all).1 sh exts ∧
      (servalSalParseHdr m sh .all).1.length = (shl m sh).toNat * 4 ∧
      ∀ b e, (b, e) ∈ place (sh + 12) exts → sh + 12 ≤ b ∧
        b + e.bytes.length ≤ sh + (shl m sh).toNat * 4 ∧ read m b e.bytes.length = e.bytes := by
  have hcontains : ∀ exts, Contains m sh exts ↔ 12 ≤ (shl m sh).toNat * 4 ∧ Permitted exts ∧
      read m (sh + 12) ((shl m sh).toNat * 4 - 12) = encode exts := by
    intro exts
    rw [← hdrLength_eq]
    constructor
    · rintro ⟨hlen, hbody, hperm⟩
      have hsub : hdrLength m sh - 12 = (encode exts).length := by rw [hlen, SAL_HEADER_LEN]; omega
      exact ⟨by rw [hlen, SAL_HEADER_LEN]; omega, hperm, by rw [hsub]; exact hbody⟩
    · rintro ⟨hle, hperm, hbody⟩
      have hsub : hdrLength m sh - 12 = (encode exts).length := by rw [← hbody, length_read]
      rw [hsub] at hbody
      exact ⟨by rw [SAL_HEADER_LEN]; omega, hbody, hperm⟩
  constructor
  · constructor
    · intro h
      obtain ⟨exts, hexts⟩ := contains_of_parse h
      obtain ⟨hle, hrest⟩ := (hcontains exts).mp hexts
      exact ⟨hle, exts, hrest⟩
    · rintro ⟨hle, exts, hrest⟩
      obtain ⟨c, hrun, -⟩ := parse_contains ((hcontains exts).mpr ⟨hle, hrest⟩)
      rw [hrun]
  · intro exts hle hperm hbody
    have h := (hcontains exts).mpr ⟨hle, hperm, hbody⟩
    obtain ⟨c, hrun, hdesc, hlen⟩ := parse_contains h
    rw [hrun]
    refine ⟨hdesc, by rw [hlen, hdrLength_eq], ?_⟩
    intro b e hm
    obtain ⟨h1, h2, h3⟩ := place_inside h.body hm
    have htotal := h.length
    rw [hdrLength_eq, SAL_HEADER_LEN] at htotal
    exact ⟨h1, by rw [SAL_HEADER_LEN] at h2; omega, h3⟩

end SalParse
