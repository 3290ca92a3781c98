import Serval.SalSourceSpec
import Serval.SalResolve
import Serval.ServiceRuns

/-! # A packet on its way through forwarding hosts

A packet is the bytes on the wire; every host has its own service table and answers. The list of addresses in the packet
keeps it from running in circles.
-/
namespace SalForwarding

open ByteMemory SkBuff SalHeader SalFormat SalParse SalSourceExt SalSourceSpec SalResolve ServiceTable List

def load (wire : List UInt8) : Mem := write (fun _ => 0) 0 wire

def source (wire : List UInt8) : List UInt8 := saddr (load wire) 0
def destination (wire : List UInt8) : List UInt8 := daddr (load wire) 0

structure Arrives (skb : Skb) (wire : List UInt8) : Prop where
  data : skb.data = skb.networkHeader
  bytes : read skb.mem skb.data skb.len = wire
  header : 20 ≤ iphLen skb.mem skb.networkHeader

structure Carries (wire : List UInt8) (exts : List Ext) : Prop where
  header : 20 ≤ iphLen (load wire) 0
  contains : Contains (load wire) (iphLen (load wire) 0) exts
  fits : iphLen (load wire) 0 + hdrLength (load wire) (iphLen (load wire) 0) ≤ wire.length

/-- One pass through a host that sends the packet on, in a buffer and with answers of the host
such that `P` holds. -/
def Hop (P : Env → Skb → Prop) (wire wire' : List UInt8) : Prop :=
  ∃ (tbl : Table) (env : Env) (skb : Skb) (r : Resolution) (s : Skb), Arrives skb wire ∧ P env skb ∧
    servalIpv4Rcv tbl env skb = some r ∧ s ∈ r.sent ∧ read s.mem s.data s.len = wire'

inductive Trip (P : Env → Skb → Prop) (start : List UInt8) : List (List UInt8) → List UInt8 → Prop
  | here : Trip P start [] start
  | hop {dests : List (List UInt8)} {wire wire' : List UInt8} :
      Trip P start dests wire → Hop P wire wire' → Trip P start (dests ++ [destination wire]) wire'

def Roomy (env : Env) (skb : Skb) : Prop :=
  ∀ ctx oif hardHeaderLen, acceptHeader (pullIp skb) = some ctx →
    env.hardHeaderLen oif = some hardHeaderLen → Fits (pullIp skb) ctx none hardHeaderLen

section Wire

variable {skb : Skb} {wire : List UInt8} {exts : List Ext}

theorem read_load (h : Arrives skb wire) {i k : ℕ} (hik : i + k ≤ wire.length) :
    read (load wire) i k = read skb.mem (skb.networkHeader + i) k := by
  have hlen : skb.len = wire.length := by rw [← h.bytes, length_read]
  have hbytes := h.bytes
  rw [h.data, hlen] at hbytes
  have hload : read (load wire) 0 wire.length = wire := read_write_self ..
  have hslice := read_slice (load wire) 0 hik
  rw [zero_add] at hslice
  rw [← hslice, hload]
  nth_rewrite 1 [← hbytes]
  exact read_slice skb.mem skb.networkHeader hik

theorem iphLen_congr {m m' : Mem} {a b : ℕ} (h : read m a 1 = read m' b 1) : iphLen m a = iphLen m' b := by
  simp only [read_succ, read_zero, cons.injEq, and_true] at h
  rw [iphLen, iphLen, h]

theorem iphLen_load (h : Arrives skb wire) (hpos : 0 < wire.length) :
    iphLen (load wire) 0 = iphLen skb.mem skb.networkHeader :=
  iphLen_congr (read_load h (show 0 + 1 ≤ wire.length from hpos))

theorem contains_of_carries (h : Arrives skb wire) (hc : Carries wire exts) :
    Contains skb.mem (skb.networkHeader + iphLen skb.mem skb.networkHeader) exts := by
  have hheader := hc.header
  have hfits := hc.fits
  rw [← iphLen_load h (by omega)]
  exact contains_congr hc.contains (read_load h hfits).symm

theorem carries_of_contains (h : Arrives skb wire)
    (hc : Contains skb.mem (skb.networkHeader + iphLen skb.mem skb.networkHeader) exts)
    (hfits : iphLen skb.mem skb.networkHeader +
      hdrLength skb.mem (skb.networkHeader + iphLen skb.mem skb.networkHeader) ≤ skb.len) : Carries wire exts := by
  have hheader := h.header
  have hlen : skb.len = wire.length := by rw [← h.bytes, length_read]
  have hiph := iphLen_load h (by omega)
  rw [hlen] at hfits
  have hload : Contains (load wire) (iphLen (load wire) 0) exts := by
    rw [hiph]
    exact contains_congr hc (read_load h hfits)
  refine ⟨hiph ▸ hheader, hload, ?_⟩
  rw [hload.length, ← hc.length, hiph]
  exact hfits

theorem addresses_load (h : Arrives skb wire) (hlen : 20 ≤ wire.length) :
    source wire = saddr skb.mem skb.networkHeader ∧ destination wire = daddr skb.mem skb.networkHeader := by
  constructor
  · exact read_load h (show 12 + 4 ≤ wire.length by omega)
  · exact read_load h (show 16 + 4 ≤ wire.length by omega)

theorem acceptHeader_spec {ctx : SalContext} (h : acceptHeader skb = some ctx) :
    servalSalParseHdr skb.mem skb.transportHeader .all = (ctx, 0) ∧
      hdrLength skb.mem skb.transportHeader ≤ skb.len := by
  simp only [acceptHeader] at h
  split at h
  · cases h
  · split at h
    · cases h
    · split at h
      · cases h
      · split at h
        · cases h
        · rename_i hshort hlong hret _
          cases h
          exact ⟨Prod.ext rfl (not_not.mp hret), by omega⟩

theorem pullIp_eq (hlen : iphLen skb.mem skb.networkHeader ≤ skb.len) (hdata : skb.data = skb.networkHeader) :
    pullIp skb = ⟨skb.mem, skb.networkHeader + iphLen skb.mem skb.networkHeader,
      skb.len - iphLen skb.mem skb.networkHeader, skb.networkHeader,
      skb.networkHeader + iphLen skb.mem skb.networkHeader⟩ := by
  simp only [pullIp, pskbPull, not_lt.mpr hlen, ↓reduceIte, hdata]

theorem carries_of_accept {ctx : SalContext} (h : Arrives skb wire)
    (hlen : iphLen skb.mem skb.networkHeader ≤ skb.len) (haccept : acceptHeader (pullIp skb) = some ctx) :
    ∃ exts, Carries wire exts ∧ Describes ctx (skb.networkHeader + iphLen skb.mem skb.networkHeader) exts := by
  obtain ⟨hparse, hfits⟩ := acceptHeader_spec haccept
  rw [pullIp_eq hlen h.data] at hparse hfits
  obtain ⟨exts, hcontains⟩ := contains_of_parse (congrArg Prod.snd hparse)
  obtain ⟨c, hc, hdescribes, -⟩ := parse_contains hcontains
  cases hparse.symm.trans hc
  exact ⟨exts, carries_of_contains h hcontains (by simp only at hfits; omega), hdescribes⟩

end Wire

section Pass

variable {skb skb' s : Skb} {ctx : SalContext} {exts exts' : List Ext} {n : ℕ}

theorem pass_new {hardHeaderLen : ℕ} {alloc : Bool} {ret : ℤ}
    (hadd : servalSalAddSourceExt skb ctx none hardHeaderLen alloc = some (skb', ret)) (hret : 0 ≤ ret) :
    servalSalSourceExtCheck skb.mem ctx (daddr skb.mem skb.networkHeader) ≠ .ipExists := by
  intro hexists
  have hother : ∀ m ∈ (none : Option Mem), m = skb.mem := by simp
  cases (addSourceExt_exists hother hexists).symm.trans hadd
  exact absurd hret (by decide)

theorem pass_records {hardHeaderLen : ℕ} {alloc : Bool} {ret : ℤ} {dst : List UInt8}
    (hreceived : Received skb) (haccept : acceptHeader skb = some ctx)
    (hcontains : Contains skb.mem skb.transportHeader exts)
    (hto : skb.transportHeader = skb.networkHeader + iphLen skb.mem skb.networkHeader)
    (hadd : servalSalAddSourceExt skb ctx none hardHeaderLen alloc = some (skb', ret)) (hret : 0 ≤ ret)
    (hsend : sendOn skb' dst (protocol skb.mem skb.transportHeader) (ctx.length + ret.toNat)
      (iphLen skb.mem skb.networkHeader) = some s) (hfits : Fits skb ctx none hardHeaderLen) :
    (∀ l, sourceList exts = some l → daddr skb.mem skb.networkHeader ∉ l) ∧
    ∃ exts' n, Recorded skb skb' exts exts' n ∧ SentOn skb' s dst
      (hdrLength skb'.mem skb'.transportHeader) (iphLen skb.mem skb.networkHeader) := by
  obtain ⟨hparse, hlen⟩ := acceptHeader_spec haccept
  obtain ⟨c, hc, hdescribes, hclen⟩ := parse_contains hcontains
  cases hparse.symm.trans hc
  have hother : ∀ m ∈ (none : Option Mem), m = skb.mem := by simp
  have hcheck := pass_new hadd hret
  constructor
  · intro l hl hmem
    exact hcheck ((check_exists_iff hcontains hdescribes _).mpr ⟨l, hl, hmem⟩)
  · rcases addSourceExt_spec hreceived hother hcontains hdescribes hclen hcheck
      hfits with ⟨t, hrun⟩ | ⟨t, exts', hrun, hrecorded⟩
    · cases hrun.symm.trans hadd
      exact absurd hret (by decide)
    · cases hrun.symm.trans hadd
      have hiph := hreceived.iph
      have hgrown := hrecorded.length
      have hsize : skb.transportHeader - skb.networkHeader = iphLen skb.mem skb.networkHeader := by
        omega
      have hmoved := hrecorded.transport
      have hspace := hrecorded.len
      rw [Int.toNat_natCast, hclen, ← hgrown] at hsend
      rw [hsize] at hmoved
      refine ⟨exts', recordLen ctx, hrecorded, sendOn_spec hrecorded.data hmoved
        (by omega) ?_ (by omega) hsend⟩
      rw [hrecorded.contains.length]
      exact Nat.le_add_right ..

theorem sent_carries {dst wire' : List UInt8} (hreceived : Received skb)
    (hlen : hdrLength skb.mem skb.transportHeader ≤ skb.len)
    (hto : skb.transportHeader = skb.networkHeader + iphLen skb.mem skb.networkHeader)
    (hrecorded : Recorded skb skb' exts exts' n) (hsent : SentOn skb' s dst
      (hdrLength skb'.mem skb'.transportHeader) (iphLen skb.mem skb.networkHeader))
    (hwire : read s.mem s.data s.len = wire') :
    Carries wire' exts' ∧ source wire' = saddr skb.mem skb.networkHeader := by
  have hiph := hreceived.iph
  have hsize : skb.transportHeader - skb.networkHeader = iphLen skb.mem skb.networkHeader := by omega
  have hmoved := hrecorded.transport
  have hbase : SAL_HEADER_LEN ≤ hdrLength skb'.mem skb'.transportHeader := by
    rw [hrecorded.contains.length]
    exact Nat.le_add_right ..
  have hfirst : iphLen s.mem s.networkHeader = iphLen skb.mem skb.networkHeader := by
    rw [hsent.network]
    exact iphLen_congr ((hsent.ip _ 1 (.inl (by omega))).trans (hrecorded.ip 0 1 (by omega)))
  have hsaddr : saddr s.mem s.networkHeader = saddr skb.mem skb.networkHeader := by
    rw [hsent.network]
    exact (hsent.ip _ 4 (.inr (by omega))).trans (hrecorded.ip 12 4 (by omega))
  have hcontains : Contains s.mem s.transportHeader exts' := by
    apply contains_of_parts hrecorded.contains
    · rw [hsent.transport]
      exact hsent.sal _ 1 (by omega) (.inl (by omega))
    · rw [hsent.transport]
      exact hsent.sal _ _ (by omega) (.inr ⟨le_refl _, by
        rw [hrecorded.contains.length, add_assoc]⟩)
  have harrives : Arrives s wire' := ⟨hsent.data.trans hsent.network.symm, hwire, by omega⟩
  have hplace : s.transportHeader = s.networkHeader + iphLen s.mem s.networkHeader := by
    rw [hfirst, hsent.transport, hsent.network, hmoved, hsize]
  have hsame : hdrLength s.mem s.transportHeader = hdrLength skb'.mem skb'.transportHeader := by
    rw [hcontains.length, hrecorded.contains.length]
  have hspace := hrecorded.len
  have hgrown := hrecorded.length
  have hout := hsent.len
  have hwirelen : wire'.length = s.len := by rw [← hwire, length_read]
  constructor
  · apply carries_of_contains harrives
    · rw [← hplace]
      exact hcontains
    · rw [← hplace, hsame, hfirst]
      omega
  · rw [(addresses_load harrives (by omega)).1, hsaddr]

end Pass

theorem hop_passed {P : Env → Skb → Prop} {wire wire' : List UInt8} {exts : List Ext}
    (h : Hop P wire wire') (hc : Carries wire exts) :
    ∃ env skb₀ skb ctx s, P env skb₀ ∧ skb = pullIp skb₀ ∧ Received skb ∧ acceptHeader skb = some ctx ∧
      Contains skb.mem skb.transportHeader exts ∧
      skb.transportHeader = skb.networkHeader + iphLen skb.mem skb.networkHeader ∧
      Passed env skb ctx s ∧ read s.mem s.data s.len = wire' ∧
      source wire = saddr skb.mem skb.networkHeader ∧ destination wire = daddr skb.mem skb.networkHeader := by
  obtain ⟨tbl, env, skb, r, s, harrives, hP, hrun, hs, hwire⟩ := h
  obtain ⟨ctx, hlen, haccept, hpassed⟩ := rcv_sent hrun hs
  have hheader := harrives.header
  have hcontains := contains_of_carries harrives hc
  have hwirelen : wire.length = skb.len := by rw [← harrives.bytes, length_read]
  obtain ⟨hsource, hdestination⟩ := addresses_load harrives (by omega)
  refine ⟨env, skb, _, ctx, s, hP, rfl, ?_, haccept, ?_, ?_, hpassed, hwire, ?_, ?_⟩
  all_goals rw [pullIp_eq hlen harrives.data]
  · exact ⟨rfl, Nat.add_le_add_left hheader _⟩
  · exact hcontains
  · exact hsource
  · exact hdestination

theorem hop_records {wire wire' : List UInt8} {exts : List Ext} (h : Hop Roomy wire wire') (hc : Carries wire exts) :
    (∀ l, sourceList exts = some l → destination wire ∉ l) ∧ source wire' = source wire ∧
    ∃ exts', Carries wire' exts' ∧
      sourceList exts' = some ((sourceList exts).getD [source wire] ++ [destination wire]) := by
  obtain ⟨env, skb₀, skb, ctx, s, hroomy, rfl, hreceived, haccept, hcontains, hto, hpassed, hwire, hsource,
    hdestination⟩ := hop_passed h hc
  obtain ⟨target, hardHeaderLen, skb', ret, hdev, hadd, hret, hsend⟩ := hpassed
  obtain ⟨hnew, exts', n, hrecorded, hsent⟩ := pass_records hreceived haccept hcontains hto hadd hret hsend
    (hroomy ctx _ hardHeaderLen haccept hdev)
  obtain ⟨hcarries, hsame⟩ :=
    sent_carries hreceived (acceptHeader_spec haccept).2 hto hrecorded hsent hwire
  rw [hdestination, hsource]
  exact ⟨hnew, hsame, exts', hcarries, hrecorded.source⟩

/-- What holds along a trip: no destination twice, and all of them listed behind what the packet
listed at its start. -/
structure Traced (start : List UInt8) (exts₀ : List Ext) (dests : List (List UInt8)) (wire : List UInt8) : Prop where
  nodup : dests.Nodup
  source : source wire = source start
  listed : ∃ exts, Carries wire exts ∧ sourceList exts = if dests = [] then sourceList exts₀
    else some ((sourceList exts₀).getD [SalForwarding.source start] ++ dests)

variable {dests : List (List UInt8)}

theorem listed_append {l₀ : Option (List (List UInt8))} {first d : List UInt8} :
    (if dests = [] then l₀ else some (l₀.getD [first] ++ dests)).getD [first] ++ [d] =
      l₀.getD [first] ++ (dests ++ [d]) := by
  split
  next hnil => rw [hnil, nil_append]
  · rw [Option.getD_some, append_assoc]

theorem trip_traced {start wire : List UInt8} {exts₀ : List Ext}
    (hstart : Carries start exts₀) (h : Trip Roomy start dests wire) : Traced start exts₀ dests wire := by
  induction h with
  | here => exact ⟨nodup_nil, rfl, exts₀, hstart, rfl⟩
  | @hop dests wire wire' _ hhop ih =>
    obtain ⟨exts, hcarries, hlisted⟩ := ih.listed
    obtain ⟨hnew, hsame, exts', hcarries', hlisted'⟩ := hop_records hhop hcarries
    rw [ih.source] at hsame hlisted'
    refine ⟨?_, hsame, exts', hcarries', ?_⟩
    · rw [nodup_append]
      refine ⟨ih.nodup, nodup_singleton _, ?_⟩
      intro d hd d' hd' heq
      rw [mem_singleton] at hd'
      subst hd' heq
      rw [if_neg (ne_nil_of_mem hd)] at hlisted
      exact hnew _ hlisted (mem_append_right _ hd)
    · rw [if_neg (append_ne_nil_of_right_ne_nil _ (cons_ne_nil _ _)), hlisted', hlisted, listed_append]

/-- Through any hosts with any service tables and answers, as long as the packet has room for the
addresses: it is never forwarded twice with the same destination, its SOURCE extension lists the
source and the destinations in order, and there are no more forwards than addresses. -/
theorem forwarding_loop_free {start wire : List UInt8} {exts₀ : List Ext}
    (hstart : Carries start exts₀) (htrip : Trip Roomy start dests wire) :
    dests.Nodup ∧
    (dests ≠ [] → ∃ exts, Carries wire exts ∧
      sourceList exts = some ((sourceList exts₀).getD [source start] ++ dests)) ∧
    ∀ addresses : Finset (List UInt8), (∀ d ∈ dests, d ∈ addresses) → dests.length ≤ addresses.card := by
  have htraced := trip_traced hstart htrip
  refine ⟨htraced.nodup, ?_, ?_⟩
  · intro hne
    obtain ⟨exts, hcarries, hlisted⟩ := htraced.listed
    rw [if_neg hne] at hlisted
    exact ⟨exts, hcarries, hlisted⟩
  · intro addresses hall
    rw [← toFinset_card_of_nodup htraced.nodup]
    apply Finset.card_le_card
    intro d hd
    exact hall d (mem_toFinset.mp hd)

namespace Sample

open ServiceRuns.Sample (oneRule resultOf addRule)

/-- Packets from 10.0.0.8 to 10.0.0.9 for the service of the rule, by their bytes other than zero: two base headers, a
SERVICE extension at 132, and four ADDRESS extensions. -/
def memory (shl csum₀ csum₁ : UInt8) (rest : List (ℕ × UInt8)) : Mem := fun a =>
  if a < 168 then
    ([(100, 69), (109, 144), (112, 10), (115, 8), (116, 10), (119, 9), (123, 1), (127, 2),
      (128, shl), (130, csum₀), (131, csum₁), (132, 32), (133, 36), (136, 128)].lookup a).getD 0
  else (rest.lookup a).getD 0

def short : Skb := ⟨memory 12 83 216 [], 100, 68, 100, 0⟩

def long : Skb :=
  ⟨memory 253 159 18 [(168, 48), (169, 240), (408, 48), (409, 240), (648, 48), (649, 240), (888, 48),
    (889, 244)], 100, 1032, 100, 0⟩

def env : Env := ⟨0, .host, fun _ => some 14, true, true, none⟩

def onWire (skb : Skb) : List UInt8 := read skb.mem skb.data skb.len

def forwarded (tbl : Table) (skb : Skb) : Skb := (((servalIpv4Rcv tbl env skb).map (·.sent)).getD []).headD skb

def middle : Skb := forwarded oneRule short

/-- The host 10.0.0.1, which the rule names, has a rule to 10.0.0.2. -/
def nextTable : Table := resultOf serviceTableInit (addRule 2)

def last : Skb := forwarded nextTable middle

theorem forwards {tbl : Table} {skb : Skb} {ctx : SalContext} (harrives : Arrives skb (onWire skb))
    (hctx : acceptHeader (pullIp skb) = some ctx) (hfits : Fits (pullIp skb) ctx none 14)
    (hsent : (servalIpv4Rcv tbl env skb).map (·.sent.length) = some 1) :
    Hop Roomy (onWire skb) (onWire (forwarded tbl skb)) := by
  obtain ⟨r, hrun, hlen⟩ := Option.map_eq_some_iff.mp hsent
  obtain ⟨s, hs⟩ := length_eq_one_iff.mp hlen
  have hforwarded : forwarded tbl skb = s := by simp [forwarded, hrun, hs]
  refine ⟨tbl, env, skb, r, s, harrives, ?_, hrun, by simp [hs], by rw [hforwarded]; rfl⟩
  intro ctx' oif hardHeaderLen haccept hdev
  cases hctx.symm.trans haccept
  cases hdev
  exact hfits

theorem short_hop : Hop Roomy (onWire short) (onWire middle) :=
  @forwards oneRule short { hdr := 120, length := 48, ext := [132], srvExt0 := some 132 } ⟨rfl, rfl, by decide⟩
    (by decide +kernel) ⟨by decide, by decide⟩ (by decide +kernel)

theorem middle_hop : Hop Roomy (onWire middle) (onWire last) :=
  @forwards nextTable middle { hdr := 108, length := 60, ext := [120, 156], srvExt0 := some 120, srcExt := some 156 }
    ⟨by decide +kernel, rfl, by decide +kernel⟩ (by decide +kernel) ⟨by decide +kernel, by decide +kernel⟩
    (by decide +kernel)

def serviceExt : Ext := ⟨.service, read short.mem 132 36, rfl, by decide, by decide, nofun⟩

theorem short_carries : Carries (onWire short) [serviceExt] :=
  carries_of_contains ⟨rfl, rfl, by decide⟩ ⟨rfl, rfl, ⟨by decide, by decide, by decide⟩, by decide⟩
    (by decide)

/-- The header of the long packet has 1012 bytes. One more extension makes 1024, and the base
header states a length of zero. -/
theorem long_sent : (servalIpv4Rcv oneRule env long).map (fun r => r.sent.map fun s =>
    (s.data, s.networkHeader, iphLen s.mem s.networkHeader,
      hdrLength s.mem (s.networkHeader + iphLen s.mem s.networkHeader))) =
    some [(88, 88, 20, 0)] := by
  decide +kernel

theorem long_sourceless : (servalSalParseHdr long.mem 120 .all).1.srcExt = none := rfl

end Sample

open Sample in
/-- A packet without a SOURCE extension is forwarded once, and then carries no list of addresses:
its header states a length of zero. -/
theorem long_header_loses_list : ∃ exts₀ wire, Carries (onWire long) exts₀ ∧ sourceList exts₀ = none ∧
    Trip (fun _ _ => True) (onWire long) [destination (onWire long)] wire ∧
    ¬ ∃ exts, Carries wire exts := by
  have harrives : Arrives long (onWire long) := ⟨rfl, rfl, by decide⟩
  obtain ⟨r, hrun, hmap⟩ := Option.map_eq_some_iff.mp long_sent
  obtain ⟨s, hs, hfields⟩ := map_eq_singleton_iff.mp hmap
  simp only [Prod.mk.injEq] at hfields
  obtain ⟨hdata, hnet, hiph, hlength⟩ := hfields
  have hmem : s ∈ r.sent := by rw [hs]; exact mem_singleton.mpr rfl
  obtain ⟨ctx, hlen, haccept, -⟩ := rcv_sent hrun hmem
  obtain ⟨exts₀, hcarries, hdescribes⟩ := carries_of_accept harrives hlen haccept
  have hsrc : ctx.srcExt = none := by
    have hparse := (acceptHeader_spec haccept).1
    exact (congrArg (fun x => x.1.srcExt) hparse).symm.trans long_sourceless
  refine ⟨exts₀, read s.mem s.data s.len, hcarries, (sourceless_of_describes hdescribes hsrc).sourceList, ?_, ?_⟩
  · exact .hop .here ⟨_, env, long, r, s, harrives, trivial, hrun, hmem, rfl⟩
  · rintro ⟨exts, hc⟩
    have hcontains := contains_of_carries ⟨hdata.trans hnet.symm, rfl, hiph.ge⟩ hc
    have hzero := hcontains.length
    rw [hlength] at hzero
    exact absurd hzero (by simp only [SAL_HEADER_LEN]; omega)

open Sample in
/-- The short packet is forwarded by the host 10.0.0.9 and then by the host 10.0.0.1. -/
theorem forwarding_loop_free_two : [destination (onWire short), destination (onWire middle)].Nodup ∧
    ∃ exts, Carries (onWire last) exts ∧
      sourceList exts = some [source (onWire short), destination (onWire short), destination (onWire middle)] := by
  obtain ⟨hnodup, hlisted, -⟩ := forwarding_loop_free short_carries (.hop (.hop .here short_hop) middle_hop)
  exact ⟨hnodup, hlisted (cons_ne_nil _ _)⟩

end SalForwarding
