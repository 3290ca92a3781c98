import Serval.ServiceUniqueness

/-! # Finding an entry, and finding a socket

An entry is found by the longest prefix whose rules match. For a socket, the rules of every protocol count in that
search.
-/
namespace ServiceFind

open BitString BstModel BstLayout BstLookup BstRelease ServiceUniqueness Option
open ServiceTargets TargetSets ServiceTable ServiceTableSpec ServiceRuns
open ServiceEntryInvariant (entryOk_iff add_cases addTarget_ok copyDst_cases copyDst_some modify_exchanges
  targetCreate_some)
open List hiding beq_eq_decide

inductive RuleMatch where
  | localRules
  | globalRules
  | any
  | exact
  deriving DecidableEq

/-! ## The functions of the source -/

def serviceEntryAnyMatch (_ : ServiceEntry) : Option Bool := some true

def RuleMatch.func : RuleMatch → ServiceEntry → Option Bool
  | .localRules => serviceEntryLocalMatch
  | .globalRules => serviceEntryGlobalMatch
  | .any => serviceEntryAnyMatch
  | .exact => serviceEntryGlobalMatch

def matchNode (m : RuleMatch) (tbl : Table) (n : Ptr) : Bool := ((getService tbl n).bind m.func).getD false

def serviceTableFind (tbl : Table) (srvid : List UInt8) (bits : ℕ) (m : RuleMatch) : Option (Option Ptr) := do
  match ← bstFindLongestPrefixMatch tbl.tree srvid bits (some (matchNode m tbl)) with
  | none => return none
  | some n =>
    let nd ← tbl.tree.heap n
    return if m ≠ .exact ∨ nd.prefixBits = bits then some n else none

def serviceFind (tbl : Table) (srvid : List UInt8) (bits : ℕ) : Option (Option Ptr) :=
  serviceTableFind tbl srvid bits .any

def serviceFindExact (tbl : Table) (srvid : List UInt8) (bits : ℕ) : Option (Option Ptr) :=
  serviceTableFind tbl srvid bits .exact

def serviceFindSock (tbl : Table) (srvid : Option (List UInt8)) (bits : ℕ) (protocol : ℤ) : Option (Option Sock) :=
  match srvid with
  | none => some none
  | some srvid => do
    match ← serviceTableFind tbl srvid bits .localRules with
    | none => return none
    | some n =>
      let se ← getService tbl n
      match ← serviceEntryGetTarget se .demux none 0 protocol with
      | none => return none
      | some f =>
        let s ← f.target.out.asSk
        return some s

/-! ## Where the targets of an entry come from -/

variable {tbl tbl' : Table} {pos : List Bool → Option Ptr} {M : BitMap ServiceEntry} {op : Op}
  {p : List Bool} {se se' : ServiceEntry} {x : Target}

/-- A target after a call: it was there, it has been modified, or it has been created by an add. -/
inductive Origin (M : BitMap ServiceEntry) (op : Op) (p : List Bool) (x : Target) : Prop where
  | kept {se : ServiceEntry} : M.lookup p = some se → x ∈ targets se.targetSet → Origin M op p x
  | changed {se : ServiceEntry} {y : Target} : M.lookup p = some se → y ∈ targets se.targetSet →
      x.type = y.type → x.out = y.out → x.dst.length = y.dst.length → Origin M op p x
  | created {srvid prefixBits type flags priority weight dst dstlen out mem m w protocol} :
      op = .add (some srvid) prefixBits type flags priority weight dst dstlen out mem →
      ruleRefused type dst dstlen = false → targetProtocol dstlen out = some protocol →
      targetCreate type dst dstlen out w m = some (some x) → Origin M op p x

theorem copyDst_length {t t' : Target} {newDst : Option Buf} {newDstlen : ℕ}
    (h : copyDst t newDst newDstlen = some t') : t'.dst.length = t.dst.length := by
  rcases copyDst_cases h with ⟨rfl, -⟩ | ⟨d, -, hlen, hle, rfl⟩
  · rfl
  · exact (length_take_of_le hle).trans hlen

theorem moves_origin (h : TableRep tbl pos M) (hok : MapOk M) (hc : Careful tbl op)
    (hm : Moves M op p se se') (hx : x ∈ targets se'.targetSet) : Origin M op p x := by
  cases hm with
  | @add srvid prefixBits type flags priority weight dst dstlen out mem se se' m m' hrule hadd hfrom =>
    obtain ⟨hse, hroom, -⟩ := added_entry h hok hc hfrom
    rcases add_cases hadd with ⟨-, hne⟩ | ⟨-, protocol, t, -, hprot, hcreate, rfl⟩
    · exact absurd rfl hne
    · have hperm := (addTarget_ok (entryOk_iff.mp hse).1 hroom flags t).2
      rcases mem_cons.mp (hperm.mem_iff.mp hx) with rfl | hold
      · exact .created rfl hrule hprot hcreate
      · rcases hfrom with ⟨-, rfl⟩ | ⟨hl, -⟩
        · cases hold
        · exact .kept hl hold
  | modify hl hmod =>
    have hroom := hc se (by rw [entryAt_eq h, hl])
    rcases modify_exchanges (entryOk_iff.mp (hok.entry _ _ hl)).1 hroom hmod with
      ⟨rfl, -⟩ | ⟨f, t, w, rest, -, hcopy, -, -, -, hold, hnew⟩
    · exact .kept hl hx
    · rcases mem_cons.mp (hnew.mem_iff.mp hx) with rfl | hrest
      · have htype : t.type = f.target.type := by rw [copyDst_some hcopy]
        have hout : t.out = f.target.out := by rw [copyDst_some hcopy]
        have hlen : t.dst.length = f.target.dst.length := copyDst_length hcopy
        exact .changed hl (hold.mem_iff.mpr mem_cons_self) htype hout hlen
      · exact .kept hl (hold.mem_iff.mpr (mem_cons_of_mem _ hrest))
  | remove _ hl hrem _ =>
    rcases removeTarget_ok (hok.entry _ _ hl) hrem with ⟨hentry, -⟩ | ⟨-, -, -, t, -, hperm⟩
    · exact .kept hl (hentry ▸ hx)
    · exact .kept hl (hperm.mem_iff.mpr (mem_cons_of_mem _ hx))
  | removeByDev hl hrem _ =>
    obtain ⟨rem, hrem', -, -, hcont, -⟩ := removeByDev_ok _ (hok.entry _ _ hl)
    cases hrem.symm.trans hrem'
    rw [dev_targets hcont] at hx
    exact .kept hl (mem_of_mem_filter hx)

def Sockets (se : ServiceEntry) : Prop := ∀ t ∈ targets se.targetSet, t.type = .demux → t.out.asSk.isSome

theorem origin_sockets (hM : ∀ p se, M.lookup p = some se → Sockets se) (hx : Origin M op p x)
    (hdemux : x.type = .demux) : x.out.asSk.isSome := by
  cases hx with
  | kept hl hx => exact hM _ _ hl x hx hdemux
  | changed hl hy htype hout _ =>
    rw [hout]
    exact hM _ _ hl _ hy (htype.symm.trans hdemux)
  | @created srvid prefixBits type flags priority weight dst dstlen out mem m w protocol _ hrule hprot hcreate =>
    obtain rfl : type = .demux := (targetCreate_some hcreate).1.symm.trans hdemux
    have hzero : dstlen = 0 := by simpa [ruleRefused] using hrule
    rw [(created_fields hcreate).2 hzero]
    rw [targetProtocol, if_pos hzero] at hprot
    obtain ⟨s, hs, -⟩ := map_eq_some_iff.mp hprot
    rw [hs]
    rfl

theorem reachable_sockets (h : Reachable Careful tbl) :
    ∃ pos M, TableRep tbl pos M ∧ MapOk M ∧ ∀ p se, M.lookup p = some se → Sockets se :=
  reachable_entries (fun _ _ hc => hc)
    (fun hrep hok hM _ hc hm _ ht hdemux => origin_sockets hM (moves_origin hrep hok hc hm ht) hdemux) h

/-! ## The rules of an entry -/

def speaks (protocol : ℤ) (t : Target) : Bool :=
  t.type = .demux ∧ t.out.asSk.any fun s => (s.skProtocol.toNat : ℤ) = protocol

def socketOf (protocol : ℤ) (se : ServiceEntry) : Option Sock :=
  ((targets se.targetSet).find? (speaks protocol)).bind (·.out.asSk)

variable {protocol : ℤ}

theorem socketOf_isSome : (socketOf protocol se).isSome ↔ ∃ t ∈ targets se.targetSet, speaks protocol t = true := by
  rw [socketOf]
  cases hfind : (targets se.targetSet).find? (speaks protocol) with
  | none =>
    rw [find?_eq_none] at hfind
    simpa using hfind
  | some t =>
    have hspeaks := find?_some hfind
    have hsome : t.out.asSk.isSome := by
      obtain ⟨s, hs, -⟩ := (any_eq_true _ _).mp (of_decide_eq_true hspeaks).2
      exact isSome_iff_exists.mpr ⟨s, hs⟩
    exact iff_of_true hsome ⟨t, mem_of_find?_eq_some hfind, hspeaks⟩

theorem selects_any (hse : Sockets se) (hx : x ∈ targets se.targetSet) :
    selects .demux none 0 matchAnyProtocol x = some (decide (x.type = .demux)) := by
  by_cases htype : x.type = .demux
  · obtain ⟨s, hs⟩ := isSome_iff_exists.mp (hse x hx htype)
    simp [selects, isTarget, htype, hs]
  · simp [selects, isTarget, htype]

theorem selects_protocol (hse : Sockets se) (hprotocol : protocol ≠ 0)
    (hx : x ∈ targets se.targetSet) : selects .demux none 0 protocol x = some (speaks protocol x) := by
  by_cases htype : x.type = .demux
  · obtain ⟨s, hs⟩ := isSome_iff_exists.mp (hse x hx htype)
    have hany : (protocol == matchAnyProtocol) = false := by simpa [matchAnyProtocol] using hprotocol
    simp [selects, isTarget, htype, hs, speaks, hany, beq_eq_decide]
  · simp [selects, isTarget, htype, speaks]

theorem localMatch_spec (hse : Sockets se) :
    ∃ b, serviceEntryLocalMatch se = some b ∧ (b = true ↔ ∃ t ∈ targets se.targetSet, t.type = .demux) := by
  obtain ⟨r, hr, hfind⟩ := findTarget_find fun x hx => selects_any hse hx
  rw [serviceEntryLocalMatch, serviceEntryGetTarget, hr]
  cases r with
  | none =>
    refine ⟨false, rfl, ?_⟩
    have hnone := find?_eq_none.mp hfind.symm
    simpa using hnone
  | some f =>
    have hmem := mem_of_find?_eq_some hfind.symm
    have htype : f.target.type = .demux := by simpa using find?_some hfind.symm
    obtain ⟨s, hs⟩ := isSome_iff_exists.mp (hse _ hmem htype)
    have hraw : f.target.out.raw ≠ 0 := by
      cases hout : f.target.out with
      | oif i => simp [hout, TargetOut.asSk] at hs
      | sk r =>
        obtain rfl : r = some s := by simpa [hout, TargetOut.asSk] using hs
        exact s.nonnull
    exact ⟨true, by simp [hraw], iff_of_true rfl ⟨_, hmem, htype⟩⟩

theorem getTarget_spec (hse : Sockets se) (hprotocol : protocol ≠ 0) :
    ∃ r, serviceEntryGetTarget se .demux none 0 protocol = some r ∧
      (∀ f, r = some f → f.target.out.asSk.isSome) ∧ r.bind (·.target.out.asSk) = socketOf protocol se := by
  obtain ⟨r, hr, hfind⟩ := findTarget_find fun x hx => selects_protocol hse hprotocol hx
  refine ⟨r, hr, ?_, ?_⟩
  · rintro f rfl
    have hspeaks : speaks protocol f.target = true := find?_some hfind.symm
    exact hse _ (mem_of_find?_eq_some hfind.symm) (of_decide_eq_true hspeaks).1
  · rw [socketOf, ← hfind]
    cases r <;> rfl

/-! ## Finding the entry -/

theorem hit_iff_match (h : TableRep tbl pos M) {m : RuleMatch} {q : List Bool} {n : Ptr} (hq : pos q = some n) :
    Hit tbl.tree (some (matchNode m tbl)) n ↔ ∃ se, M.lookup q = some se ∧ m.func se = some true := by
  rw [hit_iff h.toHolds hq, ← Finmap.lookup_isSome, isSome_iff_exists]
  have hnode : nodeMatches (some (matchNode m tbl)) n = ((M.lookup q).bind m.func).getD false := by
    rw [← getService_spec h hq]
    rfl
  rw [hnode]
  cases hl : M.lookup q with
  | none => simp
  | some se => cases hm : m.func se <;> simp [hm]

theorem find_spec (h : TableRep tbl pos M) (key : List UInt8) (bits : ℕ) {m : RuleMatch} (hm : m ≠ .exact) :
    ∃ r, serviceTableFind tbl key bits m = some r ∧ match r with
      | none => ∀ q se, q <+: bitsOf key bits → M.lookup q = some se → m.func se ≠ some true
      | some n => ∃ q, pos q = some n ∧
          IsLongest (fun q => ∃ se, M.lookup q = some se ∧ m.func se = some true) (bitsOf key bits) q := by
  obtain ⟨r, hfind, hr⟩ := find_match_spec h.toLayout key bits (some (matchNode m tbl))
  cases r with
  | none =>
    refine ⟨none, by simp [serviceTableFind, hfind], ?_⟩
    intro q se hq hl hmatch
    obtain ⟨n, -, hn, -⟩ := h.bound_node hl
    exact hr q n hq hn ((hit_iff_match h hn).mpr ⟨se, hl, hmatch⟩)
  | some n =>
    obtain ⟨q, hq, hlong⟩ := hr
    obtain ⟨nd, hn, -⟩ := h.node q n hq
    refine ⟨some n, by simp [serviceTableFind, hfind, hn, hm], q, hq, hlong.isPrefix, ?_, ?_⟩
    · obtain ⟨m', hm', hit⟩ := hlong.holds
      exact (hit_iff_match h hm').mp hit
    · rintro r hr ⟨se, hl, hmatch⟩
      obtain ⟨n', -, hn', -⟩ := h.bound_node hl
      exact hlong.longest r hr ⟨n', hn', (hit_iff_match h hn').mpr ⟨se, hl, hmatch⟩⟩

/-! ## Finding the socket -/

def socketAt (tbl : Table) (protocol : ℤ) (q : List Bool) : Option Sock := (entryAt tbl q).bind (socketOf protocol)

def rulesAt (tbl : Table) (protocol : ℤ) (q : List Bool) : List Target :=
  ((entryAt tbl q).elim [] fun se => targets se.targetSet).filter (speaks protocol)

theorem socketAt_eq_head (tbl : Table) (protocol : ℤ) (q : List Bool) :
    socketAt tbl protocol q = (rulesAt tbl protocol q).head?.bind (·.out.asSk) := by
  rw [socketAt, rulesAt]
  cases entryAt tbl q with
  | none => rfl
  | some se => rw [bind_some, socketOf, elim_some, head?_filter]

def HasSocket (tbl : Table) (q : List Bool) : Prop := ∃ protocol, (socketAt tbl protocol q).isSome

def Unhidden (tbl : Table) (protocol : ℤ) (k : List Bool) : Prop :=
  ∀ q, IsLongest (HasSocket tbl) k q → (∃ r, r <+: k ∧ (socketAt tbl protocol r).isSome) →
    (socketAt tbl protocol q).isSome

def IsSocketFor (tbl : Table) (protocol : ℤ) (k : List Bool) : Option Sock → Prop
  | none => ∀ q, q <+: k → socketAt tbl protocol q = none
  | some s => ∃ q, IsLongest (fun q => (socketAt tbl protocol q).isSome) k q ∧ socketAt tbl protocol q = some s

theorem IsSocketFor.unique {k : List Bool} {r r' : Option Sock} (h : IsSocketFor tbl protocol k r)
    (h' : IsSocketFor tbl' protocol k r') (hsame : ∀ q, socketAt tbl protocol q = socketAt tbl' protocol q) :
    r = r' := by
  have hfun : socketAt tbl protocol = socketAt tbl' protocol := funext hsame
  cases r with
  | none =>
    cases r' with
    | none => rfl
    | some s' =>
      obtain ⟨q, hlong, hq⟩ := h'
      rw [← hfun, h q hlong.isPrefix] at hq
      cases hq
  | some s =>
    obtain ⟨q, hlong, hq⟩ := h
    cases r' with
    | none =>
      rw [hfun, h' q hlong.isPrefix] at hq
      cases hq
    | some s' =>
      obtain ⟨q', hlong', hq'⟩ := h'
      rw [← hfun] at hlong' hq'
      obtain rfl := hlong.unique hlong'
      exact hq.symm.trans hq'

theorem socketAt_eq (h : TableRep tbl pos M) (protocol : ℤ) (q : List Bool) :
    socketAt tbl protocol q = (M.lookup q).bind (socketOf protocol) := by
  rw [socketAt, entryAt_eq h]

theorem hasSocket_iff (h : TableRep tbl pos M) (hM : ∀ p se, M.lookup p = some se → Sockets se) (q : List Bool) :
    HasSocket tbl q ↔ ∃ se, M.lookup q = some se ∧ RuleMatch.localRules.func se = some true := by
  constructor
  · rintro ⟨protocol, hsome⟩
    rw [socketAt_eq h] at hsome
    obtain ⟨s, hs⟩ := isSome_iff_exists.mp hsome
    obtain ⟨se, hl, hsock⟩ := bind_eq_some_iff.mp hs
    obtain ⟨t, ht, hspeaks⟩ := socketOf_isSome.mp (isSome_iff_exists.mpr ⟨s, hsock⟩)
    obtain ⟨b, hb, hiff⟩ := localMatch_spec (hM q se hl)
    have htrue : b = true := hiff.mpr ⟨t, ht, (of_decide_eq_true hspeaks).1⟩
    exact ⟨se, hl, htrue ▸ hb⟩
  · rintro ⟨se, hl, hmatch⟩
    obtain ⟨b, hb, hiff⟩ := localMatch_spec (hM q se hl)
    obtain rfl : b = true := some.inj (hb.symm.trans hmatch)
    obtain ⟨t, ht, htype⟩ := hiff.mp rfl
    obtain ⟨s, hs⟩ := isSome_iff_exists.mp (hM q se hl t ht htype)
    refine ⟨s.skProtocol.toNat, ?_⟩
    rw [socketAt_eq h, hl]
    exact socketOf_isSome.mpr ⟨t, ht, by simp [speaks, htype, hs]⟩

/-- The socket is looked for in the entry of the longest prefix that has a socket of any protocol. -/
theorem findSock_spec (h : Reachable Careful tbl) (srvid : List UInt8) (bits : ℕ) (hprotocol : protocol ≠ 0) :
    (∀ q, q <+: bitsOf srvid bits → ¬ HasSocket tbl q) ∧ serviceFindSock tbl (some srvid) bits protocol = some none ∨
      ∃ q, IsLongest (HasSocket tbl) (bitsOf srvid bits) q ∧
        serviceFindSock tbl (some srvid) bits protocol = some (socketAt tbl protocol q) := by
  obtain ⟨pos, M, hrep, -, hM⟩ := reachable_sockets h
  obtain ⟨r, hfind, hr⟩ := find_spec hrep srvid bits (m := .localRules) (by decide)
  cases r with
  | none =>
    refine .inl ⟨fun q hq hsock => ?_, by simp [serviceFindSock, hfind]⟩
    obtain ⟨se, hl, hmatch⟩ := (hasSocket_iff hrep hM q).mp hsock
    exact hr q se hq hl hmatch
  | some n =>
    obtain ⟨q, hq, hlong⟩ := hr
    have hlong' : IsLongest (HasSocket tbl) (bitsOf srvid bits) q :=
      ⟨hlong.isPrefix, (hasSocket_iff hrep hM q).mpr hlong.holds,
        fun r hr hsock => hlong.longest r hr ((hasSocket_iff hrep hM r).mp hsock)⟩
    obtain ⟨se, hl, -⟩ := hlong.holds
    obtain ⟨f, hget, hsome, hsock⟩ := getTarget_spec (hM q se hl) hprotocol
    have hentry : getService tbl n = some se := (getService_spec hrep hq).trans hl
    have hat : socketAt tbl protocol q = f.bind (·.target.out.asSk) := by
      rw [socketAt_eq hrep, hl, hsock]
      rfl
    refine .inr ⟨q, hlong', ?_⟩
    rw [hat]
    cases f with
    | none => simp [serviceFindSock, hfind, hentry, hget]
    | some f =>
      obtain ⟨s, hs⟩ := isSome_iff_exists.mp (hsome f rfl)
      simp [serviceFindSock, hfind, hentry, hget, hs]

theorem unhidden_iff (h : Reachable Careful tbl) (srvid : List UInt8) (bits : ℕ) (hprotocol : protocol ≠ 0) :
    (∃ r, serviceFindSock tbl (some srvid) bits protocol = some r ∧ IsSocketFor tbl protocol (bitsOf srvid bits) r) ↔
      Unhidden tbl protocol (bitsOf srvid bits) := by
  rcases findSock_spec h srvid bits hprotocol with ⟨hnone, heq⟩ | ⟨q, hlong, heq⟩
  · refine iff_of_true ⟨none, heq, fun q hq => ?_⟩ fun q hlong => absurd hlong.holds (hnone q hlong.isPrefix)
    by_contra hne
    exact hnone q hq ⟨protocol, ne_none_iff_isSome.mp hne⟩
  constructor
  · rintro ⟨r, hfind, hr⟩ q' hlong' ⟨p, hp, hsome⟩
    obtain rfl := hlong'.unique hlong
    cases heq.symm.trans hfind
    by_contra hne
    rw [not_isSome_iff_eq_none.mp hne] at hr
    rw [hr p hp] at hsome
    cases hsome
  · intro hunhidden
    refine ⟨_, heq, ?_⟩
    cases hsock : socketAt tbl protocol q with
    | none =>
      intro r hr
      by_contra hne
      have hsome := hunhidden q hlong ⟨r, hr, ne_none_iff_isSome.mp hne⟩
      simp [hsock] at hsome
    | some s =>
      refine ⟨q, ⟨hlong.isPrefix, by simp [hsock], fun r hr hsome => ?_⟩, hsock⟩
      exact hlong.longest r hr ⟨protocol, hsome⟩

/-- `service_find_sock` returns the socket of the longest prefix exactly where no other protocol hides it, and then what
other rules the table has does not matter. -/
theorem findSock_longest (h : Reachable Careful tbl) (srvid : List UInt8) (bits : ℕ) (protocol : ℤ)
    (hprotocol : protocol ≠ 0) :
    ((∃ r, serviceFindSock tbl (some srvid) bits protocol = some r ∧ IsSocketFor tbl protocol (bitsOf srvid bits) r) ↔
      Unhidden tbl protocol (bitsOf srvid bits)) ∧
      ∀ tbl', Reachable Careful tbl' → Unhidden tbl protocol (bitsOf srvid bits) →
        Unhidden tbl' protocol (bitsOf srvid bits) → (∀ q, rulesAt tbl' protocol q = rulesAt tbl protocol q) →
        serviceFindSock tbl' (some srvid) bits protocol = serviceFindSock tbl (some srvid) bits protocol := by
  refine ⟨unhidden_iff h srvid bits hprotocol, fun tbl' h' hunhidden hunhidden' hrules => ?_⟩
  have hsame : ∀ q, socketAt tbl' protocol q = socketAt tbl protocol q := by
    intro q
    rw [socketAt_eq_head, socketAt_eq_head, hrules q]
  obtain ⟨r, heq, hr⟩ := (unhidden_iff h srvid bits hprotocol).mpr hunhidden
  obtain ⟨r', heq', hr'⟩ := (unhidden_iff h' srvid bits hprotocol).mpr hunhidden'
  rw [heq, heq', hr'.unique hr hsame]

namespace Sample

open ServiceRuns.Sample

def udp : Sock := ⟨4096, 17, by decide⟩

def tcp : Sock := ⟨8192, 6, by decide⟩

def addSock (bits : ℕ) (s : Sock) : Op := .add (some srvid) bits .demux 0 0 1 none 0 (.sk (some s)) 8

def udpOnly : Table := resultOf serviceTableInit (addSock 1 udp)

def both : Table := resultOf udpOnly (addSock 2 tcp)

def deepUdp : Sock := ⟨12288, 17, by decide⟩

def three : Table := resultOf both (addSock 3 deepUdp)

theorem udpOnly_reachable : Reachable Careful udpOnly :=
  .step (addSock 1 udp) .init ⟨rfl, by decide⟩ ⟨by decide, nofun⟩ (r := 1) rfl

theorem three_reachable : Reachable Careful three :=
  .step (addSock 3 deepUdp)
    (.step (addSock 2 tcp) udpOnly_reachable ⟨rfl, by decide⟩ ⟨by decide, nofun⟩ (r := 1) rfl)
    ⟨rfl, by decide⟩ ⟨by decide, nofun⟩ (r := 1) rfl

theorem three_unhidden : Unhidden three 17 (bitsOf srvid 256) := by
  intro q hlong _
  have hdeep : [true, false, false] <+: bitsOf srvid 256 := ⟨(bitsOf srvid 256).drop 3, rfl⟩
  have hle := hlong.longest [true, false, false] hdeep ⟨17, rfl⟩
  obtain ⟨protocol, hsome⟩ := hlong.holds
  have hentry : entryAt three q ≠ none := by
    intro hnone
    rw [socketAt, hnone] at hsome
    cases hsome
  rw [entry_of_leaf (by decide) (prefix_of_prefix_length_le hdeep hlong.isPrefix hle) hentry]
  rfl

end Sample

open Sample in
/-- A TCP socket lies between two UDP sockets, and the one of the longest prefix is found. -/
theorem findSock_longest_three :
    serviceFindSock three (some ServiceRuns.Sample.srvid) 256 17 = some (some deepUdp) ∧
      IsSocketFor three 17 (bitsOf ServiceRuns.Sample.srvid 256) (some deepUdp) := by
  obtain ⟨hiff, -⟩ := findSock_longest three_reachable ServiceRuns.Sample.srvid 256 17 (by decide)
  obtain ⟨r, heq, hr⟩ := hiff.mpr three_unhidden
  have hfound : serviceFindSock three (some ServiceRuns.Sample.srvid) 256 17 = some (some deepUdp) := rfl
  cases hfound.symm.trans heq
  exact ⟨hfound, hr⟩

open ServiceRuns.Sample in
open Sample in
/-- The TCP socket hides the UDP socket, whose rule is still there. -/
theorem tcp_hides_udp :
    Reachable Careful udpOnly ∧ run udpOnly (addSock 2 tcp) = some (both, 1) ∧
      [true] <+: bitsOf srvid 256 ∧ socketAt both 17 [true] = some udp ∧
      serviceFindSock udpOnly (some srvid) 256 17 = some (some udp) ∧
      serviceFindSock both (some srvid) 256 17 = some none :=
  ⟨udpOnly_reachable, rfl, ⟨(bitsOf srvid 256).tail, rfl⟩, rfl, rfl, rfl⟩

end ServiceFind
