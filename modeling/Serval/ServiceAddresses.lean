import Serval.ServiceDefined
import Serval.ServiceFind

/-! # Rules for IPv4 addresses

The control channel adds, modifies and removes FORWARD rules of four bytes. If all have that length, no comparison of
destinations leaves its arguments.
-/
namespace ServiceAddresses

open BitString BstModel BstLayout BstInsert ServiceTargets TargetSets ServiceIterator ServiceTable Finmap List
open ServiceTableSpec ServiceRuns ServiceUniqueness ServiceDefined ServiceFind
open ServiceEntryInvariant (HasRoom entryOk_iff add_cases addTarget_ok modify_exchanges targetCreate_some)
open Option hiding or or_self

def Addressed (se : ServiceEntry) : Prop := ∀ t ∈ targets se.targetSet, t.type = .forward → t.dst.length = 4

def Ipv4 (tbl : Table) (op : Op) : Prop :=
  Careful tbl op ∧ ∀ srvid bits flags priority weight dst dstlen out mem,
    op = .add srvid bits .forward flags priority weight dst dstlen out mem → dstlen = 4

def forwards (address : List UInt8) (t : Target) : Bool := t.type == .forward && t.dst == address

variable {tbl tbl' : Table} {pos : List Bool → Option Ptr} {M M' : BitMap ServiceEntry} {op : Op}
  {p : List Bool} {se se' : ServiceEntry} {x : Target} {d d' : Buf}

theorem origin_addressed (hop : Ipv4 tbl op) (hM : ∀ p se, M.lookup p = some se → Addressed se)
    (hx : Origin M op p x) (hforward : x.type = .forward) : x.dst.length = 4 := by
  cases hx with
  | kept hl hx => exact hM _ _ hl x hx hforward
  | changed hl hy htype _ hlen =>
    rw [hlen]
    exact hM _ _ hl _ hy (htype.symm.trans hforward)
  | @created srvid prefixBits type flags priority weight dst dstlen out mem m w protocol hadd hrule _ hcreate =>
    obtain rfl : type = .forward := (targetCreate_some hcreate).1.symm.trans hforward
    obtain rfl : dstlen = 4 := hop.2 _ _ _ _ _ _ _ _ _ hadd
    obtain ⟨d, rfl, hdst⟩ := (created_fields hcreate).1 (by decide)
    -- the target was created, so the argument was long enough
    have hlong : ¬ d.bytes.length < 4 := by
      intro hshort
      unfold targetCreate at hcreate
      split at hcreate
      · cases hcreate
      · split at hcreate
        · cases hcreate
        · simp [hshort] at hcreate
    rw [hdst, length_take]
    omega

theorem reachable_addressed (h : Reachable Ipv4 tbl) :
    ∃ pos M, TableRep tbl pos M ∧ MapOk M ∧ ∀ p se, M.lookup p = some se → Addressed se :=
  reachable_entries (fun _ _ hop => hop.1)
    (fun hrep hok hM _ hop hm _ ht => origin_addressed hop hM (moves_origin hrep hok hop.1 hm ht)) h

/-! ## The tests -/

theorem compare_address {a b : List UInt8} (ha : a.length = 4) (hb : b.length = 4) : memcmp a b 4 = some (a == b) := by
  rw [memcmp, if_pos ⟨ha.ge, hb.ge⟩, take_of_length_le ha.le, take_of_length_le hb.le]

theorem isTarget_forward (hx : x.type = .forward → x.dst.length = 4) (hd : d.bytes.length = 4) :
    isTarget x .forward (some d) 4 = some (forwards d.bytes x) := by
  by_cases htype : x.type = .forward
  · simp [isTarget, forwards, htype, compare_address (hx htype) hd]
  · simp [isTarget, forwards, htype]

theorem selects_forward (protocol : ℤ) (hx : x.type = .forward → x.dst.length = 4) (hd : d.bytes.length = 4) :
    selects .forward (some d) 4 protocol x = some (forwards d.bytes x) := by
  rw [selects, isTarget_forward hx hd]
  cases forwards d.bytes x <;> rfl

theorem removes_forward (hx : x.type = .forward → x.dst.length = 4) (hd : d.bytes.length = 4) :
    removes .forward (some d) 4 x = some (forwards d.bytes x) := by
  by_cases htype : x.type = .forward
  · simp [removes, forwards, htype, compare_address (hx htype) hd]
  · simp [removes, forwards, htype]

theorem Addressed.readable (h : Addressed se) : Readable .forward 4 se :=
  fun t ht htype => ⟨fun _ => (h t ht htype).ge, fun hdemux => by cases hdemux⟩

theorem given_four (hd : d.bytes.length = 4) : Given (some d) 4 := hd.ge

/-! ## What the calls do -/

def targetsAt (tbl : Table) (p : List Bool) : List Target :=
  ((entryAt tbl p).map fun se => targets se.targetSet).getD []

structure Created (tbl tbl' : Table) (p : List Bool) (address : List UInt8) (weight : UInt32) : Prop where
  target : ∃ t, t.type = .forward ∧ t.dst = address ∧ t.weight = weight ∧ (targetsAt tbl' p).Perm (t :: targetsAt tbl p)
  others : ∀ q, q ≠ p → entryAt tbl' q = entryAt tbl q

structure Changed (tbl tbl' : Table) (p : List Bool) (old new : List UInt8) (weight : UInt32) : Prop where
  target : ∃ t t' rest, t.type = .forward ∧ t.dst = old ∧ t'.type = .forward ∧ t'.dst = new ∧ t'.weight = weight ∧
    (targetsAt tbl p).Perm (t :: rest) ∧ (targetsAt tbl' p).Perm (t' :: rest)
  others : ∀ q, q ≠ p → entryAt tbl' q = entryAt tbl q

def Roomy (n : ℕ) (tbl : Table) : Prop :=
  tbl.services.toNat + n < 2 ^ 32 ∧ ∀ p, (targetsAt tbl p).length + n < 2 ^ 16

theorem targetsAt_eq (h : TableRep tbl pos M) (p : List Bool) :
    targetsAt tbl p = ((M.lookup p).map fun se => targets se.targetSet).getD [] := by
  rw [targetsAt, entryAt_eq h]

theorem Roomy.mono {m n : ℕ} (h : Roomy n tbl) (hmn : m ≤ n) : Roomy m tbl :=
  ⟨by have := h.1; omega, fun p => by have := h.2 p; omega⟩

theorem Roomy.entry {n : ℕ} (h : Roomy (n + 1) tbl) (hse : entryAt tbl p = some se) (priority : UInt32) :
    HasRoom se.targetSet priority ∧ (targets se.targetSet).length < 2 ^ 32 - 1 := by
  have hlen := h.2 p
  rw [targetsAt, hse] at hlen
  simp only [map_some, getD_some] at hlen
  refine ⟨?_, by omega⟩
  intro set hset _
  have hle : set.list.length ≤ (targets se.targetSet).length :=
    (sublist_flatten_of_mem (mem_map.mpr ⟨set, hset, rfl⟩)).length_le
  omega

variable {pos' : List Bool → Option Ptr}

theorem entries_same (h : TableRep tbl pos M) (h' : TableRep tbl' pos' M) (q : List Bool) :
    entryAt tbl' q = entryAt tbl q := by
  rw [entryAt_eq h', entryAt_eq h]

theorem entries_insert (h : TableRep tbl pos M) {k : List Bool}
    (h' : TableRep tbl' pos' (M.insert k se')) {q : List Bool} (hq : q ≠ k) : entryAt tbl' q = entryAt tbl q := by
  rw [entryAt_eq h', entryAt_eq h, Finmap.lookup_insert_of_ne _ hq]

theorem targetsAt_insert {k : List Bool} (h' : TableRep tbl' pos (M.insert k se')) :
    targetsAt tbl' k = targets se'.targetSet := by
  simp [targetsAt_eq h']

theorem roomy_same {n : ℕ} (h : TableRep tbl pos M) (h' : TableRep tbl' pos' M)
    (hok : MapOk M) (hroom : Roomy n tbl) : Roomy n tbl' := by
  refine ⟨?_, fun p => ?_⟩
  · rw [services_eq h' hok, ← services_eq h hok]
    exact hroom.1
  · rw [targetsAt_eq h', ← targetsAt_eq h]
    exact hroom.2 p

theorem roomy_insert {n : ℕ} (h : TableRep tbl pos M) (hok : MapOk M) {k : List Bool}
    (h' : TableRep tbl' pos' (M.insert k se')) (hok' : MapOk (M.insert k se'))
    (hlen : (targets se'.targetSet).length ≤ (targetsAt tbl k).length + 1) (hroom : Roomy (n + 1) tbl) :
    Roomy n tbl' := by
  refine ⟨?_, fun p => ?_⟩
  · have hcard : (M.insert k se').keys.card ≤ M.keys.card + 1 := by
      by_cases hk : k ∈ M
      · rw [card_keys_insert hk]
        exact Nat.le_succ _
      · rw [card_insert_new hk]
    have hold := hroom.1
    rw [services_eq h hok] at hold
    rw [services_eq h' hok']
    omega
  · by_cases hp : p = k
    · subst hp
      have hold := hroom.2 p
      rw [targetsAt_insert h']
      omega
    · have hold := hroom.2 p
      rw [targetsAt, entries_insert h h' hp, ← targetsAt]
      omega

section Calls

variable {flags : UInt16} {priority weight ifindex : UInt32} {mem n : ℕ} {key : List UInt8} {bits : ℕ}

/-- `service_add` of a FORWARD rule: it creates a target if and only if it returns a positive value. -/
theorem add_forward (h : Reachable Ipv4 tbl) (hroom : Roomy (n + 1) tbl) (hkey : key.length = 32) (hb : bits ≤ 256)
    (hd : d.bytes.length = 4) :
    ∃ tbl' r, serviceAdd tbl (some key) bits .forward flags priority weight (some d) 4 (.oif ifindex) mem =
      some (tbl', r) ∧ Reachable Ipv4 tbl' ∧ Roomy n tbl' ∧
      (0 < r ∧ Created tbl tbl' (bitsOf key (normBits key bits)) d.bytes (atLeastOne weight) ∨
        ¬ 0 < r ∧ ∀ q, entryAt tbl' q = entryAt tbl q) := by
  obtain ⟨pos, M, hrep, hok, hM⟩ := reachable_addressed h
  let op : Op := .add (some key) bits .forward flags priority weight (some d) 4 (.oif ifindex) mem
  have hcareful : Careful tbl op := ⟨by have := hroom.1; omega, fun se hse => hroom.entry hse priority⟩
  have hentry : HasEntryRoom M := by
    rw [HasEntryRoom, ← services_eq hrep hok]
    exact hcareful.1
  obtain ⟨tbl', r, hrun, hr⟩ := @add_runs tbl pos M .forward (some d) 4 flags priority weight (.oif ifindex) mem
    hrep hentry key bits (fun se hl => (hM _ se hl).readable) (by omega) (given_four hd) (by simp)
  refine ⟨tbl', r, hrun, ?_⟩
  have hipv4 : Ipv4 tbl op := by
    refine ⟨hcareful, ?_⟩
    intro _ _ _ _ _ _ dstlen _ _ hop
    dsimp only [op] at hop
    cases hop
    rfl
  have hlegal : Legal tbl op := ⟨hkey, hb⟩
  obtain ⟨pos', M', hrep', hout⟩ := step_outcome hrep hok hlegal hcareful hrun
  have hok' := step_mapOk hrep hok hcareful hout
  refine ⟨.step _ h hlegal hipv4 hrun, ?_⟩
  rcases hout with ⟨rfl, hne⟩ | ⟨rfl, -, se, se', m, m', hadd, rfl, hfrom⟩
  · exact ⟨roomy_same hrep hrep' hok (hroom.mono (Nat.le_succ n)), .inr ⟨by omega, entries_same hrep hrep'⟩⟩
  · obtain ⟨hse, hfit, -⟩ := added_entry hrep hok hcareful hfrom
    have hbefore : targetsAt tbl (bitsOf key (normBits key bits)) = targets se.targetSet := by
      rw [targetsAt_eq hrep]
      rcases hfrom with ⟨hnone, rfl⟩ | ⟨hl, -⟩
      · simp [hnone, serviceEntryCreate]
      · simp [hl]
    rcases add_cases hadd with ⟨-, hne⟩ | ⟨-, protocol, t, -, -, hcreate, rfl⟩
    · exact absurd rfl hne
    obtain ⟨htype, hweight⟩ := targetCreate_some hcreate
    obtain ⟨d₁, hd₁, hdst⟩ := (created_fields hcreate).1 (by decide)
    cases hd₁
    rw [take_of_length_le hd.le] at hdst
    have hperm := (addTarget_ok (entryOk_iff.mp hse).1 hfit flags t).2
    refine ⟨roomy_insert hrep hok hrep' hok' ?_ hroom, .inl ⟨by decide, ⟨t, htype, hdst, hweight, ?_⟩, ?_⟩⟩
    · rw [hbefore, hperm.length_eq, length_cons]
    · rw [targetsAt_insert hrep', hbefore]
      exact hperm
    · exact fun q hq => entries_insert hrep hrep' hq

theorem copy_address {t : Target} (hlen : x.dst.length = 4) (hd : d.bytes.length = 4)
    (h : copyDst x (some d) 4 = some t) : t.type = x.type ∧ t.dst = d.bytes := by
  simp only [copyDst, hlen, hd, lt_irrefl, if_true, if_false, take_of_length_le hd.le, some.injEq] at h
  subst h
  exact ⟨rfl, rfl⟩

/-- A FORWARD rule to the address is there, and a set for the priority is there or can be made. -/
def Modifiable (se : ServiceEntry) (dst : List UInt8) (priority : UInt32) (mem : ℕ) : Prop :=
  (∃ t ∈ targets se.targetSet, forwards dst t = true) ∧ (0 < mem ∨ ∃ set ∈ se.targetSet, set.priority = priority)

theorem modify_positive {se se' : ServiceEntry} {newDst : Option Buf} {newDstlen : ℕ} {routed : Bool} {r : ℤ}
    (hse : Addressed se) (hd : d.bytes.length = 4)
    (h : serviceEntryModifyTarget se .forward flags priority weight (some d) 4 newDst newDstlen routed mem =
      some (se', r)) : 0 < r ↔ routed = true ∧ Modifiable se d.bytes priority mem := by
  have hsel : ∀ x ∈ targets se.targetSet, selects .forward (some d) 4 matchNoProtocol x = some (forwards d.bytes x) :=
    fun x hx => selects_forward _ (hse x hx) hd
  rw [serviceEntryModifyTarget, if_neg (by decide)] at h
  obtain ⟨found, hfound, h⟩ := bind_eq_some_iff.mp h
  cases found with
  | none =>
    cases h
    refine iff_of_false (lt_irrefl 0) ?_
    rintro ⟨-, ⟨t, ht, hforwards⟩, -⟩
    have hno := findTarget_none.mp hfound t ht
    rw [hsel t ht, hforwards] at hno
    cases hno
  | some f =>
    obtain ⟨hlies, hyes, -⟩ := findTarget_some hfound
    have hset : f.set ∈ se.targetSet := by simp [hlies.sets_eq]
    have hmem : f.target ∈ targets se.targetSet := mem_flatMap.mpr ⟨f.set, hset, by simp [hlies.list_eq]⟩
    have hthere : ∃ t ∈ targets se.targetSet, forwards d.bytes t = true :=
      ⟨f.target, hmem, some.inj ((hsel _ hmem).symm.trans hyes)⟩
    cases routed with
    | false =>
      cases h
      simp
    | true =>
      obtain ⟨t, -, h⟩ := bind_eq_some_iff.mp h
      simp only [Modifiable, hthere, true_and]
      split at h
      · cases hset : serviceEntryGetTargetSet se.targetSet priority with
        | some set =>
          rw [hset] at h
          cases h
          exact iff_of_true one_pos (.inr ⟨set, getTargetSet_some hset⟩)
        | none =>
          have hno : ¬∃ set ∈ se.targetSet, set.priority = priority := by simpa using getTargetSet_none.mp hset
          rw [hset] at h
          dsimp only at h
          split at h
          next hmem =>
            cases h
            exact iff_of_false (by decide) (by simp [hmem, hno])
          next hmem =>
            cases h
            exact iff_of_true one_pos (.inl (Nat.pos_of_ne_zero hmem))
      · next hp =>
        cases h
        exact iff_of_true one_pos (.inr ⟨f.set, hset, not_not.mp hp⟩)

theorem modify_forward (h : Reachable Ipv4 tbl) (hroom : Roomy (n + 1) tbl) (hkey : key.length = 32) (hb : bits ≤ 256)
    (hd : d.bytes.length = 4) (hd' : d'.bytes.length = 4) {routed : Bool} :
    ∃ tbl' r, serviceModify tbl (some key) bits .forward flags priority weight (some d) 4 (some d') 4 routed mem =
      some (tbl', r) ∧ Reachable Ipv4 tbl' ∧ Roomy n tbl' ∧
      (0 < r → Changed tbl tbl' (bitsOf key (normBits key bits)) d.bytes d'.bytes (atLeastOne weight)) ∧
      (0 < r ↔ routed = true ∧
        ∃ se, entryAt tbl (bitsOf key (normBits key bits)) = some se ∧ Modifiable se d.bytes priority mem) := by
  obtain ⟨pos, M, hrep, hok, hM⟩ := reachable_addressed h
  let op : Op := .modify (some key) bits .forward flags priority weight (some d) 4 (some d') 4 routed mem
  have hcareful : Careful tbl op := fun se hse => (hroom.entry hse priority).1
  have hlegal : Legal tbl op := ⟨hkey, hb⟩
  obtain ⟨tbl', r, hrun, hr⟩ := @modify_runs tbl pos M .forward (some d) (some d') 4 4 flags priority weight mem hrep
    key bits (fun se hl => (hM _ se hl).readable) (given_four hd) (fun _ => given_four hd') routed
  refine ⟨tbl', r, hrun, .step _ h hlegal ⟨hcareful, fun _ _ _ _ _ _ _ _ _ hop => by simp [op] at hop⟩ hrun, ?_⟩
  obtain ⟨M', hrep', hout⟩ := modify_spec hrep hrun
  rw [← and_assoc]
  rcases hout with ⟨rfl, hneg, hnone⟩ | ⟨se, se', hl, hmod, rfl⟩
  · refine ⟨⟨roomy_same hrep hrep' hok (hroom.mono (Nat.le_succ n)), fun hpos => by omega⟩, ?_⟩
    simp [entryAt_eq hrep, lookup_eq_none.mpr hnone, not_lt.mpr hneg.le]
  · have hok' := step_mapOk hrep hok hcareful (.inr ⟨se, se', hl, hmod, rfl⟩)
    have hbefore : targetsAt tbl (bitsOf key (normBits key bits)) = targets se.targetSet := by
      simp [targetsAt_eq hrep, hl]
    have hfit := hcareful se (by rw [entryAt_eq hrep, hl])
    refine ⟨?_, by simpa [entryAt_eq hrep, hl] using modify_positive (hM _ _ hl) hd hmod⟩
    rcases modify_exchanges (entryOk_iff.mp (hok.entry _ _ hl)).1 hfit hmod with
      ⟨rfl, hne⟩ | ⟨f, t, w, rest, hfound, hcopy, hw, -, -, hold, hnew⟩
    · refine ⟨roomy_insert hrep hok hrep' hok' ?_ hroom, fun hpos => by omega⟩
      rw [hbefore]
      exact Nat.le_succ _
    · refine ⟨roomy_insert hrep hok hrep' hok' ?_ hroom, fun hpos => ⟨?_, fun q hq => entries_insert hrep hrep' hq⟩⟩
      · rw [hbefore, hold.length_eq, hnew.length_eq, length_cons, length_cons]
        exact Nat.le_succ _
      · obtain rfl : w = atLeastOne weight := hw.resolve_left fun hbad => hbad.2 (by omega)
        have hmem : f.target ∈ targets se.targetSet := hold.mem_iff.mpr mem_cons_self
        have hsel := (findTarget_some hfound).2.1
        rw [selects_forward _ (hM _ _ hl _ hmem) hd] at hsel
        obtain ⟨htype, hdst⟩ : f.target.type = .forward ∧ f.target.dst = d.bytes := by simpa [forwards] using hsel
        obtain ⟨htype', hdst'⟩ := copy_address (hM _ _ hl _ hmem htype) hd' hcopy
        refine ⟨f.target, { t with weight := atLeastOne weight }, rest, htype, hdst, htype'.trans htype,
          hdst', rfl, ?_, ?_⟩
        · rw [hbefore]
          exact hold
        · rw [targetsAt_insert hrep']
          exact hnew

end Calls

end ServiceAddresses
