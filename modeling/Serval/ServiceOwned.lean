import Serval.ServiceAddresses

/-! # One rule while others change

A FORWARD rule for an address at a prefix stays the only one, and as it was made, while the table is changed elsewhere
and packets are counted.
-/
namespace ServiceOwned

open BitString BstModel BstLayout BstLookup BstTraversal ServiceTargets TargetSets ServiceTable ServiceTableSpec
  ServiceRuns List Option Finmap
open ServiceUniqueness ServiceDefined ServiceAddresses ServiceFind
open ServiceEntryInvariant (EntryOk HasRoom entryOk_iff add_cases addTarget_ok modify_exchanges copyDst_some
  targetCreate_cases targetCreate_some)

/-! ## Counting packets -/

def countedStats (packets bytes : ℤ) (s : TargetStats) : TargetStats :=
  if 0 < packets then
    { s with
      packetsResolved := s.packetsResolved + .ofInt packets
      bytesResolved := s.bytesResolved + .ofInt bytes }
  else
    { s with
      packetsDropped := s.packetsDropped + .ofInt (-packets)
      bytesDropped := s.bytesDropped + .ofInt (-bytes) }

def countTarget (packets bytes : ℤ) (t : Target) : Target := { t with stats := countedStats packets bytes t.stats }

def countInSet (k : ℕ) (packets bytes : ℤ) (set : TargetSet) : TargetSet :=
  { set with list := set.list.modify k (countTarget packets bytes) }

/-- What `service_iter_inc_stats` and `__service_entry_inc_target_stats` do to the target that they are at, which is
target `k` of set `i`. -/
def incTargetStats (i k : ℕ) (packets bytes : ℤ) (se : ServiceEntry) : ServiceEntry :=
  { se with targetSet := se.targetSet.modify i (countInSet k packets bytes) }

def count (tbl : Table) (q : List Bool) (i k : ℕ) (packets bytes : ℤ) : Option Table := do
  let n ← nodeAt tbl.tree q
  let se ← getService tbl n
  setService tbl n (incTargetStats i k packets bytes se)

def Alike (x t : Target) : Prop := t.type = x.type ∧ t.weight = x.weight ∧ t.out = x.out ∧ t.dst = x.dst

theorem Alike.refl (x : Target) : Alike x x := ⟨rfl, rfl, rfl, rfl⟩

theorem Alike.trans {x y z : Target} (h : Alike x y) (h' : Alike y z) : Alike x z :=
  ⟨h'.1.trans h.1, h'.2.1.trans h.2.1, h'.2.2.1.trans h.2.2.1, h'.2.2.2.trans h.2.2.2⟩

theorem forall₂_modify {α : Type*} {R : α → α → Prop} (hrefl : ∀ x, R x x) {f : α → α} (hf : ∀ x, R x (f x))
    (l : List α) (i : ℕ) : List.Forall₂ R l (l.modify i f) := by
  induction l generalizing i with
  | nil =>
    rw [modify_nil]
    exact .nil
  | cons x l ih =>
    cases i with
    | zero => exact .cons (hf x) (forall₂_same.mpr fun y _ => hrefl y)
    | succ i => exact .cons (hrefl x) (ih i)

theorem forall₂_back {α : Type*} {R : α → α → Prop} {l l' : List α} {y : α} (h : List.Forall₂ R l l') (hy : y ∈ l') :
    ∃ x ∈ l, R x y := by
  induction h with
  | nil => cases hy
  | cons hxy _ ih =>
    rcases mem_cons.mp hy with rfl | hy
    · exact ⟨_, mem_cons_self, hxy⟩
    · obtain ⟨x, hx, hR⟩ := ih hy
      exact ⟨x, mem_cons_of_mem _ hx, hR⟩

def AlikeSet (s s' : TargetSet) : Prop :=
  List.Forall₂ Alike s.list s'.list ∧ s'.normalizer = s.normalizer ∧ s'.priority = s.priority ∧ s'.flags = s.flags ∧
    s'.count = s.count

theorem AlikeSet.refl (s : TargetSet) : AlikeSet s s :=
  ⟨forall₂_same.mpr fun t _ => .refl t, rfl, rfl, rfl, rfl⟩

theorem alike_incTargetStats (i k : ℕ) (packets bytes : ℤ) (se : ServiceEntry) :
    List.Forall₂ AlikeSet se.targetSet (incTargetStats i k packets bytes se).targetSet := by
  have hset : ∀ set, AlikeSet set (countInSet k packets bytes set) :=
    fun set => ⟨forall₂_modify Alike.refl (f := countTarget packets bytes) (fun t => ⟨rfl, rfl, rfl, rfl⟩) _ k,
      rfl, rfl, rfl, rfl⟩
  exact forall₂_modify AlikeSet.refl hset _ i

section Alike

variable {sets sets' : List TargetSet}

theorem alike_targets (h : List.Forall₂ AlikeSet sets sets') : List.Forall₂ Alike (targets sets) (targets sets') := by
  induction h with
  | nil => exact .nil
  | cons hs _ ih => exact rel_append hs.1 ih

theorem alike_weights {ts ts' : List Target} (h : List.Forall₂ Alike ts ts') :
    ts'.map (·.weight.toNat) = ts.map (·.weight.toNat) := by
  induction h with
  | nil => rfl
  | cons ht _ ih => simp only [map_cons, ht.2.1, ih]

theorem AlikeSet.counted {s s' : TargetSet} (h : AlikeSet s s') (hs : Counted s) : Counted s' := by
  obtain ⟨hlist, hnorm, -, -, hcount⟩ := h
  exact ⟨by rw [hcount, hs.count, hlist.length_eq], by rw [hnorm, hs.normalizer, alike_weights hlist]⟩

theorem alike_setsOk (h : List.Forall₂ AlikeSet sets sets') (hok : SetsOk none sets) : SetsOk none sets' := by
  have hpriorities : sets'.map (·.priority) = sets.map (·.priority) := by
    clear hok
    induction h with
    | nil => rfl
    | cons hs _ ih => simp only [map_cons, hs.2.2.1, ih]
  refine ⟨by rw [hpriorities]; exact hok.sorted, ?_, ?_⟩
  · intro s' hs'
    obtain ⟨s, hmem, hlike⟩ := forall₂_back h hs'
    exact hlike.counted (hok.counted s hmem)
  · intro s' hs' _ hnil
    obtain ⟨s, hmem, hlike⟩ := forall₂_back h hs'
    have hlen := hlike.1.length_eq
    rw [hnil, length_nil] at hlen
    exact hok.filled s hmem (by simp) (eq_nil_of_length_eq_zero hlen)

theorem incTargetStats_ok {se : ServiceEntry} (hok : EntryOk se) (i k : ℕ) (packets bytes : ℤ) :
    EntryOk (incTargetStats i k packets bytes se) := by
  have halike := alike_incTargetStats i k packets bytes se
  rw [entryOk_iff] at hok ⊢
  refine ⟨alike_setsOk halike hok.1, ?_⟩
  rw [← (alike_targets halike).length_eq]
  exact hok.2

end Alike

/-! ## Keeping the rule -/

def Managed (tbl : Table) : Prop :=
  ∃ pos M, TableRep tbl pos M ∧ MapOk M ∧ ∀ p se, M.lookup p = some se → Addressed se

theorem managed_of_reachable {tbl : Table} (h : Reachable Ipv4 tbl) : Managed tbl := reachable_addressed h

/-- The entry has one FORWARD rule for the address of `x`, which is `x` but for its counters. -/
def Sole (x : Target) (se : ServiceEntry) : Prop :=
  ∃ t, (targets se.targetSet).filter (forwards x.dst) = [t] ∧ Alike x t

def Owned (p : List Bool) (x : Target) (tbl : Table) : Prop := ∃ se, entryAt tbl p = some se ∧ Sole x se

def Spares (p : List Bool) (x : Target) (tbl : Table) : Op → Prop
  | .add (some srvid) prefixBits type _ _ _ dst dstlen _ _ => bitsOf srvid (normBits srvid prefixBits) = p →
      type = .forward → ∀ d, dst = some d → d.bytes.take dstlen ≠ x.dst
  | .modify (some srvid) prefixBits type _ _ _ dst dstlen newDst newDstlen _ _ =>
      bitsOf srvid (normBits srvid prefixBits) = p → selects type dst dstlen matchNoProtocol x = some false ∧
        ∀ d, newDst = some d → d.bytes.take newDstlen ≠ x.dst
  | .delTarget srvid prefixBits type dst dstlen =>
      IsLongest (fun q => entryAt tbl q ≠ none) (bitsOf srvid prefixBits) p → removes type dst dstlen x = some false
  | .delTargetAll type dst dstlen => removes type dst dstlen x = some false
  | .delDevAll ifindex => onDev ifindex x = false
  | .entryRemove q type dst dstlen => q = p → removes type dst dstlen x = some false
  | .add none .. => True
  | .modify none .. => True

variable {dstlen i k : ℕ} {bytes packets : ℤ} {rem : Removal}

section Entries

variable {x t y : Target} {se se' : ServiceEntry} {a : List UInt8}

theorem filter_of_perm_cons {α : Type*} {f : α → Bool} {l l' : List α} {y t : α} (h : l.Perm (y :: l'))
    (hy : f y = false) : l.filter f = [t] ↔ l'.filter f = [t] := by
  have hperm : (l.filter f).Perm (l'.filter f) := by
    have := h.filter f
    rwa [filter_cons_of_neg (by simp [hy])] at this
  constructor
  · intro hl
    rw [hl] at hperm
    exact perm_singleton.mp hperm.symm
  · intro hl'
    rw [hl'] at hperm
    exact perm_singleton.mp hperm

theorem removes_alike (h : Alike x t) (type : RuleType) (dst : Option Buf) (dstlen : ℕ) :
    removes type dst dstlen t = removes type dst dstlen x := by
  simp only [removes, h.1, h.2.2.2]

theorem selects_alike (h : Alike x t) (type : RuleType) (dst : Option Buf) (dstlen : ℕ) (protocol : ℤ) :
    selects type dst dstlen protocol t = selects type dst dstlen protocol x := by
  simp only [selects, isTarget, h.1, h.2.2.1, h.2.2.2]

theorem onDev_alike (h : Alike x t) (ifindex : UInt32) : onDev ifindex t = onDev ifindex x := by
  simp only [onDev, h.1, h.2.2.1]

theorem other_of_selected (hsole : (targets se.targetSet).filter (forwards a) = [t]) {sel : Target → Option Bool}
    (ht : sel t = some false) (hy : sel y = some true) (hmem : y ∈ targets se.targetSet) : forwards a y = false := by
  by_contra hf
  have hin : y ∈ (targets se.targetSet).filter (forwards a) := List.mem_filter.mpr ⟨hmem, by simpa using hf⟩
  rw [hsole, List.mem_singleton] at hin
  subst hin
  rw [ht] at hy
  cases hy

variable {type : RuleType} {dst : Option Buf}

theorem outcome_stays {t : Target} {q : Target → Bool} (hleft : (targets rem.entry.targetSet).filter q = [t])
    (hgone : rem.gone = true → rem.entry.targetSet = []) : (outcome rem).1 = some rem.entry := by
  have hstays : rem.gone ≠ true := fun hg => by simp [hgone hg, targets] at hleft
  simp [outcome, hstays]

theorem Sole.remove (hsole : Sole x se) (hok : EntryOk se) (hrem : removeTarget type dst dstlen se = some rem)
    (hx : removes type dst dstlen x = some false) : Sole x rem.entry ∧ (outcome rem).1 = some rem.entry := by
  obtain ⟨t, hfilter, halike⟩ := hsole
  rcases removeTarget_ok hok hrem with ⟨hentry, -, hgone, -⟩ | ⟨-, -, hgone, y, hy, hperm⟩
  · rw [hentry, outcome, hgone]
    exact ⟨⟨t, hfilter, halike⟩, by simp [hentry]⟩
  · have hother := other_of_selected hfilter ((removes_alike halike ..).trans hx) hy
      (hperm.mem_iff.mpr mem_cons_self)
    have hleft := (filter_of_perm_cons hperm hother).mp hfilter
    exact ⟨⟨t, hleft, halike⟩, outcome_stays hleft hgone.mp⟩

theorem Sole.removeByDev (hsole : Sole x se) (hok : EntryOk se) {ifindex : UInt32}
    (hrem : removeByDev ifindex se = some rem) (hx : onDev ifindex x = false) :
    Sole x rem.entry ∧ (outcome rem).1 = some rem.entry := by
  obtain ⟨t, hfilter, halike⟩ := hsole
  obtain ⟨rem', hrem', -, -, hcont, hgone⟩ := removeByDev_ok ifindex hok
  cases hrem.symm.trans hrem'
  have hleft : (targets rem.entry.targetSet).filter (forwards x.dst) = [t] := by
    rw [dev_targets hcont, filter_comm, hfilter]
    simp [onDev_alike halike, hx]
  exact ⟨⟨t, hleft, halike⟩, outcome_stays hleft fun hg => (hgone.mp hg).2⟩

theorem Sole.add (hsole : Sole x se) (hok : EntryOk se) {flags : UInt16} {priority weight : UInt32}
    {out : TargetOut} {m m' : ℕ} (hroom : HasRoom se.targetSet priority)
    (hadd : serviceEntryAddTarget se type flags priority weight dst dstlen out m = some (se', 1, m'))
    (hrule : ruleRefused type dst dstlen = false)
    (hx : type = .forward → ∀ d, dst = some d → d.bytes.take dstlen ≠ x.dst) : Sole x se' := by
  obtain ⟨t, hfilter, halike⟩ := hsole
  rcases add_cases hadd with ⟨-, hne⟩ | ⟨-, protocol, y, -, -, hcreate, rfl⟩
  · exact absurd rfl hne
  have hperm := (addTarget_ok (entryOk_iff.mp hok).1 hroom flags y).2
  have hother : forwards x.dst y = false := by
    rw [forwards, Bool.and_eq_false_iff]
    by_cases htype : type = .forward
    · subst htype
      have hpos : 0 < dstlen := by
        simp only [ruleRefused, Bool.or_eq_false_iff, beq_eq_false_iff_ne] at hrule
        exact Nat.pos_of_ne_zero hrule.1
      obtain ⟨d, hd, hdst⟩ := (created_fields hcreate).1 hpos
      right
      rw [hdst]
      simpa using hx rfl d hd
    · left
      rw [(targetCreate_some hcreate).1]
      simpa using htype
  exact ⟨t, (filter_of_perm_cons hperm hother).mpr hfilter, halike⟩

theorem Sole.modify (hsole : Sole x se) (hok : EntryOk se) {flags : UInt16} {priority weight : UInt32}
    {newDst : Option Buf} {newDstlen : ℕ} {routed : Bool} {mem : ℕ} {r : ℤ} (hroom : HasRoom se.targetSet priority)
    (hmod : serviceEntryModifyTarget se type flags priority weight dst dstlen newDst newDstlen routed
    mem = some (se', r))
    (hx : selects type dst dstlen matchNoProtocol x = some false)
    (hnew : ∀ d, newDst = some d → d.bytes.take newDstlen ≠ x.dst) : Sole x se' := by
  obtain ⟨t, hfilter, halike⟩ := hsole
  rcases modify_exchanges (entryOk_iff.mp hok).1 hroom hmod with
    ⟨rfl, -⟩ | ⟨f, y, w, rest, hfound, hcopy, -, -, -, hold, hafter⟩
  · exact ⟨t, hfilter, halike⟩
  have hsel := (findTarget_some hfound).2.1
  have hother := other_of_selected hfilter ((selects_alike halike ..).trans hx) hsel
    (hold.mem_iff.mpr mem_cons_self)
  have hother' : forwards x.dst { y with weight := w } = false := by
    rcases copyDst_dst hcopy with hdst | ⟨d, hd, -, hdst⟩
    · have htype : y.type = f.target.type := by rw [copyDst_some hcopy]
      simpa only [forwards, htype, hdst] using hother
    · have hne := hnew d hd
      rw [← hdst] at hne
      simp [forwards, hne]
  exact ⟨t, (filter_of_perm_cons hafter hother').mpr ((filter_of_perm_cons hold hother).mp hfilter), halike⟩

theorem alike_filter {ts ts' : List Target} (h : List.Forall₂ Alike ts ts') (a : List UInt8) :
    List.Forall₂ Alike (ts.filter (forwards a)) (ts'.filter (forwards a)) := by
  refine rel_filter (fun u v huv => ?_) h
  simp only [forwards, huv.1, huv.2.2.2]

theorem Sole.count (hsole : Sole x se) (i k : ℕ) (packets bytes : ℤ) :
    Sole x (incTargetStats i k packets bytes se) := by
  obtain ⟨t, hfilter, halike⟩ := hsole
  have hboth := alike_filter (alike_targets (alike_incTargetStats i k packets bytes se)) x.dst
  rw [hfilter] at hboth
  obtain ⟨u, us, htu, hnil, hu⟩ := forall₂_cons_left_iff.mp hboth
  rw [forall₂_nil_left_iff.mp hnil] at hu
  exact ⟨u, hu, halike.trans htu⟩

end Entries

/-! ## Runs -/

section Runs

variable {tbl tbl' : Table} {pos : List Bool → Option Ptr} {M M' : BitMap ServiceEntry} {op : Op} {p : List Bool}
  {x : Target} {se : ServiceEntry} {r : ℤ}

theorem step_managed (h : Managed tbl) (hl : Legal tbl op) (hop : Ipv4 tbl op) (hrun : run tbl op = some (tbl', r)) :
    Managed tbl' := by
  obtain ⟨pos, M, hrep, hok, hM⟩ := h
  obtain ⟨pos', M', hrep', hout⟩ := step_outcome hrep hok hl hop.1 hrun
  exact ⟨pos', M', hrep', step_mapOk hrep hok hop.1 hout,
    step_entries hout hM fun _ _ _ hm _ ht => origin_addressed hop hM (moves_origin hrep hok hop.1 hm ht)⟩

def Holds (p : List Bool) (x : Target) (M : BitMap ServiceEntry) : Prop := ∃ se, M.lookup p = some se ∧ Sole x se

theorem owned_iff (h : TableRep tbl pos M) : Owned p x tbl ↔ Holds p x M := by
  rw [Owned, Holds, entryAt_eq h]

variable {q : List Bool}

theorem Holds.insert {e : ServiceEntry} (h : Holds p x M) (he : q = p → Sole x e) : Holds p x (M.insert q e) := by
  by_cases hq : q = p
  · subst hq
    exact ⟨e, lookup_insert M, he rfl⟩
  · obtain ⟨se, hl, hsole⟩ := h
    exact ⟨se, by rw [lookup_insert_of_ne _ (Ne.symm hq), hl], hsole⟩

theorem Holds.removeOne {e : ServiceEntry} (h : Holds p x M) (hok : MapOk M) (hl : M.lookup q = some e)
    (hrem : removeTarget type dst dstlen e = some rem) (hx : q = p → removes type dst dstlen x = some false) :
    Holds p x (assign M q (outcome rem).1) := by
  obtain ⟨se, hse, hsole⟩ := h
  by_cases hq : q = p
  · subst hq
    cases hl.symm.trans hse
    obtain ⟨hsole', hstays⟩ := hsole.remove (hok.entry _ _ hl) hrem (hx rfl)
    exact ⟨rem.entry, by rw [lookup_assign, if_pos rfl, hstays], hsole'⟩
  · exact ⟨se, by rw [lookup_assign, if_neg (Ne.symm hq), hse], hsole⟩

theorem Holds.swept {step : ServiceEntry → Option Removal} (h : Holds p x M) (hswept : Swept step M M')
    (hkeeps : ∀ se rem, M.lookup p = some se → Sole x se → step se = some rem →
      Sole x rem.entry ∧ (outcome rem).1 = some rem.entry) : Holds p x M' := by
  obtain ⟨se, hse, hsole⟩ := h
  obtain ⟨rem, hrem⟩ := ne_none_iff_exists'.mp (hswept.1 p se hse)
  obtain ⟨hsole', hstays⟩ := hkeeps se rem hse hsole hrem
  exact ⟨rem.entry, by rw [hswept.2, hse, bind_some, hrem, bind_some, hstays], hsole'⟩

theorem step_holds (h : TableRep tbl pos M) (hok : MapOk M) (hholds : Holds p x M) (hc : Careful tbl op)
    (hspares : Spares p x tbl op) (hout : Outcome M op M' r) : Holds p x M' := by
  cases op with
  | add srvid prefixBits type flags priority weight dst dstlen out mem =>
    cases srvid with
    | none => exact hout.1 ▸ hholds
    | some srvid =>
      rcases hout with ⟨rfl, -⟩ | ⟨-, hrule, e, e', m, m', hadd, rfl, hfrom⟩
      · exact hholds
      · refine hholds.insert fun hp => ?_
        obtain ⟨se, hse, hsole⟩ := hholds
        obtain ⟨hok', hroom, -⟩ := added_entry h hok hc hfrom
        rcases hfrom with ⟨hnone, -⟩ | ⟨hl, -⟩
        · rw [hp, hse] at hnone
          cases hnone
        · rw [hp, hse] at hl
          cases hl
          exact hsole.add hok' hroom hadd hrule (hspares hp)
  | modify srvid prefixBits type flags priority weight dst dstlen newDst newDstlen routed mem =>
    cases srvid with
    | none => exact hout ▸ hholds
    | some srvid =>
      rcases hout with rfl | ⟨e, e', hl, hmod, rfl⟩
      · exact hholds
      · refine hholds.insert fun hp => ?_
        have hroom := hc e (by rw [entryAt_eq h, hl])
        obtain ⟨se, hse, hsole⟩ := hholds
        obtain ⟨hsel, hnew⟩ := hspares hp
        rw [hp, hse] at hl
        cases hl
        exact hsole.modify (hok.entry _ _ hse) hroom hmod hsel hnew
  | delTarget srvid prefixBits type dst dstlen =>
    rcases hout with ⟨rfl, -⟩ | ⟨q, e, rem, hlong, hl, hrem, rfl⟩
    · exact hholds
    · refine hholds.removeOne hok hl hrem fun hq => hspares ?_
      have hactive : (fun q => entryAt tbl q ≠ none) = (· ∈ M) := by
        funext q
        rw [entryAt_eq h, Ne, lookup_eq_none, not_not]
      rw [hactive, ← hq]
      exact hlong
  | delTargetAll type dst dstlen =>
    exact hholds.swept hout fun se rem hl hsole hrem => hsole.remove (hok.entry _ _ hl) hrem hspares
  | delDevAll ifindex =>
    exact hholds.swept hout fun se rem hl hsole hrem => hsole.removeByDev (hok.entry _ _ hl) hrem hspares
  | entryRemove q type dst dstlen =>
    obtain ⟨e, rem, hl, hrem, rfl⟩ := hout
    exact hholds.removeOne hok hl hrem hspares

theorem step_owned (h : Managed tbl) (howned : Owned p x tbl) (hl : Legal tbl op) (hop : Ipv4 tbl op)
    (hspares : Spares p x tbl op) (hrun : run tbl op = some (tbl', r)) : Owned p x tbl' := by
  obtain ⟨pos, M, hrep, hok, -⟩ := h
  obtain ⟨pos', M', hrep', hout⟩ := step_outcome hrep hok hl hop.1 hrun
  exact (owned_iff hrep').mpr (step_holds hrep hok ((owned_iff hrep).mp howned) hop.1 hspares hout)

theorem count_spec (h : TableRep tbl pos M) (hcount : count tbl q i k packets bytes = some tbl') :
    ∃ e, M.lookup q = some e ∧ TableRep tbl' pos (M.insert q (incTargetStats i k packets bytes e)) := by
  obtain ⟨n, hn, hcount⟩ := bind_eq_some_iff.mp hcount
  obtain ⟨e, he, hcount⟩ := bind_eq_some_iff.mp hcount
  rw [h.nodeAt_eq] at hn
  rw [getService_spec h hn] at he
  obtain ⟨tbl₁, hset, hrep⟩ := setService_spec h hn (mem_of_lookup_eq_some he) (incTargetStats i k packets bytes e)
  cases hset.symm.trans hcount
  exact ⟨e, he, hrep⟩

theorem addressed_incTargetStats (hse : Addressed se) (i k : ℕ) (packets bytes : ℤ) :
    Addressed (incTargetStats i k packets bytes se) := by
  have hall := alike_targets (alike_incTargetStats i k packets bytes se)
  intro t ht hforward
  obtain ⟨u, hu, halike⟩ := forall₂_back hall ht
  rw [halike.2.2.2]
  exact hse u hu (halike.1.symm.trans hforward)

theorem count_managed (h : Managed tbl) (hcount : count tbl q i k packets bytes = some tbl') : Managed tbl' := by
  obtain ⟨pos, M, hrep, hok, hM⟩ := h
  obtain ⟨e, hl, hrep'⟩ := count_spec hrep hcount
  have hlookup : ∀ p se, (M.insert q (incTargetStats i k packets bytes e)).lookup p = some se →
      p = q ∧ se = incTargetStats i k packets bytes e ∨ M.lookup p = some se := by
    intro p se hse
    by_cases hp : p = q
    · subst hp
      rw [lookup_insert] at hse
      exact .inl ⟨rfl, (some.inj hse).symm⟩
    · rw [lookup_insert_of_ne _ hp] at hse
      exact .inr hse
  refine ⟨pos, _, hrep', ⟨?_, ?_⟩, ?_⟩
  · intro p se hse
    rcases hlookup p se hse with ⟨-, rfl⟩ | hse
    · exact incTargetStats_ok (hok.entry _ _ hl) i k packets bytes
    · exact hok.entry _ _ hse
  · rw [card_keys_insert (mem_of_lookup_eq_some hl)]
    exact hok.card
  · intro p se hse
    rcases hlookup p se hse with ⟨-, rfl⟩ | hse
    · exact addressed_incTargetStats (hM _ _ hl) i k packets bytes
    · exact hM _ _ hse

theorem count_owned (h : Managed tbl) (howned : Owned p x tbl)
    (hcount : count tbl q i k packets bytes = some tbl') : Owned p x tbl' := by
  obtain ⟨pos, M, hrep, hok, -⟩ := h
  obtain ⟨e, hl, hrep'⟩ := count_spec hrep hcount
  refine (owned_iff hrep').mpr (((owned_iff hrep).mp howned).insert fun hq => ?_)
  obtain ⟨se, hse, hsole⟩ := (owned_iff hrep).mp howned
  rw [hq, hse] at hl
  cases hl
  exact hsole.count i k packets bytes

inductive Run (p : List Bool) (x : Target) (tbl : Table) : Table → Prop where
  | refl : Run p x tbl tbl
  | op {tbl' tbl'' : Table} {r : ℤ} (op : Op) : Run p x tbl tbl' → Legal tbl' op → Ipv4 tbl' op → Spares p x tbl' op →
      run tbl' op = some (tbl'', r) → Run p x tbl tbl''
  | count {tbl' tbl'' : Table} (q : List Bool) (i k : ℕ) (packets bytes : ℤ) : Run p x tbl tbl' →
      count tbl' q i k packets bytes = some tbl'' → Run p x tbl tbl''

theorem run_owned (hrun : Run p x tbl tbl') (h : Managed tbl) (howned : Owned p x tbl) :
    Managed tbl' ∧ Owned p x tbl' := by
  induction hrun with
  | refl => exact ⟨h, howned⟩
  | op op _ hl hop hspares hrun ih =>
    exact ⟨step_managed ih.1 hl hop hrun, step_owned ih.1 ih.2 hl hop hspares hrun⟩
  | count q i k packets bytes _ hcount ih => exact ⟨count_managed ih.1 hcount, count_owned ih.1 ih.2 hcount⟩

end Runs

/-! ## Finding the rule -/

section Finding

variable {t : Target} {se : ServiceEntry} {sets sets' : List TargetSet} {f : Found} {d : Buf}

theorem targets_of_lies (h : Lies f sets) :
    targets sets = targets f.before ++ f.ahead ++ f.target :: (f.behind ++ targets f.after) := by
  rw [h.sets_eq, targets_append, targets_cons, h.list_eq]
  simp

theorem lies_of_mem (h : t ∈ targets sets) : ∃ f, Lies f sets ∧ f.target = t := by
  obtain ⟨set, hset, ht⟩ := mem_flatMap.mp h
  obtain ⟨before, after, hsets⟩ := append_of_mem hset
  obtain ⟨ahead, behind, hlist⟩ := append_of_mem ht
  exact ⟨⟨before, set, ahead, t, behind, after⟩, ⟨hsets, hlist⟩, rfl⟩

theorem find_sole (hse : Addressed se) (hd : d.bytes.length = 4)
    (hfilter : (targets se.targetSet).filter (forwards d.bytes) = [t]) (hlies : Lies f se.targetSet)
    (hf : forwards d.bytes f.target = true) : findTarget (removes .forward (some d) 4) se.targetSet = some
    (some f) := by
  have htargets := targets_of_lies hlies
  -- no rule for the address lies in front of it, since there is no second one
  have hfront : (targets f.before ++ f.ahead).filter (forwards d.bytes) = [] := by
    rw [htargets, filter_append, filter_cons_of_pos hf] at hfilter
    have hlen := congrArg List.length hfilter
    simp only [length_append, length_cons, length_nil] at hlen
    exact eq_nil_of_length_eq_zero (by omega)
  apply findTarget_eq hlies
  · intro y hy
    have hmem : y ∈ targets se.targetSet := by
      rw [htargets]
      exact mem_append_left _ hy
    rw [removes_forward (hse y hmem) hd]
    simpa using filter_eq_nil_iff.mp hfront y hy
  · have hmem : f.target ∈ targets se.targetSet := by
      rw [htargets]
      simp
    rw [removes_forward (hse _ hmem) hd, hf]

theorem forall₂_split {α : Type*} {R : α → α → Prop} {l r l' : List α} {y : α} (h : List.Forall₂ R (l ++ y :: r) l') :
    ∃ a z b, l' = a ++ z :: b ∧ List.Forall₂ R l a ∧ R y z ∧ List.Forall₂ R r b := by
  induction l generalizing l' with
  | nil =>
    obtain ⟨z, b, hz, hb, rfl⟩ := forall₂_cons_left_iff.mp h
    exact ⟨[], z, b, rfl, .nil, hz, hb⟩
  | cons w l ih =>
    obtain ⟨w', l'', hw, hl, rfl⟩ := forall₂_cons_left_iff.mp h
    obtain ⟨a, z, b, rfl, ha, hz, hb⟩ := ih hl
    exact ⟨w' :: a, z, b, rfl, .cons hw ha, hz, hb⟩

theorem alike_drop (h : List.Forall₂ AlikeSet sets sets') (hlies : Lies f sets) :
    ∃ f', Lies f' sets' ∧ Alike f.target f'.target ∧ List.Forall₂ AlikeSet (dropTarget f) (dropTarget f') := by
  rw [hlies.sets_eq] at h
  obtain ⟨before, set, after, rfl, hbefore, hset, hafter⟩ := forall₂_split h
  obtain ⟨hlist, hnorm, hpriority, hflags, hcount⟩ := hset
  rw [hlies.list_eq] at hlist
  obtain ⟨ahead, t, behind, hlist', hahead, ht, hbehind⟩ := forall₂_split hlist
  refine ⟨⟨before, set, ahead, t, behind, after⟩, ⟨rfl, hlist'⟩, ht, ?_⟩
  have hrest : AlikeSet (targetSetRemoveTarget f) (targetSetRemoveTarget ⟨before, set, ahead, t, behind, after⟩) :=
    ⟨rel_append hahead hbehind, by simp only [targetSetRemoveTarget, hnorm, ht.2.1], hpriority, hflags,
      by simp only [targetSetRemoveTarget, hcount]⟩
  have hempty := hrest.2.2.2.2
  simp only [dropTarget, hempty]
  split
  · exact rel_append hbefore hafter
  · exact rel_append hbefore (.cons hrest hafter)

end Finding

/-! ## Making the rule -/

def ruleFor (weight ifindex : UInt32) (address : List UInt8) : Target :=
  ⟨.forward, atLeastOne weight, {}, .oif ifindex, address⟩

def setsAt (tbl : Table) (p : List Bool) : List TargetSet := ((entryAt tbl p).map (·.targetSet)).getD []

section Making

variable {tbl tbl' : Table} {flags : UInt16} {priority weight ifindex : UInt32} {d : Buf} {key : List UInt8}
    {bits mem : ℕ}
  {r : ℤ} {t : Target}

theorem created_rule (hd : d.bytes.length = 4)
    (h : targetCreate .forward (some d) 4 (.oif ifindex) (atLeastOne weight) mem = some (some t)) :
    t = ruleFor weight ifindex d.bytes := by
  rcases targetCreate_cases h with ⟨-, d, hd', -, rfl⟩ | ⟨hzero, -⟩
  · cases hd'
    simp [ruleFor, TargetOut.asOif, TargetOut.raw, take_of_length_le hd.le]
  · cases hzero

/-- An add that succeeds makes the rule, which lies where the sets are as before without it. -/
theorem add_owned (h : Managed tbl)
    (hl : Legal tbl (.add (some key) bits .forward flags priority weight (some d) 4 (.oif ifindex) mem))
    (hc : Careful tbl (.add (some key) bits .forward flags priority weight (some d) 4 (.oif ifindex) mem))
    (hd : d.bytes.length = 4)
    (hadd : serviceAdd tbl (some key) bits .forward flags priority weight (some d) 4
    (.oif ifindex) mem = some (tbl', r))
    (hr : 0 < r) : Managed tbl' ∧ Owned (bitsOf key (normBits key bits)) (ruleFor weight ifindex d.bytes) tbl' ∧
      ∃ f, Lies f (setsAt tbl' (bitsOf key (normBits key bits))) ∧ forwards d.bytes f.target = true ∧
        dropTarget f = setsAt tbl (bitsOf key (normBits key bits)) := by
  have hipv4 : Ipv4 tbl (.add (some key) bits .forward flags priority weight (some d) 4 (.oif ifindex) mem) := by
    refine ⟨hc, ?_⟩
    intro _ _ _ _ _ _ _ _ _ hop
    cases hop
    rfl
  refine ⟨step_managed h hl hipv4 hadd, ?_⟩
  obtain ⟨pos, M, hrep, hok, hM⟩ := h
  obtain ⟨pos', M', hrep', hout⟩ := step_outcome hrep hok hl hc hadd
  have hone : r ≤ 1 := by
    have hentry : HasEntryRoom M := by
      rw [HasEntryRoom, ← services_eq hrep hok]
      exact hc.1
    obtain ⟨tbl₁, r₁, hrun, hle⟩ := @add_runs tbl pos M .forward (some d) 4 flags priority weight (.oif ifindex) mem
      hrep hentry key bits (fun se hse => (hM _ se hse).readable) (by rw [hl.1]; exact hl.2) (given_four hd) (by simp)
    cases hadd.symm.trans hrun
    exact hle
  rcases hout with ⟨-, hne⟩ | ⟨-, -, se, se', m, m', hentry, rfl, hfrom⟩
  · omega
  obtain ⟨hse, hroom, -⟩ := added_entry hrep hok hc hfrom
  obtain ⟨haddressed, hbefore⟩ : Addressed se ∧ setsAt tbl (bitsOf key (normBits key bits)) = se.targetSet := by
    rw [setsAt, entryAt_eq hrep]
    rcases hfrom with ⟨hnone, rfl⟩ | ⟨hlook, -⟩
    · exact ⟨fun t ht => by simp [serviceEntryCreate] at ht, by simp [hnone, serviceEntryCreate]⟩
    · exact ⟨hM _ _ hlook, by simp [hlook]⟩
  have hafter : entryAt tbl' (bitsOf key (normBits key bits)) = some se' := by
    rw [entryAt_eq hrep', lookup_insert]
  rcases add_cases hentry with ⟨-, hne⟩ | ⟨-, protocol, t, hsel, -, hcreate, rfl⟩
  · exact absurd rfl hne
  obtain rfl := created_rule hd hcreate
  have hrule : forwards d.bytes (ruleFor weight ifindex d.bytes) = true := by simp [forwards, ruleFor]
  constructor
  · -- no target there was for the address, or the search of the add had found it
    have hnone : (targets se.targetSet).filter (forwards d.bytes) = [] := by
      rw [filter_eq_nil_iff]
      intro y hy
      have hno := hsel y hy
      rw [selects_forward protocol (haddressed y hy) hd] at hno
      simpa using hno
    have hperm := ((addTarget_ok (entryOk_iff.mp hse).1 hroom flags (ruleFor weight ifindex d.bytes)).2).filter
      (forwards d.bytes)
    rw [filter_cons_of_pos hrule, hnone] at hperm
    exact ⟨_, hafter, _, perm_singleton.mp hperm, .refl _⟩
  · obtain ⟨f, hlies, htarget, hdrop, -⟩ :=
      ServiceEntryInvariant.addTarget_undone (entryOk_iff.mp hse).1 hroom flags (ruleFor weight ifindex d.bytes)
    refine ⟨f, ?_, htarget ▸ hrule, hdrop.trans hbefore.symm⟩
    rw [setsAt, hafter]
    exact hlies

end Making

end ServiceOwned
