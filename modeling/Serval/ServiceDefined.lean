import Serval.ServiceUniqueness

/-! # Calls of the service table that have an outcome

A call compares its destination with those of the targets, and reads the sockets of DEMUX targets. It has an outcome if
these reads stay inside the memory, unless it empties the entry of a root without children.
-/
namespace ServiceDefined

open BitString BstModel BstLayout BstInsert BstRelease BstTraversal ServiceTargets TargetSets ServiceIterator
open ServiceTable ServiceTableSpec ServiceRuns ServiceUniqueness List Finmap
open Option hiding or or_self

/-- There are `len` bytes at `b`. -/
def Given (b : Option Buf) (len : ℕ) : Prop := len ≤ ((b.map Buf.bytes).getD []).length

/-- The destinations of FORWARD targets are long enough for the comparison, and DEMUX targets have sockets. -/
def Readable (type : RuleType) (dstlen : ℕ) (se : ServiceEntry) : Prop :=
  ∀ t ∈ targets se.targetSet, t.type = type → (type = .forward → dstlen ≤ t.dst.length) ∧
    (type = .demux → t.out.asSk ≠ none)

variable {tbl : Table} {pos : List Bool → Option Ptr} {M : BitMap ServiceEntry} {se : ServiceEntry} {x : Target}
  {type : RuleType} {dst newDst : Option Buf} {dstlen newDstlen : ℕ}

theorem memcmp_ne_none {a b : List UInt8} {n : ℕ} (ha : n ≤ a.length) (hb : n ≤ b.length) : memcmp a b n ≠ none := by
  simp [memcmp, ha, hb]

theorem isTarget_ne_none (hd : Given dst dstlen) (hx : x.type = type → type = .forward → dstlen ≤ x.dst.length) :
    isTarget x type dst dstlen ≠ none := by
  by_cases htype : x.type = type
  · unfold isTarget
    rw [if_neg (not_not.mpr htype)]
    cases type with
    | forward =>
      cases dst with
      | none => simp
      | some d => exact memcmp_ne_none (hx htype rfl) hd
    | demux => cases dst <;> simp
    | undefined | delay | drop => simp
  · simp [isTarget, htype]

theorem selects_ne_none (hse : Readable type dstlen se) (hd : Given dst dstlen) (protocol : ℤ) :
    ∀ x ∈ targets se.targetSet, selects type dst dstlen protocol x ≠ none := by
  intro x hx
  obtain ⟨is, his⟩ := ne_none_iff_exists'.mp (isTarget_ne_none hd fun htype => (hse x hx htype).1)
  rw [selects, his]
  cases is with
  | false => simp
  | true =>
    have htype : x.type = type := by
      by_contra hne
      simp [isTarget, hne] at his
    by_cases hdemux : type = .demux
    · obtain ⟨s, hs⟩ := ne_none_iff_exists'.mp ((hse x hx htype).2 hdemux)
      simp [hdemux, hs]
    · simp [hdemux]

theorem removes_ne_none (hd : Given dst dstlen) (hx : x.type = type → type = .forward → dstlen ≤ x.dst.length) :
    removes type dst dstlen x ≠ none := by
  by_cases htype : x.type = type
  · subst htype
    rw [removes, if_neg (not_not.mpr rfl)]
    split
    · simp
    next hforward => exact memcmp_ne_none (hx rfl hforward) hd
    · simp
  · simp [removes, htype]

/-! ## Adding -/

theorem hasDuplicate_runs {fuel : ℕ} {iter : ServiceIter} {L : List Target} (hL : iterTargets fuel iter = some L)
    (h : ∀ t ∈ L, isTarget t type dst dstlen ≠ none) : hasDuplicate type dst dstlen fuel iter ≠ none := by
  induction fuel generalizing iter L with
  | zero => cases hL
  | succ fuel ih =>
    obtain ⟨⟨iter', target⟩, hnext, hL⟩ := bind_eq_some_iff.mp hL
    rw [hasDuplicate, hnext]
    cases target with
    | none => simp
    | some t =>
      obtain ⟨rest, hrest, hL⟩ := bind_eq_some_iff.mp hL
      cases hL
      rw [forall_mem_cons] at h
      obtain ⟨same, hsame⟩ := ne_none_iff_exists'.mp h.1
      simp only [bind_eq_bind, bind_some, hsame]
      split
      · simp
      · exact ih hrest h.2

theorem firstTargets_subset (hx : x ∈ firstTargets se) : x ∈ targets se.targetSet := by
  rw [firstTargets] at hx
  split at hx
  · cases hx
  next hsets =>
    split at hx
    · cases hx
    · rw [hsets, targets_cons]
      exact mem_append_left _ hx

section Calls

variable {flags : UInt16} {priority weight : UInt32} {out : TargetOut} {mem : ℕ}

theorem entry_add_runs (hse : Readable type dstlen se) (hd : Given dst dstlen) (hout : dstlen = 0 → out.asSk ≠ none) :
    ∃ se' r m, serviceEntryAddTarget se type flags priority weight dst dstlen out mem = some (se', r, m) ∧ r ≤ 1 := by
  obtain ⟨protocol, hprotocol⟩ : ∃ protocol, targetProtocol dstlen out = some protocol := by
    by_cases hlen : dstlen = 0
    · obtain ⟨s, hs⟩ := ne_none_iff_exists'.mp (hout hlen)
      exact ⟨_, by rw [targetProtocol, if_pos hlen, hs]; rfl⟩
    · exact ⟨_, if_neg hlen⟩
  obtain ⟨found, hfound⟩ := ne_none_iff_exists'.mp (findTarget_ne_none (selects_ne_none hse hd protocol))
  obtain ⟨t, hcreate⟩ : ∃ t, targetCreate type dst dstlen out weight mem = some t := by
    rw [targetCreate]
    split
    · exact ⟨_, rfl⟩
    split
    · exact ⟨_, rfl⟩
    split
    next hpos =>
      cases dst with
      | none => exact absurd (Nat.le_zero.mp hd) hpos.ne'
      | some d => exact ⟨_, if_neg (not_lt.mpr hd)⟩
    next hpos =>
      obtain ⟨s, hs⟩ := ne_none_iff_exists'.mp (hout (Nat.eq_zero_of_not_pos hpos))
      exact ⟨_, by rw [hs]; rfl⟩
  rw [serviceEntryAddTarget, hprotocol]
  simp only [serviceEntryGetTarget, bind_eq_bind, bind_some, hfound]
  cases found with
  | some f =>
    refine ⟨se, _, mem, rfl, ?_⟩
    split <;> decide
  | none =>
    simp only [hcreate, bind_some]
    cases t with
    | none => exact ⟨se, -ENOMEM, mem, rfl, by decide⟩
    | some t =>
      cases serviceEntryGetTargetSet se.targetSet priority with
      | some set => exact ⟨_, 1, _, rfl, le_rfl⟩
      | none =>
        dsimp only
        split
        · exact ⟨se, -ENOMEM, mem, rfl, by decide⟩
        · exact ⟨_, 1, _, rfl, le_rfl⟩

theorem add_runs (h : TableRep tbl pos M) (hroom : HasEntryRoom M) {key : List UInt8} {bits : ℕ}
    (hM : ∀ se, M.lookup (bitsOf key (normBits key bits)) = some se → Readable type dstlen se)
    (hb : bits ≤ 8 * key.length) (hd : Given dst dstlen) (hout : dstlen = 0 → out.asSk ≠ none) :
    ∃ tbl' r, serviceAdd tbl (some key) bits type flags priority weight dst dstlen out mem = some (tbl', r) ∧
      r ≤ 1 := by
  obtain ⟨found, hfind, hfound⟩ := findPrefix_spec h key (normBits key bits)
  rw [serviceAdd, serviceTableAdd]
  split
  · exact ⟨tbl, -EINVAL, rfl, by decide⟩
  simp only [hfind, bind_eq_bind, bind_some]
  cases found with
  | some n =>
    obtain ⟨hn, hmem⟩ := hfound
    obtain ⟨se, hl⟩ := mem_iff.mp hmem
    have hse := hM se hl
    have hL := iterTargets_init se (show IterMode.all ≠ .anycast by decide) 0
    obtain ⟨dup, hdup⟩ := ne_none_iff_exists'.mp (hasDuplicate_runs hL fun t ht => isTarget_ne_none hd fun htype =>
      (hse t (firstTargets_subset (mem_of_mem_filter ht)) htype).1)
    simp only [addToEntry, getService_spec h hn, hl, bind_eq_bind, bind_some, hdup]
    cases dup with
    | true => exact ⟨tbl, -EEXIST, rfl, by decide⟩
    | false =>
      obtain ⟨se', r, m, hadd, hr⟩ :=
        @entry_add_runs se type dst dstlen flags priority (atLeastOne weight) out mem hse hd hout
      obtain ⟨tbl', hset, -⟩ := setService_spec h hn hmem se'
      rw [atLeastOne] at hadd
      simp only [hadd, hset, bind_some, Bool.false_eq_true, if_false]
      split
      · exact ⟨tbl', r, rfl, hr⟩
      · exact ⟨tbl, 0, rfl, by decide⟩
  | none =>
    dsimp only
    rw [addEntry]
    split
    · exact ⟨tbl, -ENOMEM, rfl, by decide⟩
    · obtain ⟨se', r, m, hadd, hr⟩ := @entry_add_runs serviceEntryCreate type dst dstlen flags priority
        (atLeastOne weight) out (mem - 1) (fun t ht => by cases ht) hd hout
      rw [atLeastOne] at hadd
      simp only [hadd, bind_eq_bind, bind_some]
      split
      · exact ⟨tbl, -ENOMEM, rfl, by decide⟩
      · have hb' : normBits key bits ≤ 8 * key.length := (normBits_le key bits).trans hb
        obtain ⟨t', node, hins, -⟩ := insert_spec h.toRepresents hroom.exact hb' srvOps_succeeds se' m
        simp only [hins, bind_some]
        cases node with
        | none => exact ⟨_, -ENOMEM, rfl, by decide⟩
        | some n => exact ⟨_, r, rfl, hr⟩

/-! ## Modifying -/

theorem entry_modify_runs (hse : Readable type dstlen se) (hd : Given dst dstlen)
    (hnew : newDst ≠ none → Given newDst newDstlen) {routed : Bool} :
    ∃ se' r, serviceEntryModifyTarget se type flags priority weight dst dstlen newDst newDstlen routed mem =
      some (se', r) ∧ r ≤ 1 := by
  obtain ⟨found, hfound⟩ := ne_none_iff_exists'.mp (findTarget_ne_none (selects_ne_none hse hd matchNoProtocol))
  rw [serviceEntryModifyTarget]
  split
  · exact ⟨se, -1, rfl, by decide⟩
  simp only [serviceEntryGetTarget, hfound, bind_eq_bind, bind_some]
  cases found with
  | none => exact ⟨se, 0, rfl, by decide⟩
  | some f =>
    cases routed with
    | false => exact ⟨se, 0, rfl, by decide⟩
    | true =>
      have hcopy : ∃ t, copyDst f.target newDst newDstlen = some t := by
        cases newDst with
        | none => exact ⟨_, rfl⟩
        | some d' =>
          have hlong : ¬d'.bytes.length < newDstlen := not_lt.mpr (hnew (by simp))
          simp only [copyDst, hlong, if_false]
          split_ifs <;> exact ⟨_, rfl⟩
      obtain ⟨t, hcopy⟩ := hcopy
      simp only [if_true, hcopy, bind_some]
      split
      · cases serviceEntryGetTargetSet se.targetSet priority with
        | some set => exact ⟨_, 1, rfl, le_rfl⟩
        | none =>
          dsimp only
          split
          · exact ⟨_, -ENOMEM, rfl, by decide⟩
          · exact ⟨_, 1, rfl, le_rfl⟩
      · exact ⟨_, 1, rfl, le_rfl⟩

theorem modify_runs (h : TableRep tbl pos M) {key : List UInt8} {bits : ℕ}
    (hM : ∀ se, M.lookup (bitsOf key (normBits key bits)) = some se → Readable type dstlen se)
    (hd : Given dst dstlen) (hnew : newDst ≠ none → Given newDst newDstlen) {routed : Bool} :
    ∃ tbl' r, serviceModify tbl (some key) bits type flags priority weight dst dstlen newDst newDstlen routed mem =
      some (tbl', r) ∧ r ≤ 1 := by
  obtain ⟨found, hfind, hfound⟩ := findPrefix_spec h key (normBits key bits)
  simp only [serviceModify, serviceTableModify, hfind]
  cases found with
  | none => exact ⟨tbl, -EINVAL, rfl, by decide⟩
  | some n =>
    obtain ⟨hn, hmem⟩ := hfound
    obtain ⟨se, hl⟩ := mem_iff.mp hmem
    obtain ⟨se', r, hmod, hr⟩ := @entry_modify_runs se type dst newDst dstlen newDstlen flags priority
      (atLeastOne weight) mem (hM se hl) hd hnew routed
    obtain ⟨tbl', hset, -⟩ := setService_spec h hn hmem se'
    rw [atLeastOne] at hmod
    refine ⟨tbl', r, ?_, hr⟩
    simp [getService_spec h hn, hl, hmod, hset]

end Calls

/-! ## Removing -/

/-- The entry has a single target, which the arguments name. -/
def Empties (type : RuleType) (dst : Option Buf) (dstlen : ℕ) (se : ServiceEntry) : Prop :=
  ∃ set, se.targetSet = [set] ∧ set.count = 1 ∧ ∃ t ∈ set.list, removes type dst dstlen t = some true

theorem removeTarget_runs (hse : Readable type dstlen se) (hd : Given dst dstlen) :
    ∃ r, removeTarget type dst dstlen se = some r ∧ (r.gone = true → Empties type dst dstlen se) := by
  have hreads : ∀ x ∈ targets se.targetSet, removes type dst dstlen x ≠ none :=
    fun x hx => removes_ne_none hd fun htype => (hse x hx htype).1
  obtain ⟨found, hfound⟩ := ne_none_iff_exists'.mp (findTarget_ne_none hreads)
  rw [removeTarget, ServiceTargets.serviceEntryRemoveTarget, hfound]
  cases found with
  | none => exact ⟨_, rfl, by simp⟩
  | some f =>
    refine ⟨_, rfl, fun hgone => ?_⟩
    obtain ⟨⟨hsets, hlist⟩, hsel, -⟩ := findTarget_some hfound
    have hnil : dropTarget f = [] := (of_decide_eq_true hgone).2
    rw [dropTarget] at hnil
    split at hnil
    next hcount =>
      obtain ⟨hbefore, hafter⟩ := append_eq_nil_iff.mp hnil
      rw [hbefore, hafter] at hsets
      exact ⟨f.set, hsets, sub_eq_zero.mp hcount, f.target, by simp [hlist], hsel⟩
    · simp at hnil

theorem removeFrom_runs (h : TableRep tbl pos M) {p : List Bool} {n : Ptr} (hp : pos p = some n)
    (hl : M.lookup p = some se) (hse : Readable type dstlen se) (hd : Given dst dstlen)
    (hroot : p = [] → Empties type dst dstlen se → pos [false] ≠ none ∨ pos [true] ≠ none) :
    ∃ x, removeFrom (removeTarget type dst dstlen) tbl n = some x := by
  obtain ⟨r, hrem, hgone⟩ := removeTarget_runs hse hd
  obtain ⟨tbl', pos', hrun, -⟩ := removeFrom_spec h hp hl hrem fun hg hnil => hroot hnil (hgone hg)
  exact ⟨_, hrun⟩

end ServiceDefined
