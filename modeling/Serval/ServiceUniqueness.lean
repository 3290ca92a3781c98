import Serval.ServiceIterCoverage

/-! # Uniqueness of targets

An add looks for its target twice: in the first set, through the iterator, and in all sets. A
modify writes the new destination without looking.
-/
namespace ServiceUniqueness

open BitString BstModel BstLayout ServiceTargets TargetSets ServiceIterator ServiceTable List Option
open ServiceTableSpec ServiceRuns ServiceIterCoverage
open ServiceEntryInvariant (entryOk_iff add_cases addTarget_ok modify_exchanges copyDst_cases copyDst_some
  selects_of_forward targetCreate_cases targetCreate_some)

def Withholds (t : Target) : Prop := t.type = .drop ∨ t.type = .delay

inductive Clash (a b : Target) : Prop where
  | forward : a.type = .forward → b.type = .forward → a.dst = b.dst → Clash a b
  | demux {s s' : Sock} : a.type = .demux → b.type = .demux → a.out.asSk = some s →
      b.out.asSk = some s' → s.skProtocol = s'.skProtocol → Clash a b
  | withholds : Withholds a → Withholds b → Clash a b

def Unique (se : ServiceEntry) : Prop := (targets se.targetSet).Pairwise fun a b => ¬ Clash a b

def NewProtocol (se : ServiceEntry) (out : TargetOut) : Prop :=
  ∀ t ∈ targets se.targetSet, t.type = .demux → t.out.asSk.map (·.skProtocol) ≠ out.asSk.map (·.skProtocol)

def NewDestination (se : ServiceEntry) (dst : List UInt8) : Prop :=
  ∀ t ∈ targets se.targetSet, t.type = .forward → t.dst ≠ dst

/-- The clashes that the code does not look for: of a DROP or DELAY rule with one outside the first set, of sockets if
the add passes a destination, and of the new destination of a modify. -/
def Distinct (tbl : Table) : Op → Prop
  | .add (some srvid) prefixBits type _ _ _ dst _ out _ =>
    ∀ se, entryAt tbl (bitsOf srvid (normBits srvid prefixBits)) = some se →
      (type = .demux → dst = none ∨ NewProtocol se out) ∧
      (type = .drop ∨ type = .delay → ∀ t ∈ targets se.targetSet.tail, ¬ Withholds t)
  | .modify (some srvid) prefixBits type _ _ _ dst dstlen newDst newDstlen _ _ =>
    ∀ se, entryAt tbl (bitsOf srvid (normBits srvid prefixBits)) = some se → type = .forward →
      ∀ d', newDst = some d' → NewDestination se (d'.bytes.take newDstlen) ∨
        ∃ d, dst = some d ∧ dstlen = newDstlen ∧ d.bytes.take dstlen = d'.bytes.take newDstlen
  | _ => True

theorem Clash.symm {a b : Target} (h : Clash a b) : Clash b a := by
  cases h with
  | forward ha hb hd => exact .forward hb ha hd.symm
  | demux ha hb hs hs' hp => exact .demux hb ha hs' hs hp.symm
  | withholds ha hb => exact .withholds hb ha

theorem pairwise_perm {l l' : List Target} (h : l.Perm l') :
    l.Pairwise (fun a b => ¬ Clash a b) ↔ l'.Pairwise fun a b => ¬ Clash a b :=
  h.pairwise_iff fun hn hc => hn hc.symm

variable {se : ServiceEntry} {type : RuleType} {dst : Option Buf} {dstlen : ℕ} {protocol : ℤ} {t : Target}

section

variable {d : Buf} {out : TargetOut} {newDst : Option Buf} {weight : UInt32} {x : Target} {newDstlen mem : ℕ}

theorem Unique.sublist {se' : ServiceEntry} (h : Unique se)
    (hs : (targets se'.targetSet).Sublist (targets se.targetSet)) : Unique se' :=
  Pairwise.sublist hs h

theorem not_duplicate_of_iter (fuel : ℕ) :
    ∀ (iter : ServiceIter) (L : List Target), hasDuplicate type dst dstlen fuel iter = some false →
      iterTargets fuel iter = some L → ∀ t ∈ L, isTarget t type dst dstlen = some false ∧ ¬ Withholds t := by
  induction fuel with
  | zero => intro iter L h; cases h
  | succ fuel ih =>
    intro iter L hdup hL
    obtain ⟨⟨iter', target⟩, hnext, hdup⟩ := bind_eq_some_iff.mp hdup
    rw [iterTargets, hnext, bind_eq_bind, bind_some] at hL
    cases target with
    | none =>
      cases hL
      simp
    | some x =>
      obtain ⟨same, hsame, hdup⟩ := bind_eq_some_iff.mp hdup
      obtain ⟨rest, hrest, hL⟩ := bind_eq_some_iff.mp hL
      cases hL
      split at hdup
      · cases hdup
      · rename_i hno
        rw [forall_mem_cons]
        refine ⟨⟨?_, ?_⟩, ih iter' rest hdup hrest⟩
        · cases same with
          | true => simp at hno
          | false => exact hsame
        · rintro (hx | hx) <;> simp [hx] at hno

theorem not_duplicate_first
    (h : hasDuplicate type dst dstlen (iterFuel se) (serviceIterInit se .all 0).1 = some false) :
    ∀ t ∈ firstTargets se, isTarget t type dst dstlen = some false ∧ ¬ Withholds t := by
  have hL := iterTargets_init se (show IterMode.all ≠ .anycast by decide) 0
  intro t ht
  apply not_duplicate_of_iter _ _ _ h hL t
  simpa [IterMode.lets] using ht

theorem differs_forward (htype : x.type = .forward)
    (h : selects .forward (some d) dstlen protocol x = some false) : x.dst ≠ d.bytes.take dstlen := by
  intro heq
  rw [selects_of_forward htype, memcmp, heq, take_take, min_self, beq_self_eq_true] at h
  split at h
  · cases h
  · cases h

theorem differs_demux {s s' : Sock} {x : Target} (htype : x.type = .demux) (hx : x.out.asSk = some s)
    (h : selects .demux none dstlen s'.skProtocol.toNat x = some false) : s.skProtocol ≠ s'.skProtocol := by
  intro heq
  simp [selects, isTarget, htype, hx, heq] at h

theorem created_fields (h : targetCreate type dst dstlen out weight mem = some (some t)) :
    (0 < dstlen → ∃ d, dst = some d ∧ t.dst = d.bytes.take dstlen) ∧ (dstlen = 0 → t.out.asSk = out.asSk) := by
  rcases targetCreate_cases h with ⟨hpos, d, hd, -, rfl⟩ | ⟨hzero, s, hs, rfl⟩
  · exact ⟨fun _ => ⟨d, hd, rfl⟩, fun h0 => absurd h0 hpos.ne'⟩
  · exact ⟨fun hpos => absurd hzero hpos.ne', fun _ => hs.symm⟩

theorem added_is_new (hrule : ruleRefused type dst dstlen = false)
    (hsel : ∀ x ∈ targets se.targetSet, selects type dst dstlen protocol x = some false)
    (hprot : targetProtocol dstlen out = some protocol)
    (hcreate : targetCreate type dst dstlen out weight mem = some (some t))
    (hdemux : type = .demux → dst = none ∨ NewProtocol se out)
    (hwith : type = .drop ∨ type = .delay → ∀ x ∈ targets se.targetSet, ¬ Withholds x) :
    ∀ x ∈ targets se.targetSet, ¬ Clash t x := by
  have htype := (targetCreate_some hcreate).1
  obtain ⟨hdst, hout⟩ := created_fields hcreate
  intro x hx hclash
  cases hclash with
  | forward ht hxt heq =>
    have hf : type = .forward := htype.symm.trans ht
    subst hf
    have hpos : 0 < dstlen := by
      rw [Nat.pos_iff_ne_zero]
      intro h0
      simp [ruleRefused, h0] at hrule
    obtain ⟨d, hd, htd⟩ := hdst hpos
    subst hd
    exact differs_forward hxt (hsel x hx) (heq.symm.trans htd)
  | @demux s s' ht hxt hs hs' hp =>
    have hd : type = .demux := htype.symm.trans ht
    subst hd
    have h0 : dstlen = 0 := by simpa [ruleRefused] using hrule
    have hskt : out.asSk = some s := (hout h0).symm.trans hs
    rcases hdemux rfl with hnone | hnew
    · subst hnone
      have hprotocol : (s.skProtocol.toNat : ℤ) = protocol := by
        simpa [targetProtocol, h0, hskt] using hprot
      have hx := hsel x hx
      rw [← hprotocol] at hx
      exact differs_demux hxt hs' hx hp.symm
    · exact hnew x hx hxt (by simp [hs', hskt, hp])
  | withholds ht hxw =>
    rw [Withholds, htype] at ht
    exact hwith ht x hx hxw

theorem copyDst_dst {t' : Target} {newDst : Option Buf} {newDstlen : ℕ} (h : copyDst t newDst newDstlen = some t') :
    t'.dst = t.dst ∨ ∃ d', newDst = some d' ∧ newDstlen = t.dst.length ∧ t'.dst = d'.bytes.take newDstlen := by
  rcases copyDst_cases h with ⟨rfl, -⟩ | ⟨d', hd', hlen, -, rfl⟩
  · exact .inl rfl
  · exact .inr ⟨d', hd', hlen, rfl⟩

theorem selected_type (h : selects type dst dstlen protocol t = some true) : t.type = type := by
  by_contra hne
  simp [selects, isTarget, hne] at h

theorem selected_dst (h : selects .forward (some d) t.dst.length protocol t = some true) :
    t.dst = d.bytes.take t.dst.length := by
  rw [selects_of_forward (selected_type h), memcmp] at h
  split at h
  · simpa using h
  · cases h

theorem modified_is_new {f : Found} {w : UInt32} {rest : List Target}
    (huniq : Unique se) (hfound : findTarget (selects type dst dstlen matchNoProtocol) se.targetSet = some (some f))
    (hcopy : copyDst f.target newDst newDstlen = some t) (hold : (targets se.targetSet).Perm (f.target :: rest))
    (hnew : type = .forward → ∀ d', newDst = some d' → NewDestination se (d'.bytes.take newDstlen) ∨
        ∃ d, dst = some d ∧ dstlen = newDstlen ∧ d.bytes.take dstlen = d'.bytes.take newDstlen) :
    ∀ x ∈ rest, ¬ Clash { t with weight := w } x := by
  have hfirst := (pairwise_cons.mp ((pairwise_perm hold).mp huniq)).1
  have ht := copyDst_some hcopy
  intro x hx hclash
  apply hfirst x hx
  cases hclash with
  | demux hd hxt hs hs' hp =>
    rw [ht] at hd hs
    exact .demux hd hxt hs hs' hp
  | withholds hw hxw =>
    rw [ht] at hw
    exact .withholds hw hxw
  | forward hf hxt heq =>
    have hft : f.target.type = .forward := by
      rw [ht] at hf
      exact hf
    have hsel := (findTarget_some hfound).2.1
    have htype : type = .forward := (selected_type hsel).symm.trans hft
    subst htype
    rcases copyDst_dst hcopy with hsame | ⟨d', hd', hlen, hdst⟩
    · exact .forward hft hxt (hsame.symm.trans heq)
    · rcases hnew rfl d' hd' with hfresh | ⟨d, hd, hl, htake⟩
      · have hxm : x ∈ targets se.targetSet := hold.mem_iff.mpr (mem_cons_of_mem _ hx)
        exact absurd (heq.symm.trans hdst) (hfresh x hxm hxt)
      · rw [hd, hl, hlen] at hsel
        have hfd := selected_dst hsel
        rw [hl, hlen] at htake
        apply Clash.forward hft hxt
        calc f.target.dst = d.bytes.take f.target.dst.length := hfd
          _ = d'.bytes.take f.target.dst.length := htake
          _ = t.dst := by rw [hdst, hlen]
          _ = x.dst := heq

end

variable {tbl : Table} {pos : List Bool → Option Ptr} {M : BitMap ServiceEntry}

theorem moves_unique (h : TableRep tbl pos M) (hok : MapOk M)
    (huniq : ∀ p se, M.lookup p = some se → Unique se) {op : Op} (hc : Careful tbl op)
    (hd : Distinct tbl op) {p : List Bool} {se' : ServiceEntry} (hm : Moves M op p se se') : Unique se' := by
  cases hm with
  | @add srvid prefixBits type flags priority weight dst dstlen out mem se se' m m' hrule hadd hfrom =>
    obtain ⟨hse, hroom, -⟩ := added_entry h hok hc hfrom
    rcases add_cases hadd with ⟨-, hne⟩ | ⟨-, protocol, t, hsel, hprot, hcreate, hse'⟩
    · exact absurd rfl hne
    · subst hse'
      have hperm := (addTarget_ok (entryOk_iff.mp hse).1 hroom flags t).2
      rw [Unique, pairwise_perm hperm, pairwise_cons]
      rcases hfrom with ⟨-, hnew⟩ | ⟨hl, hdup⟩
      · subst hnew
        simp [serviceEntryCreate]
      · have hcond := hd se (by rw [entryAt_eq h, hl])
        refine ⟨?_, huniq _ _ hl⟩
        apply added_is_new hrule hsel hprot hcreate hcond.1
        intro hw x hx
        have hcount : se.count ≠ 0 := by
          intro h0
          have hlen := hse.count
          rw [h0] at hlen
          exact ne_nil_of_mem hx (length_eq_zero_iff.mp hlen.symm)
        rw [← first_append se hcount] at hx
        rcases mem_append.mp hx with hx | hx
        · exact (not_duplicate_first hdup x hx).2
        · exact hcond.2 hw x hx
  | modify hl hmod =>
    have hroom := hc se (by rw [entryAt_eq h, hl])
    rcases modify_exchanges (entryOk_iff.mp (hok.entry _ _ hl)).1 hroom hmod with
      ⟨heq, -⟩ | ⟨f, t, w, rest, hfound, hcopy, -, -, -, hold, hnew⟩
    · rw [heq]
      exact huniq _ _ hl
    · rw [Unique, pairwise_perm hnew, pairwise_cons]
      constructor
      · exact modified_is_new (huniq _ _ hl) hfound hcopy hold (hd se (by rw [entryAt_eq h, hl]))
      · exact (pairwise_cons.mp ((pairwise_perm hold).mp (huniq _ _ hl))).2
  | remove _ hl hrem _ =>
    rcases removeTarget_ok (hok.entry _ _ hl) hrem with ⟨hentry, -⟩ | ⟨-, -, -, t, -, hperm⟩
    · rw [hentry]
      exact huniq _ _ hl
    · exact (pairwise_cons.mp ((pairwise_perm hperm).mp (huniq _ _ hl))).2
  | removeByDev hl hrem _ =>
    obtain ⟨rem, hrem', -, -, hcont, -⟩ := removeByDev_ok _ (hok.entry _ _ hl)
    cases hrem.symm.trans hrem'
    apply (huniq _ _ hl).sublist
    rw [dev_targets hcont]
    exact filter_sublist

/-- In every run whose calls all meet the conditions, the targets of every entry are unique. -/
theorem targets_unique {tbl : Table} (h : Reachable (fun tbl op => Careful tbl op ∧ Distinct tbl op) tbl)
    {p : List Bool} {se : ServiceEntry} (hse : entryAt tbl p = some se) : Unique se := by
  obtain ⟨pos, M, hrep, -, huniq⟩ := reachable_entries (fun _ _ hop => hop.1)
    (fun hrep hok huniq _ hop hm => moves_unique hrep hok huniq hop.1 hop.2 hm) h
  rw [entryAt_eq hrep] at hse
  exact huniq p se hse

namespace Counterexample

open ServiceRuns.Sample

def divert (host : UInt8) : Op :=
  .modify (some srvid) 1 .forward 0 0 1 (some ⟨4096, [10, 0, 0, 2]⟩) 4 (some ⟨8192, [10, 0, 0, host]⟩) 4
    true 8

def redirected : Table := resultOf twoRules (divert 1)

theorem redirected_run : run twoRules (divert 1) = some (redirected, 1) := rfl

def sameTarget : Target := ⟨.forward, 1, {}, .oif 1, [10, 0, 0, 1]⟩

theorem redirected_entry : entryAt redirected [true] = some ⟨[⟨[sameTarget, sameTarget], 2, 0, 0, 2⟩], 2⟩ := rfl

end Counterexample

open Counterexample ServiceRuns.Sample in
/-- Two forwarding rules, and a modify that gives one the destination of the other. -/
theorem modify_makes_duplicate :
    ¬ ∀ tbl, Reachable (fun _ _ => True) tbl → ∀ p se, entryAt tbl p = some se → Unique se := by
  intro hall
  have hred : Reachable (fun _ _ => True) redirected :=
    .step (divert 1) twoRules_reachable ⟨rfl, by decide⟩ trivial redirected_run
  have huniq := hall redirected hred [true] _ redirected_entry
  have hfirst := (pairwise_cons.mp huniq).1 sameTarget (by simp)
  exact hfirst (.forward rfl rfl rfl)

open Counterexample ServiceRuns.Sample in
/-- Two rules are added, and the second is given a new destination. -/
theorem targets_unique_diverted : Unique ⟨[⟨[⟨.forward, 1, {}, .oif 1, [10, 0, 0, 1]⟩,
    ⟨.forward, 1, {}, .oif 1, [10, 0, 0, 3]⟩], 2, 0, 0, 2⟩], 2⟩ := by
  have htwo := @rules_reachable (fun tbl op => Careful tbl op ∧ Distinct tbl op) ⟨rules_careful.1, nofun⟩
    ⟨rules_careful.2, fun _ _ => ⟨nofun, nofun⟩⟩
  refine targets_unique (.step (divert 3) htwo.2 ⟨rfl, by decide⟩ ⟨fun se hse => ?_, fun se hse _ d hd => .inl ?_⟩ rfl)
    (p := [true]) rfl
  · cases hse
    unfold ServiceEntryInvariant.HasRoom
    decide
  · cases hse
    cases hd
    unfold NewDestination
    decide

end ServiceUniqueness
