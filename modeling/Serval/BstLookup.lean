import Serval.BstLayout

/-! # Longest-prefix lookup

The descent visits the nodes of the prefixes of the key in order of length, so the
last matching node it remembers is the node of the longest bound prefix.
-/
namespace BstLookup

open BitString BstModel BstLayout Option

variable {α : Type} {t : Bst α} {pos : List Bool → Option Ptr}

def Hit (t : Bst α) (mtch : Option (Ptr → Bool)) (n : Ptr) : Prop :=
  (∃ nd, t.heap n = some nd ∧ nd.priv.isSome) ∧ nodeMatches mtch n

structure IsLongest (P : List Bool → Prop) (k q : List Bool) : Prop where
  isPrefix : q <+: k
  holds : P q
  longest : ∀ r, r <+: k → P r → r.length ≤ q.length

theorem IsLongest.unique {P : List Bool → Prop} {k q r : List Bool} (hq : IsLongest P k q)
    (hr : IsLongest P k r) : q = r := by
  have hl : q.length = r.length :=
    le_antisymm (hr.longest q hq.isPrefix hq.holds) (hq.longest r hr.isPrefix hr.holds)
  exact (List.prefix_of_prefix_length_le hq.isPrefix hr.isPrefix hl.le).eq_of_length hl

variable {key : List UInt8}

theorem find_step {bits fuel : ℕ} {mtch : Option (Ptr → Bool)} {n : Ptr}
    {prev : Option Ptr} {nd : BstNode α} (hn : t.heap n = some nd) :
    bstNodeFindLongestPrefix t key bits mtch (fuel + 1) n prev =
      let prev' := if nd.priv.isSome && nodeMatches mtch n then some n else prev
      if bits = 0 ∨ nd.prefixBits = bits then some (n, prev')
      else match childAt nd (checkBit key nd.prefixBits) with
        | some c => bstNodeFindLongestPrefix t key bits mtch fuel c prev'
        | none => some (n, prev') := by
  simp only [bstNodeFindLongestPrefix, hn, childAt, bind_eq_bind, bind_some]
  split
  · rfl
  · split <;> split <;> simp_all

/-- The state of `*prev` after the descent passed the prefixes of length `i` to `j`. -/
def LastHit (t : Bst α) (pos : List Bool → Option Ptr) (mtch : Option (Ptr → Bool))
    (key : List UInt8) (i j : ℕ) (prev prev' : Option Ptr) : Prop :=
  (prev' = prev ∧ ∀ l n, i ≤ l → l ≤ j → pos (bitsOf key l) = some n → ¬ Hit t mtch n) ∨
  ∃ l n, i ≤ l ∧ l ≤ j ∧ pos (bitsOf key l) = some n ∧ Hit t mtch n ∧ prev' = some n ∧
    ∀ l' n', l < l' → l' ≤ j → pos (bitsOf key l') = some n' → ¬ Hit t mtch n'

theorem lastHit_here (mtch : Option (Ptr → Bool)) (prev : Option Ptr) {i : ℕ}
    {n : Ptr} {nd : BstNode α} (hp : pos (bitsOf key i) = some n) (hn : t.heap n = some nd) :
    LastHit t pos mtch key i i prev
      (if nd.priv.isSome && nodeMatches mtch n then some n else prev) := by
  by_cases hh : (nd.priv.isSome && nodeMatches mtch n) = true
  · have hh' : nd.priv.isSome = true ∧ nodeMatches mtch n = true := by simpa using hh
    refine .inr ⟨i, n, le_rfl, le_rfl, hp, ⟨⟨nd, hn, hh'.1⟩, hh'.2⟩, by simp [hh], ?_⟩
    intro l' n' h1 h2
    omega
  · refine .inl ⟨by simp [hh], ?_⟩
    intro l m h1 h2 hm hit
    obtain rfl : l = i := by omega
    obtain rfl : n = m := some.inj (hp.symm.trans hm)
    obtain ⟨⟨md, hmd, ha⟩, hb⟩ := hit
    obtain rfl : nd = md := some.inj (hn.symm.trans hmd)
    exact hh (by simp [ha, hb])

theorem LastHit.trans {mtch : Option (Ptr → Bool)} {i j : ℕ}
    {prev prev' prev'' : Option Ptr} (h : LastHit t pos mtch key i i prev prev')
    (h' : LastHit t pos mtch key (i + 1) j prev' prev'') (hj : i ≤ j) : LastHit t pos mtch key i j prev prev'' := by
  rcases h' with ⟨rfl, hnone⟩ | ⟨l, n, hl, hlj, hp, hit, he, hlast⟩
  · rcases h with ⟨rfl, hno⟩ | ⟨l, n, hil, hli, hp, hit, rfl, hlast⟩
    · refine .inl ⟨rfl, fun l n h1 h2 hp => ?_⟩
      rcases Nat.eq_or_lt_of_le h1 with rfl | h1
      · exact hno _ n le_rfl le_rfl hp
      · exact hnone l n h1 h2 hp
    · obtain rfl : l = i := by omega
      exact .inr ⟨l, n, le_rfl, hj, hp, hit, rfl, fun l' n' h1 h2 => hnone l' n' h1 h2⟩
  · exact .inr ⟨l, n, by omega, hlj, hp, hit, he, hlast⟩

/-- The descent from the node of the first `i` bits of the key ends at the longest
prefix that has a node. The induction is on the bits that are left. -/
theorem descent_spec (h : Layout t pos) (key : List UInt8) (bits : ℕ)
    (mtch : Option (Ptr → Bool)) (fuel : ℕ) : ∀ (i : ℕ) (n : Ptr) (prev : Option Ptr),
    i ≤ bits → bits - i < fuel → pos (bitsOf key i) = some n →
    ∃ j m prev', i ≤ j ∧ j ≤ bits ∧ bstNodeFindLongestPrefix t key bits mtch fuel n prev = some (m, prev') ∧
      pos (bitsOf key j) = some m ∧ (j < bits → pos (bitsOf key (j + 1)) = none) ∧
      LastHit t pos mtch key i j prev prev' := by
  induction fuel with
  | zero => intro i n prev _ hf; omega
  | succ fuel ih =>
    intro i n prev hi hf hp
    obtain ⟨nd, hn, hok⟩ := h.node _ _ hp
    have hd : nd.prefixBits = i := by simpa using hok.depth
    have hc : childAt nd (checkBit key i) = pos (bitsOf key (i + 1)) := by
      rw [hok.child, checkBit_eq_bitAt, bitsOf_succ]
    have hhere := lastHit_here mtch prev hp hn
    rw [find_step hn, hd]
    by_cases hb : i = bits
    · subst hb
      exact ⟨i, n, _, le_rfl, le_rfl, by simp, hp, fun h => absurd h (lt_irrefl _), hhere⟩
    · have hstop : ¬ (bits = 0 ∨ i = bits) := by omega
      simp only [hstop, ↓reduceIte, hc]
      cases hq : pos (bitsOf key (i + 1)) with
      | none => exact ⟨i, n, _, le_rfl, hi, rfl, hp, fun _ => hq, hhere⟩
      | some c =>
        obtain ⟨j, m, prev', hij, hjb, hfind, hm, hend, hlast⟩ :=
          ih (i + 1) c _ (by omega) (by omega) hq
        exact ⟨j, m, prev', by omega, hjb, hfind, hm, hend, hhere.trans hlast (by omega)⟩

theorem root_descent_spec (h : Layout t pos) (key : List UInt8) (bits : ℕ)
    (mtch : Option (Ptr → Bool)) {r : Ptr} (hr : t.root = some r) :
    ∃ j m prev', j ≤ bits ∧ bstNodeFindLongestPrefix t key bits mtch (bits + 1) r none = some (m, prev') ∧
      pos (bitsOf key j) = some m ∧ (j < bits → pos (bitsOf key (j + 1)) = none) ∧
      LastHit t pos mtch key 0 j none prev' := by
  have hp : pos (bitsOf key 0) = some r := by simpa [h.root] using hr
  obtain ⟨j, m, prev', _, hj⟩ :=
    descent_spec h key bits mtch (bits + 1) 0 r none (Nat.zero_le _) (by omega) hp
  exact ⟨j, m, prev', hj⟩

theorem Layout.none_past {j l : ℕ} (h : Layout t pos)
    (hj : pos (bitsOf key (j + 1)) = none) (hl : j < l) : pos (bitsOf key l) = none := by
  by_contra hne
  exact h.prefix_some (bitsOf_mono key (Nat.succ_le_of_lt hl)) hne hj

/-- The lookup returns the node of the longest prefix of the first `bits` bits of the
key that has a hit, and NULL if there is none. -/
theorem find_match_spec (h : Layout t pos) (key : List UInt8) (bits : ℕ) (mtch : Option (Ptr → Bool)) :
    ∃ r, bstFindLongestPrefixMatch t key bits mtch = some r ∧ match r with
      | none => ∀ q n, q <+: bitsOf key bits → pos q = some n → ¬ Hit t mtch n
      | some n => ∃ q, pos q = some n ∧
          IsLongest (fun q => ∃ m, pos q = some m ∧ Hit t mtch m) (bitsOf key bits) q := by
  unfold bstFindLongestPrefixMatch
  cases hr : t.root with
  | none =>
    refine ⟨none, rfl, fun q n _ hq => ?_⟩
    exact absurd (hr ▸ h.root).symm (h.prefix_some (q := q) List.nil_prefix (by simp [hq]))
  | some r =>
    obtain ⟨j, m, prev', hj, hfind, hm, hend, hlast⟩ := root_descent_spec h key bits mtch hr
    obtain ⟨md, hmd, -⟩ := h.node _ _ hm
    have hret : (md.priv.isSome && nodeMatches mtch m) = true → prev' = some m := by
      intro hh
      have hit : Hit t mtch m := by
        have := Bool.and_eq_true_iff.mp hh
        exact ⟨⟨md, hmd, this.1⟩, this.2⟩
      rcases hlast with ⟨_, hno⟩ | ⟨l, n, _, hlj, hp, _, he, hlater⟩
      · exact absurd hit (hno j m (Nat.zero_le _) le_rfl hm)
      · rcases Nat.eq_or_lt_of_le hlj with rfl | hlt
        · rw [he, ← hp, hm]
        · exact absurd hit (hlater j m hlt le_rfl hm)
    refine ⟨prev', ?_, ?_⟩
    · simp only [hfind, hmd, bind_eq_bind, bind_some]
      split
      · next hh => rw [hret hh]; rfl
      · rfl
    · -- a hit at a prefix of the key lies on the path of the descent
      have onPath : ∀ q n, q <+: bitsOf key bits → pos q = some n → q = bitsOf key q.length ∧ q.length ≤ j := by
        intro q n hq hn
        obtain ⟨hlen, heq⟩ := prefix_bitsOf hq
        refine ⟨heq, ?_⟩
        by_contra hgt
        have := Layout.none_past h (hend (by omega)) (show j < q.length by omega)
        rw [← heq, hn] at this
        cases this
      rcases hlast with ⟨rfl, hno⟩ | ⟨l, n, _, hlj, hp, hit, rfl, hlater⟩
      · intro q n hq hn
        obtain ⟨heq, hle⟩ := onPath q n hq hn
        exact hno q.length n (Nat.zero_le _) hle (heq ▸ hn)
      · refine ⟨bitsOf key l, hp, bitsOf_mono key (by omega), ⟨n, hp, hit⟩, ?_⟩
        rintro q hq ⟨m', hm', hit'⟩
        obtain ⟨heq, hle⟩ := onPath q m' hq hm'
        by_contra hgt
        rw [length_bitsOf] at hgt
        exact hlater q.length m' (by omega) hle (heq ▸ hm') hit'

end BstLookup
