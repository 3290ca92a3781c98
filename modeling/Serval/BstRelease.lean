import Serval.BstLookup
import Mathlib.Data.UInt

/-! # Removal and release

`bst_node_release` frees a childless node and then every ancestor that is left without data and children, up
to the root, which stays.
-/
namespace BstRelease

open BitString BstModel BstLayout BstLookup List Option Finmap Function

variable {α : Type} {t : Bst α} {pos : List Bool → Option Ptr} {M : BitMap α}

variable {q : List Bool} {a : Ptr}

theorem hit_iff (h : Holds t pos M) {mtch : Option (Ptr → Bool)} {n : Ptr}
    (hq : pos q = some n) : Hit t mtch n ↔ q ∈ M ∧ nodeMatches mtch n := by
  obtain ⟨nd, hn, -, hl⟩ := h.node_lookup hq
  unfold Hit
  rw [← lookup_isSome, hl, hn]
  simp

theorem card_erase_bound {p : List Bool} (hp : p ∈ M) : (M.erase p).keys.card + 1 = M.keys.card := by
  rw [keys_erase]
  exact Finset.card_erase_add_one (by simpa [Finmap.mem_keys] using hp)

theorem orphan_spec (h : Represents t pos M) {p : List Bool} {n : Ptr} {nd : BstNode α}
    (hp : pos p = some n) (hn : t.heap n = some nd) (hm : p ∈ M) :
    ∃ t', bstNodeOrphan t n = some t' ∧ Represents t' pos (M.erase p) ∧
      t'.heap n = some { nd with ops := none, priv := none } := by
  obtain ⟨md, hmd, hok, hl⟩ := h.node_lookup hp
  cases hn.symm.trans hmd
  obtain ⟨v, hv⟩ := mem_iff.mp hm
  have hpriv : nd.priv = some v := hl.symm.trans hv
  have hbase : Holds _ pos (M.erase p) := h.toHolds.write hp
    (show NodeOk pos p { nd with ops := none, priv := none } from
      ⟨hok.depth, hok.child, hok.parent, hok.stored, fun _ => rfl⟩)
    (lookup_erase p M) (fun q hq => lookup_erase_ne hq)
  obtain ⟨ds, horphan⟩ : ∃ ds, bstNodeOrphan t n = some { t.write n { nd with ops := none, priv := none } with
        entries := t.entries - 1, destroyed := ds } := by
    simp only [bstNodeOrphan, hn, hpriv, bind_eq_bind, bind_some]
    exact ⟨_, rfl⟩
  refine ⟨_, horphan, ⟨{ hbase with }, ?_⟩, by simp [Bst.write]⟩
  change t.entries - 1 = _
  rw [h.entries, ← card_erase_bound hm, UInt32.ofNat_add]
  exact add_sub_cancel_right _ _

def clearChild (pd : BstNode α) (b : Bool) : BstNode α :=
  if b then { pd with right := none } else { pd with left := none }

@[simp] theorem childAt_clearChild (pd : BstNode α) (b c : Bool) :
    childAt (clearChild pd b) c = if c = b then none else childAt pd c := by
  cases b <;> cases c <;> rfl

theorem nodeOk_clearChild {pos pos' : List Bool → Option Ptr} {p : List Bool} {pd : BstNode α} (hok : NodeOk pos p pd)
    {b : Bool} (hb : pos' (p ++ [b]) = none) (hc : ∀ c, c ≠ b → pos' (p ++ [c]) = pos (p ++ [c]))
    (hp : pos' p.dropLast = pos p.dropLast) : NodeOk pos' p (clearChild pd b) := by
  refine ⟨?_, ?_, ?_, ?_, ?_⟩
  · cases b <;> exact hok.depth
  · intro c
    rw [childAt_clearChild]
    by_cases hcb : c = b
    · subst hcb
      simp [hb]
    · simp [hcb, hc c hcb, hok.child]
  · rw [hp, hok.parent]
    cases b <;> rfl
  · cases b <;> exact hok.stored
  · cases b <;> exact hok.idle

def unlinked (t : Bst α) (n parent : Ptr) (pd : BstNode α) (b : Bool) : Bst α :=
  { t with heap := update (update t.heap parent (some (clearChild pd b))) n none }

theorem free_eq {p : List Bool} {b : Bool} {n : Ptr} (h : Layout t pos) (hp : pos (p ++ [b]) = some n)
    {nd pd : BstNode α} (hn : t.heap n = some nd) (hpd : t.heap nd.parent = some pd) (hpar : pos p = some nd.parent)
    (hok : NodeOk pos p pd) : nd.parent ≠ n ∧ bstNodeFree t n = some (unlinked t n nd.parent pd b) := by
  have hne : nd.parent ≠ n := by
    intro he
    have := h.inj _ _ _ hpar (he ▸ hp)
    simp at this
  refine ⟨hne, ?_⟩
  have hright : (pd.right = some n) = (b = true) := by
    have hr : pd.right = pos (p ++ [true]) := hok.child true
    rw [hr]
    apply propext
    constructor
    · intro he
      have := h.inj _ _ _ he hp
      simpa using this.symm
    · rintro rfl
      exact hp
  cases b <;> simp [bstNodeFree, hn, hne, hpd, hright, clearChild, unlinked, Bst.write]

theorem update_none_eq_some {r : List Bool} (h : update pos q none r = some a) : r ≠ q ∧ pos r = some a := by
  by_cases hr : r = q
  · subst hr
    rw [update_self] at h
    cases h
  · exact ⟨hr, by rwa [update_of_ne hr] at h⟩

theorem dropLast_ne_append (p : List Bool) (b : Bool) : p.dropLast ≠ p ++ [b] := by
  intro he
  have hlen := congrArg List.length he
  rw [length_dropLast, length_append, length_singleton] at hlen
  omega

section Free

variable (h : Layout t pos) {p : List Bool} {b : Bool} {n : Ptr} {nd pd : BstNode α}
  (hp : pos (p ++ [b]) = some n) (hpar : pos p = some nd.parent)

include h hp hpar

theorem unlinked_heap (hq : pos q = some a) (hqb : q ≠ p ++ [b])
    (hqp : q ≠ p) : (unlinked t n nd.parent pd b).heap a = t.heap a := by
  have h1 : a ≠ n := fun he => hqb (h.inj _ _ _ (he ▸ hq) hp)
  have h2 : a ≠ nd.parent := fun he => hqp (h.inj _ _ _ (he ▸ hq) hpar)
  simp [unlinked, h1, h2]

theorem nodeOk_unlinked (hpok : NodeOk pos p pd) (hne : nd.parent ≠ n)
    (hleaf : ∀ c, pos (p ++ [b] ++ [c]) = none) (hq : pos q = some a) (hqb : q ≠ p ++ [b]) :
    ∃ qd, (unlinked t n nd.parent pd b).heap a = some qd ∧ NodeOk (update pos (p ++ [b]) none) q qd := by
  by_cases hqp : q = p
  · subst hqp
    cases hq.symm.trans hpar
    refine ⟨clearChild pd b, by simp [unlinked, hne], nodeOk_clearChild hpok ?_ ?_ ?_⟩
    · rw [update_self]
    · intro c hc
      rw [update_of_ne (by simpa using hc)]
    · rw [update_of_ne (dropLast_ne_append q b)]
  · obtain ⟨qd, hqd, hqok⟩ := h.node _ _ hq
    refine ⟨qd, by rw [unlinked_heap h hp hpar hq hqb hqp, hqd], hqok.congr ?_ ?_⟩
    · intro c
      apply update_of_ne
      intro he
      exact hqp (append_inj_left' he rfl)
    · apply update_of_ne
      intro he
      -- a node whose parent is the freed leaf would be a child of it
      have hq0 : q ≠ [] := by
        rintro rfl
        simp at he
      rw [← dropLast_append_getLast hq0, he, hleaf] at hq
      cases hq

end Free

theorem free_spec (h : Holds t pos M) {p : List Bool} {b : Bool} {n : Ptr} {nd : BstNode α}
    (hp : pos (p ++ [b]) = some n) (hn : t.heap n = some nd) (hl : nd.left = none)
    (hr : nd.right = none) (hidle : nd.priv = none) :
    ∃ t', bstNodeFree t n = some t' ∧ Holds t' (update pos (p ++ [b]) none) M ∧ t'.entries = t.entries := by
  obtain ⟨md, hmd, hok⟩ := h.node _ _ hp
  cases hn.symm.trans hmd
  have hpar : pos p = some nd.parent := by simpa using hok.parent
  obtain ⟨pd, hpd, hpok⟩ := h.node _ _ hpar
  obtain ⟨hne, hfree⟩ := free_eq h.toLayout hp hn hpd hpar hpok
  have hleaf : ∀ c, pos (p ++ [b] ++ [c]) = none := by
    intro c
    rw [← hok.child c]
    cases c
    · exact hl
    · exact hr
  refine ⟨_, hfree, ⟨⟨?_, ?_, ?_, ?_⟩, ?_⟩, rfl⟩
  · rw [update_of_ne (by simp)]
    exact h.root
  · intro q r a hq hr'
    exact h.inj _ _ _ (update_none_eq_some hq).2 (update_none_eq_some hr').2
  · intro q a hqa
    obtain ⟨hqb, hq⟩ := update_none_eq_some hqa
    exact nodeOk_unlinked h.toLayout hp hpar hpok hne hleaf hq hqb
  · intro q a hqa
    exact h.fresh _ _ (update_none_eq_some hqa).2
  · intro q
    by_cases hqb : q = p ++ [b]
    · subst hqb
      rw [h.lookup, hp, update_self]
      simp [hn, hidle]
    · rw [update_of_ne hqb, h.lookup]
      cases hq : pos q with
      | none => rfl
      | some a =>
        by_cases hqp : q = p
        · subst hqp
          cases hq.symm.trans hpar
          cases b <;> simp [unlinked, hne, hpd, clearChild]
        · simp [unlinked_heap h.toLayout hp hpar hq hqb hqp]

structure Pruned (pos pos' : List Bool → Option Ptr) (p : List Bool) : Prop where
  shrinks : ∀ q, pos' q = pos q ∨ pos' q = none
  elsewhere : ∀ q, ¬ q <+: p → pos' q = pos q
  root : pos' [] = pos []

theorem Pruned.refl (pos : List Bool → Option Ptr) (p : List Bool) : Pruned pos pos p :=
  ⟨fun _ => .inl rfl, fun _ _ => rfl, rfl⟩

theorem Pruned.step {pos pos' : List Bool → Option Ptr} {p : List Bool} {b : Bool}
    (h : Pruned (update pos (p ++ [b]) none) pos' p) : Pruned pos pos' (p ++ [b]) := by
  refine ⟨?_, ?_, ?_⟩
  · intro q
    rcases h.shrinks q with hq | hq
    · by_cases he : q = p ++ [b]
      · subst he
        exact .inr (by rw [hq, update_self])
      · exact .inl (by rw [hq, update_of_ne he])
    · exact .inr hq
  · intro q hq
    have hqp : ¬ q <+: p := fun hc => hq (hc.trans (prefix_append p [b]))
    have hne : q ≠ p ++ [b] := fun he => hq (he ▸ prefix_refl _)
    rw [h.elsewhere q hqp, update_of_ne hne]
  · rw [h.root, update_of_ne (by simp)]

def TrimmedBut (pos : List Bool → Option Ptr) (M : BitMap α) (p : List Bool) : Prop :=
  ∀ q, q ≠ [] → q ≠ p → pos q ≠ none → (∀ b, pos (q ++ [b]) = none) → q ∈ M

theorem trimmedBut_parent {p : List Bool} {b : Bool} (h : TrimmedBut pos M (p ++ [b])) :
    TrimmedBut (update pos (p ++ [b]) none) M p := by
  intro q hq hqp hnode hleaf
  obtain ⟨a, ha⟩ := ne_none_iff_exists'.mp hnode
  obtain ⟨hqb, hpos⟩ := update_none_eq_some ha
  refine h q hq hqb (by simp [hpos]) fun c => ?_
  have hne : q ++ [c] ≠ p ++ [b] := fun he => hqp (append_inj_left' he rfl)
  rw [← hleaf c, update_of_ne hne]

theorem climbs_from_leaf (h : Holds t pos M) {p : List Bool} {n : Ptr} {nd : BstNode α} (hp : pos p = some n)
    (hn : t.heap n = some nd) (hok : NodeOk pos p nd) (hne : p ≠ []) (hleaf : ∀ b, pos (p ++ [b]) = none)
    (hidle : p ∉ M) : (nd.priv.isNone && nd.left.isNone && nd.right.isNone && n != nd.parent) = true := by
  have hpriv : nd.priv = none := by
    rw [← lookup_eq_none, h.lookup, hp] at hidle
    simpa [hn] using hidle
  have hleft : nd.left = none := (hok.child false).trans (hleaf false)
  have hright : nd.right = none := (hok.child true).trans (hleaf true)
  have hpar : n ≠ nd.parent := by
    intro he
    have hsame : p.dropLast = p := h.inj _ _ _ (hok.parent.trans (congrArg some he.symm)) hp
    have hlen := congrArg List.length hsame
    have := length_pos_iff.mpr hne
    rw [length_dropLast] at hlen
    omega
  simp [hpriv, hleft, hright, hpar]

/-- The climb ends at the first ancestor that is active, has a child, or is the root. -/
theorem ancestors_spec (fuel : ℕ) : ∀ (p : List Bool) (t : Bst α) (pos : List Bool → Option Ptr)
    (n : Ptr), Holds t pos M → pos p = some n → p.length < fuel →
    ∃ t' pos', bstReleaseAncestors fuel t n = some t' ∧ Holds t' pos' M ∧
      t'.entries = t.entries ∧ Pruned pos pos' p ∧ (TrimmedBut pos M p → Trimmed pos' M) := by
  induction fuel with
  | zero => intro p t pos n _ _ hf; omega
  | succ fuel ih =>
    intro p t pos n h hp hf
    obtain ⟨nd, hn, hok⟩ := h.node _ _ hp
    by_cases hc : (nd.priv.isNone && nd.left.isNone && nd.right.isNone && n != nd.parent) = true
    · have hc' := hc
      simp only [Bool.and_eq_true, isNone_iff_eq_none, bne_iff_ne, ne_eq] at hc'
      obtain ⟨⟨⟨hidle, hleft⟩, hright⟩, hpar⟩ := hc'
      rcases eq_nil_or_concat p with rfl | ⟨q, b, rfl⟩
      · have hself := hok.parent
        rw [dropLast_nil, hp] at hself
        exact absurd (some.inj hself) hpar
      · rw [concat_eq_append] at *
        obtain ⟨t₁, hfree, hholds, hent⟩ := free_spec h hp hn hleft hright hidle
        have hq : update pos (q ++ [b]) none q = some nd.parent := by
          rw [update_of_ne (by simp)]
          simpa using hok.parent
        obtain ⟨t', pos', hrun, hholds', hent', hpr, htrim⟩ := ih q t₁ _ nd.parent hholds hq (by
          simp at hf
          omega)
        refine ⟨t', pos', ?_, hholds', hent'.trans hent, hpr.step, fun htrimmed => htrim (trimmedBut_parent htrimmed)⟩
        simp only [bstReleaseAncestors, hn, hc, hfree, hrun, ↓reduceIte, bind_eq_bind, bind_some]
    · refine ⟨t, pos, ?_, h, rfl, Pruned.refl pos p, fun htrimmed q hq hnode hleaf => ?_⟩
      · simp only [bstReleaseAncestors, hn, bind_eq_bind, bind_some]
        rw [if_neg hc]
        rfl
      · by_cases hqp : q = p
        · subst hqp
          by_contra hidle
          exact hc (climbs_from_leaf h hp hn hok hq hleaf hidle)
        · exact htrimmed q hq hqp hnode hleaf

theorem mem_erase_of_ne {p : List Bool} (hq : q ∈ M) (hne : q ≠ p) : q ∈ M.erase p := by
  obtain ⟨v, hv⟩ := mem_iff.mp hq
  exact mem_of_lookup_eq_some ((lookup_erase_ne hne).trans hv)

def Releasable (pos : List Bool → Option Ptr) (p : List Bool) : Prop :=
  p = [] → pos [false] ≠ none ∨ pos [true] ≠ none

theorem release_spec (h : Represents t pos M) {p : List Bool} {n : Ptr} (hp : pos p = some n)
    (hm : p ∈ M) (hs : Releasable pos p) :
    ∃ t' pos', bstNodeRelease t n = some t' ∧ Represents t' pos' (M.erase p) ∧
      Pruned pos pos' p ∧ (Trimmed pos M → Trimmed pos' (M.erase p)) := by
  obtain ⟨nd, hn, hok⟩ := h.node _ _ hp
  obtain ⟨t₁, horphan, hrep, hn₁⟩ := orphan_spec h hp hn hm
  by_cases hc : (nd.left.isSome || nd.right.isSome) = true
  · refine ⟨t₁, pos, ?_, hrep, Pruned.refl pos p, fun htrimmed q hq hnode hleaf => ?_⟩
    · simp only [bstNodeRelease, horphan, hn₁, hc, ↓reduceIte, bind_eq_bind, bind_some]
      rfl
    · refine mem_erase_of_ne (htrimmed q hq hnode hleaf) ?_
      rintro rfl
      have hleft : nd.left = none := (hok.child false).trans (hleaf false)
      have hright : nd.right = none := (hok.child true).trans (hleaf true)
      rw [hleft, hright] at hc
      cases hc
  · have hc' := hc
    simp only [Bool.or_eq_true, not_or, not_isSome_iff_eq_none] at hc'
    obtain ⟨hleft, hright⟩ := hc'
    rcases eq_nil_or_concat p with rfl | ⟨q, b, rfl⟩
    · have h0 : pos [false] = none := (hok.child false).symm.trans hleft
      have h1 : pos [true] = none := (hok.child true).symm.trans hright
      rcases hs rfl with hx | hx
      · exact absurd h0 hx
      · exact absurd h1 hx
    · rw [concat_eq_append] at *
      obtain ⟨t₂, hfree, hholds, hent⟩ := free_spec hrep.toHolds hp hn₁ hleft hright rfl
      have hq : update pos (q ++ [b]) none q = some nd.parent := by
        rw [update_of_ne (by simp)]
        simpa using hok.parent
      have hdepth : nd.prefixBits = (q ++ [b]).length := hok.depth
      obtain ⟨t', pos', hrun, hholds', hent', hpr, htrim⟩ :=
        ancestors_spec (nd.prefixBits + 1) q t₂ _ nd.parent hholds hq (by
          rw [hdepth, length_append, length_singleton]
          omega)
      refine ⟨t', pos', ?_, ⟨hholds', ?_⟩, hpr.step, fun htrimmed => htrim (trimmedBut_parent ?_)⟩
      · simp [bstNodeRelease, horphan, hn₁, hleft, hright, hfree, hrun]
      · rw [hent', hent, hrep.entries]
      · intro r hr hrp hnode hleaf
        exact mem_erase_of_ne (htrimmed r hr hnode hleaf) hrp

theorem release_childless_root (h : Represents t pos M) {n : Ptr} (hp : pos [] = some n)
    (hm : [] ∈ M) (h0 : pos [false] = none) (h1 : pos [true] = none) : bstNodeRelease t n = none := by
  obtain ⟨nd, hn, hok⟩ := h.node _ _ hp
  obtain ⟨t₁, horphan, hrep, hn₁⟩ := orphan_spec h hp hn hm
  have hself : nd.parent = n := by
    have := hok.parent
    rw [dropLast_nil, hp] at this
    exact (some.inj this).symm
  have hleft : nd.left = none := (hok.child false).trans h0
  have hright : nd.right = none := (hok.child true).trans h1
  simp [bstNodeRelease, horphan, hn₁, hleft, hright, hself, bstNodeFree, bstReleaseAncestors]

theorem remove_spec (h : Represents t pos M) (key : List UInt8) (bits : ℕ) :
    ∃ t' r, bstRemovePrefix t key bits = some (t', r) ∧
      ((r = 1 ∧ bitsOf key bits ∈ M ∧ Represents t' pos (M.erase (bitsOf key bits))) ∨
        (r = 0 ∧ bitsOf key bits ∉ M ∧ t' = t)) := by
  obtain ⟨res, hfind, hres⟩ := find_match_spec h.toLayout key bits none
  have hbound : ∀ n, pos (bitsOf key bits) = some n → bitsOf key bits ∈ M → Hit t none n :=
    fun n hn hm => (hit_iff h.toHolds hn).mpr ⟨hm, rfl⟩
  have hnode : bitsOf key bits ∈ M → ∃ n, pos (bitsOf key bits) = some n := by
    intro hm
    obtain ⟨v, hv⟩ := mem_iff.mp hm
    obtain ⟨n, -, hn, -⟩ := h.bound_node hv
    exact ⟨n, hn⟩
  cases res with
  | none =>
    refine ⟨t, 0, by simp [bstRemovePrefix, bstFindLongestPrefix, hfind], .inr ⟨rfl, ?_, rfl⟩⟩
    intro hm
    obtain ⟨n, hn⟩ := hnode hm
    exact hres _ n (prefix_refl _) hn (hbound n hn hm)
  | some n =>
    obtain ⟨q, hq, hlong⟩ := hres
    obtain ⟨nd, hn, hok⟩ := h.node _ _ hq
    obtain ⟨m, hm', hit⟩ := hlong.holds
    cases hq.symm.trans hm'
    have hqm : q ∈ M := ((hit_iff h.toHolds hq).mp hit).1
    by_cases hlen : q.length = bits
    · have hqk : q = bitsOf key bits := hlong.isPrefix.eq_of_length (by simp [hlen])
      obtain ⟨t', horphan, hrep, -⟩ := orphan_spec h hq hn hqm
      refine ⟨t', 1, ?_, .inl ⟨rfl, hqk ▸ hqm, hqk ▸ hrep⟩⟩
      simp [bstRemovePrefix, bstFindLongestPrefix, hfind, hn, hok.depth, hlen, horphan]
    · refine ⟨t, 0, ?_, .inr ⟨rfl, ?_, rfl⟩⟩
      · simp [bstRemovePrefix, bstFindLongestPrefix, hfind, hn, hok.depth, hlen]
      · intro hm
        obtain ⟨k, hk⟩ := hnode hm
        have hle := hlong.longest _ (prefix_refl _) ⟨k, hk, hbound k hk hm⟩
        have hge := hlong.isPrefix.length_le
        simp at hle hge
        omega

end BstRelease
