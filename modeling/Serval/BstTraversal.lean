import Serval.BstRelease
import Mathlib.Data.Set.Card

/-! # Applying a function to a subtree

The function that `bst_subtree_func` calls may release the node it is given, and with it ancestors of that
node. The nodes on the stack are never among them.
-/
namespace BstTraversal

open BstModel BstLayout BstRelease List Option Finmap

variable {α σ : Type}

def bstSubtreeVisit (func : σ → Ptr → Option (σ × ℤ)) (s : σ) (n : Ptr) (nd : BstNode α) : Option (σ × ℤ) :=
  if nd.priv.isSome then func s n else some (s, 0)

/-- The loop of `bst_subtree_func`, on the state `s` that holds the tree. A node on the stack
is read when it is popped, so it must still be there. -/
def bstSubtreeFunc (tree : σ → Bst α) (func : σ → Ptr → Option (σ × ℤ)) : ℕ → σ → List Ptr → ℤ → Option (σ × ℤ)
  | 0, _, _, _ => none
  | _ + 1, s, [], count => some (s, count)
  | fuel + 1, s, n :: stack, count => do
    let nd ← (tree s).heap n
    let (s, ret) ← bstSubtreeVisit func s n nd
    if ret < 0 then return (s, ret)
    else bstSubtreeFunc tree func fuel s (nd.left.toList ++ nd.right.toList ++ stack) (count + ret)

def Apart (p q : List Bool) : Prop := ¬ p <+: q ∧ ¬ q <+: p

def Below (ps : List (List Bool)) (q : List Bool) : Prop := ∃ p ∈ ps, p <+: q

instance (ps : List (List Bool)) : DecidablePred (Below ps) := fun q =>
  inferInstanceAs (Decidable (∃ p ∈ ps, p <+: q))

def kids (pos : List Bool → Option Ptr) (p : List Bool) : List (List Bool) :=
  [p ++ [false], p ++ [true]].filter fun c => (pos c).isSome

variable {pos : List Bool → Option Ptr} {p q : List Bool} {rest : List (List Bool)}

theorem mem_kids {c : List Bool} : c ∈ kids pos p ↔ ∃ b, c = p ++ [b] ∧ pos c ≠ none := by
  simp only [kids, mem_filter, mem_cons, not_mem_nil, or_false, isSome_iff_ne_none]
  constructor
  · rintro ⟨rfl | rfl, h⟩
    · exact ⟨false, rfl, h⟩
    · exact ⟨true, rfl, h⟩
  · rintro ⟨b, rfl, h⟩
    cases b
    · exact ⟨.inl rfl, h⟩
    · exact ⟨.inr rfl, h⟩

theorem Apart.child {r : List Bool} (h : Apart p r) (b : Bool) : Apart (p ++ [b]) r := by
  constructor
  · exact fun hpr => h.1 ((prefix_append p [b]).trans hpr)
  · intro hr
    rcases prefix_concat_iff.mp hr with rfl | hr
    · exact h.1 (prefix_append p [b])
    · exact h.2 hr

theorem apart_siblings (p : List Bool) : Apart (p ++ [false]) (p ++ [true]) := by
  constructor <;> simp

theorem kids_apart (pos : List Bool → Option Ptr)
    (h : (p :: rest).Pairwise Apart) : (kids pos p ++ rest).Pairwise Apart := by
  obtain ⟨hp, hrest⟩ := pairwise_cons.mp h
  refine pairwise_append.mpr ⟨?_, hrest, ?_⟩
  · exact Pairwise.filter _ (by simpa using apart_siblings p)
  · intro c hc r hr
    obtain ⟨b, rfl, -⟩ := mem_kids.mp hc
    exact (hp r hr).child b

theorem below_kids {t : Bst α} (hl : Layout t pos) (h : (p :: rest).Pairwise Apart)
    (hq : pos q ≠ none) : Below (kids pos p ++ rest) q ↔ Below (p :: rest) q ∧ q ≠ p := by
  have hp := (pairwise_cons.mp h).1
  constructor
  · rintro ⟨c, hc, hcq⟩
    rcases mem_append.mp hc with hc | hc
    · obtain ⟨b, rfl, -⟩ := mem_kids.mp hc
      refine ⟨⟨p, by simp, (prefix_append p [b]).trans hcq⟩, ?_⟩
      rintro rfl
      simpa using hcq.length_le
    · exact ⟨⟨c, by simp [hc], hcq⟩, fun he => (hp c hc).2 (he ▸ hcq)⟩
  · rintro ⟨⟨c, hc, hcq⟩, hne⟩
    rcases mem_cons.mp hc with rfl | hc
    · obtain ⟨s, rfl⟩ := hcq
      cases s with
      | nil => simp at hne
      | cons b s =>
        have hb : c ++ [b] <+: c ++ b :: s := ⟨s, by simp⟩
        exact ⟨c ++ [b], mem_append_left _ (mem_kids.mpr ⟨b, rfl, hl.prefix_some hb hq⟩), hb⟩
    · exact ⟨c, by simp [hc], hcq⟩

def Stacked (pos : List Bool → Option Ptr) (ps : List (List Bool)) (stack : List Ptr) : Prop :=
  List.Forall₂ (fun p n => pos p = some n) ps stack

theorem Stacked.congr {pos' : List Bool → Option Ptr} {ps : List (List Bool)}
    {stack : List Ptr} (h : Stacked pos ps stack) (heq : ∀ p ∈ ps, pos' p = pos p) : Stacked pos' ps stack := by
  induction h with
  | nil => exact List.Forall₂.nil
  | cons hp _ ih =>
    rw [forall_mem_cons] at heq
    exact List.Forall₂.cons (heq.1.trans hp) (ih heq.2)

theorem stacked_children {nd : BstNode α} (hok : NodeOk pos p nd) :
    Stacked pos (kids pos p) (nd.left.toList ++ nd.right.toList) := by
  have hl : nd.left = pos (p ++ [false]) := hok.child false
  have hr : nd.right = pos (p ++ [true]) := hok.child true
  rw [hl, hr, kids]
  cases h0 : pos (p ++ [false]) <;> cases h1 : pos (p ++ [true]) <;> simp [h0, h1, Stacked]

theorem stacked_kids {nd : BstNode α} (hok : NodeOk pos p nd) {stack : List Ptr} (h : Stacked pos rest stack) :
    Stacked pos (kids pos p ++ rest) (nd.left.toList ++ nd.right.toList ++ stack) :=
  rel_append (stacked_children hok) h

section Callback

variable (tree : σ → Bst α) (func : σ → Ptr → Option (σ × ℤ))
  (Inv : σ → (List Bool → Option Ptr) → BitMap α → Prop) (f : α → Option (Option α × ℕ))

def assign (M : BitMap α) (p : List Bool) : Option α → BitMap α
  | some v => M.insert p v
  | none => M.erase p

theorem lookup_assign (M : BitMap α) (p q : List Bool) (v : Option α) :
    (assign M p v).lookup q = if q = p then v else M.lookup q := by
  by_cases hq : q = p
  · subst hq
    cases v with
    | none | some v => simp [assign]
  · cases v with
    | none => simp [assign, hq, lookup_erase_ne]
    | some v => simp [assign, hq, lookup_insert_of_ne]

def Stuck (pos : List Bool → Option Ptr) (p : List Bool) (v : α) : Prop :=
  f v = none ∨ p = [] ∧ pos [false] = none ∧ pos [true] = none ∧ ∃ c, f v = some (none, c)

/-- On the active node of `p` the function does to the value what `f` says and returns the number that `f` says; nodes
disappear on the path to `p` only. -/
structure Callback : Prop where
  rep : ∀ {s pos M}, Inv s pos M → Represents (tree s) pos M
  stuck : ∀ {s pos M p n v}, Inv s pos M → pos p = some n → M.lookup p = some v → Stuck f pos p v → func s n = none
  runs : ∀ {s pos M p n v}, Inv s pos M → pos p = some n → M.lookup p = some v →
    ¬ Stuck f pos p v → ∃ v' c s' pos', f v = some (v', c) ∧ func s n = some (s', (c : ℤ)) ∧
      Inv s' pos' (assign M p v') ∧ Pruned pos pos' p

def after (v : α) : Option α := (f v).bind (·.1)

def cost (v : Option α) : ℕ := ((v.bind f).map (·.2)).getD 0

variable {tree func Inv f}

theorem visit_spec (cb : Callback tree func Inv f) {s : σ} {pos M} (h : Inv s pos M)
    {n : Ptr} (hp : pos p = some n) {nd : BstNode α} (hn : (tree s).heap n = some nd) :
    ((∃ v, M.lookup p = some v ∧ Stuck f pos p v) → bstSubtreeVisit func s n nd = none) ∧
    ((∀ v, M.lookup p = some v → ¬ Stuck f pos p v) →
      ∃ s' pos' M', bstSubtreeVisit func s n nd = some (s', (cost f (M.lookup p) : ℤ)) ∧
        Inv s' pos' M' ∧ Pruned pos pos' p ∧
        ∀ q, M'.lookup q = if q = p then (M.lookup p).bind (after f) else M.lookup q) := by
  obtain ⟨nd', hn', -, hl⟩ := (cb.rep h).node_lookup hp
  cases hn.symm.trans hn'
  rw [bstSubtreeVisit]
  cases hv : M.lookup p with
  | none =>
    have hidle : nd.priv.isSome = false := by rw [← hl, hv]; rfl
    simp only [hidle, Bool.false_eq_true, ↓reduceIte]
    refine ⟨by simp, fun _ => ⟨s, pos, M, by simp [cost], h, Pruned.refl pos p, ?_⟩⟩
    intro q
    by_cases hq : q = p
    · subst hq
      simp [hv]
    · simp [hq]
  | some v =>
    have hact : nd.priv.isSome = true := by rw [← hl, hv]; rfl
    simp only [hact, ↓reduceIte]
    constructor
    · rintro ⟨w, hw, hstuck⟩
      cases hw
      exact cb.stuck h hp hv hstuck
    · intro hfree
      obtain ⟨v', c, s', pos', hf, hfunc, hinv, hpr⟩ := cb.runs h hp hv (hfree v rfl)
      refine ⟨s', pos', assign M p v', by simp [hfunc, cost, hf], hinv, hpr, ?_⟩
      intro q
      simp [lookup_assign, after, hf]

theorem stuck_iff (hq : q ≠ []) (v : α) : Stuck f pos q v ↔ f v = none := by
  simp [Stuck, hq]

theorem below_off_path (h : (p :: rest).Pairwise Apart) (hq : Below (kids pos p ++ rest) q) : ¬ q <+: p := by
  obtain ⟨c, hc, hcq⟩ := hq
  intro hqp
  rcases mem_append.mp hc with hc | hc
  · obtain ⟨b, rfl, -⟩ := mem_kids.mp hc
    simpa using (hcq.trans hqp).length_le
  · exact ((pairwise_cons.mp h).1 c hc).2 (hcq.trans hqp)

theorem below_ne_nil (h : (p :: rest).Pairwise Apart) (hq : Below (kids pos p ++ rest) q) : q ≠ [] := by
  rintro rfl
  exact below_off_path h hq List.nil_prefix

theorem below_of_kids (h : Below (kids pos p ++ rest) q) : Below (p :: rest) q := by
  obtain ⟨c, hc, hcq⟩ := h
  rcases mem_append.mp hc with hc | hc
  · obtain ⟨b, rfl, -⟩ := mem_kids.mp hc
    exact ⟨p, by simp, (prefix_append p [b]).trans hcq⟩
  · exact ⟨c, by simp [hc], hcq⟩

theorem pending_kids {t : Bst α} (hl : Layout t pos) {F : Finset (List Bool)} (hapart : (p :: rest).Pairwise Apart)
    (hF : ∀ q, Below (p :: rest) q → (q ∈ F ↔ pos q ≠ none)) :
    F.filter (Below (kids pos p ++ rest)) = (F.filter (Below (p :: rest))).erase p := by
  ext q
  simp only [Finset.mem_filter, Finset.mem_erase]
  constructor
  · rintro ⟨hq, hb⟩
    have hbelow := below_of_kids hb
    exact ⟨((below_kids hl hapart ((hF q hbelow).mp hq)).mp hb).2, hq, hbelow⟩
  · rintro ⟨hne, hq, hb⟩
    exact ⟨hq, (below_kids hl hapart ((hF q hb).mp hq)).mpr ⟨hb, hne⟩⟩

variable (Inv f) in
structure Walked (run : Option (σ × ℤ)) (pos : List Bool → Option Ptr) (M : BitMap α)
    (P : Finset (List Bool)) (count : ℤ) : Prop where
  stuck : (∃ q ∈ P, ∃ v, M.lookup q = some v ∧ Stuck f pos q v) → run = none
  runs : (∀ q ∈ P, ∀ v, M.lookup q = some v → ¬ Stuck f pos q v) →
    ∃ s' pos' M', run = some (s', count + ∑ q ∈ P, (cost f (M.lookup q) : ℤ)) ∧ Inv s' pos' M' ∧
      ∀ q, M'.lookup q = if q ∈ P then (M.lookup q).bind (after f) else M.lookup q

theorem walked_visit {run : Option (σ × ℤ)} {pos₁ : List Bool → Option Ptr} {M M₁ : BitMap α} {P : Finset (List Bool)}
    {count : ℤ} (hp : p ∈ P) (hfree : ¬ ∃ v, M.lookup p = some v ∧ Stuck f pos p v) (hne : ∀ q ∈ P.erase p, q ≠ [])
    (hM₁ : ∀ q, M₁.lookup q = if q = p then (M.lookup p).bind (after f) else M.lookup q)
    (h : Walked Inv f run pos₁ M₁ (P.erase p) (count + cost f (M.lookup p))) : Walked Inv f run pos M P count := by
  have hsame : ∀ q ∈ P.erase p, M₁.lookup q = M.lookup q ∧ ∀ v, Stuck f pos₁ q v ↔ Stuck f pos q v := by
    intro q hq
    refine ⟨by rw [hM₁, if_neg (Finset.ne_of_mem_erase hq)], fun v => ?_⟩
    rw [stuck_iff (hne q hq), stuck_iff (hne q hq)]
  constructor
  · rintro ⟨q, hq, v, hv, hs⟩
    by_cases hqp : q = p
    · subst hqp
      exact absurd ⟨v, hv, hs⟩ hfree
    · have hq' := Finset.mem_erase.mpr ⟨hqp, hq⟩
      obtain ⟨hM, hstuck⟩ := hsame q hq'
      exact h.stuck ⟨q, hq', v, hM.trans hv, (hstuck v).mpr hs⟩
  · intro hall
    obtain ⟨s', pos', M', hres, hinv', hM'⟩ := h.runs (by
      intro q hq v hv hs
      obtain ⟨hM, hstuck⟩ := hsame q hq
      exact hall q (Finset.mem_of_mem_erase hq) v (hM ▸ hv) ((hstuck v).mp hs))
    refine ⟨s', pos', M', ?_, hinv', ?_⟩
    · rw [hres, Finset.sum_congr rfl fun q hq => by rw [(hsame q hq).1], ← Finset.add_sum_erase _ _ hp, add_assoc]
    · intro q
      rw [hM']
      by_cases hqp : q = p
      · subst hqp
        simp [hp, hM₁]
      · simp [hqp, hM₁]

/-- The walk from a stack. `F` are the nodes there were at the start; the induction is on the
calls still allowed, and each visit takes one node off those that are below the stack. -/
theorem loop_spec (cb : Callback tree func Inv f) (F : Finset (List Bool)) (fuel : ℕ) :
    ∀ (s : σ) (pos : List Bool → Option Ptr) (M : BitMap α) (ps : List (List Bool))
      (stack : List Ptr) (count : ℤ), Inv s pos M → ps.Pairwise Apart → Stacked pos ps stack →
      (∀ q, Below ps q → (q ∈ F ↔ pos q ≠ none)) → (F.filter (Below ps)).card < fuel →
      Walked Inv f (bstSubtreeFunc tree func fuel s stack count) pos M (F.filter (Below ps)) count := by
  induction fuel with
  | zero => intro s pos M ps stack count _ _ _ _ hlt; omega
  | succ fuel ih =>
    intro s pos M ps stack count hinv hapart hstack hF hlt
    cases hstack with
    | nil =>
      have hempty : F.filter (Below []) = ∅ := by simp [Below]
      rw [hempty]
      exact ⟨by simp, fun _ => ⟨s, pos, M, by simp [bstSubtreeFunc], hinv, by simp⟩⟩
    | @cons p n rest stack hp hstack =>
      have hrep := cb.rep hinv
      obtain ⟨nd, hn, hok⟩ := hrep.node p n hp
      obtain ⟨hvstuck, hvruns⟩ := visit_spec cb hinv hp hn
      have hself : Below (p :: rest) p := ⟨p, by simp, prefix_rfl⟩
      have hpF : p ∈ F.filter (Below (p :: rest)) :=
        Finset.mem_filter.mpr ⟨(hF p hself).mpr (by simp [hp]), hself⟩
      have herase := pending_kids hrep.toLayout hapart hF
      have hcard : (F.filter (Below (kids pos p ++ rest))).card < fuel := by
        rw [herase, Finset.card_erase_of_mem hpF]
        have := Finset.card_pos.mpr ⟨p, hpF⟩
        omega
      by_cases hps : ∃ v, M.lookup p = some v ∧ Stuck f pos p v
      · constructor
        · intro _
          simp [bstSubtreeFunc, hn, hvstuck hps]
        · obtain ⟨v, hv, hs⟩ := hps
          exact fun hall => absurd hs (hall p hpF v hv)
      · obtain ⟨s₁, pos₁, M₁, hvisit, hinv₁, hpr, hM₁⟩ :=
          hvruns fun v hv hs => hps ⟨v, hv, hs⟩
        have hkeep : ∀ q, Below (kids pos p ++ rest) q → pos₁ q = pos q :=
          fun q hq => hpr.elsewhere q (below_off_path hapart hq)
        have hrest := ih s₁ pos₁ M₁ (kids pos p ++ rest)
          (nd.left.toList ++ nd.right.toList ++ stack) (count + cost f (M.lookup p)) hinv₁
          (kids_apart pos hapart)
          ((stacked_kids hok hstack).congr fun c hc => hkeep c ⟨c, hc, prefix_rfl⟩)
          (fun q hq => by rw [hkeep q hq]; exact hF q (below_of_kids hq)) hcard
        have hstep : bstSubtreeFunc tree func (fuel + 1) s (n :: stack) count =
            bstSubtreeFunc tree func fuel s₁ (nd.left.toList ++ nd.right.toList ++ stack)
              (count + cost f (M.lookup p)) := by
          rw [bstSubtreeFunc]
          simp only [hn, hvisit, bind_eq_bind, bind_some]
          rw [if_neg (by omega)]
        have hne : ∀ q ∈ F.filter (Below (kids pos p ++ rest)), q ≠ [] := fun q hq =>
          below_ne_nil hapart (Finset.mem_filter.mp hq).2
        rw [herase] at hrest hne
        rw [hstep]
        exact walked_visit hpF hps hne hM₁ hrest

theorem exists_nodes {t : Bst α} (h : Layout t pos) :
    ∃ F : Finset (List Bool), (∀ q, q ∈ F ↔ pos q ≠ none) ∧ F.card ≤ t.brk := by
  have hmaps : Set.MapsTo (fun q => (pos q).getD 0) {q | pos q ≠ none} (Finset.range t.brk) := by
    intro q hq
    obtain ⟨a, ha⟩ := ne_none_iff_exists'.mp hq
    simpa [ha] using h.fresh q a ha
  have hinj : Set.InjOn (fun q => (pos q).getD 0) {q | pos q ≠ none} := by
    intro p hp q hq heq
    obtain ⟨a, ha⟩ := ne_none_iff_exists'.mp hp
    obtain ⟨b, hb⟩ := ne_none_iff_exists'.mp hq
    have hab : a = b := by simpa [ha, hb] using heq
    exact h.inj p q a ha (hab ▸ hb)
  have hfin : {q | pos q ≠ none}.Finite := (Finset.finite_toSet _).of_injOn hmaps hinj
  refine ⟨hfin.toFinset, by simp, ?_⟩
  rw [← Set.ncard_eq_toFinset_card _ hfin]
  exact (Set.ncard_le_ncard_of_injOn _ hmaps hinj (Finset.finite_toSet _)).trans
    (by rw [Set.ncard_coe_finset, Finset.card_range])

theorem subtree_spec (cb : Callback tree func Inv f) {s : σ} {pos M} (h : Inv s pos M) {r : Ptr}
    (hr : (tree s).root = some r) :
    ((∃ q v, M.lookup q = some v ∧ Stuck f pos q v) → bstSubtreeFunc tree func ((tree s).brk + 1) s [r] 0 = none) ∧
    ((∀ q v, M.lookup q = some v → ¬ Stuck f pos q v) →
      ∃ s' pos' M', bstSubtreeFunc tree func ((tree s).brk + 1) s [r] 0 =
          some (s', ∑ q ∈ M.keys, (cost f (M.lookup q) : ℤ)) ∧ Inv s' pos' M' ∧
        ∀ q, M'.lookup q = (M.lookup q).bind (after f)) := by
  have hrep := cb.rep h
  obtain ⟨F, hF, hcard⟩ := exists_nodes hrep.toLayout
  have hall : F.filter (Below [[]]) = F := by
    rw [Finset.filter_eq_self]
    exact fun q _ => ⟨[], by simp, List.nil_prefix⟩
  have hbound : ∀ q v, M.lookup q = some v → q ∈ F := by
    intro q v hv
    obtain ⟨n, -, hn, -⟩ := hrep.bound_node hv
    exact (hF q).mpr (by simp [hn])
  have hwalk := loop_spec cb F ((tree s).brk + 1) s pos M [[]] [r] 0 h
    (pairwise_singleton _ _) (List.Forall₂.cons (hrep.root ▸ hr) List.Forall₂.nil)
    (fun q _ => hF q) (by rw [hall]; omega)
  rw [hall] at hwalk
  constructor
  · rintro ⟨q, v, hv, hs⟩
    exact hwalk.stuck ⟨q, hbound q v hv, v, hv, hs⟩
  · intro hfree
    obtain ⟨s', pos', M', hres, hinv, hM'⟩ := hwalk.runs fun q _ v hv => hfree q v hv
    have hkeys : M.keys ⊆ F := by
      intro q hq
      obtain ⟨v, hv⟩ := mem_iff.mp (mem_keys.mp hq)
      exact hbound q v hv
    have hzero : ∀ q ∈ F, q ∉ M.keys → (cost f (M.lookup q) : ℤ) = 0 := by
      intro q _ hq
      have hnone : M.lookup q = none := by simpa [Finmap.mem_keys, Finmap.lookup_eq_none] using hq
      simp [hnone, cost]
    refine ⟨s', pos', M', ?_, hinv, ?_⟩
    · rw [hres, zero_add, Finset.sum_subset hkeys hzero]
    · intro q
      rw [hM']
      by_cases hq : q ∈ F
      · rw [if_pos hq]
      · have hnone : M.lookup q = none := by
          cases hv : M.lookup q with
          | none => rfl
          | some v => exact absurd (hbound q v hv) hq
        simp [hq, hnone]

end Callback

end BstTraversal
