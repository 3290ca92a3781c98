import Serval.ServiceTargets
import Mathlib.Algebra.BigOperators.Group.List.Basic

/-! # The target sets of an entry under the mutators

What a search finds, what a set's counters say about its list, and what each change of the
sets does to the order of the priorities and to the targets.
-/
namespace TargetSets

open ServiceTargets List Option

def targets (sets : List TargetSet) : List Target := sets.flatMap (·.list)

@[simp] theorem targets_nil : targets [] = [] := rfl

@[simp] theorem targets_cons (set : TargetSet) (sets : List TargetSet) :
    targets (set :: sets) = set.list ++ targets sets := rfl

@[simp] theorem targets_append (l r : List TargetSet) : targets (l ++ r) = targets l ++ targets r := by
  simp [targets]

variable {α : Type}

theorem splitFirst_some {sel : α → Option Bool} {l a b : List α} {t : α}
    (h : splitFirst sel l = some (some (a, t, b))) :
    l = a ++ t :: b ∧ sel t = some true ∧ ∀ x ∈ a, sel x = some false := by
  induction l generalizing a with
  | nil => simp [splitFirst] at h
  | cons x l ih =>
    rw [splitFirst] at h
    cases hx : sel x with
    | none => simp [hx] at h
    | some c =>
      cases c with
      | true =>
        simp only [hx] at h
        cases h
        exact ⟨rfl, hx, by simp⟩
      | false =>
        simp only [hx, Option.bind_eq_bind, Option.bind_some, Bool.false_eq_true, ↓reduceIte,
          Option.pure_def, Option.bind_eq_some_iff, some.injEq, Option.map_eq_some_iff,
          Prod.exists, Prod.mk.injEq] at h
        obtain ⟨r, hr, a', x', b', rfl, rfl, rfl, rfl⟩ := h
        obtain ⟨rfl, ht, ha⟩ := ih hr
        refine ⟨rfl, ht, ?_⟩
        rintro y (_ | ⟨_, hy⟩)
        · exact hx
        · exact ha y hy

theorem splitFirst_none {sel : α → Option Bool} {l : List α} :
    splitFirst sel l = some none ↔ ∀ x ∈ l, sel x = some false := by
  induction l with
  | nil => simp [splitFirst]
  | cons x l ih =>
    rw [splitFirst, forall_mem_cons, ← ih]
    cases hx : sel x with
    | none => simp
    | some c =>
      cases c with
      | true => simp
      | false => simp [bind_eq_some_iff]

structure Lies (f : Found) (sets : List TargetSet) : Prop where
  sets_eq : sets = f.before ++ f.set :: f.after
  list_eq : f.set.list = f.ahead ++ f.target :: f.behind

variable {sel : Target → Option Bool} {l r sets : List TargetSet} {f : Found} {q set : TargetSet}
  {priority : UInt32}

theorem findTarget_some (h : findTarget sel sets = some (some f)) :
    Lies f sets ∧ sel f.target = some true ∧ ∀ x ∈ targets f.before ++ f.ahead, sel x = some false := by
  induction sets generalizing f with
  | nil => simp [findTarget] at h
  | cons set rest ih =>
    rw [findTarget] at h
    cases hs : splitFirst sel set.list with
    | none => simp [hs] at h
    | some r =>
      cases r with
      | some r =>
        obtain ⟨a, t, b⟩ := r
        simp only [hs] at h
        cases h
        obtain ⟨hl, ht, ha⟩ := splitFirst_some hs
        exact ⟨⟨rfl, hl⟩, ht, by simpa using ha⟩
      | none =>
        simp only [hs, Option.bind_eq_bind, Option.bind_some, Option.pure_def,
          Option.bind_eq_some_iff, some.injEq, Option.map_eq_some_iff] at h
        obtain ⟨r, hr, f', rfl, rfl⟩ := h
        obtain ⟨hlies, ht, hbefore⟩ := ih hr
        refine ⟨⟨by simp [hlies.sets_eq], hlies.list_eq⟩, ht, ?_⟩
        intro x hx
        rw [targets_cons, List.append_assoc, List.mem_append] at hx
        rcases hx with hx | hx
        · exact splitFirst_none.mp hs x hx
        · exact hbefore x hx

theorem findTarget_none : findTarget sel sets = some none ↔ ∀ x ∈ targets sets, sel x = some false := by
  induction sets with
  | nil => simp [findTarget]
  | cons set rest ih =>
    rw [findTarget, targets_cons]
    simp only [mem_append, or_imp, forall_and, ← ih, ← splitFirst_none (l := set.list)]
    cases hs : splitFirst sel set.list with
    | none => simp
    | some r =>
      cases r with
      | none => simp [bind_eq_some_iff]
      | some r => simp

theorem splitFirst_ne_none {sel : α → Option Bool} {l : List α}
    (h : ∀ x ∈ l, sel x ≠ none) : splitFirst sel l ≠ none := by
  induction l with
  | nil => simp [splitFirst]
  | cons x l ih =>
    rw [forall_mem_cons] at h
    obtain ⟨c, hc⟩ := ne_none_iff_exists'.mp h.1
    obtain ⟨r, hr⟩ := ne_none_iff_exists'.mp (ih h.2)
    cases c <;> simp [splitFirst, hc, hr]

theorem findTarget_ne_none (h : ∀ x ∈ targets sets, sel x ≠ none) : findTarget sel sets ≠ none := by
  induction sets with
  | nil => simp [findTarget]
  | cons set rest ih =>
    obtain ⟨r, hr⟩ := ne_none_iff_exists'.mp
      (splitFirst_ne_none (l := set.list) fun x hx => h x (by simp [hx]))
    obtain ⟨g, hg⟩ := ne_none_iff_exists'.mp (ih fun x hx => h x (by simp [hx]))
    cases r with
    | none => simp [findTarget, hr, hg]
    | some r => simp [findTarget, hr]

theorem splitFirst_eq {sel : α → Option Bool} {a b : List α} {t : α} (ha : ∀ x ∈ a, sel x = some false)
    (ht : sel t = some true) : splitFirst sel (a ++ t :: b) = some (some (a, t, b)) := by
  induction a with
  | nil => simp [splitFirst, ht]
  | cons x a ih =>
    rw [forall_mem_cons] at ha
    simp [splitFirst, ha.1, ih ha.2]

theorem findTarget_eq (hf : Lies f sets) (hbefore : ∀ x ∈ targets f.before ++ f.ahead, sel x = some false)
    (ht : sel f.target = some true) : findTarget sel sets = some (some f) := by
  obtain ⟨before, set, ahead, t, behind, after⟩ := f
  obtain ⟨hsets, hlist⟩ := hf
  dsimp only at hsets hlist hbefore ht
  subst hsets
  induction before with
  | nil =>
    have hsplit : splitFirst sel set.list = some (some (ahead, t, behind)) := by
      rw [hlist]
      exact splitFirst_eq (fun x hx => hbefore x (by simp [hx])) ht
    simp [findTarget, hsplit]
  | cons s before ih =>
    have hnone : splitFirst sel s.list = some none :=
      splitFirst_none.mpr fun x hx => hbefore x (by simp [hx])
    have hrest := ih fun x hx => hbefore x (by
      rw [targets_cons, append_assoc]
      exact mem_append_right _ hx)
    simp [findTarget, hnone, hrest]

theorem findTarget_find {p : Target → Bool} (h : ∀ x ∈ targets sets, sel x = some (p x)) :
    ∃ r, findTarget sel sets = some r ∧ r.map (·.target) = (targets sets).find? p := by
  have hdefined : findTarget sel sets ≠ none := findTarget_ne_none fun x hx => by simp [h x hx]
  obtain ⟨r, hr⟩ := ne_none_iff_exists'.mp hdefined
  refine ⟨r, hr, ?_⟩
  cases r with
  | none =>
    have hnone : (targets sets).find? p = none := by
      rw [find?_eq_none]
      intro x hx
      have hfalse := findTarget_none.mp hr x hx
      rw [h x hx] at hfalse
      simpa using hfalse
    simp [hnone]
  | some f =>
    obtain ⟨hlies, htrue, hbefore⟩ := findTarget_some hr
    have hsplit : targets sets = (targets f.before ++ f.ahead) ++ f.target :: (f.behind ++ targets f.after) := by
      simp [hlies.sets_eq, hlies.list_eq]
    have hpass : p f.target = true := by
      have hmem : f.target ∈ targets sets := by simp [hsplit]
      rw [h _ hmem] at htrue
      exact some.inj htrue
    refine (find?_eq_some_iff_append.mpr ⟨hpass, _, _, hsplit, ?_⟩).symm
    intro x hx
    have hmem : x ∈ targets sets := by
      rw [hsplit]
      exact mem_append_left _ hx
    have hfalse := hbefore x hx
    rw [h x hmem] at hfalse
    simpa using hfalse

structure Counted (set : TargetSet) : Prop where
  count : set.count.toNat = set.list.length
  normalizer : set.normalizer.toNat = (set.list.map (·.weight.toNat)).sum % 2 ^ 32

theorem counted_create (flags : UInt16) (priority : UInt32) : Counted (targetSetCreate flags priority) :=
  ⟨rfl, rfl⟩

theorem counted_flags (h : Counted set) (flags : UInt16) : Counted { set with flags } :=
  ⟨h.count, h.normalizer⟩

theorem counted_add (h : Counted set) (t : Target)
    (hfit : set.list.length < 65535) : Counted (targetSetAddTarget set t) := by
  have hc := h.count
  have hn := h.normalizer
  constructor
  · simp only [targetSetAddTarget, UInt16.toNat_add, length_append, length_singleton]
    change (set.count.toNat + 1) % 65536 = _
    omega
  · simp only [targetSetAddTarget, UInt32.toNat_add, map_append, map_cons, map_nil, sum_append, sum_singleton]
    omega

theorem counted_remove (h : Counted f.set)
    (hl : f.set.list = f.ahead ++ f.target :: f.behind) : Counted (targetSetRemoveTarget f) := by
  have hc := h.count
  have hn := h.normalizer
  rw [hl] at hc hn
  simp only [length_append, length_cons, map_append, map_cons, sum_append, sum_cons] at hc hn
  have hw := f.target.weight.toNat_lt
  constructor
  · simp only [targetSetRemoveTarget, UInt16.toNat_sub, length_append]
    change (65536 - 1 + f.set.count.toNat) % 65536 = _
    have := f.set.count.toNat_lt
    omega
  · simp only [targetSetRemoveTarget, UInt32.toNat_sub, map_append, sum_append]
    omega

theorem counted_putBack (h : Counted f.set)
    (hl : f.set.list = f.ahead ++ f.target :: f.behind) (t : Target) (flags : UInt16) :
    Counted { f.set with
      normalizer := f.set.normalizer - f.target.weight + t.weight
      flags := flags
      list := f.ahead ++ t :: f.behind } := by
  have hc := h.count
  have hn := h.normalizer
  rw [hl] at hc hn
  simp only [length_append, length_cons, map_append, map_cons, sum_append, sum_cons] at hc hn
  have hw := f.target.weight.toNat_lt
  constructor
  · simpa using hc
  · simp only [UInt32.toNat_add, UInt32.toNat_sub, map_append, map_cons, sum_append, sum_cons]
    omega

theorem counted_empty_iff (h : Counted set) : set.count = 0 ↔ set.list = [] := by
  rw [← length_eq_zero_iff, ← h.count, ← UInt16.toNat_inj]
  rfl

/-- The sets of an entry: in strictly decreasing order of priority, with exact counters, and none but `hole` empty. -/
structure SetsOk (hole : Option UInt32) (sets : List TargetSet) : Prop where
  sorted : (sets.map (·.priority)).Pairwise (· > ·)
  counted : ∀ set ∈ sets, Counted set
  filled : ∀ set ∈ sets, some set.priority ≠ hole → set.list ≠ []

theorem SetsOk.weaken (h : SetsOk none sets) (hole : Option UInt32) : SetsOk hole sets :=
  ⟨h.sorted, h.counted, fun set hs _ => h.filled set hs (by simp)⟩

theorem getTargetSet_none : serviceEntryGetTargetSet sets priority = none ↔ ∀ set ∈ sets, set.priority ≠ priority := by
  simp [serviceEntryGetTargetSet]

theorem getTargetSet_some (h : serviceEntryGetTargetSet sets priority = some set) :
    set ∈ sets ∧ set.priority = priority :=
  ⟨mem_of_find?_eq_some h, by simpa using find?_some h⟩

theorem mem_insertTargetSet {s : TargetSet} : s ∈ serviceEntryInsertTargetSet set sets ↔ s = set ∨ s ∈ sets := by
  induction sets with
  | nil => simp [serviceEntryInsertTargetSet]
  | cons pos rest ih =>
    rw [serviceEntryInsertTargetSet]
    split
    · simp
    · simp only [mem_cons, ih]
      tauto

theorem targets_insertTargetSet (set : TargetSet) (sets : List TargetSet) :
    (targets (serviceEntryInsertTargetSet set sets)).Perm (set.list ++ targets sets) := by
  induction sets with
  | nil => simp [serviceEntryInsertTargetSet]
  | cons pos rest ih =>
    rw [serviceEntryInsertTargetSet]
    split
    · simp
    · rw [targets_cons, targets_cons]
      exact (ih.append_left _).trans (perm_append_comm_assoc _ _ _)

theorem sorted_insertTargetSet
    (h : (sets.map (·.priority)).Pairwise (· > ·)) (hnew : ∀ s ∈ sets, s.priority ≠ set.priority) :
    ((serviceEntryInsertTargetSet set sets).map (·.priority)).Pairwise (· > ·) := by
  induction sets with
  | nil => simp [serviceEntryInsertTargetSet]
  | cons pos rest ih =>
    rw [map_cons, pairwise_cons] at h
    rw [serviceEntryInsertTargetSet]
    split
    · rename_i hlt
      refine pairwise_cons.mpr ⟨?_, pairwise_cons.mpr h⟩
      intro p hp
      rcases mem_cons.mp hp with rfl | hp
      · exact hlt
      · exact UInt32.lt_trans (h.1 p hp) hlt
    · rename_i hge
      have hgt : set.priority < pos.priority :=
        UInt32.lt_of_le_of_ne (UInt32.not_lt.mp hge) (hnew pos (by simp)).symm
      refine pairwise_cons.mpr ⟨?_, ih h.2 fun s hs => hnew s (by simp [hs])⟩
      intro p hp
      obtain ⟨s, hs, rfl⟩ := mem_map.mp hp
      rcases mem_insertTargetSet.mp hs with rfl | hs
      · exact hgt
      · exact h.1 _ (mem_map_of_mem hs)

/-- A new set leaves a hole at its priority until its first target is in. -/
theorem insert_ok (h : SetsOk none sets) (hnew : ∀ s ∈ sets, s.priority ≠ priority) (flags : UInt16) :
    SetsOk (some priority) (serviceEntryInsertTargetSet (targetSetCreate flags priority) sets) := by
  refine ⟨sorted_insertTargetSet h.sorted hnew, ?_, ?_⟩
  · intro s hs
    rcases mem_insertTargetSet.mp hs with rfl | hs
    · exact counted_create flags priority
    · exact h.counted s hs
  · intro s hs hne
    rcases mem_insertTargetSet.mp hs with rfl | hs
    · exact absurd rfl hne
    · exact h.filled s hs (by simp)

theorem updateSet_append (f : TargetSet → TargetSet)
    (hl : ∀ s ∈ l, s.priority ≠ priority) (hq : q.priority = priority) :
    updateSet priority f (l ++ q :: r) = l ++ f q :: r := by
  induction l with
  | nil => simp [updateSet, hq]
  | cons s l ih =>
    rw [forall_mem_cons] at hl
    simp [updateSet, hl.1, ih hl.2]

theorem updateSet_split (f : TargetSet → TargetSet)
    (h : ∃ set ∈ sets, set.priority = priority) : ∃ l q r, sets = l ++ q :: r ∧
      q.priority = priority ∧ updateSet priority f sets = l ++ f q :: r := by
  induction sets with
  | nil => simp at h
  | cons set rest ih =>
    by_cases hp : set.priority = priority
    · exact ⟨[], set, rest, rfl, hp, by simp [updateSet, hp]⟩
    · have hrest : ∃ s ∈ rest, s.priority = priority := by
        obtain ⟨s, hs, hsp⟩ := h
        rcases mem_cons.mp hs with rfl | hs
        · exact absurd hsp hp
        · exact ⟨s, hs, hsp⟩
      obtain ⟨l, q, r, rfl, hq, hup⟩ := ih hrest
      exact ⟨set :: l, q, r, rfl, hq, by simp [updateSet, hp, hup]⟩

theorem sorted_ne (h : ((l ++ q :: r).map (·.priority)).Pairwise (· > ·)) : ∀ s ∈ l ++ r, s.priority ≠ q.priority := by
  rw [map_append, map_cons, pairwise_append, pairwise_cons] at h
  obtain ⟨-, ⟨hr, -⟩, hl⟩ := h
  intro s hs
  rcases mem_append.mp hs with hs | hs
  · exact (UInt32.ne_of_lt (hl _ (mem_map_of_mem hs) _ (by simp))).symm
  · exact UInt32.ne_of_lt (hr _ (mem_map_of_mem hs))

theorem SetsOk.replace {hole hole' : Option UInt32} {q' : TargetSet} (h : SetsOk hole (l ++ q :: r))
    (hp : q'.priority = q.priority) (hc : Counted q') (hfill : some q.priority ≠ hole' → q'.list ≠ [])
    (hhole : ∀ s ∈ l ++ r, some s.priority ≠ hole' → some s.priority ≠ hole) : SetsOk hole' (l ++ q' :: r) := by
  have hmem : ∀ {s}, s ∈ l ++ q' :: r → s = q' ∨ s ∈ l ++ r ∧ s ∈ l ++ q :: r := by
    simp only [mem_append, mem_cons]
    tauto
  refine ⟨by simpa [hp] using h.sorted, fun s hs => ?_, fun s hs hne => ?_⟩
  · rcases hmem hs with rfl | ⟨-, hs⟩
    · exact hc
    · exact h.counted s hs
  · rcases hmem hs with rfl | ⟨hother, hs⟩
    · exact hfill (hp ▸ hne)
    · exact h.filled s hs (hhole s hother hne)

theorem replace_ok {hole : Option UInt32} {q' : TargetSet}
    (h : SetsOk hole (l ++ q :: r)) (hp : q'.priority = q.priority) (hc : Counted q')
    (hfill : q'.list ≠ []) (hhole : hole = none ∨ hole = some q.priority) : SetsOk none (l ++ q' :: r) := by
  refine h.replace hp hc (fun _ => hfill) fun s hs _ => ?_
  rcases hhole with rfl | rfl
  · simp
  · simpa using sorted_ne h.sorted s hs

theorem fill_ok (h : SetsOk (some priority) sets) (hex : ∃ set ∈ sets, set.priority = priority)
    (hfit : ∀ set ∈ sets, set.priority = priority → set.list.length < 65535) (t : Target) {g : TargetSet → TargetSet}
    (hg : ∀ s, ∃ flags, g s = { targetSetAddTarget s t with flags := flags }) :
    SetsOk none (updateSet priority g sets) ∧ (targets (updateSet priority g sets)).Perm (t :: targets sets) := by
  obtain ⟨l, q, r, rfl, hq, hup⟩ := updateSet_split g hex
  obtain ⟨flags, hgq⟩ := hg q
  have hc : Counted (g q) := by
    rw [hgq]
    exact counted_flags (counted_add (h.counted q (by simp)) t (hfit q (by simp) hq)) flags
  rw [hup]
  constructor
  · apply replace_ok h
    · rw [hgq]
      rfl
    · exact hc
    · rw [hgq]
      simp [targetSetAddTarget]
    · exact .inr (by rw [hq])
  · have hlist : (g q).list = q.list ++ [t] := by
      rw [hgq]
      rfl
    have hmid : ((targets l ++ q.list) ++ t :: targets r).Perm
        (t :: ((targets l ++ q.list) ++ targets r)) := perm_middle
    simpa [hlist] using hmid

theorem drop_ok {hole : Option UInt32} (h : SetsOk hole sets) (hf : Lies f sets) :
    SetsOk hole (dropTarget f) ∧ (targets sets).Perm (f.target :: targets (dropTarget f)) := by
  obtain ⟨rfl, hl⟩ := hf
  have hc : Counted (targetSetRemoveTarget f) := counted_remove (h.counted f.set (by simp)) hl
  have hperm : ∀ m : List Target, (targets f.before ++ (f.set.list ++ m)).Perm
      (f.target :: (targets f.before ++ (f.ahead ++ f.behind ++ m))) := by
    intro m
    rw [hl]
    refine (List.Perm.append_left _ ?_).trans perm_middle
    simp
  rw [dropTarget]
  by_cases he : (targetSetRemoveTarget f).count = 0
  · have hempty : f.ahead ++ f.behind = [] := (counted_empty_iff hc).mp he
    have hsub : (f.before ++ f.after).Sublist (f.before ++ f.set :: f.after) :=
      (sublist_cons_self _ _).append_left _
    simp only [he, ↓reduceIte]
    refine ⟨⟨h.sorted.sublist (hsub.map _), ?_, ?_⟩, ?_⟩
    · exact fun s hs => h.counted s (hsub.subset hs)
    · exact fun s hs => h.filled s (hsub.subset hs)
    · simpa [hempty] using hperm (targets f.after)
  · simp only [he, ↓reduceIte]
    refine ⟨h.replace rfl hc (fun _ h0 => he ((counted_empty_iff hc).mpr h0)) fun _ _ hne => hne, ?_⟩
    simpa [targetSetRemoveTarget] using hperm (targets f.after)

theorem insert_append (set : TargetSet) (l r : List TargetSet) : serviceEntryInsertTargetSet set (l ++ r) =
      if l.any (·.priority < set.priority) then serviceEntryInsertTargetSet set l ++ r
      else l ++ serviceEntryInsertTargetSet set r := by
  induction l with
  | nil => rfl
  | cons pos l ih =>
    rw [cons_append, serviceEntryInsertTargetSet, serviceEntryInsertTargetSet, any_cons]
    by_cases hp : pos.priority < set.priority
    · simp [hp]
    · simp only [hp, ↓reduceIte, decide_false, Bool.false_or, ih]
      split <;> rfl

structure SamePlace (f f' : Found) : Prop where
  set : f'.set = f.set
  target : f'.target = f.target
  ahead : f'.ahead = f.ahead
  behind : f'.behind = f.behind

theorem SamePlace.refl (f : Found) : SamePlace f f := ⟨rfl, rfl, rfl, rfl⟩

theorem insertAround_lies (hf : Lies f sets) (set : TargetSet) :
    Lies (insertAround set f) (serviceEntryInsertTargetSet set sets) ∧ SamePlace f (insertAround set f) := by
  obtain ⟨rfl, hl⟩ := hf
  rw [insert_append, insertAround]
  split
  · exact ⟨⟨rfl, hl⟩, rfl, rfl, rfl, rfl⟩
  · rw [serviceEntryInsertTargetSet]
    split
    · exact ⟨⟨by simp, hl⟩, rfl, rfl, rfl, rfl⟩
    · exact ⟨⟨rfl, hl⟩, rfl, rfl, rfl, rfl⟩

theorem mem_dropTarget (hf : Lies f sets) {s : TargetSet}
    (hp : s.priority ≠ f.set.priority) : s ∈ dropTarget f ↔ s ∈ sets := by
  have hne : s ≠ f.set := fun h => hp (by rw [h])
  have hne' : s ≠ targetSetRemoveTarget f := fun h => hp (by rw [h]; rfl)
  rw [hf.sets_eq, dropTarget]
  split
  · simp [hne]
  · simp [hne, hne']

theorem move_ok (h : SetsOk (some priority) sets) (hf : Lies f sets) (hne : f.set.priority ≠ priority)
    (hex : ∃ set ∈ sets, set.priority = priority)
    (hfit : ∀ set ∈ sets, set.priority = priority → set.list.length < 65535) (t : Target) (flags : UInt16) :
    SetsOk none (moveTarget f t flags priority) ∧ ∃ rest, (targets sets).Perm (f.target :: rest) ∧
        (targets (moveTarget f t flags priority)).Perm (t :: rest) := by
  obtain ⟨hdrop, hperm⟩ := drop_ok h hf
  have hmem : ∀ s : TargetSet, s.priority = priority → (s ∈ dropTarget f ↔ s ∈ sets) :=
    fun s hs => mem_dropTarget hf (by rw [hs]; exact hne.symm)
  obtain ⟨set, hset, hp⟩ := hex
  obtain ⟨hok, hfill⟩ := fill_ok hdrop ⟨set, (hmem set hp).mpr hset, hp⟩
    (fun s hs hsp => hfit s ((hmem s hsp).mp hs) hsp) t
    (g := fun nset => { targetSetAddTarget nset t with flags := flags }) (fun s => ⟨flags, rfl⟩)
  exact ⟨hok, targets (dropTarget f), hperm, hfill⟩

theorem putBack_ok (h : SetsOk none sets) (hf : Lies f sets) (t : Target) {g : TargetSet → TargetSet}
    (hg : g f.set = { f.set with
      normalizer := f.set.normalizer - f.target.weight + t.weight
      flags := (g f.set).flags }) :
    SetsOk none (putBack f t g) ∧ ∃ rest, (targets sets).Perm (f.target :: rest) ∧
        (targets (putBack f t g)).Perm (t :: rest) := by
  obtain ⟨rfl, hl⟩ := hf
  have hq : { g f.set with list := f.ahead ++ t :: f.behind } = { f.set with
      normalizer := f.set.normalizer - f.target.weight + t.weight
      flags := (g f.set).flags
      list := f.ahead ++ t :: f.behind } := by rw [hg]
  rw [putBack, hq]
  constructor
  · apply replace_ok h
    · rfl
    · exact counted_putBack (h.counted f.set (by simp)) hl t _
    · simp
    · exact .inl rfl
  · refine ⟨targets f.before ++ (f.ahead ++ f.behind ++ targets f.after), ?_, ?_⟩
    · rw [targets_append, targets_cons, hl]
      refine (List.Perm.append_left _ ?_).trans perm_middle
      simp
    · rw [targets_append, targets_cons]
      refine (List.Perm.append_left _ ?_).trans perm_middle
      simp

def onDev (ifindex : UInt32) (t : Target) : Bool :=
  decide (t.type = .forward ∧ t.out.asOif = ifindex)

/-- The inner loop leaves the targets that are not on the device, and frees the set if none
is left. The induction is on the targets still to be visited; the list is never empty. -/
theorem removeTargetsByDev_spec (ifindex : UInt32) (behind : List Target) :
    ∀ (set : TargetSet) (ahead : List Target) (n : ℕ), Counted set → set.list = ahead ++ behind → set.list ≠ [] →
      ∃ o, removeTargetsByDev ifindex set ahead n behind = some (o, n + behind.countP (onDev ifindex)) ∧ match o with
        | none => ahead ++ behind.filter (!onDev ifindex ·) = []
        | some s => s.list = ahead ++ behind.filter (!onDev ifindex ·) ∧ s.list ≠ [] ∧
            Counted s ∧ s.priority = set.priority ∧ s.flags = set.flags := by
  induction behind with
  | nil =>
    intro set ahead n hc hl hne
    exact ⟨some set, rfl, by simpa using hl, hne, hc, rfl, rfl⟩
  | cons t behind ih =>
    intro set ahead n hc hl hne
    rw [removeTargetsByDev]
    by_cases ht : t.type = .forward ∧ t.out.asOif = ifindex
    · have hon : onDev ifindex t = true := by simp [onDev, ht]
      have hc' : Counted (targetSetRemoveTarget ⟨[], set, ahead, t, behind, []⟩) :=
        counted_remove hc hl
      simp only [ht, and_self, ↓reduceIte]
      by_cases he : (targetSetRemoveTarget ⟨[], set, ahead, t, behind, []⟩).count = 0
      · have hempty : ahead ++ behind = [] := (counted_empty_iff hc').mp he
        obtain ⟨rfl, rfl⟩ := append_eq_nil_iff.mp hempty
        exact ⟨none, by simp [he, hon], by simp [hon]⟩
      · obtain ⟨o, hrun, ho⟩ := ih _ ahead (n + 1) hc' rfl
          (fun h0 => he ((counted_empty_iff hc').mpr h0))
        refine ⟨o, ?_, ?_⟩
        · simp only [he, ↓reduceIte, hrun, hon, countP_cons_of_pos, some.injEq, Prod.mk.injEq, true_and]
          omega
        · simpa [hon, targetSetRemoveTarget] using ho
    · have hoff : onDev ifindex t = false := by simpa [onDev] using ht
      obtain ⟨o, hrun, ho⟩ := ih set (ahead ++ [t]) n hc (by simpa using hl) hne
      refine ⟨o, ?_, ?_⟩
      · simp [ht, hrun, hoff]
      · simpa [hoff] using ho

def content (sets : List TargetSet) : List (UInt32 × UInt16 × List Target) :=
  sets.map fun set => (set.priority, set.flags, set.list)

def keepOnly (keep : Target → Bool) (sets : List (UInt32 × UInt16 × List Target)) :
    List (UInt32 × UInt16 × List Target) :=
  (sets.map fun (p, flags, l) => (p, flags, l.filter keep)).filter fun s => !s.2.2.isEmpty

theorem targets_eq_content (sets : List TargetSet) : targets sets = (content sets).flatMap (·.2.2) := by
  simp [targets, content, flatMap_map]

theorem priorities_eq_content (sets : List TargetSet) : sets.map (·.priority) = (content sets).map (·.1) := by
  simp [content]

theorem flatMap_keepOnly (keep : Target → Bool) (sets : List (UInt32 × UInt16 × List Target)) :
    (keepOnly keep sets).flatMap (·.2.2) = (sets.flatMap (·.2.2)).filter keep := by
  induction sets with
  | nil => rfl
  | cons s sets ih =>
    obtain ⟨p, flags, l⟩ := s
    rw [flatMap_cons, filter_append, ← ih]
    cases hl : l.filter keep with
    | nil | cons t ts => simp [keepOnly, hl]

theorem removeSetsByDev_spec (ifindex : UInt32) (h : SetsOk none sets) :
    ∃ sets', removeSetsByDev ifindex sets = some (sets', (targets sets).countP (onDev ifindex)) ∧
      SetsOk none sets' ∧ content sets' = keepOnly (!onDev ifindex ·) (content sets) := by
  induction sets with
  | nil => exact ⟨[], rfl, h, rfl⟩
  | cons set rest ih =>
    have hsort := List.pairwise_cons.mp h.sorted
    obtain ⟨rest', hrun', hok', hcont'⟩ := ih
      ⟨hsort.2, fun s hs => h.counted s (by simp [hs]), fun s hs => h.filled s (by simp [hs])⟩
    obtain ⟨o, hrun, ho⟩ := removeTargetsByDev_spec ifindex set.list set [] 0
      (h.counted set (by simp)) rfl (h.filled set (by simp) (by simp))
    refine ⟨o.toList ++ rest', by simp [removeSetsByDev, hrun, hrun'], ?_⟩
    cases o with
    | none => exact ⟨hok', by simp_all [keepOnly, content]⟩
    | some s =>
      obtain ⟨hl, hne, hc, hp, hfl⟩ := ho
      have hbelow : ∀ q ∈ rest'.map (·.priority), s.priority > q := by
        intro q hq
        rw [priorities_eq_content, hcont'] at hq
        simp only [keepOnly, List.mem_map, List.mem_filter, content] at hq
        obtain ⟨_, ⟨⟨_, ⟨r, hr, rfl⟩, rfl⟩, -⟩, rfl⟩ := hq
        rw [hp]
        exact hsort.1 _ (List.mem_map_of_mem hr)
      refine ⟨⟨List.pairwise_cons.mpr ⟨hbelow, hok'.sorted⟩, ?_, ?_⟩, ?_⟩
      · exact List.forall_mem_cons.mpr ⟨hc, hok'.counted⟩
      · exact List.forall_mem_cons.mpr ⟨fun _ => hne, hok'.filled⟩
      · simp_all [keepOnly, content]

theorem insert_split (set : TargetSet) (sets : List TargetSet) :
    ∃ l r, sets = l ++ r ∧ serviceEntryInsertTargetSet set sets = l ++ set :: r := by
  induction sets with
  | nil => exact ⟨[], [], rfl, rfl⟩
  | cons pos rest ih =>
    rw [serviceEntryInsertTargetSet]
    split
    · exact ⟨[], pos :: rest, rfl, rfl⟩
    · obtain ⟨l, r, hrest, hins⟩ := ih
      exact ⟨pos :: l, r, by simp [hrest], by simp [hins]⟩

theorem sorted_above (h : ((l ++ q :: r).map (·.priority)).Pairwise (· > ·)) : ∀ s ∈ l, q.priority < s.priority := by
  rw [map_append, map_cons, pairwise_append] at h
  intro s hs
  exact h.2.2 _ (mem_map_of_mem hs) _ (by simp)

end TargetSets
