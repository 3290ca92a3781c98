import Serval.HeapOrder
import Mathlib.Algebra.Order.Ring.Nat
import Mathlib.Data.Set.Function
import Mathlib.Data.Nat.SuccPred

/-! # The heap of items that know their place

`heap.c`: an item holds its place in the array and a flag that says whether it is in the heap. Items are named
by their addresses. Places are 32-bit numbers.
-/
set_option linter.unusedSectionVars false

namespace IndexedHeap

open HeapOrder Function Option Equiv Set

variable {ι : Type}

structure Heap (ι : Type) where
  maxSize : ℕ
  size : ℕ
  map : ℕ → ι
  index : ι → ℕ
  active : ι → Bool

def HEAP_DEFAULT_SIZE : ℕ := 200
def HEAP_DEFAULT_INCREASE_SIZE : ℕ := 100

/-- The array that was allocated holds anything, and so do the places in the items. No item is active. -/
def heapInit (maxSize : ℕ) (map : ℕ → ι) (index : ι → ℕ) : Heap ι :=
  ⟨if maxSize = 0 then HEAP_DEFAULT_SIZE else maxSize, 0, map, index, fun _ => false⟩

def heapEmpty (h : Heap ι) : Bool := h.size == 0

def heapFront (h : Heap ι) : ι := h.map 0

def Distinct (m : ℕ → ι) (n : ℕ) : Prop := ∀ i j, i < n → j < n → m i = m j → i = j

def Indexed (h : Heap ι) (n : ℕ) : Prop := ∀ i, i < n → h.index (h.map i) = i

structure Moved (h h' : Heap ι) (n : ℕ) : Prop where
  size : h'.size = h.size
  maxSize : h'.maxSize = h.maxSize
  active : h'.active = h.active
  perm : ∃ σ : Equiv.Perm ℕ, (∀ j, σ j < n ↔ j < n) ∧ h'.map = h.map ∘ σ

variable {h h' h'' : Heap ι} {n i s : ℕ}

theorem Moved.refl (h : Heap ι) (n : ℕ) : Moved h h n :=
  ⟨rfl, rfl, rfl, Equiv.refl ℕ, fun _ => Iff.rfl, rfl⟩

theorem Moved.bijOn {S : Set ι} (hm : Moved h h' n) (hb : BijOn h.map (Iio n) S) : BijOn h'.map (Iio n) S := by
  obtain ⟨σ, hσ, hmap⟩ := hm.perm
  rw [hmap]
  exact hb.comp (σ.bijOn hσ)

theorem Moved.distinct (hm : Moved h h' n) (hd : Distinct h.map n) : Distinct h'.map n := by
  obtain ⟨σ, hσ, hmap⟩ := hm.perm
  intro i j hi hj heq
  rw [hmap] at heq
  exact σ.injective (hd _ _ ((hσ i).mpr hi) ((hσ j).mpr hj) heq)

theorem Moved.trans (h₁ : Moved h h' n) (h₂ : Moved h' h'' n) : Moved h h'' n := by
  obtain ⟨σ, hσ, hmap⟩ := h₁.perm
  obtain ⟨τ, hτ, hmap'⟩ := h₂.perm
  refine ⟨h₂.size.trans h₁.size, h₂.maxSize.trans h₁.maxSize, h₂.active.trans h₁.active,
    τ.trans σ, fun j => (hσ (τ j)).trans (hτ j), ?_⟩
  rw [hmap', hmap]
  rfl

variable [DecidableEq ι]

def Heap.place (h : Heap ι) (i : ℕ) (x : ι) : Heap ι :=
  { h with map := update h.map i x, index := update h.index x i }

def exchange (h : Heap ι) (i s : ℕ) : Heap ι := (h.place s (h.map i)).place i (h.map s)

def smallest (cmp : ι → ι → Bool) (h : Heap ι) (i : ℕ) : ℕ :=
  let l := (2 * i + 1) % 2 ^ 32
  let r := (l + 1) % 2 ^ 32
  let least := if l < h.size ∧ cmp (h.map l) (h.map i) then l else i
  if r < h.size ∧ cmp (h.map r) (h.map least) then r else least

def heapHeapify (cmp : ι → ι → Bool) : ℕ → Heap ι → ℕ → Option (Heap ι)
  | 0, _, _ => none
  | fuel + 1, h, i =>
    let s := smallest cmp h i
    if s = i then some h else heapHeapify cmp fuel (exchange h i s) s

def insertLoop (cmp : ι → ι → Bool) (item : ι) : ℕ → Heap ι → ℕ → Option (Heap ι × ℕ)
  | 0, _, _ => none
  | fuel + 1, h, i =>
    if 0 < i ∧ cmp item (h.map (parent i)) then insertLoop cmp item fuel (h.place i (h.map (parent i))) (parent i)
    else some (h, i)

def heapFull (h : Heap ι) : Bool := h.maxSize ≤ h.size

def heapIncreaseSize (h : Heap ι) (increaseSize : ℕ) : Heap ι :=
  { h with maxSize := (h.maxSize + increaseSize) % 2 ^ 32 }

def makeRoom (h : Heap ι) : Heap ι := if heapFull h then heapIncreaseSize h HEAP_DEFAULT_INCREASE_SIZE else h

def heapInsert (cmp : ι → ι → Bool) (h : Heap ι) (item : ι) (mem : Bool) : Option (Heap ι × ℤ) :=
  if heapFull h && !mem then some (h, -1)
  else do
    let h := makeRoom h
    let (h, i) ← insertLoop cmp item (h.size + 1) h h.size
    let h := h.place i item
    return ({ h with size := (h.size + 1) % 2 ^ 32, active := update h.active item true }, 0)

/-- The item that is moved into the gap keeps its old place unless it is exchanged. -/
def heapRemove (cmp : ι → ι → Bool) (h : Heap ι) (index : ℕ) : Option (Heap ι × Option ι) :=
  if h.size ≤ index then some (h, none)
  else do
    let item := h.map index
    let size := h.size - 1
    let h := { h with size := size, map := update h.map index (h.map size) }
    let h ← heapHeapify cmp (size + 1) h index
    return ({ h with index := update h.index item 0, active := update h.active item false }, some item)

theorem exchange_map (h : Heap ι) (i s : ℕ) : (exchange h i s).map = h.map ∘ swap i s :=
  (comp_swap_eq_update i s h.map).symm

theorem swap_lt (hi : i < n) (hs : s < n) (j : ℕ) : swap i s j < n ↔ j < n := by
  rw [swap_apply_def]
  split_ifs <;> omega

theorem exchange_moved (hi : i < n) (hs : s < n) : Moved h (exchange h i s) n :=
  ⟨rfl, rfl, rfl, swap i s, swap_lt hi hs, exchange_map h i s⟩

theorem exchange_indexed (hd : Distinct h.map n) (hi : i < n) (hs : s < n) (hne : i ≠ s)
    (hother : ∀ j, j < n → j ≠ i → j ≠ s → h.index (h.map j) = j) : Indexed (exchange h i s) n := by
  have hdiff : ∀ a b, a < n → b < n → a ≠ b → h.map a ≠ h.map b := fun a b ha hb hab he => hab (hd a b ha hb he)
  intro j hj
  rw [exchange_map]
  simp only [Function.comp_apply, exchange, Heap.place]
  by_cases hji : j = i
  · rw [hji, swap_apply_left, update_self]
  · by_cases hjs : j = s
    · rw [hjs, swap_apply_right, update_of_ne (hdiff i s hi hs hne), update_self]
    · rw [swap_apply_of_ne_of_ne hji hjs, update_of_ne (hdiff j s hj hs hjs), update_of_ne (hdiff j i hj hi hji)]
      exact hother j hj hji hjs

section Sifting

variable (cmp : ι → ι → Bool) [IsStrictWeakOrder ι fun a b => cmp a b = true]

def ChildLess (cmp : ι → ι → Bool) (m : ℕ → ι) (n i : ℕ) : Prop :=
  ∃ c, 0 < c ∧ c < n ∧ parent c = i ∧ cmp (m c) (m i) = true

theorem choose_spec (m : ℕ → ι) (n a b : ℕ) {s : ℕ} (hs : s = if b < n ∧ cmp (m b) (m a) then b else a) :
    (s = a ∨ s = b ∧ b < n ∧ cmp (m b) (m a) = true) ∧ (b < n → ¬ cmp (m b) (m s) = true) ∧
      ∀ x, ¬ cmp x (m a) = true → ¬ cmp x (m s) = true := by
  split_ifs at hs with hb
  · refine ⟨.inr ⟨hs, hb⟩, fun _ => hs ▸ irrefl_of (fun a b => cmp a b = true) _, fun x hx hxs => hx ?_⟩
    exact trans_of (fun a b => cmp a b = true) (hs ▸ hxs) hb.2
  · exact ⟨.inl hs, fun hn hlt => hb ⟨hn, hs ▸ hlt⟩, fun x hx => hs ▸ hx⟩

theorem smallest_spec (hsize : h.size + 1 < 2 ^ 31) (hi : i ≤ h.size) :
    (smallest cmp h i = i ∨ 0 < smallest cmp h i ∧ smallest cmp h i < h.size ∧ parent (smallest cmp h i) = i ∧
      cmp (h.map (smallest cmp h i)) (h.map i) = true) ∧
    ∀ c, 0 < c → c < h.size → parent c = i → ¬ cmp (h.map c) (h.map (smallest cmp h i)) = true := by
  -- the numbers of the children do not wrap
  have hleft : (2 * i + 1) % 2 ^ 32 = 2 * i + 1 := Nat.mod_eq_of_lt (by omega)
  have hright : (2 * i + 1 + 1) % 2 ^ 32 = 2 * i + 2 := Nat.mod_eq_of_lt (by omega)
  simp only [smallest, hleft, hright]
  generalize hleast : (if 2 * i + 1 < h.size ∧ cmp (h.map (2 * i + 1)) (h.map i) then 2 * i + 1 else i) = least
  generalize hs : (if 2 * i + 2 < h.size ∧ cmp (h.map (2 * i + 2)) (h.map least) then 2 * i + 2 else least) = s
  obtain ⟨hl, hnotl, -⟩ := choose_spec cmp h.map h.size i (2 * i + 1) hleast.symm
  obtain ⟨hr, hnotr, hkept⟩ := choose_spec cmp h.map h.size least (2 * i + 2) hs.symm
  constructor
  · rcases hr with hr | ⟨hr, hlt, hless⟩
    · rw [hr]
      rcases hl with hl | ⟨hl, hlt, hless⟩ <;> rw [hl]
      · exact .inl rfl
      · exact .inr ⟨by omega, hlt, by unfold parent; omega, hless⟩
    · rw [hr]
      refine .inr ⟨by omega, hlt, by unfold parent; omega, ?_⟩
      rcases hl with hl | ⟨hl, -, hless'⟩ <;> rw [hl] at hless
      · exact hless
      · exact trans_of (fun a b => cmp a b = true) hless hless'
  · intro c hc hcn hpar
    rcases child_cases hc hpar with rfl | rfl
    · exact hkept _ (hnotl hcn)
    · exact hnotr hcn

/-- The descent from `i`. The order is restored if it was broken at `i` only, and an item that is exchanged
knows its place. -/
theorem heapify_spec (fuel : ℕ) : ∀ (h : Heap ι) (i : ℕ), h.size + 1 < 2 ^ 31 → i ≤ h.size → h.size - i < fuel →
    ∃ h', heapHeapify cmp fuel h i = some h' ∧ Moved h h' h.size ∧
      (OrderedDown (cmp · · = true) h.map h.size i → Ordered (cmp · · = true) h'.map h.size) ∧
      (¬ ChildLess cmp h.map h.size i → h' = h) ∧
      (Distinct h.map h.size → (∀ j, j < h.size → j ≠ i → h.index (h.map j) = j) →
        (h.index (h.map i) = i ∨ ChildLess cmp h.map h.size i) → Indexed h' h.size) := by
  induction fuel with
  | zero =>
    intro h i _ _ hfuel
    omega
  | succ fuel ih =>
    intro h i hsize hi hfuel
    obtain ⟨hself | ⟨hspos, hsn, hpar, hlt⟩, hleast⟩ := smallest_spec cmp hsize hi
    · rw [hself] at hleast
      have hno : ¬ ChildLess cmp h.map h.size i := by
        rintro ⟨c, hc, hcn, hpar, hlt⟩
        exact hleast c hc hcn hpar hlt
      refine ⟨h, by simp [heapHeapify, hself], Moved.refl h _, fun hdown => ?_, fun _ => rfl,
        fun _ hother hor j hj => ?_⟩
      · exact hdown.done hleast
      · by_cases hji : j = i
        · rw [hji]
          exact hor.resolve_right hno
        · exact hother j hj hji
    · generalize hs : smallest cmp h i = s at hspos hsn hpar hlt hleast
      have his : i < s := hpar ▸ parent_lt hspos
      obtain ⟨h', hrun, hmoved, hord, -, hidx⟩ := ih (exchange h i s) s hsize hsn.le (by
        change h.size - s < fuel
        omega)
      have hex : Moved h (exchange h i s) h.size := exchange_moved (by omega) hsn
      refine ⟨h', ?_, hex.trans hmoved, fun hdown => ?_, fun hno => ?_, fun hd hother _ => ?_⟩
      · rw [heapHeapify]
        simp only [hs, if_neg his.ne']
        exact hrun
      · refine hord ?_
        rw [exchange_map]
        exact hdown.step hspos hsn hpar hlt hleast
      · exact absurd ⟨s, hspos, hsn, hpar, hlt⟩ hno
      · have hin := exchange_indexed hd (show i < h.size by omega) hsn his.ne fun j hj hji _ => hother j hj hji
        exact hidx (hex.distinct hd) (fun j hj _ => hin j hj) (.inl (hin s hsn))

theorem place_place {item : ι} {p : ℕ} (hip : i ≠ p) (hne : item ≠ h.map p) :
    (h.place i (h.map p)).place p item = exchange (h.place i item) i p := by
  simp only [exchange, Heap.place, Heap.mk.injEq, true_and, and_true]
  rw [update_self, update_of_ne hip.symm]
  constructor
  · rw [update_comm hip.symm, update_idem]
  · rw [update_idem, update_comm hne]

theorem insertLoop_spec (item : ι) (fuel : ℕ) : ∀ (h : Heap ι) (i : ℕ), i ≤ h.size → i < fuel →
    ∃ h' i', insertLoop cmp item fuel h i = some (h', i') ∧ Moved (h.place i item) (h'.place i' item) (h.size + 1) ∧
      (OrderedUp (cmp · · = true) (h.place i item).map (h.size + 1) i →
        Ordered (cmp · · = true) (h'.place i' item).map (h.size + 1)) ∧
      (Distinct (h.place i item).map (h.size + 1) → Indexed (h.place i item) (h.size + 1) →
        Indexed (h'.place i' item) (h.size + 1)) := by
  induction fuel with
  | zero =>
    intro h i _ hfuel
    omega
  | succ fuel ih =>
    intro h i hi hfuel
    have hitem : (h.place i item).map i = item := update_self ..
    by_cases hup : 0 < i ∧ cmp item (h.map (parent i)) = true
    · have hpar := parent_lt hup.1
      have hne : item ≠ h.map (parent i) := by
        intro he
        have hlt := hup.2
        rw [← he] at hlt
        exact irrefl_of (fun a b => cmp a b = true) item hlt
      have habove : (h.place i item).map (parent i) = h.map (parent i) := update_of_ne hpar.ne _ _
      obtain ⟨h', i', hrun, hmoved, hord, hidx⟩ :=
        ih (h.place i (h.map (parent i))) (parent i) (hpar.le.trans hi) (by omega)
      have hsize : (h.place i (h.map (parent i))).size = h.size := rfl
      rw [place_place hpar.ne' hne, hsize] at hmoved hord hidx
      have hex : Moved (h.place i item) (exchange (h.place i item) i (parent i)) (h.size + 1) :=
        exchange_moved (by omega) (by omega)
      refine ⟨h', i', ?_, hex.trans hmoved, fun hordered => hord ?_, fun hd hin => hidx (hex.distinct hd) ?_⟩
      · rw [insertLoop, if_pos hup]
        exact hrun
      · rw [exchange_map]
        refine hordered.step hup.1 (by omega) ?_
        rw [hitem, habove]
        exact hup.2
      · exact exchange_indexed hd (by omega) (by omega) hpar.ne' fun j hj _ _ => hin j hj
    · refine ⟨h, i, by rw [insertLoop, if_neg hup], Moved.refl _ _, fun hordered => ?_, fun _ hin => hin⟩
      refine hordered.done fun hpos _ hlt => hup ⟨hpos, ?_⟩
      have habove : (h.place i item).map (parent i) = h.map (parent i) := update_of_ne (parent_lt hpos).ne _ _
      rwa [hitem, habove] at hlt

end Sifting

structure Items (h : Heap ι) (S : Set ι) : Prop where
  distinct : Distinct h.map h.size
  mem : ∀ x, x ∈ S ↔ ∃ i < h.size, h.map i = x
  active : ∀ x, h.active x = true ↔ x ∈ S
  room : h.size ≤ h.maxSize
  small : h.size < 2 ^ 31

theorem items_init (maxSize : ℕ) (map : ℕ → ι) (index : ι → ℕ) : Items (heapInit maxSize map index) ∅ :=
  ⟨fun i j hi => absurd hi (Nat.not_lt_zero i), fun x => by simp [heapInit], fun x => by simp [heapInit], Nat.zero_le _,
    by simp [heapInit]⟩

variable {S : Set ι} {x : ι}

theorem bijOn_iff {m : ℕ → ι} : BijOn m (Iio n) S ↔ Distinct m n ∧ ∀ x, x ∈ S ↔ ∃ i < n, m i = x := by
  constructor
  · intro h
    refine ⟨fun i j hi hj => h.injOn hi hj, fun x => ⟨fun hx => h.surjOn hx, ?_⟩⟩
    rintro ⟨i, hi, rfl⟩
    exact h.mapsTo hi
  · rintro ⟨hd, hmem⟩
    exact ⟨fun i hi => (hmem _).mpr ⟨i, hi, rfl⟩, fun i hi j hj => hd i j hi hj, fun x hx => (hmem x).mp hx⟩

theorem Items.bijOn (hI : Items h S) : BijOn h.map (Iio h.size) S := bijOn_iff.mpr ⟨hI.distinct, hI.mem⟩

theorem Items.append (hI : Items h S) (hx : x ∉ S) :
    BijOn (h.place h.size x).map (Iio (h.size + 1)) (insert x S) := by
  have hold : EqOn h.map (h.place h.size x).map (Iio h.size) := fun j hj => (update_of_ne (ne_of_lt hj) _ _).symm
  have hnew : (h.place h.size x).map h.size = x := update_self ..
  have hb := @BijOn.insert _ _ _ _ _ h.size (hI.bijOn.congr hold) (hnew.symm ▸ hx)
  rwa [hnew, ← Order.Iio_succ_eq_insert, Nat.succ_eq_succ] at hb

theorem makeRoom_spec (hI : Items h S) : (makeRoom h).size = h.size ∧ (makeRoom h).map = h.map ∧
    (makeRoom h).index = h.index ∧ (makeRoom h).active = h.active ∧ h.size < (makeRoom h).maxSize := by
  have hroom := hI.room
  have hsmall := hI.small
  unfold makeRoom heapFull
  split
  next hfull =>
    have hle : h.maxSize ≤ h.size := of_decide_eq_true hfull
    refine ⟨rfl, rfl, rfl, rfl, ?_⟩
    simp only [heapIncreaseSize, HEAP_DEFAULT_INCREASE_SIZE]
    rw [Nat.mod_eq_of_lt (by omega)]
    omega
  next hfull =>
    have hlt : ¬ h.maxSize ≤ h.size := fun hle => hfull (decide_eq_true hle)
    exact ⟨rfl, rfl, rfl, rfl, by omega⟩

theorem insert_spec (cmp : ι → ι → Bool) [IsStrictWeakOrder ι fun a b => cmp a b = true] (hI : Items h S) (hx : x ∉ S)
    (hsmall : h.size + 1 < 2 ^ 31) (mem : Bool) :
    (heapInsert cmp h x mem = some (h, -1) ∧ h.size = h.maxSize ∧ mem = false) ∨
      ∃ h', heapInsert cmp h x mem = some (h', 0) ∧ Items h' (insert x S) ∧ h'.size = h.size + 1 ∧
        (Ordered (cmp · · = true) h.map h.size → Ordered (cmp · · = true) h'.map h'.size) ∧
        (Indexed h h.size → Indexed h' h'.size) := by
  by_cases hfull : (heapFull h && !mem) = true
  · obtain ⟨hf, hmem⟩ : heapFull h = true ∧ mem = false := by simpa using hfull
    exact .inl ⟨by rw [heapInsert, if_pos hfull], le_antisymm hI.room (of_decide_eq_true hf), hmem⟩
  right
  obtain ⟨hsize, hmap, hindex, hactive, hroom⟩ := makeRoom_spec hI
  obtain ⟨h₁, i₁, hloop, hmoved, hord, hidx⟩ := insertLoop_spec cmp x (h.size + 1)
    (makeRoom h) h.size hsize.ge (by omega)
  have hstart : ((makeRoom h).place h.size x).map = (h.place h.size x).map := by rw [Heap.place, Heap.place, hmap]
  have hsize₁ : (h₁.place i₁ x).size = h.size := hmoved.size.trans hsize
  have hmod : (h.size + 1) % 2 ^ 32 = h.size + 1 := Nat.mod_eq_of_lt (by omega)
  rw [hsize] at hmoved hord hidx
  have hfilled := hI.append hx
  rw [← hstart] at hfilled
  obtain ⟨hdistinct, hin⟩ := bijOn_iff.mp (hmoved.bijOn hfilled)
  refine ⟨{ h₁.place i₁ x with
      size := h.size + 1, active := update (h₁.place i₁ x).active x true }, ?_, ?_, rfl, ?_, ?_⟩
  · rw [heapInsert, if_neg hfull]
    simp only [hsize, hloop, bind_eq_bind, bind_some, hsize₁, hmod, Option.pure_def]
  · refine ⟨hdistinct, hin, fun y => ?_, ?_, hsmall⟩
    · have hact : (h₁.place i₁ x).active = h.active := hmoved.active.trans hactive
      simp only [hact, update_apply]
      by_cases hy : y = x
      · simp [hy]
      · rw [if_neg hy, hI.active, mem_insert_iff, or_iff_right hy]
    · have hmax : (h₁.place i₁ x).maxSize = (makeRoom h).maxSize := hmoved.maxSize
      simp only [hmax]
      omega
  · intro hordered
    refine hord ?_
    rw [hstart]
    exact hordered.append x
  · intro hindexed
    refine hidx (bijOn_iff.mp hfilled).1 ?_
    intro j hj
    simp only [Heap.place, hmap, hindex]
    by_cases hjs : j = h.size
    · rw [hjs, update_self, update_self]
    · have hlt : j < h.size := by omega
      have hne : h.map j ≠ x := fun he => hx ((hI.mem x).mpr ⟨j, hlt, he⟩)
      rw [update_of_ne hjs, update_of_ne hne]
      exact hindexed j hlt

def filled (h : Heap ι) (i : ℕ) : Heap ι :=
  { h with size := h.size - 1, map := update h.map i (h.map (h.size - 1)) }

theorem Items.filled (hI : Items h S) (hi : i < h.size) :
    BijOn (filled h i).map (Iio (h.size - 1)) (S \ {h.map i}) := by
  have hlast : h.size - 1 < h.size := by omega
  -- the item is exchanged with the last one, and the last place is left out
  have hswap : BijOn (swap i (h.size - 1)) (Iio h.size) (Iio h.size) := (swap i _).bijOn (swap_lt hi hlast)
  have hb := (hI.bijOn.comp hswap).sdiff_singleton hlast
  have hplaces : Iio h.size \ {h.size - 1} = Iio (h.size - 1) := by
    ext j
    simp only [mem_sdiff, mem_Iio, mem_singleton_iff]
    omega
  rw [comp_apply, swap_apply_right, hplaces] at hb
  refine hb.congr fun j hj => ?_
  simp only [comp_swap_eq_update, IndexedHeap.filled, update_apply, if_neg (mem_Iio.mp hj).ne]

def Fits (cmp : ι → ι → Bool) (h : Heap ι) (i : ℕ) : Prop :=
  0 < i → cmp (h.map (h.size - 1)) (h.map (parent i)) = false

/-- The last item is the one that goes, or it is exchanged with a child of place `i` at once. -/
def Settles (cmp : ι → ι → Bool) (h : Heap ι) (i : ℕ) : Prop :=
  i + 1 = h.size ∨ ChildLess cmp (filled h i).map (h.size - 1) i

theorem remove_spec (cmp : ι → ι → Bool) [IsStrictWeakOrder ι fun a b => cmp a b = true] (hI : Items h S)
    (hi : i < h.size) :
    ∃ h', heapRemove cmp h i = some (h', some (h.map i)) ∧ Items h' (S \ {h.map i}) ∧ h'.size = h.size - 1 ∧
      (Ordered (cmp · · = true) h.map h.size → Fits cmp h i → Ordered (cmp · · = true) h'.map h'.size) ∧
      (Indexed h h.size → (Indexed h' h'.size ↔ Settles cmp h i)) := by
  have hsmall := hI.small
  have hfilled := hI.filled hi
  obtain ⟨h₁, hrun, hmoved, hord, hstay, hidx⟩ := heapify_spec cmp (h.size - 1 + 1) (filled h i) i
    (show h.size - 1 + 1 < 2 ^ 31 by omega) (show i ≤ h.size - 1 by omega)
      (show h.size - 1 - i < h.size - 1 + 1 by omega)
  have hsize₁ : h₁.size = h.size - 1 := hmoved.size
  obtain ⟨hdistinct, hin⟩ := bijOn_iff.mp (hmoved.bijOn hfilled)
  refine ⟨{ h₁ with index := update h₁.index (h.map i) 0, active := update h₁.active (h.map i) false },
    ?_, ⟨?_, ?_, ?_, ?_, ?_⟩, hsize₁, ?_, ?_⟩
  · rw [heapRemove, if_neg (by omega)]
    change (heapHeapify cmp (h.size - 1 + 1) (filled h i) i).bind _ = _
    rw [hrun]
    rfl
  · exact hsize₁ ▸ hdistinct
  · exact hsize₁ ▸ hin
  · intro y
    have hact : h₁.active = h.active := hmoved.active
    simp only [hact, update_apply]
    by_cases hy : y = h.map i
    · simp [hy]
    · rw [if_neg hy, hI.active, mem_sdiff, mem_singleton_iff, and_iff_left hy]
  · have hmax : h₁.maxSize = h.maxSize := hmoved.maxSize
    have hroom := hI.room
    simp only [hmax, hsize₁]
    omega
  · simp only [hsize₁]
    omega
  · intro hordered hfits
    simp only [hsize₁]
    refine hord ((hordered.mono (Nat.sub_le h.size 1)).replace fun hpos => ?_)
    rw [hfits hpos]
    exact Bool.false_ne_true
  · intro hindexed
    have hplace : (filled h i).index ((filled h i).map i) = h.size - 1 := by
      change h.index (update h.map i _ i) = _
      rw [update_self]
      exact hindexed _ (by omega)
    have hgone : ∀ j, j < h.size - 1 → h₁.map j ≠ h.map i := fun j hj => ((hin _).mpr ⟨j, hj, rfl⟩).2
    have hiff : Indexed h₁ (h.size - 1) ↔ Settles cmp h i := by
      constructor
      · intro hnew
        by_contra hsettles
        obtain ⟨hlast, hno⟩ := not_or.mp hsettles
        obtain rfl := hstay hno
        have := hnew i (by omega)
        omega
      · intro hsettles
        refine hidx (bijOn_iff.mp hfilled).1 (fun j hj hji => ?_)
          (hsettles.imp_left fun hlast => hplace.trans (by omega))
        change h.index (update h.map i _ j) = _
        rw [update_of_ne hji]
        exact hindexed j (lt_of_lt_of_le hj (Nat.sub_le h.size 1))
    rw [← hiff, hsize₁]
    refine forall_congr' fun j => forall_congr' fun hj => ?_
    simp only [update_of_ne (hgone j hj)]

theorem Settles.fits {cmp : ι → ι → Bool} [IsStrictWeakOrder ι fun a b => cmp a b = true] (hi : i < h.size)
    (hordered : Ordered (cmp · · = true) h.map h.size) (hs : Settles cmp h i) : Fits cmp h i := by
  intro hpos
  rw [Bool.eq_false_iff]
  rcases hs with hlast | ⟨c, hc, hcn, hpar, hlt⟩
  · have := hordered i hpos hi
    rwa [show i = h.size - 1 by omega] at this ⊢
  · have hic : i < c := hpar ▸ parent_lt hc
    have hchild := hordered c hc (by omega)
    have hself := hordered i hpos hi
    rw [hpar] at hchild
    change cmp (update h.map i _ c) (update h.map i _ i) = true at hlt
    rw [update_of_ne hic.ne', update_self] at hlt
    intro hless
    have hnot := @not_lt_trans ι (fun a b => cmp a b = true) _ _ _ _ hself hchild
    exact hnot (trans_of (fun a b => cmp a b = true) hlt hless)

inductive Op (ι : Type) where
  | insert (item : ι) (mem : Bool)
  | remove (index : ℕ)

inductive Ret (ι : Type) where
  | int (r : ℤ)
  | item (x : Option ι)

def run (cmp : ι → ι → Bool) (h : Heap ι) : Op ι → Option (Heap ι × Ret ι)
  | .insert item mem => (heapInsert cmp h item mem).map fun x => (x.1, .int x.2)
  | .remove index => (heapRemove cmp h index).map fun x => (x.1, .item x.2)

def track (S : Set ι) : Op ι → Ret ι → Set ι
  | .insert item _, .int r => if r = 0 then insert item S else S
  | .remove _, .item (some x) => S \ {x}
  | _, _ => S

/-- Items are inserted while they are not in the heap, and there are fewer than `2^31` of them. -/
def Legal (h : Heap ι) (S : Set ι) : Op ι → Prop
  | .insert item _ => item ∉ S ∧ h.size + 1 < 2 ^ 31
  | .remove _ => True

inductive Reachable (cmp : ι → ι → Bool) (ok : Heap ι → ℕ → Prop) : Heap ι → Set ι → Prop where
  | init (maxSize : ℕ) (map : ℕ → ι) (index : ι → ℕ) : Reachable cmp ok (heapInit maxSize map index) ∅
  | step {h S h' r} (op : Op ι) : Reachable cmp ok h S → Legal h S op → (∀ i, op = .remove i → i < h.size → ok h i) →
      run cmp h op = some (h', r) → Reachable cmp ok h' (track S op r)

section Runs

variable (cmp : ι → ι → Bool) [IsStrictWeakOrder ι fun a b => cmp a b = true]

theorem step_spec (hI : Items h S) {op : Op ι} (hl : Legal h S op) :
    ∃ h' r, run cmp h op = some (h', r) ∧ Items h' (track S op r) ∧
      (Ordered (cmp · · = true) h.map h.size → (∀ i, op = .remove i → i < h.size → Fits cmp h i) →
        Ordered (cmp · · = true) h'.map h'.size) ∧
      (Indexed h h.size → (∀ i, op = .remove i → i < h.size → Settles cmp h i) → Indexed h' h'.size) := by
  cases op with
  | insert item mem =>
    rcases insert_spec cmp hI hl.1 hl.2 mem with ⟨hrun, -⟩ | ⟨h', hrun, hitems, -, hord, hidx⟩
    · exact ⟨h, .int (-1), by rw [run, hrun]; rfl, by simpa [track] using hI, fun hordered _ => hordered,
        fun hindexed _ => hindexed⟩
    · exact ⟨h', .int 0, by rw [run, hrun]; rfl, hitems, fun hordered _ => hord hordered, fun hindexed _ =>
        hidx hindexed⟩
  | remove i =>
    by_cases hi : i < h.size
    · obtain ⟨h', hrun, hitems, -, hord, hidx⟩ := remove_spec cmp hI hi
      refine ⟨h', .item (some (h.map i)), by rw [run, hrun]; rfl, hitems, fun hordered hfits => ?_,
        fun hindexed hs => ?_⟩
      · exact hord hordered (hfits i rfl hi)
      · exact (hidx hindexed).mpr (hs i rfl hi)
    · refine ⟨h, .item none, ?_, hI, fun hordered _ => hordered, fun hindexed _ => hindexed⟩
      rw [run, heapRemove, if_pos (not_lt.mp hi)]
      rfl

theorem reachable_items {ok : Heap ι → ℕ → Prop} (hr : Reachable cmp ok h S) : Items h S := by
  induction hr with
  | init maxSize map index => exact items_init maxSize map index
  | step op _ hl _ hrun ih =>
    obtain ⟨h', r, hrun', hitems, -⟩ := step_spec cmp ih hl
    cases hrun.symm.trans hrun'
    exact hitems

theorem reachable_ordered (hr : Reachable cmp (Fits cmp) h S) : Ordered (cmp · · = true) h.map h.size := by
  induction hr with
  | init maxSize map index => exact fun j _ hj => absurd hj (Nat.not_lt_zero j)
  | step op hr hl hok hrun ih =>
    obtain ⟨h', r, hrun', -, hord, -⟩ := step_spec cmp (reachable_items cmp hr) hl
    cases hrun.symm.trans hrun'
    exact hord ih hok

theorem reachable_indexed (hr : Reachable cmp (Settles cmp) h S) :
    Ordered (cmp · · = true) h.map h.size ∧ Indexed h h.size := by
  induction hr with
  | init maxSize map index =>
    exact ⟨fun j _ hj => absurd hj (Nat.not_lt_zero j), fun j hj => absurd hj (Nat.not_lt_zero j)⟩
  | step op hr hl hok hrun ih =>
    obtain ⟨h', r, hrun', -, hord, hidx⟩ := step_spec cmp (reachable_items cmp hr) hl
    cases hrun.symm.trans hrun'
    exact ⟨hord ih.1 fun i hop hi => (hok i hop hi).fits hi ih.1, hidx ih.2 hok⟩

theorem front_least (hI : Items h S) (hordered : Ordered (cmp · · = true) h.map h.size) (hpos : 0 < h.size) :
    heapFront h ∈ S ∧ ∀ x ∈ S, cmp x (heapFront h) = false := by
  refine ⟨(hI.mem _).mpr ⟨0, hpos, rfl⟩, fun x hx => ?_⟩
  obtain ⟨j, hj, rfl⟩ := (hI.mem x).mp hx
  rw [Bool.eq_false_iff]
  exact hordered.root_least j hj

/-- In every run the heap holds what was inserted and not removed, a removal returns the item at the place, and an
insertion that fails changes nothing. The order is kept as long as the last item fits where it is moved; the items
know their places as long as the last item is exchanged there at once. -/
theorem heap_runs : (∀ (h : Heap ι) S, Reachable cmp (fun _ _ => True) h S → Items h S ∧
      (∀ item mem, item ∉ S → h.size + 1 < 2 ^ 31 → ∃ h' r, heapInsert cmp h item mem = some (h', r) ∧
        (r = 0 ∨ r = -1 ∧ h' = h)) ∧
      ∀ i, ∃ h', heapRemove cmp h i = some (h', if i < h.size then some (h.map i) else none)) ∧
    (∀ (h : Heap ι) S, Reachable cmp (Fits cmp) h S → Ordered (cmp · · = true) h.map h.size ∧
      (0 < h.size → heapFront h ∈ S ∧ ∀ x ∈ S, cmp x (heapFront h) = false)) ∧
    ∀ (h : Heap ι) S, Reachable cmp (Settles cmp) h S → Ordered (cmp · · = true) h.map h.size ∧ Indexed h h.size := by
  refine ⟨fun h S hr => ?_, fun h S hr => ?_, fun h S hr => reachable_indexed cmp hr⟩
  · have hI := reachable_items cmp hr
    refine ⟨hI, fun item mem hitem hsmall => ?_, fun i => ?_⟩
    · rcases insert_spec cmp hI hitem hsmall mem with ⟨hrun, -⟩ | ⟨h', hrun, -⟩
      · exact ⟨h, -1, hrun, .inr ⟨rfl, rfl⟩⟩
      · exact ⟨h', 0, hrun, .inl rfl⟩
    · by_cases hi : i < h.size
      · obtain ⟨h', hrun, -⟩ := remove_spec cmp hI hi
        exact ⟨h', by rw [hrun, if_pos hi]⟩
      · exact ⟨h, by rw [heapRemove, if_pos (not_lt.mp hi), if_neg hi]⟩
  · have hordered := reachable_ordered cmp hr
    exact ⟨hordered, front_least cmp (reachable_items cmp hr) hordered⟩

end Runs

namespace Sample

def less (a b : ℕ) : Bool := decide (a < b)

instance : IsStrictWeakOrder ℕ fun a b => less a b = true where
  irrefl a := by simp [less]
  trans a b c hab hbc := by
    simp only [less, decide_eq_true_eq] at *
    omega
  incomp_trans a b c hab hbc := by
    simp only [less, decide_eq_true_eq] at *
    omega

def empty : Heap ℕ := heapInit 0 (fun _ => 0) (fun _ => 0)

def after (h : Heap ℕ) (op : Op ℕ) : Heap ℕ := ((run less h op).map Prod.fst).getD h

def two : Heap ℕ := after (after empty (.insert 1 true)) (.insert 2 true)
def removed : Heap ℕ := after two (.remove 0)

def six : Heap ℕ := [0, 10, 1, 11, 12, 2].foldl (fun h x => after h (.insert x true)) empty
def broken : Heap ℕ := after six (.remove 3)

variable (ok : Heap ℕ → ℕ → Prop)

theorem empty_reachable : Reachable less ok empty ∅ := .init 0 _ _

theorem insert_reachable {ok : Heap ℕ → ℕ → Prop} {h h' : Heap ℕ} {S : Set ℕ} {x : ℕ} (hr : Reachable less ok h S)
    (hx : x ∉ S) (hsize : h.size < 100) (hrun : run less h (.insert x true) = some (h', .int 0)) :
    Reachable less ok h' (insert x S) :=
  .step (.insert x true) hr ⟨hx, by omega⟩ (fun _ hop => by cases hop) hrun

theorem two_reachable : Reachable less ok two {2, 1} := by
  have h1 : Reachable less ok (after empty (.insert 1 true)) (insert 1 ∅) :=
    insert_reachable (empty_reachable ok) (by simp) (by decide) rfl
  have h2 : Reachable less ok two (insert 2 (insert 1 ∅)) := insert_reachable h1 (by simp) (by decide) rfl
  simpa using h2

theorem six_reachable : Reachable less ok six {2, 12, 11, 1, 10, 0} := by
  have h1 := insert_reachable (empty_reachable ok) (x := 0) (by simp) (by decide) rfl
  have h2 := insert_reachable h1 (x := 10) (by simp) (by decide) rfl
  have h3 := insert_reachable h2 (x := 1) (by simp) (by decide) rfl
  have h4 := insert_reachable h3 (x := 11) (by simp) (by decide) rfl
  have h5 := insert_reachable h4 (x := 12) (by simp) (by decide) rfl
  have h6 := insert_reachable h5 (x := 2) (by simp) (by decide) rfl
  rw [insert_empty_eq] at h6
  exact h6

def shrunk : Heap ℕ := after six (.remove 0)

/-- The last item, moved to the front, is exchanged with its right child. -/
theorem shrunk_reachable : Reachable less (Settles less) shrunk ({2, 12, 11, 1, 10, 0} \ {0}) := by
  refine .step (.remove 0) (six_reachable _) trivial (fun i hop _ => ?_) rfl
  cases hop
  exact .inr ⟨2, by decide, by decide, rfl, rfl⟩

end Sample

open Sample in
theorem heap_runs_shrunk : shrunk.size = 5 ∧ heapFront shrunk = 1 ∧ Ordered (less · · = true) shrunk.map shrunk.size ∧
    Indexed shrunk shrunk.size :=
  ⟨rfl, rfl, (heap_runs less).2.2 shrunk _ shrunk_reachable⟩

open Sample in
/-- The item that is left is at place 0 and says 1. In the other heap the last item is less than the parent of the
place it is moved to, and stays there. -/
theorem moved_item_misplaced :
    (Reachable less (fun _ _ => True) removed ({2, 1} \ {1}) ∧ removed.size = 1 ∧ removed.map 0 = 2 ∧
    removed.index 2 = 1) ∧
      (∃ S, Reachable less (fun _ _ => True) broken S) ∧ broken.size = 5 ∧ broken.map 3 = 2 ∧
      broken.map (parent 3) = 10 := by
  refine ⟨⟨?_, rfl, rfl, rfl⟩, ?_, rfl, rfl, rfl⟩
  · exact .step (.remove 0) (two_reachable _) trivial (fun _ _ _ => trivial) rfl
  · exact ⟨_, .step (.remove 3) (six_reachable _) trivial (fun _ _ _ => trivial) rfl⟩

end IndexedHeap
