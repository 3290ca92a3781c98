import Serval.BstDestroy
import Serval.ServiceTable

/-! # Iterating over the trie

The iterator has an explicit stack and passes over nodes without data. When the stack runs empty while it does so, it
returns the node that it has popped last.
-/
namespace BstIterator

open BstModel BstLayout BstDestroy BstDestroy.Tree ServiceTargets ServiceTable List Option Finmap BstRefinement

variable {α β : Type}

/-! ## The functions of the source -/

structure Iterator where
  stack : List Ptr
  curr : Option Ptr

def bstIteratorInit (t : Bst α) : Iterator := ⟨t.root.toList, t.root⟩

/-- The loop of `bst_iterator_next`: the stack it leaves, and the node that was popped last. -/
def iteratorLoop (t : Bst α) : ℕ → List Ptr → Option Ptr → Option (List Ptr × Option Ptr)
  | 0, _, _ => none
  | _ + 1, [], n => some ([], n)
  | fuel + 1, n :: stack, _ => do
    let nd ← t.heap n
    let stack := nd.right.toList ++ (nd.left.toList ++ stack)
    if nd.priv.isSome then return (stack, some n)
    else iteratorLoop t fuel stack (some n)

/-- No more nodes are popped than addresses were handed out. -/
def bstIteratorNext (t : Bst α) (iter : Iterator) : Option (Iterator × Option Ptr) := do
  let (stack, n) ← iteratorLoop t (t.brk + 1) iter.stack none
  return (⟨stack, n⟩, n)

/-- `get_service` on an inactive node gives NULL. -/
def serviceTableIteratorNext (tbl : Table) (iter : Iterator) : Option (Iterator × Option ServiceEntry) := do
  let (iter, n) ← bstIteratorNext tbl.tree iter
  match n with
  | none => return (iter, none)
  | some n =>
    let nd ← tbl.tree.heap n
    return (iter, nd.priv)

def returned (next : Iterator → Option (Iterator × Option β)) : ℕ → Iterator → Option (List (Option β))
  | 0, _ => some []
  | k + 1, iter => do
    let (iter, n) ← next iter
    let rest ← returned next k iter
    return n :: rest

/-! ## The order of the walk -/

def order : BstDestroy.Tree α → List (Ptr × BstNode α)
  | .nil => []
  | .node n nd l r => (n, nd) :: (order r ++ order l)

theorem order_perm (T : BstDestroy.Tree α) : ((order T).map Prod.fst).Perm T.nodes := by
  induction T with
  | nil => exact Perm.nil
  | node n nd l r ihl ihr =>
    rw [order, nodes, map_cons, map_append]
    exact ((ihr.append ihl).trans perm_append_comm).cons n

variable {heap : Ptr → Option (BstNode α)} {stack : List Ptr} {L : List (Ptr × BstNode α)}

theorem mem_order {T : BstDestroy.Tree α} {parent : Ptr} {link : Option Ptr} (h : T.Owns heap parent link) :
    ∀ x ∈ order T, heap x.1 = some x.2 := by
  induction T generalizing parent link with
  | nil => simp [order]
  | node n nd l r ihl ihr =>
    obtain ⟨-, hn, -, hl, hr⟩ := h
    intro x hx
    rcases mem_cons.mp hx with rfl | hx
    · exact hn
    · rcases mem_append.mp hx with hx | hx
      · exact ihr hr x hx
      · exact ihl hl x hx

/-- What is popped while the stack is worked off: the trees on it, one after the other. -/
inductive Pending (heap : Ptr → Option (BstNode α)) : List Ptr → List (Ptr × BstNode α) → Prop where
  | nil : Pending heap [] []
  | tree {T : BstDestroy.Tree α} {parent : Ptr} {link : Option Ptr} {stack : List Ptr} {L : List (Ptr × BstNode α)} :
      T.Owns heap parent link → Pending heap stack L → Pending heap (link.toList ++ stack) (order T ++ L)

theorem Pending.nodes (h : Pending heap stack L) : ∀ x ∈ L, heap x.1 = some x.2 := by
  induction h with
  | nil => simp
  | tree hown _ ih =>
    intro x hx
    rcases mem_append.mp hx with hx | hx
    · exact mem_order hown x hx
    · exact ih x hx

theorem Pending.pop (h : Pending heap stack L) :
    stack = [] ∧ L = [] ∨ ∃ n nd stack' L', stack = n :: stack' ∧ L = (n, nd) :: L' ∧ heap n = some nd ∧
      Pending heap (nd.right.toList ++ (nd.left.toList ++ stack')) L' := by
  induction h with
  | nil => exact .inl ⟨rfl, rfl⟩
  | @tree T parent link stack L hown hrest ih =>
    cases T with
    | nil =>
      obtain rfl : link = none := hown
      exact ih
    | node n nd l r =>
      obtain ⟨rfl, hn, -, hl, hr⟩ := hown
      refine .inr ⟨n, nd, stack, order r ++ (order l ++ L), rfl, ?_, hn, .tree hr (.tree hl hrest)⟩
      rw [order, cons_append, append_assoc]

def active (L : List (Ptr × BstNode α)) : List (Ptr × BstNode α) := L.filter fun x => x.2.priv.isSome

/-- The nodes that the calls return before the first NULL: the active ones, and the last one of the walk. -/
def visited (L : List (Ptr × BstNode α)) : List (Ptr × BstNode α) :=
  active L ++ (L.getLast?.filter fun x => x.2.priv.isNone).toList

variable {x : Ptr × BstNode α}

theorem mem_active : x ∈ active L ↔ x ∈ L ∧ x.2.priv ≠ none := by
  rw [active, mem_filter, isSome_iff_ne_none]

theorem visited_active (hx : x.2.priv.isSome = true) : visited (x :: L) = x :: visited L := by
  rw [visited, active, filter_cons, if_pos hx, getLast?_cons]
  cases hlast : L.getLast? with
  | none => simp [visited, active, hlast, isSome_iff_ne_none.mp hx]
  | some y => simp [visited, active, hlast]

theorem visited_idle (hx : x.2.priv = none) :
    visited (x :: L) = if L = [] then [x] else visited L := by
  cases L with
  | nil => simp [visited, active, hx]
  | cons y L => simp [visited, active, hx, getLast?_cons_cons]

theorem visited_ne_nil (h : L ≠ []) : visited L ≠ [] := by
  obtain ⟨x, hx⟩ : ∃ x, L.getLast? = some x := ⟨_, getLast?_eq_some_getLast h⟩
  cases hpriv : x.2.priv with
  | none => simp [visited, hx, hpriv]
  | some v =>
    have hmem : x ∈ active L := mem_active.mpr ⟨mem_of_getLast? hx, by simp [hpriv]⟩
    exact append_ne_nil_of_left_ne_nil (ne_nil_of_mem hmem) _

/-! ## What the calls return -/

variable {t : Bst α}

/-- One call takes the first of the nodes that are still to be returned. By induction on what is popped. -/
theorem loop_spec (L : List (Ptr × BstNode α)) : ∀ {stack n₀ fuel}, Pending t.heap stack L → L.length < fuel →
    ∃ stack' L', iteratorLoop t fuel stack n₀ = some (stack', ((visited L).head?.map Prod.fst).or n₀) ∧
      Pending t.heap stack' L' ∧ L'.length ≤ L.length ∧ visited L' = (visited L).tail := by
  induction L with
  | nil =>
    intro stack n₀ fuel h hfuel
    obtain ⟨fuel, rfl⟩ : ∃ k, fuel = k + 1 := ⟨fuel - 1, by omega⟩
    rcases h.pop with ⟨rfl, -⟩ | ⟨_, _, _, _, -, hL, -⟩
    · exact ⟨[], [], rfl, .nil, le_rfl, rfl⟩
    · cases hL
  | cons x L ih =>
    intro stack n₀ fuel h hfuel
    obtain ⟨fuel, rfl⟩ : ∃ k, fuel = k + 1 := ⟨fuel - 1, by omega⟩
    rw [length_cons] at hfuel ⊢
    rcases h.pop with ⟨-, hL⟩ | ⟨n, nd, stack, L', rfl, hL, hn, hnext⟩
    · cases hL
    obtain ⟨rfl, rfl⟩ := cons.inj hL
    cases hpriv : nd.priv with
    | some v =>
      rw [visited_active (by simp [hpriv])]
      exact ⟨_, L, by simp [iteratorLoop, hn, hpriv], hnext, Nat.le_succ _, rfl⟩
    | none =>
      obtain ⟨stack', L', hrun, hpending, hlen, hvisited⟩ := @ih _ (some n) fuel hnext (by omega)
      refine ⟨stack', L', ?_, hpending, hlen.trans (Nat.le_succ _), ?_⟩
      · have hstep : iteratorLoop t (fuel + 1) (n :: stack) n₀ =
            iteratorLoop t fuel (nd.right.toList ++ (nd.left.toList ++ stack)) (some n) := by
          simp [iteratorLoop, hn, hpriv]
        rw [hstep, hrun, visited_idle hpriv]
        by_cases hL : L = []
        · subst hL
          rfl
        · obtain ⟨y, ys, hys⟩ := exists_cons_of_ne_nil (visited_ne_nil hL)
          simp [hL, hys]
      · rw [hvisited, visited_idle hpriv]
        split
        next hL =>
          subst hL
          rfl
        · rfl

theorem returned_spec {next : Iterator → Option (Iterator × Option β)} {f : Ptr × BstNode α → Option β}
    (hnext : ∀ {stack L} c, Pending t.heap stack L → L.length ≤ t.brk → ∃ stack' c' L',
      next ⟨stack, c⟩ = some (⟨stack', c'⟩, (visited L).head?.bind f) ∧
        Pending t.heap stack' L' ∧ L'.length ≤ t.brk ∧ visited L' = (visited L).tail)
    (k : ℕ) : ∀ {stack L c}, Pending t.heap stack L → L.length ≤ t.brk →
      returned next k ⟨stack, c⟩ = some ((List.range k).map fun i => (visited L)[i]?.bind f) := by
  induction k with
  | zero => exact fun _ _ => rfl
  | succ k ih =>
    intro stack L c h hlen
    obtain ⟨stack', c', L', hcall, h', hlen', hvisited⟩ := hnext c h hlen
    rw [returned, hcall, List.range_succ_eq_map, map_cons, List.map_map]
    simp only [bind_eq_bind, bind_some, ih h' hlen', hvisited, getElem?_tail, Option.pure_def, head?_eq_getElem?]
    rfl

theorem next_spec (c : Option Ptr) (h : Pending t.heap stack L) (hlen : L.length ≤ t.brk) :
    ∃ stack' c' L', bstIteratorNext t ⟨stack, c⟩ = some (⟨stack', c'⟩, (visited L).head?.bind (some ·.1)) ∧
      Pending t.heap stack' L' ∧ L'.length ≤ t.brk ∧ visited L' = (visited L).tail := by
  obtain ⟨stack', L', hrun, h', hle, hvisited⟩ := @loop_spec _ t L stack none (t.brk + 1) h (by omega)
  refine ⟨stack', (visited L).head?.map Prod.fst, L', ?_, h', hle.trans hlen, hvisited⟩
  rw [bstIteratorNext, hrun, or_none]
  simp [Option.map_eq_bind]

theorem tableNext_spec {tbl : Table} {L : List (Ptr × BstNode ServiceEntry)} (c : Option Ptr)
    (h : Pending tbl.tree.heap stack L) (hlen : L.length ≤ tbl.tree.brk) : ∃ stack' c' L',
      serviceTableIteratorNext tbl ⟨stack, c⟩ = some (⟨stack', c'⟩, (visited L).head?.bind (·.2.priv)) ∧
        Pending tbl.tree.heap stack' L' ∧ L'.length ≤ tbl.tree.brk ∧ visited L' = (visited L).tail := by
  obtain ⟨stack', c', L', hcall, hrest⟩ := next_spec c h hlen
  refine ⟨stack', c', L', ?_, hrest⟩
  rw [serviceTableIteratorNext, hcall]
  cases hhead : (visited L).head? with
  | none => rfl
  | some x =>
    have hmem : x ∈ L := by
      rcases mem_append.mp (mem_of_head? hhead) with hx | hx
      · exact (mem_active.mp hx).1
      · exact mem_of_getLast? (eq_some_of_filter_eq_some (mem_toList.mp hx))
    simp [h.nodes x hmem]

/-! ## Whole iterations -/

def Active (t : Bst α) (n : Ptr) : Prop := (∃ q, nodeAt t q = some n) ∧ ∃ nd, t.heap n = some nd ∧ nd.priv ≠ none

/-- The leaf that is reached from a node by going left wherever there is a left child. -/
inductive LastFrom (heap : Ptr → Option (BstNode α)) : Ptr → Ptr → Prop where
  | leaf {n nd} : heap n = some nd → nd.left = none → nd.right = none → LastFrom heap n n
  | left {n nd l z} : heap n = some nd → nd.left = some l → LastFrom heap l z → LastFrom heap n z
  | right {n nd r z} : heap n = some nd → nd.left = none → nd.right = some r → LastFrom heap r z → LastFrom heap n z

def LastNode (t : Bst α) (z : Ptr) : Prop := ∃ r, t.root = some r ∧ LastFrom t.heap r z

theorem LastFrom.unique {n z z' : Ptr} (h : LastFrom heap n z) (h' : LastFrom heap n z') : z = z' := by
  induction h with
  | leaf hn hl hr => cases h' <;> simp_all
  | left hn hl _ ih => cases h' <;> simp_all
  | right hn hl hr _ ih => cases h' <;> simp_all

theorem order_last {T : BstDestroy.Tree α} {parent n : Ptr} (h : T.Owns heap parent (some n)) :
    ∃ x, (order T).getLast? = some x ∧ LastFrom heap n x.1 := by
  induction T generalizing parent n with
  | nil => cases h
  | node m nd l r ihl ihr =>
    obtain ⟨hlink, hn, -, hl, hr⟩ := h
    cases hlink
    rw [order, getLast?_cons, getLast?_append]
    cases hleft : nd.left with
    | some a =>
      obtain ⟨x, hx, hlast⟩ := ihl (hleft ▸ hl)
      exact ⟨x, by simp [hx], .left hn hleft hlast⟩
    | none =>
      obtain rfl : l = .nil := by
        cases l with
        | nil => rfl
        | node a ad l₁ l₂ => cases hleft.symm.trans hl.1
      cases hright : nd.right with
      | some a =>
        obtain ⟨x, hx, hlast⟩ := ihr (hright ▸ hr)
        exact ⟨x, by simp [order, hx], .right hn hleft hright hlast⟩
      | none =>
        obtain rfl : r = .nil := by
          cases r with
          | nil => rfl
          | node a ad r₁ r₂ => cases hright.symm.trans hr.1
        exact ⟨(m, nd), rfl, .leaf hn hleft hright⟩

structure Walk (t : Bst α) (L : List (Ptr × BstNode α)) : Prop where
  pending : Pending t.heap (bstIteratorInit t).stack L
  short : L.length ≤ t.brk
  nodup : ((active L).map Prod.fst).Nodup
  active : ∀ n, n ∈ (active L).map Prod.fst ↔ Active t n
  last : ∀ z, LastNode t z ↔ ∃ nd, L.getLast? = some (z, nd)

theorem exists_walk {pos : List Bool → Option Ptr} (h : Layout t pos) : ∃ L, Walk t L := by
  obtain ⟨T, hown, hnodup, hmem, hlen⟩ := tree_of_layout h
  have hperm := order_perm T
  refine ⟨order T, ?_, ?_, (hperm.nodup_iff.mpr hnodup).sublist (filter_sublist.map _), ?_, ?_⟩
  · simpa [bstIteratorInit] using Pending.tree hown .nil
  · rwa [← length_map Prod.fst, hperm.length_eq]
  · intro n
    have hnode : (∃ q, nodeAt t q = some n) ↔ n ∈ (order T).map Prod.fst := by
      rw [hperm.mem_iff, hmem]
      exact exists_congr fun q => by rw [h.nodeAt_eq]
    rw [Active, hnode, List.mem_map, List.mem_map]
    constructor
    · rintro ⟨x, hx, rfl⟩
      obtain ⟨hx, hpriv⟩ := mem_active.mp hx
      exact ⟨⟨x, hx, rfl⟩, x.2, mem_order hown x hx, hpriv⟩
    · rintro ⟨⟨x, hx, rfl⟩, nd, hnd, hpriv⟩
      cases hnd.symm.trans (mem_order hown x hx)
      exact ⟨x, mem_active.mpr ⟨hx, hpriv⟩, rfl⟩
  · intro z
    cases hroot : t.root with
    | none =>
      obtain rfl : T = .nil := by
        cases T with
        | nil => rfl
        | node a ad l r => cases hroot.symm.trans hown.1
      simp [LastNode, hroot, order]
    | some r =>
      obtain ⟨x, hx, hlast⟩ := order_last (hroot ▸ hown)
      rw [hx]
      constructor
      · rintro ⟨r', hr', hz⟩
        cases hroot.symm.trans hr'
        exact ⟨x.2, by rw [hz.unique hlast]⟩
      · rintro ⟨nd, hz⟩
        cases hz
        exact ⟨r, hroot, hlast⟩

theorem getElem?_append_bind {γ : Type} {l l' : List γ} {f : γ → Option β} (h : ∀ x ∈ l', f x = none) (i : ℕ) :
    (l ++ l')[i]?.bind f = l[i]?.bind f := by
  rw [getElem?_append]
  split
  · rfl
  next hlt =>
    rw [getElem?_eq_none (Nat.le_of_not_lt hlt)]
    cases hx : l'[i - l.length]? with
    | none => rfl
    | some x => exact h x (mem_of_getElem? hx)

/-- Repeated calls return every active node once and then NULL if and only if the node that they come to last is active.
The iterator over the service table returns every entry once and then NULL in any case. -/
theorem iterator_exact {M : BitMap α} (h : BstRefinement.Reachable BstRefinement.Careful t M) :
    ((∃ ns : List Ptr, ns.Nodup ∧ (∀ n, n ∈ ns ↔ Active t n) ∧
        ∀ k, returned (bstIteratorNext t) k (bstIteratorInit t) = some ((List.range k).map (ns[·]?))) ↔
      ∀ n, LastNode t n → Active t n) ∧
    ∀ tbl M, BstRefinement.Reachable BstRefinement.Careful tbl.tree M →
      ∃ ns : List Ptr, ns.Nodup ∧ (∀ n, n ∈ ns ↔ Active tbl.tree n) ∧
        ∀ k, returned (serviceTableIteratorNext tbl) k (bstIteratorInit tbl.tree) =
          some ((List.range k).map fun i => ns[i]?.bind (getService tbl)) := by
  refine ⟨?_, fun tbl M h => ?_⟩
  · obtain ⟨pos, hrep⟩ := reachable_represents h
    obtain ⟨L, hwalk⟩ := exists_walk hrep.toLayout
    have hrun : ∀ k, returned (bstIteratorNext t) k (bstIteratorInit t) =
        some ((List.range k).map (((visited L).map Prod.fst)[·]?)) := by
      intro k
      simp only [getElem?_map, Option.map_eq_bind]
      exact returned_spec next_spec k hwalk.pending hwalk.short
    constructor
    · rintro ⟨ns, -, hns, hall⟩ z hz
      obtain ⟨nd, hlast⟩ := (hwalk.last z).mp hz
      -- the lists agree in every place, and so the last node is among the active ones
      have hsame : (visited L).map Prod.fst = ns := by
        refine List.ext_getElem? fun i => ?_
        have hlists := Option.some_inj.mp ((hrun (i + 1)).symm.trans (hall (i + 1)))
        simpa using congrArg (·[i]?) hlists
      by_cases hpriv : nd.priv = none
      · rw [← hns, ← hsame]
        exact List.mem_map.mpr ⟨(z, nd), by simp [visited, hlast, hpriv], rfl⟩
      · exact (hwalk.active z).mp (List.mem_map.mpr ⟨(z, nd), mem_active.mpr ⟨mem_of_getLast? hlast, hpriv⟩, rfl⟩)
    · intro hactive
      have hvisited : visited L = active L := by
        rw [visited]
        cases hlast : L.getLast? with
        | none => simp
        | some x =>
          obtain ⟨-, nd, hnd, hpriv⟩ := hactive x.1 ((hwalk.last x.1).mpr ⟨x.2, hlast⟩)
          cases hnd.symm.trans (hwalk.pending.nodes x (mem_of_getLast? hlast))
          simp [hpriv]
      exact ⟨_, hwalk.nodup, hwalk.active, fun k => hvisited ▸ hrun k⟩
  · obtain ⟨pos, hrep⟩ := reachable_represents h
    obtain ⟨L, hwalk⟩ := exists_walk hrep.toLayout
    refine ⟨_, hwalk.nodup, hwalk.active, fun k => (returned_spec tableNext_spec k hwalk.pending hwalk.short).trans ?_⟩
    have hidle : ∀ x ∈ (L.getLast?.filter fun x => x.2.priv.isNone).toList, x.2.priv = none := by
      intro x hx
      simpa using (filter_eq_some_iff.mp (mem_toList.mp hx)).2
    have hentry : ∀ i : ℕ, (active L)[i]?.bind (·.2.priv) = ((active L).map Prod.fst)[i]?.bind (getService tbl) := by
      intro i
      rw [getElem?_map]
      cases hx : (active L)[i]? with
      | none => rfl
      | some x =>
        have hnode := hwalk.pending.nodes x (mem_active.mp (mem_of_getElem? hx)).1
        simp [getService, hnode]
    simp only [visited, getElem?_append_bind hidle, hentry]

namespace Sample

def addOne : BstRefinement.Op ℕ := .insert BstRefinement.srvOps 7 [128] 1 2

def single : Bst ℕ := ((bstInsertPrefix bstInit BstRefinement.srvOps 7 [128] 1 2).getD (bstInit, none)).1

def emptied : Bst ℕ := (bstNodeRelease single 1).getD bstInit

def singleMap : BitMap ℕ := track ∅ addOne (.node (some 1))

theorem single_reachable : BstRefinement.Reachable BstRefinement.Careful single singleMap :=
  .step addOne .init ⟨by decide, srvOps_init⟩ (fun _ => rfl) rfl

theorem emptied_reachable : BstRefinement.Reachable BstRefinement.Careful emptied (singleMap.erase [true]) := by
  have hmem : [true] ∈ singleMap := mem_insert.mpr (.inl rfl)
  exact .step (.release [true]) single_reachable hmem (fun h => by cases h) rfl

def addOther : BstRefinement.Op ℕ := .insert BstRefinement.srvOps 9 [0] 1 1

def pair : Bst ℕ := ((bstInsertPrefix single BstRefinement.srvOps 9 [0] 1 1).getD (bstInit, none)).1

theorem pair_reachable : ∃ M, BstRefinement.Reachable BstRefinement.Careful pair M :=
  ⟨_, .step addOther single_reachable ⟨by decide, srvOps_init⟩ (fun h => by cases h) rfl⟩

theorem pair_last : LastFrom pair.heap 0 2 := .left rfl rfl (.leaf rfl rfl rfl)

end Sample

open Sample in
/-- Two entries; the root has no data. -/
theorem iterator_exact_pair : (∃ ns : List Ptr, ns.Nodup ∧ (∀ n, n ∈ ns ↔ Active pair n) ∧
      ∀ k, returned (bstIteratorNext pair) k (bstIteratorInit pair) = some ((List.range k).map (ns[·]?))) := by
  obtain ⟨M, hreach⟩ := pair_reachable
  refine (iterator_exact hreach).1.mpr ?_
  rintro n ⟨r, hr, hlast⟩
  cases hr
  obtain rfl := hlast.unique pair_last
  exact ⟨⟨[false], rfl⟩, _, rfl, by simp⟩

open Sample in
/-- After the only entry has been released the root is returned, which has no data. -/
theorem idle_root_returned :
    BstRefinement.Reachable BstRefinement.Careful emptied (singleMap.erase [true]) ∧
      returned (bstIteratorNext emptied) 2 (bstIteratorInit emptied) = some [some 0, none] ∧
      (emptied.heap 0).map BstNode.priv = some none ∧ ¬ Active emptied 0 := by
  refine ⟨emptied_reachable, rfl, rfl, ?_⟩
  rintro ⟨-, nd, hnd, hpriv⟩
  cases hnd
  exact hpriv rfl

end BstIterator
