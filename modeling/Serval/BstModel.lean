import Serval.BitString

/-! # The bitwise trie of the service table, on an explicit heap

Nodes live at addresses, as in `bst.c`. `none` is a run whose outcome rests on a NULL pointer or on a freed
node (or a loop that does not end). `mem` nodes can be allocated in a call.
-/
namespace BstModel

abbrev Ptr := ℕ

variable {α : Type}

structure BstNodeOps where
  init : Option (Ptr → ℤ)
  destroy : Bool

structure BstNode (α : Type) where
  parent : Ptr
  left : Option Ptr
  right : Option Ptr
  ops : Option BstNodeOps
  priv : Option α
  prefixBits : ℕ
  nodePrefix : List UInt8

/-- The tree with the memory its nodes live in. `brk` is above every address ever
handed out, and `destroyed` lists the calls of the `destroy` callback, latest first. -/
structure Bst (α : Type) where
  root : Option Ptr
  entries : UInt32
  heap : Ptr → Option (BstNode α)
  brk : Ptr
  destroyed : List (Ptr × α)

def prefixByte (bits : ℕ) : ℕ := bits / 8
def prefixSize (bits : ℕ) : ℕ := prefixByte bits + if bits % 8 ≠ 0 then 1 else 0

def checkBit (key : List UInt8) (bitoffset : ℕ) : Bool :=
  key.getD (prefixByte bitoffset) 0 &&& (1 <<< UInt8.ofNat (7 - bitoffset % 8)) != 0

def Bst.write (t : Bst α) (n : Ptr) (nd : BstNode α) : Bst α :=
  { t with heap := Function.update t.heap n (some nd) }

def bstInit : Bst α := ⟨none, 0, fun _ => none, 0, []⟩

def nodeMatches (mtch : Option (Ptr → Bool)) (n : Ptr) : Bool :=
  match mtch with
  | none => true
  | some f => f n

/-- The descent of the lookup: the node where it stops, and the last matching
active node it came by (`*prev`). -/
def bstNodeFindLongestPrefix (t : Bst α) (key : List UInt8) (bits : ℕ)
    (mtch : Option (Ptr → Bool)) : ℕ → Ptr → Option Ptr → Option (Ptr × Option Ptr)
  | 0, _, _ => none
  | fuel + 1, n, prev => do
    let nd ← t.heap n
    let prev := if nd.priv.isSome && nodeMatches mtch n then some n else prev
    if bits = 0 ∨ nd.prefixBits = bits then
      return (n, prev)
    if checkBit key nd.prefixBits then
      match nd.right with
      | some r => bstNodeFindLongestPrefix t key bits mtch fuel r prev
      | none => return (n, prev)
    else
      match nd.left with
      | some l => bstNodeFindLongestPrefix t key bits mtch fuel l prev
      | none => return (n, prev)

def bstFindLongestPrefixMatch (t : Bst α) (key : List UInt8) (bits : ℕ)
    (mtch : Option (Ptr → Bool)) : Option (Option Ptr) :=
  match t.root with
  | none => some none
  | some r => do
    let (n, prev) ← bstNodeFindLongestPrefix t key bits mtch (bits + 1) r none
    let nd ← t.heap n
    if nd.priv.isSome && nodeMatches mtch n then
      return some n
    return prev

def bstFindLongestPrefix (t : Bst α) (key : List UInt8) (bits : ℕ) : Option (Option Ptr) :=
  bstFindLongestPrefixMatch t key bits none

def bstNodeFree (t : Bst α) (n : Ptr) : Option (Bst α) := do
  let nd ← t.heap n
  let t ← if nd.parent ≠ n then do
      let pd ← t.heap nd.parent
      if pd.right = some n then
        pure (t.write nd.parent { pd with right := none })
      else
        pure (t.write nd.parent { pd with left := none })
    else
      pure { t with root := none }
  return { t with heap := Function.update t.heap n none }

def bstNodeOrphan (t : Bst α) (n : Ptr) : Option (Bst α) := do
  let nd ← t.heap n
  match nd.priv with
  | none => return t
  | some a =>
    let destroyed := match nd.ops with
      | some ops => if ops.destroy then (n, a) :: t.destroyed else t.destroyed
      | none => t.destroyed
    return { t.write n { nd with ops := none, priv := none } with
      entries := t.entries - 1, destroyed := destroyed }

/-- The climb at the end of `bst_node_release`: frees ancestors until one is active,
has a child left, or is the root. -/
def bstReleaseAncestors : ℕ → Bst α → Ptr → Option (Bst α)
  | 0, _, _ => none
  | fuel + 1, t, n => do
    let nd ← t.heap n
    if nd.priv.isNone && nd.left.isNone && nd.right.isNone && n != nd.parent then
      let parent := nd.parent
      let t ← bstNodeFree t n
      bstReleaseAncestors fuel t parent
    else
      return t

def bstNodeRelease (t : Bst α) (n : Ptr) : Option (Bst α) := do
  let t ← bstNodeOrphan t n
  let nd ← t.heap n
  if nd.left.isSome || nd.right.isSome then
    return t
  let parent := nd.parent
  let t ← bstNodeFree t n
  bstReleaseAncestors (nd.prefixBits + 1) t parent

def bstNodeInit (t : Bst α) (n : Ptr) (ops : Option BstNodeOps) (priv : α) : Option (Bst α × ℤ) := do
  let nd ← t.heap n
  if nd.ops.isSome then
    return (t, -1)
  if nd.priv.isSome then
    return (t, -1)
  let t := t.write n { nd with ops := ops, priv := some priv }
  match ops.bind BstNodeOps.init with
  | some init => return (t, if init n < 0 then -1 else 0)
  | none => return (t, 0)

def endmask (bits : ℕ) : UInt8 :=
  (List.range (bits % 8)).foldl (fun m i => m ||| (1 <<< UInt8.ofNat (7 - i))) 0

def copyPrefix (key : List UInt8) (bits : ℕ) : List UInt8 :=
  let copied := key.take (prefixSize bits)
  if bits % 8 ≠ 0 then
    copied.modify (prefixSize bits - 1) (· &&& endmask bits)
  else
    copied

def setChild (pd : BstNode α) (bit : Bool) (n : Ptr) : BstNode α :=
  if bit then { pd with right := some n } else { pd with left := some n }

def bstCreateNode (t : Bst α) (parent : Ptr) (key : List UInt8) (mem : ℕ) : Option (Bst α × Option Ptr) := do
  let pd ← t.heap parent
  match mem with
  | 0 => return (t, none)
  | _ + 1 =>
    let n := t.brk
    let nd : BstNode α :=
      { parent := parent, left := none, right := none, ops := none, priv := none
        prefixBits := pd.prefixBits + 1
        nodePrefix := copyPrefix key (pd.prefixBits + 1) }
    let t := t.write parent (setChild pd (checkBit key pd.prefixBits) n)
    return ({ t.write n nd with brk := n + 1 }, some n)

def bstNodeNew (key : List UInt8) (bits : ℕ) : ℕ → Bst α → Ptr → ℕ → Option (Bst α × Option Ptr)
  | 0, _, _, _ => none
  | fuel + 1, t, parent, mem => do
    let (t, n) ← bstCreateNode t parent key mem
    match n with
    | none => return (t, none)
    | some n =>
      let pd ← t.heap parent
      let t := t.write parent (setChild pd (checkBit key pd.prefixBits) n)
      if pd.prefixBits + 1 ≠ bits then
        bstNodeNew key bits fuel t n (mem - 1)
      else
        return (t, some n)

def bstNodeInsertPrefix (t : Bst α) (root : Ptr) (ops : Option BstNodeOps) (priv : α)
    (key : List UInt8) (bits mem : ℕ) : Option (Bst α × Option Ptr) := do
  let (n, _) ← bstNodeFindLongestPrefix t key bits none (bits + 1) root none
  let nd ← t.heap n
  let (t, n) ← if nd.prefixBits < bits then bstNodeNew key bits bits t n mem
    else pure (t, some n)
  match n with
  | none => return (t, none)
  | some n =>
    let (t, ret) ← bstNodeInit t n ops priv
    if ret = -1 then
      return (t, none)
    return (t, some n)

def bstAllocRoot (t : Bst α) : Bst α :=
  let n := t.brk
  let nd : BstNode α :=
    { parent := n, left := none, right := none, ops := none, priv := none
      prefixBits := 0, nodePrefix := [] }
  { t.write n nd with root := some n, brk := n + 1 }

def bstInsertPrefix (t : Bst α) (ops : Option BstNodeOps) (priv : α)
    (key : List UInt8) (bits mem : ℕ) : Option (Bst α × Option Ptr) := do
  if t.entries = 0 ∧ mem = 0 then
    return ({ t with root := none }, none)
  let (t, mem) := if t.entries = 0 then (bstAllocRoot t, mem - 1) else (t, mem)
  let root ← t.root
  let (t, n) ← bstNodeInsertPrefix t root ops priv key bits mem
  match n with
  | none => return (t, none)
  | some n => return ({ t with entries := t.entries + 1 }, some n)

def bstRemovePrefix (t : Bst α) (key : List UInt8) (bits : ℕ) : Option (Bst α × ℤ) := do
  let n ← bstFindLongestPrefix t key bits
  match n with
  | none => return (t, 0)
  | some n =>
    let nd ← t.heap n
    if nd.prefixBits = bits then
      let t ← bstNodeOrphan t n
      return (t, 1)
    return (t, 0)

end BstModel
