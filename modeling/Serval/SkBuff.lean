import Serval.ByteMemory

/-! # Socket buffers

A linear buffer. Addresses count from its head, so that `data` is also the headroom.
-/
namespace SkBuff

open ByteMemory

structure Skb where
  mem : Mem
  data : ℕ
  len : ℕ
  networkHeader : ℕ
  transportHeader : ℕ

def skbPush (skb : Skb) (n : ℕ) : Option Skb :=
  if skb.data < n then none else some { skb with data := skb.data - n, len := skb.len + n }

def pskbPull (skb : Skb) (n : ℕ) : Skb :=
  if skb.len < n then skb else { skb with data := skb.data + n, len := skb.len - n }

def skbHeadroom (skb : Skb) : ℕ := skb.data

/-- `skb_copy_expand` with `extra` bytes of headroom more, which the allocator has cleared. The
header offsets stay as they were. -/
def skbCopyExpand (skb : Skb) (extra : ℕ) : Skb :=
  { skb with
    mem := fun a => if a < extra then 0 else skb.mem (a - extra)
    data := skb.data + extra }

/-- `skb_copy`: a cleared buffer of the same layout. The line that copies the bytes is commented
out. -/
def skbCopy (skb : Skb) : Skb := { skb with mem := fun _ => 0 }

variable {skb : Skb} {n : ℕ}

theorem skbPush_eq (h : n ≤ skb.data) : skbPush skb n = some { skb with data := skb.data - n, len := skb.len + n } := by
  rw [skbPush, if_neg (Nat.not_lt.mpr h)]

theorem read_pushed (h : n ≤ skb.data) {bs : List UInt8} (hbs : bs.length = n) (k : ℕ) :
    read (write skb.mem (skb.data - n) bs) (skb.data - n) (n + k) = bs ++ read skb.mem skb.data k := by
  subst hbs
  rw [read_write_start, Nat.sub_add_cancel h]

theorem read_copyExpand (skb : Skb) (extra a k : ℕ) :
    read (skbCopyExpand skb extra).mem (a + extra) k = read skb.mem a k := by
  apply List.map_congr_left
  intro i _
  simp only [skbCopyExpand]
  rw [if_neg (by omega), show a + extra + i - extra = a + i by omega]

end SkBuff
