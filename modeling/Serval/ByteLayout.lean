import Mathlib.Data.Vector.Basic
import Mathlib.Tactic.Ring

/-! # Numbers and records in bytes

Numbers of a fixed width, low byte first, and records of fields of fixed widths, one behind the
other.
-/
namespace ByteLayout

open List UInt8

/-! ## Numbers -/

def leNat : List UInt8 → ℕ
  | [] => 0
  | b :: bs => b.toNat + 256 * leNat bs

def leBytes : ℕ → ℕ → List UInt8
  | 0, _ => []
  | w + 1, n => UInt8.ofNat n :: leBytes w (n / 256)

@[simp] theorem length_leBytes (w n : ℕ) : (leBytes w n).length = w := by
  induction w generalizing n with
  | zero => rfl
  | succ w ih => rw [leBytes, length_cons, ih]

theorem leNat_lt (bs : List UInt8) : leNat bs < 256 ^ bs.length := by
  induction bs with
  | nil => exact Nat.one_pos
  | cons b bs ih =>
    have hb := b.toNat_lt
    rw [leNat, length_cons, pow_succ]
    omega

theorem leNat_leBytes (w n : ℕ) : leNat (leBytes w n) = n % 256 ^ w := by
  induction w generalizing n with
  | zero => simp [leBytes, leNat, Nat.mod_one]
  | succ w ih =>
    have hbyte : (UInt8.ofNat n).toNat = n % 256 := toNat_ofNat'
    rw [leBytes, leNat, ih, hbyte, pow_succ', Nat.mod_mul]

theorem leBytes_leNat (bs : List UInt8) : leBytes bs.length (leNat bs) = bs := by
  induction bs with
  | nil => rfl
  | cons b bs ih =>
    have hb := b.toNat_lt
    have hdiv : (b.toNat + 256 * leNat bs) / 256 = leNat bs := by omega
    rw [length_cons, leBytes, leNat, hdiv, ih]
    congr 1
    rw [← UInt8.toNat_inj, UInt8.toNat_ofNat']
    omega

theorem leBytes_of_length {bs : List UInt8} {w : ℕ} (h : bs.length = w) : leBytes w (leNat bs) = bs := by
  subst h
  exact leBytes_leNat bs

theorem leBytes_mod (w n : ℕ) : leBytes w (n % 256 ^ w) = leBytes w n := by
  calc
    leBytes w (n % 256 ^ w) = leBytes w (leNat (leBytes w n)) := by rw [leNat_leBytes]
    _ = leBytes w n := leBytes_of_length (length_leBytes w n)

section Widths

variable {bs : List UInt8}

theorem leBytes_uint8 (h : bs.length = 1) : leBytes 1 (UInt8.ofNat (leNat bs)).toNat = bs := by
  rw [toNat_ofNat']
  exact (leBytes_mod 1 (leNat bs)).trans (leBytes_of_length h)

theorem leBytes_uint16 (h : bs.length = 2) : leBytes 2 (UInt16.ofNat (leNat bs)).toNat = bs := by
  rw [UInt16.toNat_ofNat']
  exact (leBytes_mod 2 (leNat bs)).trans (leBytes_of_length h)

theorem leBytes_uint32 (h : bs.length = 4) : leBytes 4 (UInt32.ofNat (leNat bs)).toNat = bs := by
  rw [UInt32.toNat_ofNat']
  exact (leBytes_mod 4 (leNat bs)).trans (leBytes_of_length h)

end Widths

@[simp] theorem uint16_leBytes (x : UInt16) : UInt16.ofNat (leNat (leBytes 2 x.toNat)) = x := by
  have hlt : x.toNat < 256 ^ 2 := x.toNat_lt
  rw [leNat_leBytes, Nat.mod_eq_of_lt hlt, UInt16.ofNat_toNat]

@[simp] theorem uint32_leBytes (x : UInt32) : UInt32.ofNat (leNat (leBytes 4 x.toNat)) = x := by
  have hlt : x.toNat < 256 ^ 4 := x.toNat_lt
  rw [leNat_leBytes, Nat.mod_eq_of_lt hlt, UInt32.ofNat_toNat]

@[simp] theorem uint64_leBytes (x : UInt64) : UInt64.ofNat (leNat (leBytes 8 x.toNat)) = x := by
  have hlt : x.toNat < 256 ^ 8 := x.toNat_lt
  rw [leNat_leBytes, Nat.mod_eq_of_lt hlt, UInt64.ofNat_toNat]

/-! ## Arrays of bytes -/

def toVec (n : ℕ) (bs : List UInt8) : List.Vector UInt8 n := List.Vector.ofFn fun i => bs.getD i 0

theorem getD_toVec {n i : ℕ} (bs : List UInt8) (h : i < n) : (toVec n bs).toList.getD i 0 = bs.getD i 0 := by
  have hlen : i < (List.ofFn fun j : Fin n => bs.getD j 0).length := by rwa [List.length_ofFn]
  rw [toVec, List.Vector.toList_ofFn, List.getD_eq_getElem?_getD, List.getElem?_eq_getElem hlen, List.getElem_ofFn,
    Option.getD_some]

theorem toList_toVec {n : ℕ} {bs : List UInt8} (h : bs.length = n) : (toVec n bs).toList = bs := by
  subst h
  apply ext_getElem (by simp [toVec])
  intro i _ hi
  simp [toVec, getD_eq_getElem?_getD]

theorem toVec_toList {n : ℕ} (v : List.Vector UInt8 n) : toVec n v.toList = v :=
  List.Vector.toList_injective (toList_toVec v.toList_length)

/-! ## Records -/

def split : List ℕ → List UInt8 → List (List UInt8)
  | [], _ => []
  | w :: ws, bs => bs.take w :: split ws (bs.drop w)

variable {ws : List ℕ} {fields : List (List UInt8)}

theorem flatten_split {bs : List UInt8} (h : bs.length = ws.sum) : (split ws bs).flatten = bs := by
  induction ws generalizing bs with
  | nil => exact (length_eq_zero_iff.mp h).symm
  | cons w ws ih =>
    rw [split, flatten_cons, ih (by simp [h]), take_append_drop]

theorem split_append (h : fields.map List.length = ws) (ws' : List ℕ)
    (rest : List UInt8) : split (ws ++ ws') (fields.flatten ++ rest) = fields ++ split ws' rest := by
  subst h
  induction fields with
  | nil => rfl
  | cons field fields ih => simp [split, ih]

theorem split_flatten_append (h : fields.map List.length = ws)
    (rest : List UInt8) : split ws (fields.flatten ++ rest) = fields := by
  simpa [split] using split_append h [] rest

theorem split_flatten_of_widths (h : fields.map List.length = ws) : split ws fields.flatten = fields := by
  have hsplit := split_flatten_append h []
  rwa [append_nil] at hsplit

theorem widths_split {bs : List UInt8} (h : bs.length = ws.sum) : (split ws bs).map List.length = ws := by
  induction ws generalizing bs with
  | nil => rfl
  | cons w ws ih =>
    rw [sum_cons] at h
    have hlen : (bs.take w).length = w := by simp [h]
    rw [split, map_cons, hlen, ih (by simp [h])]

end ByteLayout
