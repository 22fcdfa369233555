import Mathlib.Data.List.Basic
import Kvaccel.Lib.Mem

/-!
# Big-endian numbers of a fixed width

The last `n` base-256 digits of a number, the most significant first, as a loop
that shifts and masks writes them. Cutting off the last bytes divides the
number, and two numbers with the same bytes are the same up to the width.
-/

namespace Kvaccel.Lib

def bigEndian (n v : Nat) : Bytes :=
  (List.range n).map fun i => UInt8.ofNat (v >>> (8 * (n - i - 1)))

@[simp] theorem length_bigEndian (n v : Nat) : (bigEndian n v).length = n := by
  simp [bigEndian]

theorem bigEndian_succ (n v : Nat) :
    bigEndian (n + 1) v = bigEndian n (v / 256) ++ [UInt8.ofNat v] := by
  rw [bigEndian, List.range_succ, List.map_append, bigEndian]
  congr 1
  · refine List.map_congr_left fun i hi => ?_
    have hi : i < n := List.mem_range.mp hi
    have hshift : 8 * (n + 1 - i - 1) = 8 + 8 * (n - i - 1) := by omega
    rw [hshift, Nat.shiftRight_add, Nat.shiftRight_eq_div_pow v 8]
  · simp

theorem take_bigEndian (n d v : Nat) :
    (bigEndian (n + d) v).take n = bigEndian n (v / 256 ^ d) := by
  induction d generalizing v with
  | zero => simp [List.take_of_length_le]
  | succ d ih =>
      rw [← Nat.add_assoc, bigEndian_succ, List.take_append_of_le_length (by simp), ih,
        Nat.div_div_eq_div_mul, Nat.pow_succ']

theorem bigEndian_inj {n v w : Nat} :
    bigEndian n v = bigEndian n w ↔ v % 256 ^ n = w % 256 ^ n := by
  induction n generalizing v w with
  | zero => simp [bigEndian, Nat.mod_one]
  | succ n ih =>
      have hbyte : UInt8.ofNat v = UInt8.ofNat w ↔ v % 256 = w % 256 := by
        rw [← UInt8.toNat_inj, UInt8.toNat_ofNat', UInt8.toNat_ofNat']
      rw [bigEndian_succ, bigEndian_succ, List.append_singleton_inj, ih, hbyte, Nat.pow_succ',
        Nat.mod_mul, Nat.mod_mul]
      constructor
      · rintro ⟨hhigh, hlow⟩
        rw [hhigh, hlow]
      · intro h
        have hv := Nat.mod_lt v (by decide : 0 < 256)
        have hw := Nat.mod_lt w (by decide : 0 < 256)
        omega

end Kvaccel.Lib
