import Mathlib.Data.List.Basic
import Mathlib.Tactic.Linarith

/-!
# A length cut into pieces

`n` units cut into pieces of `c`, the last one shorter. Piece `i` starts at
`c * i`, there is one for each `i` with `c * i < n`, and the pieces before it
are full, so their sizes add up to where it starts.
-/

namespace Kvaccel.Lib

/-- The size of piece `i`. -/
def chunk (c n i : Nat) : Nat := min c (n - c * i)

def chunkCount (c n : Nat) : Nat := (n + c - 1) / c

theorem chunk_le (c n i : Nat) : chunk c n i ≤ c := Nat.min_le_left _ _

theorem chunk_pos {c n i : Nat} (hc : 0 < c) (hi : c * i < n) : 0 < chunk c n i := by
  rw [chunk]
  omega

theorem lt_chunkCount_iff {c n i : Nat} (hc : 0 < c) : i < chunkCount c n ↔ c * i < n := by
  rw [chunkCount, Nat.lt_iff_add_one_le, Nat.le_div_iff_mul_le hc, Nat.add_mul, Nat.mul_comm i]
  omega

theorem le_mul_chunkCount {c : Nat} (hc : 0 < c) (n : Nat) : n ≤ c * chunkCount c n := by
  by_contra hlt
  have := (lt_chunkCount_iff (n := n) (i := chunkCount c n) hc).mpr (by omega)
  omega

/-- The first `k` pieces, whether there are as many or not. -/
theorem sum_chunk (c n k : Nat) : ((List.range k).map (chunk c n)).sum = min (c * k) n := by
  induction k with
  | zero => simp
  | succ k ih =>
      rw [List.range_succ, List.map_append, List.sum_append, ih, Nat.mul_succ]
      simp only [List.map_singleton, List.sum_singleton, chunk]
      omega

theorem sum_chunk_of_lt {c n i : Nat} (hi : c * i < n) :
    ((List.range i).map (chunk c n)).sum = c * i := by
  rw [sum_chunk]
  omega

theorem sum_chunk_chunkCount {c : Nat} (hc : 0 < c) (n : Nat) :
    ((List.range (chunkCount c n)).map (chunk c n)).sum = n := by
  have := le_mul_chunkCount hc n
  rw [sum_chunk]
  omega

end Kvaccel.Lib
