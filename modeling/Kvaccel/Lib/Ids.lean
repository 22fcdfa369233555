import Mathlib.Data.Fintype.EquivFin
import Mathlib.Data.Nat.Find

/-!
# The smallest free id

An allocator of ids that hands out the smallest one not in use. As long as
nothing is given back, the ids in use are an initial segment.
-/

namespace Kvaccel.Lib

/-- The smallest id that is not in `L`. -/
def free (L : Finset Nat) : Nat := Nat.find (Infinite.exists_notMem_finset L)

variable {L : Finset Nat} {n : Nat}

theorem free_notMem (L : Finset Nat) : free L ∉ L :=
  Nat.find_spec (Infinite.exists_notMem_finset L)

theorem mem_of_lt_free (h : n < free L) : n ∈ L :=
  not_not.mp (Nat.find_min (Infinite.exists_notMem_finset L) h)

/-- An id below `n` is handed out as long as one of them is free. -/
theorem free_lt_iff : free L < n ↔ ¬ Finset.range n ⊆ L := by
  constructor
  · intro h hall
    exact free_notMem L (hall (Finset.mem_range.mpr h))
  · intro h
    by_contra hge
    exact h fun i hi =>
      mem_of_lt_free (Nat.lt_of_lt_of_le (Finset.mem_range.mp hi) (not_lt.mp hge))

@[simp] theorem free_range (n : Nat) : free (Finset.range n) = n := by
  refine Nat.le_antisymm ?_ ?_
  · by_contra h
    exact Finset.notMem_range_self (mem_of_lt_free (not_le.mp h))
  · by_contra h
    exact free_notMem _ (Finset.mem_range.mpr (not_le.mp h))

theorem insert_free_range (n : Nat) :
    insert (free (Finset.range n)) (Finset.range n) = Finset.range (n + 1) := by
  rw [free_range, Finset.range_add_one]

end Kvaccel.Lib
