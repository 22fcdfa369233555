import Mathlib.Data.List.Rotate
import Mathlib.Data.List.Range

/-!
# Searching round a circle

The numbers below `N`, from some place on and once round: `range N` rotated.
A search goes on from the place behind its last hit, so the hits that are
ahead of it are always the same ones, rotated by one with every hit.
-/

namespace Kvaccel.Lib

variable {N i k : Nat} {ks : List Nat} {p : Nat → Bool}

theorem rotate_range_cons (hi : i < N) :
    ∃ l, (List.range N).rotate i = i :: l ∧ (List.range N).rotate (i + 1) = l ++ [i] := by
  have hlen : i < (List.range N).length := by simpa using hi
  have hdrop : (List.range N).drop i = i :: (List.range N).drop (i + 1) := by
    rw [List.drop_eq_getElem_cons hlen, List.getElem_range]
  have hcons : (List.range N).rotate i =
      i :: ((List.range N).drop (i + 1) ++ (List.range N).take i) := by
    rw [List.rotate_eq_drop_append_take hlen.le, hdrop, List.cons_append]
  refine ⟨_, hcons, ?_⟩
  rw [← List.rotate_rotate, hcons, List.rotate_cons_succ, List.rotate_zero]

/-- Where the circle is cut does not matter once round. -/
theorem rotate_range_mod (N i : Nat) : (List.range N).rotate (i % N) = (List.range N).rotate i := by
  have h := List.rotate_mod (List.range N) i
  rwa [List.length_range] at h

theorem filter_rotate_next (h : ((List.range N).rotate i).filter p = k :: ks) :
    ((List.range N).rotate (k + 1)).filter p = ks ++ [k] := by
  obtain ⟨a, b, hsplit, ha, hk, rfl⟩ := List.filter_eq_cons_iff.mp h
  -- The hit is `a.length` places on from `i`.
  have hlen : a.length < ((List.range N).rotate i).length := by
    rw [hsplit]
    simp
  have hget : ((List.range N).rotate i)[a.length] = k := by
    simp [hsplit]
  rw [List.getElem_rotate, List.getElem_range, List.length_range] at hget
  have hcut : (List.range N).rotate (k + 1) = ((List.range N).rotate i).rotate (a.length + 1) := by
    rw [List.rotate_rotate, ← hget, ← rotate_range_mod, Nat.mod_add_mod, rotate_range_mod]
    congr 1
    omega
  have hrotated : (a ++ k :: b).rotate (a.length + 1) = b ++ (a ++ [k]) := by
    have happ := List.rotate_append_length_eq (a ++ [k]) b
    simpa using happ
  rw [hcut, hsplit, hrotated, List.filter_append, List.filter_append,
    List.filter_eq_nil_iff.mpr ha, List.nil_append, List.filter_cons_of_pos hk, List.filter_nil]

end Kvaccel.Lib
