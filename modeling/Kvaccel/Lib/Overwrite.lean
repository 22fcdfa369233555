import Mathlib.Data.List.Induction
import Mathlib.Logic.Function.Basic

/-!
# Writes that overwrite each other

A list of writes to a map leaves of every key the last one. So a write may be
moved in front of others, or behind them, as long as no write of the same key
is passed on the way.

The case that matters for interleavings: one party's writes `own` are to be
brought together, with the writes of everybody else before or after them.
`overwrite_own` is the step of that. Another own write drives those of its
key from the list after to the list before; they are overwritten either way,
and each key still sees its writes in the order in which they were made
(`filter_moved`).
-/

namespace Kvaccel.Lib

variable {K V : Type} [DecidableEq K]

def overwrite (m : K → Option V) (l : List (K × V)) : K → Option V :=
  l.foldl (fun m w => Function.update m w.1 (some w.2)) m

@[simp] theorem overwrite_nil (m : K → Option V) : overwrite m [] = m := rfl

theorem overwrite_append (m : K → Option V) (l l' : List (K × V)) :
    overwrite m (l ++ l') = overwrite (overwrite m l) l' :=
  List.foldl_append

theorem overwrite_concat (m : K → Option V) (l : List (K × V)) (w : K × V) :
    overwrite m (l ++ [w]) = Function.update (overwrite m l) w.1 (some w.2) :=
  overwrite_append m l [w]

/-- Of the writes, those of the key alone decide. -/
theorem overwrite_filter (m : K → Option V) (l : List (K × V)) (k : K) :
    overwrite m l k = overwrite m (l.filter fun w => w.1 = k) k := by
  induction l using List.reverseRecOn with
  | nil => rfl
  | append_singleton l w ih =>
      rw [List.filter_append, overwrite_concat]
      by_cases hk : w.1 = k
      · rw [List.filter_cons_of_pos (by simpa using hk), List.filter_nil, overwrite_concat, hk,
          Function.update_self, Function.update_self]
      · rw [List.filter_cons_of_neg (by simpa using hk), List.filter_nil, List.append_nil,
          Function.update_of_ne (Ne.symm hk), ih]

/-- A key that is not written keeps its value. -/
theorem overwrite_of_notMem {m : K → Option V} {l : List (K × V)} {k : K}
    (h : ∀ w ∈ l, w.1 ≠ k) : overwrite m l k = m k := by
  rw [overwrite_filter, List.filter_eq_nil_iff.mpr fun w hw => by simpa using h w hw]
  rfl

/-- Of a key that is written once, that is the value. -/
theorem overwrite_of_mem {m : K → Option V} {l : List (K × V)} {k : K} {v : V}
    (hnodup : (l.map Prod.fst).Nodup) (h : (k, v) ∈ l) : overwrite m l k = some v := by
  obtain ⟨a, b, rfl⟩ := List.append_of_mem h
  rw [List.map_append, List.map_cons, List.nodup_append] at hnodup
  have hb : ∀ w ∈ b, w.1 ≠ k := by
    rintro w hw rfl
    exact (List.nodup_cons.mp hnodup.2.1).1 (List.mem_map.mpr ⟨w, hw, rfl⟩)
  rw [← List.singleton_append, ← List.append_assoc, overwrite_append, overwrite_of_notMem hb,
    overwrite_concat, Function.update_self]

theorem filter_key_of_ne (l : List (K × V)) {k j : K} (hj : j ≠ k) :
    (l.filter fun w => w.1 = k).filter (fun w => w.1 = j) = [] := by
  rw [List.filter_filter, List.filter_eq_nil_iff]
  rintro w _ h
  simp only [Bool.and_eq_true, decide_eq_true_eq] at h
  exact hj (h.1.symm.trans h.2)

theorem filter_otherKey_of_ne (l : List (K × V)) {k j : K} (hj : j ≠ k) :
    (l.filter fun w => w.1 ≠ k).filter (fun w => w.1 = j) = l.filter fun w => w.1 = j := by
  rw [List.filter_filter]
  refine List.filter_congr fun w _ => ?_
  rw [Bool.and_eq_left_iff_imp]
  intro h
  simp only [decide_eq_true_eq] at h ⊢
  rw [h]
  exact hj

/-- Drive the writes of a key out of a list, past others of that key: each key
sees its writes in the same order. -/
theorem filter_moved {l x : List (K × V)} {k : K} (hx : ∀ w ∈ x, w.1 = k) (j : K) :
    ((l.filter fun w => w.1 = k) ++ x ++ l.filter fun w => w.1 ≠ k).filter (fun w => w.1 = j) =
      (l ++ x).filter fun w => w.1 = j := by
  simp only [List.filter_append]
  by_cases hj : j = k
  · subst hj
    have hmoved : (l.filter fun w => w.1 = j).filter (fun w => w.1 = j) =
        l.filter fun w => w.1 = j := by
      rw [List.filter_filter]
      simp
    have hkept : (l.filter fun w => w.1 ≠ j).filter (fun w => w.1 = j) = [] := by
      rw [List.filter_filter, List.filter_eq_nil_iff]
      simp
    rw [hmoved, hkept, List.append_nil]
  · have hnone : x.filter (fun w => w.1 = j) = [] := by
      rw [List.filter_eq_nil_iff]
      intro w hw h
      simp only [decide_eq_true_eq] at h
      exact hj (h.symm.trans (hx w hw))
    rw [filter_key_of_ne l hj, filter_otherKey_of_ne l hj, hnone, List.nil_append,
      List.nil_append, List.append_nil]

/-- Writes with the same key in the same order are the same writes to a map. -/
theorem overwrite_congr {m : K → Option V} {l l' : List (K × V)}
    (h : ∀ k, (l.filter fun w => w.1 = k) = l'.filter fun w => w.1 = k) :
    overwrite m l = overwrite m l' := by
  funext k
  rw [overwrite_filter, overwrite_filter m l', h k]

/-- One more own write, with the others' writes `before` and `after` the own
ones. -/
theorem overwrite_own (m : K → Option V) (before own after : List (K × V)) (w : K × V) :
    overwrite m ((before ++ after.filter fun w' => w'.1 = w.1) ++ (own ++ [w]) ++
        after.filter fun w' => w'.1 ≠ w.1) =
      Function.update (overwrite m (before ++ own ++ after)) w.1 (some w.2) := by
  funext k
  by_cases hk : k = w.1
  · subst hk
    rw [Function.update_self, overwrite_append, overwrite_of_notMem (by simp),
      ← List.append_assoc, overwrite_concat, Function.update_self]
  · -- Neither the write nor what it drives along is about `k`.
    rw [Function.update_of_ne hk, overwrite_filter, overwrite_filter m (_ ++ own ++ _)]
    have hw : [w].filter (fun w' => w'.1 = k) = [] := by
      simpa using Ne.symm hk
    simp only [List.filter_append, hw, filter_key_of_ne after hk, filter_otherKey_of_ne after hk,
      List.append_nil]

end Kvaccel.Lib
