import Mathlib
import Kvaccel.Lib.Bag

/-!
# `HashMap`: the key tracker's table (`util/hash_map.h`)

An array of `size` buckets, each an `autovector` of pairs, and an atomic
count beside it. `Insert` appends without looking, so a key inserted twice
has two entries; `Delete` removes one of them, by overwriting it with the
bucket's last pair and popping. The template's `K` is `uint64_t` at its one
use, `keyTracker`, and it is here.

`countOf` is what the routing code can observe of the table: how many entries
carry a given key. `Contains` tests it for zero, and the other operations
move it by one. None of this needs the entries to sit in their own bucket,
because every operation looks only at the bucket its key selects.
-/

namespace Kvaccel.Ref

open Kvaccel.Lib

/-- Overwrite the `i`-th pair with the last one and pop the last one. -/
def swapRemove {α : Type} (l : List α) (i : Nat) : List α :=
  match l.getLast? with
  | none => l
  | some last => (l.set i last).dropLast

theorem swapRemove_perm {α : Type} {l : List α} {i : Nat} (hi : i < l.length) :
    (swapRemove l i).Perm (l.eraseIdx i) := by
  rcases List.eq_nil_or_concat l with rfl | ⟨init, last, rfl⟩
  · simp at hi
  · rw [List.concat_eq_append] at hi ⊢
    rw [swapRemove, List.getLast?_concat]
    simp only []
    rcases Nat.lt_or_ge i init.length with hlt | hge
    · -- An inner slot: the last pair moves into the hole.
      rw [List.set_append_left _ _ hlt, List.dropLast_concat,
        List.eraseIdx_append_of_lt_length hlt,
        List.set_eq_take_append_cons_drop, if_pos hlt,
        List.eraseIdx_eq_take_drop_succ, List.append_assoc]
      refine List.Perm.append_left _ ?_
      exact (List.perm_append_singleton last _).symm
    · -- The last slot itself: nothing moves.
      have hlast : i = init.length := by simp at hi; omega
      subst hlast
      rw [List.set_append_right _ _ (Nat.le_refl _)]
      simp [List.eraseIdx_append_of_length_le]

structure HashMap (V : Type) (size : Nat) where
  table : Vector (List (UInt64 × V)) size
  count : Int32

namespace HashMap

variable {V : Type} {size : Nat}

def empty : HashMap V size := ⟨Vector.replicate size [], 0⟩

def clear (m : HashMap V size) : HashMap V size :=
  { m with table := m.table.map fun _ => [], count := 0 }

/-- Every stored pair. -/
def entries (m : HashMap V size) : List (UInt64 × V) := m.table.toList.flatten

theorem mem_entries {m : HashMap V size} {e : UInt64 × V} :
    e ∈ m.entries ↔ ∃ b ∈ m.table.toList, e ∈ b := by
  simp [entries]

@[simp] theorem entries_empty : (empty : HashMap V size).entries = [] := by
  simp [entries, empty]

@[simp] theorem entries_clear (m : HashMap V size) : m.clear.entries = [] := by
  simp [entries, clear, List.flatten_eq_nil_iff]

/-- `size = 128`, the template's default. -/
instance : NeZero 128 := ⟨by decide⟩

variable [NeZero size]

/-- `key % size`. -/
def index (size : Nat) [NeZero size] (key : UInt64) : Fin size :=
  Fin.ofNat size key.toNat

def bucket (m : HashMap V size) (key : UInt64) : List (UInt64 × V) :=
  m.table[index size key]

def setBucket (m : HashMap V size) (key : UInt64) (b : List (UInt64 × V)) :
    Vector (List (UInt64 × V)) size :=
  m.table.set (index size key) b

def contains (m : HashMap V size) (key : UInt64) : Bool :=
  (m.bucket key).any fun p => p.1 == key

def insert (m : HashMap V size) (key : UInt64) (value : V) : HashMap V size :=
  { m with
    table := m.setBucket key (m.bucket key ++ [(key, value)])
    count := m.count + 1 }

/-- `std::find_if` and, when it found something, the swap with the last
pair. -/
def delete (m : HashMap V size) (key : UInt64) : HashMap V size :=
  let b := m.bucket key
  let it := b.findIdx fun p => p.1 == key
  if it < b.length then
    { m with table := m.setBucket key (swapRemove b it), count := m.count - 1 }
  else m

/-- `Pop`: the first pair of the first bucket that has one; `none` where the
source would index past the table. -/
def pop (m : HashMap V size) : Option (V × HashMap V size) :=
  match m.table.findFinIdx? (fun b => !b.isEmpty) with
  | none => none
  | some i =>
      (m.table[i]).head?.map fun first =>
        (first.2, { m with
          table := m.table.set i (swapRemove m.table[i] 0)
          count := m.count - 1 })

/-- A call of the table, with the value it hands out. -/
def call (m : HashMap V size) : Bag.Op UInt64 V → Option (Option V × HashMap V size)
  | .insert key value => some (none, m.insert key value)
  | .delete key => some (none, m.delete key)
  | .clear => some (none, m.clear)
  | .pop => m.pop.map fun r => (some r.1, r.2)

/-- How many entries carry `key`. -/
def countOf (m : HashMap V size) (key : UInt64) : Nat :=
  (m.bucket key).countP fun p => p.1 == key

theorem contains_iff (m : HashMap V size) (key : UInt64) :
    m.contains key = true ↔ 0 < m.countOf key := by
  rw [contains, countOf, List.any_eq_true, List.countP_pos_iff]

theorem contains_eq_false_iff (m : HashMap V size) (key : UInt64) :
    m.contains key = false ↔ m.countOf key = 0 := by
  rw [← Bool.not_eq_true, contains_iff]
  omega

theorem bucket_congr {m : HashMap V size} {key key' : UInt64}
    (h : index size key = index size key') : m.bucket key = m.bucket key' := by
  simp only [bucket, h]

/-- Reading a bucket back after one was replaced. -/
theorem bucket_setBucket (m : HashMap V size) (key key' : UInt64)
    (b : List (UInt64 × V)) (c : Int32) :
    HashMap.bucket ⟨m.setBucket key b, c⟩ key' =
      if index size key = index size key' then b else m.bucket key' := by
  unfold bucket setBucket
  simp only [Fin.getElem_fin, Vector.getElem_set, Fin.ext_iff]

@[simp] theorem countOf_empty (key : UInt64) :
    (empty : HashMap V size).countOf key = 0 := by
  simp [countOf, bucket, empty]

@[simp] theorem countOf_clear (m : HashMap V size) (key : UInt64) :
    m.clear.countOf key = 0 := by
  simp [countOf, bucket, clear]

theorem countOf_insert (m : HashMap V size) (key key' : UInt64) (value : V) :
    (m.insert key value).countOf key' =
      m.countOf key' + if key = key' then 1 else 0 := by
  rw [countOf, insert, bucket_setBucket]
  split
  · rename_i hidx
    rw [bucket_congr hidx, List.countP_append]
    simp [countOf, List.countP_singleton]
  · rename_i hidx
    have hne : key ≠ key' := fun h => hidx (by rw [h])
    simp [countOf, hne]

/-- Removing the first entry of a key costs that key one entry and no other
key any. -/
theorem countP_swapRemove {b : List (UInt64 × V)} {key key' : UInt64}
    (h : b.findIdx (fun p => p.1 == key) < b.length) :
    (swapRemove b (b.findIdx fun p => p.1 == key)).countP
        (fun p => p.1 == key') =
      b.countP (fun p => p.1 == key') - if key = key' then 1 else 0 := by
  have hfound : b[b.findIdx fun p => p.1 == key].1 = key := by
    have := List.findIdx_getElem (p := fun p : UInt64 × V => p.1 == key) (w := h)
    simpa using this
  have hsplit := (List.getElem_cons_eraseIdx_perm h).countP_eq
    (fun p => p.1 == key')
  rw [List.countP_cons, hfound] at hsplit
  rw [(swapRemove_perm h).countP_eq, ← hsplit]
  simp

theorem countOf_delete (m : HashMap V size) (key key' : UInt64) :
    (m.delete key).countOf key' =
      m.countOf key' - if key = key' then 1 else 0 := by
  unfold delete
  simp only []
  split
  · rename_i hit
    rw [countOf, bucket_setBucket]
    split
    · rename_i hidx
      rw [countP_swapRemove hit, countOf, bucket_congr hidx]
    · rename_i hidx
      have hne : key ≠ key' := fun h => hidx (by rw [h])
      simp [countOf, hne]
  · rename_i hmiss
    split
    · rename_i heq
      subst heq
      have hzero : m.countOf key = 0 := by
        rw [countOf, List.countP_eq_zero]
        intro p hp hpk
        exact hmiss (List.findIdx_lt_length_of_exists ⟨p, hp, hpk⟩)
      omega
    · omega

theorem contains_of_contains_delete {m : HashMap V size} {key key' : UInt64}
    (h : (m.delete key).contains key' = true) : m.contains key' = true := by
  rw [contains_iff, countOf_delete] at h
  rw [contains_iff]
  omega

theorem contains_insert_of_ne {m : HashMap V size} {key key' : UInt64} {value : V}
    (h : key ≠ key') : (m.insert key value).contains key' = m.contains key' := by
  rw [Bool.eq_iff_iff, contains_iff, contains_iff, countOf_insert, if_neg h, Nat.add_zero]

theorem countOf_eq_zero_of_entries {m : HashMap V size} (h : m.entries = [])
    (key : UInt64) : m.countOf key = 0 := by
  rw [countOf, List.countP_eq_zero]
  intro p hp _
  have hmem : p ∈ m.entries := by
    rw [mem_entries]
    exact ⟨m.bucket key, by simp [bucket], hp⟩
  rw [h] at hmem
  cases hmem

/-- Inserting stores the one pair and keeps the others. -/
theorem mem_entries_insert {m : HashMap V size} {key : UInt64} {value : V}
    {e : UInt64 × V} (h : e ∈ (m.insert key value).entries) :
    e = (key, value) ∨ e ∈ m.entries := by
  obtain ⟨b, hb, he⟩ := mem_entries.mp h
  simp only [insert, setBucket, Vector.toList_set] at hb
  rcases List.mem_or_eq_of_mem_set hb with hold | rfl
  · exact Or.inr (mem_entries.mpr ⟨b, hold, he⟩)
  · rcases List.mem_append.mp he with he | he
    · exact Or.inr (mem_entries.mpr ⟨m.bucket key, by simp [bucket], he⟩)
    · exact Or.inl (List.mem_singleton.mp he)

/-- Deleting stores nothing new. -/
theorem mem_entries_delete {m : HashMap V size} {key : UInt64} {e : UInt64 × V}
    (h : e ∈ (m.delete key).entries) : e ∈ m.entries := by
  unfold delete at h
  simp only [] at h
  split at h
  · rename_i hit
    obtain ⟨b, hb, he⟩ := mem_entries.mp h
    simp only [setBucket, Vector.toList_set] at hb
    rcases List.mem_or_eq_of_mem_set hb with hold | rfl
    · exact mem_entries.mpr ⟨b, hold, he⟩
    · have hmem : e ∈ m.bucket key :=
        List.mem_of_mem_eraseIdx ((swapRemove_perm hit).mem_iff.mp he)
      exact mem_entries.mpr ⟨m.bucket key, by simp [bucket], hmem⟩
  · exact h

end HashMap

end Kvaccel.Ref
