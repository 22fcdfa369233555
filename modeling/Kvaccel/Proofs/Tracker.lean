import Kvaccel.Ref.HashMap

/-!
# The key tracker is a bag

`HashMap` keeps its entries in buckets and removes one by overwriting it with
the last of its bucket. Seen as the multiset of all entries, none of this
shows: replacing a bucket exchanges its entries and leaves the others
(`bag_set`), and removing with the last pair is removing, up to order. An
entry is put where its key says and moves within its bucket only, so looking
in one bucket is looking everywhere.

`count` is an `int` that moves by one with every entry. It wraps, and agrees
with the number of entries as long as that is an `int`.
-/

namespace Kvaccel.Ref.HashMap

open Kvaccel.Lib

variable {V : Type} {size : Nat}

def bag (m : HashMap V size) : Multiset (UInt64 × V) := ↑m.entries

theorem mem_bag {m : HashMap V size} {e : UInt64 × V} :
    e ∈ m.bag ↔ ∃ i : Fin size, e ∈ m.table.get i := by
  rw [bag, Multiset.mem_coe, mem_entries]
  constructor
  · rintro ⟨b, hb, he⟩
    obtain ⟨i, hi, rfl⟩ := List.mem_iff_getElem.mp hb
    rw [Vector.length_toList] at hi
    exact ⟨⟨i, hi⟩, by simpa [Vector.get_eq_getElem] using he⟩
  · rintro ⟨i, he⟩
    exact ⟨m.table.get i, by simp [Vector.get_eq_getElem], he⟩

/-- Replacing a bucket exchanges its entries. -/
theorem bag_set (m : HashMap V size) (i : Fin size) :
    ∃ rest, m.bag = ↑(m.table.get i) + rest ∧
      ∀ b c, bag ⟨m.table.set i b i.isLt, c⟩ = ↑b + rest := by
  have hi : i.val < m.table.toList.length := by simp
  refine ⟨↑(m.table.toList.eraseIdx i).flatten, ?_, ?_⟩
  · have hperm := (List.getElem_cons_eraseIdx_perm hi).flatten
    rw [bag, entries, Multiset.coe_add, Multiset.coe_eq_coe, Vector.get_eq_getElem]
    simpa using hperm.symm
  · intro b c
    have hperm := (List.set_perm_cons_eraseIdx hi b).flatten
    rw [bag, entries, Multiset.coe_add, Multiset.coe_eq_coe, Vector.toList_set]
    simpa using hperm

variable [NeZero size]

structure Sound (m : HashMap V size) : Prop where
  placed : ∀ (i : Fin size), ∀ e ∈ m.table.get i, index size e.1 = i
  counted : m.count = Int32.ofNat m.bag.card

variable {m : HashMap V size}

theorem sound_empty : Sound (empty : HashMap V size) where
  placed := by
    intro i e he
    simp [empty] at he
  counted := by
    simp [bag]
    rfl

theorem Sound.clear (m : HashMap V size) : Sound m.clear where
  placed := by
    intro i e he
    simp [HashMap.clear] at he
  counted := by
    simp [bag]
    rfl

/-- A key is looked for in its own bucket, and it is in no other. -/
theorem Sound.contains_iff (h : Sound m) (key : UInt64) :
    m.contains key = true ↔ ∃ e ∈ m.bag, e.1 = key := by
  rw [contains, List.any_eq_true]
  constructor
  · rintro ⟨e, he, hkey⟩
    exact ⟨e, mem_bag.mpr ⟨_, he⟩, by simpa using hkey⟩
  · rintro ⟨e, he, rfl⟩
    obtain ⟨i, hi⟩ := mem_bag.mp he
    obtain rfl := h.placed i e hi
    exact ⟨e, hi, by simp⟩

/-- A bucket with entries of its own, and a count to match. -/
theorem Sound.set (h : Sound m) {i : Fin size} {b : List (UInt64 × V)} {c : Int32}
    (hb : ∀ e ∈ b, index size e.1 = i)
    (hc : c = Int32.ofNat (bag ⟨m.table.set i b i.isLt, c⟩).card) :
    Sound ⟨m.table.set i b i.isLt, c⟩ where
  placed := by
    intro j e he
    rw [Vector.get_eq_getElem, Vector.getElem_set] at he
    split at he
    · next hij => rw [hb e he, Fin.ext hij]
    · exact h.placed j e he
  counted := hc

theorem Sound.insert (h : Sound m) (key : UInt64) (value : V) :
    Sound (m.insert key value) ∧ (m.insert key value).bag = (key, value) ::ₘ m.bag := by
  obtain ⟨rest, hold, hnew⟩ := bag_set m (index size key)
  have hbag : (m.insert key value).bag = (key, value) ::ₘ m.bag := by
    have hsnoc : (↑(m.bucket key ++ [(key, value)]) : Multiset (UInt64 × V)) =
        (key, value) ::ₘ ↑(m.bucket key) :=
      Multiset.coe_eq_coe.mpr (List.perm_append_singleton _ _)
    rw [HashMap.insert, setBucket, hnew, hsnoc, hold, Multiset.cons_add]
    rfl
  refine ⟨h.set ?_ ?_, hbag⟩
  · intro e he
    rcases List.mem_append.mp he with he | he
    · exact h.placed _ e he
    · rw [List.mem_singleton.mp he]
  · have hcard : (bag ⟨m.table.set (index size key)
        (m.bucket key ++ [(key, value)]), m.count + 1⟩).card = m.bag.card + 1 := by
      rw [← Multiset.card_cons, ← hbag]
      rfl
    rw [hcard, h.counted]
    simp [Int32.ofNat_add]

/-- Taking the `j`-th pair out of bucket `i`. -/
theorem Sound.remove (h : Sound m) {i : Fin size} {j : Nat} (hj : j < (m.table.get i).length) :
    Sound ⟨m.table.set i (swapRemove (m.table.get i) j) i.isLt, m.count - 1⟩ ∧
      m.bag = (m.table.get i)[j] ::ₘ
        bag ⟨m.table.set i (swapRemove (m.table.get i) j) i.isLt, m.count - 1⟩ := by
  obtain ⟨rest, hold, hnew⟩ := bag_set m i
  have hperm := swapRemove_perm hj
  have hbag : m.bag = (m.table.get i)[j] ::ₘ
      bag ⟨m.table.set i (swapRemove (m.table.get i) j) i.isLt, m.count - 1⟩ := by
    have hsplit : (↑(m.table.get i) : Multiset (UInt64 × V)) =
        (m.table.get i)[j] ::ₘ ↑(swapRemove (m.table.get i) j) := by
      rw [Multiset.coe_eq_coe.mpr hperm]
      exact (Multiset.coe_eq_coe.mpr (List.getElem_cons_eraseIdx_perm hj)).symm
    rw [hold, hsplit, Multiset.cons_add, ← hnew]
  refine ⟨h.set ?_ ?_, hbag⟩
  · intro e he
    exact h.placed i e (List.mem_of_mem_eraseIdx (hperm.mem_iff.mp he))
  · have hcount := h.counted
    rw [hbag, Multiset.card_cons, Int32.ofNat_add] at hcount
    exact (congrArg (· - 1) hcount).trans (by simp)

theorem Sound.delete (h : Sound m) (key : UInt64) :
    Sound (m.delete key) ∧ Bag.Step m.bag (.delete key) none (m.delete key).bag := by
  unfold HashMap.delete
  simp only []
  split
  · next hit =>
      have hfound : (m.bucket key)[(m.bucket key).findIdx fun p => p.1 == key].1 = key := by
        simpa using List.findIdx_getElem (p := fun p : UInt64 × V => p.1 == key) (w := hit)
      obtain ⟨hsound, hbag⟩ := h.remove hit
      refine ⟨hsound, ?_⟩
      rw [hbag]
      have hentry : (m.table.get (index size key))[(m.bucket key).findIdx fun p => p.1 == key] =
          (key, (m.bucket key)[(m.bucket key).findIdx fun p => p.1 == key].2) :=
        Prod.ext hfound rfl
      rw [hentry]
      exact .delete
  · next hmiss =>
      refine ⟨h, .miss fun e he hkey => hmiss ?_⟩
      have hin := (h.contains_iff key).mpr ⟨e, he, hkey⟩
      rw [contains, List.any_eq_true] at hin
      exact List.findIdx_lt_length_of_exists hin

/-- As long as anything is stored, the scan for a bucket finds one. -/
theorem Sound.pop (h : Sound m) (hne : m.bag ≠ 0) :
    ∃ v m', m.pop = some (v, m') ∧ Sound m' ∧ Bag.Step m.bag .pop (some v) m'.bag := by
  unfold HashMap.pop
  split
  · next hnone =>
      refine absurd (Multiset.eq_zero_of_forall_notMem fun e he => ?_) hne
      obtain ⟨i, hi⟩ := mem_bag.mp he
      have hempty : m.table.get i = [] := by
        simpa using Vector.findFinIdx?_eq_none_iff.mp hnone (m.table.get i)
          (by simp [Vector.get_eq_getElem])
      rw [hempty] at hi
      cases hi
  · next i hsome =>
      have hfind : m.table.find? (fun b => !b.isEmpty) = some (m.table.get i) := by
        rw [Vector.find?_eq_map_findFinIdx?_getElem, hsome]
        rfl
      have hpos : 0 < (m.table.get i).length := by
        rw [List.length_pos_iff]
        simpa using Vector.find?_some hfind
      obtain ⟨hsound, hbag⟩ := h.remove hpos
      refine ⟨(m.table.get i)[0].2, _, ?_, hsound, ?_⟩
      · show (m.table.get i).head?.map _ = _
        rw [List.head?_eq_getElem?, List.getElem?_eq_getElem hpos]
        rfl
      · rw [hbag]
        exact .pop

theorem Sound.call (h : Sound m) (op : Bag.Op UInt64 V) (hpop : op = .pop → m.bag ≠ 0) :
    ∃ out m', m.call op = some (out, m') ∧ Sound m' ∧ Bag.Step m.bag op out m'.bag := by
  cases op with
  | insert key value =>
      obtain ⟨hsound, hbag⟩ := h.insert key value
      refine ⟨none, _, rfl, hsound, ?_⟩
      rw [hbag]
      exact .insert
  | delete key => exact ⟨none, _, rfl, h.delete key⟩
  | clear =>
      refine ⟨none, _, rfl, .clear m, ?_⟩
      rw [bag, bag, entries_clear]
      exact .clear
  | pop =>
      obtain ⟨v, m', hpopped, hsound, hstep⟩ := h.pop (hpop rfl)
      exact ⟨some v, m', by rw [HashMap.call, hpopped]; rfl, hsound, hstep⟩

/-- Every sequence of calls on an empty table does to its entries what it does
to a bag. -/
theorem calls_refine_bag (ops : List (Bag.Op UInt64 V))
    (hpops : Bag.PopsFind call bag (empty : HashMap V size) ops) :
    ∃ outs m, Bag.run call (empty : HashMap V size) ops = some (outs, m) ∧
      Bag.Steps 0 ops outs ↑m.entries ∧
      (∀ (i : Fin size), ∀ e ∈ m.table.get i, e.1.toNat % size = i) ∧
      (m.entries.length < 2 ^ 31 → m.count.toInt = m.entries.length) ∧
      ∀ key, m.contains key = true ↔ key ∈ m.entries.map Prod.fst := by
  obtain ⟨outs, m, hrun, hsound, hsteps⟩ :=
    Bag.simulate (fun m op hm hpop => Sound.call hm op hpop) ops sound_empty hpops
  refine ⟨outs, m, hrun, ?_, ?_, ?_, ?_⟩
  · have hzero : (empty : HashMap V size).bag = 0 := by rw [bag, entries_empty]; rfl
    rw [hzero] at hsteps
    exact hsteps
  · intro i e he
    rw [← hsound.placed i e he]
    rfl
  · intro hfits
    have hcount := hsound.counted
    rw [bag, Multiset.coe_card] at hcount
    rw [hcount]
    exact Int32.toInt_ofNat_of_lt hfits
  · intro key
    rw [hsound.contains_iff key, List.mem_map]
    rfl

/-- Three entries in one bucket, two of them under one key. -/
theorem calls_refine_bag_colliding :
    ∃ outs m, Bag.run call (empty : HashMap Bool 2)
        [.insert 1 true, .insert 3 false, .insert 1 false, .delete 1, .pop] = some (outs, m) ∧
      Bag.Steps 0 [.insert 1 true, .insert 3 false, .insert 1 false, .delete 1, .pop] outs
        (↑m.entries : Multiset (UInt64 × Bool)) ∧
      (m.entries.length < 2 ^ 31 → m.count.toInt = m.entries.length) := by
  have hpops : Bag.PopsFind call bag (empty : HashMap Bool 2)
      [.insert 1 true, .insert 3 false, .insert 1 false, .delete 1, .pop] := by
    refine ⟨nofun, ?_⟩
    rintro _ ⟨⟩
    refine ⟨nofun, ?_⟩
    rintro _ ⟨⟩
    refine ⟨nofun, ?_⟩
    rintro _ ⟨⟩
    refine ⟨nofun, ?_⟩
    rintro _ ⟨⟩
    refine ⟨fun _ => ?_, fun _ _ => trivial⟩
    rw [bag, ne_eq, Multiset.coe_eq_zero]
    decide
  obtain ⟨outs, m, hrun, hsteps, -, hcount, -⟩ := calls_refine_bag _ hpops
  exact ⟨outs, m, hrun, hsteps, hcount⟩

end Kvaccel.Ref.HashMap
