import Kvaccel.Spec.Store

/-!
# What the routing layer's calls do

A get has three branches that differ in locking only; `get_eq` folds them
into one lookup. The rest of the file is the rollback pass.

The loop of `Rollback_Consumer` reads one record per iteration and stops on
the scan's end. Over an ideal scan that makes it a walk along the record
list: `migrateAll` is the walk without the measurements, which touch only the
level, and `rollbackLoop_eq` says the loop is that walk followed by the reset,
on any fuel that covers the list.

What the walk does to the tracker and to Main-LSM is then an induction over
the records. The keys of a map are distinct and their hashes differ, so an
entry deleted for one record is never the entry another record is looked up
by: the keys written are exactly those tracked when the pass began, each once.
-/

namespace Kvaccel.Ref

open Kvaccel.Lib Kvaccel.Spec

/-! ## The records of a finite map -/

namespace DevMap

theorem mem_records {d : DevMap} {k : Key} {v : Value} :
    (k, v) ∈ d.records ↔ d.lookup k = some v := by
  rw [← Option.mem_def, AList.mem_lookup_iff, records, List.mem_map]
  constructor
  · rintro ⟨⟨k', v'⟩, hmem, heq⟩
    simp only [Prod.mk.injEq] at heq
    obtain ⟨rfl, rfl⟩ := heq
    exact hmem
  · intro hmem
    exact ⟨⟨k, v⟩, hmem, rfl⟩

theorem nodup_records (d : DevMap) : (d.records.map Prod.fst).Nodup := by
  have h := d.nodupKeys
  rw [List.NodupKeys, List.keys] at h
  rw [records, List.map_map]
  exact h

/-- Whatever order is asked for, the scan delivers the records. -/
theorem scanOrder_perm (d : DevMap) (order : List (Key × Value)) :
    (d.scanOrder order).Perm d.records := by
  unfold scanOrder
  split
  · assumption
  · exact List.Perm.refl _

theorem mem_scanOrder {d : DevMap} {order : List (Key × Value)} {k : Key}
    {v : Value} : (k, v) ∈ d.scanOrder order ↔ d.lookup k = some v := by
  rw [(scanOrder_perm d order).mem_iff, mem_records]

theorem nodup_scanOrder (d : DevMap) (order : List (Key × Value)) :
    ((d.scanOrder order).map Prod.fst).Nodup :=
  ((scanOrder_perm d order).map _).nodup_iff.mpr (nodup_records d)

theorem mem_keys_scanOrder {d : DevMap} {order : List (Key × Value)} {k : Key} :
    k ∈ (d.scanOrder order).map Prod.fst ↔ (d.lookup k).isSome := by
  rw [List.mem_map, Option.isSome_iff_exists]
  constructor
  · rintro ⟨⟨k', v⟩, hmem, rfl⟩
    exact ⟨v, mem_scanOrder.mp hmem⟩
  · rintro ⟨v, hv⟩
    exact ⟨(k, v), mem_scanOrder.mpr hv, rfl⟩

end DevMap

namespace Master

variable {murmur : Murmur}

/-- The keys a step names. -/
def Op.keys : Op → List Key
  | .put k _ | .get k => [k]
  | _ => []

/-! ## The get -/

/-- Where a key is looked up while Dev-LSM is in use. -/
def view (murmur : Murmur) (s : Master) (k : Key) : Option Value :=
  if s.keyTracker.contains (doubleHash murmur k 1) then
    s.dev.lookup (firstFour k)
  else s.main k

theorem mainGet_report (s : Master) (k : Key) :
    (if (s.mainGet k).1 = .ok then (Status.ok, some (s.mainGet k).2)
      else (Status.notFound, none)) = report (s.main k) := by
  unfold mainGet
  cases s.main k with
  | some v => rfl
  | none => rfl

theorem ilsmGet_report (s : Master) (k : Key) :
    (if (s.ilsmGet k).1 ≥ 0 then (Status.ok, some (s.ilsmGet k).2)
      else (Status.notFound, none)) = report (s.dev.lookup (firstFour k)) := by
  unfold ilsmGet
  cases s.dev.lookup (firstFour k) with
  | some v => simp [report]
  | none => simp [report]

/-- The three branches of `Get` are one: Main-LSM under flag 0, else the
store the tracker selects. -/
theorem get_eq (s : Master) (k : Key) :
    s.get murmur k =
      report (if s.kacheFlag = 0 then s.main k else view murmur s k) := by
  unfold Master.get view
  simp only [mainGet_report, ilsmGet_report]
  split
  · rfl
  · split <;> split <;> rfl

/-! ## The rollback loop -/

/-- The records of a pass migrated in order, with the Main-LSM writes made. -/
def migrateAll (murmur : Murmur) :
    List (Key × Value) → Master → List (Key × Value) × Master
  | [], s => ([], s)
  | (k, v) :: rest, s =>
      let r := migrate murmur s k v
      let r' := migrateAll murmur rest r.2
      (r.1 ++ r'.1, r'.2)

theorem migrate_monitor (s : Master) (m : Level × Int) (k : Key) (v : Value) :
    migrate murmur (s.monitor m) k v =
      ((migrate murmur s k v).1, (migrate murmur s k v).2.monitor m) := by
  unfold migrate monitor mainPut
  split <;> rfl

theorem migrateAll_monitor (m : Level × Int) :
    ∀ (l : List (Key × Value)) (s : Master),
      migrateAll murmur l (s.monitor m) =
        ((migrateAll murmur l s).1, (migrateAll murmur l s).2.monitor m) := by
  intro l
  induction l with
  | nil => intro s; rfl
  | cons r rest ih =>
      intro s
      simp only [migrateAll, migrate_monitor, ih]

/-- Past the seek the loop is the walk over what the iterator has left, then
the reset. The measurements only leave the last level behind. -/
theorem rollbackLoop_next (murmur : Murmur) (order : List (Key × Value))
    (measure : Nat → Level × Int) :
    ∀ (l : List (Key × Value)) (fuel i : Nat) (p : Pass) (s : Master),
      0 ≤ p.flag → p.cursor = l → l.length < fuel →
      ∃ m, rollbackLoop murmur order measure fuel i p s =
        some ((migrateAll murmur l s).1,
          ((migrateAll murmur l s).2.monitor m).finishPass) := by
  intro l
  induction l with
  | nil =>
      intro fuel i p s hflag hcur hfuel
      obtain ⟨f, rfl⟩ : ∃ f, fuel = f + 1 := ⟨fuel - 1, by omega⟩
      refine ⟨(s.level, s.rollbackStatus), ?_⟩
      rw [rollbackLoop, if_neg (by omega)]
      simp [nextScan, hcur, migrateAll, monitor, finishPass]
  | cons r rest ih =>
      intro fuel i p s hflag hcur hfuel
      obtain ⟨f, rfl⟩ : ∃ f, fuel = f + 1 := ⟨fuel - 1, by omega⟩
      obtain ⟨k, v⟩ := r
      have hnext : nextScan p =
          { flag := 1, key := k, value := v, cursor := rest } := by
        rw [nextScan, hcur]
      rw [rollbackLoop, if_neg (by omega), hnext]
      simp only [List.length_cons] at hfuel
      obtain ⟨m, hm⟩ := ih f (i + 1)
        { flag := 1, key := k, value := v, cursor := rest }
        ((migrate murmur s k v).2.monitor (measure i))
        (by simp) rfl (by omega)
      refine ⟨m, ?_⟩
      simp only [hm, migrateAll_monitor, migrateAll]
      simp [monitor]

/-- A pass over a non-empty scan order, on the fuel a pass is given. -/
theorem rollbackLoop_eq (murmur : Murmur) {order : List (Key × Value)}
    (measure : Nat → Level × Int) (fuel : Nat) (p : Pass) (s : Master)
    (hne : order ≠ []) (hflag : p.flag < 0) (hfuel : order.length < fuel) :
    ∃ m, rollbackLoop murmur order measure fuel 0 p s =
      some ((migrateAll murmur order s).1,
        ((migrateAll murmur order s).2.monitor m).finishPass) := by
  obtain ⟨f, rfl⟩ : ∃ f, fuel = f + 1 := ⟨fuel - 1, by omega⟩
  obtain ⟨⟨k, v⟩, rest, rfl⟩ : ∃ r rest, order = r :: rest :=
    List.exists_cons_of_ne_nil hne
  rw [rollbackLoop, if_pos hflag, seekScan]
  simp only [List.length_cons] at hfuel
  obtain ⟨m, hm⟩ := rollbackLoop_next murmur ((k, v) :: rest)
    measure rest f 1 { flag := 1, key := k, value := v, cursor := rest }
    ((migrate murmur s k v).2.monitor (measure 0)) (by simp) rfl (by omega)
  refine ⟨m, ?_⟩
  simp only [Nat.zero_add, hm, migrateAll_monitor, migrateAll]
  simp [monitor]

/-! ## The walk -/

theorem migrate_countOf (murmur : Murmur) (s : Master) (k : Key) (v : Value) (h : UInt64) :
    (migrate murmur s k v).2.keyTracker.countOf h =
      s.keyTracker.countOf h - if doubleHash murmur k 1 = h then 1 else 0 := by
  unfold migrate
  split
  · exact HashMap.countOf_delete _ _ _
  · rename_i hno
    rw [Bool.not_eq_true, HashMap.contains_eq_false_iff] at hno
    show s.keyTracker.countOf h = _
    split
    · rename_i heq
      rw [← heq]
      omega
    · omega

/-- A key with another hash is looked up the same after the migration. -/
theorem migrate_contains_ne {s : Master} {k : Key} {v : Value} {h : UInt64}
    (hne : doubleHash murmur k 1 ≠ h) :
    (migrate murmur s k v).2.keyTracker.contains h =
      s.keyTracker.contains h := by
  have hcount := migrate_countOf murmur s k v h
  rw [if_neg hne, Nat.sub_zero] at hcount
  rw [Bool.eq_iff_iff, HashMap.contains_iff, HashMap.contains_iff, hcount]

/-- The pass writes the records whose key is tracked when it begins: each
once, in scan order, with the record's value. -/
theorem migrateAll_writes (murmur : Murmur) : ∀ (l : List (Key × Value)) (s : Master),
    (l.map Prod.fst).Nodup →
    (∀ a ∈ l.map Prod.fst, ∀ b ∈ l.map Prod.fst,
      doubleHash murmur a 1 = doubleHash murmur b 1 → a = b) →
    (migrateAll murmur l s).1 =
      l.filter fun r => s.keyTracker.contains (doubleHash murmur r.1 1) := by
  intro l
  induction l with
  | nil => intro s _ _; rfl
  | cons r rest ih =>
      intro s hnodup hinj
      obtain ⟨k, v⟩ := r
      simp only [List.map_cons, List.nodup_cons] at hnodup
      simp only [List.map_cons] at hinj
      rw [migrateAll, List.filter_cons]
      have hrest := ih (migrate murmur s k v).2 hnodup.2
        fun a ha b hb => hinj a (List.mem_cons_of_mem _ ha) b
          (List.mem_cons_of_mem _ hb)
      have hsame : rest.filter (fun r => (migrate murmur s k v).2.keyTracker.contains
            (doubleHash murmur r.1 1)) =
          rest.filter fun r => s.keyTracker.contains (doubleHash murmur r.1 1) := by
        refine List.filter_congr fun r hr => ?_
        have hmem : r.1 ∈ rest.map Prod.fst := List.mem_map_of_mem hr
        refine migrate_contains_ne fun heq => hnodup.1 ?_
        rw [hinj k List.mem_cons_self r.1 (List.mem_cons_of_mem _ hmem) heq]
        exact hmem
      simp only [hrest, hsame]
      cases hc : s.keyTracker.contains (doubleHash murmur k 1) with
      | true => simp [migrate, hc]
      | false => simp [migrate, hc]

/-- Main-LSM after the walk: the last write of a key, or what it held. -/
theorem migrateAll_main_of_notMem : ∀ (l : List (Key × Value)) (s : Master)
    {k : Key}, k ∉ (migrateAll murmur l s).1.map Prod.fst →
    (migrateAll murmur l s).2.main k = s.main k := by
  intro l
  induction l with
  | nil => intro s k _; rfl
  | cons r rest ih =>
      intro s k hk
      obtain ⟨k', v⟩ := r
      simp only [migrateAll, List.map_append, List.mem_append, not_or] at hk ⊢
      rw [ih _ hk.2]
      obtain ⟨hk1, _⟩ := hk
      unfold migrate at hk1 ⊢
      split
      · rename_i hc
        rw [if_pos hc] at hk1
        have hne : k ≠ k' := by simpa using hk1
        simp [mainPut, hne]
      · rfl

/-- Only scanned keys are written. -/
theorem migrateAll_writes_sub : ∀ (l : List (Key × Value)) (s : Master)
    {k : Key}, k ∈ (migrateAll murmur l s).1.map Prod.fst → k ∈ l.map Prod.fst := by
  intro l
  induction l with
  | nil => intro s k h; exact h
  | cons r rest ih =>
      intro s k h
      obtain ⟨k', v⟩ := r
      simp only [migrateAll, List.map_append, List.mem_append] at h
      rcases h with h | h
      · unfold migrate at h
        split at h <;> simp_all
      · exact List.mem_cons_of_mem _ (ih _ h)

theorem migrateAll_main_of_mem : ∀ (l : List (Key × Value)) (s : Master)
    {k : Key} {v : Value}, (l.map Prod.fst).Nodup →
    (k, v) ∈ (migrateAll murmur l s).1 →
    (migrateAll murmur l s).2.main k = some v := by
  intro l
  induction l with
  | nil => intro s k v _ h; cases h
  | cons r rest ih =>
      intro s k v hnodup h
      obtain ⟨k', v'⟩ := r
      simp only [List.map_cons, List.nodup_cons] at hnodup
      simp only [migrateAll, List.mem_append] at h ⊢
      rcases h with h | h
      · -- The write of this record: no later record has its key.
        unfold migrate at h
        split at h
        · rename_i hc
          simp only [List.mem_singleton, Prod.mk.injEq] at h
          obtain ⟨rfl, rfl⟩ := h
          rw [migrateAll_main_of_notMem]
          · simp [migrate, hc, mainPut]
          · exact fun hmem => hnodup.1 (migrateAll_writes_sub rest _ hmem)
        · cases h
      · exact ih _ hnodup.2 h

/-! ## The pass -/

/-- A pass that runs: it returns, its writes are the tracked records of the
scan, it leaves Dev-LSM, the tracker and both flags cleared, and Main-LSM
differs at the written keys only. -/
structure PassDone (murmur : Murmur) (s : Master)
    (order : List (Key × Value)) (w : List (Key × Value)) (s' : Master) : Prop where
  writes : w = (s.dev.scanOrder order).filter fun r =>
    s.keyTracker.contains (doubleHash murmur r.1 1)
  dev : s'.dev = ∅
  keyTracker : ∀ h, s'.keyTracker.countOf h = 0
  kacheFlag : s'.kacheFlag = 0
  rollbackFlag : s'.rollbackFlag = 0
  main_of_mem : ∀ k v, (k, v) ∈ w → s'.main k = some v
  main_of_notMem : ∀ k, k ∉ w.map Prod.fst → s'.main k = s.main k

/-- The pass writes the records of the tracked keys. -/
theorem PassDone.mem_writes {s s' : Master} {order w : List (Key × Value)}
    (h : PassDone murmur s order w s') {k : Key} {v : Value} :
    (k, v) ∈ w ↔ s.dev.lookup k = some v ∧
      s.keyTracker.contains (doubleHash murmur k 1) = true := by
  rw [h.writes, List.mem_filter, DevMap.mem_scanOrder]

/-- It writes each of them once. -/
theorem PassDone.nodup_writes {s s' : Master} {order w : List (Key × Value)}
    (h : PassDone murmur s order w s') : (w.map Prod.fst).Nodup := by
  rw [h.writes]
  exact (DevMap.nodup_scanOrder s.dev order).sublist (List.filter_sublist.map _)

theorem rollbackConsumer_spec (murmur : Murmur) {s : Master} (order : List (Key × Value))
    (measure : Nat → Level × Int)
    (hguard : s.rollbackStatus ≤ 26 ∧ s.kacheFlag = 1)
    (hne : s.dev.records ≠ [])
    (hinj : ∀ a b, (s.dev.lookup a).isSome → (s.dev.lookup b).isSome →
      doubleHash murmur a 1 = doubleHash murmur b 1 → a = b) :
    ∃ w s', s.rollbackConsumer murmur order measure = some (w, s') ∧
      PassDone murmur s order w s' := by
  have hperm := DevMap.scanOrder_perm s.dev order
  have hord : s.dev.scanOrder order ≠ [] := fun h => hne (by
    rw [h] at hperm
    exact hperm.symm.eq_nil)
  have hnodup := DevMap.nodup_scanOrder s.dev order
  have hwrites := migrateAll_writes murmur (s.dev.scanOrder order)
    { s with rollbackFlag := 1 } hnodup fun a ha b hb =>
      hinj a b (DevMap.mem_keys_scanOrder.mp ha) (DevMap.mem_keys_scanOrder.mp hb)
  obtain ⟨m, hm⟩ := rollbackLoop_eq murmur measure s.rollbackFuel
    { flag := -2, key := [], value := [], cursor := [] }
    { s with rollbackFlag := 1 } hord (by simp)
    (by rw [rollbackFuel, hperm.length_eq]; omega)
  refine ⟨_, _, by rw [rollbackConsumer, if_pos hguard, hm], hwrites, rfl,
    fun h => HashMap.countOf_clear _ h, rfl, rfl, ?_, ?_⟩
  · intro k v hkv
    exact migrateAll_main_of_mem _ _ hnodup hkv
  · intro k hk
    exact migrateAll_main_of_notMem _ _ hk

theorem rollbackConsumer_skip {s : Master} (order : List (Key × Value))
    (measure : Nat → Level × Int)
    (hguard : ¬ (s.rollbackStatus ≤ 26 ∧ s.kacheFlag = 1)) :
    s.rollbackConsumer murmur order measure = some ([], s) := by
  rw [rollbackConsumer, if_neg hguard]

end Master

end Kvaccel.Ref
