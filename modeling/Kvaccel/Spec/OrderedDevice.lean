import Kvaccel.Spec.KvDevice
import Kvaccel.Spec.Merged

/-!
# A device that scans in key order

The composite iterator seeks to a key and needs the records in the order in
which Main-LSM has its own. An `OrderedDevice` answers a scan from a four-byte
key with the records from that key on, in order. One of them is the list device
with its records sorted before they are sent.
-/

namespace Kvaccel.Spec

open Kvaccel.Lib Kvaccel.Ref

structure OrderedDevice (σ : Type) extends KvDevice σ where
  servesFrom : ∀ d puts table iterId key, (mem d).map = lastPut puts → (∀ r ∈ puts, Fitting r) →
    Lists (lastPut puts) table → key.length = 4 → fromKey Before key table ≠ [] →
    ∃ bs, Serves exec iterId (word key) bs d ∧ bs.flatten = fromKey Before key table

/-! ## In order -/

/-- The order of the records by their keys. -/
def NotAfter (a b : Record) : Prop := ¬ Before b.1 a.1

instance : DecidableRel NotAfter := fun _ _ => inferInstanceAs (Decidable (¬ _))

instance : Std.Total NotAfter where
  total a b := by
    by_cases h : Before b.1 a.1
    · exact Or.inr fun h' => asymm_of Before h h'
    · exact Or.inl h

instance : IsTrans Record NotAfter where
  trans a b c hab hbc hca := by
    rcases trichotomous_of Before b.1 a.1 with h | h | h
    · exact hab h
    · rw [← h] at hca
      exact hbc hca
    · exact hbc (trans_of Before hca h)

/-- No four-byte key is below that of the word 0. -/
theorem not_before_zero {k : Key} (h : k.length = 4) : ¬ Before k (le32 0) := by
  have hzeros : ∀ (n : Nat) (k : Key), k.length = n → ¬ Before k (List.replicate n 0) := by
    intro n
    induction n with
    | zero => exact fun k _ => not_before_nil k
    | succ n ih =>
        intro k hk
        obtain ⟨a, k, rfl⟩ := List.exists_cons_of_length_eq_add_one hk
        rw [List.replicate_succ, before_cons]
        rintro (hlt | ⟨_, htail⟩)
        · exact Nat.not_lt_zero _ hlt
        · exact ih k (Nat.succ.inj hk) htail
  exact hzeros 4 k h

namespace ListDevice

def sortedRecords (table : List (Key × Value)) : List Record :=
  (records table).insertionSort NotAfter

theorem mem_sortedRecords {table : List (Key × Value)} {r : Record} :
    r ∈ sortedRecords table ↔ lastPut table r.1 = some r.2 := by
  rw [sortedRecords, List.mem_insertionSort, mem_records]

theorem nodup_sortedRecords (table : List (Key × Value)) :
    ((sortedRecords table).map Prod.fst).Nodup :=
  ((List.perm_insertionSort NotAfter (records table)).map Prod.fst).nodup_iff.mpr
    (nodup_records table)

theorem ascending_sortedRecords (table : List (Key × Value)) :
    Ascending Before (sortedRecords table) := by
  have hsorted := List.pairwise_insertionSort NotAfter (records table)
  have hnodup := List.pairwise_map.mp (nodup_sortedRecords table)
  refine (hsorted.and hnodup).imp fun {a b} hab => ?_
  rcases trichotomous_of Before a.1 b.1 with h | h | h
  · exact h
  · exact absurd h hab.2
  · exact absurd h hab.1

/-- Every list of puts has its table. -/
theorem lists_sortedRecords {puts : List (Key × Value)} (hfit : ∀ r ∈ puts, Fitting r) :
    Lists (lastPut puts) (sortedRecords puts) where
  ascending := ascending_sortedRecords puts
  records k v := (mem_sortedRecords (r := (k, v))).symm
  four r hr := (hfit r (DB.mem_of_lastPut (mem_sortedRecords.mp hr))).1.1

/-- There is one table of a map in key order. -/
theorem sortedRecords_eq {d : ListDevice} {puts table : List (Key × Value)}
    (hmap : d.mem.map = lastPut puts) (h : Lists (lastPut puts) table) :
    sortedRecords d.table = table := by
  have hasc := ascending_sortedRecords d.table
  have hirrefl : Std.Irrefl fun a b : Record => Before a.1 b.1 := ⟨fun a => irrefl_of Before a.1⟩
  refine List.Pairwise.eq_of_mem_iff (r := fun a b : Record => Before a.1 b.1) hasc h.ascending
    fun r => ?_
  rw [mem_sortedRecords, ← h.records r.1 r.2, ← hmap]
  rfl

theorem fitting_sortedRecords {d : ListDevice} {puts : List (Key × Value)}
    (hmap : d.mem.map = lastPut puts) (hfit : ∀ r ∈ puts, Fitting r) :
    ∀ r ∈ sortedRecords d.table, Fitting r := by
  intro r hr
  refine hfit r (DB.mem_of_lastPut ?_)
  rw [← hmap]
  exact mem_sortedRecords.mp hr

theorem sortedRecords_ne_nil {d : ListDevice} {puts : List (Key × Value)}
    (hmap : d.mem.map = lastPut puts) (hne : puts ≠ []) : sortedRecords d.table ≠ [] := by
  obtain ⟨r, hr⟩ := List.exists_mem_of_ne_nil _ (records_ne_nil hmap hne)
  exact List.ne_nil_of_mem ((List.mem_insertionSort NotAfter).mpr hr)

/-- As `exec`, but a scan starts at its key and goes up. -/
def execSorted : Device ListDevice := fun cmd d =>
  match cmd.opcode with
  | .kvRangeScanSeek =>
      let rs := fromKey Before (le32 cmd.cdw10) (sortedRecords d.table)
      (reply rs, { d with cursor := rs.tail })
  | _ => exec cmd d

theorem execSorted_eq {cmd : NvmeCmd} (d : ListDevice) (h : cmd.opcode ≠ .kvRangeScanSeek) :
    execSorted cmd d = exec cmd d := by
  unfold execSorted
  split
  · exact absurd ‹_› h
  · rfl

theorem feeds_execSorted (iterId : Nat) : ∀ (bs : List (List Record)) (brk : Nat) (d : ListDevice),
    Feeds exec iterId bs brk d → Feeds execSorted iterId bs brk d := by
  intro bs
  induction bs with
  | nil => intro brk d h; exact h
  | cons b rest ih =>
      intro brk d h
      obtain ⟨hbrk, hanswers, hrest⟩ := h
      have hcmd : execSorted (scanCmd .kvRangeScanNext brk iterId) d =
          exec (scanCmd .kvRangeScanNext brk iterId) d :=
        execSorted_eq d (by simp [scanCmd])
      refine ⟨hbrk, ⟨?_, hanswers.some, ?_⟩, ?_⟩
      · rw [hcmd]
        exact hanswers.ok
      · rw [hcmd]
        exact hanswers.layout
      · rw [hcmd]
        exact ih _ _ hrest

/-- One record a reply, from the key on. -/
theorem serves_execSorted (d : ListDevice) (iterId start : Nat)
    (hne : fromKey Before (le32 start) (sortedRecords d.table) ≠ [])
    (hfit : ∀ r ∈ sortedRecords d.table, Fitting r) :
    Serves execSorted iterId start
      ((fromKey Before (le32 start) (sortedRecords d.table)).map fun r => [r]) d := by
  obtain ⟨r, rs, hrs⟩ := List.exists_cons_of_ne_nil hne
  have hfrom : ∀ r' ∈ r :: rs, Fitting r' := by
    intro r' hr'
    rw [← hrs, mem_fromKey (ascending_sortedRecords d.table)] at hr'
    exact hfit r' hr'.1
  have hcmd : execSorted (scanCmd .kvRangeScanSeek start iterId) d =
      (reply (r :: rs), { d with cursor := rs }) := by
    show (reply (fromKey Before (le32 start) (sortedRecords d.table)),
      ({ d with cursor := (fromKey Before (le32 start) (sortedRecords d.table)).tail } :
        ListDevice)) = _
    rw [hrs]
    rfl
  rw [hrs, List.map_cons]
  refine ⟨⟨?_, by simp, ?_⟩, ?_⟩
  · rw [hcmd]
    rfl
  · rw [hcmd]
    exact layout_of_fits (fits_singleton (hfrom r List.mem_cons_self))
  · rw [hcmd]
    exact feeds_execSorted iterId _ _ _
      (feeds iterId rs _ rfl fun r' hr' => hfrom r' (List.mem_cons_of_mem _ hr'))

end ListDevice

def orderedDevice : OrderedDevice ListDevice where
  exec := ListDevice.execSorted
  mem := ListDevice.mem
  acts := by
    intro cmd d
    by_cases hop : cmd.opcode = .kvRangeScanSeek
    · simp only [ListDevice.execSorted, MapDevice.exec, hop]
      rfl
    · rw [ListDevice.execSorted_eq d hop, ListDevice.mem_exec]
  ok := by
    intro cmd d h
    rw [ListDevice.execSorted_eq d (by rcases h with h | h <;> simp [h])]
    exact listDevice.ok cmd d h
  get := by
    intro cmd d h
    rw [ListDevice.execSorted_eq d (by simp [h])]
    exact listDevice.get cmd d h
  serves := by
    intro d puts iterId hmap hne hfit
    have hsorted := ListDevice.fitting_sortedRecords hmap hfit
    -- No four-byte key is below that of the word 0.
    have hall : fromKey Before (le32 0) (ListDevice.sortedRecords d.table) =
        ListDevice.sortedRecords d.table := by
      refine List.dropWhile_eq_self_iff.mpr fun hpos => ?_
      have hfour := (hsorted _ (List.getElem_mem hpos)).1.1
      exact fun h => not_before_zero hfour (of_decide_eq_true h)
    have hserves := d.serves_execSorted iterId 0
    rw [hall] at hserves
    refine ⟨_, hserves (ListDevice.sortedRecords_ne_nil hmap hne) hsorted, ?_, ?_⟩
    · intro r
      rw [flatten_singletons, ListDevice.mem_sortedRecords, ← hmap]
      rfl
    · rw [flatten_singletons]
      exact ListDevice.nodup_sortedRecords d.table
  servesFrom := by
    intro d puts table iterId key hmap hfit hlists hkey hne
    have hserves := d.serves_execSorted iterId (word key)
    rw [le32_word hkey, ListDevice.sortedRecords_eq hmap hlists] at hserves
    refine ⟨_, hserves hne fun r hr => ?_, ?_⟩
    · exact hfit r (DB.mem_of_lastPut ((hlists.records r.1 r.2).mpr hr))
    · exact flatten_singletons _

theorem pairs_orderedDevice : orderedDevice.Pairs := by
  intro d puts iterId start bs hmap hfit h
  by_cases hne : fromKey Before (le32 start) (ListDevice.sortedRecords d.table) = []
  · cases bs with
    | nil => exact h.elim
    | cons b rest =>
        have hok : (ListDevice.reply
            (fromKey Before (le32 start) (ListDevice.sortedRecords d.table))).err = 0 := h.1.ok
        rw [hne] at hok
        cases hok
  · rw [h.unique (d.serves_execSorted iterId start hne
      (ListDevice.fitting_sortedRecords hmap hfit)), handed_singletons, flatten_singletons]

end Kvaccel.Spec
