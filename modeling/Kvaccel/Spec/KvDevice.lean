import Mathlib.Data.List.Dedup
import Kvaccel.Proofs.HostBuffer
import Kvaccel.Proofs.ScanOrder

/-!
# A device that stores and scans

`MapDevice` says what the flush commands and the gets mean, and puts up with a
scan without answering it; `Serves` says what a scan is promised, of a device
that stores nothing. A `KvDevice` does both. Its states may be anything: `mem`
is what it has stored, and every command acts on that as it does on the map.
The records of a scan are those of the map, each once, in any order and in
replies of any number of records.

What the host makes of the replies is another matter. It takes the values of a
reply from the back, so it has every value with its own key exactly if the
values of each reply read the same backwards (`handed_eq_iff`). `Pairs` says
that they do, for the results that need it. One record a reply will do, and
`listDevice` does that.
-/

namespace Kvaccel.Spec

open Kvaccel.Lib Kvaccel.Ref

/-- A put whose value takes two pages at most, so that any 128 of them fit the
value log. -/
def Fitting (r : Key × Value) : Prop := DB.Plain r ∧ r.2.length ≤ 2 * 4096

instance (r : Key × Value) : Decidable (Fitting r) :=
  inferInstanceAs (Decidable
    ((r.1.length = 4 ∧ r.2 ≠ [] ∧ (0 : UInt8) ∉ r.2) ∧ r.2.length ≤ 2 * 4096))

/-- A reply holds such a value. -/
theorem Fitting.length_le {r : Key × Value} (h : Fitting r) : r.2.length ≤ maxBufLen :=
  le_trans h.2 (by decide)

/-- The records of the map are in these replies. -/
structure Enumerates (bs : List (List Record)) (m : Key → Option Value) : Prop where
  all : ∀ r, r ∈ bs.flatten ↔ m r.1 = some r.2
  once : (bs.flatten.map Prod.fst).Nodup

structure KvDevice (σ : Type) where
  exec : Device σ
  mem : σ → MapDevice
  acts : ∀ cmd d, mem (exec cmd d).2 = (MapDevice.exec cmd (mem d)).2
  /-- The flushes succeed. -/
  ok : ∀ cmd d, cmd.opcode = .vFlush ∨ cmd.opcode = .kvFlush → (exec cmd d).1.err = 0
  /-- A get is answered from the map, and leaves nothing behind. -/
  get : ∀ cmd d, cmd.opcode = .kvGet →
    (exec cmd d).1 = (MapDevice.exec cmd (mem d)).1 ∧ (exec cmd d).2 = d
  /-- A scan from the start, under any iterator id. -/
  serves : ∀ d puts iterId, (mem d).map = lastPut puts → puts ≠ [] →
    (∀ r ∈ puts, Fitting r) →
    ∃ bs, Serves exec iterId 0 bs d ∧ Enumerates bs (lastPut puts)

/-- A scan of records that the driver has put is answered in replies from which
the host takes every value with its own key. -/
def KvDevice.Pairs {σ : Type} (K : KvDevice σ) : Prop :=
  ∀ d puts iterId start bs, (K.mem d).map = lastPut puts → (∀ r ∈ puts, Fitting r) →
    Serves K.exec iterId start bs d → DB.handed bs = bs.flatten

/-! ## A scan has one answer -/

section Unique

variable {σ : Type} {exec : Device σ} {iterId : Nat}

theorem Layout.unique {data : Mem} {b b' : List Record} (h : Layout data b)
    (h' : Layout data b') : b = b' := by
  have heq := (decodeReply_eq h).symm.trans (decodeReply_eq h')
  rw [Prod.mk.injEq] at heq
  exact (List.zip_of_prod heq.1 heq.2).trans (List.zip_of_prod rfl rfl).symm

theorem Feeds.unique : ∀ {bs bs' : List (List Record)} {brk : Nat} {d : σ},
    Feeds exec iterId bs brk d → Feeds exec iterId bs' brk d → bs = bs' := by
  intro bs
  induction bs with
  | nil =>
      intro bs' brk d h h'
      cases bs' with
      | nil => rfl
      | cons b' rest' => exact absurd h h'.1
  | cons b rest ih =>
      intro bs' brk d h h'
      cases bs' with
      | nil => exact absurd h' h.1
      | cons b' rest' => rw [h.2.1.layout.unique h'.2.1.layout, ih h.2.2 h'.2.2]

theorem Serves.unique {start : Nat} {bs bs' : List (List Record)} {d : σ}
    (h : Serves exec iterId start bs d) (h' : Serves exec iterId start bs' d) : bs = bs' := by
  cases bs with
  | nil => exact h.elim
  | cons b rest =>
      cases bs' with
      | nil => exact h'.elim
      | cons b' rest' => rw [h.1.layout.unique h'.1.layout, h.2.unique h'.2]

end Unique

/-! ## One of them -/

/-- A reply of one record hands out that record. -/
theorem handed_singletons (rs : List Record) : DB.handed (rs.map fun r => [r]) = rs := by
  induction rs with
  | nil => rfl
  | cons r rs ih => exact congrArg (r :: ·) ih

theorem flatten_singletons (rs : List Record) : (rs.map fun r => [r]).flatten = rs :=
  List.flatMap_singleton' rs

/-- The records applied, in order, and those that the scan has not reached. -/
structure ListDevice where
  log : Mem
  logLen : Nat
  table : List (Key × Value)
  cursor : List Record

namespace ListDevice

def empty : ListDevice where
  log := fun _ => 0
  logLen := 0
  table := []
  cursor := []

def mem (d : ListDevice) : MapDevice where
  log := d.log
  logLen := d.logLen
  map := lastPut d.table

/-- Each key with its last value. -/
def records (table : List (Key × Value)) : List Record :=
  (table.map Prod.fst).dedup.filterMap fun k => (lastPut table k).map fun v => (k, v)

def reply : List Record → IoResult
  | [] => { err := 0x7C1, result := 0, data := fun _ => 0 }
  | r :: rs =>
      { err := 0, result := if rs = [] then noNextKey else 0, data := encodeReply [r] }

def exec : Device ListDevice := fun cmd d =>
  match cmd.opcode with
  | .vFlush =>
      let r := MapDevice.exec cmd d.mem
      (r.1, { d with log := r.2.log, logLen := r.2.logLen })
  | .kvFlush =>
      ((MapDevice.exec cmd d.mem).1, { d with
        table := d.table ++ d.mem.recordsOf (parseTable cmd.data (cmd.cdw13 / 12)) })
  | .kvReset => ((MapDevice.exec cmd d.mem).1, { d with table := [], cursor := [] })
  | .kvRangeScanSeek => (reply (records d.table), { d with cursor := (records d.table).tail })
  | .kvRangeScanNext => (reply d.cursor, { d with cursor := d.cursor.tail })
  | _ => ((MapDevice.exec cmd d.mem).1, d)

theorem mem_exec (cmd : NvmeCmd) (d : ListDevice) :
    (exec cmd d).2.mem = (MapDevice.exec cmd d.mem).2 := by
  unfold exec MapDevice.exec
  cases cmd.opcode with
  | kvFlush =>
      simp only [mem, MapDevice.mk.injEq, true_and]
      exact DB.applied_append _ _ _
  | kvGet =>
      simp only []
      split <;> rfl
  | _ => rfl

theorem mem_records {table : List (Key × Value)} {r : Record} :
    r ∈ records table ↔ lastPut table r.1 = some r.2 := by
  rw [records, List.mem_filterMap]
  constructor
  · rintro ⟨k, _, hr⟩
    obtain ⟨v, hv, rfl⟩ := Option.map_eq_some_iff.mp hr
    exact hv
  · intro hr
    refine ⟨r.1, List.mem_dedup.mpr ?_, by rw [hr]; rfl⟩
    exact List.mem_map_of_mem (DB.mem_of_lastPut hr)

/-- Where something has been put there is a record. -/
theorem records_ne_nil {d : ListDevice} {puts : List (Key × Value)}
    (hmap : d.mem.map = lastPut puts) (hne : puts ≠ []) : records d.table ≠ [] := by
  obtain ⟨l, r, rfl⟩ := List.eq_nil_or_concat puts |>.resolve_left hne
  have hlast : lastPut d.table r.1 = some r.2 := by
    show d.mem.map r.1 = some r.2
    rw [hmap, List.concat_eq_append, DB.lastPut_append]
    simp [lastPut, applied]
  exact List.ne_nil_of_mem (mem_records.mpr hlast)

theorem nodup_records (table : List (Key × Value)) : ((records table).map Prod.fst).Nodup := by
  refine List.Nodup.sublist ?_ (List.nodup_dedup (table.map Prod.fst))
  have hsub : ∀ ks : List Key, ((ks.filterMap fun k =>
      (lastPut table k).map fun v => (k, v)).map Prod.fst).Sublist ks := by
    intro ks
    induction ks with
    | nil => exact .slnil
    | cons k ks ih =>
        cases hk : lastPut table k with
        | none => simpa [hk] using ih.cons k
        | some v => simpa [hk] using ih.cons_cons k
  exact hsub _

theorem fitting_records {d : ListDevice} {puts : List (Key × Value)}
    (hmap : d.mem.map = lastPut puts) (hfit : ∀ r ∈ puts, Fitting r) :
    ∀ r ∈ records d.table, Fitting r := by
  intro r hr
  refine hfit r (DB.mem_of_lastPut ?_)
  rw [← hmap]
  exact mem_records.mp hr

theorem fits_singleton {r : Record} (h : Fitting r) : Fits [r] := by
  obtain ⟨⟨hkey, hne, _⟩, hlen⟩ := h
  have hblocks : valueBlocks r.2.length ≤ 3 := by
    unfold valueBlocks blockSize
    split <;> omega
  refine ⟨by simp, by simpa using hkey, by simpa using hne, ?_⟩
  simp only [List.map_cons, List.map_nil, List.length_singleton, valuesEnd, valueStart,
    blockSize, maxBufLen]
  omega

/-- The replies that are left after a breakpoint. -/
theorem feeds (iterId : Nat) : ∀ (rs : List Record) (d : ListDevice), d.cursor = rs →
    (∀ r ∈ rs, Fitting r) →
    Feeds exec iterId (rs.map fun r => [r]) (if rs = [] then noNextKey else 0) d := by
  intro rs
  induction rs with
  | nil => intro d _ _; rfl
  | cons r rs ih =>
      intro d hcur hfit
      have hreply : (exec (scanCmd .kvRangeScanNext 0 iterId) d).1 = reply (r :: rs) := by
        rw [← hcur]
        rfl
      rw [if_neg (by simp), List.map_cons]
      refine ⟨by decide, ⟨by rw [hreply]; rfl, by simp, ?_⟩, ?_⟩
      · rw [hreply]
        exact layout_of_fits (fits_singleton (hfit r List.mem_cons_self))
      · rw [hreply]
        refine ih _ ?_ fun r' hr' => hfit r' (List.mem_cons_of_mem _ hr')
        show d.cursor.tail = rs
        rw [hcur]
        rfl

theorem serves (d : ListDevice) (iterId start : Nat) (hne : records d.table ≠ [])
    (hfit : ∀ r ∈ records d.table, Fitting r) :
    Serves exec iterId start ((records d.table).map fun r => [r]) d := by
  obtain ⟨r, rs, hrs⟩ := List.exists_cons_of_ne_nil hne
  have hreply : (exec (scanCmd .kvRangeScanSeek start iterId) d).1 = reply (r :: rs) := by
    rw [← hrs]
    rfl
  rw [hrs, List.map_cons]
  rw [hrs] at hfit
  refine ⟨⟨by rw [hreply]; rfl, by simp, ?_⟩, ?_⟩
  · rw [hreply]
    exact layout_of_fits (fits_singleton (hfit r List.mem_cons_self))
  · rw [hreply]
    refine feeds iterId rs _ ?_ fun r' hr' => hfit r' (List.mem_cons_of_mem _ hr')
    show (records d.table).tail = rs
    rw [hrs]
    rfl

end ListDevice

/-- One record a reply. -/
def listDevice : KvDevice ListDevice where
  exec := ListDevice.exec
  mem := ListDevice.mem
  acts := ListDevice.mem_exec
  ok := by
    rintro cmd d (h | h) <;> simp only [ListDevice.exec, MapDevice.exec, h]
  get := by
    intro cmd d h
    simp only [ListDevice.exec, h, and_self]
  serves := by
    intro d puts iterId hmap hne hfit
    refine ⟨_, d.serves iterId 0 (ListDevice.records_ne_nil hmap hne)
      (ListDevice.fitting_records hmap hfit), ?_, ?_⟩
    · intro r
      rw [flatten_singletons, ListDevice.mem_records, ← hmap]
      rfl
    · rw [flatten_singletons]
      exact ListDevice.nodup_records d.table

theorem pairs_listDevice : listDevice.Pairs := by
  intro d puts iterId start bs hmap hfit h
  by_cases hne : ListDevice.records d.table = []
  · -- A scan of nothing fails.
    cases bs with
    | nil => exact h.elim
    | cons b rest =>
        have hok : (ListDevice.reply (ListDevice.records d.table)).err = 0 := h.1.ok
        rw [hne] at hok
        cases hok
  · rw [h.unique (d.serves iterId start hne (ListDevice.fitting_records hmap hfit)),
      handed_singletons, flatten_singletons]

end Kvaccel.Spec
