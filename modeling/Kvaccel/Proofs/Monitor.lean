import Kvaccel.Spec.Stalls

/-!
# When the level shows a stall

Three things come between a stall and `LEVEL_HIGH`. The last assignment of
`Monitor_Consumer` makes the level `LEVEL_ZERO` when there are no L0 files,
whatever the debt. A hard limit below `RESERVE` wraps when `RESERVE` is taken
off it. And the number of memtables is narrowed to an `int` before it counts.
What remains is a stall that is noticed, and it always is.
-/

namespace Kvaccel.Spec

open Kvaccel.Ref

variable {o : MonitorOptions} {m : Measured}

theorem l0Num_toInt_nonneg (m : Measured) : 0 ≤ m.l0Num.toInt :=
  Int32.le_iff_toInt_le.mp m.l0Num_nonneg

theorem l0Num_eq_zero_iff : m.l0Num = 0 ↔ m.l0Num.toInt = 0 := by
  rw [← Int32.toInt_inj]
  rfl

/-- The sum of L0 files and memtables, as an `int`. -/
theorem toInt_add_memtables (m : Measured) (q : UInt64) :
    (m.l0Num + q.toUInt32.toInt32).toInt =
      (m.l0Num.toInt + (q.toNat % 2 ^ 32 : Nat)).bmod (2 ^ 32) := by
  have hnarrow : q.toUInt32.toInt32.toInt = ((q.toNat % 2 ^ 32 : Nat) : Int).bmod (2 ^ 32) := by
    rw [← UInt64.toNat_toUInt32]
    exact BitVec.toInt_eq_toNat_bmod _
  rw [Int32.toInt_add, hnarrow, Int.add_bmod_bmod]

/-- Below 36 files the sum overflows only to where it does not count. -/
theorem memtables_caught_iff (o : MonitorOptions) {m : Measured} (hfew : m.l0Num.toInt < 36) :
    36 ≤ m.l0Num + (m.memtableSize / o.writeBufferSize).toUInt32.toInt32 ↔
      36 ≤ m.l0Num.toInt + (memtables o m % 2 ^ 32 : Nat) ∧
        m.l0Num.toInt + (memtables o m % 2 ^ 32 : Nat) < 2 ^ 31 := by
  have hl0 := l0Num_toInt_nonneg m
  have hq := Nat.mod_lt (memtables o m) (show 0 < 2 ^ 32 by decide)
  rw [Int32.le_iff_toInt_le, toInt_add_memtables, UInt64.toNat_div]
  change 36 ≤ Int.bmod (m.l0Num.toInt + (memtables o m % 2 ^ 32 : Nat)) (2 ^ 32) ↔ _
  generalize memtables o m % 2 ^ 32 = q at hq ⊢
  rw [Int.bmod_def]
  split <;> omega

theorem pending_caught_iff (o : MonitorOptions) (m : Measured) :
    o.hardLimit - reserve ≤ m.pendingCompactionBytes ↔
      if 2 ^ 21 ≤ o.hardLimit.toNat then
        o.hardLimit.toNat - 2 ^ 21 ≤ m.pendingCompactionBytes.toNat
      else
        2 ^ 64 + o.hardLimit.toNat - 2 ^ 21 ≤ m.pendingCompactionBytes.toNat := by
  have hlt := o.hardLimit.toNat_lt
  have hreserve : reserve.toNat = 2 ^ 21 := rfl
  rw [UInt64.le_iff_toNat_le, UInt64.toNat_sub, hreserve]
  split <;> omega

theorem countsAsStall_iff (o : MonitorOptions) (m : Measured) :
    (36 ≤ m.l0Num ∨
        36 ≤ m.l0Num + (m.memtableSize / o.writeBufferSize).toUInt32.toInt32 ∨
        o.hardLimit - reserve ≤ m.pendingCompactionBytes) ↔ CountsAsStall o m := by
  have hfiles : 36 ≤ m.l0Num ↔ 36 ≤ m.l0Num.toInt := Int32.le_iff_toInt_le
  rw [hfiles, pending_caught_iff, CountsAsStall]
  rcases Int.lt_or_le m.l0Num.toInt 36 with hfew | hmany
  · rw [memtables_caught_iff o hfew]
  · exact ⟨fun _ => Or.inl hmany, fun _ => Or.inl hmany⟩

theorem level_eq_high_iff (o : MonitorOptions) (m : Measured) :
    o.level m = .high ↔ 0 < m.l0Num.toInt ∧ CountsAsStall o m := by
  have hl0 := l0Num_toInt_nonneg m
  unfold MonitorOptions.level
  simp only [l0Num_eq_zero_iff]
  split
  · next hzero => exact ⟨nofun, fun h => absurd h.1 (by omega)⟩
  · next hsome =>
      split
      · next htest =>
          have hcounts := (countsAsStall_iff o m).mp htest
          exact ⟨fun _ => ⟨by omega, hcounts⟩, fun _ => rfl⟩
      · next htest =>
          refine ⟨fun h => ?_, fun h => absurd ((countsAsStall_iff o m).mpr h.2) htest⟩
          split at h <;> cases h

/-- A stall is passed on to the next put exactly where there is an L0 file and
the first test holds. -/
theorem stallDetected_iff (o : MonitorOptions) (m : Measured) :
    StallDetected o m ↔ (Stalled o m → 0 < m.l0Num.toInt ∧ CountsAsStall o m) := by
  constructor
  · intro h hstalled
    rw [← level_eq_high_iff]
    exact (h hstalled (fun _ => (0, 0)) .opened [] []).1
  · intro h hstalled murmur s key value
    have hlevel : (s.monitorConsumer o m).level = .high :=
      (level_eq_high_iff o m).mpr (h hstalled)
    unfold Master.put
    rw [if_neg (not_not.mpr hlevel)]
    exact ⟨hlevel, rfl, rfl⟩

/-- The defaults of RocksDB: 64 MiB memtables, limits of 64 GiB and 256 GiB. -/
def defaultLimits : MonitorOptions where
  writeBufferSize := 67108864
  softLimit := 68719476736
  hardLimit := 274877906944
  writeBuffer_ne := by decide
  hardLimit_ne := by decide

/-- Missed stalls: the hard limit reached without L0 files; a hard limit of
1 MiB reached; 2^31 memtables of one byte. -/
theorem stalls_missed :
    ¬ StallDetected defaultLimits ⟨0, 0, 274877906944, by decide⟩ ∧
    ¬ StallDetected { defaultLimits with hardLimit := 1048576, hardLimit_ne := by decide }
      ⟨1, 0, 1048576, by decide⟩ ∧
    ¬ StallDetected { defaultLimits with writeBufferSize := 1, writeBuffer_ne := by decide }
      ⟨1, 2147483648, 0, by decide⟩ := by
  refine ⟨fun h => ?_, fun h => ?_, fun h => ?_⟩
  · have hlevel := (h (Or.inr (Or.inr (by decide))) (fun _ => (0, 0)) .opened [] []).1
    exact absurd hlevel (by decide)
  · have hlevel := (h (Or.inr (Or.inr (by decide))) (fun _ => (0, 0)) .opened [] []).1
    exact absurd hlevel (by decide)
  · have hlevel := (h (Or.inr (Or.inl (by decide))) (fun _ => (0, 0)) .opened [] []).1
    exact absurd hlevel (by decide)

end Kvaccel.Spec
