import Kvaccel.Ref.Scan
import Kvaccel.Ref.Threads

/-!
# `iLSM::DB` one command at a time

The driver as the threads see it. A put that fills the buffer and the creation
of an iterator send several commands, and between two of them the other
threads go on; `IlsmPc` is where such a call stands. `reset_mtx` keeps a
second put or a pass away from the buffer in the meantime, but not the gets.

A call that is not interrupted is the call of `Ref/Ilsm.lean`
(`runPc_put`, `runPc_createIter`).
-/

namespace Kvaccel.Ref

open Kvaccel.Lib

/-- Where a call of `Put` or `CreateIter` stands. `_Flush` is called by both:
`iter` says by which. -/
inductive IlsmPc where
  | buffering (k : Key) (v : Value)
  /-- Iteration `i` of the loop of `_ValueFlush`. -/
  | vFlush (iter : Bool) (i : Nat)
  | kvFlush (iter : Bool)
  | release (iter : Bool)
  /-- `buffering_cnt != 0` in `_CreateIter`. -/
  | createIter
  | iterCmd
deriving DecidableEq

section Step

variable {σ : Type} (exec : Device σ) (out : Outside)

def ilsmStep : IlsmPc → Nat → DB σ → Option IlsmPc × Nat × DB σ
  | .buffering k v, iterId, db =>
      let db := (db.buffering k v out).2
      if db.bufferingInfo.kvPairOffset = limitValueBufferEntry then
        (some (.vFlush false 0), iterId, db)
      else
        (none, iterId, db.finishOp 0)
  | .vFlush iter i, iterId, db =>
      if u32 (i * limitValueBufferEntry) < db.bufferingInfo.valueLogOffset then
        let r := db.nvmePassthru exec (DB.valueFlushCmd db.bufferingInfo i) out.result
        if r.1.err < 0 then (some (.kvFlush iter), iterId, r.2)
        else (some (.vFlush iter (i + 1)), iterId, r.2)
      else
        (some (.kvFlush iter), iterId, db)
  | .kvFlush iter, iterId, db =>
      (some (.release iter), iterId, (db.keyValueFlush exec out).2)
  | .release false, iterId, db => (none, iterId, db.release.finishOp 0)
  | .release true, iterId, db => (some .iterCmd, iterId, db.release)
  | .createIter, iterId, db =>
      (some (if db.bufferingInfo.bufferingCnt ≠ 0 then .vFlush true 0 else .iterCmd),
        iterId, db)
  | .iterCmd, iterId, db => (none, (db.createIterCmd exec iterId out).2)

/-- The driver over the device `exec`. `DB_MASTER::Get` passes an empty
string. -/
def ilsmDev : DevLsm where
  St := DB σ
  Env := Outside
  Pc := IlsmPc
  putPc := .buffering
  iterPc := .createIter
  step := ilsmStep exec
  get := fun out k db => db.get exec k [] out
  seekScan := fun out iterId key value db => db.seekScan exec iterId key value out
  nextScan := fun out iterId key value db => db.nextScan exec iterId key value out
  reset := fun out db => (db.reset exec out).2

instance : DecidableEq (ilsmDev exec).Pc := inferInstanceAs (DecidableEq IlsmPc)

/-- A call to its end, in at most `fuel` commands: the iterator id and the
driver afterwards. -/
def runPc : Nat → IlsmPc → Nat → DB σ → Option (Nat × DB σ)
  | 0, _, _, _ => none
  | fuel + 1, pc, iterId, db =>
      match ilsmStep exec out pc iterId db with
      | (none, iterId, db) => some (iterId, db)
      | (some pc, iterId, db) => runPc fuel pc iterId db

end Step

/-! ## An uninterrupted call -/

section Whole

variable {σ : Type} {exec : Device σ} {out : Outside} {db : DB σ} {iterId : Nat}

/-- The loop of `_ValueFlush`, as far as its counter does not wrap. -/
theorem runPc_vFlush (iter : Bool) : ∀ (n i : Nat) (db : DB σ),
    db.bufferingInfo.valueLogOffset ≤ (i + n) * limitValueBufferEntry →
    (i + n) * limitValueBufferEntry < 4294967296 →
    ∃ j ≤ n + 1, ∀ fuel, runPc exec out (fuel + j) (.vFlush iter i) iterId db =
      runPc exec out fuel (.kvFlush iter) iterId
        (DB.valueFlushLoop exec db.bufferingInfo out.result n i db).2 := by
  intro n
  induction n with
  | zero =>
      intro i db hend hwrap
      have hu : u32 (i * limitValueBufferEntry) = i * limitValueBufferEntry :=
        Nat.mod_eq_of_lt (by simpa using hwrap)
      refine ⟨1, Nat.le_refl _, fun fuel => ?_⟩
      rw [runPc, ilsmStep, hu, if_neg (by simpa using hend)]
      rfl
  | succ n ih =>
      intro i db hend hwrap
      have hu : u32 (i * limitValueBufferEntry) = i * limitValueBufferEntry :=
        Nat.mod_eq_of_lt (Nat.lt_of_le_of_lt (Nat.mul_le_mul_right _ (by omega)) hwrap)
      rw [DB.valueFlushLoop, hu]
      by_cases hmore : i * limitValueBufferEntry < db.bufferingInfo.valueLogOffset
      · rw [if_pos hmore]
        by_cases herr : (db.nvmePassthru exec (DB.valueFlushCmd db.bufferingInfo i)
            out.result).1.err < 0
        · refine ⟨1, by omega, fun fuel => ?_⟩
          rw [runPc, ilsmStep, hu, if_pos hmore]
          simp only [if_pos herr]
        · have hinfo := DB.nvmePassthru_bufferingInfo exec db
            (DB.valueFlushCmd db.bufferingInfo i) out.result
          obtain ⟨j, hj, hrun⟩ := ih (i + 1)
            (db.nvmePassthru exec (DB.valueFlushCmd db.bufferingInfo i) out.result).2
            (by rw [hinfo, show i + 1 + n = i + (n + 1) by omega]; exact hend)
            (by rw [show i + 1 + n = i + (n + 1) by omega]; exact hwrap)
          refine ⟨j + 1, by omega, fun fuel => ?_⟩
          rw [← Nat.add_assoc, runPc, ilsmStep, hu, if_pos hmore]
          simp only [if_neg herr]
          rw [hrun, hinfo]
      · refine ⟨1, by omega, fun fuel => ?_⟩
        rw [runPc, ilsmStep, hu, if_neg hmore, if_neg hmore]

theorem runPc_put {k : Key} {v : Value} {n : Nat}
    (hn : (db.buffering k v out).2.bufferingInfo.valueLogOffset = n)
    (hwrap : n * limitValueBufferEntry < 4294967296) {fuel : Nat}
    (hfuel : n + 4 ≤ fuel) :
    runPc exec out fuel (.buffering k v) iterId db =
      some (iterId, (db.put exec k v out).2) := by
  obtain ⟨f, rfl⟩ : ∃ f, fuel = f + 1 := ⟨fuel - 1, by omega⟩
  rw [runPc, ilsmStep, DB.put]
  simp only []
  by_cases hfull : (db.buffering k v out).2.bufferingInfo.kvPairOffset =
      limitValueBufferEntry
  · simp only [if_pos hfull]
    obtain ⟨j, hj, hrun⟩ : ∃ j ≤ n + 1, ∀ fuel,
        runPc exec out (fuel + j) (.vFlush false 0) iterId _ = _ :=
      runPc_vFlush false n 0 (db.buffering k v out).2
        (by rw [hn, Nat.zero_add]; exact Nat.le_mul_of_pos_right _ (by decide))
        (by simpa using hwrap)
    obtain ⟨g, rfl⟩ : ∃ g, f = g + 2 + j := ⟨f - 2 - j, by omega⟩
    rw [hrun, runPc, ilsmStep]
    simp only []
    rw [runPc, ilsmStep]
    simp only [DB.flush, DB.valueFlush, hn]
  · simp only [if_neg hfull]

theorem runPc_createIter {n : Nat} (hn : db.bufferingInfo.valueLogOffset = n)
    (hwrap : n * limitValueBufferEntry < 4294967296) {fuel : Nat}
    (hfuel : n + 5 ≤ fuel) :
    runPc exec out fuel .createIter iterId db =
      some (db.createIter exec iterId out).2 := by
  obtain ⟨f, rfl⟩ : ∃ f, fuel = f + 1 := ⟨fuel - 1, by omega⟩
  rw [runPc, ilsmStep, DB.createIter]
  simp only []
  by_cases hcnt : db.bufferingInfo.bufferingCnt ≠ 0
  · rw [if_pos hcnt, if_pos hcnt]
    obtain ⟨j, hj, hrun⟩ : ∃ j ≤ n + 1, ∀ fuel,
        runPc exec out (fuel + j) (.vFlush true 0) iterId _ = _ :=
      runPc_vFlush true n 0 db
        (by rw [hn, Nat.zero_add]; exact Nat.le_mul_of_pos_right _ (by decide))
        (by simpa using hwrap)
    obtain ⟨g, rfl⟩ : ∃ g, f = g + 3 + j := ⟨f - 3 - j, by omega⟩
    rw [hrun, runPc, ilsmStep]
    simp only []
    rw [runPc, ilsmStep]
    simp only []
    rw [runPc, ilsmStep]
    simp only [DB.flush, DB.valueFlush, hn]
  · obtain ⟨g, rfl⟩ : ∃ g, f = g + 1 := ⟨f - 1, by omega⟩
    rw [if_neg hcnt, if_neg hcnt, runPc, ilsmStep]

end Whole

end Kvaccel.Ref
