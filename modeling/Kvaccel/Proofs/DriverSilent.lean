import Kvaccel.Ref.Commands
import Kvaccel.Spec.KvDevice
import Kvaccel.Spec.Serial

/-!
# A get leaves the statistics

`op_stat` and `passthru_stat` are counted up by every call and read by none of
those the threads make. So two drivers that differ in them alone do the same at
every step, and a get over a device that answers it and stays as it was is one
that nobody notices.
-/

namespace Kvaccel.Ref.DB

open Kvaccel.Lib Kvaccel.Spec

section Restat

variable {σ : Type} (exec : Device σ) (db : DB σ) (a b : Nat → Nat)

/-- The same but for the statistics. -/
def restat : DB σ := { db with opStat := a, passthruStat := b }

/-- Without them. -/
def unstat : DB σ := db.restat (fun _ => 0) fun _ => 0

theorem unstat_restat : (db.restat a b).unstat = db.unstat := rfl

theorem restat_bufferingInfo : (db.restat a b).bufferingInfo = db.bufferingInfo := rfl

variable {db} in
theorem restat_of_unstat_eq {db' : DB σ} (h : db.unstat = db'.unstat) :
    db' = db.restat db'.opStat db'.passthruStat := by
  obtain ⟨bip, keys, values, cnt, brk, iterKeys, iterValues, _, _, device⟩ := db
  obtain ⟨bip', keys', values', cnt', brk', iterKeys', iterValues', _, _, device'⟩ := db'
  simp only [unstat, restat, DB.mk.injEq, true_and] at h ⊢
  obtain ⟨rfl, rfl, rfl, rfl, rfl, rfl, rfl, rfl⟩ := h
  simp

theorem nvmePassthru_restat (cmd : NvmeCmd) (result : Nat) :
    ∃ b', (db.restat a b).nvmePassthru exec cmd result =
      ((db.nvmePassthru exec cmd result).1, (db.nvmePassthru exec cmd result).2.restat a b') := by
  by_cases hok : (exec cmd db.device).1.err = 0
  · have hok' : (exec cmd (db.restat a b).device).1.err = 0 := hok
    rw [nvmePassthru_ok hok, nvmePassthru_ok hok']
    exact ⟨_, rfl⟩
  · refine ⟨b, ?_⟩
    unfold nvmePassthru
    rw [if_neg fun h => hok h.1, if_neg fun h => hok h.1]
    rfl

theorem buffering_restat (k v : Bytes) (out : Outside) :
    (db.restat a b).buffering k v out =
      ((db.buffering k v out).1, (db.buffering k v out).2.restat a b) := by
  unfold buffering
  rw [restat_bufferingInfo]
  by_cases hinit : db.bufferingInfo.isInitRequired = true
  · simp only [if_pos hinit]
    cases out.valueLog with
    | none => rfl
    | some valueLog => cases out.kvPair <;> rfl
  · simp only [if_neg hinit]
    rfl

theorem keyValueFlush_restat (out : Outside) :
    ∃ b', ((db.restat a b).keyValueFlush exec out).2 =
      (db.keyValueFlush exec out).2.restat a b' := by
  obtain ⟨b', hcmd⟩ := db.nvmePassthru_restat exec a b (keyValueFlushCmd db.bufferingInfo)
    out.result
  refine ⟨b', ?_⟩
  unfold keyValueFlush
  rw [restat_bufferingInfo, hcmd]
  by_cases herr : (db.nvmePassthru exec (keyValueFlushCmd db.bufferingInfo) out.result).1.err < 0
  · simp only [if_pos herr]
  · simp only [if_neg herr]

theorem createIterCmd_restat (iterId : Nat) (out : Outside) :
    ∃ a' b', (db.restat a b).createIterCmd exec iterId out =
      ((db.createIterCmd exec iterId out).1, (db.createIterCmd exec iterId out).2.1,
        (db.createIterCmd exec iterId out).2.2.restat a' b') := by
  obtain ⟨b', hcmd⟩ := db.nvmePassthru_restat exec a b { opcode := .kvIterCreateIter } out.result
  unfold createIterCmd
  rw [hcmd]
  generalize db.nvmePassthru exec { opcode := .kvIterCreateIter } out.result = r
  by_cases herr : r.1.err < 0
  · simp only [if_pos herr]
    exact ⟨_, _, rfl⟩
  · simp only [if_neg herr]
    by_cases hnone : r.1.err = 0x7C1
    · simp only [if_pos hnone]
      exact ⟨_, _, rfl⟩
    · simp only [if_neg hnone]
      exact ⟨_, _, rfl⟩

theorem ilsmStep_restat (out : Outside) (pc : IlsmPc) (iterId : Nat) :
    ∃ a' b', ilsmStep exec out pc iterId (db.restat a b) =
      ((ilsmStep exec out pc iterId db).1, (ilsmStep exec out pc iterId db).2.1,
        (ilsmStep exec out pc iterId db).2.2.restat a' b') := by
  cases pc with
  | buffering k v =>
      simp only [ilsmStep, buffering_restat, restat_bufferingInfo]
      by_cases hfull : (db.buffering k v out).2.bufferingInfo.kvPairOffset =
          limitValueBufferEntry
      · simp only [if_pos hfull]
        exact ⟨_, _, rfl⟩
      · simp only [if_neg hfull]
        exact ⟨_, _, rfl⟩
  | vFlush iter i =>
      obtain ⟨b', hcmd⟩ := db.nvmePassthru_restat exec a b (valueFlushCmd db.bufferingInfo i)
        out.result
      simp only [ilsmStep, restat_bufferingInfo, hcmd]
      by_cases hmore : u32 (i * limitValueBufferEntry) < db.bufferingInfo.valueLogOffset
      · simp only [if_pos hmore]
        by_cases herr : (db.nvmePassthru exec (valueFlushCmd db.bufferingInfo i)
            out.result).1.err < 0
        · simp only [if_pos herr]
          exact ⟨_, _, rfl⟩
        · simp only [if_neg herr]
          exact ⟨_, _, rfl⟩
      · simp only [if_neg hmore]
        exact ⟨_, _, rfl⟩
  | kvFlush iter =>
      obtain ⟨b', hflush⟩ := db.keyValueFlush_restat exec a b out
      simp only [ilsmStep, hflush]
      exact ⟨_, _, rfl⟩
  | release iter => cases iter <;> exact ⟨_, _, rfl⟩
  | createIter => exact ⟨_, _, rfl⟩
  | iterCmd =>
      obtain ⟨a', b', hcmd⟩ := db.createIterCmd_restat exec a b iterId out
      simp only [ilsmStep, hcmd]
      exact ⟨_, _, rfl⟩

/-! ## The scans -/

theorem bulkyScan_restat (isSeek : NvmeOpcode) (iterId cdw10 next : Nat) (out : Outside) :
    ∃ b', (db.restat a b).bulkyScan exec isSeek iterId cdw10 next out =
      ((db.bulkyScan exec isSeek iterId cdw10 next out).1,
        (db.bulkyScan exec isSeek iterId cdw10 next out).2.1,
        (db.bulkyScan exec isSeek iterId cdw10 next out).2.2.restat a b') := by
  unfold bulkyScan
  obtain ⟨b', hcmd⟩ := db.nvmePassthru_restat exec a b {
    opcode := isSeek
    cdw10 := cdw10
    cdw12 := replyNlb
    cdw13 := iterId
    dataLen := maxBufLen } out.result
  rw [hcmd]
  generalize db.nvmePassthru exec {
    opcode := isSeek
    cdw10 := cdw10
    cdw12 := replyNlb
    cdw13 := iterId
    dataLen := maxBufLen } out.result = r
  by_cases hout : out.data = false
  · simp only [if_pos hout]
    exact ⟨b, rfl⟩
  · simp only [if_neg hout]
    by_cases herr : r.1.err < 0
    · simp only [if_pos herr]
      exact ⟨b', rfl⟩
    · simp only [if_neg herr]
      by_cases hnone : r.1.err = 0x7C1
      · simp only [if_pos hnone]
        exact ⟨b', rfl⟩
      · simp only [if_neg hnone]
        exact ⟨b', rfl⟩

theorem refill_restat (isSeek : NvmeOpcode) (iterId : Nat) (key : Bytes) (out : Outside) :
    ∃ b', (db.restat a b).refill exec isSeek iterId key out =
      (db.refill exec isSeek iterId key out).restat a b' := by
  have hbulk : ∃ b', (if isSeek = .kvRangeScanSeek then
        (db.restat a b).doBulkyScan exec isSeek iterId key out.next out
      else (db.restat a b).doBulkyNextScan exec isSeek iterId (db.brkPointKey iterId) out.next
        out) =
      ((if isSeek = .kvRangeScanSeek then db.doBulkyScan exec isSeek iterId key out.next out
        else db.doBulkyNextScan exec isSeek iterId (db.brkPointKey iterId) out.next out).1,
      (if isSeek = .kvRangeScanSeek then db.doBulkyScan exec isSeek iterId key out.next out
        else db.doBulkyNextScan exec isSeek iterId (db.brkPointKey iterId) out.next out).2.1,
      (if isSeek = .kvRangeScanSeek then db.doBulkyScan exec isSeek iterId key out.next out
        else db.doBulkyNextScan exec isSeek iterId (db.brkPointKey iterId) out.next
          out).2.2.restat a b') := by
    split
    · exact db.bulkyScan_restat exec a b isSeek iterId _ _ out
    · exact db.bulkyScan_restat exec a b isSeek iterId _ _ out
  obtain ⟨b', hbulk⟩ := hbulk
  refine ⟨b', ?_⟩
  unfold refill rangeScan
  simp only [show (db.restat a b).brkPointKey = db.brkPointKey from rfl, hbulk]
  generalize (if isSeek = .kvRangeScanSeek then
    db.doBulkyScan exec isSeek iterId key out.next out
    else db.doBulkyNextScan exec isSeek iterId (db.brkPointKey iterId) out.next out) = r
  by_cases hend : r.1 = -2 ∨ r.2.1 = noNextKey
  · simp only [if_pos hend]
    rfl
  · simp only [if_neg hend]
    rfl

theorem popRecord_restat (iterId : Nat) :
    (db.restat a b).popRecord iterId =
      (db.popRecord iterId).map fun r => (r.1, r.2.1, r.2.2.restat a b) := by
  unfold popRecord
  rw [show (db.restat a b).values = db.values from rfl]
  cases (db.values iterId).getLast? <;> rfl

theorem seekScan_restat (iterId : Nat) (key value : Bytes) (out : Outside) :
    ∃ a' b', (db.restat a b).seekScan exec iterId key value out =
      ((db.seekScan exec iterId key value out).1, (db.seekScan exec iterId key value out).2.1,
        (db.seekScan exec iterId key value out).2.2.1,
        (db.seekScan exec iterId key value out).2.2.2.restat a' b') := by
  obtain ⟨b', hrefill⟩ := { db with
    scanCnt := Function.update db.scanCnt iterId 1 }.refill_restat exec a b .kvRangeScanSeek
      iterId key out
  change { db.restat a b with
    scanCnt := Function.update (db.restat a b).scanCnt iterId 1 }.refill exec .kvRangeScanSeek
      iterId key out = _ at hrefill
  dsimp only at hrefill
  unfold seekScan
  dsimp only
  rw [hrefill, popRecord_restat]
  cases ({ db with scanCnt := Function.update db.scanCnt iterId 1 }.refill exec
    .kvRangeScanSeek iterId key out).popRecord iterId with
  | none => exact ⟨_, _, rfl⟩
  | some r => exact ⟨_, _, rfl⟩

theorem nextScan_restat (iterId : Nat) (key value : Bytes) (out : Outside) :
    ∃ a' b', (db.restat a b).nextScan exec iterId key value out =
      ((db.nextScan exec iterId key value out).1, (db.nextScan exec iterId key value out).2.1,
        (db.nextScan exec iterId key value out).2.2.1,
        (db.nextScan exec iterId key value out).2.2.2.restat a' b') := by
  obtain ⟨b', hrefill⟩ := db.refill_restat exec a b .kvRangeScanNext iterId [] out
  unfold nextScan
  rw [popRecord_restat, show (db.restat a b).brkPointKey = db.brkPointKey from rfl, hrefill]
  cases db.popRecord iterId with
  | some r => exact ⟨_, _, rfl⟩
  | none =>
      simp only [Option.map_none, popRecord_restat]
      by_cases hend : db.brkPointKey iterId = noNextKey
      · simp only [if_pos hend]
        exact ⟨_, _, rfl⟩
      · simp only [if_neg hend]
        cases (db.refill exec .kvRangeScanNext iterId [] out).popRecord iterId with
        | none => exact ⟨_, _, rfl⟩
        | some r => exact ⟨_, _, rfl⟩

theorem reset_restat (out : Outside) :
    ∃ b', ((db.restat a b).reset exec out).2 = (db.reset exec out).2.restat a b' := by
  obtain ⟨b', hcmd⟩ := { db with
    keys := Function.update db.keys 0 []
    values := Function.update db.values 0 [] }.nvmePassthru_restat exec a b
      { opcode := .kvReset, dataLen := maxBufLen } out.result
  exact ⟨b', congrArg Prod.snd hcmd⟩

end Restat

theorem unstat_get {σ : Type} (K : KvDevice σ) (db : DB σ) (key value : Bytes) (out : Outside) :
    (db.get K.exec key value out).2.2.unstat = db.unstat := by
  have hcmd : ∀ cmd : NvmeCmd, cmd.opcode = .kvGet →
      (db.nvmePassthru K.exec cmd out.result).2.unstat = db.unstat := by
    intro cmd hop
    obtain ⟨stat, hcmd⟩ := nvmePassthru_eq K.exec db cmd out.result
    rw [hcmd, (K.get cmd db.device hop).2]
    rfl
  rw [get_db]
  split
  · rfl
  · exact hcmd _ rfl

end Kvaccel.Ref.DB

namespace Kvaccel.Spec

open Kvaccel.Lib Kvaccel.Ref

/-- The driver, but for its statistics. -/
def driverSilent {σ : Type} (K : KvDevice σ) : Silent (ilsmDev K.exec) where
  View := DB σ
  view := DB.unstat
  get out k db := DB.unstat_get K db k [] out
  step out pc iterId db db' h := by
    rw [DB.restat_of_unstat_eq h]
    obtain ⟨a, b, hstep⟩ :=
      DB.ilsmStep_restat K.exec db db'.opStat db'.passthruStat out pc iterId
    simp only [ilsmDev, hstep, DB.unstat_restat, and_self]
  seekScan out iterId key value db db' h := by
    rw [DB.restat_of_unstat_eq h]
    obtain ⟨a, b, hscan⟩ :=
      DB.seekScan_restat K.exec db db'.opStat db'.passthruStat iterId key value out
    simp only [ilsmDev, hscan, DB.unstat_restat, and_self]
  nextScan out iterId key value db db' h := by
    rw [DB.restat_of_unstat_eq h]
    obtain ⟨a, b, hscan⟩ :=
      DB.nextScan_restat K.exec db db'.opStat db'.passthruStat iterId key value out
    simp only [ilsmDev, hscan, DB.unstat_restat, and_self]
  reset out db db' h := by
    rw [DB.restat_of_unstat_eq h]
    obtain ⟨b, hreset⟩ := DB.reset_restat K.exec db db'.opStat db'.passthruStat out
    simp only [ilsmDev, hreset, DB.unstat_restat]

end Kvaccel.Spec
