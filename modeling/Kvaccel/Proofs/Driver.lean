import Kvaccel.Spec.Scans

/-!
# What the driver's calls keep

Most of what a call of the driver does is to its lists. A property that does
not look at those, only at the put buffer, the statistics and the device,
outlives a call if it outlives the commands that the call can send. `Persists`
is such a property; there is one lemma for each call, with the opcodes it
needs, and the calls that fill or flush the buffer also need a property that
does not look at it.
-/

namespace Kvaccel.Ref

open Kvaccel.Lib Kvaccel.Spec

/-- `P` does not look at the lists of the scans, and survives the end of an
operation and every command that `ops` allows. -/
structure Persists {σ : Type} (exec : Device σ) (ops : NvmeOpcode → Prop) (P : DB σ → Prop) :
    Prop where
  host : ∀ {db db' : DB σ}, P db → db'.bufferingInfo = db.bufferingInfo →
    db'.opStat = db.opStat → db'.passthruStat = db.passthruStat → db'.device = db.device → P db'
  finishOp : ∀ {db : DB σ} {n : Nat}, n < 6 → P db → P (db.finishOp n)
  command : ∀ {db : DB σ} {cmd : NvmeCmd} {result : Nat}, ops cmd.opcode → P db →
    P (db.nvmePassthru exec cmd result).2

namespace Persists

open DB

variable {σ : Type} {exec : Device σ} {ops : NvmeOpcode → Prop} {P : DB σ → Prop} {db : DB σ}
  (hP : Persists exec ops P)

include hP

/-! ## Single commands -/

theorem get (hops : ops .kvGet) (key value : Bytes) (out : Outside) (h : P db) :
    P (db.get exec key value out).2.2 := by
  rw [get_db]
  split
  · exact hP.finishOp (by decide) h
  · exact hP.finishOp (by decide) (hP.command hops h)

theorem getThrow (hops : ops .kvGet) {db' : DB σ} {key : Bytes} {out : Outside} (h : P db)
    (hthrow : db.getThrow exec key out = some db') : P db' := by
  unfold DB.getThrow at hthrow
  simp only [] at hthrow
  split at hthrow
  · cases hthrow
  · split at hthrow
    · cases hthrow
      exact hP.command hops h
    · cases hthrow

theorem createIterCmd (hops : ops .kvIterCreateIter) (iterId : Nat) (out : Outside) (h : P db) :
    P (db.createIterCmd exec iterId out).2.2 := by
  rw [createIterCmd_db]
  exact hP.finishOp (by decide) (hP.command hops h)

theorem destroyIter (hops : ops .kvIterDestroyIter) (iterId : Nat) (out : Outside) (h : P db) :
    P (db.destroyIter exec iterId out).2 := by
  have hcmd : P ((db.nvmePassthru exec { opcode := .kvIterDestroyIter, cdw13 := iterId }
    out.result).2.finishOp 5) := hP.finishOp (by decide) (hP.command hops h)
  unfold DB.destroyIter
  simp only []
  repeat' split
  · exact hcmd
  · exact hcmd
  · exact hP.host hcmd rfl rfl rfl rfl

theorem reset (hops : ops .kvReset) (out : Outside) (h : P db) : P (db.reset exec out).2 := by
  have hcleared : P { db with
      keys := Function.update db.keys 0 []
      values := Function.update db.values 0 [] } := hP.host h rfl rfl rfl rfl
  exact hP.command hops hcleared

/-! ## Scans -/

theorem bulkyScan {isSeek : NvmeOpcode} (hops : ops isSeek) (iterId cdw10 next : Nat)
    (out : Outside) (h : P db) :
    P (db.bulkyScan exec isSeek iterId cdw10 next out).2.2 := by
  unfold DB.bulkyScan
  split
  · exact h
  · simp only []
    repeat' split
    · exact hP.command hops h
    · exact hP.command hops h
    · exact hP.host (hP.command hops h) rfl rfl rfl rfl

theorem refill {isSeek : NvmeOpcode} (hops : ops isSeek) (iterId : Nat) (key : Bytes)
    (out : Outside) (h : P db) : P (db.refill exec isSeek iterId key out) := by
  have hreply : P (if isSeek = .kvRangeScanSeek then
      db.doBulkyScan exec isSeek iterId key out.next out
    else
      db.doBulkyNextScan exec isSeek iterId (db.brkPointKey iterId) out.next out).2.2 := by
    split
    · exact hP.bulkyScan hops iterId _ _ out h
    · exact hP.bulkyScan hops iterId _ _ out h
  have hscan : P (db.rangeScan exec isSeek iterId key out).2 := by
    unfold rangeScan
    simp only []
    generalize (if isSeek = .kvRangeScanSeek then _ else _) = r at hreply ⊢
    split
    · exact hP.host hreply rfl rfl rfl rfl
    · exact hreply
  exact hP.host hscan rfl rfl rfl rfl

theorem popRecord {iterId : Nat} {r : Bytes × Bytes × DB σ} (h : P db)
    (hpop : db.popRecord iterId = some r) : P r.2.2 := by
  unfold DB.popRecord at hpop
  split at hpop
  · cases hpop
  · cases hpop
    exact hP.host h rfl rfl rfl rfl

theorem noteIter (iterId : Nat) (key value : Bytes) (h : P db) :
    P (db.noteIter iterId key value) :=
  hP.host h rfl rfl rfl rfl

theorem seekScan (hops : ops .kvRangeScanSeek) (iterId : Nat) (key value : Bytes) (out : Outside)
    (h : P db) : P (db.seekScan exec iterId key value out).2.2.2 := by
  have hstart : P { db with scanCnt := Function.update db.scanCnt iterId 1 } :=
    hP.host h rfl rfl rfl rfl
  have hrefill := hP.refill hops iterId key out hstart
  unfold DB.seekScan
  simp only []
  split
  · next hpop =>
      exact hP.finishOp (by decide) (hP.noteIter iterId _ _ (hP.popRecord hrefill hpop))
  · exact hP.finishOp (by decide) hrefill

theorem nextScan (hops : ops .kvRangeScanNext) (iterId : Nat) (key value : Bytes) (out : Outside)
    (h : P db) : P (db.nextScan exec iterId key value out).2.2.2 := by
  have hrefill := hP.refill hops iterId [] out h
  unfold DB.nextScan
  split
  · next hpop => exact hP.finishOp (by decide) (hP.noteIter iterId _ _ (hP.popRecord h hpop))
  · split
    · exact hP.finishOp (by decide) h
    · simp only []
      split
      · next hpop => exact hP.finishOp (by decide) (hP.popRecord hrefill hpop)
      · exact hP.finishOp (by decide) hrefill

theorem bulkyScanThrow {isSeek : NvmeOpcode} (hops : ops isSeek) {db' : DB σ}
    {iterId cdw10 : Nat} {out : Outside} (h : P db)
    (hthrow : db.bulkyScanThrow exec isSeek iterId cdw10 out = some db') : P db' := by
  unfold DB.bulkyScanThrow at hthrow
  split at hthrow
  · cases hthrow
  · simp only [] at hthrow
    split at hthrow
    · cases hthrow
    · obtain ⟨reply, _, rfl⟩ := Option.map_eq_some_iff.mp hthrow
      exact hP.host (hP.command hops h) rfl rfl rfl rfl

theorem scanThrow (hseek : ops .kvRangeScanSeek) (hnext : ops .kvRangeScanNext) {db' : DB σ}
    {c : ScanCall} (h : P db) (hthrow : Spec.scanThrow exec db c = some db') : P db' := by
  cases c with
  | seekScan iterId key value out =>
      have hstart : P { db with scanCnt := Function.update db.scanCnt iterId 1 } :=
        hP.host h rfl rfl rfl rfl
      exact hP.bulkyScanThrow hseek hstart hthrow
  | nextScan iterId key value out =>
      simp only [Spec.scanThrow, nextScanThrow] at hthrow
      split at hthrow
      · exact hP.bulkyScanThrow hnext h hthrow
      · cases hthrow
  | createIter iterId out => cases hthrow
  | destroyIter iterId out => cases hthrow
  | reset out => cases hthrow

/-! ## Puts and flushes -/

section Buffer

variable (hbuf : ∀ {db : DB σ} (bip : BufferingInfo), P db → P { db with bufferingInfo := bip })

include hbuf

omit hP in
theorem buffering (key value : Bytes) (out : Outside) (h : P db) :
    P (db.buffering key value out).2 := by
  unfold DB.buffering
  simp only []
  repeat' split
  · exact h
  all_goals exact hbuf _ h

omit hbuf in
theorem valueFlushLoop (hops : ops .vFlush) (bip : BufferingInfo) (result : Nat) :
    ∀ (fuel i : Nat) {db : DB σ}, P db → P (valueFlushLoop exec bip result fuel i db).2 := by
  intro fuel
  induction fuel with
  | zero => intro i db h; exact h
  | succ fuel ih =>
      intro i db h
      rw [DB.valueFlushLoop]
      split
      · simp only []
        split
        · exact hP.command hops h
        · exact ih (i + 1) (hP.command hops h)
      · exact h

omit hbuf in
theorem keyValueFlush (hops : ops .kvFlush) (out : Outside) (h : P db) :
    P (db.keyValueFlush exec out).2 := by
  rw [DB.keyValueFlush]
  split
  · exact hP.command hops h
  · exact hP.command hops h

theorem flush (hvalue : ops .vFlush) (hkv : ops .kvFlush) (out : Outside) (h : P db) :
    P (db.flush exec out) :=
  hbuf _ (hP.keyValueFlush hkv out (hP.valueFlushLoop hvalue _ _ _ _ h))

theorem put (hvalue : ops .vFlush) (hkv : ops .kvFlush) (key value : Bytes) (out : Outside)
    (h : P db) : P (db.put exec key value out).2 := by
  have hbuffered : P (db.buffering key value out).2 := buffering hbuf key value out h
  unfold DB.put
  simp only []
  split
  · exact hP.finishOp (by decide) (hP.flush hbuf hvalue hkv out hbuffered)
  · exact hP.finishOp (by decide) hbuffered

theorem createIter (hvalue : ops .vFlush) (hkv : ops .kvFlush) (hops : ops .kvIterCreateIter)
    (iterId : Nat) (out : Outside) (h : P db) : P (db.createIter exec iterId out).2.2 := by
  rw [DB.createIter]
  refine hP.createIterCmd hops iterId out ?_
  split
  · exact hP.flush hbuf hvalue hkv out h
  · exact h

end Buffer

end Persists

/-- Commands leave the put buffer alone. -/
theorem persists_bufferingInfo {σ : Type} (exec : Device σ) (bip : BufferingInfo) :
    Persists exec (fun _ => True) fun db => db.bufferingInfo = bip where
  host h hbip _ _ _ := hbip.trans h
  finishOp _ h := h
  command _ h := (DB.nvmePassthru_bufferingInfo exec _ _ _).trans h

end Kvaccel.Ref
