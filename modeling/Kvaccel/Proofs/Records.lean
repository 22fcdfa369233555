import Kvaccel.Proofs.Driver
import Kvaccel.Proofs.PutBuffer
import Kvaccel.Spec.Coherent

/-!
# Records on their way to the device

The records of redirected puts move in one direction: into the host's buffer,
from there to the device, and off the device in a reset. A call of the driver
that moves them is cut into commands, so this file says what each command does
to the records, in the middle of a call as well (`Midway`): nothing that was
covered is uncovered, and the buffer is emptied only after its records have
been sent (`ilsmStep_moved`).
-/

namespace Kvaccel.Ref

open Kvaccel.Lib Kvaccel.Spec

/-! ## Records and commands -/

section Driver

variable {σ : Type} {dev : RecordDevice σ} {db db' : DB σ} {es : List Entry}
  {out : Outside} {k : Bytes}

/-- There is a record under `k` in the buffer or on the device. -/
def Covered (dev : RecordDevice σ) (db : DB σ) (es : List Entry) (k : Bytes) : Prop :=
  k ∈ es.map Prod.fst ∨ dev.has db.device k

/-- The buffer and the records are the same before and after. -/
structure Kept (dev : RecordDevice σ) (db db' : DB σ) : Prop where
  info : db'.bufferingInfo = db.bufferingInfo
  has : ∀ k, dev.has db'.device k ↔ dev.has db.device k

theorem Kept.refl (db : DB σ) : Kept dev db db := ⟨rfl, fun _ => Iff.rfl⟩

theorem Kept.trans {db'' : DB σ} (h : Kept dev db db') (h' : Kept dev db' db'') :
    Kept dev db db'' :=
  ⟨h'.info.trans h.info, fun k => (h'.has k).trans (h.has k)⟩

theorem Kept.batch (h : Kept dev db db') (hb : Batch db es) : Batch db' es := by
  constructor
  · rw [h.info]
    exact hb.table
  · rw [h.info]
    exact hb.init

theorem Kept.covered (h : Kept dev db db') :
    Covered dev db' es k ↔ Covered dev db es k :=
  or_congr_right (h.has k)

theorem Kept.nvmePassthru (dev : RecordDevice σ) (db : DB σ) (cmd : NvmeCmd)
    (result : Nat) (h : leavesRecords cmd.opcode = true) :
    Kept dev db (db.nvmePassthru dev.exec cmd result).2 where
  info := DB.nvmePassthru_bufferingInfo dev.exec db cmd result
  has k := by
    rw [DB.nvmePassthru_device]
    exact dev.keep cmd db.device k h

/-- Of what a call can send, only flushes and resets move records. -/
theorem Kept.persists (dev : RecordDevice σ) (db : DB σ) :
    Persists dev.exec (fun op => leavesRecords op = true) (Kept dev db) where
  host h hinfo _ _ hdev := ⟨hinfo.trans h.info, fun k => by rw [hdev]; exact h.has k⟩
  finishOp _ h := ⟨h.info, h.has⟩
  command hop h := h.trans (.nvmePassthru dev _ _ _ hop)

theorem Kept.get (dev : RecordDevice σ) (db : DB σ) (key value : Bytes)
    (out : Outside) : Kept dev db (db.get dev.exec key value out).2.2 :=
  (Kept.persists dev db).get rfl key value out (.refl db)

theorem Kept.seekScan (dev : RecordDevice σ) (db : DB σ) (iterId : Nat)
    (key value : Bytes) (out : Outside) :
    Kept dev db (db.seekScan dev.exec iterId key value out).2.2.2 :=
  (Kept.persists dev db).seekScan rfl iterId key value out (.refl db)

theorem Kept.nextScan (dev : RecordDevice σ) (db : DB σ) (iterId : Nat)
    (key value : Bytes) (out : Outside) :
    Kept dev db (db.nextScan dev.exec iterId key value out).2.2.2 :=
  (Kept.persists dev db).nextScan rfl iterId key value out (.refl db)

theorem Kept.createIterCmd (dev : RecordDevice σ) (db : DB σ) (iterId : Nat)
    (out : Outside) : Kept dev db (db.createIterCmd dev.exec iterId out).2.2 :=
  (Kept.persists dev db).createIterCmd rfl iterId out (.refl db)

/-- A reset leaves the buffer alone and the device empty. -/
theorem reset_spec (dev : RecordDevice σ) (db : DB σ) (out : Outside) :
    (db.reset dev.exec out).2.bufferingInfo = db.bufferingInfo ∧
      ∀ k, ¬ dev.has (db.reset dev.exec out).2.device k := by
  unfold DB.reset
  simp only []
  refine ⟨DB.nvmePassthru_bufferingInfo .., fun k => ?_⟩
  rw [DB.nvmePassthru_device]
  exact dev.reset _ _ k rfl

/-! ## Inside a call -/

/-- Inside `_Flush`. -/
def IlsmPc.flushing : IlsmPc → Bool
  | .vFlush .. | .kvFlush .. | .release .. => true
  | _ => false

/-- The driver where a call stands at `c`, or between calls. -/
structure Midway (dev : RecordDevice σ) (c : Option IlsmPc) (db : DB σ)
    (es : List Entry) : Prop where
  batch : Batch db es
  room : es.length < limitValueBufferEntry ∨ ∃ pc, c = some pc ∧ pc.flushing = true
  sent : ∀ iter, c = some (.release iter) → ∀ e ∈ es, dev.has db.device e.1
  drained : c = some .iterCmd → es = []

/-- A step of a call from `pc` to `c`. -/
structure Moved (dev : RecordDevice σ) (pc : IlsmPc) (db : DB σ) (es : List Entry)
    (c : Option IlsmPc) (db' : DB σ) (es' : List Entry) : Prop where
  midway : Midway dev c db' es'
  covered : ∀ k, Covered dev db es k → Covered dev db' es' k
  buffered : ∀ k v, pc = .buffering k v → Covered dev db' es' (firstFour k)
  empty : (∀ k v, pc ≠ .buffering k v) → es = [] →
    es' = [] ∧ ∀ k, dev.has db'.device k → dev.has db.device k
  done : (∀ k v, pc ≠ .buffering k v) → c = none → es' = []
  next : ∀ k v, c ≠ some (.buffering k v)

/-- `KV_FLUSH` brings every record of the buffer to the device. -/
theorem Batch.keyValueFlush (h : Batch db es) (dev : RecordDevice σ) (out : Outside) :
    (db.keyValueFlush dev.exec out).2.bufferingInfo = db.bufferingInfo ∧
      ∀ k, dev.has (db.keyValueFlush dev.exec out).2.device k ↔ Covered dev db es k := by
  have hhas : ∀ k, dev.has (dev.exec (DB.keyValueFlushCmd db.bufferingInfo)
      db.device).2 k ↔ Covered dev db es k := by
    intro k
    rw [dev.flush _ _ _ rfl, h.table.flushed, List.map_map]
    exact or_comm
  unfold DB.keyValueFlush
  simp only []
  split
  all_goals
    refine ⟨DB.nvmePassthru_bufferingInfo .., fun k => ?_⟩
    rw [DB.nvmePassthru_device]
    exact hhas k

/-- A call begins. -/
theorem Midway.enter (h : Midway dev none db es) {pc : IlsmPc}
    (hrel : ∀ iter, pc ≠ .release iter) (hiter : pc ≠ .iterCmd) :
    Midway dev (some pc) db es where
  batch := h.batch
  room := h.room.imp_right fun ⟨_, heq, _⟩ => by cases heq
  sent iter heq := absurd (Option.some.inj heq) (hrel iter)
  drained heq := absurd (Option.some.inj heq) hiter

/-- In `_Flush`, before the buffer is dropped. -/
theorem Midway.sending {pc : IlsmPc} (h : Batch db es) (hpc : pc.flushing = true)
    (hrel : ∀ iter, pc ≠ .release iter) : Midway dev (some pc) db es where
  batch := h
  room := Or.inr ⟨pc, rfl, hpc⟩
  sent iter heq := absurd (Option.some.inj heq) (hrel iter)
  drained heq := by
    cases heq
    cases hpc

theorem Midway.returned (h : Batch db es) (hroom : es.length < limitValueBufferEntry) :
    Midway dev none db es where
  batch := h
  room := Or.inl hroom
  sent iter heq := by cases heq
  drained heq := by cases heq

/-- About to create the device's iterator: the buffer is empty. -/
theorem Midway.iterCmd (h : Batch db []) : Midway dev (some .iterCmd) db [] where
  batch := h
  room := Or.inl (by decide)
  sent iter heq := by cases heq
  drained _ := rfl

theorem Moved.of_kept {pc : IlsmPc} {c : Option IlsmPc} (h : Kept dev db db')
    (hmid : Midway dev c db' es) (hpc : ∀ k v, pc ≠ .buffering k v)
    (hdone : c = none → es = []) (hnext : ∀ k v, c ≠ some (.buffering k v)) :
    Moved dev pc db es c db' es where
  midway := hmid
  covered _ hk := h.covered.mpr hk
  buffered k v heq := absurd heq (hpc k v)
  empty _ hnil := ⟨hnil, fun k => (h.has k).mp⟩
  done _ := hdone
  next := hnext

/-- A put joins the buffer, and begins a flush when it takes the last slot. -/
theorem Moved.buffering {k : Key} {v : Value} {iterId : Nat}
    (h : Midway dev (some (.buffering k v)) db es)
    (halloc : db.bufferingInfo.isInitRequired = true →
      out.valueLog.isSome ∧ out.kvPair.isSome) :
    ∃ es', Moved dev (.buffering k v) db es
      (ilsmStep dev.exec out (.buffering k v) iterId db).1
      (ilsmStep dev.exec out (.buffering k v) iterId db).2.2 es' := by
  have hroom : es.length < limitValueBufferEntry := by
    rcases h.room with hroom | ⟨pc, heq, hflush⟩
    · exact hroom
    · cases heq
      cases hflush
  obtain ⟨off, hbatch, hdev⟩ := h.batch.buffering (k := k) (v := v) hroom halloc
  generalize he : (firstFour k, off, v.length) = e at hbatch
  have hkey : e.1 = firstFour k := by rw [← he]
  have hcovered : ∀ db', db'.device = (db.buffering k v out).2.device → ∀ k',
      Covered dev db es k' → Covered dev db' (es ++ [e]) k' := by
    intro db' heq k' hk'
    rw [Covered, heq, hdev, List.map_append]
    rcases hk' with hk' | hk'
    · exact Or.inl (List.mem_append_left _ hk')
    · exact Or.inr hk'
  -- Wherever the call stands next, the records are these.
  have hmoved : ∀ c db', Midway dev c db' (es ++ [e]) →
      db'.device = (db.buffering k v out).2.device →
      (∀ k' v', c ≠ some (.buffering k' v')) →
      Moved dev (.buffering k v) db es c db' (es ++ [e]) := by
    intro c db' hmid heq hnext
    refine ⟨hmid, hcovered db' heq, fun k' v' hpc => ?_, fun hne => absurd rfl (hne k v),
      fun hne => absurd rfl (hne k v), hnext⟩
    cases hpc
    exact Or.inl (by simp [hkey])
  refine ⟨es ++ [e], ?_⟩
  rw [ilsmStep]
  split
  · -- The last slot is taken: `_Flush` begins.
    exact hmoved _ _ (.sending hbatch rfl (by simp)) rfl (by simp)
  · next hfull =>
      have hlen : (es ++ [e]).length < limitValueBufferEntry := by
        rw [hbatch.table.pair] at hfull
        exact Nat.lt_of_le_of_ne hbatch.table.room hfull
      exact hmoved _ _ (.returned ⟨hbatch.table, hbatch.init⟩ hlen) rfl (by simp)

theorem Moved.vFlush {iter : Bool} {i iterId : Nat}
    (h : Midway dev (some (.vFlush iter i)) db es) :
    Moved dev (.vFlush iter i) db es (ilsmStep dev.exec out (.vFlush iter i) iterId db).1
      (ilsmStep dev.exec out (.vFlush iter i) iterId db).2.2 es := by
  have hkept := Kept.nvmePassthru dev db (DB.valueFlushCmd db.bufferingInfo i)
    out.result rfl
  rw [ilsmStep]
  split
  · simp only []
    split
    all_goals
      exact .of_kept hkept (.sending (hkept.batch h.batch) rfl (by simp)) (by simp)
        (by simp) (by simp)
  · exact .of_kept (.refl db) (.sending h.batch rfl (by simp)) (by simp) (by simp)
      (by simp)

/-- The table is sent: what the buffer covered, the device has. -/
theorem Moved.kvFlush {iter : Bool} {iterId : Nat}
    (h : Midway dev (some (.kvFlush iter)) db es) :
    Moved dev (.kvFlush iter) db es (ilsmStep dev.exec out (.kvFlush iter) iterId db).1
      (ilsmStep dev.exec out (.kvFlush iter) iterId db).2.2 es := by
  obtain ⟨hinfo, hhas⟩ := h.batch.keyValueFlush dev out
  have hbatch : Batch (db.keyValueFlush dev.exec out).2 es :=
    ⟨hinfo.symm ▸ h.batch.table, hinfo.symm ▸ h.batch.init⟩
  refine ⟨⟨hbatch, Or.inr ⟨_, rfl, rfl⟩, ?_, ?_⟩, ?_, by simp, ?_, ?_, ?_⟩
  · intro _ _ e he
    exact (hhas e.1).mpr (Or.inl (List.mem_map_of_mem he))
  · intro heq
    cases heq
  · intro k hk
    exact Or.inr ((hhas k).mpr hk)
  · intro _ hnil
    subst hnil
    refine ⟨rfl, fun k hk => ?_⟩
    rcases (hhas k).mp hk with hk | hk
    · cases hk
    · exact hk
  · intro _ hnone
    cases hnone
  · intro k v heq
    cases heq

/-- The buffer is dropped; its records have been sent. -/
theorem Moved.release {iter : Bool} {iterId : Nat}
    (h : Midway dev (some (.release iter)) db es) :
    Moved dev (.release iter) db es (ilsmStep dev.exec out (.release iter) iterId db).1
      (ilsmStep dev.exec out (.release iter) iterId db).2.2 [] := by
  have hcovered : ∀ k, Covered dev db es k → dev.has db.device k := by
    intro k hk
    rcases hk with hk | hk
    · obtain ⟨e, he, rfl⟩ := List.mem_map.mp hk
      exact h.sent iter rfl e he
    · exact hk
  cases iter with
  | false =>
      exact ⟨.returned ⟨(batch_release db).table, fun _ => rfl⟩ (by decide),
        fun k hk => Or.inr (hcovered k hk), by simp,
        fun _ _ => ⟨rfl, fun _ hk => hk⟩, fun _ _ => rfl, by simp [ilsmStep]⟩
  | true =>
      exact ⟨.iterCmd (batch_release db), fun k hk => Or.inr (hcovered k hk), by simp,
        fun _ _ => ⟨rfl, fun _ hk => hk⟩, fun _ _ => rfl, by simp [ilsmStep]⟩

theorem Moved.createIter {iterId : Nat} (h : Midway dev (some .createIter) db es) :
    Moved dev .createIter db es (ilsmStep dev.exec out .createIter iterId db).1
      (ilsmStep dev.exec out .createIter iterId db).2.2 es := by
  rw [ilsmStep]
  split
  · exact .of_kept (.refl db) (.sending h.batch rfl (by simp)) (by simp) (by simp)
      (by simp)
  · next hcnt =>
      have hnil : es = [] := by
        rw [h.batch.table.cnt] at hcnt
        exact List.length_eq_zero_iff.mp (by omega)
      subst hnil
      exact .of_kept (.refl db) (.iterCmd h.batch) (by simp) (by simp) (by simp)

theorem Moved.iterCmd {iterId : Nat} (h : Midway dev (some .iterCmd) db es) :
    Moved dev .iterCmd db es (ilsmStep dev.exec out .iterCmd iterId db).1
      (ilsmStep dev.exec out .iterCmd iterId db).2.2 es := by
  have hnil := h.drained rfl
  subst hnil
  have hkept : Kept dev db (ilsmStep dev.exec out .iterCmd iterId db).2.2 :=
    .createIterCmd dev db iterId out
  exact .of_kept hkept (.returned (hkept.batch h.batch) (by decide)) (by simp)
    (fun _ => rfl) (by simp [ilsmStep])

/-- What one command of a call does to the records. -/
theorem ilsmStep_moved {pc : IlsmPc} {iterId : Nat} (h : Midway dev (some pc) db es)
    (halloc : ∀ k v, pc = .buffering k v → db.bufferingInfo.isInitRequired = true →
      out.valueLog.isSome ∧ out.kvPair.isSome) :
    ∃ es', Moved dev pc db es (ilsmStep dev.exec out pc iterId db).1
      (ilsmStep dev.exec out pc iterId db).2.2 es' := by
  cases pc with
  | buffering k v => exact Moved.buffering h (halloc k v rfl)
  | vFlush iter i => exact ⟨es, .vFlush h⟩
  | kvFlush iter => exact ⟨es, .kvFlush h⟩
  | release iter => exact ⟨[], .release h⟩
  | createIter => exact ⟨es, .createIter h⟩
  | iterCmd => exact ⟨es, .iterCmd h⟩

end Driver

end Kvaccel.Ref
