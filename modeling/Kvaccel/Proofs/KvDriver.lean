import Kvaccel.Proofs.Driver
import Kvaccel.Proofs.DriverSilent
import Kvaccel.Proofs.FreshScan
import Kvaccel.Proofs.Sections

/-!
# The driver's calls, one command at a time

What the calls of `iLSM::DB` do over a map is known for a call in one piece.
Two things are in between here. The device is any `KvDevice`, so the driver over
it is compared with the driver over the map, which has the same buffer over the
same stored records (`Simulates`); and a call is a sequence of commands, each
with allocations and leftovers of its own. Only the first command of a put
looks at the allocations, and no leftover reaches the buffer or the device, so
the commands come to the call in one piece (`devPut_eq`, `devIter_eq`).

The scan of a pass is then a scan over the records put and not yet moved, and
it leaves the lists of all iterators empty, as it found them.
-/

namespace Kvaccel.Spec

open Kvaccel.Lib Kvaccel.Ref

/-! ## Over the map -/

section Simulates

variable {σ : Type} {K : KvDevice σ} {db : DB σ} {m : DB MapDevice}

/-- The same buffer over the same stored records. -/
structure Simulates (K : KvDevice σ) (db : DB σ) (m : DB MapDevice) : Prop where
  buffer : db.bufferingInfo = m.bufferingInfo
  mem : K.mem db.device = m.device

theorem Simulates.nvmePassthru (h : Simulates K db m) (cmd : NvmeCmd) (result result' : Nat) :
    Simulates K (db.nvmePassthru K.exec cmd result).2
      (m.nvmePassthru MapDevice.exec cmd result').2 := by
  refine ⟨?_, ?_⟩
  · rw [DB.nvmePassthru_bufferingInfo, DB.nvmePassthru_bufferingInfo, h.buffer]
  · rw [DB.nvmePassthru_device, DB.nvmePassthru_device, K.acts, h.mem]

/-- Neither flush command fails. -/
theorem flush_err (K : KvDevice σ) (db : DB σ) {cmd : NvmeCmd} (result : Nat)
    (hop : cmd.opcode = .vFlush ∨ cmd.opcode = .kvFlush) :
    (db.nvmePassthru K.exec cmd result).1.err = 0 := by
  rw [DB.nvmePassthru_err, K.ok cmd db.device hop]

theorem flush_err_map (m : DB MapDevice) {cmd : NvmeCmd} (result : Nat)
    (hop : cmd.opcode = .vFlush ∨ cmd.opcode = .kvFlush) :
    (m.nvmePassthru MapDevice.exec cmd result).1.err = 0 := by
  rw [DB.nvmePassthru_err]
  rcases hop with hop | hop <;> simp only [MapDevice.exec, hop]

theorem Simulates.valueFlushLoop (bip : BufferingInfo) (result : Nat) : ∀ (fuel i : Nat)
    {db : DB σ} {m : DB MapDevice}, Simulates K db m →
    Simulates K (DB.valueFlushLoop K.exec bip result fuel i db).2
      (DB.valueFlushLoop MapDevice.exec bip result fuel i m).2 := by
  intro fuel
  induction fuel with
  | zero => intro i db m h; exact h
  | succ fuel ih =>
      intro i db m h
      have hop : (DB.valueFlushCmd bip i).opcode = .vFlush ∨
        (DB.valueFlushCmd bip i).opcode = .kvFlush := Or.inl rfl
      rw [DB.valueFlushLoop, DB.valueFlushLoop]
      by_cases hmore : u32 (i * limitValueBufferEntry) < bip.valueLogOffset
      · rw [if_pos hmore, if_pos hmore]
        simp only [flush_err K db result hop, flush_err_map m result hop]
        exact ih (i + 1) (h.nvmePassthru _ result result)
      · rw [if_neg hmore, if_neg hmore]
        exact h

theorem Simulates.keyValueFlush (h : Simulates K db m) (out : Outside) :
    Simulates K (db.keyValueFlush K.exec out).2 (m.keyValueFlush MapDevice.exec out).2 := by
  have hop : (DB.keyValueFlushCmd m.bufferingInfo).opcode = .vFlush ∨
    (DB.keyValueFlushCmd m.bufferingInfo).opcode = .kvFlush := Or.inr rfl
  unfold DB.keyValueFlush
  rw [h.buffer]
  simp only [flush_err K db out.result hop, flush_err_map m out.result hop]
  exact h.nvmePassthru _ out.result out.result

theorem Simulates.flush (h : Simulates K db m) (out : Outside) :
    Simulates K (db.flush K.exec out) (m.flush MapDevice.exec out) := by
  have hvalue : Simulates K (db.valueFlush K.exec out).2 (m.valueFlush MapDevice.exec out).2 := by
    unfold DB.valueFlush
    rw [h.buffer]
    exact Simulates.valueFlushLoop _ _ _ _ h
  exact ⟨rfl, (hvalue.keyValueFlush out).mem⟩

theorem Simulates.buffering (h : Simulates K db m) (k v : Bytes) (out : Outside) :
    Simulates K (db.buffering k v out).2 (m.buffering k v out).2 := by
  unfold DB.buffering
  rw [h.buffer]
  by_cases hinit : m.bufferingInfo.isInitRequired = true
  · rw [if_pos hinit, if_pos hinit]
    cases out.valueLog with
    | none => exact h
    | some valueLog => cases out.kvPair <;> exact ⟨rfl, h.mem⟩
  · rw [if_neg hinit, if_neg hinit]
    exact ⟨rfl, h.mem⟩

theorem Simulates.put (h : Simulates K db m) (k v : Bytes) (out : Outside) :
    Simulates K (db.put K.exec k v out).2 (m.put MapDevice.exec k v out).2 := by
  have hbuf := h.buffering k v out
  unfold DB.put
  simp only [hbuf.buffer]
  split
  · have hflush := hbuf.flush out
    exact ⟨hflush.buffer, hflush.mem⟩
  · exact ⟨hbuf.buffer, hbuf.mem⟩

theorem Simulates.createIter (h : Simulates K db m) (iterId : Nat) (out : Outside) :
    Simulates K (db.createIter K.exec iterId out).2.2
      (m.createIter MapDevice.exec iterId out).2.2 := by
  have hcmd : ∀ {db : DB σ} {m : DB MapDevice}, Simulates K db m →
      Simulates K (db.createIterCmd K.exec iterId out).2.2
        (m.createIterCmd MapDevice.exec iterId out).2.2 := by
    intro db m h
    rw [DB.createIterCmd_db, DB.createIterCmd_db]
    have hpass := h.nvmePassthru { opcode := .kvIterCreateIter } out.result out.result
    exact ⟨hpass.buffer, hpass.mem⟩
  unfold DB.createIter
  rw [h.buffer]
  split
  · exact hcmd (h.flush out)
  · exact hcmd h

end Simulates

/-! ## What the driver holds -/

section Stored

variable {σ : Type} {K : KvDevice σ} {s : Split} {db db' : DB σ} {k : Key} {v : Value}

/-- The flushed puts are on the device and the pending ones in the buffer. -/
def Stored (K : KvDevice σ) (s : Split) (db : DB σ) : Prop :=
  ∃ m, Simulates K db m ∧ DB.Holds s m

theorem Stored.buffered (h : Stored K s db) : DB.Buffered db.bufferingInfo s.pending := by
  obtain ⟨m, hsim, hholds⟩ := h
  rw [hsim.buffer]
  exact hholds.buffered

theorem Stored.map (h : Stored K s db) : (K.mem db.device).map = lastPut s.flushed := by
  obtain ⟨m, hsim, hholds⟩ := h
  rw [hsim.mem]
  exact hholds.device

theorem Stored.congr (h : Stored K s db) (hbuf : db'.bufferingInfo = db.bufferingInfo)
    (hmem : K.mem db'.device = K.mem db.device) : Stored K s db' := by
  obtain ⟨m, hsim, hholds⟩ := h
  exact ⟨m, ⟨hbuf.trans hsim.buffer, hmem.trans hsim.mem⟩, hholds⟩

theorem stored_opened {device : σ} (h : K.mem device = MapDevice.empty) :
    Stored K ⟨[], []⟩ (DB.opened device) :=
  ⟨DB.opened MapDevice.empty, ⟨rfl, h⟩, DB.holds_opened⟩

/-- What a put may find outside: its allocations succeed. -/
def Supplied (out : Outside) : Prop :=
  out.valueLog.isSome ∧ out.kvPair.isSome ∧ out.data = true

/-- The same, computed. -/
def isSupplied (out : Outside) : Bool := out.valueLog.isSome && out.kvPair.isSome && out.data

theorem supplied_iff (out : Outside) : Supplied out ↔ isSupplied out = true := by
  simp [Supplied, isSupplied, and_assoc]

theorem pagesOf_fitting {p : List (Key × Value)} (h : ∀ r ∈ p, Fitting r) :
    pagesOf (p.map Prod.snd) ≤ 2 * p.length := by
  induction p with
  | nil => exact Nat.le_refl _
  | cons r p ih =>
      have hr := (h r List.mem_cons_self).2
      have hrest := ih fun r' hr' => h r' (List.mem_cons_of_mem _ hr')
      have hpages : pages r.2.length ≤ 2 := by
        unfold pages
        omega
      rw [List.map_cons, DB.pagesOf_cons, List.length_cons]
      omega

theorem Stored.fits (h : Stored K s db) (hfit : ∀ r ∈ s.pending, Fitting r)
    (hput : Fitting (k, v)) :
    pagesOf ((s.pending ++ [(k, v)]).map Prod.snd) ≤ maxValueBufferEntry := by
  have hpages := pagesOf_fitting (p := s.pending ++ [(k, v)]) (by
    intro r hr
    rcases List.mem_append.mp hr with hr | hr
    · exact hfit r hr
    · rw [List.mem_singleton.mp hr]
      exact hput)
  obtain ⟨m, _, hholds⟩ := h
  have hroom := hholds.room
  rw [List.length_append, List.length_singleton] at hpages
  unfold limitValueBufferEntry at hroom
  unfold maxValueBufferEntry
  omega

theorem Stored.put (h : Stored K s db) (hfit : ∀ r ∈ s.pending, Fitting r)
    (hput : Fitting (k, v)) {out : Outside} (hout : Supplied out) :
    Stored K (splitStep s (.put k v .fine)) (db.put K.exec k v out).2 := by
  have hpages := h.fits hfit hput
  obtain ⟨m, hsim, hholds⟩ := h
  obtain ⟨⟨hkey, hne, hnul⟩, _⟩ := hput
  exact ⟨_, hsim.put k v out, hholds.put ⟨hkey, hne, hnul, hout.1, hout.2.1⟩ hpages⟩

theorem Stored.createIter (h : Stored K s db) (iterId : Nat) (out : Outside) :
    Stored K ⟨s.flushed ++ s.pending, []⟩ (db.createIter K.exec iterId out).2.2 := by
  obtain ⟨m, hsim, hholds⟩ := h
  exact ⟨_, hsim.createIter iterId out, hholds.createIter iterId out⟩

theorem Stored.reset {l : List (Key × Value)} (h : Stored K ⟨l, []⟩ db) (out : Outside) :
    Stored K ⟨[], []⟩ (db.reset K.exec out).2 := by
  obtain ⟨m, hsim, hholds⟩ := h
  refine ⟨(m.reset MapDevice.exec out).2, ?_, ?_⟩
  · refine ⟨?_, ?_⟩
    · unfold DB.reset
      rw [DB.nvmePassthru_bufferingInfo, DB.nvmePassthru_bufferingInfo]
      exact hsim.buffer
    · unfold DB.reset
      rw [DB.nvmePassthru_device, DB.nvmePassthru_device, K.acts, hsim.mem]
  · refine ⟨?_, ?_, by simp, by decide, by decide, by simp [lastPut, applied]⟩
    · unfold DB.reset
      rw [DB.nvmePassthru_bufferingInfo]
      exact hholds.buffered
    · unfold DB.reset
      rw [DB.nvmePassthru_device]
      rfl

/-- Scans and the creation of an iterator touch neither side. -/
theorem persists_stored (K : KvDevice σ) (s : Split) :
    Persists K.exec (fun op => op = .kvRangeScanSeek ∨ op = .kvRangeScanNext)
      (Stored K s) where
  host h hbuf _ _ hdev := h.congr hbuf (by rw [hdev])
  finishOp _ h := h.congr rfl rfl
  command := by
    intro db cmd result hop h
    refine h.congr (DB.nvmePassthru_bufferingInfo ..) ?_
    rw [DB.nvmePassthru_device, K.acts]
    rcases hop with hop | hop <;> simp only [MapDevice.exec, hop]

end Stored

/-! ## A call, command by command -/

section Calls

variable {σ : Type} {exec : Device σ} {E : Outside → Prop} {pc : IlsmPc} {db db' : DB σ}
  {k : Key} {v : Value}

/-- Past `_Buffering`. -/
def flushing : IlsmPc → Bool
  | .buffering _ _ => false
  | _ => true

/-- `uint32_t result` is for the caller alone. -/
theorem nvmePassthru_result (exec : Device σ) (db : DB σ) (cmd : NvmeCmd) (result result' : Nat) :
    (db.nvmePassthru exec cmd result).2 = (db.nvmePassthru exec cmd result').2 := by
  unfold DB.nvmePassthru
  simp only []
  split <;> rfl

theorem keyValueFlush_result (exec : Device σ) (db : DB σ) (out : Outside) :
    (db.keyValueFlush exec out).2 =
      (db.nvmePassthru exec (DB.keyValueFlushCmd db.bufferingInfo) 0).2 := by
  unfold DB.keyValueFlush
  simp only []
  split <;> exact nvmePassthru_result exec db _ _ _

/-- From there on nothing outside the driver and the device has a say in where
the call goes and what it leaves. -/
theorem ilsmStep_flushing (hpc : flushing pc = true) (out out' : Outside) (iterId iterId' : Nat) :
    (ilsmStep exec out pc iterId db).1 = (ilsmStep exec out' pc iterId' db).1 ∧
      (ilsmStep exec out pc iterId db).2.2 = (ilsmStep exec out' pc iterId' db).2.2 ∧
      ∀ pc', (ilsmStep exec out pc iterId db).1 = some pc' → flushing pc' = true := by
  cases pc with
  | buffering k v => cases hpc
  | vFlush iter i =>
      have hdb := nvmePassthru_result exec db (DB.valueFlushCmd db.bufferingInfo i) out.result
        out'.result
      simp only [ilsmStep, DB.nvmePassthru_err, hdb]
      split
      · split <;> exact ⟨rfl, rfl, fun pc' h => by cases h; rfl⟩
      · exact ⟨rfl, rfl, fun pc' h => by cases h; rfl⟩
  | kvFlush iter =>
      refine ⟨rfl, ?_, fun pc' h => by cases h; rfl⟩
      simp only [ilsmStep, keyValueFlush_result]
  | release iter => cases iter <;> exact ⟨rfl, rfl, fun pc' h => by cases h <;> rfl⟩
  | createIter =>
      refine ⟨rfl, rfl, fun pc' h => ?_⟩
      simp only [ilsmStep, Option.some.injEq] at h
      split at h <;> (subst h; rfl)
  | iterCmd =>
      refine ⟨rfl, ?_, fun pc' h => by cases h⟩
      simp only [ilsmStep, DB.createIterCmd_db]
      rw [nvmePassthru_result]

theorem runPc_last {out : Outside} {iterId : Nat} (h : (ilsmStep exec out pc iterId db).1 = none)
    (fuel : Nat) : runPc exec out (fuel + 1) pc iterId db =
      some (ilsmStep exec out pc iterId db).2 := by
  rw [runPc]
  generalize ilsmStep exec out pc iterId db = step at h ⊢
  obtain ⟨next, r⟩ := step
  change next = _ at h
  subst h
  rfl

theorem runPc_more {out : Outside} {iterId : Nat} {pc' : IlsmPc}
    (h : (ilsmStep exec out pc iterId db).1 = some pc') (fuel : Nat) :
    runPc exec out (fuel + 1) pc iterId db = runPc exec out fuel pc'
      (ilsmStep exec out pc iterId db).2.1 (ilsmStep exec out pc iterId db).2.2 := by
  rw [runPc]
  generalize ilsmStep exec out pc iterId db = step at h ⊢
  obtain ⟨next, r⟩ := step
  change next = _ at h
  subst h
  rfl

/-- A call in one piece from there on, held against one of its steps under any
other inputs. -/
theorem runPc_flushing {out : Outside} {fuel iterId : Nat} {r : Nat × DB σ}
    (hpc : flushing pc = true) (hrun : runPc exec out fuel pc iterId db = some r) (out' : Outside)
    (iterId' : Nat) :
    ((ilsmStep exec out' pc iterId' db).1 = none →
      r.2 = (ilsmStep exec out' pc iterId' db).2.2) ∧
    ∀ pc', (ilsmStep exec out' pc iterId' db).1 = some pc' → flushing pc' = true ∧
      ∃ fuel' id, runPc exec out fuel' pc' id (ilsmStep exec out' pc iterId' db).2.2 = some r := by
  cases fuel with
  | zero => cases hrun
  | succ fuel =>
      obtain ⟨hnext, hdb, _⟩ : _ ∧ (ilsmStep exec out pc iterId db).2.2 = _ ∧ _ :=
        ilsmStep_flushing hpc out out' iterId iterId'
      constructor
      · intro hends
        rw [runPc_last (hnext.trans hends)] at hrun
        cases hrun
        exact hdb
      · intro pc' hgoes
        rw [runPc_more (hnext.trans hgoes), hdb] at hrun
        exact ⟨(ilsmStep_flushing hpc out' out' iterId' iterId').2.2 pc' hgoes, _, _, hrun⟩

/-- However the rest of a put is interrupted, it ends as it would in one piece. -/
theorem DevPut.runPc {pc : (ilsmDev exec).Pc} {db db' : (ilsmDev exec).St}
    (h : DevPut (D := ilsmDev exec) E pc db db') : flushing pc = true →
    ∀ (out : Outside) (fuel iterId : Nat) (r : Nat × DB σ),
      Ref.runPc exec out fuel pc iterId db = some r → r.2 = db' := by
  induction h with
  | last allowed ends =>
      intro hpc out fuel iterId r hrun
      exact (runPc_flushing hpc hrun _ 0).1 ends
  | more allowed goes rest ih =>
      intro hpc out fuel iterId r hrun
      obtain ⟨hflush, fuel', id, hrest⟩ := (runPc_flushing hpc hrun _ 0).2 _ goes
      exact ih hflush out fuel' id r hrest

theorem DevPut.first {D : DevLsm} {E : D.Env → Prop} {pc : D.Pc} {st st' : D.St}
    (h : DevPut E pc st st') :
    ∃ env, E env ∧ (((D.step env pc 0 st).1 = none ∧ (D.step env pc 0 st).2.2 = st') ∨
      ∃ pc', (D.step env pc 0 st).1 = some pc' ∧ DevPut E pc' (D.step env pc 0 st).2.2 st') := by
  cases h with
  | last allowed ends => exact ⟨_, allowed, Or.inl ⟨ends, rfl⟩⟩
  | more allowed goes rest => exact ⟨_, allowed, Or.inr ⟨_, goes, rest⟩⟩

/-- A put of the threads is `DB::Put`, on what its first command finds. -/
theorem devPut_eq {n : Nat} (hn : ∀ out, E out →
      (db.buffering k v out).2.bufferingInfo.valueLogOffset ≤ n)
    (hwrap : n * limitValueBufferEntry < 4294967296)
    (h : DevPut (D := ilsmDev exec) E (.buffering k v) db db') :
    ∃ out, E out ∧ db' = (db.put exec k v out).2 := by
  obtain ⟨out, hout, hfirst⟩ := h.first
  refine ⟨out, hout, ?_⟩
  have hrun : Ref.runPc exec out (n + 4) (.buffering k v) 0 db =
      some (0, (db.put exec k v out).2) :=
    runPc_put rfl (Nat.lt_of_le_of_lt (Nat.mul_le_mul_right _ (hn out hout)) hwrap)
      (Nat.add_le_add_right (hn out hout) 4)
  rcases hfirst with ⟨hend, hdb⟩ | ⟨pc', hgo, hrest⟩
  · rw [runPc_last hend] at hrun
    exact hdb.symm.trans (congrArg Prod.snd (Option.some.inj hrun))
  · rw [runPc_more hgo] at hrun
    refine (hrest.runPc ?_ out _ _ _ hrun).symm
    -- After `_Buffering` only a flush is left.
    change (ilsmStep exec out (.buffering k v) 0 db).1 = some pc' at hgo
    simp only [ilsmStep] at hgo
    split at hgo
    · cases hgo
      rfl
    · cases hgo

theorem DevIter.runPc {pc : (ilsmDev exec).Pc} {db db' : (ilsmDev exec).St}
    {iterId iterId' : Nat} (h : DevIter (D := ilsmDev exec) E pc iterId db iterId' db') :
    flushing pc = true →
    ∀ (out : Outside) (fuel id : Nat) (r : Nat × DB σ),
      Ref.runPc exec out fuel pc id db = some r → r.2 = db' := by
  induction h with
  | last allowed ends =>
      intro hpc out fuel id r hrun
      exact (runPc_flushing hpc hrun _ _).1 ends
  | more allowed goes rest ih =>
      intro hpc out fuel id r hrun
      obtain ⟨hflush, fuel', id', hrest⟩ := (runPc_flushing hpc hrun _ _).2 _ goes
      exact ih hflush out fuel' id' r hrest

/-- The creation of an iterator leaves what `DB::CreateIter` leaves. -/
theorem devIter_eq {iterId iterId' n : Nat} (hn : db.bufferingInfo.valueLogOffset ≤ n)
    (hwrap : n * limitValueBufferEntry < 4294967296)
    (h : DevIter (D := ilsmDev exec) E .createIter iterId db iterId' db') :
    db' = (db.createIter exec iterId .fine).2.2 := by
  have hrun : Ref.runPc exec .fine (n + 5) .createIter iterId db =
      some (db.createIter exec iterId .fine).2 :=
    runPc_createIter rfl (Nat.lt_of_le_of_lt (Nat.mul_le_mul_right _ hn) hwrap) (by omega)
  exact (h.runPc rfl .fine _ _ _ hrun).symm

end Calls

end Kvaccel.Spec
