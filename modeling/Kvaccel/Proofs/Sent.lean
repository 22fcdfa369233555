import Kvaccel.Proofs.Driver
import Kvaccel.Proofs.HostBuffer
import Kvaccel.Spec.Sent

/-!
# Every put is sent once

A flush appends one table to the log of commands, behind the chunks of the
value log, and the table is the buffer as it was. So the tables sent and the
buffer together are the puts in call order, whichever of the two triggers made
a flush: a put moves nothing out of that list and appends itself, a flush only
moves the boundary between what is sent and what is not.

Nothing here depends on what the device answers; a failed command is in the
log like any other.
-/

namespace Kvaccel.Ref

open Kvaccel.Lib Kvaccel.Spec

namespace DB

/-! ## The records of a table -/

def entryKeySize (e : Entry) : KeySize := (e.1, u32 e.2.2)

theorem entriesFrom_keySize : ∀ (p : List (Key × Value)) (off : Nat),
    (entriesFrom off p).map entryKeySize = p.map keySize := by
  intro p
  induction p with
  | nil => intro off; rfl
  | cons r p ih =>
      intro off
      rw [entriesFrom, List.map_cons, ih, List.map_cons]
      rfl

theorem Table.bufferRecords {bip : BufferingInfo} {es : List Entry} (h : Table bip es) :
    bufferRecords bip = es.map entryKeySize := by
  rw [Spec.bufferRecords, tableRecords, h.pair, h.parse, List.map_map]
  rfl

theorem Table.cmdRecords {bip : BufferingInfo} {es : List Entry} (h : Table bip es) :
    cmdRecords (keyValueFlushCmd bip) = es.map entryKeySize := by
  rw [Spec.cmdRecords, tableRecords, h.flushed, List.map_map]
  rfl

/-! ## The log of a flush -/

section Log

variable {σ : Type}

theorem nvmePassthru_logged (exec : Device σ) (db : DB (σ × CmdLog)) (cmd : NvmeCmd)
    (result : Nat) :
    ∃ err, (db.nvmePassthru (logged exec) cmd result).1.err = err ∧
      (db.nvmePassthru (logged exec) cmd result).2.device.2 = db.device.2 ++ [(cmd, err)] := by
  rw [nvmePassthru_device, nvmePassthru_err]
  exact ⟨_, rfl, rfl⟩

/-- The loop sends `V_FLUSH` commands and leaves the buffer alone. -/
theorem valueFlushLoop_logged (exec : Device σ) (bip : BufferingInfo) (result : Nat) :
    ∀ (fuel i : Nat) (db : DB (σ × CmdLog)), ∃ vs : CmdLog,
      (∀ e ∈ vs, e.1.opcode = .vFlush) ∧
      (valueFlushLoop (logged exec) bip result fuel i db).2.device.2 =
        db.device.2 ++ vs ∧
      (valueFlushLoop (logged exec) bip result fuel i db).2.bufferingInfo =
        db.bufferingInfo := by
  intro fuel
  induction fuel with
  | zero =>
      intro i db
      exact ⟨[], by simp, by simp [valueFlushLoop], rfl⟩
  | succ fuel ih =>
      intro i db
      rw [valueFlushLoop]
      split
      · obtain ⟨err, _, hlog⟩ := nvmePassthru_logged exec db (valueFlushCmd bip i) result
        have hinfo := nvmePassthru_bufferingInfo (logged exec) db (valueFlushCmd bip i) result
        simp only []
        split
        · refine ⟨[(valueFlushCmd bip i, err)], ?_, hlog, hinfo⟩
          intro e he
          rw [List.mem_singleton.mp he]
          rfl
        · obtain ⟨vs, hvs, hrest, hinfo'⟩ := ih (i + 1)
            (db.nvmePassthru (logged exec) (valueFlushCmd bip i) result).2
          refine ⟨(valueFlushCmd bip i, err) :: vs, ?_, ?_, hinfo'.trans hinfo⟩
          · intro e he
            rcases List.mem_cons.mp he with rfl | he
            · rfl
            · exact hvs e he
          · rw [hrest, hlog, List.append_assoc, List.singleton_append]
      · exact ⟨[], by simp, by simp, rfl⟩

theorem flush_logged (exec : Device σ) (db : DB (σ × CmdLog)) (out : Outside) :
    ∃ (vs : CmdLog) (err : Int), (∀ e ∈ vs, e.1.opcode = .vFlush) ∧
      (db.valueFlush (logged exec) out).2.device.2 = db.device.2 ++ vs ∧
      (db.flush (logged exec) out).device.2 =
        db.device.2 ++ (vs ++ [(keyValueFlushCmd db.bufferingInfo, err)]) := by
  obtain ⟨vs, hvs, hlog, hinfo⟩ := valueFlushLoop_logged exec db.bufferingInfo
    out.result db.bufferingInfo.valueLogOffset 0 db
  obtain ⟨err, _, hkv⟩ := nvmePassthru_logged exec (db.valueFlush (logged exec) out).2
    (keyValueFlushCmd (db.valueFlush (logged exec) out).2.bufferingInfo) out.result
  refine ⟨vs, err, hvs, hlog, ?_⟩
  have hvalue : (db.valueFlush (logged exec) out).2.bufferingInfo = db.bufferingInfo := hinfo
  have hdev : (db.valueFlush (logged exec) out).2.device.2 = db.device.2 ++ vs := hlog
  rw [hvalue, hdev, List.append_assoc] at hkv
  unfold flush keyValueFlush
  simp only [hvalue]
  split
  · exact hkv
  · exact hkv

end Log

theorem sentRecords_append (log log' : CmdLog) :
    sentRecords (log ++ log') = sentRecords log ++ sentRecords log' := by
  rw [sentRecords, List.flatMap_append]
  rfl

theorem sentRecords_vFlush {vs : CmdLog} (h : ∀ e ∈ vs, e.1.opcode = .vFlush) :
    sentRecords vs = [] := by
  rw [sentRecords, List.flatMap_eq_nil_iff]
  intro e he
  rw [if_neg (by rw [h e he]; decide)]

/-- A flush sends the table it found. -/
theorem sentRecords_flush {σ : Type} {exec : Device σ} {db : DB (σ × CmdLog)}
    {es : List Entry} (h : Table db.bufferingInfo es) (out : Outside) :
    sentRecords (db.flush (logged exec) out).device.2 =
      sentRecords db.device.2 ++ es.map entryKeySize := by
  obtain ⟨vs, err, hvs, _, hlog⟩ := flush_logged exec db out
  have htable : sentRecords [(keyValueFlushCmd db.bufferingInfo, err)] =
      es.map entryKeySize := by
    rw [← h.cmdRecords]
    simp [sentRecords, keyValueFlushCmd]
  rw [hlog, sentRecords_append, sentRecords_append, sentRecords_vFlush hvs,
    List.nil_append, htable]

/-! ## One call -/

/-- The driver's buffer and its log hold the division `s` of the puts. -/
structure Carries {σ : Type} (s : Split) (db : DB (σ × CmdLog)) : Prop where
  buffered : Buffered db.bufferingInfo s.pending
  sent : sentRecords db.device.2 = s.flushed.map keySize
  room : s.pending.length < limitValueBufferEntry

section Calls

variable {σ : Type} {exec : Device σ} {s : Split} {db : DB (σ × CmdLog)}

theorem Carries.finishOp (h : Carries s db) (op : Nat) : Carries s (db.finishOp op) :=
  ⟨h.buffered, h.sent, h.room⟩

theorem carries_opened (d : σ) : Carries ⟨[], []⟩ (opened (d, ([] : CmdLog))) where
  buffered := buffered_opened _
  sent := rfl
  room := by decide

/-- A flush moves the batch over, full or not. -/
theorem carries_flush {f p : List (Key × Value)} (db : DB (σ × CmdLog))
    (hbuf : Buffered db.bufferingInfo p)
    (hsent : sentRecords db.device.2 = f.map keySize) (out : Outside) :
    Carries ⟨f ++ p, []⟩ (db.flush (logged exec) out) := by
  refine ⟨buffered_release _, ?_, Nat.succ_pos _⟩
  rw [sentRecords_flush hbuf.table, hsent, entriesFrom_keySize, List.map_append]

theorem Carries.put (h : Carries s db) {key value : Bytes} {out : Outside}
    (hvl : out.valueLog.isSome) (hkv : out.kvPair.isSome)
    (hfits : pagesOf ((s.pending ++ [(key, value)]).map Prod.snd) ≤
      maxValueBufferEntry) :
    Carries (splitStep s (.put key value out)) (db.put (logged exec) key value out).2 := by
  obtain ⟨bip, hbuf, hbip⟩ := h.buffered.buffering h.room hfits hvl hkv
  have hpair := hbip.table.pair
  rw [length_entriesFrom, List.length_append, List.length_singleton] at hpair
  have hroom := h.room
  rw [DB.put, hbuf, splitStep]
  simp only [hpair]
  split
  · exact (carries_flush { db with bufferingInfo := bip } hbip h.sent out).finishOp 0
  · next hne =>
      have hcarries : Carries ⟨s.flushed, s.pending ++ [(key, value)]⟩
          { db with bufferingInfo := bip } := by
        refine ⟨hbip, h.sent, ?_⟩
        rw [List.length_append, List.length_singleton]
        omega
      exact hcarries.finishOp 0

/-- A command other than a flush leaves buffer and tables alone. -/
theorem persists_carries (exec : Device σ) (s : Split) :
    Persists (logged exec) (· ≠ .kvFlush) (Carries s) where
  host h hbip _ _ hdevice := by
    refine ⟨?_, ?_, h.room⟩
    · rw [hbip]
      exact h.buffered
    · rw [hdevice]
      exact h.sent
  finishOp _ h := h.finishOp _
  command {db cmd result} hop h := by
    obtain ⟨err, _, hlog⟩ := nvmePassthru_logged exec db cmd result
    refine ⟨?_, ?_, h.room⟩
    · rw [nvmePassthru_bufferingInfo]
      exact h.buffered
    · have hnone : sentRecords [(cmd, err)] = [] := by
        simp [sentRecords, hop]
      rw [hlog, sentRecords_append, hnone, List.append_nil, h.sent]

theorem Carries.createIter (h : Carries s db) (iterId : Nat) (out : Outside) :
    Carries (splitStep s (.createIter iterId out))
      (db.createIter (logged exec) iterId out).2.2 := by
  refine (persists_carries exec _).createIterCmd (by decide) iterId out ?_
  rcases h.buffered.flushBeforeIter (logged exec) out with hflush | ⟨hp, hflush⟩
  · rw [hflush]
    exact carries_flush db h.buffered h.sent out
  · rw [hflush, splitStep, hp, List.append_nil, ← hp]
    exact h

theorem Carries.call (h : Carries s db) {c : Call} (halloc : Allocated c)
    (hfits : pagesOf ((s.pending ++ (putOf c).toList).map Prod.snd) ≤
      maxValueBufferEntry) :
    Carries (splitStep s c) (call (logged exec) db c).2 := by
  cases c with
  | put key value out => exact h.put halloc.1 halloc.2 hfits
  | get key value out => exact (persists_carries exec s).get (by decide) key value out h
  | createIter iterId out => exact h.createIter iterId out

/-! ## A sequence of calls -/

theorem Carries.calls (exec : Device σ) : ∀ (cs : List Call) {s : Split} {db : DB (σ × CmdLog)},
    Carries s db → (∀ c ∈ cs, Allocated c) → BatchesFit s cs →
    Carries (cs.foldl splitStep s) (afterCalls (logged exec) db cs) := by
  intro cs
  induction cs with
  | nil => intro s db h _ _; exact h
  | cons c cs ih =>
      intro s db h halloc hfits
      exact ih (h.call (halloc c List.mem_cons_self) hfits.1)
        (fun c' hc' => halloc c' (List.mem_cons_of_mem _ hc')) hfits.2

/-- A value of a batch that fits has a size of 32 bits. -/
theorem length_lt_of_batchesFit : ∀ (cs : List Call) {s : Split}, BatchesFit s cs →
    ∀ r ∈ cs.filterMap putOf, r.2.length < 4294967296 := by
  intro cs
  induction cs with
  | nil => intro s _ r hr; cases hr
  | cons c cs ih =>
      intro s hfits r hr
      obtain ⟨c', hc', hput⟩ := List.mem_filterMap.mp hr
      rcases List.mem_cons.mp hc' with rfl | hc'
      · have hle := length_le_of_mem (r := r) (by simp [hput]) hfits.1
        unfold maxValueBufferEntry at hle
        omega
      · exact ih hfits.2 r (List.mem_filterMap.mpr ⟨c', hc', hput⟩)

theorem Carries.batched (h : Carries s db) (hsmall : ∀ r ∈ s.flushed ++ s.pending,
    r.2.length < 4294967296) : Batched db (s.flushed ++ s.pending) := by
  have htable := h.buffered.table
  have hpair := htable.pair
  have hcnt := htable.cnt
  rw [length_entriesFrom] at hpair hcnt
  have hrecords : bufferRecords db.bufferingInfo = s.pending.map keySize := by
    rw [htable.bufferRecords, entriesFrom_keySize]
  refine ⟨?_, ?_, ?_, ?_⟩
  · rw [h.sent, hrecords, ← List.map_append]
    refine List.map_congr_left fun r hr => ?_
    rw [keySize, u32, Nat.mod_eq_of_lt (hsmall r hr)]
  · rw [hpair, hcnt]
  · rw [hcnt]
    exact h.room
  · rw [hrecords, List.map_eq_nil_iff]
    exact h.buffered.init

end Calls

/-- After every sequence of calls, over any device: the tables sent and the
buffer are the puts, in order and each once, and a `CreateIter` leaves nothing
in the buffer. -/
theorem batches_carry_puts {σ : Type} (exec : Device σ) (d : σ) {cs : List Call}
    (halloc : ∀ c ∈ cs, Allocated c) (hfits : BatchesFit ⟨[], []⟩ cs) :
    Batched (afterCalls (logged exec) (opened (d, [])) cs) (cs.filterMap putOf) ∧
      ∀ cs' iterId out, cs = cs' ++ [.createIter iterId out] →
        bufferRecords (afterCalls (logged exec) (opened (d, [])) cs).bufferingInfo = [] := by
  have hcarries := (carries_opened d).calls exec cs halloc hfits
  have hputs := split_append cs ⟨[], []⟩
  simp only [List.nil_append] at hputs
  refine ⟨?_, ?_⟩
  · rw [← hputs]
    refine hcarries.batched fun r hr => length_lt_of_batchesFit cs hfits r ?_
    rw [← hputs]
    exact hr
  · intro cs' iterId out hcs
    have hpending : (cs.foldl splitStep ⟨[], []⟩).pending = [] := by
      rw [hcs, List.foldl_append]
      rfl
    rw [hcarries.buffered.table.bufferRecords, hpending]
    rfl

/-- Two puts, one of an empty value, and an iterator. -/
def twoPuts : List Call :=
  [.put [97, 97, 97, 97] [1] .fine, .put [98, 98, 98, 98] [] .fine, .createIter 0 .fine]

theorem batches_carry_twoPuts :
    Batched (afterCalls (logged MapDevice.exec) (opened (MapDevice.empty, [])) twoPuts)
        [([97, 97, 97, 97], [1]), ([98, 98, 98, 98], [])] ∧
      bufferRecords (afterCalls (logged MapDevice.exec) (opened (MapDevice.empty, []))
        twoPuts).bufferingInfo = [] := by
  obtain ⟨hbatched, hempty⟩ := @batches_carry_puts _ MapDevice.exec MapDevice.empty
    twoPuts
    (by simp [twoPuts, Allocated, Outside.fine])
    (by simp [twoPuts, BatchesFit, splitStep, putOf, pagesOf, pages,
      limitValueBufferEntry, maxValueBufferEntry])
  exact ⟨hbatched, hempty (twoPuts.take 2) 0 .fine rfl⟩

end DB

end Kvaccel.Ref
