import Kvaccel.Proofs.ValueFlush
import Kvaccel.Spec.Survives

/-!
# Acknowledged puts

A redirected put does one of two things to the records that are kept. It
appends its own, whole, if its pages could be allocated, every command it sent
completed with 0, its value fits what the batch has left of the value log and
can be copied as a string, and its key has four bytes. If not, it does not: a
failed allocation stores no record, a flush with a failed command frees the
buffer, so a whole batch goes, and of the rest something is missing
(`Steady.put`).

The put answers OK in every case. So the run keeps its records exactly when
none of this happens in it.
-/

namespace Kvaccel.Ref

open Kvaccel.Lib Kvaccel.Spec

/-! ## What a log accepts -/

theorem acceptance_append (log log' : CmdLog) :
    acceptance (log ++ log') = log'.foldl acceptCmd (acceptance log) :=
  List.foldl_append

/-- The device after the commands. -/
def staging (d : MapDevice) (cmds : List NvmeCmd) : MapDevice :=
  cmds.foldl (fun d cmd => (MapDevice.exec cmd d).2) d

theorem foldl_acceptCmd_vFlush : ∀ (vs : CmdLog) (a : Acceptance),
    (∀ e ∈ vs, e.1.opcode = .vFlush) →
    vs.foldl acceptCmd a = { a with
      staged := a.staged && vs.all fun e => e.2 == 0
      device := staging a.device (vs.map Prod.fst) } := by
  intro vs
  induction vs with
  | nil => intro a _; simp [staging]
  | cons e vs ih =>
      intro a hvs
      have he : acceptCmd a e = { a with
          staged := a.staged && e.2 == 0
          device := (MapDevice.exec e.1 a.device).2 } := by
        rw [acceptCmd, hvs e List.mem_cons_self]
      rw [List.foldl_cons, he, ih _ fun e' he' => hvs e' (List.mem_cons_of_mem _ he')]
      simp [Bool.and_assoc, staging]

/-- A flush is accepted as a whole or not at all. -/
theorem acceptance_flush {log vs : CmdLog} (cmd : NvmeCmd) (err : Int)
    (hstaged : (acceptance log).staged = true) (hvs : ∀ e ∈ vs, e.1.opcode = .vFlush)
    (hcmd : cmd.opcode = .kvFlush) :
    (acceptance (log ++ (vs ++ [(cmd, err)]))).staged = true ∧
      acceptedRecords (log ++ (vs ++ [(cmd, err)])) = acceptedRecords log ++
        if ∀ e ∈ vs ++ [(cmd, err)], e.2 = 0 then
          (parseTable cmd.data (cmd.cdw13 / 12)).map
            (remnant (staging (acceptance log).device (vs.map Prod.fst)).log)
        else [] := by
  have hall : (vs.all (fun e => e.2 == 0) && err == 0) =
      decide (∀ e ∈ vs ++ [(cmd, err)], e.2 = 0) := by
    rw [Bool.eq_iff_iff]
    simp [or_imp, forall_and]
  rw [acceptedRecords, acceptance_append, List.foldl_append, foldl_acceptCmd_vFlush vs _ hvs,
    hstaged]
  simp only [List.foldl_cons, List.foldl_nil, acceptCmd, hcmd, Bool.true_and, hall,
    decide_eq_true_eq]
  exact ⟨trivial, rfl⟩

/-- Before piece `i` the device has the bytes of the pieces before it, after the
last one all of them. -/
theorem staging_pieces {bip : BufferingInfo} (hcnt : bip.valueLogOffset ≤ maxValueBufferEntry)
    (hhi : DB.totalDataLen bip ≤ 4096 * bip.valueLogOffset)
    (hlo : 4096 * bip.valueLogOffset < DB.totalDataLen bip + 4096) :
    ∀ (n i : Nat) (d : MapDevice), i + n = chunkCount 128 bip.valueLogOffset →
      (0 < i → d.logLen = 524288 * i) →
      (∀ x, x < 524288 * i → d.log x = bip.valueLog x) →
      ∀ x, x < DB.totalDataLen bip →
        (staging d ((List.range' i n).map (DB.valueFlushCmd bip))).log x = bip.valueLog x := by
  have hcount : ∀ i, i < chunkCount 128 bip.valueLogOffset ↔ 128 * i < bip.valueLogOffset :=
    fun i => lt_chunkCount_iff (by decide)
  intro n
  induction n with
  | zero =>
      intro i d hi _ hlog x hx
      have := hcount i
      exact hlog x (by omega)
  | succ n ih =>
      intro i d hi hlen hlog x hx
      have hmore := (hcount i).mp (by omega)
      obtain ⟨data, log, logLen, hexec, hpiece⟩ :=
        DB.exec_valueFlushCmd d (by omega) hcnt (by omega) hhi hlen hlog
      rw [List.range'_succ, List.map_cons, staging, List.foldl_cons, hexec]
      by_cases hlast : bip.valueLogOffset ≤ (i + 1) * 128
      · -- The last piece ends where the log does.
        have hnone : n = 0 := by
          have := hcount (i + 1)
          omega
        subst hnone
        exact (hpiece _ (if_pos hlast).symm).2 x hx
      · obtain ⟨hend, hall⟩ := hpiece _ (if_neg hlast).symm
        exact ih (i + 1) { log := log, logLen := logLen, map := d.map } (by omega)
          (fun _ => hend) hall x hx

/-- The `V_FLUSH` commands of a batch carry its values. -/
theorem logAt_staging {bip : BufferingInfo} {p : List (Key × Value)} (h : DB.Buffered bip p)
    (hfits : pagesOf (p.map Prod.snd) ≤ maxValueBufferEntry) (d : MapDevice) :
    DB.LogAt (staging d ((List.range (chunkCount 128 bip.valueLogOffset)).map
      (DB.valueFlushCmd bip))).log (p.map Prod.snd) 0 := by
  by_cases hne : p = []
  · rw [hne]
    trivial
  · obtain ⟨hhi, hlo⟩ := h.total_bounds hne hfits
    rw [List.range_eq_range']
    exact h.logAt_copy hfits
      (staging_pieces (h.offset ▸ hfits) hhi hlo _ 0 d (Nat.zero_add _) nofun nofun)

/-! ## What is left of a put -/

/-- What the records `es` come to. The table has 32 bits for an offset and for a
size. -/
def remnants (log : Mem) (es : List Entry) : List Remnant :=
  es.map fun e => remnant log (e.1, e.2.1 % 4294967296, e.2.2 % 4294967296)

theorem bufferRemnants_eq {bip : BufferingInfo} {es : List Entry} (h : DB.Table bip es) :
    bufferRemnants bip = remnants bip.valueLog es := by
  rw [bufferRemnants, h.pair, h.parse, List.map_map]
  rfl

theorem cmdRemnants_eq {bip : BufferingInfo} {es : List Entry} (h : DB.Table bip es)
    (log : Mem) :
    (parseTable (DB.keyValueFlushCmd bip).data ((DB.keyValueFlushCmd bip).cdw13 / 12)).map
      (remnant log) = remnants log es := by
  rw [h.flushed, List.map_map]
  rfl

/-- Where the values are, every record comes to four bytes and the copy that
was made. -/
theorem remnants_entriesFrom {log : Mem} : ∀ (p : List (Key × Value)) (off : Nat),
    DB.LogAt log (p.map Prod.snd) off →
    off + pagesOf (p.map Prod.snd) ≤ maxValueBufferEntry →
    remnants log (DB.entriesFrom off p) =
      p.map fun r => (some (firstFour r.1), some (DB.strncpy r.2)) := by
  intro p
  induction p with
  | nil => intro off _ _; rfl
  | cons r p ih =>
      intro off hlog hfits
      rw [List.map_cons, DB.pagesOf_cons] at hfits
      have hrest := ih (off + pages r.2.length) hlog.2 (by omega)
      have hsize := DB.le_pages r.2.length
      unfold maxValueBufferEntry at hfits
      have hfirst : remnant log (firstFour r.1, off % 4294967296, r.2.length % 4294967296) =
          (some (firstFour r.1), some (DB.strncpy r.2)) := by
        simp only [remnant]
        rw [Nat.mod_eq_of_lt (by omega), Nat.mod_eq_of_lt (by omega), hlog.1, if_pos]
        rw [maxValueBufferSize, maxValueBufferEntry, pageSize]
        omega
      rw [DB.entriesFrom, remnants, List.map_cons, hfirst, List.map_cons]
      exact congrArg _ hrest

theorem copied_eq_whole_iff (r : Key × Value) :
    (some (firstFour r.1), some (DB.strncpy r.2)) = whole r ↔
      3 ≤ r.1.length ∧ NulsTrail r.2 := by
  rw [whole, Prod.mk.injEq, Option.some.injEq, DB.strncpy_eq_iff]
  refine and_congr_left fun _ => ?_
  by_cases hkey : 3 ≤ r.1.length
  · simp [fourBytes_eq hkey, hkey]
  · simp [fourBytes, hkey]

/-- A value that does not fit is not left in any log. -/
theorem remnant_ne_whole (log : Mem) {p : List (Key × Value)} {k : Key} {v : Value}
    (hfits : pagesOf (p.map Prod.snd) ≤ maxValueBufferEntry)
    (hnot : ¬ pagesOf (p.map Prod.snd ++ [v]) ≤ maxValueBufferEntry) :
    remnant log (firstFour k, pagesOf (p.map Prod.snd) % 4294967296, v.length % 4294967296) ≠
      whole (k, v) := by
  have hone : pagesOf [v] = pages v.length := by simp [pagesOf]
  rw [DB.pagesOf_append, hone] at hnot
  intro heq
  have hvalue := congrArg Prod.snd heq
  simp only [remnant, whole] at hvalue
  split at hvalue
  · next hinside =>
    have hlen := congrArg List.length (Option.some.inj hvalue)
    rw [Mem.length_read] at hlen
    rw [hlen, maxValueBufferSize, pageSize] at hinside
    unfold maxValueBufferEntry at hfits hnot hinside
    unfold pages at hnot
    omega
  · cases hvalue

/-! ## One put -/

section Put

variable {σ : Type} {db : DB (σ × CmdLog)} {p : List (Key × Value)}

/-- The driver between two puts, with all of the puts `p` in its buffer. -/
structure Steady (db : DB (σ × CmdLog)) (p : List (Key × Value)) : Prop where
  buffered : DB.Buffered db.bufferingInfo p
  fits : pagesOf (p.map Prod.snd) ≤ maxValueBufferEntry
  room : p.length < limitValueBufferEntry
  copied : ∀ r ∈ p, 3 ≤ r.1.length ∧ NulsTrail r.2
  staged : (acceptance db.device.2).staged = true

theorem steady_opened (d : σ) : Steady (DB.opened (d, ([] : CmdLog))) [] where
  buffered := DB.buffered_opened _
  fits := Nat.zero_le _
  room := by decide
  copied := nofun
  staged := rfl

theorem remnants_whole {log : Mem} {p : List (Key × Value)}
    (hlog : DB.LogAt log (p.map Prod.snd) 0)
    (hfits : pagesOf (p.map Prod.snd) ≤ maxValueBufferEntry)
    (hcopied : ∀ r ∈ p, 3 ≤ r.1.length ∧ NulsTrail r.2) :
    remnants log (DB.entriesFrom 0 p) = p.map whole := by
  rw [remnants_entriesFrom p 0 hlog (by omega)]
  exact List.map_congr_left fun r hr => (copied_eq_whole_iff r).mpr (hcopied r hr)

theorem Steady.kept (h : Steady db p) :
    keptRecords db = acceptedRecords db.device.2 ++ p.map whole := by
  rw [keptRecords, bufferRemnants_eq h.buffered.table,
    remnants_whole h.buffered.log h.fits h.copied]

theorem keptRecords_flush (exec : Device σ) (db : DB (σ × CmdLog)) (out : Outside) :
    keptRecords ((db.flush (logged exec) out).finishOp 0) =
      acceptedRecords (db.flush (logged exec) out).device.2 :=
  List.append_nil _

/-- The values of a batch are in the log of a device that takes the `V_FLUSH`
commands of its flush. -/
theorem logAt_sent {exec : Device σ} (h : DB.Buffered db.bufferingInfo p)
    (hfits : pagesOf (p.map Prod.snd) ≤ maxValueBufferEntry) (out : Outside) {vs : CmdLog}
    (hsent : (db.valueFlush (logged exec) out).2.device.2 = db.device.2 ++ vs)
    (hok : ∀ e ∈ vs, e.2 = 0) (d : MapDevice) :
    DB.LogAt (staging d (vs.map Prod.fst)).log (p.map Prod.snd) 0 := by
  have hcmds := DB.valueFlushLoop_sent exec out.result (h.offset ▸ hfits)
    db.bufferingInfo.valueLogOffset 0 db (Nat.zero_le _) (Nat.le_refl _) hsent hok
  rw [hcmds, Nat.sub_zero, ← List.range_eq_range']
  exact logAt_staging h hfits d

/-- A put that gets its pages, over any device and whatever its value: the batch
with its record is in the buffer, or was sent. -/
theorem Steady.put_inserted (exec : Device σ) (h : Steady db p) (key value : Bytes)
    {out : Outside} {bip : BufferingInfo} (hinto : insertsInto db.bufferingInfo out = some bip) :
    ∃ new log, (db.put (logged exec) key value out).2.device.2 = db.device.2 ++ new ∧
      keptRecords (db.put (logged exec) key value out).2 = acceptedRecords db.device.2 ++
        (if ∀ e ∈ new, e.2 = 0 then remnants log (DB.entriesFrom 0 (p ++ [(key, value)]))
        else []) ∧
      (pagesOf (p.map Prod.snd ++ [value]) ≤ maxValueBufferEntry → (∀ e ∈ new, e.2 = 0) →
        DB.LogAt log (p.map Prod.snd ++ [value]) 0) := by
  have hstored := h.buffered.stored hinto h.room key value
  rw [List.map_append, List.map_singleton] at hstored
  obtain ⟨_, htable, hoffset, _⟩ := h.buffered.insertsInto hinto
  have hroom : (DB.entriesFrom 0 p).length < limitValueBufferEntry := by
    rw [DB.length_entriesFrom]
    exact h.room
  have htable : DB.Table (DB.bufferInsert bip key value)
      (DB.entriesFrom 0 (p ++ [(key, value)])) := by
    have hinsert := htable.insert hroom key value
    rw [hoffset] at hinsert
    rw [DB.entriesFrom_append, Nat.zero_add]
    exact hinsert
  rw [DB.put, DB.buffering_of_some key value hinto]
  simp only []
  split
  · -- The put fills the batch.
    obtain ⟨vs, err, hvs, hsent, hflush⟩ := DB.flush_logged exec
      { db with bufferingInfo := DB.bufferInsert bip key value } out
    obtain ⟨_, haccept⟩ := acceptance_flush (DB.keyValueFlushCmd (DB.bufferInsert bip key value))
      err h.staged hvs rfl
    rw [cmdRemnants_eq htable] at haccept
    refine ⟨_, (staging (acceptance db.device.2).device (vs.map Prod.fst)).log, hflush, ?_,
      fun hfits hok => ?_⟩
    · rw [keptRecords_flush, hflush]
      exact haccept
    · have hlog := logAt_sent (hstored hfits) (by simpa using hfits) out hsent
        (fun e he => hok e (List.mem_append_left _ he)) (acceptance db.device.2).device
      rw [List.map_append] at hlog
      exact hlog
  · refine ⟨[], (DB.bufferInsert bip key value).valueLog, (List.append_nil _).symm, ?_,
      fun hfits _ => ?_⟩
    · rw [if_pos (by simp), keptRecords]
      exact congrArg _ (bufferRemnants_eq htable)
    · have hlog := (hstored hfits).log
      rw [List.map_append] at hlog
      exact hlog

/-- One more record is whole exactly if its value fits and both strings can be
copied. -/
theorem remnants_concat_iff {log : Mem} (h : Steady db p) {k : Key} {v : Value}
    (hlog : pagesOf (p.map Prod.snd ++ [v]) ≤ maxValueBufferEntry →
      DB.LogAt log (p.map Prod.snd ++ [v]) 0) :
    remnants log (DB.entriesFrom 0 (p ++ [(k, v)])) = p.map whole ++ [whole (k, v)] ↔
      (3 ≤ k.length ∧ NulsTrail v) ∧ pagesOf (p.map Prod.snd ++ [v]) ≤ maxValueBufferEntry := by
  have hvalues : (p ++ [(k, v)]).map Prod.snd = p.map Prod.snd ++ [v] := List.map_append
  constructor
  · intro hall
    have hfits : pagesOf (p.map Prod.snd ++ [v]) ≤ maxValueBufferEntry := by
      by_contra hnot
      rw [DB.entriesFrom_append, remnants, List.map_append, Nat.zero_add] at hall
      have hlast := (List.append_inj' hall rfl).2
      exact remnant_ne_whole log h.fits hnot (List.singleton_inj.mp hlast)
    rw [remnants_entriesFrom _ 0 (hvalues ▸ hlog hfits)
      (by rw [hvalues, Nat.zero_add]; exact hfits), List.map_append] at hall
    have hlast := (List.append_inj' hall rfl).2
    exact ⟨(copied_eq_whole_iff (k, v)).mp (List.singleton_inj.mp hlast), hfits⟩
  · rintro ⟨hcopied, hfits⟩
    rw [remnants_whole (hvalues ▸ hlog hfits) (by rw [hvalues]; exact hfits), List.map_append]
    · rfl
    · intro r hr
      rcases List.mem_append.mp hr with hr | hr
      · exact h.copied r hr
      · rw [List.mem_singleton.mp hr]
        exact hcopied

/-- What a put needs, with the puts `p` in the buffer, to keep its record. `new`
are the commands it sends. -/
structure Untroubled (db : DB (σ × CmdLog)) (p : List (Key × Value)) (c : PutCall)
    (new : CmdLog) : Prop where
  pages : db.bufferingInfo.isInitRequired = true → c.out.valueLog.isSome ∧ c.out.kvPair.isSome
  commands : ∀ e ∈ new, e.2 = 0
  copyable : Copyable c
  fits : pagesOf (p.map Prod.snd ++ [c.value]) ≤ maxValueBufferEntry

theorem insertsInto_eq_none_iff (bip : BufferingInfo) (out : Outside) :
    insertsInto bip out = none ↔
      ¬ (bip.isInitRequired = true → out.valueLog.isSome ∧ out.kvPair.isSome) := by
  rw [insertsInto]
  cases bip.isInitRequired with
  | false => simp
  | true => cases out.valueLog <;> cases out.kvPair <;> simp

theorem append_ne_of_length {α : Type} {l l' : List α} {a : α} (h : l'.length ≤ l.length) :
    l' ≠ l ++ [a] := by
  intro heq
  rw [heq, List.length_append, List.length_singleton] at h
  omega

theorem buffering_device (db : DB σ) (key value : Bytes) (out : Outside) :
    (db.buffering key value out).2.device = db.device := by
  simp only [DB.buffering]
  repeat' split
  all_goals rfl

/-- A put that gets no pages sends nothing and leaves the records as they are. -/
theorem Steady.put_refused (exec : Device σ) (h : Steady db p) (key value : Bytes)
    {out : Outside} (hinto : insertsInto db.bufferingInfo out = none) :
    (db.put (logged exec) key value out).2.device.2 = db.device.2 ∧
      keptRecords (db.put (logged exec) key value out).2 = keptRecords db := by
  obtain ⟨_, rfl, hempty⟩ := DB.buffering_of_none h.buffered key value hinto
  have hpair := hempty.table.pair
  have hput : (db.put (logged exec) key value out).2 =
      (db.buffering key value out).2.finishOp 0 := by
    rw [DB.put]
    simp only []
    rw [if_neg (by rw [hpair]; decide)]
  have hbuffer : bufferRemnants ((db.buffering key value out).2.finishOp 0).bufferingInfo = [] :=
    bufferRemnants_eq hempty.table
  rw [hput, h.kept, keptRecords, hbuffer]
  have hlog : ((db.buffering key value out).2.finishOp 0).device.2 = db.device.2 :=
    congrArg Prod.snd (buffering_device db key value out)
  exact ⟨hlog, by rw [hlog]; rfl⟩

/-- A put keeps its record, and those before it, exactly if nothing is in its way. -/
theorem Steady.put (exec : Device σ) (h : Steady db p) (c : PutCall) :
    ∃ new, (db.put (logged exec) c.key c.value c.out).2.device.2 = db.device.2 ++ new ∧
      (keptRecords (db.put (logged exec) c.key c.value c.out).2 =
          keptRecords db ++ [whole (c.key, c.value)] ↔ Untroubled db p c new) := by
  cases hinto : insertsInto db.bufferingInfo c.out with
  | none =>
      obtain ⟨hlog, hkept⟩ := h.put_refused exec c.key c.value hinto
      refine ⟨[], by rw [hlog, List.append_nil], iff_of_false ?_ fun hgood => ?_⟩
      · rw [hkept]
        exact append_ne_of_length (Nat.le_refl _)
      · exact (insertsInto_eq_none_iff _ _).mp hinto hgood.pages
  | some bip =>
      obtain ⟨new, log, hlog, hkept, hlogAt⟩ := h.put_inserted exec c.key c.value hinto
      have hpages : db.bufferingInfo.isInitRequired = true →
          c.out.valueLog.isSome ∧ c.out.kvPair.isSome := by
        by_contra hnot
        cases ((insertsInto_eq_none_iff _ _).mpr hnot).symm.trans hinto
      refine ⟨new, hlog, ?_⟩
      rw [hkept, h.kept, List.append_assoc, List.append_cancel_left_eq]
      by_cases hok : ∀ e ∈ new, e.2 = 0
      · rw [if_pos hok, remnants_concat_iff h fun hfits => hlogAt hfits hok]
        exact ⟨fun hgood => ⟨hpages, hok, hgood.1, hgood.2⟩,
          fun hgood => ⟨hgood.copyable, hgood.fits⟩⟩
      · rw [if_neg hok]
        exact iff_of_false (append_ne_of_length (Nat.zero_le _)) fun hgood => hok hgood.commands

theorem steady_flush (exec : Device σ) (db : DB (σ × CmdLog))
    (hstaged : (acceptance db.device.2).staged = true) (out : Outside) :
    Steady (db.flush (logged exec) out) [] := by
  obtain ⟨vs, err, hvs, _, hflush⟩ := DB.flush_logged exec db out
  have haccept := (acceptance_flush (DB.keyValueFlushCmd db.bufferingInfo) err hstaged hvs rfl).1
  rw [← hflush] at haccept
  exact ⟨DB.buffered_release db, Nat.zero_le _, by decide, nofun, haccept⟩

/-- Then the buffer has one put more, or none after a flush. -/
theorem Steady.next (exec : Device σ) (h : Steady db p) {c : PutCall} {new : CmdLog}
    (hgood : Untroubled db p c new) :
    ∃ p', Steady (db.put (logged exec) c.key c.value c.out).2 p' ∧
      p'.map Prod.snd = pendingStep (p.map Prod.snd) (.put c.key c.value c.out) := by
  obtain ⟨bip, hinto⟩ : ∃ bip, insertsInto db.bufferingInfo c.out = some bip := by
    refine Option.ne_none_iff_exists'.mp fun hnone => ?_
    exact (insertsInto_eq_none_iff _ _).mp hnone hgood.pages
  have hsome : ¬ (p.map Prod.snd = [] ∧ (c.out.valueLog = none ∨ c.out.kvPair = none)) := by
    rw [← h.buffered.insertsInto_eq_none_iff, hinto]
    exact Option.some_ne_none bip
  have hfits : pagesOf ((p ++ [(c.key, c.value)]).map Prod.snd) ≤ maxValueBufferEntry := by
    rw [List.map_append]
    exact hgood.fits
  have hbuf := h.buffered.stored hinto h.room c.key c.value hfits
  have hpair := hbuf.table.pair
  rw [DB.length_entriesFrom, List.length_append, List.length_singleton] at hpair
  rw [DB.put, DB.buffering_of_some c.key c.value hinto, pendingStep, if_neg hsome,
    List.length_map]
  simp only [hpair]
  split
  · have hsteady := steady_flush exec
      { db with bufferingInfo := DB.bufferInsert bip c.key c.value } h.staged c.out
    exact ⟨[], ⟨hsteady.buffered, hsteady.fits, hsteady.room,
      fun _ hr => absurd hr List.not_mem_nil, hsteady.staged⟩, rfl⟩
  · next hmore =>
    refine ⟨p ++ [(c.key, c.value)], ⟨hbuf, hfits, ?_, fun r hr => ?_, h.staged⟩,
      List.map_append⟩
    · have := h.room
      rw [List.length_append, List.length_singleton]
      omega
    · rcases List.mem_append.mp hr with hr | hr
      · exact h.copied r hr
      · rw [List.mem_singleton.mp hr]
        exact hgood.copyable

end Put

/-! ## A sequence of puts -/

namespace Redirect

variable {σ : Type} {murmur : Murmur} {exec : Device σ} {s : Redirect (σ × CmdLog)}

/-- The log only grows. -/
theorem mem_log_put (exec : Device σ) (db : DB (σ × CmdLog)) (key value : Bytes) (out : Outside)
    {e : NvmeCmd × Int} (he : e ∈ db.device.2) :
    e ∈ (db.put (logged exec) key value out).2.device.2 := by
  rw [← buffering_device db key value out] at he
  rw [DB.put]
  simp only []
  split
  · obtain ⟨vs, err, _, _, hflush⟩ := DB.flush_logged exec (db.buffering key value out).2 out
    show e ∈ ((db.buffering key value out).2.flush (logged exec) out).device.2
    rw [hflush]
    exact List.mem_append_left _ he
  · exact he

theorem mem_log_after : ∀ (cs : List PutCall) {s : Redirect (σ × CmdLog)},
    ∀ e ∈ s.ilsm.device.2, e ∈ (s.after murmur (logged exec) cs).ilsm.device.2 := by
  intro cs
  induction cs with
  | nil => intro s e he; exact he
  | cons c cs ih =>
      intro s e he
      exact ih e (mem_log_put exec s.ilsm c.key c.value c.out he)

/-- Every put is acknowledged, whatever became of it. -/
theorem acknowledged_eq : ∀ (cs : List PutCall) (s : Redirect (σ × CmdLog)),
    acknowledged murmur exec s cs = cs.map fun c => (c.key, c.value) := by
  intro cs
  induction cs with
  | nil => intro s; rfl
  | cons c cs ih =>
      intro s
      rw [acknowledged, List.map_cons, ih]
      rfl

/-- The put `c` keeps its record and all those before it. -/
def Appends (murmur : Murmur) (exec : Device σ) (s : Redirect (σ × CmdLog)) (c : PutCall) :
    Prop :=
  keptRecords (s.put murmur (logged exec) c).2.ilsm =
    keptRecords s.ilsm ++ [whole (c.key, c.value)]

/-- Every put of the run does. -/
def AllAppend (murmur : Murmur) (exec : Device σ) : Redirect (σ × CmdLog) → List PutCall → Prop
  | _, [] => True
  | s, c :: cs =>
      Appends murmur exec s c ∧ AllAppend murmur exec (s.put murmur (logged exec) c).2 cs

theorem allAppend_iff : ∀ (cs : List PutCall) (s : Redirect (σ × CmdLog)),
    AllAppend murmur exec s cs ↔ ∀ pre c post, cs = pre ++ c :: post →
      Appends murmur exec (s.after murmur (logged exec) pre) c := by
  intro cs
  induction cs with
  | nil => intro s; simp [AllAppend]
  | cons c cs ih =>
      intro s
      rw [AllAppend, ih]
      constructor
      · rintro ⟨hfirst, hrest⟩ pre c' post hcs
        cases pre with
        | nil =>
            cases hcs
            exact hfirst
        | cons x pre =>
            cases hcs
            exact hrest pre c' post rfl
      · intro h
        exact ⟨h [] c cs rfl, fun pre c' post hcs => h (c :: pre) c' post (by rw [hcs]; rfl)⟩

theorem AllAppend.kept : ∀ {cs : List PutCall} {s : Redirect (σ × CmdLog)},
    AllAppend murmur exec s cs → keptRecords (s.after murmur (logged exec) cs).ilsm =
      keptRecords s.ilsm ++ (cs.map fun c => (c.key, c.value)).map whole := by
  intro cs
  induction cs with
  | nil => intro s _; simp [after]
  | cons c cs ih =>
      intro s h
      have hrest := ih h.2
      rw [h.1, List.append_assoc] at hrest
      exact hrest

theorem survives_iff_allAppend (s : Redirect (σ × CmdLog)) (cs : List PutCall) :
    Survives murmur exec s cs ↔ AllAppend murmur exec s cs := by
  constructor
  · intro h
    -- Every put answers OK, so none of them may have lost a record.
    refine (allAppend_iff cs s).mpr fun pre c post hcs => ?_
    by_contra hlost
    exact (h.refused pre c post hcs hlost).1 rfl
  · intro h
    refine ⟨?_, fun pre c post hcs hlost => ?_⟩
    · rw [acknowledged_eq]
      exact h.kept
    · exact absurd ((allAppend_iff cs s).mp h pre c post hcs) hlost

theorem nothingFails_cons (s : Redirect (σ × CmdLog)) (c : PutCall) (cs : List PutCall) :
    NothingFails murmur exec s (c :: cs) ↔
      (s.ilsm.bufferingInfo.isInitRequired = true →
          c.out.valueLog.isSome ∧ c.out.kvPair.isSome) ∧
        NothingFails murmur exec (s.put murmur (logged exec) c).2 cs := by
  constructor
  · intro h
    exact ⟨h.pages [] c cs rfl, fun pre c' post hcs => h.pages (c :: pre) c' post
      (by rw [hcs]; rfl), h.commands⟩
  · rintro ⟨hfirst, hrest⟩
    refine ⟨fun pre c' post hcs => ?_, hrest.commands⟩
    cases pre with
    | nil =>
        cases hcs
        exact hfirst
    | cons x pre =>
        cases hcs
        exact hrest.pages pre c' post rfl

/-- From a steady state on, where no command has failed yet. -/
theorem allAppend_iff_nothingFails : ∀ (cs : List PutCall) {s : Redirect (σ × CmdLog)}
    {p : List (Key × Value)}, Steady s.ilsm p → (∀ e ∈ s.ilsm.device.2, e.2 = 0) →
    (AllAppend murmur exec s cs ↔ NothingFails murmur exec s cs ∧ (∀ c ∈ cs, Copyable c) ∧
      LogFits (p.map Prod.snd) (cs.map fun c => .put c.key c.value c.out)) := by
  intro cs
  induction cs with
  | nil =>
      intro s p h hlog
      refine iff_of_true trivial ⟨⟨fun pre c post hcs => ?_, hlog⟩, nofun, trivial⟩
      cases pre <;> cases hcs
  | cons c cs ih =>
      intro s p h hlog
      obtain ⟨new, hnew, hiff⟩ := h.put exec c
      rw [AllAppend, nothingFails_cons, List.forall_mem_cons, List.map_cons, LogFits]
      by_cases hgood : Untroubled s.ilsm p c new
      · obtain ⟨p', hnext, hvalues⟩ := h.next exec hgood
        have hlog' : ∀ e ∈ (s.put murmur (logged exec) c).2.ilsm.device.2, e.2 = 0 := by
          intro e he
          have he : e ∈ (s.ilsm.put (logged exec) c.key c.value c.out).2.device.2 := he
          rw [hnew] at he
          rcases List.mem_append.mp he with he | he
          · exact hlog e he
          · exact hgood.commands e he
        have hrest := ih (s := (s.put murmur (logged exec) c).2) hnext hlog'
        rw [hvalues] at hrest
        rw [hrest]
        constructor
        · rintro ⟨_, hok, hcopy, hfits⟩
          refine ⟨⟨hgood.pages, hok⟩, ⟨hgood.copyable, hcopy⟩, fun _ _ _ heq _ => ?_, hfits⟩
          cases heq
          exact hgood.fits
        · rintro ⟨⟨_, hok⟩, ⟨_, hcopy⟩, _, hfits⟩
          exact ⟨hiff.mpr hgood, hok, hcopy, hfits⟩
      · refine iff_of_false (fun hall => hgood (hiff.mp hall.1)) ?_
        rintro ⟨⟨hpages, hok⟩, ⟨hcopy, _⟩, hfits, _⟩
        refine hgood ⟨hpages, fun e he => hok.commands e (mem_log_after cs e ?_), hcopy,
          hfits _ _ _ rfl ?_⟩
        · show e ∈ (s.ilsm.put (logged exec) c.key c.value c.out).2.device.2
          rw [hnew]
          exact List.mem_append_right _ he
        · rw [← h.buffered.insertsInto_eq_none_iff, insertsInto_eq_none_iff]
          exact not_not.mpr hpages

/-- A run of redirected puts keeps what it acknowledges exactly when nothing
fails in it, every key and value can be copied as a string, and the values of
every batch fit the value log. -/
theorem survives_iff_nothingFails (murmur : Murmur) (exec : Device σ) (d : σ)
    (cs : List PutCall) :
    Survives murmur exec (opened (d, [])) cs ↔
      NothingFails murmur exec (opened (d, [])) cs ∧ (∀ c ∈ cs, Copyable c) ∧
        LogFits [] (cs.map fun c => .put c.key c.value c.out) := by
  have hopened : Steady (opened (d, ([] : CmdLog))).ilsm [] := steady_opened d
  rw [survives_iff_allAppend]
  exact allAppend_iff_nothingFails cs hopened fun e he => by cases he

/-- One put, and no pages for it: it answers OK, the key is tracked, and there
is no record. -/
theorem not_survives_noPages :
    ¬ Survives murmurHash3 MapDevice.exec (opened (MapDevice.empty, []))
        [⟨[97, 97, 97, 97], [1], noPages⟩] := by
  intro h
  have hlost : keptRecords ((opened (MapDevice.empty, ([] : CmdLog))).after murmurHash3
      (logged MapDevice.exec) [⟨[97, 97, 97, 97], [1], noPages⟩]).ilsm = [] := by decide
  have hkept := h.acknowledged
  rw [hlost] at hkept
  exact absurd hkept (by decide)

/-- Nothing fails here, and the byte after the NUL is gone. -/
example : keptRecords ((opened (MapDevice.empty, ([] : CmdLog))).after murmurHash3
    (logged MapDevice.exec) [⟨[97, 97, 97, 97], [1, 0, 2], .fine⟩]).ilsm =
      [(some [97, 97, 97, 97], some [1, 0, 0])] := by decide

end Redirect

end Kvaccel.Ref
