import Kvaccel.Proofs.PutBuffer

/-!
# The driver over a map

`iLSM::DB` over the map device refines the division of puts that `split`
computes: the host buffers hold the pending ones and the device's map is the
flushed ones. A flush carries the batch over exactly, values through the
staged log and keys through the table, wherever the value log is cut into
commands.

A get asks the device and nobody else. It therefore answers with the last
flushed put, and that is the last put exactly when no pending put of the key
says something else.
-/

namespace Kvaccel.Ref

open Kvaccel.Lib Kvaccel.Spec

namespace DB

/-! ## A flush -/

theorem Buffered.totalDataLen_eq {bip : BufferingInfo} {p : List (Key × Value)}
    {k v : Bytes} (h : Buffered bip (p ++ [(k, v)]))
    (hfits : pagesOf ((p ++ [(k, v)]).map Prod.snd) ≤ maxValueBufferEntry) :
    totalDataLen bip = 4096 * pagesOf (p.map Prod.snd) + v.length := by
  have htable := h.table
  rw [entriesFrom_append, entriesFrom, entriesFrom] at htable
  have hroom := htable.room
  have hpair := htable.pair
  rw [List.length_append, length_entriesFrom, List.length_singleton] at hroom hpair
  obtain ⟨_, hoff, hsize⟩ := htable.read
  rw [length_entriesFrom] at hoff hsize
  rw [List.map_append, pagesOf_append, List.map_singleton] at hfits
  have hv : pagesOf [v] = pages v.length := by simp [pagesOf]
  have hle := le_pages v.length
  unfold maxValueBufferEntry at hfits
  unfold limitValueBufferEntry at hroom
  have haddr : u32 ((bip.kvPairOffset + (4294967296 - 1)) * bytesPerKvPairOffset) =
      12 * p.length := by
    rw [u32, hpair, bytesPerKvPairOffset]
    omega
  simp only [Nat.zero_add] at hoff hsize
  unfold totalDataLen
  simp only [haddr, hoff, hsize]
  rw [pageSize, u32]
  simp only [] at hfits
  omega

/-- The last value decides how long the log is: it ends on the log's last page,
an empty one where that page does. -/
theorem Buffered.totalDataLen_bounds {bip : BufferingInfo} {p : List (Key × Value)}
    {k v : Bytes} (h : Buffered bip (p ++ [(k, v)]))
    (hfits : pagesOf ((p ++ [(k, v)]).map Prod.snd) ≤ maxValueBufferEntry) :
    totalDataLen bip ≤ 4096 * bip.valueLogOffset ∧
      4096 * bip.valueLogOffset < totalDataLen bip + 4096 := by
  have hsum : pagesOf ((p ++ [(k, v)]).map Prod.snd) =
      pagesOf (p.map Prod.snd) + pages v.length := by
    rw [List.map_append, pagesOf_append]
    simp [pagesOf]
  have hceil : v.length ≤ 4096 * pages v.length ∧
      4096 * pages v.length < v.length + 4096 := by
    unfold pages
    omega
  rw [h.totalDataLen_eq hfits, h.offset, hsum]
  omega

section Flush

variable {bip : BufferingInfo} {result : Nat}

/-- Iteration `i` sends the log's bytes from `i` times 128 pages on. -/
theorem valueFlushCmd_eq {i : Nat} (hi : i * 128 < bip.valueLogOffset)
    (hcnt : bip.valueLogOffset ≤ maxValueBufferEntry)
    (hlo : 4096 * (bip.valueLogOffset - 1) < totalDataLen bip)
    (hhi : totalDataLen bip ≤ 4096 * bip.valueLogOffset) :
    (valueFlushCmd bip i).opcode = .vFlush ∧
      (valueFlushCmd bip i).cdw14 = (if i = 0 then 1 else 0) ∧
      (valueFlushCmd bip i).data = (fun j => bip.valueLog (524288 * i + j)) ∧
      (valueFlushCmd bip i).cdw13 =
        if bip.valueLogOffset ≤ (i + 1) * 128 then
          totalDataLen bip - 524288 * i else 524288 := by
  unfold maxValueBufferEntry at hcnt
  have hstart : u32 (i * limitValueBufferEntry * pageSize) = 524288 * i := by
    rw [u32, limitValueBufferEntry, pageSize]
    omega
  have hnext : u32 ((i + 1) * limitValueBufferEntry) = (i + 1) * 128 := by
    rw [u32, limitValueBufferEntry]
    omega
  refine ⟨rfl, rfl, ?_, ?_⟩
  · simp only [valueFlushCmd, hstart]
  · simp only [valueFlushCmd, hstart, hnext]
    split
    · rw [u32]
      omega
    · rfl

/-- One round of the loop when the device takes the chunk. -/
theorem valueFlushLoop_succ {σ : Type} {exec : Device σ} {fuel i : Nat} {db : DB σ}
    (hi : u32 (i * limitValueBufferEntry) < bip.valueLogOffset)
    (hok : (exec (valueFlushCmd bip i) db.device).1.err = 0) :
    valueFlushLoop exec bip result (fuel + 1) i db =
      valueFlushLoop exec bip result fuel (i + 1)
        (finishPassthru { db with
          device := (exec (valueFlushCmd bip i) db.device).2 } .vFlush) := by
  rw [valueFlushLoop, if_pos hi, nvmePassthru_ok hok]
  simp only [hok, Int.lt_irrefl, if_false]
  rfl

theorem valueFlushLoop_stop {σ : Type} {exec : Device σ} {fuel i : Nat} {db : DB σ}
    (hi : ¬ u32 (i * limitValueBufferEntry) < bip.valueLogOffset) :
    valueFlushLoop exec bip result fuel i db = (0, db) := by
  cases fuel with
  | zero => rfl
  | succ fuel => rw [valueFlushLoop, if_neg hi]

/-- What the device makes of chunk `i`: it lands where it was in the log. -/
theorem exec_valueFlushCmd {i : Nat} (d : MapDevice)
    (hi : i * 128 < bip.valueLogOffset)
    (hcnt : bip.valueLogOffset ≤ maxValueBufferEntry)
    (hlo : 4096 * (bip.valueLogOffset - 1) < totalDataLen bip)
    (hhi : totalDataLen bip ≤ 4096 * bip.valueLogOffset)
    (hlen : 0 < i → d.logLen = 524288 * i)
    (hlog : ∀ x, x < 524288 * i → d.log x = bip.valueLog x) :
    ∃ data log logLen, MapDevice.exec (valueFlushCmd bip i) d =
        ({ err := 0, result := 0, data := data },
          { log := log, logLen := logLen, map := d.map }) ∧
      ∀ end_, end_ = (if bip.valueLogOffset ≤ (i + 1) * 128 then totalDataLen bip
          else 524288 * (i + 1)) →
        logLen = end_ ∧ ∀ x, x < end_ → log x = bip.valueLog x := by
  obtain ⟨hop, hc14, hdata, hc13⟩ := valueFlushCmd_eq hi hcnt hlo hhi
  have hbase : (if (valueFlushCmd bip i).cdw14 = 1 then 0 else d.logLen) =
      524288 * i := by
    rw [hc14]
    rcases Nat.eq_zero_or_pos i with rfl | hpos
    · rfl
    · rw [if_neg (by rw [if_neg (by omega)]; decide)]
      exact hlen hpos
  have hend : 524288 * i + (valueFlushCmd bip i).cdw13 =
      if bip.valueLogOffset ≤ (i + 1) * 128 then totalDataLen bip
        else 524288 * (i + 1) := by
    rw [hc13]
    split <;> omega
  refine ⟨(valueFlushCmd bip i).data, d.log.write (524288 * i)
    ((valueFlushCmd bip i).data.read 0 (valueFlushCmd bip i).cdw13),
    524288 * i + (valueFlushCmd bip i).cdw13, ?_, ?_⟩
  · unfold MapDevice.exec
    simp only [hop, hbase]
  · rintro _ rfl
    refine ⟨hend, fun x hx => ?_⟩
    rcases Nat.lt_or_ge x (524288 * i) with hlt | hge
    · rw [Mem.write_of_lt hlt]
      exact hlog x hlt
    · obtain ⟨j, rfl⟩ := Nat.exists_eq_add_of_le hge
      rw [Mem.write_of_mem (by rw [Mem.length_read]; omega), Mem.getElem_read,
        hdata, Nat.zero_add]

/-- The chunks lay the value log out on the device again. Before iteration
`i` the device has the bytes of the iterations before it. -/
theorem valueFlushLoop_spec (result : Nat) (hcnt : bip.valueLogOffset ≤ maxValueBufferEntry)
    (hlo : 4096 * (bip.valueLogOffset - 1) < totalDataLen bip)
    (hhi : totalDataLen bip ≤ 4096 * bip.valueLogOffset) :
    ∀ (fuel i : Nat) (db : DB MapDevice), i * 128 < bip.valueLogOffset →
      bip.valueLogOffset ≤ fuel + i * 128 →
      (0 < i → db.device.logLen = 524288 * i) →
      (∀ x, x < 524288 * i → db.device.log x = bip.valueLog x) →
      ∃ db', valueFlushLoop MapDevice.exec bip result fuel i db = (0, db') ∧
        db'.bufferingInfo = db.bufferingInfo ∧ db'.device.map = db.device.map ∧
        ∀ x, x < totalDataLen bip → db'.device.log x = bip.valueLog x := by
  intro fuel
  induction fuel with
  | zero => intro i db hi hfuel; omega
  | succ fuel ih =>
      intro i db hi hfuel hlen hlog
      obtain ⟨data, log, logLen, hexec, hlog'⟩ :=
        exec_valueFlushCmd db.device hi hcnt hlo hhi hlen hlog
      unfold maxValueBufferEntry at hcnt
      rw [valueFlushLoop_succ (by rw [u32, limitValueBufferEntry]; omega)
        (by rw [hexec]), hexec]
      by_cases hmore : (i + 1) * 128 < bip.valueLogOffset
      · obtain ⟨hend, hall⟩ := hlog' (524288 * (i + 1)) (by rw [if_neg (by omega)])
        exact ih (i + 1) (finishPassthru { db with
          device := { log := log, logLen := logLen, map := db.device.map } } .vFlush)
          hmore (by omega) (fun _ => hend) hall
      · -- The last chunk: it ends where the log does.
        obtain ⟨_, hall⟩ := hlog' (totalDataLen bip) (by rw [if_pos (by omega)])
        rw [valueFlushLoop_stop (by rw [u32, limitValueBufferEntry]; omega)]
        exact ⟨_, rfl, rfl, rfl, hall⟩

end Flush

/-- A put the device can take: four key bytes, and a value that is not empty
and has no NUL. -/
def Plain (r : Key × Value) : Prop :=
  r.1.length = 4 ∧ r.2 ≠ [] ∧ (0 : UInt8) ∉ r.2

/-- Over a device log that holds the values, the table's records are the puts. -/
theorem recordsOf_entriesFrom {d : MapDevice} : ∀ (p : List (Key × Value)) (off : Nat),
    LogAt d.log (p.map Prod.snd) off → (∀ r ∈ p, Plain r) →
    off + pagesOf (p.map Prod.snd) ≤ maxValueBufferEntry →
    d.recordsOf ((entriesFrom off p).map fun e =>
      (e.1, e.2.1 % 4294967296, e.2.2 % 4294967296)) = p := by
  intro p
  induction p with
  | nil => intro off _ _ _; rfl
  | cons r p ih =>
      intro off hlog hplain hfits
      obtain ⟨hkey, _, hnul⟩ := hplain r List.mem_cons_self
      rw [List.map_cons, pagesOf_cons] at hfits
      have hrest := ih (off + pages r.2.length) hlog.2
        (fun r' hr' => hplain r' (List.mem_cons_of_mem _ hr')) (by omega)
      unfold MapDevice.recordsOf at hrest ⊢
      rw [entriesFrom, List.map_cons, List.map_cons, hrest]
      have hsize := le_pages r.2.length
      unfold maxValueBufferEntry at hfits
      have hvalue : d.valueOf (firstFour r.1, off % 4294967296,
          r.2.length % 4294967296) = r.2 := by
        unfold MapDevice.valueOf
        simp only []
        rw [Nat.mod_eq_of_lt (by omega), Nat.mod_eq_of_lt (by omega), hlog.1,
          strncpy_eq hnul]
      rw [hvalue, firstFour_eq_self hkey]

theorem keyValueFlush_spec (db : DB MapDevice) (p : List (Key × Value))
    (htable : Table db.bufferingInfo (entriesFrom 0 p)) (hplain : ∀ r ∈ p, Plain r)
    (hfits : pagesOf (p.map Prod.snd) ≤ maxValueBufferEntry)
    (hlog : LogAt db.device.log (p.map Prod.snd) 0) (out : Outside) :
    (db.keyValueFlush MapDevice.exec out).2.device.map =
      applied db.device.map p := by
  have hexec : (MapDevice.exec (keyValueFlushCmd db.bufferingInfo) db.device).2.map =
      applied db.device.map p := by
    have hop : (keyValueFlushCmd db.bufferingInfo).opcode = .kvFlush := rfl
    simp only [MapDevice.exec, hop, htable.flushed]
    rw [recordsOf_entriesFrom p 0 hlog hplain (by omega)]
  unfold keyValueFlush
  rw [nvmePassthru_ok rfl]
  exact hexec

theorem logAt_of_pagesOf_zero {m : Mem} : ∀ {vs : List Value} {off : Nat},
    pagesOf vs = 0 → LogAt m vs off := by
  intro vs
  induction vs with
  | nil => intro off _; trivial
  | cons v vs ih =>
      intro off h
      rw [pagesOf_cons] at h
      have hv := le_pages v.length
      have hnil : v = [] := List.eq_nil_of_length_eq_zero (by omega)
      subst hnil
      exact ⟨rfl, ih (by omega)⟩

/-- A copy of the log as far as `_ValueFlush` sends it has all the values. -/
theorem Buffered.logAt_copy {bip : BufferingInfo} {p : List (Key × Value)} {m : Mem}
    (h : Buffered bip p) (hfits : pagesOf (p.map Prod.snd) ≤ maxValueBufferEntry)
    (hcopy : ∀ x, x < totalDataLen bip → m x = bip.valueLog x) : LogAt m (p.map Prod.snd) 0 := by
  obtain rfl | ⟨q, ⟨k, v⟩, rfl⟩ := List.eq_nil_or_concat p
  · trivial
  · rw [List.concat_eq_append] at h hfits ⊢
    have hhost := h.log
    rw [List.map_append, List.map_singleton] at hhost ⊢
    refine hhost.congr fun x hx => hcopy x ?_
    rw [h.totalDataLen_eq hfits]
    rw [Nat.zero_add] at hx
    exact hx

/-- A value flush hands the device the log, whatever the values are. -/
theorem Buffered.valueFlush {db : DB MapDevice} {p : List (Key × Value)}
    (h : Buffered db.bufferingInfo p)
    (hfits : pagesOf (p.map Prod.snd) ≤ maxValueBufferEntry) (out : Outside) :
    ∃ db', db.valueFlush MapDevice.exec out = (0, db') ∧
      db'.bufferingInfo = db.bufferingInfo ∧ db'.device.map = db.device.map ∧
      LogAt db'.device.log (p.map Prod.snd) 0 := by
  have hoffset := h.offset
  rcases Nat.eq_zero_or_pos (pagesOf (p.map Prod.snd)) with hzero | hpos
  · have hstop : db.valueFlush MapDevice.exec out = (0, db) :=
      valueFlushLoop_stop (by rw [hoffset, hzero]; exact Nat.not_lt_zero _)
    exact ⟨db, hstop, rfl, rfl, logAt_of_pagesOf_zero hzero⟩
  obtain hnil | ⟨q, ⟨k, v⟩, hq⟩ := List.eq_nil_or_concat p
  · rw [hnil] at hpos
    cases hpos
  rw [List.concat_eq_append] at hq
  subst hq
  obtain ⟨hhi, hlo⟩ := h.totalDataLen_bounds hfits
  obtain ⟨db', hloop, hbip, hmap, hlog⟩ := valueFlushLoop_spec out.result
    (hoffset ▸ hfits) (by omega) (by omega) db.bufferingInfo.valueLogOffset 0 db (by omega)
    (by omega) (fun h0 => absurd h0 (by omega)) (fun x hx => by omega)
  exact ⟨db', hloop, hbip, hmap, h.logAt_copy hfits hlog⟩

/-- A flush moves the batch to the device. -/
theorem flush_spec {db : DB MapDevice} {p : List (Key × Value)}
    (h : Buffered db.bufferingInfo p) (hplain : ∀ r ∈ p, Plain r)
    (hfits : pagesOf (p.map Prod.snd) ≤ maxValueBufferEntry) (out : Outside) :
    Buffered (db.flush MapDevice.exec out).bufferingInfo [] ∧
      (db.flush MapDevice.exec out).device.map = applied db.device.map p := by
  refine ⟨buffered_release _, ?_⟩
  obtain ⟨db', hflush, hbip, hmap, hlog⟩ := h.valueFlush hfits out
  have hkv := keyValueFlush_spec db' p (by rw [hbip]; exact h.table) hplain hfits hlog out
  rw [hmap] at hkv
  unfold flush
  rw [hflush]
  exact hkv

/-! ## One call -/

/-- The driver holds the division `s` of the puts made. -/
structure Holds (s : Split) (db : DB MapDevice) : Prop where
  buffered : Buffered db.bufferingInfo s.pending
  device : db.device.map = lastPut s.flushed
  plain : ∀ r ∈ s.pending, Plain r
  fits : pagesOf (s.pending.map Prod.snd) ≤ maxValueBufferEntry
  room : s.pending.length < limitValueBufferEntry
  small : ∀ k v, lastPut s.flushed k = some v → v.length ≤ 4096 * maxValueBufferEntry

theorem applied_append (m : Key → Option Value) (l l' : List (Key × Value)) :
    applied m (l ++ l') = applied (applied m l) l' :=
  List.foldl_append

theorem applied_eq_or : ∀ (l : List (Key × Value)) (m : Key → Option Value) (k : Key),
    applied m l k = (lastPut l k).or (m k) := by
  intro l
  induction l with
  | nil => intro m k; rfl
  | cons r l ih =>
      intro m k
      have hl : ∀ m', applied m' (r :: l) = applied (Function.update m' r.1 (some r.2)) l :=
        fun _ => rfl
      rw [lastPut, hl, hl, ih, ih]
      by_cases hk : k = r.1
      · subst hk
        simp
      · rw [Function.update_of_ne hk, Function.update_of_ne hk]
        simp

theorem lastPut_append (l l' : List (Key × Value)) (k : Key) :
    lastPut (l ++ l') k = (lastPut l' k).or (lastPut l k) := by
  rw [lastPut, applied_append, applied_eq_or]
  rfl

/-- What the last put of a key says is one of the puts. -/
theorem mem_of_lastPut : ∀ {l : List (Key × Value)} {k : Key} {v : Value},
    lastPut l k = some v → (k, v) ∈ l := by
  intro l
  induction l with
  | nil => intro k v h; cases h
  | cons r l ih =>
      intro k v h
      rw [show r :: l = [r] ++ l from rfl, lastPut_append] at h
      cases hl : lastPut l k with
      | some w =>
          rw [hl, Option.some_or] at h
          exact List.mem_cons_of_mem _ (ih (hl.trans h))
      | none =>
          rw [hl, Option.none_or] at h
          by_cases hk : k = r.1
          · subst hk
            simp only [lastPut, applied, List.foldl_cons, List.foldl_nil,
              Function.update_self, Option.some.injEq] at h
            rw [← h]
            exact List.mem_cons_self
          · simp [lastPut, applied, hk] at h

theorem length_le_of_mem {r : Key × Value} {p : List (Key × Value)} (hr : r ∈ p)
    (h : pagesOf (p.map Prod.snd) ≤ maxValueBufferEntry) :
    r.2.length ≤ 4096 * maxValueBufferEntry := by
  obtain ⟨a, b, rfl⟩ := List.append_of_mem hr
  rw [List.map_append, List.map_cons, pagesOf_append, pagesOf_cons] at h
  have := le_pages r.2.length
  omega

theorem holds_opened : Holds ⟨[], []⟩ (opened MapDevice.empty) where
  buffered := buffered_opened _
  device := rfl
  plain := by simp
  fits := by decide
  room := by decide
  small := by simp [lastPut, applied]

/-- A flush moves the batch to the other side of the division. -/
theorem holds_flush {f p : List (Key × Value)} (db : DB MapDevice)
    (hbuf : Buffered db.bufferingInfo p) (hdev : db.device.map = lastPut f)
    (hplain : ∀ r ∈ p, Plain r)
    (hfits : pagesOf (p.map Prod.snd) ≤ maxValueBufferEntry)
    (hsmall : ∀ k v, lastPut f k = some v → v.length ≤ 4096 * maxValueBufferEntry)
    (out : Outside) : Holds ⟨f ++ p, []⟩ (db.flush MapDevice.exec out) := by
  obtain ⟨hbuf', hmap⟩ := flush_spec hbuf hplain hfits out
  refine ⟨hbuf', ?_, by simp, Nat.zero_le _, Nat.succ_pos _, ?_⟩
  · rw [hmap, hdev]
    exact (applied_append _ _ _).symm
  · intro k v hkv
    rw [lastPut_append] at hkv
    cases hlast : lastPut p k with
    | none =>
        rw [hlast, Option.none_or] at hkv
        exact hsmall k v hkv
    | some w =>
        rw [hlast, Option.some_or, Option.some.injEq] at hkv
        subst hkv
        exact length_le_of_mem (mem_of_lastPut hlast) hfits

theorem Holds.finishOp {s : Split} {db : DB MapDevice} (h : Holds s db) (op : Nat) :
    Holds s (db.finishOp op) :=
  ⟨h.buffered, h.device, h.plain, h.fits, h.room, h.small⟩

theorem Holds.put {s : Split} {db : DB MapDevice} (h : Holds s db) {key value : Bytes}
    {out : Outside} (hsound : Sound (.put key value out))
    (hfits : pagesOf ((s.pending ++ [(key, value)]).map Prod.snd) ≤
      maxValueBufferEntry) :
    Holds (splitStep s (.put key value out)) (db.put MapDevice.exec key value out).2 := by
  obtain ⟨hkey, hne, hnul, hvl, hkv⟩ := hsound
  obtain ⟨bip, hbuf, hbip⟩ := h.buffered.buffering h.room hfits hvl hkv
  have hplain : ∀ r ∈ s.pending ++ [(key, value)], Plain r := by
    intro r hr
    rcases List.mem_append.mp hr with hr | hr
    · exact h.plain r hr
    · simp only [List.mem_singleton] at hr
      subst hr
      exact ⟨hkey, hne, hnul⟩
  have hpair := hbip.table.pair
  rw [length_entriesFrom, List.length_append, List.length_singleton] at hpair
  unfold DB.put
  rw [hbuf, splitStep]
  simp only [hpair]
  have hroom := h.room
  split
  · -- The batch is full: the put goes to the device with it.
    exact (holds_flush { db with bufferingInfo := bip } hbip h.device hplain hfits
      h.small out).finishOp 0
  · have hbuffered : Holds ⟨s.flushed, s.pending ++ [(key, value)]⟩
        { db with bufferingInfo := bip } := by
      refine ⟨hbip, h.device, hplain, hfits, ?_, h.small⟩
      rw [List.length_append, List.length_singleton]
      omega
    exact hbuffered.finishOp 0

/-- The command itself leaves the map alone. -/
theorem Holds.createIterCmd {s : Split} {db : DB MapDevice} (h : Holds s db)
    (iterId : Nat) (out : Outside) :
    Holds s (db.createIterCmd MapDevice.exec iterId out).2.2 := by
  rw [createIterCmd_db, nvmePassthru_ok rfl]
  exact ⟨h.buffered, h.device, h.plain, h.fits, h.room, h.small⟩

theorem Holds.createIter {s : Split} {db : DB MapDevice} (h : Holds s db)
    (iterId : Nat) (out : Outside) :
    Holds (splitStep s (.createIter iterId out))
      (db.createIter MapDevice.exec iterId out).2.2 := by
  refine Holds.createIterCmd ?_ iterId out
  rw [splitStep]
  rcases h.buffered.flushBeforeIter MapDevice.exec out with hflush | ⟨hp, hflush⟩
  · rw [hflush]
    exact holds_flush db h.buffered h.device h.plain h.fits h.small out
  · rw [hflush, hp, List.append_nil, ← hp]
    exact h

/-- What the device returns for a `kvGet` of a key that it has this of. -/
def foundReply : Option Value → IoResult
  | some v => {
      err := 0
      result := v.length
      data := Mem.write (fun _ => 0) 0 (v.take maxBufLen) }
  | none => { err := 0x7C1, result := 0, data := fun _ => 0 }

/-- The device takes the reply buffer for as long as it is. -/
theorem replyLen_eq : min maxBufLen ((replyNlb + 1) * pageSize) = maxBufLen := by decide

/-- `Get` takes as many bytes as the value has, of a buffer that may be
shorter. -/
theorem read_foundReply (v : Value) :
    ((Mem.write (fun _ => 0) 0 (v.take maxBufLen)).upTo maxBufLen).read 0 v.length =
      clipped v := by
  refine List.ext_getElem ?_ fun i h₁ h₂ => ?_
  · simp only [Mem.length_read, clipped, List.length_append, List.length_take,
      List.length_replicate]
    omega
  · rw [Mem.getElem_read, Nat.zero_add, Mem.upTo]
    rw [Mem.length_read] at h₁
    split
    · next hlt =>
        have htake : i < (v.take maxBufLen).length := by
          rw [List.length_take]
          omega
        have hwrite : Mem.write (fun _ => 0) 0 (v.take maxBufLen) (0 + i) =
            (v.take maxBufLen)[i] := Mem.write_of_mem htake
        rw [Nat.zero_add] at hwrite
        rw [hwrite]
        exact (List.getElem_append_left htake).symm
    · next hge =>
        have htake : (v.take maxBufLen).length ≤ i := by
          rw [List.length_take]
          omega
        simp only [clipped, List.getElem_append_right htake, List.getElem_replicate]

theorem clipped_eq {v : Value} (h : v.length ≤ maxBufLen) : clipped v = v := by
  rw [clipped, List.take_of_length_le h, Nat.sub_eq_zero_of_le h, List.replicate_zero,
    List.append_nil]

/-- The zeros give a long value away. -/
theorem zero_mem_clipped {v : Value} (h : maxBufLen < v.length) : (0 : UInt8) ∈ clipped v :=
  List.mem_append_right _ (List.mem_replicate.mpr ⟨by omega, rfl⟩)

theorem length_clipped (v : Value) : (clipped v).length = v.length := by
  simp only [clipped, List.length_append, List.length_take, List.length_replicate]
  omega

/-- A get answers with the last flushed put of its key, as far as the reply
buffer goes. -/
theorem Holds.get {s : Split} {db : DB MapDevice} (h : Holds s db)
    {key : Bytes} (value : Bytes) {out : Outside} (hkey : key.length = 4)
    (hout : out.data = true) :
    Holds s (db.get MapDevice.exec key value out).2.2 ∧
      (.get (db.get MapDevice.exec key value out).1
        (db.get MapDevice.exec key value out).2.1 : Reply) =
        reported value ((lastPut s.flushed key).map clipped) := by
  have hexec : MapDevice.exec {
        opcode := .kvGet
        cdw10 := word (firstFour key)
        cdw12 := replyNlb
        dataLen := maxBufLen } db.device =
      (foundReply (lastPut s.flushed key), db.device) := by
    unfold MapDevice.exec
    simp only [firstFour_eq_self hkey, le32_word hkey, h.device, replyLen_eq]
    cases lastPut s.flushed key <;> rfl
  unfold DB.get
  rw [if_neg (by simp [hout])]
  cases hlast : lastPut s.flushed key with
  | none =>
      rw [hlast, foundReply] at hexec
      unfold nvmePassthru
      rw [hexec]
      refine ⟨⟨h.buffered, h.device, h.plain, h.fits, h.room, h.small⟩, rfl⟩
  | some v =>
      rw [hlast, foundReply] at hexec
      rw [nvmePassthru_ok (by rw [hexec]), hexec]
      have hle := h.small key v hlast
      unfold maxValueBufferEntry at hle
      have hint : asInt v.length = v.length := by rw [asInt, if_pos (by omega)]
      simp only [hint, Int.toNat_natCast, read_foundReply]
      rw [if_neg (by omega), if_neg (by omega), Option.map_some, reported, length_clipped]
      split
      · exact ⟨⟨h.buffered, h.device, h.plain, h.fits, h.room, h.small⟩, rfl⟩
      · rename_i hpos
        have hv : v = [] := List.length_eq_zero_iff.mp (by omega)
        subst hv
        exact ⟨⟨h.buffered, h.device, h.plain, h.fits, h.room, h.small⟩, rfl⟩

/-! ## A sequence of calls -/

theorem Holds.call {s : Split} {db : DB MapDevice} (h : Holds s db) {c : Call}
    (hsound : Sound c)
    (hfits : pagesOf ((s.pending ++ (putOf c).toList).map Prod.snd) ≤
      maxValueBufferEntry) :
    Holds (splitStep s c) (call MapDevice.exec db c).2 ∧
      ∀ key value out, c = .get key value out →
        (Spec.call MapDevice.exec db c).1 =
          reported value ((lastPut s.flushed key).map clipped) := by
  cases c with
  | put key value out => exact ⟨h.put hsound hfits, by simp⟩
  | get key value out =>
      obtain ⟨hholds, hrep⟩ := h.get value hsound.1 hsound.2
      refine ⟨hholds, ?_⟩
      intro key' value' out' heq
      simp only [Call.get.injEq] at heq
      obtain ⟨rfl, rfl, rfl⟩ := heq
      exact hrep
  | createIter iterId out => exact ⟨h.createIter iterId out, by simp⟩

theorem Holds.calls : ∀ (cs : List Call) {s : Split} {db : DB MapDevice},
    Holds s db → (∀ c ∈ cs, Sound c) → BatchesFit s cs →
    ∀ i key value out, cs[i]? = some (.get key value out) →
      (calls MapDevice.exec db cs)[i]? = some (reported value
        ((lastPut ((cs.take i).foldl splitStep s).flushed key).map clipped)) := by
  intro cs
  induction cs with
  | nil => intro s db _ _ _ i key value out hi; simp at hi
  | cons c cs ih =>
      intro s db h hsound hfits i key value out hi
      obtain ⟨hnext, hget⟩ := h.call (hsound c List.mem_cons_self) hfits.1
      rw [Spec.calls]
      cases i with
      | zero =>
          simp only [List.getElem?_cons_zero, Option.some.injEq] at hi ⊢
          exact hget key value out hi
      | succ i =>
          simp only [List.getElem?_cons_succ] at hi ⊢
          exact ih hnext (fun c' hc' => hsound c' (List.mem_cons_of_mem _ hc'))
            hfits.2 i key value out hi

/-- Every put made is on one side of the division or the other, in order. -/
theorem split_append (cs : List Call) : ∀ s : Split,
    (cs.foldl splitStep s).flushed ++ (cs.foldl splitStep s).pending =
      s.flushed ++ s.pending ++ cs.filterMap putOf := by
  induction cs with
  | nil => intro s; simp
  | cons c cs ih =>
      intro s
      rw [List.foldl_cons, ih]
      cases c with
      | put key value out =>
          rw [splitStep]
          split <;> simp [putOf]
      | get key value out =>
          rw [List.filterMap_cons_none rfl]
          rfl
      | createIter iterId out =>
          rw [List.filterMap_cons_none rfl]
          simp [splitStep]

theorem reported_inj {value : Value} {a b : Option Value}
    (h : reported value a = reported value b) : a = b := by
  cases a with
  | none =>
      cases b with
      | none => rfl
      | some w =>
          simp only [reported, Reply.get.injEq] at h
          omega
  | some v =>
      cases b with
      | none =>
          simp only [reported, Reply.get.injEq] at h
          omega
      | some w =>
          simp only [reported, Reply.get.injEq] at h
          rw [h.2]

/-- What is pending hides what is behind it. -/
theorem or_eq_iff {a b : Option Value} : b = a.or b ↔ a = none ∨ a = b := by
  cases a with
  | none => simp
  | some v => simp [eq_comm]

theorem map_clipped {b : Option Value} (h : ∀ v, b = some v → v.length ≤ maxBufLen) :
    b.map clipped = b := by
  cases b with
  | none => rfl
  | some v => rw [Option.map_some, clipped_eq (h v rfl)]

/-- What the device delivers of `b` is the last put, `a` or else `b`, if `a`
does not differ from it and the buffer holds it. No value has a zero, and what
is read behind the buffer is one. -/
theorem clipped_eq_or_iff {a b : Option Value} (ha : ∀ v, a = some v → (0 : UInt8) ∉ v)
    (hb : ∀ v, b = some v → (0 : UInt8) ∉ v) :
    b.map clipped = a.or b ↔
      (a = none ∨ a = b) ∧ ∀ v, b = some v → v.length ≤ maxBufLen := by
  constructor
  · intro h
    have hshort : ∀ v, b = some v → v.length ≤ maxBufLen := by
      intro v hv
      by_contra hlong
      have hzero := zero_mem_clipped (Nat.lt_of_not_le hlong)
      rw [hv, Option.map_some] at h
      cases ha' : a with
      | none =>
          rw [ha', Option.none_or, Option.some.injEq] at h
          exact hb v hv (h ▸ hzero)
      | some w =>
          rw [ha', Option.some_or, Option.some.injEq] at h
          exact ha w ha' (h ▸ hzero)
    rw [map_clipped hshort] at h
    exact ⟨or_eq_iff.mp h, hshort⟩
  · rintro ⟨hsame, hshort⟩
    rw [map_clipped hshort]
    exact or_eq_iff.mpr hsame

/-- The driver over a map device reads its last puts exactly when no get
meets a pending put that differs from what the device has, or a value there that
is longer than the reply buffer. -/
theorem readsLast_iff_noPendingRead {cs : List Call} (hsound : ∀ c ∈ cs, Sound c)
    (hfits : BatchesFit ⟨[], []⟩ cs) :
    ReadsLast MapDevice.exec (opened MapDevice.empty) cs ↔
      NoPendingRead cs ∧ NoLongRead cs := by
  have hcalls := holds_opened.calls cs hsound hfits
  have hget : ∀ (i : Nat) key value out, cs[i]? = some (.get key value out) →
      ((calls MapDevice.exec (opened MapDevice.empty) cs)[i]? =
          some (reported value (lastPut ((cs.take i).filterMap putOf) key)) ↔
        (lastPut (split (cs.take i)).pending key = none ∨
          lastPut (split (cs.take i)).pending key =
            lastPut (split (cs.take i)).flushed key) ∧
        ∀ v, lastPut (split (cs.take i)).flushed key = some v → v.length ≤ maxBufLen) := by
    intro i key value out hi
    have hputs := split_append (cs.take i) ⟨[], []⟩
    rw [List.nil_append, List.nil_append] at hputs
    have hplain : ∀ r ∈ (cs.take i).filterMap putOf, (0 : UInt8) ∉ r.2 := by
      intro r hr
      obtain ⟨c, hc, hput⟩ := List.mem_filterMap.mp hr
      have hc := hsound c (List.mem_of_mem_take hc)
      cases c with
      | put key value out =>
          cases hput
          exact hc.2.2.1
      | get key value out | createIter iterId out => cases hput
    rw [← hputs] at hplain
    rw [hcalls i key value out hi, Option.some.injEq, ← hputs, lastPut_append]
    refine Iff.trans ⟨reported_inj, congrArg _⟩ (clipped_eq_or_iff ?_ ?_)
    · exact fun v hv => hplain _ (List.mem_append_right _ (mem_of_lastPut hv))
    · exact fun v hv => hplain _ (List.mem_append_left _ (mem_of_lastPut hv))
  constructor
  · intro h
    have hboth := fun i key value out hi => (hget i key value out hi).mp (h i key value out hi)
    exact ⟨fun i key value out hi => (hboth i key value out hi).1,
      fun i key value out hi => (hboth i key value out hi).2⟩
  · exact fun h i key value out hi => (hget i key value out hi).mpr
      ⟨h.1 i key value out hi, h.2 i key value out hi⟩

theorem readsLast_iff_createIter :
    ReadsLast MapDevice.exec (opened MapDevice.empty)
        [.put [97, 97, 97, 97] [1] .fine, .createIter 0 .fine,
          .get [97, 97, 97, 97] [] .fine] ↔
      NoPendingRead [.put [97, 97, 97, 97] [1] .fine, .createIter 0 .fine,
        .get [97, 97, 97, 97] [] .fine] ∧
      NoLongRead [.put [97, 97, 97, 97] [1] .fine, .createIter 0 .fine,
        .get [97, 97, 97, 97] [] .fine] :=
  readsLast_iff_noPendingRead
    (by simp [Sound, Outside.fine])
    (by simp [BatchesFit, splitStep, putOf, pagesOf, pages, limitValueBufferEntry,
      maxValueBufferEntry])

/-- A get right after the put does not find the key. -/
theorem not_readsLast_put_get :
    (∀ c ∈ [Call.put [97, 97, 97, 97] [1] .fine,
        .get [97, 97, 97, 97] [] .fine], Sound c) ∧
      BatchesFit ⟨[], []⟩ [.put [97, 97, 97, 97] [1] .fine,
        .get [97, 97, 97, 97] [] .fine] ∧
      ¬ ReadsLast MapDevice.exec (opened MapDevice.empty)
        [.put [97, 97, 97, 97] [1] .fine, .get [97, 97, 97, 97] [] .fine] := by
  refine ⟨by simp [Sound, Outside.fine], ?_, fun h => ?_⟩
  · simp [BatchesFit, splitStep, putOf, pagesOf, pages, limitValueBufferEntry,
      maxValueBufferEntry]
  · exact absurd (h 1 [97, 97, 97, 97] [] .fine rfl) (by decide)

end DB

end Kvaccel.Ref
