import Kvaccel.Spec.Reply

/-!
# What a scan hands out

A scan is a `SeekScan` followed by `NextScan` calls on the same iterator. The
decoder is right about every reply, so `keys[iter_id]` and `values[iter_id]`
always hold the undelivered rest of one batch; the calls then take keys from
the front and values from the back. Within a batch the keys therefore come in
device order and the values in the reverse of it, and a batch is over when
both lists are, which is what makes the enumeration complete although the
pairing is wrong. `handed` is that sequence, and everything here is about it:
the keys of `handed` are the records' keys, and `handed` is the record list
itself exactly when every batch reads the same backwards in its values.
-/

namespace Kvaccel.Spec

open Kvaccel.Lib Kvaccel.Ref

/-! ## Decoding -/

theorem le_valueBlocks (len : Nat) : len ≤ valueBlocks len * blockSize := by
  unfold valueBlocks blockSize
  split <;> omega

theorem valueBlocks_pos {len : Nat} (h : 0 < len) : 0 < valueBlocks len := by
  unfold valueBlocks blockSize
  split <;> omega

/-- The terminator is before the values. -/
theorem le_valueStart (n : Nat) : 8 * n + 8 ≤ valueStart n := by
  unfold valueStart blockSize
  omega

/-- Values take at least a block each, and none is longer than the rest. -/
theorem valuesEnd_ge : ∀ (vs : List Value) (pos : Nat), (∀ v ∈ vs, v ≠ []) →
    pos + blockSize * vs.length ≤ valuesEnd vs pos ∧
      ∀ v ∈ vs, pos + valueBlocks v.length * blockSize ≤ valuesEnd vs pos := by
  intro vs
  induction vs with
  | nil => intro pos _; simp [valuesEnd]
  | cons v vs ih =>
      intro pos hne
      obtain ⟨hlen, hall⟩ := ih (pos + valueBlocks v.length * blockSize)
        fun w hw => hne w (List.mem_cons_of_mem _ hw)
      have hv : 0 < valueBlocks v.length :=
        valueBlocks_pos (List.length_pos_iff.mpr (hne v List.mem_cons_self))
      rw [valuesEnd, List.length_cons]
      unfold blockSize at *
      refine ⟨by omega, fun w hw => ?_⟩
      rcases List.mem_cons.mp hw with rfl | hw
      · omega
      · have := hall w hw
        omega

theorem Layout.length_le {data : Mem} {b : List Record} (h : Layout data b) :
    b.length ≤ maxCmdNum := by
  have hend := (valuesEnd_ge _ (valueStart b.length) h.nonempty).1
  have hfits := h.fits
  rw [List.length_map] at hend
  unfold blockSize maxBufLen at *
  unfold maxCmdNum
  omega

theorem Layout.size_le {data : Mem} {b : List Record} (h : Layout data b) :
    ∀ v ∈ b.map Prod.snd, valueBlocks v.length * blockSize ≤ maxBufLen := by
  intro v hv
  have hend := (valuesEnd_ge _ (valueStart b.length) h.nonempty).2 v hv
  have hfits := h.fits
  omega

theorem HeaderAt.stop {data : Mem} : ∀ {b : List Record} {pos : Nat},
    HeaderAt data b pos → data.word (pos + 8 * b.length) = 0 := by
  intro b
  induction b with
  | nil => intro pos hat; exact hat
  | cons r b ih =>
      intro pos hat
      rw [List.length_cons, show pos + 8 * (b.length + 1) =
        pos + 8 + 8 * b.length by omega]
      exact ih hat.2.2

end Kvaccel.Spec

namespace Kvaccel.Ref

open Kvaccel.Lib Kvaccel.Spec

theorem headerLoop_eq {data : Mem} : ∀ (b : List Record) (fuel pos : Nat),
    HeaderAt data b pos → (∀ v ∈ b.map Prod.snd, v ≠ []) → b.length ≤ fuel →
    headerLoop data fuel pos =
      (b.map fun r => (r.2.length, r.1), pos + 8 * b.length) := by
  intro b
  induction b with
  | nil =>
      intro fuel pos hat _ _
      cases fuel with
      | zero => rfl
      | succ fuel =>
          have hstop : data.word pos = 0 := hat
          rw [headerLoop, if_pos hstop]
          rfl
  | cons r b ih =>
      intro fuel pos hat hne hfuel
      obtain ⟨hlen, hkey, hrest⟩ := hat
      cases fuel with
      | zero => simp at hfuel
      | succ fuel =>
          have hr : r.2.length ≠ 0 := fun h =>
            hne r.2 (by simp) (List.length_eq_zero_iff.mp h)
          rw [headerLoop, if_neg (by rw [hlen]; exact hr),
            ih fuel (pos + 8) hrest
              (fun v hv => hne v (List.mem_cons_of_mem _ hv))
              (by simpa using hfuel)]
          simp only [hlen, hkey, List.map_cons, List.length_cons]
          congr 1
          omega

theorem valueLoop_eq {data : Mem} : ∀ (vs : List Value) (pos : Nat),
    ValuesAt data vs pos →
    (∀ v ∈ vs, valueBlocks v.length * blockSize ≤ maxBufLen) →
    valueLoop data (vs.map List.length) pos = vs := by
  intro vs
  induction vs with
  | nil => intro pos _ _; rfl
  | cons v vs ih =>
      intro pos hat hsize
      obtain ⟨hv, hrest⟩ := hat
      have hle := hsize v List.mem_cons_self
      have hblocks := le_valueBlocks v.length
      have hint : (asInt v.length).toNat = v.length := by
        unfold maxBufLen at hle
        rw [asInt, if_pos (by omega)]
        rfl
      have hu32 : u32 (valueBlocks v.length * blockSize) =
          valueBlocks v.length * blockSize := by
        unfold maxBufLen at hle
        exact Nat.mod_eq_of_lt (by omega)
      rw [List.map_cons, valueLoop, hint, hv, hu32,
        ih _ hrest fun w hw => hsize w (List.mem_cons_of_mem _ hw)]

/-- The decoder reads back what the layout holds. -/
theorem decodeReply_eq {data : Mem} {b : List Record} (h : Layout data b) :
    decodeReply data = (b.map Prod.fst, b.map Prod.snd) := by
  have hstop := h.header.stop
  unfold decodeReply
  simp only [headerLoop_eq b maxCmdNum 0 h.header h.nonempty h.length_le]
  simp only [hstop, if_true, List.map_map]
  refine Prod.ext rfl ?_
  have hvalues := valueLoop_eq _ _ h.values h.size_le
  rw [List.map_map] at hvalues
  rw [Nat.zero_add]
  exact hvalues

/-! ## Encoding -/

theorem length_header {b : List Record} (h : ∀ r ∈ b, r.1.length = 4) :
    (b.flatMap fun r => le32 r.2.length ++ r.1).length = 8 * b.length := by
  induction b with
  | nil => rfl
  | cons r b ih =>
      rw [List.flatMap_cons, List.length_append,
        ih fun r' hr' => h r' (List.mem_cons_of_mem _ hr')]
      simp [h r List.mem_cons_self]
      omega

theorem length_padded (v : Value) :
    (padded v).length = valueBlocks v.length * blockSize := by
  have := le_valueBlocks v.length
  simp [padded]
  omega

theorem headerAt_of_read {data : Mem} : ∀ (b : List Record) (pos : Nat),
    (∀ r ∈ b, r.1.length = 4) →
    (∀ v ∈ b.map Prod.snd, v.length < 4294967296) →
    data.read pos (8 * b.length) = (b.flatMap fun r => le32 r.2.length ++ r.1) →
    data.word (pos + 8 * b.length) = 0 → HeaderAt data b pos := by
  intro b
  induction b with
  | nil => intro pos _ _ _ hstop; exact hstop
  | cons r b ih =>
      intro pos hkeys hlen hread hstop
      have hr := hkeys r List.mem_cons_self
      have hkeys' : ∀ r' ∈ b, r'.1.length = 4 :=
        fun r' hr' => hkeys r' (List.mem_cons_of_mem _ hr')
      rw [List.flatMap_cons, List.length_cons] at hread
      -- Cut the entry off the front, and then the length off the entry.
      obtain ⟨hentry, hrest⟩ := Mem.read_eq_append
        (a := le32 r.2.length ++ r.1)
        (by rw [length_header hkeys', List.length_append, hr, length_le32,
              show 4 + 4 + 8 * b.length = 8 * (b.length + 1) by omega]
            exact hread)
      rw [List.length_append] at hentry
      obtain ⟨hword, hkey⟩ := Mem.read_eq_append hentry
      rw [length_le32] at hword hkey
      rw [length_header hkeys', List.length_append, hr, length_le32] at hrest
      rw [hr] at hkey
      refine ⟨?_, hkey, ih (pos + 8) hkeys'
        (fun v hv => hlen v (List.mem_cons_of_mem _ hv)) hrest ?_⟩
      · rw [Mem.word, hword, word_le32]
        exact Nat.mod_eq_of_lt (hlen r.2 (by simp))
      · rw [List.length_cons] at hstop
        rw [show pos + 8 + 8 * b.length = pos + 8 * (b.length + 1) by omega]
        exact hstop

theorem valuesAt_of_read {data : Mem} : ∀ (vs : List Value) (pos : Nat),
    data.read pos (vs.flatMap padded).length = vs.flatMap padded →
    ValuesAt data vs pos := by
  intro vs
  induction vs with
  | nil => intro pos _; trivial
  | cons v vs ih =>
      intro pos hread
      rw [List.flatMap_cons, List.length_append] at hread
      obtain ⟨hv, hrest⟩ := Mem.read_eq_append hread
      rw [length_padded] at hrest
      refine ⟨?_, ih _ hrest⟩
      unfold padded at hv
      rw [List.length_append] at hv
      exact (Mem.read_eq_append hv).1

/-- The buffer that `encodeReply` builds holds the records. -/
theorem layout_encodeReply {b : List Record} (hkeys : ∀ r ∈ b, r.1.length = 4)
    (hvalues : ∀ v ∈ b.map Prod.snd, v ≠ [])
    (hfits : valuesEnd (b.map Prod.snd) (valueStart b.length) ≤ maxBufLen) :
    Layout (encodeReply b) b := by
  have hstart := le_valueStart b.length
  have hhead := length_header hkeys
  have hsize := (valuesEnd_ge _ (valueStart b.length) hvalues).2
  refine ⟨headerAt_of_read b 0 hkeys (fun v hv => ?_) ?_ ?_,
    valuesAt_of_read _ _ (Mem.read_write_self _ _ _), hvalues, hfits⟩
  · have := hsize v hv
    have := le_valueBlocks v.length
    unfold maxBufLen at hfits
    omega
  · rw [encodeReply, Mem.read_write_disjoint (Or.inl (by omega)), ← hhead,
      Mem.read_write_self]
  · -- The word after the header is in neither write.
    rw [Mem.word, encodeReply, Mem.read_write_disjoint (Or.inl (by omega)),
      Mem.read_write_disjoint (Or.inr (by omega))]
    rfl

theorem layout_of_fits {b : List Record} (h : Fits b) : Layout (encodeReply b) b :=
  layout_encodeReply h.keys h.values h.size

theorem feeds_batchDevice (iterId : Nat) : ∀ (bs : List (List Record)) (brk : Nat),
    (∀ b ∈ bs, Fits b) → (∀ r ∈ bs.flatten, word r.1 ≠ noNextKey) →
    (bs = [] → brk = noNextKey) → (bs ≠ [] → brk ≠ noNextKey) →
    Feeds batchDevice iterId bs brk bs := by
  intro bs
  induction bs with
  | nil => intro brk _ _ hend _; exact hend rfl
  | cons b bs ih =>
      intro brk hfits hkeys _ hmore
      have hb := hfits b List.mem_cons_self
      have hbs : ∀ b' ∈ bs, Fits b' :=
        fun b' hb' => hfits b' (List.mem_cons_of_mem _ hb')
      have hkeys' : ∀ r ∈ bs.flatten, word r.1 ≠ noNextKey := by
        intro r hr
        exact hkeys r (by simp only [List.flatten_cons, List.mem_append]; exact Or.inr hr)
      cases bs with
      | nil =>
          exact ⟨hmore (by simp), ⟨rfl, hb.some, layout_of_fits hb⟩, rfl⟩
      | cons b' rest =>
          refine ⟨hmore (by simp), ⟨rfl, hb.some, layout_of_fits hb⟩, ?_⟩
          refine ih _ hbs hkeys' (by simp) fun _ => ?_
          obtain ⟨r, t, rfl⟩ :=
            List.exists_cons_of_ne_nil (hbs b' List.mem_cons_self).some
          exact hkeys' r (by simp)

/-- `batchDevice` serves any batches that fit, unless a key is the end mark. -/
theorem serves_batchDevice {iterId start : Nat} {bs : List (List Record)}
    (hbs : bs ≠ []) (hfits : ∀ b ∈ bs, Fits b)
    (hkeys : ∀ r ∈ bs.flatten, word r.1 ≠ noNextKey) :
    Serves batchDevice iterId start bs bs := by
  cases bs with
  | nil => exact absurd rfl hbs
  | cons b rest =>
      -- The first reply does not depend on the opcode.
      have h := feeds_batchDevice iterId (b :: rest) 0 hfits hkeys
        (by simp) (fun _ => by decide)
      cases rest with
      | nil => exact ⟨⟨rfl, h.2.1.some, h.2.1.layout⟩, h.2.2⟩
      | cons b' rest' => exact ⟨⟨rfl, h.2.1.some, h.2.1.layout⟩, h.2.2⟩

/-! ## One call -/

namespace DB

section Scan

variable {σ : Type} {exec : Device σ} {iterId : Nat}

/-- The undelivered rest of a scan: part of a batch in the two lists, and
`rest` still on the device. -/
structure Holding (exec : Device σ) (iterId : Nat) (ks vs : List Bytes)
    (rest : List (List Record)) (db : DB σ) : Prop where
  keys : db.keys iterId = ks
  values : db.values iterId = vs
  lengths : ks.length = vs.length
  feeds : Feeds exec iterId rest (db.brkPointKey iterId) db.device

theorem Holding.noteIter {ks vs : List Bytes} {rest : List (List Record)}
    {db : DB σ} (h : Holding exec iterId ks vs rest db) (key value : Bytes) :
    Holding exec iterId ks vs rest (db.noteIter iterId key value) :=
  ⟨h.keys, h.values, h.lengths, h.feeds⟩

theorem Holding.finishOp {ks vs : List Bytes} {rest : List (List Record)}
    {db : DB σ} (h : Holding exec iterId ks vs rest db) (op : Nat) :
    Holding exec iterId ks vs rest (db.finishOp op) :=
  ⟨h.keys, h.values, h.lengths, h.feeds⟩

theorem Holding.popRecord {k v : Bytes} {ks vs : List Bytes}
    {rest : List (List Record)} {db : DB σ}
    (h : Holding exec iterId (k :: ks) (vs ++ [v]) rest db) :
    ∃ db', db.popRecord iterId = some (k, v, db') ∧
      Holding exec iterId ks vs rest db' := by
  unfold DB.popRecord
  rw [h.values, List.getLast?_concat, h.keys]
  refine ⟨_, rfl, ?_, ?_, ?_, h.feeds⟩
  · simp
  · simp
  · simpa using h.lengths

/-- Of a batch just received, the first key and the last value are taken. -/
theorem Holding.popRecord_batch {b : List Record} {rest : List (List Record)} {db : DB σ}
    (h : Holding exec iterId (b.map Prod.fst) (b.map Prod.snd) rest db) (hb : b ≠ []) :
    ∃ k v ks vs db', b.map Prod.fst = k :: ks ∧ b.map Prod.snd = vs ++ [v] ∧
      db.popRecord iterId = some (k, v, db') ∧ Holding exec iterId ks vs rest db' := by
  obtain ⟨r, b', rfl⟩ := List.exists_cons_of_ne_nil hb
  obtain hnil | ⟨vs, v, hvs⟩ := List.eq_nil_or_concat ((r :: b').map Prod.snd)
  · simp at hnil
  · rw [List.concat_eq_append] at hvs
    rw [hvs, List.map_cons] at h
    obtain ⟨db', hpop, hdb'⟩ := h.popRecord
    exact ⟨r.1, v, b'.map Prod.fst, vs, db', rfl, hvs, hpop, hdb'⟩

theorem popRecord_eq_none_iff {db : DB σ} :
    db.popRecord iterId = none ↔ db.values iterId = [] := by
  rw [← List.getLast?_eq_none_iff]
  unfold DB.popRecord
  split
  · next h => simp [h]
  · next h => simp [h]

theorem Holding.popRecord_none {rest : List (List Record)} {db : DB σ}
    (h : Holding exec iterId [] [] rest db) : db.popRecord iterId = none :=
  popRecord_eq_none_iff.mpr h.values

/-- One call of either function. -/
theorem bulkyScan_eq (exec : Device σ) (iterId : Nat) (db : DB σ) (isSeek : NvmeOpcode)
    (start next : Nat) (out : Outside) :
    ∃ code stat, db.bulkyScan exec isSeek iterId start next out =
      (code, if Accepted (scanIo exec iterId db isSeek start) out then
          resultAfter (scanIo exec iterId db isSeek start) out else next,
        { db with
          device := if out.data then (exec (scanCmd isSeek start iterId) db.device).2
            else db.device
          passthruStat := stat
          keys := Function.update db.keys iterId
            (db.keys iterId ++ (fetched (scanIo exec iterId db isSeek start) out).1)
          values := Function.update db.values iterId
            (db.values iterId ++ (fetched (scanIo exec iterId db isSeek start) out).2) }) ∧
      (Accepted (scanIo exec iterId db isSeek start) out →
        code = asInt (resultAfter (scanIo exec iterId db isSeek start) out)) := by
  obtain ⟨stat, hcmd⟩ :=
    nvmePassthru_eq exec db (scanCmd isSeek start iterId) out.result
  unfold bulkyScan
  change (db.nvmePassthru exec {
      opcode := isSeek
      cdw10 := start
      cdw12 := replyNlb
      cdw13 := iterId
      dataLen := maxBufLen } out.result) = _ at hcmd
  rw [hcmd]
  have hlists : ∀ (l : Nat → List Bytes), Function.update l iterId (l iterId ++ []) = l := by
    intro l
    rw [List.append_nil, Function.update_eq_self]
  by_cases hout : out.data = true
  · rw [if_neg (by simp [hout])]
    by_cases hneg : (scanIo exec iterId db isSeek start).err < 0
    · have hacc : ¬ Accepted (scanIo exec iterId db isSeek start) out := by
        intro h
        have := h.2.1
        omega
      refine ⟨-1, stat, ?_, fun h => absurd h hacc⟩
      rw [fetched, if_neg hacc, if_neg hacc, hlists, hlists, if_pos hout]
      exact if_pos hneg
    · by_cases hkey : (scanIo exec iterId db isSeek start).err = 0x7C1
      · have hacc : ¬ Accepted (scanIo exec iterId db isSeek start) out := fun h => h.2.2 hkey
        refine ⟨-2, stat, ?_, fun h => absurd h hacc⟩
        rw [fetched, if_neg hacc, if_neg hacc, hlists, hlists, if_pos hout]
        exact (if_neg hneg).trans (if_pos hkey)
      · have hacc : Accepted (scanIo exec iterId db isSeek start) out :=
          ⟨hout, by omega, hkey⟩
        refine ⟨_, stat, ?_, fun _ => rfl⟩
        rw [fetched, if_pos hacc, if_pos hacc, if_pos hout]
        exact (if_neg hneg).trans (if_neg hkey)
  · have hacc : ¬ Accepted (scanIo exec iterId db isSeek start) out := fun h => hout h.1
    refine ⟨-enomem, db.passthruStat, ?_, fun h => absurd h hacc⟩
    rw [fetched, if_neg hacc, if_neg hacc, hlists, hlists, if_neg hout,
      if_pos (by simpa using hout)]

/-- One `RangeScan`, and the breakpoint it is for. -/
theorem refill_eq (exec : Device σ) (iterId : Nat) (db : DB σ) (isSeek : NvmeOpcode)
    (key : Bytes) (out : Outside) {io : IoResult}
    (hio : io = scanIo exec iterId db isSeek (scanStart iterId db isSeek key)) :
    ∃ stat cnt, db.refill exec isSeek iterId key out =
      { db with
        device := if out.data then
            (exec (scanCmd isSeek (scanStart iterId db isSeek key) iterId) db.device).2
          else db.device
        passthruStat := stat
        scanCnt := cnt
        brkPointKey := Function.update db.brkPointKey iterId (nextAfter io out)
        keys := Function.update db.keys iterId (db.keys iterId ++ (fetched io out).1)
        values := Function.update db.values iterId (db.values iterId ++ (fetched io out).2) } := by
  obtain ⟨code, stat, hbulk, _⟩ := bulkyScan_eq exec iterId db isSeek
    (scanStart iterId db isSeek key) out.next out
  rw [← hio] at hbulk
  change _ = (code, nextAfter io out, _) at hbulk
  have hone : (if isSeek = .kvRangeScanSeek then
        db.doBulkyScan exec isSeek iterId key out.next out
      else db.doBulkyNextScan exec isSeek iterId (db.brkPointKey iterId) out.next out) =
      db.bulkyScan exec isSeek iterId (scanStart iterId db isSeek key) out.next out := by
    unfold scanStart doBulkyScan doBulkyNextScan
    split <;> rfl
  unfold refill rangeScan
  simp only [hone, hbulk]
  by_cases hend : code = -2 ∨ nextAfter io out = noNextKey
  · rw [if_pos hend]
    exact ⟨stat, _, rfl⟩
  · rw [if_neg hend]
    exact ⟨stat, db.scanCnt, rfl⟩

/-- A reply joins the two lists. -/
theorem refill_spec (db : DB σ) (isSeek : NvmeOpcode) (key : Bytes)
    {out : Outside} {b : List Record} {rest : List (List Record)} {start : Nat}
    (hstart : start = scanStart iterId db isSeek key)
    (hout : out.data = true) (hkeys : db.keys iterId = [])
    (hvalues : db.values iterId = [])
    (hans : Answers exec iterId isSeek start b db.device)
    (hfeeds : Feeds exec iterId rest
      (exec (scanCmd isSeek start iterId) db.device).1.result
      (exec (scanCmd isSeek start iterId) db.device).2) :
    Holding exec iterId (b.map Prod.fst) (b.map Prod.snd) rest
      (db.refill exec isSeek iterId key out) := by
  obtain ⟨stat, cnt, hrefill⟩ := refill_eq exec iterId db isSeek key out rfl
  rw [← hstart] at hrefill
  have hok : (scanIo exec iterId db isSeek start).err = 0 := hans.ok
  have hacc : Accepted (scanIo exec iterId db isSeek start) out :=
    ⟨hout, by omega, by omega⟩
  have hfetched : fetched (scanIo exec iterId db isSeek start) out =
      (b.map Prod.fst, b.map Prod.snd) := by
    rw [fetched, if_pos hacc]
    exact decodeReply_eq hans.layout
  have hnext : nextAfter (scanIo exec iterId db isSeek start) out =
      (exec (scanCmd isSeek start iterId) db.device).1.result := by
    rw [nextAfter, if_pos hacc, resultAfter, if_pos hok]
    rfl
  rw [hrefill, hfetched, hnext, hkeys, hvalues, if_pos hout]
  exact ⟨Function.update_self .., Function.update_self .., by simp, by simpa using hfeeds⟩

theorem Holding.nextScan {k v : Bytes} {ks vs : List Bytes}
    {rest : List (List Record)} {db : DB σ}
    (h : Holding exec iterId (k :: ks) (vs ++ [v]) rest db) (key value : Bytes)
    (out : Outside) :
    ∃ db', db.nextScan exec iterId key value out = (1, k, v, db') ∧
      Holding exec iterId ks vs rest db' := by
  obtain ⟨db', hpop, hdb'⟩ := h.popRecord
  unfold DB.nextScan
  rw [hpop]
  exact ⟨_, rfl, (hdb'.noteIter k v).finishOp 4⟩

/-- The lists are empty and the device has another batch. -/
theorem Holding.nextScan_refill {b : List Record} {rest : List (List Record)}
    {db : DB σ} (h : Holding exec iterId [] [] (b :: rest) db)
    (key value : Bytes) {out : Outside} (hout : out.data = true) :
    ∃ k v ks vs db', b.map Prod.fst = k :: ks ∧ b.map Prod.snd = vs ++ [v] ∧
      db.nextScan exec iterId key value out = (1, k, v, db') ∧
      Holding exec iterId ks vs rest db' := by
  obtain ⟨hbrk, hans, hfeeds⟩ := h.feeds
  have hfull := refill_spec db .kvRangeScanNext [] rfl hout h.keys h.values hans hfeeds
  obtain ⟨k, v, ks, vs, db', hks, hvs, hpop, hdb'⟩ := hfull.popRecord_batch hans.some
  refine ⟨k, v, ks, vs, db'.finishOp 4, hks, hvs, ?_, hdb'.finishOp 4⟩
  unfold DB.nextScan
  rw [h.popRecord_none]
  simp only [if_neg hbrk, hpop]

/-- Nothing is left anywhere. -/
theorem Holding.nextScan_end {db : DB σ} (h : Holding exec iterId [] [] [] db)
    (key value : Bytes) (out : Outside) :
    db.nextScan exec iterId key value out = (-3, key, value, db.finishOp 4) := by
  have hbrk : db.brkPointKey iterId = noNextKey := h.feeds
  unfold DB.nextScan
  rw [h.popRecord_none]
  simp only [if_pos hbrk]

theorem seekScan_spec {b : List Record} {rest : List (List Record)} {db : DB σ}
    {key : Bytes} (hkeys : db.keys iterId = []) (hvalues : db.values iterId = [])
    (hserves : Serves exec iterId
      (if key ≠ startKey then word (firstFour key) else 0) (b :: rest) db.device)
    (value : Bytes) {out : Outside} (hout : out.data = true) :
    ∃ k v ks vs db', b.map Prod.fst = k :: ks ∧ b.map Prod.snd = vs ++ [v] ∧
      db.seekScan exec iterId key value out = (1, k, v, db') ∧
      Holding exec iterId ks vs rest db' := by
  obtain ⟨hans, hfeeds⟩ := hserves
  have hfull := refill_spec
    { db with scanCnt := Function.update db.scanCnt iterId 1 } .kvRangeScanSeek key
    rfl hout hkeys hvalues hans hfeeds
  obtain ⟨k, v, ks, vs, db', hks, hvs, hpop, hdb'⟩ := hfull.popRecord_batch hans.some
  refine ⟨k, v, ks, vs, _, hks, hvs, ?_, (hdb'.noteIter k v).finishOp 3⟩
  unfold DB.seekScan
  simp only [hpop]

end Scan

/-! ## A whole scan -/

section Run

variable {σ : Type} (exec : Device σ) (iterId : Nat) (outs : Nat → Outside)

/-- `n` calls of `NextScan`, the `i`-th one first: what each returned. -/
def nextScans : Nat → Nat → Bytes → Bytes → DB σ → List (Int × Bytes × Bytes)
  | 0, _, _, _, _ => []
  | n + 1, i, key, value, db =>
      let r := db.nextScan exec iterId key value (outs i)
      (r.1, r.2.1, r.2.2.1) :: nextScans n (i + 1) r.2.1 r.2.2.1 r.2.2.2

/-- `SeekScan` and `n` calls of `NextScan` after it. -/
def scan (n : Nat) (key value : Bytes) (db : DB σ) : List (Int × Bytes × Bytes) :=
  let r := db.seekScan exec iterId key value (outs 0)
  (r.1, r.2.1, r.2.2.1) ::
    nextScans exec iterId outs n 1 r.2.1 r.2.2.1 r.2.2.2

/-- The pairs a scan hands out for these batches: keys forwards, values
backwards, batch by batch. -/
def handed (bs : List (List Record)) : List Record :=
  bs.flatMap fun b => (b.map Prod.fst).zip (b.map Prod.snd).reverse

variable {exec iterId outs}

theorem length_handed (bs : List (List Record)) :
    (handed bs).length = bs.flatten.length := by
  induction bs with
  | nil => rfl
  | cons b bs ih =>
      simp only [handed, List.flatMap_cons, List.length_append] at ih ⊢
      simp [ih]

/-- A batch with something left hands out its next pair. -/
theorem nextScans_cons {k : Bytes} {ks vs : List Bytes} {rest : List (List Record)}
    {db : DB σ} {i : Nat} {key value : Bytes}
    (h : Holding exec iterId (k :: ks) vs rest db)
    (ih : ∀ (vs : List Bytes) (db : DB σ) (i : Nat) (key value : Bytes),
      Holding exec iterId ks vs rest db →
      ∃ k v, nextScans exec iterId outs (ks.length + rest.flatten.length + 1)
          i key value db =
        (ks.zip vs.reverse ++ handed rest).map (fun r => (1, r.1, r.2)) ++
          [(-3, k, v)]) :
    ∃ k' v', nextScans exec iterId outs
        ((k :: ks).length + rest.flatten.length + 1) i key value db =
      ((k :: ks).zip vs.reverse ++ handed rest).map (fun r => (1, r.1, r.2)) ++
        [(-3, k', v')] := by
  obtain rfl | ⟨vs', v, rfl⟩ := List.eq_nil_or_concat vs
  · simpa using h.lengths
  rw [List.concat_eq_append] at h ⊢
  obtain ⟨db', hnext, hdb'⟩ := h.nextScan key value (outs i)
  obtain ⟨k', v', hrest⟩ := ih vs' db' (i + 1) k v hdb'
  refine ⟨k', v', ?_⟩
  rw [List.length_cons, show ks.length + 1 + rest.flatten.length + 1 =
    (ks.length + rest.flatten.length + 1) + 1 by omega, nextScans, hnext]
  simp only [hrest]
  simp

theorem nextScans_eq (houts : ∀ i, (outs i).data = true) :
    ∀ (rest : List (List Record)) (ks vs : List Bytes) (db : DB σ) (i : Nat)
      (key value : Bytes), Holding exec iterId ks vs rest db →
      ∃ k v, nextScans exec iterId outs (ks.length + rest.flatten.length + 1) i
          key value db =
        (ks.zip vs.reverse ++ handed rest).map (fun r => (1, r.1, r.2)) ++
          [(-3, k, v)] := by
  -- Batches from the outside, and inside a batch the keys still to hand out.
  intro rest
  induction rest with
  | nil =>
      intro ks
      induction ks with
      | nil =>
          intro vs db i key value h
          have hvs : vs = [] := List.length_eq_zero_iff.mp h.lengths.symm
          subst hvs
          refine ⟨key, value, ?_⟩
          simp only [List.length_nil, List.flatten_nil, Nat.zero_add, nextScans,
            h.nextScan_end, List.zip_nil_left, handed, List.flatMap_nil,
            List.nil_append, List.map_nil]
      | cons k ks ih =>
          intro vs db i key value h
          exact nextScans_cons h ih
  | cons b rest ihb =>
      intro ks
      induction ks with
      | nil =>
          intro vs db i key value h
          have hvs : vs = [] := List.length_eq_zero_iff.mp h.lengths.symm
          subst hvs
          obtain ⟨k, v, ks, vs, db', hks, hvs, hnext, hdb'⟩ :=
            h.nextScan_refill key value (houts i)
          obtain ⟨k', v', hrest⟩ := ihb ks vs db' (i + 1) k v hdb'
          refine ⟨k', v', ?_⟩
          have hlen : b.length = ks.length + 1 := by
            rw [← List.length_map (f := Prod.fst), hks, List.length_cons]
          rw [List.flatten_cons, List.length_append, hlen, List.length_nil,
            show 0 + (ks.length + 1 + rest.flatten.length) + 1 =
              (ks.length + rest.flatten.length + 1) + 1 by omega,
            nextScans, hnext]
          simp only [hrest]
          simp [handed, hks, hvs]
      | cons k ks ih =>
          intro vs db i key value h
          exact nextScans_cons h ih

/-- Fewer calls return the same as far as they go. -/
theorem nextScans_take : ∀ (n m i : Nat) (key value : Bytes) (db : DB σ),
    nextScans exec iterId outs n i key value db =
      (nextScans exec iterId outs (n + m) i key value db).take n := by
  intro n
  induction n with
  | zero => intro m i key value db; simp [nextScans]
  | succ n ih =>
      intro m i key value db
      rw [show n + 1 + m = (n + m) + 1 by omega, nextScans, nextScans,
        List.take_succ_cons, ← ih m]

theorem scan_take (n m : Nat) (key value : Bytes) (db : DB σ) :
    scan exec iterId outs n key value db =
      (scan exec iterId outs (n + m) key value db).take (n + 1) := by
  rw [scan, scan, List.take_succ_cons, ← nextScans_take]

/-- A scan hands out every batch and then reports its end. -/
theorem scan_eq {bs : List (List Record)} (db : DB σ) (key : Bytes)
    (houts : ∀ i, (outs i).data = true) (hkeys : db.keys iterId = [])
    (hvalues : db.values iterId = [])
    (hserves : Serves exec iterId
      (if key ≠ startKey then word (firstFour key) else 0) bs db.device)
    (value : Bytes) :
    ∃ k v, scan exec iterId outs bs.flatten.length key value db =
      (handed bs).map (fun r => (1, r.1, r.2)) ++ [(-3, k, v)] := by
  cases bs with
  | nil => exact hserves.elim
  | cons b rest =>
      obtain ⟨k, v, ks, vs, db', hks, hvs, hseek, hdb'⟩ :=
        seekScan_spec hkeys hvalues hserves value (houts 0)
      obtain ⟨k', v', hrest⟩ := nextScans_eq houts rest ks vs db' 1 k v hdb'
      refine ⟨k', v', ?_⟩
      have hlen : b.length = ks.length + 1 := by
        rw [← List.length_map (f := Prod.fst), hks, List.length_cons]
      rw [List.flatten_cons, List.length_append, hlen,
        show ks.length + 1 + rest.flatten.length =
          ks.length + rest.flatten.length + 1 by omega, scan, hseek]
      simp only [hrest]
      simp [handed, hks, hvs]

theorem map_fst_handed (bs : List (List Record)) :
    (handed bs).map Prod.fst = bs.flatten.map Prod.fst := by
  induction bs with
  | nil => rfl
  | cons b bs ih =>
      simp only [handed, List.flatMap_cons, List.map_append, List.flatten_cons]
        at ih ⊢
      rw [ih, List.map_fst_zip (by simp)]

/-- The pairing is right exactly in batches whose values read the same
backwards. -/
theorem handed_eq_iff (bs : List (List Record)) :
    handed bs = bs.flatten ↔
      ∀ b ∈ bs, (b.map Prod.snd).reverse = b.map Prod.snd := by
  induction bs with
  | nil => simp [handed]
  | cons b bs ih =>
      rw [List.forall_mem_cons, ← ih, handed, List.flatMap_cons,
        List.flatten_cons]
      have hb : (b.map Prod.fst).zip (b.map Prod.snd).reverse = b ↔
          (b.map Prod.snd).reverse = b.map Prod.snd := by
        constructor
        · intro h
          have := congrArg (List.map Prod.snd) h
          rwa [List.map_snd_zip (by simp)] at this
        · intro h
          rw [h]
          exact List.zip_map' |>.trans (by simp)
      constructor
      · intro h
        obtain ⟨h₁, h₂⟩ := List.append_inj h (by simp)
        exact ⟨hb.mp h₁, h₂⟩
      · rintro ⟨h₁, h₂⟩
        rw [hb.mpr h₁]
        exact congrArg (b ++ ·) h₂

/-! ## The results -/

/-- A scan from the start returns 1 for every record, then -3, and its keys
are the records' keys in device order. -/
theorem scan_enumerates (bs : List (List Record)) (db : DB σ)
    (houts : ∀ i, (outs i).data = true) (hkeys : db.keys iterId = [])
    (hvalues : db.values iterId = [])
    (hserves : Serves exec iterId 0 bs db.device) (value : Bytes) :
    (scan exec iterId outs bs.flatten.length startKey value db).map Prod.fst =
        List.replicate bs.flatten.length 1 ++ [-3] ∧
      ((scan exec iterId outs bs.flatten.length startKey value db).take
          bs.flatten.length).map (fun o => o.2.1) =
        bs.flatten.map Prod.fst := by
  obtain ⟨k, v, hscan⟩ := scan_eq db startKey houts hkeys hvalues
    (by simpa using hserves) value
  rw [hscan]
  have hlen := length_handed bs
  constructor
  · rw [List.map_append, List.map_map, ← hlen]
    congr 1
    exact List.map_const'
  · rw [← hlen, List.take_left' (by simp), List.map_map, ← map_fst_handed]
    rfl

/-- The pairs a scan returns are the records, each key with its own value,
exactly when the values of every reply read the same backwards. -/
theorem scan_pairs_iff (bs : List (List Record)) (db : DB σ) {key : Bytes}
    (houts : ∀ i, (outs i).data = true) (hkeys : db.keys iterId = [])
    (hvalues : db.values iterId = [])
    (hserves : Serves exec iterId
      (if key ≠ startKey then word (firstFour key) else 0) bs db.device)
    (value : Bytes) :
    (scan exec iterId outs (bs.flatten.length - 1) key value db).map Prod.snd =
        bs.flatten ↔
      ∀ b ∈ bs, (b.map Prod.snd).reverse = b.map Prod.snd := by
  obtain ⟨k, v, hscan⟩ := scan_eq db key houts hkeys hvalues hserves value
  have hpos : 0 < bs.flatten.length := by
    cases bs with
    | nil => exact hserves.elim
    | cons b rest =>
        have := List.length_pos_iff.mpr hserves.1.some
        rw [List.flatten_cons, List.length_append]
        omega
  rw [scan_take _ 1, Nat.sub_add_cancel hpos, hscan,
    List.take_left' (by simp [length_handed]), List.map_map, ← handed_eq_iff]
  exact Eq.congr_left (List.map_id _)

end Run

/-- Two replies, the first with two records. -/
def twoReplies : List (List Record) :=
  [[([97, 97, 97, 97], [1]), ([98, 98, 98, 98], [2, 2])],
    [([99, 99, 99, 99], [3])]]

theorem serves_twoReplies (start : Nat) :
    Serves batchDevice 0 start twoReplies twoReplies :=
  serves_batchDevice (by simp [twoReplies])
    (by
      intro b hb
      simp only [twoReplies, List.mem_cons, List.not_mem_nil, or_false] at hb
      rcases hb with rfl | rfl
      · exact ⟨by decide, by decide, by decide, by decide⟩
      · exact ⟨by decide, by decide, by decide, by decide⟩)
    (by decide)

theorem scan_enumerates_twoReplies :
    (scan batchDevice 0 (fun _ => .fine) 3 startKey []
        (opened twoReplies)).map Prod.fst = [1, 1, 1, -3] ∧
      ((scan batchDevice 0 (fun _ => .fine) 3 startKey []
          (opened twoReplies)).take 3).map (fun o => o.2.1) =
        [[97, 97, 97, 97], [98, 98, 98, 98], [99, 99, 99, 99]] :=
  scan_enumerates twoReplies (opened twoReplies) (fun _ => rfl) rfl rfl
    (serves_twoReplies 0) []

theorem scan_pairs_iff_twoReplies :
    (scan batchDevice 0 (fun _ => .fine) 2 startKey []
        (opened twoReplies)).map Prod.snd = twoReplies.flatten ↔
      ∀ b ∈ twoReplies, (b.map Prod.snd).reverse = b.map Prod.snd :=
  scan_pairs_iff twoReplies (opened twoReplies) (fun _ => rfl) rfl rfl
    (serves_twoReplies _) []

/-- The first two records swap their values. -/
theorem scan_swaps_twoReplies :
    Serves batchDevice 0 0 twoReplies twoReplies ∧
      (scan batchDevice 0 (fun _ => .fine) 2 startKey []
        (opened twoReplies)).map Prod.snd =
        [([97, 97, 97, 97], [2, 2]), ([98, 98, 98, 98], [1]),
          ([99, 99, 99, 99], [3])] ∧
      (scan batchDevice 0 (fun _ => .fine) 2 startKey []
        (opened twoReplies)).map Prod.snd ≠ twoReplies.flatten := by
  obtain ⟨k, v, hscan⟩ := scan_eq (opened twoReplies) startKey
    (fun _ : Nat => (rfl : Outside.fine.data = true)) rfl rfl
    (serves_twoReplies _) []
  have hswap : (scan batchDevice 0 (fun _ => .fine) 2 startKey []
      (opened twoReplies)).map Prod.snd =
      [([97, 97, 97, 97], [2, 2]), ([98, 98, 98, 98], [1]),
        ([99, 99, 99, 99], [3])] := by
    rw [scan_take 2 1]
    exact congrArg (fun l => (l.take 3).map Prod.snd) hscan
  exact ⟨serves_twoReplies 0, hswap, by rw [hswap]; decide⟩

end DB

end Kvaccel.Ref
