import Kvaccel.Lib.Chunk
import Kvaccel.Proofs.Sent
import Kvaccel.Proofs.ValueLog

/-!
# The pieces of the value log

`_ValueFlush` counts pages and ends at a byte. The pages are those of the
layout, so the last value ends on the last of them, or, if it is empty, where
that page does. Counted in pieces of 128 pages or in the bytes up to there, the
log is therefore cut into the same number of pieces, and the loop sends piece
`i` in round `i`.

A negative result of the device ends the loop early. What is said here is about
the commands of a loop that met none.
-/

namespace Kvaccel.Ref

open Kvaccel.Lib Kvaccel.Spec

namespace DB

/-! ## The commands of the loop -/

section Loop

variable {σ : Type}

/-- From round `i` on, the loop sends a command for each piece that is left. -/
theorem valueFlushLoop_sent (exec : Device σ) {bip : BufferingInfo} (result : Nat)
    (hcnt : bip.valueLogOffset ≤ maxValueBufferEntry) :
    ∀ (fuel i : Nat) (db : DB (σ × CmdLog)) {vs : CmdLog},
      i ≤ chunkCount 128 bip.valueLogOffset → bip.valueLogOffset ≤ fuel + 128 * i →
      (valueFlushLoop (logged exec) bip result fuel i db).2.device.2 = db.device.2 ++ vs →
      (∀ e ∈ vs, e.2 = 0) →
      vs.map Prod.fst = (List.range' i (chunkCount 128 bip.valueLogOffset - i)).map
        (valueFlushCmd bip) := by
  have hcount : ∀ i, i < chunkCount 128 bip.valueLogOffset ↔ 128 * i < bip.valueLogOffset :=
    fun i => lt_chunkCount_iff (by decide)
  unfold maxValueBufferEntry at hcnt
  intro fuel
  induction fuel with
  | zero =>
      intro i db vs hi hfuel hlog _
      have hend := hcount i
      have hnil : vs = [] := by
        rw [valueFlushLoop] at hlog
        exact List.self_eq_append_right.mp hlog
      rw [hnil, show chunkCount 128 bip.valueLogOffset - i = 0 by omega]
      rfl
  | succ fuel ih =>
      intro i db vs hi hfuel hlog hok
      have hlt : i ≤ bip.valueLogOffset := by
        rcases Nat.eq_zero_or_pos i with rfl | hpos
        · exact Nat.zero_le _
        · have := (hcount (i - 1)).mp (by omega)
          omega
      have hround : u32 (i * limitValueBufferEntry) = 128 * i := by
        rw [u32, limitValueBufferEntry]
        omega
      rw [valueFlushLoop, hround] at hlog
      split at hlog
      · next hmore =>
          have hpiece := (hcount i).mpr hmore
          have hsplit : chunkCount 128 bip.valueLogOffset - i =
              chunkCount 128 bip.valueLogOffset - (i + 1) + 1 := by omega
          obtain ⟨err, herr, hstep⟩ := nvmePassthru_logged exec db (valueFlushCmd bip i) result
          simp only [herr] at hlog
          split at hlog
          · next hneg =>
              -- A piece that failed is in the log with its result.
              rw [hstep] at hlog
              have hlast := hok (valueFlushCmd bip i, err)
                (List.append_cancel_left hlog ▸ List.mem_singleton_self _)
              simp only [] at hlast
              omega
          · obtain ⟨ws, _, hrest, _⟩ := valueFlushLoop_logged exec bip result fuel (i + 1)
              (db.nvmePassthru (logged exec) (valueFlushCmd bip i) result).2
            rw [hrest, hstep, List.append_assoc, List.append_cancel_left_eq,
              List.singleton_append] at hlog
            subst hlog
            have hws := ih (i + 1) _ (by omega) (by omega) hrest
              fun e he => hok e (List.mem_cons_of_mem _ he)
            rw [hsplit, List.range'_succ, List.map_cons, List.map_cons, hws]
      · next hdone =>
          have hend := hcount i
          rw [List.self_eq_append_right.mp hlog,
            show chunkCount 128 bip.valueLogOffset - i = 0 by omega]
          rfl

end Loop

/-! ## The pieces -/

section Pieces

variable {bip : BufferingInfo} (hcnt : bip.valueLogOffset ≤ maxValueBufferEntry)
  (hhi : totalDataLen bip ≤ 4096 * bip.valueLogOffset)
  (hlo : 4096 * bip.valueLogOffset < totalDataLen bip + 4096)

include hhi hlo in
/-- In pages or in bytes, the log has as many pieces. -/
theorem chunkCount_pages :
    chunkCount 128 bip.valueLogOffset = chunkCount 524288 (totalDataLen bip) := by
  refine eq_of_forall_lt_iff fun i => ?_
  rw [lt_chunkCount_iff (by decide), lt_chunkCount_iff (by decide)]
  omega

include hcnt hhi hlo

/-- Round `i` sends piece `i`. -/
theorem valueFlushCmd_chunk {i : Nat} (hi : 524288 * i < totalDataLen bip) :
    (valueFlushCmd bip i).cdw13 = chunk 524288 (totalDataLen bip) i ∧
      (valueFlushCmd bip i).data = (fun j => bip.valueLog (524288 * i + j)) ∧
      (valueFlushCmd bip i).cdw14 = if i = 0 then 1 else 0 := by
  obtain ⟨_, hfirst, hdata, hsize⟩ := valueFlushCmd_eq (i := i) (by omega) hcnt (by omega) hhi
  refine ⟨?_, hdata, hfirst⟩
  rw [hsize, chunk]
  split
  · omega
  · omega

theorem valueFlushCmd_blocks {i : Nat} (hi : 524288 * i < totalDataLen bip) :
    (valueFlushCmd bip i).cdw12 = pages (valueFlushCmd bip i).cdw13 - 1 ∧
      pages (valueFlushCmd bip i).cdw13 - 1 < 65536 ∧
      (valueFlushCmd bip i).dataLen = 4096 * pages (valueFlushCmd bip i).cdw13 := by
  have hsize := (valueFlushCmd_chunk hcnt hhi hlo hi).1
  have hle := chunk_le 524288 (totalDataLen bip) i
  have hpos := chunk_pos (by decide) hi
  have hnlb : (valueFlushCmd bip i).cdw12 =
      u32 ((valueFlushCmd bip i).cdw13 + (4294967296 - 1)) / pageSize % 65536 := rfl
  have hlen : (valueFlushCmd bip i).dataLen =
      u32 ((u32 ((valueFlushCmd bip i).cdw13 + (4294967296 - 1)) / pageSize + 1) *
        pageSize) := rfl
  rw [hnlb, hlen, hsize]
  generalize chunk 524288 (totalDataLen bip) i = n at hle hpos
  unfold pages u32 pageSize
  omega

omit hcnt hhi hlo in
theorem getElem?_pieces {k i : Nat} {cmd : NvmeCmd}
    (h : ((List.range k).map (valueFlushCmd bip))[i]? = some cmd) :
    i < k ∧ cmd = valueFlushCmd bip i := by
  rw [List.getElem?_map, Option.map_eq_some_iff] at h
  obtain ⟨j, hj, rfl⟩ := h
  obtain ⟨hlt, hget⟩ := List.getElem?_eq_some_iff.mp hj
  rw [List.length_range] at hlt
  rw [List.getElem_range] at hget
  subst hget
  exact ⟨hlt, rfl⟩

/-- The sizes of the first `k` pieces. -/
theorem map_cdw13_pieces {k : Nat} (hk : k ≤ chunkCount 524288 (totalDataLen bip)) :
    ((List.range k).map (valueFlushCmd bip)).map NvmeCmd.cdw13 =
      (List.range k).map (chunk 524288 (totalDataLen bip)) := by
  rw [List.map_map]
  refine List.map_congr_left fun i hi => ?_
  have hlt := Nat.lt_of_lt_of_le (List.mem_range.mp hi) hk
  exact (valueFlushCmd_chunk hcnt hhi hlo ((lt_chunkCount_iff (by decide)).mp hlt)).1

end Pieces

/-! ## The log of a batch -/

section Tiling

variable {bip : BufferingInfo} {p : List (Key × Value)} (h : Buffered bip p) (hne : p ≠ [])
  (hfits : pagesOf (p.map Prod.snd) ≤ maxValueBufferEntry)

include h hne hfits

/-- The last value decides how long the log is. -/
theorem Buffered.total_bounds : totalDataLen bip ≤ 4096 * bip.valueLogOffset ∧
    4096 * bip.valueLogOffset < totalDataLen bip + 4096 := by
  obtain hnil | ⟨q, ⟨k, v⟩, hq⟩ := List.eq_nil_or_concat p
  · exact absurd hnil hne
  · rw [List.concat_eq_append] at hq
    subst hq
    exact h.totalDataLen_bounds hfits

/-- `_ValueFlush` finds its total in the last record. -/
theorem Buffered.total_eq_last : totalDataLen bip =
    4096 * recordOffset bip (p.length - 1) + recordSize bip (p.length - 1) := by
  obtain hnil | ⟨q, ⟨k, v⟩, hq⟩ := List.eq_nil_or_concat p
  · exact absurd hnil hne
  · rw [List.concat_eq_append] at hq
    subst hq
    have hlast : (q ++ [(k, v)])[q.length]? = some (k, v) := by simp
    obtain ⟨hoff, hsize⟩ := h.record hfits hlast
    rw [List.length_append, List.length_singleton, Nat.add_sub_cancel, hoff, hsize,
      h.totalDataLen_eq hfits, List.take_left]

/-- No record ends after the last one. -/
theorem Buffered.record_le_total {j : Nat} (hj : j < p.length) :
    4096 * recordOffset bip j + recordSize bip j ≤ totalDataLen bip := by
  rw [h.total_eq_last hne hfits]
  rcases Nat.lt_or_ge j (p.length - 1) with hlt | hge
  · obtain ⟨hoff, hsize⟩ := h.record hfits (List.getElem?_eq_getElem hj)
    obtain ⟨hoff', _⟩ := h.record hfits
      (List.getElem?_eq_getElem (Nat.sub_lt (List.length_pos_iff.mpr hne) Nat.one_pos))
    have hend := pagesOf_take_of_lt hlt (List.getElem?_eq_getElem hj)
    rw [hoff, hsize, hoff']
    omega
  · rw [show j = p.length - 1 by omega]

theorem Buffered.tiles :
    Tiles bip p.length
      ((List.range (chunkCount 128 bip.valueLogOffset)).map (valueFlushCmd bip)) := by
  have hcnt : bip.valueLogOffset ≤ maxValueBufferEntry := h.offset ▸ hfits
  obtain ⟨hhi, hlo⟩ := h.total_bounds hne hfits
  rw [chunkCount_pages hhi hlo]
  have hpiece : ∀ {i}, i < chunkCount 524288 (totalDataLen bip) →
      524288 * i < totalDataLen bip := (lt_chunkCount_iff (by decide)).mp
  have hmem : ∀ {cmd}, cmd ∈ (List.range (chunkCount 524288 (totalDataLen bip))).map
      (valueFlushCmd bip) →
      ∃ i, 524288 * i < totalDataLen bip ∧ valueFlushCmd bip i = cmd := by
    intro cmd hcmd
    obtain ⟨i, hi, heq⟩ := List.mem_map.mp hcmd
    exact ⟨i, hpiece (List.mem_range.mp hi), heq⟩
  refine ⟨h.total_eq_last hne hfits, ?sizes, ?starts, ?sum,
    fun j hj => h.record_le_total hne hfits hj, ?blocks, ?first⟩
  case sizes =>
    intro cmd hcmd
    obtain ⟨i, hi, rfl⟩ := hmem hcmd
    rw [(valueFlushCmd_chunk hcnt hhi hlo hi).1]
    exact ⟨chunk_pos (by decide) hi, chunk_le _ _ _⟩
  case starts =>
    intro i cmd hcmd
    obtain ⟨hi, rfl⟩ := getElem?_pieces hcmd
    rw [← List.map_take, List.take_range, Nat.min_eq_left (Nat.le_of_lt hi),
      map_cdw13_pieces hcnt hhi hlo (Nat.le_of_lt hi), sum_chunk_of_lt (hpiece hi),
      (valueFlushCmd_chunk hcnt hhi hlo (hpiece hi)).2.1,
      show i * 128 * 4096 = 524288 * i by omega]
    exact ⟨rfl, rfl⟩
  case sum =>
    rw [map_cdw13_pieces hcnt hhi hlo (Nat.le_refl _)]
    exact sum_chunk_chunkCount (by decide) _
  case blocks =>
    intro cmd hcmd
    obtain ⟨i, hi, rfl⟩ := hmem hcmd
    exact valueFlushCmd_blocks hcnt hhi hlo hi
  case first =>
    intro i cmd hcmd
    obtain ⟨hi, rfl⟩ := getElem?_pieces hcmd
    rw [(valueFlushCmd_chunk hcnt hhi hlo (hpiece hi)).2.2]
    split <;> simp [*]

theorem Buffered.noUnderflow : NoUnderflow bip := by
  have hcnt : bip.valueLogOffset ≤ maxValueBufferEntry := h.offset ▸ hfits
  obtain ⟨hhi, hlo⟩ := h.total_bounds hne hfits
  refine ⟨?lastRecord, ?lastPiece, ?piece⟩
  case lastRecord =>
    rw [h.table.pair, length_entriesFrom]
    exact List.length_pos_iff.mpr hne
  case lastPiece =>
    intro i hi _
    unfold limitValueBufferEntry at hi
    rw [limitValueBufferEntry, pageSize]
    omega
  case piece =>
    intro i hi
    unfold limitValueBufferEntry at hi
    have hlt : 524288 * i < totalDataLen bip := by omega
    rw [(valueFlushCmd_chunk hcnt hhi hlo hlt).1]
    exact chunk_pos (by decide) hlt

end Tiling

/-- The `V_FLUSH` commands of a batch cut its value log without gap or overlap,
if the device takes all of them. -/
theorem valueFlush_tiles {σ : Type} (exec : Device σ) (db : DB (σ × CmdLog))
    (hempty : Emptied db.bufferingInfo) (cs : List BufferCall)
    (hcnt : cs.length ≤ limitValueBufferEntry) (hsome : stored db cs ≠ [])
    (hfits : pagesOf ((stored db cs).map Prod.snd) ≤ maxValueBufferEntry) (out : Outside)
    (sent : CmdLog)
    (hlog : ((bufferAll db cs).valueFlush (logged exec) out).2.device.2 =
      (bufferAll db cs).device.2 ++ sent)
    (hok : ∀ e ∈ sent, e.2 = 0) :
    Tiles (bufferAll db cs).bufferingInfo (stored db cs).length (sent.map Prod.fst) ∧
      NoUnderflow (bufferAll db cs).bufferingInfo := by
  have hbuf := (buffered_of_emptied hempty).bufferAll cs (by simpa using hcnt) hfits
  rw [List.nil_append] at hbuf
  have hsent := valueFlushLoop_sent exec out.result (hbuf.offset ▸ hfits)
    (bufferAll db cs).bufferingInfo.valueLogOffset 0 (bufferAll db cs) (Nat.zero_le _)
    (Nat.le_refl _) hlog hok
  rw [Nat.sub_zero, ← List.range_eq_range'] at hsent
  rw [hsent]
  exact ⟨hbuf.tiles hsome hfits, hbuf.noUnderflow hsome hfits⟩

/-- A batch that ends with an empty value. -/
def emptyLast : List BufferCall :=
  [⟨[48, 48, 48, 48], [1, 2], .fine⟩, ⟨[48, 48, 48, 49], [3], .fine⟩,
    ⟨[48, 48, 48, 50], [], .fine⟩]

/-- A device that takes every command, and a log. -/
def taking : DB (Unit × CmdLog) := opened ((), [])

/-- The two pages before the empty value are sent. -/
theorem valueFlush_tiles_emptyLast :
    totalDataLen (bufferAll taking emptyLast).bufferingInfo = 8192 ∧
      Tiles (bufferAll taking emptyLast).bufferingInfo 3
        [valueFlushCmd (bufferAll taking emptyLast).bufferingInfo 0] :=
  ⟨by decide, (valueFlush_tiles (fun _ s => (⟨0, 0, fun _ => 0⟩, s)) taking ⟨rfl, rfl, rfl, rfl⟩
    emptyLast (by decide) (by decide) (by decide) .fine
    [(valueFlushCmd (bufferAll taking emptyLast).bufferingInfo 0, 0)] rfl (by simp)).1⟩

end DB

end Kvaccel.Ref
