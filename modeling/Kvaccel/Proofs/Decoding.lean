import Kvaccel.Proofs.ScanOrder
import Kvaccel.Spec.Decoding

/-!
# Decoding a bulk reply

A reply that was laid out for the decoder is read back, whatever the buffer
holds outside of `MAX_BUFLEN`: `Layout` speaks of bytes inside only.

For other replies the question is where the decoder looks. The header loop is
bounded by `MAX_CMD_NUM`, and so many entries are well inside. The value loop
goes where the lengths send it. The buffer is a whole number of blocks, so a
value ends inside exactly when its last block does, and the loop stays inside
exactly when the blocks of all values together do.
-/

namespace Kvaccel.Spec

open Kvaccel.Lib Kvaccel.Ref

/-! ## A reply laid out for the decoder -/

theorem HeaderAt.congr {data data' : Mem} : ∀ {b : List Record} {pos : Nat},
    HeaderAt data b pos →
    (∀ i < pos + 8 * b.length + 4, data' i = data i) → HeaderAt data' b pos := by
  intro b
  induction b with
  | nil =>
      intro pos h heq
      have hword : data'.word pos = data.word pos :=
        congrArg word (Mem.read_congr fun i _ hi => heq i hi)
      exact hword.trans h
  | cons r b ih =>
      intro pos h heq
      obtain ⟨hlen, hkey, hrest⟩ := h
      rw [List.length_cons] at heq
      have hword : data'.word pos = data.word pos :=
        congrArg word (Mem.read_congr fun i _ hi => heq i (by omega))
      have hread : data'.read (pos + 4) 4 = data.read (pos + 4) 4 :=
        Mem.read_congr fun i _ hi => heq i (by omega)
      exact ⟨hword.trans hlen, hread.trans hkey, ih hrest fun i hi => heq i (by omega)⟩

theorem ValuesAt.congr {data data' : Mem} : ∀ {vs : List Value} {pos : Nat},
    ValuesAt data vs pos → (∀ v ∈ vs, v ≠ []) →
    (∀ i < valuesEnd vs pos, data' i = data i) → ValuesAt data' vs pos := by
  intro vs
  induction vs with
  | nil => intro pos _ _ _; trivial
  | cons v vs ih =>
      intro pos h hne heq
      have hend := (valuesEnd_ge (v :: vs) pos hne).2 v List.mem_cons_self
      have hle := le_valueBlocks v.length
      have hread : data'.read pos v.length = data.read pos v.length :=
        Mem.read_congr fun i _ hi => heq i (by omega)
      exact ⟨hread.trans h.1, ih h.2 (fun w hw => hne w (List.mem_cons_of_mem _ hw)) heq⟩

/-- A layout is in the buffer, so what is behind the buffer does not matter. -/
theorem Layout.congr {data data' : Mem} {b : List Record} (h : Layout data b)
    (heq : ∀ i < maxBufLen, data' i = data i) : Layout data' b := by
  have hfits := h.fits
  have hend := (valuesEnd_ge _ (valueStart b.length) h.nonempty).1
  have hstart := le_valueStart b.length
  refine ⟨h.header.congr fun i hi => heq i (by omega),
    h.values.congr h.nonempty fun i hi => heq i (by omega), h.nonempty, hfits⟩

end Kvaccel.Spec

namespace Kvaccel.Ref

open Kvaccel.Lib Kvaccel.Spec

namespace DB

variable {σ : Type} (exec : Device σ)

/-- A call whose reply is laid out for the records `b` appends them. -/
theorem bulkyScan_appends (db : DB σ) (isSeek : NvmeOpcode) (iterId start next : Nat)
    {out : Outside} {b : List Record} {io : IoResult} (hout : out.data = true)
    (hio : io = scanIo exec iterId db isSeek start) (hok : io.err = 0)
    (hlayout : Layout io.data b) :
    Appends db iterId b io.result (db.bulkyScan exec isSeek iterId start next out) := by
  obtain ⟨code, stat, hscan, hcode⟩ := bulkyScan_eq exec iterId db isSeek start next out
  rw [← hio] at hscan hcode
  have hacc : Accepted io out := ⟨hout, by omega, by omega⟩
  have hresult : resultAfter io out = io.result := if_pos hok
  have hfetched : fetched io out = (b.map Prod.fst, b.map Prod.snd) := by
    rw [fetched, if_pos hacc, decodeReply_eq hlayout]
  rw [hscan, if_pos hacc, hcode hacc, hfetched, hresult]
  refine ⟨rfl, rfl, ?_, ?_, fun j hj => ⟨?_, ?_⟩⟩
  · exact Function.update_self ..
  · exact Function.update_self ..
  · exact Function.update_of_ne hj ..
  · exact Function.update_of_ne hj ..

/-- Both functions read back a reply that fits the buffer. -/
theorem bulkyScan_inverts_layout (db : DB σ) (isSeek : NvmeOpcode) (iterId next : Nat)
    (out : Outside) (hout : out.data = true) (b : List Record)
    (hkeys : ∀ r ∈ b, r.1.length = 4) (hvalues : ∀ r ∈ b, 1 ≤ r.2.length)
    (hfits : valuesEnd (b.map Prod.snd) (valueStart b.length) ≤ maxBufLen) :
    (∀ (key : Bytes) (io : IoResult), Replies io b →
        (exec (scanCmd isSeek (if key ≠ startKey then word (firstFour key) else 0) iterId)
          db.device).1 = io →
        Appends db iterId b io.result (db.doBulkyScan exec isSeek iterId key next out)) ∧
      ∀ (key : Nat) (io : IoResult), Replies io b →
        (exec (scanCmd isSeek key iterId) db.device).1 = io →
        Appends db iterId b io.result (db.doBulkyNextScan exec isSeek iterId key next out) := by
  have hne : ∀ v ∈ b.map Prod.snd, v ≠ [] := by
    intro v hv
    obtain ⟨r, hr, rfl⟩ := List.mem_map.mp hv
    exact List.ne_nil_of_length_pos (hvalues r hr)
  have hlayout := layout_encodeReply hkeys hne hfits
  -- The start key is the only difference between the two.
  have hbulk : ∀ (start : Nat) (io : IoResult), Replies io b →
      (exec (scanCmd isSeek start iterId) db.device).1 = io →
      Appends db iterId b io.result (db.bulkyScan exec isSeek iterId start next out) := by
    intro start io hio heq
    exact bulkyScan_appends exec db isSeek iterId start next hout heq.symm hio.ok
      (hlayout.congr hio.data)
  exact ⟨fun key => hbulk _, hbulk⟩

def twoRecords : List Record := [([48, 48, 48, 48], [1]), ([48, 48, 48, 49], [2, 3])]

theorem bulkyScan_inverts_twoRecords :
    Appends (opened [twoRecords]) 0 twoRecords noNextKey
      ((opened [twoRecords]).doBulkyScan batchDevice .kvRangeScanSeek 0 startKey 7 .fine) :=
  (bulkyScan_inverts_layout batchDevice (opened [twoRecords]) .kvRangeScanSeek 0 7 .fine rfl
    twoRecords (by decide) (by decide) (by decide)).1 startKey _ ⟨rfl, fun _ _ => rfl⟩ rfl

end DB

/-! ## A reply of any content -/

theorem length_headerLoop_le (data : Mem) : ∀ fuel temp,
    (headerLoop data fuel temp).1.length ≤ fuel := by
  intro fuel
  induction fuel with
  | zero => intro temp; exact Nat.le_refl _
  | succ fuel ih =>
      intro temp
      rw [headerLoop]
      split
      · exact Nat.zero_le _
      · exact Nat.succ_le_succ (ih (temp + 8))

/-- Every entry has eight bytes, and a length of 32 bits that is not 0. -/
theorem headerLoop_spec (data : Mem) : ∀ fuel temp,
    (headerLoop data fuel temp).2 = temp + 8 * (headerLoop data fuel temp).1.length ∧
      ∀ r ∈ (headerLoop data fuel temp).1, 0 < r.1 ∧ r.1 < 4294967296 := by
  intro fuel
  induction fuel with
  | zero => intro temp; exact ⟨rfl, by simp [headerLoop]⟩
  | succ fuel ih =>
      intro temp
      rw [headerLoop]
      split
      · exact ⟨rfl, by simp⟩
      · next hlen =>
          obtain ⟨hpos, hall⟩ := ih (temp + 8)
          refine ⟨?_, ?_⟩
          · rw [hpos, List.length_cons]
            omega
          · intro r hr
            rcases List.mem_cons.mp hr with rfl | hr
            · exact ⟨Nat.pos_of_ne_zero hlen, word_lt (data.read temp 4)⟩
            · exact hall r hr

/-- The traces are those of the loops: with the same bytes in those ranges, a
loop does the same. -/
theorem headerLoop_congr {data data' : Mem} : ∀ fuel temp,
    (∀ r ∈ headerReads data fuel temp, data'.read r.1 r.2 = data.read r.1 r.2) →
    headerLoop data' fuel temp = headerLoop data fuel temp := by
  intro fuel
  induction fuel with
  | zero => intro temp _; rfl
  | succ fuel ih =>
      intro temp h
      rw [headerReads] at h
      rw [headerLoop, headerLoop]
      split at h
      · next hlen =>
          have hword : data'.word temp = data.word temp :=
            congrArg word (h (temp, 4) List.mem_cons_self)
          rw [if_pos hlen, if_pos (hword.trans hlen)]
      · next hlen =>
          simp only [List.forall_mem_cons] at h
          obtain ⟨hread, _, hkey, hrest⟩ := h
          have hword : data'.word temp = data.word temp := congrArg word hread
          rw [if_neg hlen, if_neg (hword ▸ hlen), ih (temp + 8) hrest, hword, hkey]

theorem valueLoop_congr {data data' : Mem} : ∀ (lens : List Nat) temp,
    (∀ len ∈ lens, len < 2147483648) →
    (∀ r ∈ valueReads lens temp, data'.read r.1 r.2 = data.read r.1 r.2) →
    valueLoop data' lens temp = valueLoop data lens temp := by
  intro lens
  induction lens with
  | nil => intro temp _ _; rfl
  | cons len lens ih =>
      intro temp hint h
      have hlen : asInt len = len := if_pos (hint len List.mem_cons_self)
      rw [valueReads, if_neg (by omega), List.forall_mem_cons] at h
      rw [valueLoop, valueLoop, hlen, Int.toNat_natCast, h.1,
        ih _ (fun l hl => hint l (List.mem_cons_of_mem _ hl)) h.2]

/-- Bytes outside of `decodeReads` do not show in what the decoder returns. -/
theorem decodeReply_congr {data data' : Mem}
    (hint : ∀ len ∈ announced data, len < 2147483648)
    (h : ∀ r ∈ decodeReads data, data'.read r.1 r.2 = data.read r.1 r.2) :
    decodeReply data' = decodeReply data := by
  unfold decodeReads at h
  simp only [List.forall_mem_append, List.forall_mem_cons] at h
  obtain ⟨hheader, hterm, hvalues⟩ := h
  unfold decodeReply
  rw [headerLoop_congr _ _ hheader]
  have hword : data'.word (headerLoop data maxCmdNum 0).2 =
      data.word (headerLoop data maxCmdNum 0).2 := congrArg word hterm
  simp only [hword]
  split
  · next hstop =>
      rw [if_pos hstop] at hvalues
      rw [valueLoop_congr ((headerLoop data maxCmdNum 0).1.map Prod.fst) _ hint hvalues]
  · rfl

theorem headerReads_le (data : Mem) : ∀ fuel temp,
    ∀ r ∈ headerReads data fuel temp, r.1 + r.2 ≤ temp + 8 * fuel := by
  intro fuel
  induction fuel with
  | zero => intro temp r hr; cases hr
  | succ fuel ih =>
      intro temp r hr
      rw [headerReads] at hr
      split at hr
      · rw [List.mem_singleton] at hr
        subst hr
        show temp + 4 ≤ _
        omega
      · simp only [List.mem_cons] at hr
        rcases hr with rfl | rfl | rfl | hr
        · show temp + 4 ≤ _
          omega
        · show temp + 4 ≤ _
          omega
        · show temp + 4 + 4 ≤ _
          omega
        · have := ih (temp + 8) r hr
          omega

theorem asInt_neg_iff {len : Nat} (h : len < 4294967296) : asInt len < 0 ↔ ¬ len < 2147483648 := by
  unfold asInt
  split <;> omega

/-- From a block boundary in the buffer, the values end inside exactly when
their blocks do. -/
theorem valueReads_inside_iff : ∀ (lens : List Nat) (temp : Nat),
    (∀ len ∈ lens, 0 < len ∧ len < 4294967296) → temp % blockSize = 0 → temp ≤ maxBufLen →
    ((∀ r ∈ valueReads lens temp, r.1 + r.2 ≤ maxBufLen) ↔
      temp + blockSize * ((lens.takeWhile (· < 2147483648)).map valueBlocks).sum ≤
        maxBufLen) := by
  intro lens
  induction lens with
  | nil =>
      intro temp _ _ hle
      simpa [valueReads] using hle
  | cons len lens ih =>
      intro temp hlens halign hle
      obtain ⟨hpos, hword⟩ := hlens len List.mem_cons_self
      have hthrows := asInt_neg_iff hword
      rw [valueReads]
      by_cases hint : len < 2147483648
      · rw [if_neg (by omega), List.takeWhile_cons_of_pos (by simpa using hint), List.map_cons,
          List.sum_cons, List.forall_mem_cons]
        -- The buffer is a whole number of blocks.
        have hlast : temp + len ≤ maxBufLen ↔ temp + blockSize * valueBlocks len ≤ maxBufLen := by
          unfold valueBlocks maxBufLen at *
          unfold blockSize at *
          split <;> omega
        have hstep : u32 (valueBlocks len * blockSize) = blockSize * valueBlocks len := by
          unfold u32 valueBlocks blockSize
          split <;> omega
        have hnext : (temp + blockSize * valueBlocks len) % blockSize = 0 := by
          rw [Nat.add_mul_mod_self_left, halign]
        have hrest : ∀ l ∈ lens, 0 < l ∧ l < 4294967296 :=
          fun l hl => hlens l (List.mem_cons_of_mem _ hl)
        show temp + len ≤ maxBufLen ∧ _ ↔ _
        rw [hlast, hstep, Nat.mul_add, ← Nat.add_assoc]
        constructor
        · intro h
          exact (ih _ hrest hnext h.1).mp h.2
        · intro h
          have hin : temp + blockSize * valueBlocks len ≤ maxBufLen := by omega
          exact ⟨hin, (ih _ hrest hnext hin).mpr h⟩
      · rw [if_pos (by omega), List.takeWhile_cons_of_neg (by simpa using hint)]
        simpa using hle

/-- Where the values start is a block boundary well inside the buffer. -/
theorem valueStart_spec {n : Nat} (h : n ≤ maxCmdNum) :
    valueStart n % blockSize = 0 ∧ valueStart n ≤ maxBufLen := by
  unfold maxCmdNum at h
  unfold valueStart maxBufLen blockSize
  omega

/-- What the decoder reads is in the buffer exactly when the values that the
header announces are. -/
theorem decodeReads_inside_iff (data : Mem) :
    (∀ r ∈ decodeReads data, r.1 + r.2 ≤ maxBufLen) ↔ AnnouncesInside data := by
  obtain ⟨hstop, hlens⟩ := headerLoop_spec data maxCmdNum 0
  have hcount := length_headerLoop_le data maxCmdNum 0
  obtain ⟨halign, hstart⟩ := valueStart_spec hcount
  have hlens' : ∀ len ∈ announced data, 0 < len ∧ len < 4294967296 := by
    intro len hlen
    obtain ⟨r, hr, rfl⟩ := List.mem_map.mp hlen
    exact hlens r hr
  have hvalues := valueReads_inside_iff (announced data) _ hlens' halign hstart
  rw [Nat.zero_add] at hstop
  unfold AnnouncesInside
  rw [announced, List.length_map, ← announced, ← hvalues, decodeReads]
  simp only [List.forall_mem_append, List.forall_mem_cons, hstop]
  constructor
  · intro h hterm
    have hreads := h.2.2
    rw [if_pos hterm] at hreads
    exact hreads
  · intro h
    refine ⟨?_, ?_, ?_⟩
    · -- The header loop makes at most `MAX_CMD_NUM` rounds.
      intro r hr
      have hle := headerReads_le data maxCmdNum 0 r hr
      unfold maxCmdNum at hle
      unfold maxBufLen
      omega
    · have hterm := le_valueStart (headerLoop data maxCmdNum 0).1.length
      omega
    · split
      · next hterm => exact h hterm
      · intro r hr
        cases hr

/-- A header that announces one value, of the buffer's length. -/
def longReply : Mem := Mem.write (fun _ => 0) 0 (le32 maxBufLen ++ [48, 48, 48, 48])

theorem decodeReads_past_end :
    (4096, maxBufLen) ∈ decodeReads longReply ∧ ¬ 4096 + maxBufLen ≤ maxBufLen := by
  decide +kernel

end Kvaccel.Ref
