import Mathlib.Data.List.TakeWhile
import Kvaccel.Spec.MapDevice

/-!
# The put buffer

What the two host buffers hold between flushes. `Table` is the record table
byte for byte: entry after entry, each the key's four bytes, the value's first
page and its size. `LogAt` is the value log: every value on pages of its own,
in put order. `_Buffering` appends to both, and an append disturbs nothing
before it.

Page counts are naturals here. The source computes them in wrapping
arithmetic, which agrees as long as the pages of a batch stay below 2^32
(`u32_valueNlb`); an empty value wraps to no page at all, as it should.
-/

namespace Kvaccel.Ref

open Kvaccel.Lib Kvaccel.Spec

namespace DB

/-! ## The record table -/

def entryBytes (e : Entry) : Bytes := e.1 ++ le32 e.2.1 ++ le32 e.2.2

structure Table (bip : BufferingInfo) (es : List Entry) : Prop where
  pair : bip.kvPairOffset = es.length
  cnt : bip.bufferingCnt = es.length
  room : es.length ≤ limitValueBufferEntry
  keys : ∀ e ∈ es, e.1.length = 4
  bytes : bip.kvPair.read 0 (12 * es.length) = es.flatMap entryBytes

theorem Table.nil {bip : BufferingInfo} (hpair : bip.kvPairOffset = 0)
    (hcnt : bip.bufferingCnt = 0) : Table bip [] :=
  ⟨hpair, hcnt, Nat.zero_le _, nofun, rfl⟩

theorem length_entryBytes {e : Entry} (h : e.1.length = 4) :
    (entryBytes e).length = 12 := by
  simp [entryBytes, h]

theorem length_tableBytes {es : List Entry} (h : ∀ e ∈ es, e.1.length = 4) :
    (es.flatMap entryBytes).length = 12 * es.length := by
  induction es with
  | nil => rfl
  | cons e es ih =>
      rw [List.flatMap_cons, List.length_append,
        length_entryBytes (h e List.mem_cons_self),
        ih fun e' he' => h e' (List.mem_cons_of_mem _ he'), List.length_cons]
      omega

theorem Table.insert {bip : BufferingInfo} {es : List Entry} (h : Table bip es)
    (hroom : es.length < limitValueBufferEntry) (key value : Bytes) :
    Table (bufferInsert bip key value)
      (es ++ [(firstFour key, bip.valueLogOffset, value.length)]) := by
  have hkv : u32 (bip.kvPairOffset * bytesPerKvPairOffset) = 12 * es.length := by
    unfold limitValueBufferEntry at hroom
    rw [u32, h.pair, bytesPerKvPairOffset]
    omega
  have hnew : entryBytes (firstFour key, bip.valueLogOffset, value.length) =
      firstFour key ++ le32 bip.valueLogOffset ++ le32 value.length := rfl
  have hlen : (firstFour key ++ le32 bip.valueLogOffset ++
      le32 value.length).length = 12 := by simp [length_firstFour]
  unfold limitValueBufferEntry at hroom
  refine ⟨?_, ?_, ?_, ?_, ?_⟩
  · simp only [bufferInsert, h.pair, List.length_append, List.length_singleton, u32]
    omega
  · simp only [bufferInsert, h.cnt, List.length_append, List.length_singleton, u32]
    omega
  · rw [List.length_append, List.length_singleton, limitValueBufferEntry]
    omega
  · intro e he
    rcases List.mem_append.mp he with he | he
    · exact h.keys e he
    · simp only [List.mem_singleton] at he
      rw [he]
      exact length_firstFour key
  · -- The old bytes are before the write, the new ones are the write.
    simp only [bufferInsert, hkv]
    rw [List.length_append, List.length_singleton, Nat.mul_add, ← Mem.read_append,
      List.flatMap_append, Nat.zero_add]
    congr 1
    · rw [Mem.read_write_disjoint (Or.inl (by omega)), h.bytes]
    · rw [List.flatMap_singleton, hnew, show 12 * 1 =
        (firstFour key ++ le32 bip.valueLogOffset ++ le32 value.length).length by
          rw [hlen], Mem.read_write_self]

/-- Each record sits at its own 12 bytes. -/
theorem Table.read {bip : BufferingInfo} {pre post : List Entry} {e : Entry}
    (h : Table bip (pre ++ e :: post)) :
    bip.kvPair.read (12 * pre.length) 4 = e.1 ∧
      bip.kvPair.word (12 * pre.length + 4) = e.2.1 % 4294967296 ∧
      bip.kvPair.word (12 * pre.length + 8) = e.2.2 % 4294967296 := by
  have hpre : ∀ e' ∈ pre, e'.1.length = 4 :=
    fun e' he' => h.keys e' (List.mem_append_left _ he')
  have he : e.1.length = 4 := h.keys e (by simp)
  have hpost : ∀ e' ∈ post, e'.1.length = 4 :=
    fun e' he' => h.keys e' (by simp [he'])
  have hbytes := h.bytes
  rw [List.flatMap_append, List.flatMap_cons] at hbytes
  obtain ⟨_, htail⟩ := Mem.read_eq_append
    (b := entryBytes e ++ post.flatMap entryBytes)
    (by
      rw [length_tableBytes hpre, List.length_append, length_entryBytes he,
        length_tableBytes hpost, ← hbytes]
      congr 1
      simp only [List.length_append, List.length_cons]
      omega)
  rw [length_tableBytes hpre, List.length_append, Nat.zero_add] at htail
  have hentry := (Mem.read_eq_append htail).1
  -- Inside the entry: the key, then two words.
  unfold entryBytes at hentry
  rw [List.length_append] at hentry
  obtain ⟨hfront, hsize⟩ := Mem.read_eq_append hentry
  rw [List.length_append] at hfront
  obtain ⟨hkey, hoff⟩ := Mem.read_eq_append hfront
  rw [List.length_append, he, length_le32] at hsize
  rw [he, length_le32] at hoff
  rw [he] at hkey
  refine ⟨hkey, ?_, ?_⟩
  · rw [Mem.word, hoff, word_le32]
  · have hsize : bip.kvPair.read (12 * pre.length + 8) 4 = le32 e.2.2 := hsize
    rw [Mem.word, hsize, word_le32]

/-- Reading the table back gives the records, as far as 32 bits hold them. -/
theorem Table.parse {bip : BufferingInfo} {es : List Entry} (h : Table bip es) :
    parseTable bip.kvPair es.length =
      es.map fun e => (e.1, e.2.1 % 4294967296, e.2.2 % 4294967296) := by
  refine List.ext_getElem (by simp [parseTable]) fun j h₁ h₂ => ?_
  rw [List.length_map] at h₂
  have hsplit : es = es.take j ++ es[j] :: es.drop (j + 1) := by simp
  rw [hsplit] at h
  obtain ⟨hkey, hoff, hsize⟩ := h.read
  rw [List.length_take, Nat.min_eq_left (Nat.le_of_lt h₂)] at hkey hoff hsize
  simp only [parseTable, List.getElem_map, List.getElem_range, hkey, hoff, hsize]

/-- `KV_FLUSH` carries the whole table. -/
theorem Table.flushed {bip : BufferingInfo} {es : List Entry} (h : Table bip es) :
    parseTable (keyValueFlushCmd bip).data ((keyValueFlushCmd bip).cdw13 / 12) =
      es.map fun e => (e.1, e.2.1 % 4294967296, e.2.2 % 4294967296) := by
  have hlen : u32 (bip.kvPairOffset * bytesPerKvPairOffset) / 12 = es.length := by
    have hroom := h.room
    unfold limitValueBufferEntry at hroom
    rw [u32, h.pair, bytesPerKvPairOffset]
    omega
  simp only [keyValueFlushCmd, hlen]
  exact h.parse

/-! ## The value log -/

theorem pagesOf_append (vs ws : List Value) :
    pagesOf (vs ++ ws) = pagesOf vs + pagesOf ws := by
  simp [pagesOf]

theorem pagesOf_cons (v : Value) (vs : List Value) :
    pagesOf (v :: vs) = pages v.length + pagesOf vs := by
  simp [pagesOf]

theorem le_pages (n : Nat) : n ≤ 4096 * pages n := by
  unfold pages
  omega

/-- The wrapping arithmetic of `_Buffering` counts pages. -/
theorem u32_valueNlb (size off : Nat) :
    u32 (off + (valueNlb size + 1)) = u32 (off + pages size) := by
  unfold u32 valueNlb u32 pages pageSize
  omega

theorem length_strncpy (src : Bytes) : (strncpy src).length = src.length := by
  have := (List.takeWhile_prefix (l := src) (· ≠ (0 : UInt8))).length_le
  simp only [strncpy, List.length_append, List.length_replicate]
  omega

/-- Without a NUL the copy is the string. -/
theorem strncpy_eq {src : Bytes} (h : (0 : UInt8) ∉ src) : strncpy src = src := by
  have hall : src.takeWhile (· ≠ 0) = src :=
    List.takeWhile_eq_self_iff.mpr fun b hb => by
      simpa using fun h0 : b = 0 => h (h0 ▸ hb)
  simp only [strncpy, hall, Nat.sub_self, List.replicate_zero, List.append_nil]

/-- The values, copied one after the other from page `off` on. -/
def LogAt (m : Mem) : List Value → Nat → Prop
  | [], _ => True
  | v :: vs, off =>
      m.read (4096 * off) v.length = strncpy v ∧
        LogAt m vs (off + pages v.length)

/-- Nothing written past the log changes it. -/
theorem LogAt.write {m : Mem} : ∀ {vs : List Value} {off pos : Nat} {bs : Bytes},
    LogAt m vs off → 4096 * (off + pagesOf vs) ≤ pos →
    LogAt (m.write pos bs) vs off := by
  intro vs
  induction vs with
  | nil => intro off pos bs _ _; trivial
  | cons v vs ih =>
      intro off pos bs h hpos
      rw [pagesOf_cons] at hpos
      have hv := le_pages v.length
      refine ⟨?_, ih h.2 (by omega)⟩
      rw [Mem.read_write_disjoint (Or.inl (by omega)), h.1]

theorem LogAt.snoc {m : Mem} : ∀ {vs : List Value} {off : Nat} {v : Value},
    LogAt m vs off → m.read (4096 * (off + pagesOf vs)) v.length = strncpy v →
    LogAt m (vs ++ [v]) off := by
  intro vs
  induction vs with
  | nil =>
      intro off v _ hv
      exact ⟨by simpa [pagesOf] using hv, trivial⟩
  | cons w vs ih =>
      intro off v h hv
      refine ⟨h.1, ih h.2 ?_⟩
      rw [pagesOf_cons] at hv
      rw [Nat.add_assoc]
      exact hv

/-- A copy of the log up to its last byte holds the same values. -/
theorem LogAt.congr {m m' : Mem} : ∀ {vs : List Value} {v : Value} {off : Nat},
    LogAt m (vs ++ [v]) off →
    (∀ x, x < 4096 * (off + pagesOf vs) + v.length → m' x = m x) →
    LogAt m' (vs ++ [v]) off := by
  intro vs
  induction vs with
  | nil =>
      intro v off h hsame
      refine ⟨?_, trivial⟩
      rw [← h.1]
      refine Mem.read_congr fun i _ hi => hsame i ?_
      simpa [pagesOf] using hi
  | cons w vs ih =>
      intro v off h hsame
      rw [pagesOf_cons] at hsame
      have hw := le_pages w.length
      refine ⟨?_, ih h.2 fun x hx => hsame x ?_⟩
      · rw [← h.1]
        exact Mem.read_congr fun i _ hi => hsame i (by omega)
      · rw [Nat.add_assoc] at hx
        exact hx

/-! ## Both together -/

/-- The records of the puts `p`, the first one's value on page `off`. -/
def entriesFrom (off : Nat) : List (Key × Value) → List Entry
  | [] => []
  | r :: p =>
      (firstFour r.1, off, r.2.length) :: entriesFrom (off + pages r.2.length) p

theorem length_entriesFrom : ∀ (p : List (Key × Value)) (off : Nat),
    (entriesFrom off p).length = p.length := by
  intro p
  induction p with
  | nil => intro off; rfl
  | cons r p ih => intro off; rw [entriesFrom, List.length_cons, ih, List.length_cons]

theorem entriesFrom_append : ∀ (p q : List (Key × Value)) (off : Nat),
    entriesFrom off (p ++ q) =
      entriesFrom off p ++ entriesFrom (off + pagesOf (p.map Prod.snd)) q := by
  intro p
  induction p with
  | nil => intro q off; simp [entriesFrom, pagesOf]
  | cons r p ih =>
      intro q off
      rw [List.cons_append, entriesFrom, ih, entriesFrom, List.map_cons,
        pagesOf_cons, Nat.add_assoc, List.cons_append]

/-- The host buffers hold exactly the puts `p`. -/
structure Buffered (bip : BufferingInfo) (p : List (Key × Value)) : Prop where
  init : bip.isInitRequired = true ↔ p = []
  table : Table bip (entriesFrom 0 p)
  offset : bip.valueLogOffset = pagesOf (p.map Prod.snd)
  log : LogAt bip.valueLog (p.map Prod.snd) 0

theorem Buffered.insert {bip : BufferingInfo} {p : List (Key × Value)}
    (htable : Table bip (entriesFrom 0 p))
    (hoffset : bip.valueLogOffset = pagesOf (p.map Prod.snd))
    (hlog : LogAt bip.valueLog (p.map Prod.snd) 0)
    (hinit : bip.isInitRequired = false)
    (hroom : p.length < limitValueBufferEntry) {key value : Bytes}
    (hfits : pagesOf ((p ++ [(key, value)]).map Prod.snd) ≤ maxValueBufferEntry) :
    Buffered (bufferInsert bip key value) (p ++ [(key, value)]) := by
  rw [List.map_append, pagesOf_append] at hfits
  have hvalue : pagesOf [value] = pages value.length := by simp [pagesOf]
  rw [List.map_singleton, hvalue, maxValueBufferEntry] at hfits
  have hsize := le_pages value.length
  have hv : u32 (bip.valueLogOffset * pageSize) =
      4096 * (0 + pagesOf (p.map Prod.snd)) := by
    rw [u32, hoffset, pageSize]
    omega
  refine ⟨?_, ?_, ?_, ?_⟩
  · simp [bufferInsert, hinit]
  · have := htable.insert (by rw [length_entriesFrom]; exact hroom) key value
    rw [entriesFrom_append, entriesFrom, entriesFrom, Nat.zero_add, ← hoffset]
    exact this
  · simp only [bufferInsert]
    rw [u32_valueNlb, hoffset, List.map_append, pagesOf_append,
      List.map_singleton, hvalue, u32]
    omega
  · rw [List.map_append, List.map_singleton]
    simp only [bufferInsert, hv]
    refine LogAt.snoc (hlog.write (Nat.le_refl _)) ?_
    rw [← length_strncpy value, Mem.read_write_self]

/-- `_Buffering` inserts into the buffers it has, or into fresh ones. -/
theorem buffering_eq {σ : Type} (db : DB σ) (key value : Bytes) {out : Outside}
    (halloc : db.bufferingInfo.isInitRequired = true →
      out.valueLog.isSome ∧ out.kvPair.isSome) :
    ∃ bip, db.buffering key value out =
        (0, { db with bufferingInfo := bufferInsert bip key value }) ∧
      bip.isInitRequired = false ∧
      (bip = db.bufferingInfo ∨ db.bufferingInfo.isInitRequired = true ∧
        bip.valueLogOffset = 0 ∧ bip.kvPairOffset = 0 ∧ bip.bufferingCnt = 0) := by
  unfold DB.buffering
  by_cases hinit : db.bufferingInfo.isInitRequired = true
  · obtain ⟨hvl, hkv⟩ := halloc hinit
    obtain ⟨valueLog, hvl⟩ := Option.isSome_iff_exists.mp hvl
    obtain ⟨kvPair, hkv⟩ := Option.isSome_iff_exists.mp hkv
    rw [if_pos hinit, hvl, hkv]
    exact ⟨_, rfl, rfl, Or.inr ⟨hinit, rfl, rfl, rfl⟩⟩
  · rw [if_neg hinit]
    exact ⟨_, rfl, by simpa using hinit, Or.inl rfl⟩

theorem Buffered.buffering {σ : Type} {db : DB σ} {p : List (Key × Value)}
    (h : Buffered db.bufferingInfo p) (hroom : p.length < limitValueBufferEntry)
    {key value : Bytes}
    (hfits : pagesOf ((p ++ [(key, value)]).map Prod.snd) ≤ maxValueBufferEntry)
    {out : Outside} (hvalueLog : out.valueLog.isSome) (hkvPair : out.kvPair.isSome) :
    ∃ bip, db.buffering key value out = (0, { db with bufferingInfo := bip }) ∧
      Buffered bip (p ++ [(key, value)]) := by
  obtain ⟨bip, heq, hinit, hbip⟩ := buffering_eq db key value fun _ => ⟨hvalueLog, hkvPair⟩
  refine ⟨_, heq, ?_⟩
  rcases hbip with rfl | ⟨hreq, hoffset, hpair, hcnt⟩
  · exact .insert h.table h.offset h.log hinit hroom hfits
  · -- Nothing is buffered: the fresh buffers hold an empty batch.
    have hp := h.init.mp hreq
    subst hp
    exact Buffered.insert (p := []) (.nil hpair hcnt) hoffset trivial hinit hroom hfits

/-- Freed buffers hold nothing. -/
theorem buffered_release {σ : Type} (db : DB σ) :
    Buffered db.release.bufferingInfo [] :=
  ⟨by simp [release], .nil rfl rfl, rfl, trivial⟩

/-- `_CreateIter` flushes, or there is nothing to flush. -/
theorem Buffered.flushBeforeIter {σ : Type} {db : DB σ} {p : List (Key × Value)}
    (h : Buffered db.bufferingInfo p) (exec : Device σ) (out : Outside) :
    (if db.bufferingInfo.bufferingCnt ≠ 0 then db.flush exec out else db) = db.flush exec out ∨
      p = [] ∧ (if db.bufferingInfo.bufferingCnt ≠ 0 then db.flush exec out else db) = db := by
  have hcnt := h.table.cnt
  rw [length_entriesFrom] at hcnt
  split
  · exact Or.inl rfl
  · next hnil =>
      rw [hcnt, not_not, List.length_eq_zero_iff] at hnil
      exact Or.inr ⟨hnil, rfl⟩

theorem buffered_opened {σ : Type} (device : σ) :
    Buffered (opened device).bufferingInfo [] :=
  buffered_release (opened device)

end DB

/-! ## Records of any size

`Buffered` is about values whose pages fit the log. The record table does not
depend on that: whatever the sizes, it holds the records. -/

section Batch

variable {σ : Type} {db : DB σ} {es : List Entry}

/-- The host's buffer holds the records `es`. -/
structure Batch (db : DB σ) (es : List Entry) : Prop where
  table : DB.Table db.bufferingInfo es
  init : db.bufferingInfo.isInitRequired = true → es = []

theorem Batch.buffering (h : Batch db es) (hroom : es.length < limitValueBufferEntry)
    {k : Key} {v : Value} {out : Outside}
    (halloc : db.bufferingInfo.isInitRequired = true →
      out.valueLog.isSome ∧ out.kvPair.isSome) :
    ∃ off, Batch (db.buffering k v out).2 (es ++ [(firstFour k, off, v.length)]) ∧
      (db.buffering k v out).2.device = db.device := by
  obtain ⟨bip, heq, hinit, hbip⟩ := DB.buffering_eq db k v halloc
  have htable : DB.Table bip es := by
    rcases hbip with rfl | ⟨hreq, _, hpair, hcnt⟩
    · exact h.table
    · rw [h.init hreq]
      exact .nil hpair hcnt
  rw [heq]
  refine ⟨_, ⟨htable.insert hroom k v, fun hreq => ?_⟩, rfl⟩
  have hset : bip.isInitRequired = true := hreq
  rw [hinit] at hset
  cases hset

theorem batch_release (db : DB σ) : Batch db.release [] :=
  ⟨.nil rfl rfl, fun _ => rfl⟩

end Batch

end Kvaccel.Ref
