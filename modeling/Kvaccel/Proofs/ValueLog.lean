import Kvaccel.Proofs.Driver
import Kvaccel.Proofs.HostBuffer
import Kvaccel.Spec.ValueLog

/-!
# Where the values of a batch are

`Buffered` says what the host buffers hold after some puts, bytes and all, and
`_Buffering` keeps it. Read at one record at a time it is the layout of the
value log: record `j` starts where the pages of the records before it end.

Two things do not follow from the code. The flush is triggered by the number
of records and the log is used up by pages, so nothing keeps a batch of large
values inside it. And the copy is a `strncpy`, which ends at a NUL: a value
that goes on after one does not reach the device.
-/

namespace Kvaccel.Ref

open Kvaccel.Lib Kvaccel.Spec

namespace DB

/-! ## A call -/

section Calls

variable {σ : Type} {db : DB σ} {p : List (Key × Value)} {out : Outside}

theorem buffered_of_emptied {bip : BufferingInfo} (h : Emptied bip) : Buffered bip [] where
  init := by simp [h.init]
  table := .nil h.pair h.cnt
  offset := h.offset
  log := trivial

/-- `_Buffering` without memory stores nothing. -/
theorem buffering_of_none (h : Buffered db.bufferingInfo p) (key value : Bytes)
    (hnone : insertsInto db.bufferingInfo out = none) :
    (db.buffering key value out).1 = -enomem ∧ p = [] ∧
      Buffered (db.buffering key value out).2.bufferingInfo [] := by
  unfold insertsInto at hnone
  split at hnone
  · next hinit =>
    have hp := h.init.mp hinit
    subst hp
    unfold DB.buffering
    rw [if_pos hinit]
    split
    · exact ⟨rfl, rfl, h⟩
    · split
      · exact ⟨rfl, rfl, ⟨h.init, .nil h.table.pair h.table.cnt, h.offset, trivial⟩⟩
      · next hvl _ _ hkv =>
        rw [hvl, hkv] at hnone
        cases hnone
  · cases hnone

theorem buffering_of_some (key value : Bytes) {bip : BufferingInfo}
    (hsome : insertsInto db.bufferingInfo out = some bip) :
    db.buffering key value out =
      (0, { db with bufferingInfo := bufferInsert bip key value }) := by
  unfold insertsInto at hsome
  unfold DB.buffering
  split at hsome
  · next hinit =>
    rw [if_pos hinit]
    split at hsome
    · next hvl hkv =>
      cases hsome
      rw [hvl, hkv]
    · cases hsome
  · next hinit =>
    cases hsome
    rw [if_neg hinit]

/-- The buffers inserted into hold the batch, and are in use. -/
theorem Buffered.insertsInto (h : Buffered db.bufferingInfo p) {bip : BufferingInfo}
    (hsome : Spec.insertsInto db.bufferingInfo out = some bip) :
    bip.isInitRequired = false ∧ Table bip (entriesFrom 0 p) ∧
      bip.valueLogOffset = pagesOf (p.map Prod.snd) ∧
      LogAt bip.valueLog (p.map Prod.snd) 0 := by
  unfold Spec.insertsInto at hsome
  split at hsome
  · next hinit =>
    have hp := h.init.mp hinit
    subst hp
    split at hsome
    · cases hsome
      exact ⟨rfl, .nil rfl rfl, rfl, trivial⟩
    · cases hsome
  · next hinit =>
    cases hsome
    exact ⟨by simpa using hinit, h.table, h.offset, h.log⟩

theorem Buffered.stored (h : Buffered db.bufferingInfo p) {bip : BufferingInfo}
    (hsome : Spec.insertsInto db.bufferingInfo out = some bip)
    (hroom : p.length < limitValueBufferEntry) (key value : Bytes)
    (hfits : pagesOf ((p ++ [(key, value)]).map Prod.snd) ≤ maxValueBufferEntry) :
    Buffered (bufferInsert bip key value) (p ++ [(key, value)]) := by
  obtain ⟨hinit, htable, hoffset, hlog⟩ := h.insertsInto hsome
  exact .insert htable hoffset hlog hinit hroom hfits

/-- A batch of calls adds the puts it has stored. -/
theorem Buffered.bufferAll : ∀ (cs : List BufferCall) {db : DB σ} {p : List (Key × Value)},
    Buffered db.bufferingInfo p → p.length + cs.length ≤ limitValueBufferEntry →
    pagesOf ((p ++ Spec.stored db cs).map Prod.snd) ≤ maxValueBufferEntry →
    Buffered (Spec.bufferAll db cs).bufferingInfo (p ++ Spec.stored db cs) := by
  intro cs
  induction cs with
  | nil =>
      intro db p h _ _
      rw [Spec.stored, List.append_nil]
      exact h
  | cons c cs ih =>
      intro db p h hroom hfits
      rw [List.length_cons] at hroom
      rw [Spec.stored] at hfits ⊢
      rw [Spec.bufferAll, List.foldl_cons]
      cases hinto : Spec.insertsInto db.bufferingInfo c.out with
      | none =>
          obtain ⟨hret, rfl, hempty⟩ := buffering_of_none h c.key c.value hinto
          rw [if_neg (by rw [hret]; decide)] at hfits ⊢
          rw [List.nil_append] at hfits ⊢
          exact ih hempty (by simp; omega) hfits
      | some bip =>
          rw [buffering_of_some c.key c.value hinto] at hfits ⊢
          rw [if_pos rfl, ← List.append_assoc] at hfits ⊢
          have hfirst : pagesOf ((p ++ [(c.key, c.value)]).map Prod.snd) ≤
              maxValueBufferEntry := by
            rw [List.map_append, pagesOf_append] at hfits
            omega
          refine ih (h.stored hinto (by omega) c.key c.value hfirst) ?_ hfits
          rw [List.length_append, List.length_singleton]
          omega

end Calls

/-! ## The layout -/

section Layout

variable {bip : BufferingInfo} {p : List (Key × Value)} {j : Nat} {r : Key × Value}

theorem eq_take_append (hj : p[j]? = some r) : p = p.take j ++ r :: p.drop (j + 1) := by
  obtain ⟨hlt, rfl⟩ := List.getElem?_eq_some_iff.mp hj
  simp

theorem pagesOf_take_le (hj : p[j]? = some r) :
    pagesOf ((p.take j).map Prod.snd) + pages r.2.length ≤ pagesOf (p.map Prod.snd) := by
  have hsplit := congrArg (fun q => pagesOf (q.map Prod.snd)) (eq_take_append hj)
  simp only [List.map_append, List.map_cons, pagesOf_append, pagesOf_cons] at hsplit
  omega

/-- What the table says of record `j`. -/
theorem Buffered.record (h : Buffered bip p)
    (hfits : pagesOf (p.map Prod.snd) ≤ maxValueBufferEntry) (hj : p[j]? = some r) :
    recordOffset bip j = pagesOf ((p.take j).map Prod.snd) ∧
      recordSize bip j = r.2.length := by
  have hle := pagesOf_take_le hj
  have hsize := le_pages r.2.length
  unfold maxValueBufferEntry at hfits
  have htable := h.table
  rw [eq_take_append hj, entriesFrom_append, entriesFrom] at htable
  obtain ⟨_, hoff, hlen⟩ := htable.read
  obtain ⟨hlt, _⟩ := List.getElem?_eq_some_iff.mp hj
  rw [length_entriesFrom, List.length_take, Nat.min_eq_left (Nat.le_of_lt hlt)] at hoff hlen
  simp only [Nat.zero_add] at hoff hlen
  rw [recordOffset, recordSize, hoff, hlen]
  exact ⟨Nat.mod_eq_of_lt (by omega), Nat.mod_eq_of_lt (by omega)⟩

theorem LogAt.read {m : Mem} : ∀ {vs : List Value} {v : Value} {ws : List Value} {off : Nat},
    LogAt m (vs ++ v :: ws) off →
    m.read (4096 * (off + pagesOf vs)) v.length = strncpy v := by
  intro vs
  induction vs with
  | nil =>
      intro v ws off h
      exact h.1
  | cons w vs ih =>
      intro v ws off h
      have hrest := ih h.2
      rw [Nat.add_assoc] at hrest
      rw [pagesOf_cons]
      exact hrest

/-- A record ends where the next one may begin. -/
theorem pagesOf_take_of_lt {i : Nat} (hij : i < j) (hi : p[i]? = some r) :
    4096 * pagesOf ((p.take i).map Prod.snd) + r.2.length ≤
      4096 * pagesOf ((p.take j).map Prod.snd) := by
  have hi' : (p.take j)[i]? = some r := by rw [List.getElem?_take_of_lt hij, hi]
  have hle := pagesOf_take_le hi'
  rw [List.take_take, Nat.min_eq_left (Nat.le_of_lt hij)] at hle
  have hsize := le_pages r.2.length
  omega

/-- Up to 128 calls of `_Buffering` on empty buffers, with the wrapping page
count of the source: record `j` has the sum of the pages before it, the log's
offset is the sum of all, and the byte ranges of the records follow one
another in put order. -/
theorem buffering_layout {σ : Type} (db : DB σ) (hempty : Emptied db.bufferingInfo)
    (cs : List BufferCall) (hcnt : cs.length ≤ limitValueBufferEntry)
    (hfits : pagesOf ((stored db cs).map Prod.snd) ≤ maxValueBufferEntry) :
    (∀ (j : Nat) (r : Key × Value), (stored db cs)[j]? = some r →
        recordOffset (bufferAll db cs).bufferingInfo j =
          (((stored db cs).take j).map fun r => pages r.2.length).sum) ∧
      (bufferAll db cs).bufferingInfo.valueLogOffset =
        ((stored db cs).map fun r => pages r.2.length).sum ∧
      ∀ (i j : Nat) (r r' : Key × Value), i < j → (stored db cs)[i]? = some r →
        (stored db cs)[j]? = some r' →
        4096 * recordOffset (bufferAll db cs).bufferingInfo i + r.2.length ≤
          4096 * recordOffset (bufferAll db cs).bufferingInfo j := by
  have hbuf := (buffered_of_emptied hempty).bufferAll cs (by simpa using hcnt) hfits
  rw [List.nil_append] at hbuf
  refine ⟨?_, ?_, ?_⟩
  · intro j r hj
    rw [(hbuf.record hfits hj).1, pagesOf, List.map_map]
    rfl
  · rw [hbuf.offset, pagesOf, List.map_map]
    rfl
  · intro i j r r' hij hi hj
    rw [(hbuf.record hfits hi).1, (hbuf.record hfits hj).1]
    exact pagesOf_take_of_lt hij hi

/-- An empty value between two others, and a first call without memory. -/
def emptyBetween : List BufferCall :=
  [⟨[48, 48, 48, 48], [9], { Outside.fine with kvPair := none }⟩,
    ⟨[48, 48, 48, 48], [1, 2], .fine⟩, ⟨[48, 48, 48, 49], [], .fine⟩,
    ⟨[48, 48, 48, 50], [3], .fine⟩]

theorem buffering_layout_emptyBetween :
    stored (opened ()) emptyBetween =
        [([48, 48, 48, 48], [1, 2]), ([48, 48, 48, 49], []), ([48, 48, 48, 50], [3])] ∧
      recordOffset (bufferAll (opened ()) emptyBetween).bufferingInfo 2 = 1 ∧
      (bufferAll (opened ()) emptyBetween).bufferingInfo.valueLogOffset = 2 :=
  have h := buffering_layout (opened ()) ⟨rfl, rfl, rfl, rfl⟩ emptyBetween (by decide)
    (by decide)
  ⟨rfl, h.1 2 ([48, 48, 48, 50], [3]) rfl, h.2.1⟩

end Layout

/-! ## The bytes that are sent -/

theorem strncpy_eq_iff (value : Bytes) : strncpy value = value ↔ NulsTrail value := by
  have hsplit := List.takeWhile_append_dropWhile (p := fun b : UInt8 => decide (b ≠ 0))
    (l := value)
  have hlen : value.length - (value.takeWhile (· ≠ 0)).length =
      (value.dropWhile (· ≠ 0)).length := by
    have := congrArg List.length hsplit
    rw [List.length_append] at this
    omega
  have hcopy : strncpy value = value.takeWhile (· ≠ 0) ++
      List.replicate (value.dropWhile (· ≠ 0)).length 0 := by
    rw [strncpy, hlen]
  constructor
  · intro h
    rw [hcopy] at h
    have htail := List.append_cancel_left (h.trans hsplit.symm)
    exact (List.eq_replicate_iff.mp htail.symm).2
  · intro h
    rw [hcopy, ← List.eq_replicate_iff.mpr ⟨rfl, h⟩]
    exact hsplit

section Sent

variable {db : DB MapDevice} {p : List (Key × Value)}

/-- What the device receives for record `j` is the copy that was made of its
value. -/
theorem Buffered.receivedValue (h : Buffered db.bufferingInfo p)
    (hfits : pagesOf (p.map Prod.snd) ≤ maxValueBufferEntry) (out : Outside) {j : Nat}
    {r : Key × Value} (hj : p[j]? = some r) :
    Spec.receivedValue db.bufferingInfo (db.valueFlush MapDevice.exec out).2.device j =
      strncpy r.2 := by
  obtain ⟨db', hflush, _, _, hlog⟩ := h.valueFlush hfits out
  rw [eq_take_append hj, List.map_append, List.map_cons] at hlog
  have hread := hlog.read
  rw [Nat.zero_add] at hread
  obtain ⟨hoff, hsize⟩ := h.record hfits hj
  rw [Spec.receivedValue, hflush, hoff, hsize, hread]

/-- The unbuffered `_Put` sends the value as it is. -/
theorem plainPutCmd_value (fresh : Mem) (key : Bytes) {value : Bytes}
    (hsize : value.length < 4294967296) :
    (plainPutCmd fresh key value).data.read 0 (plainPutCmd fresh key value).cdw13 =
      value := by
  have hcdw : (plainPutCmd fresh key value).cdw13 = value.length := by
    simp only [plainPutCmd, u32]
    omega
  rw [hcdw]
  exact Mem.read_write_self fresh 0 value

theorem length_lt_of_fits (hfits : pagesOf (p.map Prod.snd) ≤ maxValueBufferEntry)
    {j : Nat} {r : Key × Value} (hj : p[j]? = some r) : r.2.length < 4294967296 := by
  have hle := pagesOf_take_le hj
  have hsize := le_pages r.2.length
  unfold maxValueBufferEntry at hfits
  omega

/-- The buffered path hands the device every value of a batch as the plain path
does, exactly if no value has another byte after a NUL. -/
theorem received_as_plain_iff (db : DB MapDevice) (hempty : Emptied db.bufferingInfo)
    (cs : List BufferCall) (hcnt : cs.length ≤ limitValueBufferEntry)
    (hfits : pagesOf ((stored db cs).map Prod.snd) ≤ maxValueBufferEntry) (out : Outside) :
    (∀ (j : Nat) (r : Key × Value) (fresh : Mem), (stored db cs)[j]? = some r →
        receivedValue (bufferAll db cs).bufferingInfo
            ((bufferAll db cs).valueFlush MapDevice.exec out).2.device j = r.2 ∧
          (plainPutCmd fresh r.1 r.2).data.read 0 (plainPutCmd fresh r.1 r.2).cdw13 = r.2) ↔
      ∀ r ∈ stored db cs, NulsTrail r.2 := by
  have hbuf := (buffered_of_emptied hempty).bufferAll cs (by simpa using hcnt) hfits
  rw [List.nil_append] at hbuf
  constructor
  · intro h r hr
    obtain ⟨j, hj⟩ := List.mem_iff_getElem?.mp hr
    have hsent := (h j r (fun _ => 0) hj).1
    rw [hbuf.receivedValue hfits out hj] at hsent
    exact (strncpy_eq_iff r.2).mp hsent
  · intro h j r fresh hj
    refine ⟨?_, plainPutCmd_value fresh r.1 (length_lt_of_fits hfits hj)⟩
    rw [hbuf.receivedValue hfits out hj]
    exact (strncpy_eq_iff r.2).mpr (h r (List.mem_of_getElem? hj))

def putOfBytes (value : Value) : List BufferCall := [⟨[48, 48, 48, 48], value, .fine⟩]

theorem received_as_plain_trailingNul :
    receivedValue (bufferAll (opened MapDevice.empty) (putOfBytes [1, 2, 0])).bufferingInfo
        ((bufferAll (opened MapDevice.empty) (putOfBytes [1, 2, 0])).valueFlush
          MapDevice.exec .fine).2.device 0 = [1, 2, 0] :=
  (((received_as_plain_iff (opened MapDevice.empty) ⟨rfl, rfl, rfl, rfl⟩
    (putOfBytes [1, 2, 0]) (by decide) (by decide) .fine).mpr
      (fun r hr => by rw [List.mem_singleton.mp hr]; decide)) 0
      ([48, 48, 48, 48], [1, 2, 0]) (fun _ => 0) rfl).1

/-- The byte after the NUL is lost. -/
theorem received_byte_lost :
    stored (opened MapDevice.empty) (putOfBytes [1, 0, 2]) = [([48, 48, 48, 48], [1, 0, 2])] ∧
      receivedValue (bufferAll (opened MapDevice.empty) (putOfBytes [1, 0, 2])).bufferingInfo
          ((bufferAll (opened MapDevice.empty) (putOfBytes [1, 0, 2])).valueFlush
            MapDevice.exec .fine).2.device 0 = [1, 0, 0] ∧
      (plainPutCmd (fun _ => 0) [48, 48, 48, 48] [1, 0, 2]).data.read 0
          (plainPutCmd (fun _ => 0) [48, 48, 48, 48] [1, 0, 2]).cdw13 = [1, 0, 2] :=
  ⟨by decide, by decide, by decide⟩

end Sent

/-! ## Writes inside the buffers -/

section Bounds

variable {σ : Type} {exec : Device σ} {db : DB σ} {p : List (Key × Value)} {out : Outside}

theorem Buffered.insertsInto_eq_none_iff (h : Buffered db.bufferingInfo p) :
    Spec.insertsInto db.bufferingInfo out = none ↔
      p.map Prod.snd = [] ∧ (out.valueLog = none ∨ out.kvPair = none) := by
  rw [List.map_eq_nil_iff, ← h.init, Spec.insertsInto]
  split
  · next hinit =>
    split
    · next hvl hkv => simp [hvl, hkv]
    · next hnot =>
      simp only [hinit, true_and, true_iff]
      cases hvl : out.valueLog with
      | none => exact Or.inl rfl
      | some valueLog =>
          cases hkv : out.kvPair with
          | none => exact Or.inr rfl
          | some kvPair => exact absurd hkv (hnot valueLog kvPair hvl)
  · next hinit => simp [hinit]

/-- Inside the value log is a matter of pages, and the table always has room. -/
theorem Buffered.inside_iff (h : Buffered db.bufferingInfo p) {bip : BufferingInfo}
    (hsome : Spec.insertsInto db.bufferingInfo out = some bip)
    (hroom : p.length < limitValueBufferEntry) (value : Value) :
    Inside bip value ↔ pagesOf (p.map Prod.snd ++ [value]) ≤ maxValueBufferEntry := by
  obtain ⟨_, htable, hoffset, _⟩ := h.insertsInto hsome
  have hpair := htable.pair
  rw [length_entriesFrom] at hpair
  have hone : pagesOf [value] = pages value.length := by simp [pagesOf]
  have hceil : value.length ≤ 4096 * pages value.length ∧
      4096 * pages value.length ≤ value.length + 4095 := by
    unfold pages
    omega
  unfold limitValueBufferEntry at hroom
  rw [Inside, hoffset, hpair, pagesOf_append, hone, maxValueBufferSize,
    maxKeyValueBufferSize, bytesPerKvPairOffset, maxValueBufferEntry, pageSize]
  omega

theorem Buffered.put (h : Buffered db.bufferingInfo p)
    (hroom : p.length < limitValueBufferEntry) {key value : Bytes}
    (hfits : ¬ (p.map Prod.snd = [] ∧ (out.valueLog = none ∨ out.kvPair = none)) →
      pagesOf (p.map Prod.snd ++ [value]) ≤ maxValueBufferEntry) :
    ∃ p', Buffered (db.put exec key value out).2.bufferingInfo p' ∧
      p'.length < limitValueBufferEntry ∧
      p'.map Prod.snd = pendingStep (p.map Prod.snd) (.put key value out) := by
  simp only [DB.put, pendingStep]
  cases hinto : Spec.insertsInto db.bufferingInfo out with
  | none =>
      obtain ⟨_, rfl, hempty⟩ := buffering_of_none h key value hinto
      have hpair := hempty.table.pair
      rw [if_pos (h.insertsInto_eq_none_iff.mp hinto), if_neg (by rw [hpair]; decide)]
      exact ⟨[], hempty, by decide, rfl⟩
  | some bip =>
      have hnot : ¬ (p.map Prod.snd = [] ∧ (out.valueLog = none ∨ out.kvPair = none)) := by
        rw [← h.insertsInto_eq_none_iff, hinto]
        exact Option.some_ne_none bip
      have hbuf := h.stored hinto hroom key value
        (by rw [List.map_append]; exact hfits hnot)
      have hpair := hbuf.table.pair
      rw [length_entriesFrom, List.length_append, List.length_singleton] at hpair
      rw [if_neg hnot, List.length_map, buffering_of_some key value hinto]
      simp only [hpair]
      split
      · exact ⟨[], buffered_release db, by decide, rfl⟩
      · next hnotFull =>
        refine ⟨_, hbuf, ?_, List.map_append⟩
        rw [List.length_append, List.length_singleton]
        omega

theorem Buffered.createIter (h : Buffered db.bufferingInfo p) (iterId : Nat) :
    Buffered (db.createIter exec iterId out).2.2.bufferingInfo [] := by
  rw [DB.createIter, (persists_bufferingInfo exec _).createIterCmd trivial iterId out rfl]
  rcases h.flushBeforeIter exec out with hflush | ⟨rfl, hflush⟩
  · rw [hflush]
    exact buffered_release _
  · rw [hflush]
    exact h

theorem Buffered.get (h : Buffered db.bufferingInfo p) (key value : Bytes) :
    Buffered (db.get exec key value out).2.2.bufferingInfo p := by
  rw [(persists_bufferingInfo exec _).get trivial key value out rfl]
  exact h

/-- A call whose put fits keeps the buffers the pending values'. -/
theorem Buffered.call (exec : Device σ) (h : Buffered db.bufferingInfo p)
    (hroom : p.length < limitValueBufferEntry) {c : Call}
    (hfits : ∀ key value out, c = .put key value out →
      ¬ (p.map Prod.snd = [] ∧ (out.valueLog = none ∨ out.kvPair = none)) →
      pagesOf (p.map Prod.snd ++ [value]) ≤ maxValueBufferEntry) :
    ∃ p', Buffered (Spec.call exec db c).2.bufferingInfo p' ∧
      p'.length < limitValueBufferEntry ∧
      p'.map Prod.snd = pendingStep (p.map Prod.snd) c := by
  cases c with
  | put key value out => exact h.put hroom (hfits key value out rfl)
  | get key value out => exact ⟨p, h.get key value, hroom, rfl⟩
  | createIter iterId out => exact ⟨[], h.createIter iterId, by decide, rfl⟩

theorem writesInside_of_buffered : ∀ (cs : List Call) {db : DB σ} {p : List (Key × Value)},
    Buffered db.bufferingInfo p → p.length < limitValueBufferEntry →
    (WritesInside exec db cs ↔ LogFits (p.map Prod.snd) cs) := by
  intro cs
  induction cs with
  | nil => intro db p _ _; exact Iff.rfl
  | cons c cs ih =>
      intro db p h hroom
      have hhead : (∀ key value out, c = .put key value out →
            ∀ bip, Spec.insertsInto db.bufferingInfo out = some bip → Inside bip value) ↔
          ∀ key value out, c = .put key value out →
            ¬ (p.map Prod.snd = [] ∧ (out.valueLog = none ∨ out.kvPair = none)) →
            pagesOf (p.map Prod.snd ++ [value]) ≤ maxValueBufferEntry := by
        refine forall_congr' fun key => forall_congr' fun value => forall_congr' fun out =>
          imp_congr_right fun _ => ?_
        rw [← h.insertsInto_eq_none_iff]
        constructor
        · intro hin hsome
          obtain ⟨bip, hbip⟩ := Option.ne_none_iff_exists'.mp hsome
          exact (h.inside_iff hbip hroom value).mp (hin bip hbip)
        · intro hfits bip hbip
          rw [h.inside_iff hbip hroom value]
          exact hfits (by rw [hbip]; exact Option.some_ne_none bip)
      rw [WritesInside, LogFits, hhead]
      refine and_congr_right fun hfits => ?_
      obtain ⟨p', hbuf, hroom', hpending⟩ := h.call exec hroom hfits
      rw [ih hbuf hroom', hpending]

/-- From `Open` on, over any device: every write of `_Buffering` lies inside
its buffer exactly if the pages of each batch fit the value log. -/
theorem writesInside_iff_logFits (device : σ) (cs : List Call) :
    WritesInside exec (opened device) cs ↔ LogFits [] cs :=
  writesInside_of_buffered cs (buffered_opened device) (by decide)

end Bounds

theorem not_logFits_three (key : Key) {value : Value} (h : pages value.length = 127) :
    ¬ LogFits [] (List.replicate 3 (.put key value .fine)) := by
  intro hfits
  -- The pages of the two before it, and its own.
  have hthird := hfits.2.2.1 key value .fine rfl (by simp [pendingStep, Outside.fine])
  simp [pendingStep, Outside.fine, limitValueBufferEntry, pagesOf, h,
    maxValueBufferEntry] at hthird

/-- Three values of `MAX_BUFLEN` bytes. -/
def threeLarge : List Call :=
  List.replicate 3 (.put [48, 48, 48, 48] (List.replicate maxBufLen 1) .fine)

/-- They are in one batch, and the third does not fit. -/
theorem not_writesInside_threeLarge :
    (∀ key value out, Call.put key value out ∈ threeLarge → value.length ≤ maxBufLen) ∧
      ¬ WritesInside MapDevice.exec (opened MapDevice.empty) threeLarge := by
  constructor
  · intro key value out hmem
    cases List.eq_of_mem_replicate hmem
    rw [List.length_replicate]
  · rw [writesInside_of_buffered _ (buffered_opened _) (by decide)]
    refine not_logFits_three _ ?_
    rw [List.length_replicate, maxBufLen, pages]

end DB

end Kvaccel.Ref
