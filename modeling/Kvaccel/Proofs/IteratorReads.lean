import Kvaccel.Proofs.MergedScan
import Kvaccel.Proofs.ScanOrder

/-!
# Where the composite iterator reads

Three questions about the Main-LSM side. `iter_location` is a member that only
`IteratorSeek` and `IteratorNext` write, and only while `kache_flag` is 1. After
a rollback it says what the last iteration before it left there, and an iterator
that should be Main-LSM's alone shows a device record instead.

`IteratorCompare` asks for the key that `SeekScan` has left, and a `SeekScan` that
finds nothing leaves the key it was asked for.

`key()` and `value()` are called without a look at `Valid()`. An `IteratorNext`
moves the Main-LSM cursor by at most one record, so more records from the seek
key on than there are calls are enough. Fewer may be: once the device's scan is
at its end the cursor rests, if it is on a record then.
-/

namespace Kvaccel.Spec

open Kvaccel.Lib Kvaccel.Ref

variable {D : ScanLsm}

/-! ## Reads -/

theorem read_main {s : MasterIter D} (hloc : s.iterLocation = 0) :
    s.read = s.iter.rest.head? := by
  unfold MasterIter.read MasterIter.iteratorKey MasterIter.iteratorValue
  rw [if_pos hloc, if_pos hloc, MainIter.key, MainIter.value]
  cases s.iter.rest <;> rfl

theorem read_dev {s : MasterIter D} (hloc : s.iterLocation ≠ 0) :
    s.read = some (D.iterKeys s.ilsm s.ilsmIterId, D.iterValues s.ilsm s.ilsmIterId) := by
  unfold MasterIter.read MasterIter.iteratorKey MasterIter.iteratorValue
  rw [if_neg hloc, if_neg hloc]
  rfl

/-! ## Nothing redirected -/

theorem seek_mainOnly {s : MasterIter D} (hflag : s.kacheFlag = 0) (env env' : D.Env)
    (table : List (Key × Value)) (k : Key) :
    (s.iteratorReset env table).iteratorSeek env' k =
      some { s with iter := { table, rest := fromKey Before k table } } := by
  have hone : ¬ s.kacheFlag = 1 := by omega
  simp only [MasterIter.iteratorReset, if_neg hone, MasterIter.iteratorSeek]
  rfl

/-- `IteratorNext` looks before it moves. -/
theorem next_mainOnly {s : MasterIter D} (hflag : s.kacheFlag = 0) (env : D.Env) :
    s.iteratorNext env = some { s with iter := { s.iter with rest := s.iter.rest.tail } } := by
  unfold MasterIter.iteratorNext MainIter.valid MainIter.next
  rw [if_pos hflag]
  cases hrest : s.iter.rest with
  | nil =>
      have hsame : ({ s.iter with rest := [] } : MainIter) = s.iter := by rw [← hrest]
      simp [hsame]
  | cons r rest => simp

/-- On Main-LSM's side every read is the cursor's. -/
theorem walk_mainOnly (envs : Nat → D.Env) : ∀ (n : Nat) (s : MasterIter D),
    s.kacheFlag = 0 → s.iterLocation = 0 → n < s.iter.rest.length →
    s.walk envs n = some (s.iter.rest.take (n + 1)) := by
  intro n
  induction n with
  | zero =>
      intro s _ hloc hn
      obtain ⟨r, rest, hrest⟩ := List.exists_cons_of_length_pos hn
      refine walk_zero.mpr ⟨r, ?_, by rw [hrest]; rfl⟩
      rw [read_main hloc, hrest]
      rfl
  | succ n ih =>
      intro s hflag hloc hn
      obtain ⟨r, rest, hrest⟩ := List.exists_cons_of_length_pos (Nat.zero_lt_of_lt hn)
      have hread : s.read = some r := by
        rw [read_main hloc, hrest]
        rfl
      have hlen : n < s.iter.rest.tail.length := by
        rw [List.length_tail]
        omega
      have hwalk := ih { s with iter := { s.iter with rest := s.iter.rest.tail } } hflag hloc hlen
      refine walk_succ.mpr ⟨r, _, _, hread, next_mainOnly hflag (envs n), hwalk, ?_⟩
      rw [hrest]
      rfl

/-- On the other side every read is the record that was left there. -/
theorem walk_stale (envs : Nat → D.Env) : ∀ (n : Nat) (s : MasterIter D),
    s.kacheFlag = 0 → s.iterLocation ≠ 0 →
    s.walk envs n = some (List.replicate (n + 1)
      (D.iterKeys s.ilsm s.ilsmIterId, D.iterValues s.ilsm s.ilsmIterId)) := by
  intro n
  induction n with
  | zero =>
      intro s _ hloc
      exact walk_zero.mpr ⟨_, read_dev hloc, rfl⟩
  | succ n ih =>
      intro s hflag hloc
      have hwalk := ih { s with iter := { s.iter with rest := s.iter.rest.tail } } hflag hloc
      exact walk_succ.mpr ⟨_, _, _, read_dev hloc, next_mainOnly hflag (envs n), hwalk, rfl⟩

theorem fromKey_nil (table : List (Key × Value)) : fromKey Before [] table = table := by
  cases table with
  | nil => rfl
  | cons r table =>
      rw [fromKey, List.dropWhile_cons_of_neg]
      simpa using not_before_nil r.1

/-- With nothing redirected, the iterator is Main-LSM's exactly if it was left on
that side, or the record it was left at is all there is. -/
theorem scanFrom_main_iff (s : MasterIter D) (hflag : s.kacheFlag = 0)
    (table : List (Key × Value)) (envs : Nat → D.Env) :
    (∀ k n, n < (fromKey Before k table).length →
        s.scanFrom table k envs n = some ((fromKey Before k table).take (n + 1))) ↔
      s.iterLocation = 0 ∨ ∀ r ∈ table,
        r = (D.iterKeys s.ilsm s.ilsmIterId, D.iterValues s.ilsm s.ilsmIterId) := by
  have hscan : ∀ k n, s.scanFrom table k envs n =
      ({ s with iter := { table, rest := fromKey Before k table } } : MasterIter D).walk envs
        n := by
    intro k n
    rw [MasterIter.scanFrom, seek_mainOnly hflag]
    rfl
  by_cases hloc : s.iterLocation = 0
  · refine ⟨fun _ => Or.inl hloc, fun _ k n hn => ?_⟩
    rw [hscan]
    exact walk_mainOnly envs n _ hflag hloc hn
  · have hstale : ∀ k n, s.scanFrom table k envs n = some (List.replicate (n + 1)
        (D.iterKeys s.ilsm s.ilsmIterId, D.iterValues s.ilsm s.ilsmIterId)) := by
      intro k n
      rw [hscan]
      exact walk_stale envs n _ hflag hloc
    constructor
    · intro h
      refine Or.inr fun r hr => ?_
      obtain ⟨i, hi, rfl⟩ := List.mem_iff_getElem.mp hr
      have hall := h [] i (by rw [fromKey_nil]; exact hi)
      rw [hstale, fromKey_nil, Option.some.injEq] at hall
      have hmem : table[i] ∈ table.take (i + 1) := by
        rw [List.mem_take_iff_getElem]
        exact ⟨i, by omega, rfl⟩
      rw [← hall] at hmem
      exact List.eq_of_mem_replicate hmem
    · intro h k n hn
      have hall := h.resolve_left hloc
      rw [hstale, Option.some.injEq, eq_comm, List.eq_replicate_iff]
      refine ⟨?_, fun r hr => hall r ?_⟩
      · rw [List.length_take]
        omega
      · exact (List.dropWhile_sublist _).subset (List.mem_of_mem_take hr)

/-- The iterator over Dev-LSM's `dev`, with nothing redirected any more. -/
def iterAfter (dev : List (Key × Value)) : MasterIter sortedLsm :=
  { iterOf dev with kacheFlag := 0 }

theorem scanFrom_main_split :
    (iterAfter []).scanFrom splitMain [0, 0, 0, 2] (fun _ => ()) 0 =
      some [([0, 0, 0, 3], [3])] :=
  (scanFrom_main_iff (iterAfter []) rfl splitMain (fun _ => ())).mpr (Or.inl rfl) [0, 0, 0, 2] 0
    (by decide)

/-- A seek to 2 while 2 is redirected, then a rollback: the next iteration shows
2 wherever it is. -/
theorem scanFrom_shows_redirected :
    ∃ s, ((iterOf splitDev).iteratorReset () splitMain).iteratorSeek () [0, 0, 0, 2] = some s ∧
      ({ s with kacheFlag := 0 } : MasterIter sortedLsm).scanFrom
        [([0, 0, 0, 1], [1]), ([0, 0, 0, 2], [2]), ([0, 0, 0, 3], [3])] [0, 0, 0, 3]
        (fun _ => ()) 0 = some [([0, 0, 0, 2], [2])] :=
  ⟨_, rfl, rfl⟩

/-! ## Presence -/

section Presence

variable {s : MasterIter D} {main dev : List (Key × Value)} {k : Key}

/-- A seek over any driver: it is defined if the Main-LSM cursor finds a record. -/
theorem seek_eq (env env' : D.Env) (hflag : s.kacheFlag = 1) (main : List (Key × Value))
    (k : Key) {id : Nat} {st : D.St} {r : Int × Key × Value × D.St}
    (hcreate : (D.createIter env s.ilsmIterId s.ilsm).2 = (id, st))
    (hseek : D.seekScan env' id k [] st = r) :
    (s.iteratorReset env main).iteratorSeek env' k =
      (fromKey Before k main).head?.map fun e =>
        { s with
          iter := { table := main, rest := fromKey Before k main }
          ilsm := D.noteIter id r.2.1 r.2.2.1 r.2.2.2
          ilsmIterId := id
          iterLocation := if sliceCompare e.1 r.2.1 ≤ 0 then 0 else 1 } := by
  simp only [MasterIter.iteratorReset, MasterIter.iteratorSeek, if_pos hflag, MainIter.seek,
    MainIter.new, MainIter.key, hcreate, hseek]
  cases fromKey Before k main <;> rfl

/-- What it leaves over an ideal scan: the device's key is the first one from `k`
on, or `k` itself. -/
theorem seek_redirected (scan : IdealScan D) (env env' : D.Env) (hflag : s.kacheFlag = 1)
    (hk : k.length = 4) (hrecords : scan.records s.ilsm = dev) {e : Key × Value}
    {es : List (Key × Value)} (hmain : fromKey Before k main = e :: es) :
    ∃ s', (s.iteratorReset env main).iteratorSeek env' k = some s' ∧
      s'.kacheFlag = 1 ∧ s'.iter.rest = e :: es ∧
      D.iterKeys s'.ilsm s'.ilsmIterId =
        ((fromKey Before k dev).head?.map Prod.fst).getD k := by
  have hseek : ∃ flag v st, D.seekScan env' (D.createIter env s.ilsmIterId s.ilsm).2.1 k []
      (D.createIter env s.ilsmIterId s.ilsm).2.2 =
        (flag, ((fromKey Before k dev).head?.map Prod.fst).getD k, v, st) := by
    have hstored : scan.records (D.createIter env s.ilsmIterId s.ilsm).2.2 = dev := by
      rw [scan.create, hrecords]
    cases hfrom : fromKey Before k dev with
    | nil =>
        obtain ⟨flag, st, h⟩ := scan.seekNone env'
          (D.createIter env s.ilsmIterId s.ilsm).2.1 k [] _ hk (hstored ▸ hfrom)
        exact ⟨flag, [], st, h⟩
    | cons d ds =>
        obtain ⟨flag, st, h, _⟩ := scan.seek env'
          (D.createIter env s.ilsmIterId s.ilsm).2.1 k [] _ d ds hk (hstored ▸ hfrom)
        exact ⟨flag, d.2, st, h⟩
  obtain ⟨flag, v, st, hseek⟩ := hseek
  rw [seek_eq env env' hflag main k rfl hseek, hmain]
  exact ⟨_, rfl, hflag, rfl, D.iterKeys_noteIter ..⟩

theorem compare_redirected (hflag : s.kacheFlag = 1) :
    s.iteratorCompare k = true ↔
      s.iter.rest.head?.map Prod.fst = some k ∨ k = D.iterKeys s.ilsm s.ilsmIterId := by
  unfold MasterIter.iteratorCompare MainIter.key
  rw [if_pos hflag]
  cases s.iter.rest with
  | nil => simp [sliceCompare_eq_zero_iff]
  | cons e es => simp [sliceCompare_eq_zero_iff]

theorem compare_mainOnly (hflag : s.kacheFlag = 0) :
    s.iteratorCompare k = true ↔ s.iter.rest.head?.map Prod.fst = some k := by
  have hone : ¬ s.kacheFlag = 1 := by omega
  unfold MasterIter.iteratorCompare MainIter.key
  rw [if_neg hone]
  cases s.iter.rest with
  | nil => simp
  | cons e es => simp [sliceCompare_eq_zero_iff]

/-- `IteratorCompare` after a seek tells whether the key is there, unless there
is no record to compare with: none of Main-LSM, or none of Dev-LSM and the key
not in Main-LSM. -/
theorem compare_presence_iff (scan : IdealScan D) (env env' : D.Env) (s : MasterIter D)
    (hflag : s.kacheFlag = 0 ∨ s.kacheFlag = 1) (main dev : List (Key × Value))
    (hmain : Ascending Before main) (hdev : Ascending Before dev)
    (hrecords : scan.records s.ilsm = dev) (k : Key) (hk : k.length = 4) :
    (∃ s', (s.iteratorReset env main).iteratorSeek env' k = some s' ∧
        (s'.iteratorCompare k = true ↔
          k ∈ main.map Prod.fst ∨ s.kacheFlag = 1 ∧ k ∈ dev.map Prod.fst)) ↔
      s.kacheFlag = 0 ∨ fromKey Before k main ≠ [] ∧
        (fromKey Before k dev ≠ [] ∨ k ∈ main.map Prod.fst) := by
  rcases hflag with hflag | hflag
  · refine ⟨fun _ => Or.inl hflag, fun _ => ⟨_, seek_mainOnly hflag env env' main k, ?_⟩⟩
    have hone : ¬ s.kacheFlag = 1 := by omega
    rw [compare_mainOnly (by exact hflag), mem_keys_iff_head_fromKey hmain]
    simp [hone]
  · have hzero : ¬ s.kacheFlag = 0 := by omega
    cases hfrom : fromKey Before k main with
    | nil =>
        rw [seek_eq env env' hflag main k rfl rfl, hfrom]
        simp [hzero]
    | cons e es =>
        obtain ⟨s', hseek, hflag', hrest, hkey⟩ :=
          seek_redirected scan env env' hflag hk hrecords hfrom
        have hmem := mem_keys_iff_head_fromKey (k := k) hmain
        have hmem' := mem_keys_iff_head_fromKey (k := k) hdev
        have hcompare := compare_redirected (k := k) hflag'
        rw [hfrom] at hmem
        rw [hrest, hkey, ← hmem] at hcompare
        have hcut : (∃ s'', some s' = some s'' ∧ (s''.iteratorCompare k = true ↔
            k ∈ main.map Prod.fst ∨ s.kacheFlag = 1 ∧ k ∈ dev.map Prod.fst)) ↔
            (s'.iteratorCompare k = true ↔ k ∈ main.map Prod.fst ∨ k ∈ dev.map Prod.fst) := by
          simp [hflag]
        rw [hseek, hcut, hcompare]
        cases hdevFrom : fromKey Before k dev with
        | nil =>
            -- The key asked for is taken for the device's.
            rw [hdevFrom] at hmem'
            simp only [List.head?_nil, Option.map_none, reduceCtorEq, iff_false] at hmem'
            simp [hzero, hmem']
        | cons d ds =>
            rw [hdevFrom] at hmem'
            simp only [List.head?_cons, Option.map_some, Option.some.injEq] at hmem'
            simp [hmem', eq_comm]

theorem compare_presence_split :
    ∃ s', ((iterOf splitDev).iteratorReset () splitMain).iteratorSeek () [0, 0, 0, 2] = some s' ∧
      (s'.iteratorCompare [0, 0, 0, 2] = true ↔
        [0, 0, 0, 2] ∈ splitMain.map Prod.fst ∨
          (iterOf splitDev).kacheFlag = 1 ∧ [0, 0, 0, 2] ∈ splitDev.map Prod.fst) :=
  (compare_presence_iff idealScan () () (iterOf splitDev) (Or.inr rfl) splitMain splitDev
    (by decide) (by decide) rfl [0, 0, 0, 2] rfl).mpr (by decide)

/-- Main-LSM has 5 and Dev-LSM has 2: a seek to 3 finds 3. -/
theorem compare_finds_absent :
    ∃ s', ((iterOf splitDev).iteratorReset () [([0, 0, 0, 5], [5])]).iteratorSeek ()
        [0, 0, 0, 3] = some s' ∧
      s'.iteratorCompare [0, 0, 0, 3] = true ∧
      [0, 0, 0, 3] ∉ [([0, 0, 0, 5], [5])].map Prod.fst ∧
      [0, 0, 0, 3] ∉ splitDev.map Prod.fst :=
  ⟨_, rfl, by decide, by decide, by decide⟩

end Presence

/-- What the driver does with an empty batch is what is asked of an ideal scan. -/
theorem seekScan_emptyBatch {σ : Type} (exec : Device σ) {db : DB σ} {iterId : Nat}
    {key : Bytes} {out : Outside} (hvalues : db.values iterId = [])
    (hempty : fetched (scanIo exec iterId db .kvRangeScanSeek
      (scanStart iterId db .kvRangeScanSeek key)) out = ([], [])) (value : Bytes) :
    ∃ db', db.seekScan exec iterId key value out = (-2, key, value, db') := by
  obtain ⟨stat, cnt, hrefill⟩ := DB.refill_eq exec iterId
    { db with scanCnt := Function.update db.scanCnt iterId 1 } .kvRangeScanSeek key out rfl
  have hnone : (DB.refill exec { db with scanCnt := Function.update db.scanCnt iterId 1 }
      .kvRangeScanSeek iterId key out).popRecord iterId = none := by
    rw [DB.popRecord_eq_none_iff, hrefill]
    refine (Function.update_self ..).trans ?_
    show db.values iterId ++ (fetched (scanIo exec iterId db .kvRangeScanSeek
      (scanStart iterId db .kvRangeScanSeek key)) out).2 = []
    rw [hempty, hvalues]
    rfl
  unfold DB.seekScan
  simp only [hnone]
  exact ⟨_, rfl⟩

/-! ## Positions -/

section Positions

variable {scan : SortedScan D} {s s' : MasterIter D} {env : D.Env}
  {es ds : List (Key × Value)} {r e : Key × Value}

/-- The iterator shows `side`, with `es` ahead of it in Main-LSM and the noted
record and those that the scan has still to deliver in `ds`. -/
structure Ahead (scan : SortedScan D) (s : MasterIter D) (side : Side)
    (es ds : List (Key × Value)) : Prop where
  flag : s.kacheFlag = 1
  location : s.iterLocation = side.location
  main : s.iter.rest = es
  key : D.iterKeys s.ilsm s.ilsmIterId = headKey ds
  value : D.iterValues s.ilsm s.ilsmIterId = headValue ds
  pending : scan.Pending s.ilsm s.ilsmIterId ds.tail

theorem Ahead.read_main (h : Ahead scan s .main es ds) : s.read = es.head? := by
  rw [Spec.read_main h.location, h.main]

theorem Ahead.read_dev (h : Ahead scan s .dev es ds) :
    s.read = some (headKey ds, headValue ds) := by
  have hloc : s.iterLocation ≠ 0 := by rw [h.location]; exact nofun
  rw [Spec.read_dev hloc, h.key, h.value]

theorem Ahead.main_next (h : Ahead scan s .main (r :: e :: es) ds) (env : D.Env) :
    ∃ s', s.iteratorNext env = some s' ∧
      if Before (headKey ds) e.1 then Ahead scan s' .dev (e :: es) ds.tail
      else Ahead scan s' .main (e :: es) ds := by
  have hrest : s.iter.next.rest = e :: es := congrArg List.tail h.main
  rw [next_main h.flag h.location h.main, if_neg (List.cons_ne_nil e es), h.key]
  refine ⟨_, rfl, ?_⟩
  have hhead : headKey (e :: es) = e.1 := rfl
  rw [hhead]
  split
  · obtain ⟨hkey, hvalue, hpending⟩ :=
      advanceDev_spec (s := { s with iter := s.iter.next }) scan env h.pending
    exact ⟨h.flag, rfl, hrest, hkey, hvalue, hpending⟩
  · exact ⟨h.flag, h.location, hrest, h.key, h.value, h.pending⟩

/-- `key()` past the last record -/
theorem Ahead.main_last (h : Ahead scan s .main [r] ds) (env : D.Env) :
    s.iteratorNext env = none := by
  rw [next_main h.flag h.location h.main, if_pos rfl]

/-- Main-LSM's record is skipped when the sides change. -/
theorem Ahead.dev_next (h : Ahead scan s .dev (e :: es) ds) (env : D.Env) :
    ∃ s', s.iteratorNext env = some s' ∧
      if Before e.1 (headKey ds.tail) then Ahead scan s' .main es ds.tail
      else Ahead scan s' .dev (e :: es) ds.tail := by
  obtain ⟨hkey, hvalue, hpending⟩ := advanceDev_spec scan env h.pending
  rw [next_dev h.flag h.location h.main, hkey]
  refine ⟨_, rfl, ?_⟩
  split
  · exact ⟨h.flag, rfl, congrArg List.tail h.main, hkey, hvalue, hpending⟩
  · exact ⟨h.flag, h.location, h.main, hkey, hvalue, hpending⟩

theorem Ahead.dev_last (h : Ahead scan s .dev [] ds) (env : D.Env) :
    s.iteratorNext env = none := by
  have hloc : s.iterLocation = 1 := h.location
  simp [MasterIter.iteratorNext, h.flag, hloc, MasterIter.advanceDev, MainIter.key, h.main]

theorem headKey_eq (ds : List (Key × Value)) : headKey ds = (ds.map Prod.fst).headD [] := by
  cases ds <;> rfl

theorem rounds_succ {envs : Nat → D.Env} {n : Nat} (hread : s.read = some r)
    (hnext : s.iteratorNext (envs n) = some s') :
    (s.rounds envs (n + 1)).isSome = (s'.rounds envs n).isSome := by
  rw [MasterIter.rounds, hread, Option.bind_some, hnext, Option.bind_some, Option.isSome_map]

theorem rounds_stuck {envs : Nat → D.Env} {n : Nat} (hread : s.read = some r)
    (hnext : s.iteratorNext (envs n) = none) : s.rounds envs (n + 1) = none := by
  rw [MasterIter.rounds, hread, Option.bind_some, hnext, Option.bind_none]

theorem Ahead.rounds_isSome (envs : Nat → D.Env) : ∀ (n : Nat) {s : MasterIter D} {side : Side}
    {es ds : List (Key × Value)}, Ahead scan s side es ds →
    ((s.rounds envs n).isSome ↔ Lasts n side (es.map Prod.fst) (ds.map Prod.fst)) := by
  intro n
  induction n with
  | zero =>
      intro s side es ds _
      simp [MasterIter.rounds, Lasts]
  | succ n ih =>
      intro s side es ds h
      cases side with
      | main =>
          match es, h with
          | [], h =>
              have hread : s.read = none := h.read_main
              rw [MasterIter.rounds, hread]
              simp [Lasts]
          | [r], h =>
              rw [rounds_stuck h.read_main (h.main_last (envs n))]
              simp [Lasts]
          | r :: e :: es, h =>
              obtain ⟨s', hnext, hahead⟩ := h.main_next (envs n)
              rw [rounds_succ h.read_main hnext]
              simp only [List.map_cons, Lasts, ← headKey_eq, ← List.map_tail]
              split
              · next hbefore =>
                  rw [if_pos hbefore] at hahead
                  exact ih hahead
              · next hbefore =>
                  rw [if_neg hbefore] at hahead
                  exact ih hahead
      | dev =>
          cases es with
          | nil =>
              rw [rounds_stuck h.read_dev (h.dev_last (envs n))]
              simp [Lasts]
          | cons e es =>
              obtain ⟨s', hnext, hahead⟩ := h.dev_next (envs n)
              rw [rounds_succ h.read_dev hnext]
              simp only [List.map_cons, Lasts, ← List.map_tail, ← headKey_eq]
              split
              · next hbefore =>
                  rw [if_pos hbefore] at hahead
                  exact ih hahead
              · next hbefore =>
                  rw [if_neg hbefore] at hahead
                  exact ih hahead

/-- Where `IteratorNext` takes the Main-LSM cursor: it stays or moves by one, and
if a record is left there after it, the call is defined. -/
theorem next_redirected (env : D.Env) {s : MasterIter D} (hflag : s.kacheFlag = 1)
    (hlen : 1 < s.iter.rest.length) :
    ∃ s', s.iteratorNext env = some s' ∧ s'.kacheFlag = 1 ∧
      s.iter.rest.length ≤ s'.iter.rest.length + 1 := by
  obtain ⟨e, es, hrest⟩ := List.exists_cons_of_length_pos (Nat.zero_lt_of_lt hlen)
  have hmoved : s.iter.rest.length ≤ s.iter.next.rest.length + 1 := by
    rw [MainIter.next, List.length_tail]
    omega
  by_cases hzero : s.iterLocation = 0
  · have hes : es ≠ [] := by
      rintro rfl
      simp [hrest] at hlen
    rw [next_main hflag hzero hrest, if_neg hes]
    refine ⟨_, rfl, ?_⟩
    split
    · exact ⟨hflag, hmoved⟩
    · exact ⟨hflag, hmoved⟩
  · by_cases hone : s.iterLocation = 1
    · rw [next_dev hflag hone hrest]
      refine ⟨_, rfl, ?_⟩
      split
      · exact ⟨hflag, hmoved⟩
      · exact ⟨hflag, Nat.le_succ _⟩
    · refine ⟨s, ?_, hflag, by omega⟩
      have hflag' : ¬ s.kacheFlag = 0 := by omega
      unfold MasterIter.iteratorNext
      rw [if_neg hflag', if_neg fun h => hzero h.1, if_neg hone]

/-- With more records from here on than rounds, every round is defined. -/
theorem rounds_redirected (envs : Nat → D.Env) : ∀ (n : Nat) (s : MasterIter D),
    s.kacheFlag = 1 → n < s.iter.rest.length → (s.rounds envs n).isSome := by
  intro n
  induction n with
  | zero => intro s _ _; rfl
  | succ n ih =>
      intro s hflag hlen
      obtain ⟨s', hnext, hflag', hlen'⟩ := next_redirected (envs n) hflag (by omega)
      have hread : s.read.isSome := by
        by_cases hloc : s.iterLocation = 0
        · rw [read_main hloc, List.isSome_head?]
          exact List.ne_nil_of_length_pos (by omega)
        · rw [read_dev hloc]
          rfl
      obtain ⟨r, hr⟩ := Option.isSome_iff_exists.mp hread
      obtain ⟨rs, hrs⟩ := Option.isSome_iff_exists.mp (ih s' hflag' (by omega))
      rw [MasterIter.rounds, hr, Option.bind_some, hnext, Option.bind_some, hrs]
      rfl

theorem rounds_mainOnly (envs : Nat → D.Env) : ∀ (n : Nat) (s : MasterIter D),
    s.kacheFlag = 0 →
    ((s.rounds envs n).isSome ↔ s.iterLocation ≠ 0 ∨ n ≤ s.iter.rest.length) := by
  intro n
  induction n with
  | zero => intro s _; simp [MasterIter.rounds]
  | succ n ih =>
      intro s hflag
      have hrest := ih { s with iter := { s.iter with rest := s.iter.rest.tail } } hflag
      rw [MasterIter.rounds, next_mainOnly hflag]
      by_cases hloc : s.iterLocation = 0
      · rw [read_main hloc]
        cases hcur : s.iter.rest with
        | nil => simp [hloc]
        | cons r rest =>
            rw [hcur] at hrest
            simpa [hloc] using hrest
      · rw [read_dev hloc]
        simpa [hloc] using hrest

theorem seekRandom_isSome {s s' : MasterIter D} {table : List (Key × Value)} {k : Key}
    (envs : Nat → D.Env) (n : Nat)
    (h : (s.iteratorReset (envs (n + 1)) table).iteratorSeek (envs n) k = some s') :
    (s.seekRandom table k envs n).isSome = (s'.rounds envs n).isSome := by
  rw [MasterIter.seekRandom, h, Option.bind_some, Option.isSome_map]

/-- `SeekScan` for the iterator: what it notes first, and what is left. -/
theorem EndingScan.notes (scan : EndingScan D) (env : D.Env) (id : Nat) (k : Key) (st : D.St) :
    ∃ ds flag st', D.seekScan env id k [] st = (flag, headKey ds, headValue ds, st') ∧
      scan.Pending st' id ds.tail ∧ ds.map Prod.fst = notedKeys k (scan.delivers st k) := by
  cases hdelivers : scan.delivers st k with
  | nil =>
      obtain ⟨flag, st', hseek, hpending⟩ := scan.seekEnd env id k [] st hdelivers
      exact ⟨[(k, [])], flag, st', hseek, hpending, rfl⟩
  | cons d ds =>
      obtain ⟨flag, st', hseek, hpending⟩ := scan.seekSome env id k [] st d ds hdelivers
      exact ⟨d :: ds, flag, st', hseek, hpending, rfl⟩

theorem ahead_seek (scan : EndingScan D) (env env' : D.Env) (hflag : s.kacheFlag = 1)
    {table : List (Key × Value)} {k : Key} (hfrom : fromKey Before k table = e :: es) :
    ∃ s' ds, (s.iteratorReset env table).iteratorSeek env' k = some s' ∧
      Ahead scan.toSortedScan s' (if Before (headKey ds) e.1 then .dev else .main) (e :: es) ds ∧
      ds.map Prod.fst = notedKeys k (scan.delivers s.ilsm k) := by
  obtain ⟨ds, flag, st, hseek, hpending, hnoted⟩ := scan.notes env'
    (D.createIter env s.ilsmIterId s.ilsm).2.1 k (D.createIter env s.ilsmIterId s.ilsm).2.2
  rw [scan.delivers_create] at hnoted
  have hstart := seek_eq env env' hflag table k rfl hseek
  rw [hfrom] at hstart
  refine ⟨_, ds, hstart, ⟨hflag, ?_, rfl, D.iterKeys_noteIter .., D.iterValues_noteIter ..,
    scan.note _ _ _ _ _ hpending⟩, hnoted⟩
  by_cases hbefore : Before (headKey ds) e.1
  · have hgt : ¬ sliceCompare e.1 (headKey ds) ≤ 0 := by
      have := lt_sliceCompare.mpr hbefore
      omega
    rw [if_pos hbefore]
    exact if_neg hgt
  · have hle : sliceCompare e.1 (headKey ds) ≤ 0 := by
      have := mt lt_sliceCompare.mp hbefore
      omega
    rw [if_neg hbefore]
    exact if_pos hle

/-- The rounds of `SeekRandom` read valid positions only: with nothing redirected,
if there are no more of them than Main-LSM has records from the seek key on. Else
it depends on where Dev-LSM's keys are among Main-LSM's (`Lasts`); fewer rounds than
records are enough over any driver. -/
theorem seekRandom_defined_iff (table : List (Key × Value)) (k : Key) (n : Nat) :
    (∀ (D : ScanLsm) (scan : EndingScan D) (s : MasterIter D) (envs : Nat → D.Env),
        s.kacheFlag = 1 →
        ((s.seekRandom table k envs n).isSome ↔
          LastsFromSeek n ((fromKey Before k table).map Prod.fst)
            (notedKeys k (scan.delivers s.ilsm k)))) ∧
      (∀ (D : ScanLsm) (s : MasterIter D) (envs : Nat → D.Env), s.kacheFlag = 1 →
        n < (fromKey Before k table).length → (s.seekRandom table k envs n).isSome) ∧
      ∀ (D : ScanLsm) (s : MasterIter D) (envs : Nat → D.Env), s.kacheFlag = 0 →
        ((s.seekRandom table k envs n).isSome ↔
          s.iterLocation ≠ 0 ∨ n ≤ (fromKey Before k table).length) := by
  refine ⟨fun D scan s envs hflag => ?_, fun D s envs hflag hlen => ?_, fun D s envs hflag => ?_⟩
  · cases hfrom : fromKey Before k table with
    | nil =>
        have hseek := seek_eq (envs (n + 1)) (envs n) hflag table k rfl rfl
        rw [hfrom] at hseek
        rw [MasterIter.seekRandom, hseek]
        simp [LastsFromSeek]
    | cons e es =>
        obtain ⟨s', ds, hseek, hahead, hnoted⟩ :=
          ahead_seek scan (envs (n + 1)) (envs n) hflag hfrom
        rw [seekRandom_isSome envs n hseek, hahead.rounds_isSome envs n, headKey_eq, hnoted]
        rfl
  · obtain ⟨e, es, hfrom⟩ := List.exists_cons_of_length_pos (Nat.zero_lt_of_lt hlen)
    have hseek := seek_eq (envs (n + 1)) (envs n) hflag table k rfl rfl
    rw [hfrom] at hseek hlen
    rw [seekRandom_isSome envs n hseek]
    exact rounds_redirected envs n _ hflag hlen
  · rw [seekRandom_isSome envs n (seek_mainOnly hflag (envs (n + 1)) (envs n) table k)]
    exact rounds_mainOnly envs n _ hflag

/-- With 2 redirected between 1 and 3, any number of rounds is defined: the second
one is past the device's last record, and the cursor stays on 3. -/
theorem seekRandom_defined_split :
    ((iterOf splitDev).seekRandom splitMain [0, 0, 0, 0] (fun _ => ()) 5).isSome :=
  ((seekRandom_defined_iff splitMain [0, 0, 0, 0] 5).1 sortedLsm endingScan (iterOf splitDev)
    (fun _ => ()) rfl).mpr (by decide)

/-- Two rounds over 1 and 3 with 9 redirected, and three with nothing redirected. -/
theorem seekRandom_undefined :
    (iterOf [([0, 0, 0, 9], [9])]).seekRandom splitMain [0, 0, 0, 0] (fun _ => ()) 2 = none ∧
      (iterAfter []).seekRandom splitMain [0, 0, 0, 0] (fun _ => ()) 3 = none :=
  ⟨rfl, rfl⟩

end Positions

end Kvaccel.Spec
