import Kvaccel.Ref.Commands
import Kvaccel.Ref.Iterator

/-!
# db_bench's `SeekRandom` beside the other threads (`db_bench_tool.cc`)

The loop that uses the composite iterator, one access at a time like the
clients and the rollback thread. Every round creates an iterator of the device
(`IteratorReset`), seeks, compares and makes `seek_nexts` moves; after the last
round one `DestroyIter` follows. None of these calls takes a lock, so the
other threads go on between any two of its accesses.

`ilsm_iter_id` and `iter_location` are members of `DB_MASTER` that this thread
alone uses. The constructor does not set them. The flags of the benchmark are
those of a forward scan over one database without tailing iterators. A call
that is not interrupted is the call of `Ref/Iterator.lean` (`alone_reset`,
`alone_seek`, `alone_next`).
-/

namespace Kvaccel.Ref

open Kvaccel.Lib

/-- `MAX_ITERATOR_NUM`, and `MAX_ITER_NUM` of the header. -/
def maxIteratorNum : Nat := 10

/-- Where the loop stands, with the arguments and results it still needs; `n`
counts the moves left in the round. -/
inductive SeekPc where
  /-- `while (!duration.Done(1))` -/
  | round
  | resetKache (key : Key)
  | resetCreate (key : Key) (pc : IlsmPc)
  | seekKache (key : Key)
  | seekScan (key : Key)
  | seekNote (key targetKey : Key) (value : Value)
  | compare (key : Key)
  | nexts (n : Nat)
  | nextKache (n : Nat)
  | nextBranch (n : Nat)
  /-- `NextScan`, after a move of the Main-LSM cursor or on the device's turn. -/
  | nextScan (n : Nat) (moved : Bool)
  | nextNote (n : Nat) (moved : Bool) (key : Key) (value : Value)
  | destroy
  | done
deriving DecidableEq

structure SeekRandom where
  pc : SeekPc
  found : Nat
  /-- `iter_to_use_master[0]` -/
  iter : MainIter
  ilsmIterId : Nat
  iterLocation : Nat

section Step

variable {σ : Type} (exec : Device σ) (seekNexts : Nat)

namespace SeekRandom

/-- The next access. There is none where `key()` or `value()` of an iterator
that is not valid would be read. -/
def step (out : Outside) (kacheFlag : Int) (db : DB σ) (b : SeekRandom) :
    Option (DB σ × SeekRandom) :=
  match b.pc with
  | .round => none
  | .resetKache key =>
      some (db, { b with
        pc := if kacheFlag = 1 then .resetCreate key .createIter else .seekKache key })
  | .resetCreate key pc =>
      let r := ilsmStep exec out pc b.ilsmIterId db
      some (r.2.2, { b with
        ilsmIterId := r.2.1
        pc := match r.1 with
          | some pc => .resetCreate key pc
          | none => .seekKache key })
  | .seekKache key =>
      some (db, { b with
        iter := b.iter.seek key
        pc := if kacheFlag = 1 then .seekScan key else .compare key })
  | .seekScan key =>
      let r := db.seekScan exec b.ilsmIterId key [] out
      some (r.2.2.2, { b with pc := .seekNote key r.2.1 r.2.2.1 })
  | .seekNote key targetKey value =>
      b.iter.key.map fun mainKey => (db.noteIter b.ilsmIterId targetKey value, { b with
        iterLocation := if sliceCompare mainKey targetKey ≤ 0 then 0 else 1
        pc := .compare key })
  | .compare key =>
      let same := b.iter.key.any (fun mainKey => sliceCompare mainKey key = 0) ||
        kacheFlag = 1 ∧ sliceCompare key (db.iterKeys b.ilsmIterId) = 0
      some (db, { b with found := if same then b.found + 1 else b.found, pc := .nexts seekNexts })
  | .nexts 0 => some (db, { b with pc := .round })
  | .nexts (n + 1) =>
      -- `IteratorValue` and `IteratorKey`
      if b.iterLocation = 0 then b.iter.key.map fun _ => (db, { b with pc := .nextKache n })
      else some (db, { b with pc := .nextKache n })
  | .nextKache n =>
      if kacheFlag = 0 then
        some (db, { b with
          iter := if b.iter.valid then b.iter.next else b.iter
          pc := .nexts n })
      else
        some (db, { b with pc := .nextBranch n })
  | .nextBranch n =>
      if b.iterLocation = 0 ∧ b.iter.valid then
        b.iter.next.key.map fun mainKey => (db, { b with
          iter := b.iter.next
          pc := if sliceCompare mainKey (db.iterKeys b.ilsmIterId) > 0 then .nextScan n true
            else .nexts n })
      else
        some (db, { b with pc := if b.iterLocation = 1 then .nextScan n false else .nexts n })
  | .nextScan n moved =>
      let r := db.nextScan exec b.ilsmIterId [] [] out
      some (r.2.2.2, { b with pc := .nextNote n moved r.2.1 r.2.2.1 })
  | .nextNote n true key value =>
      some (db.noteIter b.ilsmIterId key value, { b with iterLocation := 1, pc := .nexts n })
  | .nextNote n false key value =>
      b.iter.key.map fun mainKey => (db.noteIter b.ilsmIterId key value,
        if sliceCompare mainKey key < 0 then
          { b with iter := b.iter.next, iterLocation := 0, pc := .nexts n }
        else
          { b with pc := .nexts n })
  | .destroy =>
      some ((db.destroyIter exec b.ilsmIterId out).2, { b with pc := .done })
  | .done => none

end SeekRandom

/-- The loop and the threads, over the same driver. -/
structure BenchState (T : Type) (exec : Device σ) where
  threads : State T (ilsmDev exec)
  seek : SeekRandom

inductive BenchAct (T : Type) (exec : Device σ) where
  | threads (act : Act T (ilsmDev exec))
  /-- Another round, with the table that the new iterator walks and the key. -/
  | round (table : List (Key × Value)) (key : Key)
  | leave
  | seek (out : Outside)

namespace BenchState

variable {T : Type} [DecidableEq T] {exec} (murmur : Murmur)

def device (s : BenchState T exec) : σ := DB.device s.threads.sh.dev

def setDb (s : BenchState T exec) (db : DB σ) : State T (ilsmDev exec) :=
  { s.threads with sh := { s.threads.sh with dev := db } }

def step (s : BenchState T exec) : BenchAct T exec → Option (BenchState T exec)
  | .threads act => (s.threads.step murmur act).map fun threads => { s with threads }
  | .round table key =>
      if s.seek.pc = .round then
        some { s with seek := { s.seek with iter := .new table, pc := .resetKache key } }
      else none
  | .leave =>
      if s.seek.pc = .round then some { s with seek := { s.seek with pc := .destroy } } else none
  | .seek out =>
      (s.seek.step exec seekNexts out s.threads.sh.kacheFlag s.threads.sh.dev).map fun r =>
        { threads := s.setDb r.1, seek := r.2 }

/-- Before the first round, with whatever is in the two members. -/
def opened (main : Key → Option Value) (d : σ) (ilsmIterId iterLocation : Nat) :
    BenchState T exec where
  threads := State.opened main (DB.opened d : DB σ)
  seek := { pc := .round, found := 0, iter := .new [], ilsmIterId, iterLocation }

end BenchState

end Step

/-! ## A call that is not interrupted -/

namespace SeekRandom

section Alone

variable {σ : Type} (exec : Device σ) (seekNexts : Nat) (out : Outside) (kacheFlag : Int)

/-- `k` accesses of the loop, with nothing in between. -/
def alone : Nat → DB σ × SeekRandom → Option (DB σ × SeekRandom)
  | 0, r => some r
  | k + 1, r => (step exec seekNexts out kacheFlag r.1 r.2).bind (alone k)

/-- What the calls of the composite iterator work on. -/
def master (db : DB σ) (b : SeekRandom) : MasterIter (ilsmScan exec) where
  kacheFlag := kacheFlag
  iter := b.iter
  ilsm := db
  ilsmIterId := b.ilsmIterId
  iterLocation := b.iterLocation

/-- The loop after such a call, at `pc`. -/
def after (b : SeekRandom) (pc : SeekPc) (m : MasterIter (ilsmScan exec)) : DB σ × SeekRandom :=
  (m.ilsm, { b with
    iter := m.iter, ilsmIterId := m.ilsmIterId, iterLocation := m.iterLocation, pc := pc })

variable {exec seekNexts out kacheFlag} {db : DB σ} {b : SeekRandom} {key : Key}

/-- On the device's turn, the cursor is compared with the key just fetched. -/
theorem iteratorNext_dev {D : ScanLsm} {env : D.Env} {m : MasterIter D} (hkache : m.kacheFlag ≠ 0)
    (hdev : m.iterLocation = 1) :
    m.iteratorNext env = m.iter.key.map fun mainKey =>
      if sliceCompare mainKey (D.nextScan env m.ilsmIterId [] [] m.ilsm).2.1 < 0 then
        { m.advanceDev env with iter := m.iter.next, iterLocation := 0 }
      else
        m.advanceDev env := by
  have hmain : ¬ (m.iterLocation = 0 ∧ m.iter.valid = true) := by omega
  rw [MasterIter.iteratorNext, if_neg hkache, if_neg hmain, if_pos hdev]
  simp only [MasterIter.advanceDev, D.iterKeys_noteIter]

theorem alone_step {r : DB σ × SeekRandom}
    (h : step exec seekNexts out kacheFlag db b = some r) (k : Nat) :
    alone exec seekNexts out kacheFlag (k + 1) (db, b) =
      alone exec seekNexts out kacheFlag k r := by
  rw [alone, h, Option.bind_some]

theorem alone_one : alone exec seekNexts out kacheFlag 1 (db, b) =
    step exec seekNexts out kacheFlag db b := by
  rw [alone]
  cases step exec seekNexts out kacheFlag db b <;> rfl

theorem alone_add {j : Nat} {r r' : DB σ × SeekRandom}
    (h : alone exec seekNexts out kacheFlag j r = some r') (k : Nat) :
    alone exec seekNexts out kacheFlag (j + k) r =
      alone exec seekNexts out kacheFlag k r' := by
  induction j generalizing r with
  | zero =>
      cases h
      rw [Nat.zero_add]
  | succ j ih =>
      obtain ⟨r₁, hstep, hrest⟩ := Option.bind_eq_some_iff.mp h
      rw [Nat.succ_add, alone, hstep, Option.bind_some]
      exact ih hrest

theorem alone_create : ∀ (fuel : Nat) {pc : IlsmPc} {db : DB σ} {b : SeekRandom} {r : Nat × DB σ},
    b.pc = .resetCreate key pc → runPc exec out fuel pc b.ilsmIterId db = some r →
    ∃ k, alone exec seekNexts out kacheFlag k (db, b) =
      some (r.2, { b with ilsmIterId := r.1, pc := .seekKache key }) := by
  intro fuel
  induction fuel with
  | zero => intro pc db b r _ hrun; cases hrun
  | succ fuel ih =>
      intro pc db b r hpc hrun
      rw [runPc] at hrun
      split at hrun
      · next iterId db' hstep =>
          cases hrun
          refine ⟨1, ?_⟩
          simp only [alone, step, hpc, hstep, Option.bind_some]
      · next pc' iterId db' hstep =>
          obtain ⟨k, hk⟩ := ih (b := { b with ilsmIterId := iterId, pc := .resetCreate key pc' })
            rfl hrun
          refine ⟨k + 1, ?_⟩
          simp only [alone, step, hpc, hstep, Option.bind_some]
          exact hk

theorem alone_reset (hpc : b.pc = .resetKache key)
    (hwrap : db.bufferingInfo.valueLogOffset * limitValueBufferEntry < 4294967296)
    (table : List (Key × Value)) :
    ∃ k, alone exec seekNexts out kacheFlag k (db, { b with iter := .new table }) =
      some (b.after exec (.seekKache key)
        ((b.master exec kacheFlag db).iteratorReset out table)) := by
  by_cases hkache : kacheFlag = 1
  · have hcreate : runPc exec out _ .createIter b.ilsmIterId db =
        some (db.createIter exec b.ilsmIterId out).2 :=
      runPc_createIter rfl hwrap (Nat.le_refl _)
    obtain ⟨k, hk⟩ : ∃ k, alone exec seekNexts out kacheFlag k
        (db, { b with iter := .new table, pc := .resetCreate key .createIter }) = _ :=
      alone_create _ rfl hcreate
    refine ⟨k + 1, ?_⟩
    simp only [alone, step, hpc, hkache, ↓reduceIte, Option.bind_some, master,
      MasterIter.iteratorReset] at hk ⊢
    exact hk
  · refine ⟨1, ?_⟩
    simp only [alone, step, hpc, hkache, ↓reduceIte, Option.bind_some, after, master,
      MasterIter.iteratorReset]

theorem alone_seek (hpc : b.pc = .seekKache key) :
    ∃ k, alone exec seekNexts out kacheFlag k (db, b) =
      ((b.master exec kacheFlag db).iteratorSeek out key).map (b.after exec (.compare key)) := by
  by_cases hkache : kacheFlag = 1
  · refine ⟨3, ?_⟩
    simp only [alone, step, hpc, hkache, ↓reduceIte, Option.bind_some, master,
      MasterIter.iteratorSeek]
    cases (b.iter.seek key).key <;> rfl
  · refine ⟨1, ?_⟩
    simp only [alone, step, hpc, hkache, ↓reduceIte, Option.bind_some, master,
      MasterIter.iteratorSeek]
    rfl

/-- From the test of `kache_flag` on; a move makes up to three accesses more. -/
theorem alone_next {n : Nat} (hpc : b.pc = .nextKache n) :
    ∃ k, alone exec seekNexts out kacheFlag k (db, b) =
      ((b.master exec kacheFlag db).iteratorNext out).map (b.after exec (.nexts n)) := by
  by_cases hkache : kacheFlag = 0
  · refine ⟨1, ?_⟩
    simp only [alone_one, step, hpc, hkache, ↓reduceIte, master, MasterIter.iteratorNext]
    split <;> rfl
  have htest : step exec seekNexts out kacheFlag db b =
      some (db, { b with pc := .nextBranch n }) := by
    simp only [step, hpc, hkache, ↓reduceIte]
  by_cases hmain : b.iterLocation = 0 ∧ b.iter.valid = true
  · simp only [master, MasterIter.iteratorNext, hkache, hmain, and_self, ↓reduceIte]
    cases hkey : b.iter.next.key with
    | none =>
        refine ⟨2, ?_⟩
        rw [alone_step htest, alone_one]
        simp only [step, hmain, and_self, hkey, ↓reduceIte, Option.map_none]
    | some mainKey =>
        by_cases hpast : sliceCompare mainKey (db.iterKeys b.ilsmIterId) > 0
        · have hmove : step exec seekNexts out kacheFlag db { b with pc := .nextBranch n } =
              some (db, { b with iter := b.iter.next, pc := .nextScan n true }) := by
            simp only [step, hmain, and_self, hkey, hpast, ↓reduceIte, Option.map_some]
          refine ⟨4, ?_⟩
          rw [alone_step htest, alone_step hmove, alone_step rfl, alone_one, Option.map_some,
            if_pos (show sliceCompare mainKey ((ilsmScan exec).iterKeys db b.ilsmIterId) > 0
              from hpast)]
          rfl
        · refine ⟨2, ?_⟩
          rw [alone_step htest, alone_one, Option.map_some,
            if_neg (show ¬ sliceCompare mainKey ((ilsmScan exec).iterKeys db b.ilsmIterId) > 0
              from hpast)]
          simp only [step, hmain, and_self, hkey, hpast, ↓reduceIte, Option.map_some]
          rfl
  · by_cases hdev : b.iterLocation = 1
    · have hturn : step exec seekNexts out kacheFlag db { b with pc := .nextBranch n } =
          some (db, { b with pc := .nextScan n false }) := by
        simp only [step]
        rw [if_neg hmain, if_pos hdev]
      have hnext : (b.master exec kacheFlag db).iteratorNext out = _ :=
        iteratorNext_dev hkache hdev
      refine ⟨4, ?_⟩
      rw [alone_step htest, alone_step hturn, alone_step rfl, alone_one, hnext, Option.map_map]
      refine Option.map_congr fun mainKey _ => ?_
      show (_, if sliceCompare mainKey (db.nextScan exec b.ilsmIterId [] [] out).2.1 < 0 then _
        else _) = after exec b _
          (if sliceCompare mainKey (db.nextScan exec b.ilsmIterId [] [] out).2.1 < 0 then _ else _)
      by_cases hbehind : sliceCompare mainKey (db.nextScan exec b.ilsmIterId [] [] out).2.1 < 0
      · rw [if_pos hbehind, if_pos hbehind]
        rfl
      · rw [if_neg hbehind, if_neg hbehind]
        rfl
    · refine ⟨2, ?_⟩
      rw [alone_step htest, alone_one]
      simp only [master, MasterIter.iteratorNext, step, hkache, hmain, hdev, ↓reduceIte]
      rfl

end Alone

end SeekRandom

end Kvaccel.Ref
