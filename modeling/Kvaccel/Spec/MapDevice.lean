import Kvaccel.Ref.Ilsm

/-!
# A device that is a map

The ideal device under `iLSM::DB`: it stages the value log that `V_FLUSH`
sends, applies the records of a `KV_FLUSH` in table order with the values the
staged log has for them, and answers `KV_GET` from the result. Every command
succeeds, and a missing key is the status 0x7C1. Of a value that is longer than
the reply buffer it transfers what the buffer holds; the length it reports is
the value's.

Over it the driver is meant to be a map as well: `ReadsLast` says that every
get in a sequence of calls returns the last put of its key. What the driver
has is a map and a tail of puts that have not reached it, and `split` is that
division of the puts, computed from the calls alone: a batch goes to the
device when it holds 128 puts or an iterator is created.
-/

namespace Kvaccel.Spec

open Kvaccel.Lib Kvaccel.Ref

def applied (m : Key → Option Value) (l : List (Key × Value)) :
    Key → Option Value :=
  l.foldl (fun m r => Function.update m r.1 (some r.2)) m

def lastPut (l : List (Key × Value)) (k : Key) : Option Value :=
  applied (fun _ => none) l k

/-- A record: the key's four bytes, the value's first page, its size. -/
abbrev Entry := Bytes × Nat × Nat

/-- The first `n` records of a table as a reader of the bytes sees them. -/
def parseTable (data : Mem) (n : Nat) : List Entry :=
  (List.range n).map fun j =>
    (data.read (12 * j) 4, data.word (12 * j + 4), data.word (12 * j + 8))

/-- Pages of a value: one for every 4096 bytes begun. -/
def pages (size : Nat) : Nat := (size + 4095) / 4096

def pagesOf (vs : List Value) : Nat := (vs.map fun v => pages v.length).sum

structure MapDevice where
  log : Mem
  logLen : Nat
  map : Key → Option Value

namespace MapDevice

def empty : MapDevice where
  log := fun _ => 0
  logLen := 0
  map := fun _ => none

def valueOf (d : MapDevice) (e : Entry) : Value :=
  d.log.read (4096 * e.2.1) e.2.2

def recordsOf (d : MapDevice) (es : List Entry) : List (Key × Value) :=
  es.map fun e => (e.1, d.valueOf e)

def exec : Device MapDevice := fun cmd d =>
  let ok : IoResult := { err := 0, result := 0, data := cmd.data }
  match cmd.opcode with
  | .vFlush =>
      -- `cdw14` marks the first chunk of a log.
      let base := if cmd.cdw14 = 1 then 0 else d.logLen
      (ok, { d with
        log := d.log.write base (cmd.data.read 0 cmd.cdw13)
        logLen := base + cmd.cdw13 })
  | .kvFlush =>
      (ok, { d with
        map := applied d.map
          (d.recordsOf (parseTable cmd.data (cmd.cdw13 / 12))) })
  | .kvGet =>
      match d.map (le32 cmd.cdw10) with
      | some v =>
          ({ err := 0, result := v.length,
             data := Mem.write (fun _ => 0) 0
               (v.take (min cmd.dataLen ((cmd.cdw12 + 1) * pageSize))) }, d)
      | none => ({ err := 0x7C1, result := 0, data := fun _ => 0 }, d)
  | .kvReset => (ok, { d with map := fun _ => none })
  | _ => (ok, d)

end MapDevice

/-! ## Sequences of calls -/

/-- A call of the driver, with what it finds outside. A get also has the
contents of the caller's string. -/
inductive Call where
  | put (key : Key) (value : Value) (out : Outside)
  | get (key : Key) (value : Value) (out : Outside)
  | createIter (iterId : Nat) (out : Outside)

inductive Reply where
  | put (ret : Int)
  | get (ret : Int) (value : Value)
  | createIter (ret : Int) (iterId : Nat)
deriving DecidableEq

def call {σ : Type} (exec : Device σ) (db : DB σ) : Call → Reply × DB σ
  | .put key value out =>
      let r := db.put exec key value out
      (.put r.1, r.2)
  | .get key value out =>
      let r := db.get exec key value out
      (.get r.1 r.2.1, r.2.2)
  | .createIter iterId out =>
      let r := db.createIter exec iterId out
      (.createIter r.1 r.2.1, r.2.2)

def calls {σ : Type} (exec : Device σ) : DB σ → List Call → List Reply
  | _, [] => []
  | db, c :: cs =>
      let r := call exec db c
      r.1 :: calls exec r.2 cs

/-- The puts made so far: those the device has, and those after them. -/
structure Split where
  flushed : List (Key × Value)
  pending : List (Key × Value)

def splitStep (s : Split) : Call → Split
  | .put key value _ =>
      if s.pending.length + 1 = limitValueBufferEntry then
        ⟨s.flushed ++ (s.pending ++ [(key, value)]), []⟩
      else
        ⟨s.flushed, s.pending ++ [(key, value)]⟩
  | .get _ _ _ => s
  | .createIter _ _ => ⟨s.flushed ++ s.pending, []⟩

def split (cs : List Call) : Split := cs.foldl splitStep ⟨[], []⟩

def putOf : Call → Option (Key × Value)
  | .put key value _ => some (key, value)
  | _ => none

/-- What a get makes of a value of the device. -/
def clipped (v : Value) : Value :=
  v.take maxBufLen ++ List.replicate (v.length - maxBufLen) 0

def reported (value : Value) : Option Value → Reply
  | some v => .get v.length v
  | none => .get (-2) value

/-- Every get returns the last put of its key, and -2 if there was none. -/
def ReadsLast {σ : Type} (exec : Device σ) (db : DB σ) (cs : List Call) : Prop :=
  ∀ i key value out, cs[i]? = some (.get key value out) →
    (calls exec db cs)[i]? =
      some (reported value (lastPut ((cs.take i).filterMap putOf) key))

/-- Four-byte keys, values without NUL and not empty, and allocations that
succeed. -/
def Sound : Call → Prop
  | .put key value out =>
      key.length = 4 ∧ value ≠ [] ∧ (0 : UInt8) ∉ value ∧
        out.valueLog.isSome ∧ out.kvPair.isSome
  | .get key _ out => key.length = 4 ∧ out.data = true
  | .createIter _ _ => True

/-- Every batch fits the value buffer, from `s` on. -/
def BatchesFit : Split → List Call → Prop
  | _, [] => True
  | s, c :: cs =>
      pagesOf ((s.pending ++ (putOf c).toList).map Prod.snd) ≤
        maxValueBufferEntry ∧ BatchesFit (splitStep s c) cs

/-- No get asks for a key whose last put is still pending, unless the device
has the same value for it. -/
def NoPendingRead (cs : List Call) : Prop :=
  ∀ i key value out, cs[i]? = some (.get key value out) →
    lastPut (split (cs.take i)).pending key = none ∨
      lastPut (split (cs.take i)).pending key =
        lastPut (split (cs.take i)).flushed key

/-- Nor for one whose value on the device is longer than the reply buffer. -/
def NoLongRead (cs : List Call) : Prop :=
  ∀ i key value out, cs[i]? = some (.get key value out) →
    ∀ v, lastPut (split (cs.take i)).flushed key = some v → v.length ≤ maxBufLen

end Kvaccel.Spec
