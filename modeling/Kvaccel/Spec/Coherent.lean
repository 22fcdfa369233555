import Kvaccel.Ref.Commands
import Kvaccel.Spec.MapDevice

/-!
# Flag, tracker and device in step

What the routing layer relies on between any two steps of any threads: where
`kache_flag` is 0 there is nothing in Dev-LSM to look for, and a tracked key
has a record to be found, in the host's put buffer or on the device.

Of the device only the records matter, by their four key bytes. A
`RecordDevice` keeps what `KV_FLUSH` sends until `KV_RESET` and is free in
everything else: what it answers to gets and scans, with which status, and how
it keeps the values.
-/

namespace Kvaccel.Spec

open Kvaccel.Lib Kvaccel.Ref

/-- The commands that neither store nor erase a record. -/
def leavesRecords : NvmeOpcode → Bool
  | .kvPut | .kvDelete | .kvFlush | .kvReset => false
  | _ => true

structure RecordDevice (σ : Type) where
  exec : Device σ
  /-- There is a record under these four bytes. -/
  has : σ → Bytes → Prop
  flush : ∀ cmd d k, cmd.opcode = .kvFlush →
    (has (exec cmd d).2 k ↔
      has d k ∨ k ∈ (parseTable cmd.data (cmd.cdw13 / 12)).map Prod.fst)
  reset : ∀ cmd d k, cmd.opcode = .kvReset → ¬ has (exec cmd d).2 k
  keep : ∀ cmd d k, leavesRecords cmd.opcode = true → (has (exec cmd d).2 k ↔ has d k)

/-- The key bytes of the records in the put buffer, as the table has them. -/
def bufferKeys (bip : BufferingInfo) : List Bytes :=
  (parseTable bip.kvPair bip.kvPairOffset).map Prod.fst

section Threads

variable {T σ : Type} (dev : RecordDevice σ)

abbrev driver (s : State T (ilsmDev dev.exec)) : DB σ := s.sh.dev

structure Coherent (s : State T (ilsmDev dev.exec)) : Prop where
  /-- `kache_flag` is 0 over empty stores only. -/
  idle : s.sh.kacheFlag = 0 →
    s.sh.keyTracker.entries = [] ∧
      (driver dev s).bufferingInfo.kvPairOffset = 0 ∧
      (driver dev s).bufferingInfo.bufferingCnt = 0 ∧
      ∀ k, ¬ dev.has (driver dev s).device k
  /-- A tracked key has a record, unless someone holds `rollback_mtx`. -/
  tracked : s.sh.rollbackMtx.writer = none → ∀ e ∈ s.sh.keyTracker.entries,
    firstFour e.2 ∈ bufferKeys (driver dev s).bufferingInfo ∨
      dev.has (driver dev s).device (firstFour e.2)

/-- A redirected put that needs fresh buffers gets both. -/
def AllocOk (s : State T (ilsmDev dev.exec)) : Act T (ilsmDev dev.exec) → Prop
  | .client t out =>
      ∀ k v k' v', s.clients t = .redPut k v (.buffering k' v') →
        (driver dev s).bufferingInfo.isInitRequired = true →
        out.valueLog.isSome ∧ out.kvPair.isSome
  | _ => True

end Threads

theorem applied_isSome (l : List (Key × Value)) (m : Key → Option Value) (k : Key) :
    (applied m l k).isSome ↔ (m k).isSome ∨ k ∈ l.map Prod.fst := by
  induction l generalizing m with
  | nil => simp [applied]
  | cons r l ih =>
      have hcons : applied m (r :: l) = applied (Function.update m r.1 (some r.2)) l := rfl
      rw [hcons, ih, List.map_cons, List.mem_cons]
      by_cases hk : k = r.1
      · subst hk
        simp
      · rw [Function.update_of_ne hk]
        simp [hk]

/-- The ideal device is one. -/
def mapRecords : RecordDevice MapDevice where
  exec := MapDevice.exec
  has := fun d k => (d.map k).isSome
  flush := by
    intro cmd d k h
    simp only [MapDevice.exec, h, applied_isSome, MapDevice.recordsOf, List.map_map]
    rfl
  reset := by
    intro cmd d k h
    simp only [MapDevice.exec, h]
    exact nofun
  keep := by
    intro cmd d k h
    unfold MapDevice.exec
    cases hop : cmd.opcode with
    | kvGet =>
        simp only []
        split <;> rfl
    | _ => first | rfl | (rw [hop] at h; cases h)

end Kvaccel.Spec
