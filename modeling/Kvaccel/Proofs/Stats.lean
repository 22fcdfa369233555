import Kvaccel.Proofs.Driver
import Kvaccel.Spec.Stats

/-!
# Statistics in range

The number of the opcode is the index, and nothing limits it to the size of
`passthru_stat`: the three largest opcodes are past its end. So a run keeps to
the vectors only if it makes no `Report`, which goes through thirteen entries
of nine, and if no flush and no device reset of its own succeeds.

The counts themselves are right. `Tallied` says so of every state of the
driver, with the counters as unbounded numbers, and the rest is arithmetic
about opcodes.
-/

namespace Kvaccel.Spec

open Kvaccel.Lib Kvaccel.Ref Kvaccel.Ref.DB

/-- The counters agree with the log, and no operation has a number above 5. -/
structure Tallied {σ : Type} (db : DB (σ × CmdLog)) : Prop where
  passthru : ∀ i, db.passthruStat i =
    db.device.2.countP fun e => e.2 = 0 ∧ e.1.opcode.code - 0xA0 = i
  op : ∀ i, 6 ≤ i → db.opStat i = 0

section Calls

variable {σ : Type} {exec : Device σ} {db : DB (σ × CmdLog)}

theorem tallied_opened (d : σ) : Tallied (opened (d, ([] : CmdLog))) where
  passthru _ := rfl
  op _ _ := rfl

theorem Tallied.finishOp (h : Tallied db) {n : Nat} (hn : n < 6) : Tallied (db.finishOp n) where
  passthru := h.passthru
  op i hi := by
    show Function.update db.opStat n (db.opStat n + 1) i = 0
    rw [Function.update_of_ne (by omega)]
    exact h.op i hi

/-- One command: counted exactly if it completed. -/
theorem Tallied.nvmePassthru (h : Tallied db) (cmd : NvmeCmd) (result : Nat) :
    Tallied (db.nvmePassthru (logged exec) cmd result).2 := by
  have hlog : ∀ i, List.countP (fun e => e.2 = 0 ∧ e.1.opcode.code - 0xA0 = i)
      (logged exec cmd db.device).2.2 = db.passthruStat i +
        if (exec cmd db.device.1).1.err = 0 ∧ cmd.opcode.code - 0xA0 = i then 1 else 0 := by
    intro i
    rw [h.passthru i]
    simp only [logged, List.countP_append, List.countP_singleton, decide_eq_true_eq]
  by_cases hok : (logged exec cmd db.device).1.err = 0
  · rw [nvmePassthru_ok hok]
    refine ⟨fun i => ?_, h.op⟩
    refine Eq.trans ?_ (hlog i).symm
    have hput : NvmeOpcode.kvPut.code = 0xA0 := rfl
    simp only [finishPassthru, hput]
    by_cases hi : cmd.opcode.code - 0xA0 = i
    · rw [if_pos ⟨hok, hi⟩, hi, Function.update_self]
    · rw [if_neg fun hboth => hi hboth.2, Function.update_of_ne (Ne.symm hi), Nat.add_zero]
  · unfold DB.nvmePassthru
    rw [if_neg fun hboth => hok hboth.1]
    refine ⟨fun i => ?_, h.op⟩
    refine Eq.trans ?_ (hlog i).symm
    rw [if_neg fun hboth => hok hboth.1, Nat.add_zero]

variable (exec) in
theorem persists_tallied : Persists (logged exec) (fun _ => True) (@Tallied σ) where
  host h _ hop hpass hdev := by
    refine ⟨fun i => ?_, fun i hi => ?_⟩
    · rw [hpass, hdev, h.passthru]
    · rw [hop, h.op i hi]
  finishOp hn h := h.finishOp hn
  command _ h := h.nvmePassthru _ _

theorem Tallied.rebuffer (bip : BufferingInfo) (h : Tallied db) :
    Tallied { db with bufferingInfo := bip } :=
  ⟨h.passthru, h.op⟩

/-! ## Runs -/

theorem Tallied.leftBy (h : Tallied db) (c : ScanCall) :
    Tallied (leftBy (logged exec) db c) := by
  have hpersists := persists_tallied exec
  unfold Spec.leftBy
  cases hthrow : scanThrow (logged exec) db c with
  | some db' => exact hpersists.scanThrow trivial trivial h hthrow
  | none =>
      cases c with
      | createIter iterId out =>
          exact hpersists.createIter Tallied.rebuffer trivial trivial trivial iterId out h
      | seekScan iterId key value out => exact hpersists.seekScan trivial iterId key value out h
      | nextScan iterId key value out => exact hpersists.nextScan trivial iterId key value out h
      | destroyIter iterId out => exact hpersists.destroyIter trivial iterId out h
      | reset out => exact hpersists.reset trivial out h

theorem Tallied.driverCall (h : Tallied db) (last : σ → IoResult × σ) (c : DriverCall) :
    Tallied (driverCall (logged exec) (loggedLast last) db c) := by
  have hpersists := persists_tallied exec
  cases c with
  | put key value out => exact hpersists.put Tallied.rebuffer trivial trivial key value out h
  | get key value out =>
      rw [Spec.driverCall]
      cases hthrow : db.getThrow (logged exec) key out with
      | some db' => exact hpersists.getThrow trivial h hthrow
      | none => exact hpersists.get trivial key value out h
  | scan c => exact h.leftBy c
  | report => exact ⟨h.passthru, h.op⟩

variable (exec) in
theorem tallied_statsAfter (last : σ → IoResult × σ) (d : σ) (cs : List DriverCall) :
    Tallied (statsAfter exec last d cs) := by
  suffices hrun : ∀ (cs : List DriverCall) {db : DB (σ × CmdLog)}, Tallied db →
      Tallied (driverCalls (logged exec) (loggedLast last) db cs) from
    hrun cs (tallied_opened d)
  intro cs
  induction cs with
  | nil => intro db h; exact h
  | cons c cs ih => intro db h; exact ih (h.driverCall last c)

end Calls

/-! ## Opcodes and indices -/

theorem code_sub_inj {op op' : NvmeOpcode} : op.code - 0xA0 = op'.code - 0xA0 ↔ op = op' := by
  constructor
  · cases op <;> cases op' <;> decide
  · intro h
    rw [h]

/-- The opcodes past the end of `passthru_stat`. -/
def unplaced : List NvmeOpcode := [.kvReset, .vFlush, .kvFlush]

theorem code_sub_lt_iff (op : NvmeOpcode) :
    op.code - 0xA0 < passthruStatSize ↔ op ∉ unplaced := by
  cases op <;> decide

theorem asInt_u32_eq_iff (n : Nat) : asInt (u32 n) = n ↔ n < 2 ^ 31 := by
  unfold asInt u32
  split <;> omega

section Tally

variable {σ : Type} {db : DB (σ × CmdLog)}

theorem Tallied.completed (h : Tallied db) (op : NvmeOpcode) :
    db.passthruStat (op.code - 0xA0) = Spec.completed db.device.2 op := by
  rw [h.passthru, Spec.completed]
  refine List.countP_congr fun e _ => ?_
  rw [decide_eq_true_iff, decide_eq_true_iff, code_sub_inj]

/-- A counter that is not zero belongs to an opcode that completed. -/
theorem Tallied.exists_of_ne_zero (h : Tallied db) {i : Nat} (hi : db.passthruStat i ≠ 0) :
    ∃ op : NvmeOpcode, op.code - 0xA0 = i ∧ Spec.completed db.device.2 op ≠ 0 := by
  have hpos := hi
  rw [h.passthru, Nat.ne_zero_iff_zero_lt, List.countP_pos_iff] at hpos
  obtain ⟨e, _, he⟩ := hpos
  obtain ⟨_, hcode⟩ := decide_eq_true_eq.mp he
  refine ⟨e.1.opcode, hcode, ?_⟩
  rw [← h.completed, hcode]
  exact hi

end Tally

/-- Statistics stay in range and exact if no `Report` is made, no command past
the end of `passthru_stat` succeeds and no count leaves `int`; and only then. -/
theorem statsSound_iff {σ : Type} (exec : Device σ) (last : σ → IoResult × σ) (d : σ)
    (cs : List DriverCall) :
    StatsSound (statsAfter exec last d cs) cs ↔
      .report ∉ cs ∧
      (∀ op ∈ unplaced, completed (statsAfter exec last d cs).device.2 op = 0) ∧
      ∀ op, completed (statsAfter exec last d cs).device.2 op < 2 ^ 31 := by
  have htallied := tallied_statsAfter exec last d cs
  constructor
  · intro h
    refine ⟨fun hreport => ?_, fun op hop => ?_, fun op => ?_⟩
    · exact absurd (h.passthru 9 (Or.inr ⟨hreport, by decide⟩)) (by decide)
    · by_contra hne
      have hlt := h.passthru _ (Or.inl (htallied.completed op ▸ hne))
      exact (code_sub_lt_iff op).mp hlt hop
    · rw [← asInt_u32_eq_iff, ← h.count op, htallied.completed op]
  · rintro ⟨hreport, hunplaced, hcount⟩
    refine ⟨?_, ?_, ?_⟩
    · rintro i (hi | ⟨hmem, _⟩)
      · by_contra hge
        exact hi (htallied.op i (by unfold opStatSize at hge; omega))
      · exact absurd hmem hreport
    · rintro i (hi | ⟨hmem, _⟩)
      · obtain ⟨op, rfl, hne⟩ := htallied.exists_of_ne_zero hi
        exact (code_sub_lt_iff op).mpr fun hop => hne (hunplaced op hop)
      · exact absurd hmem hreport
    · intro op
      rw [htallied.completed op]
      exact (asInt_u32_eq_iff _).mpr (hcount op)

/-- The calls on an empty device, `Report`'s command included. -/
def mapStats (cs : List DriverCall) : DB (MapDevice × CmdLog) :=
  statsAfter MapDevice.exec (fun d => ({ err := 0, result := 0, data := fun _ => 0 }, d))
    MapDevice.empty cs

def resetOnly : List DriverCall := [.scan (.reset .fine)]

def putAndIter : List DriverCall :=
  [.put [97, 97, 97, 97] [1] .fine, .scan (.createIter 0 .fine)]

/-- A reset writes the entry 10 of 9, a put and an iterator the entries 11 and
12, and a report reads the entry 9. -/
theorem statistics_overrun :
    (mapStats resetOnly).passthruStat 10 = 1 ∧
      (mapStats putAndIter).passthruStat 11 = 1 ∧ (mapStats putAndIter).passthruStat 12 = 1 ∧
      ¬ StatsSound (mapStats resetOnly) resetOnly ∧
      ¬ StatsSound (mapStats putAndIter) putAndIter ∧
      ¬ StatsSound (mapStats [.report]) [.report] := by
  refine ⟨by decide, by decide, by decide, fun h => ?_, fun h => ?_, fun h => ?_⟩
  · exact absurd (h.passthru 10 (Or.inl (by decide))) (by decide)
  · exact absurd (h.passthru 11 (Or.inl (by decide))) (by decide)
  · exact absurd (h.passthru 9 (Or.inr ⟨List.mem_singleton_self _, by decide⟩)) (by decide)

end Kvaccel.Spec
