import Kvaccel.Proofs.ScanOrder
import Kvaccel.Spec.Scans

/-!
# Failed scan commands

The breakpoint is what `RangeScan` returns, and that is `next`. A command that
succeeds assigns it the device's result. One that fails returns before that, or,
with a status that is not tested for, goes on with a `result` that no one has
assigned. So the breakpoint after any failure is what was on the stack, and the
two runs that differ there part at the first one.
-/

namespace Kvaccel.Ref

open Kvaccel.Lib Kvaccel.Spec

namespace DB

/-! ## A command that succeeds -/

section Success

variable {σ : Type} {exec : Device σ} {iterId : Nat} {db : DB σ} {out out' : Outside}
  (hout : out.data = true) (hout' : out'.data = true)

include hout hout'

/-- Neither local is read. -/
theorem bulkyScan_congr {isSeek : NvmeOpcode} {start : Nat} (next next' : Nat)
    (hok : (scanIo exec iterId db isSeek start).err = 0) :
    db.bulkyScan exec isSeek iterId start next out =
      db.bulkyScan exec isSeek iterId start next' out' := by
  have hcmd : ∀ result, db.nvmePassthru exec (scanCmd isSeek start iterId) result = _ :=
    fun result => nvmePassthru_ok hok
  unfold scanIo at hok
  unfold scanCmd at hcmd hok
  simp [bulkyScan, hcmd, hok, hout, hout']

theorem refill_congr (db : DB σ) {isSeek : NvmeOpcode} {key : Bytes}
    (hok : (scanIo exec iterId db isSeek (scanStart iterId db isSeek key)).err = 0) :
    db.refill exec isSeek iterId key out = db.refill exec isSeek iterId key out' := by
  have hbulk := bulkyScan_congr hout hout' out.next out'.next hok
  unfold refill rangeScan doBulkyScan doBulkyNextScan
  unfold scanStart at hbulk
  by_cases hop : isSeek = .kvRangeScanSeek
  · simp only [if_pos hop] at hbulk ⊢
    rw [hbulk]
  · simp only [if_neg hop] at hbulk ⊢
    rw [hbulk]

theorem seekScan_congr {key : Bytes} (value : Bytes)
    (hok : (scanIo exec iterId db .kvRangeScanSeek
      (scanStart iterId db .kvRangeScanSeek key)).err = 0) :
    db.seekScan exec iterId key value out = db.seekScan exec iterId key value out' := by
  have hrefill := refill_congr hout hout'
    { db with scanCnt := Function.update db.scanCnt iterId 1 } hok
  unfold seekScan
  simp only [hrefill]

theorem nextScan_congr (key value : Bytes)
    (hok : (scanIo exec iterId db .kvRangeScanNext
      (scanStart iterId db .kvRangeScanNext [])).err = 0) :
    db.nextScan exec iterId key value out = db.nextScan exec iterId key value out' := by
  have hrefill := refill_congr hout hout' db hok
  unfold nextScan
  simp only [hrefill]

end Success

/-! ## The breakpoint -/

section Breakpoint

variable {σ : Type} (exec : Device σ) {iterId : Nat}

theorem popRecord_brkPointKey {db db' : DB σ} {k v : Bytes}
    (h : db.popRecord iterId = some (k, v, db')) : db'.brkPointKey = db.brkPointKey := by
  unfold popRecord at h
  split at h
  · cases h
  · cases h
    rfl

theorem refill_brkPointKey (iterId : Nat) (db : DB σ) (isSeek : NvmeOpcode) (key : Bytes)
    (out : Outside) :
    (db.refill exec isSeek iterId key out).brkPointKey iterId =
      nextAfter (scanIo exec iterId db isSeek (scanStart iterId db isSeek key)) out := by
  obtain ⟨stat, cnt, hrefill⟩ := refill_eq exec iterId db isSeek key out rfl
  rw [hrefill]
  exact Function.update_self ..

theorem seekScan_brkPointKey (db : DB σ) (key value : Bytes) (out : Outside) :
    (db.seekScan exec iterId key value out).2.2.2.brkPointKey iterId =
      nextAfter (scanIo exec iterId db .kvRangeScanSeek
        (scanStart iterId db .kvRangeScanSeek key)) out := by
  have hrefill := refill_brkPointKey exec iterId
    { db with scanCnt := Function.update db.scanCnt iterId 1 } .kvRangeScanSeek key out
  unfold seekScan
  simp only []
  split
  · next hpop => exact (congrFun (popRecord_brkPointKey hpop) iterId).trans hrefill
  · exact hrefill

theorem nextScan_brkPointKey (db : DB σ) (hnil : db.values iterId = [])
    (hmore : db.brkPointKey iterId ≠ noNextKey) (key value : Bytes) (out : Outside) :
    (db.nextScan exec iterId key value out).2.2.2.brkPointKey iterId =
      nextAfter (scanIo exec iterId db .kvRangeScanNext
        (scanStart iterId db .kvRangeScanNext [])) out := by
  have hrefill := refill_brkPointKey exec iterId db .kvRangeScanNext [] out
  have hnone : db.popRecord iterId = none := popRecord_eq_none_iff.mpr hnil
  unfold nextScan
  rw [hnone]
  simp only [if_neg hmore]
  split
  · next hpop => exact (congrFun (popRecord_brkPointKey hpop) iterId).trans hrefill
  · exact hrefill

/-- A call that does not get to `RangeScan` has none of the locals. -/
theorem nextScan_quiet {exec : Device σ} (db : DB σ)
    (hquiet : ¬ (db.values iterId = [] ∧ db.brkPointKey iterId ≠ noNextKey)) (key value : Bytes)
    (out out' : Outside) :
    db.nextScan exec iterId key value out = db.nextScan exec iterId key value out' := by
  unfold nextScan
  split
  · rfl
  · next hpop =>
      have hend : db.brkPointKey iterId = noNextKey := by
        by_contra hmore
        exact hquiet ⟨popRecord_eq_none_iff.mp hpop, hmore⟩
      rw [if_pos hend, if_pos hend]

end Breakpoint

end DB

end Kvaccel.Ref

namespace Kvaccel.Spec

open Kvaccel.Lib Kvaccel.Ref

/-! ## A call and its locals -/

section Step

variable {iterId : Nat} {db : DB IoResult} {s : ScanStep}

/-- A call that does not fail does the same whatever its locals hold. -/
theorem scanStep_congr (h : Fetches iterId db s → s.data = true ∧ s.io.err = 0)
    (g g' : Locals) : scanStep iterId db s g = scanStep iterId db s g' := by
  unfold scanStep
  simp only []
  split
  · next hseek =>
      obtain ⟨hdata, hok⟩ := h (Or.inl hseek)
      exact DB.seekScan_congr hdata hdata s.value hok
  · next hnext =>
      by_cases hfetch : Fetches iterId db s
      · obtain ⟨hdata, hok⟩ := h hfetch
        exact DB.nextScan_congr hdata hdata s.key s.value hok
      · -- A record is left, or the scan is over.
        exact DB.nextScan_quiet { db with device := s.io } (fun hsent => hfetch (Or.inr hsent))
          s.key s.value (s.out g) (s.out g')

/-- A call that fails leaves one of its locals in the breakpoint. -/
theorem scanStep_brkPointKey (hfetch : Fetches iterId db s)
    (hfail : ¬ (s.data = true ∧ s.io.err = 0)) (g : Locals) :
    (scanStep iterId db s g).2.2.2.brkPointKey iterId =
      if Accepted s.io (s.out g) then g.result.toNat else g.next.toNat := by
  have hnext : nextAfter s.io (s.out g) =
      if Accepted s.io (s.out g) then g.result.toNat else g.next.toNat := by
    unfold nextAfter
    split
    · next hacc => exact if_neg fun hok => hfail ⟨hacc.1, hok⟩
    · rfl
  rw [← hnext]
  unfold scanStep
  simp only []
  split
  · exact DB.seekScan_brkPointKey told { db with device := s.io } s.key s.value (s.out g)
  · next hseek =>
      obtain ⟨hnil, hmore⟩ := hfetch.resolve_left hseek
      exact DB.nextScan_brkPointKey told { db with device := s.io } hnil hmore s.key s.value
        (s.out g)

/-- Locals with another content. -/
def Locals.other (g : Locals) : Locals where
  next := if g.next = 0 then 1 else 0
  result := if g.result = 0 then 1 else 0

theorem Locals.other_ne (g : Locals) :
    g.other.next.toNat ≠ g.next.toNat ∧ g.other.result.toNat ≠ g.result.toNat := by
  rw [Ne, Ne, UInt32.toNat_inj, UInt32.toNat_inj]
  unfold Locals.other
  constructor
  · by_cases h : g.next = 0
    · simp [h]
    · simpa [h] using Ne.symm h
  · by_cases h : g.result = 0
    · simp [h]
    · simpa [h] using Ne.symm h

/-- If other locals show the same breakpoint, the call did not fail. -/
theorem succeeds_of_brkPointKey {g : Locals}
    (h : (scanStep iterId db s g.other).2.2.2.brkPointKey iterId =
      (scanStep iterId db s g).2.2.2.brkPointKey iterId) :
    Fetches iterId db s → s.data = true ∧ s.io.err = 0 := by
  intro hfetch
  by_contra hfail
  rw [scanStep_brkPointKey hfetch hfail, scanStep_brkPointKey hfetch hfail] at h
  by_cases hacc : Accepted s.io (s.out g)
  · rw [if_pos hacc, if_pos (show Accepted s.io (s.out g.other) from hacc)] at h
    exact g.other_ne.2 h
  · rw [if_neg hacc, if_neg (show ¬ Accepted s.io (s.out g.other) from hacc)] at h
    exact g.other_ne.1 h

/-- Where no call fails, no command reports `0x7C1`. -/
theorem last_eq_false (h : Fetches iterId db s → s.data = true ∧ s.io.err = 0) :
    (if Fetches iterId db s ∧ s.data = true then decide (s.io.err = 0x7C1) else false) =
      false := by
  split
  · next hsent => simp [(h hsent.1).2]
  · rfl

end Step

/-! ## Sequences of calls -/

theorem succeed_of_wellDefined {iterId : Nat} : ∀ {cs : List (ScanStep × Locals)}
    {db : DB IoResult}, WellDefined iterId db cs → Succeed iterId db cs := by
  intro cs
  induction cs with
  | nil => intro db _; trivial
  | cons c cs ih =>
      intro db h
      obtain ⟨s, g⟩ := c
      have hother := (h ((s, g.other) :: cs) rfl).1
      simp only [observe, List.cons.injEq, Prod.mk.injEq] at hother
      have hstep := succeeds_of_brkPointKey hother.1.2.2.2
      refine ⟨hstep, ih fun cs' hcs' => ?_⟩
      obtain ⟨hobserve, hends⟩ := h ((s, g) :: cs')
        (by rw [List.map_cons, List.map_cons, hcs'])
      rw [observe, observe, List.cons.injEq] at hobserve
      rw [EndsWithoutKey, last_eq_false hstep] at hends
      exact ⟨hobserve.2, hends.2⟩

theorem wellDefined_of_succeed {iterId : Nat} : ∀ {cs : List (ScanStep × Locals)}
    {db : DB IoResult}, Succeed iterId db cs → WellDefined iterId db cs := by
  intro cs
  induction cs with
  | nil =>
      intro db _ cs' hcs'
      rw [List.map_nil, List.map_eq_nil_iff] at hcs'
      subst hcs'
      exact ⟨rfl, trivial⟩
  | cons c cs ih =>
      intro db h cs' hcs'
      obtain ⟨s, g⟩ := c
      obtain ⟨hstep, hrest⟩ := h
      cases cs' with
      | nil => cases hcs'
      | cons c' cs' =>
          obtain ⟨s', g'⟩ := c'
          rw [List.map_cons, List.map_cons, List.cons.injEq] at hcs'
          obtain ⟨rfl, hcs'⟩ := hcs'
          -- The calls before have left the same state.
          have hsame := scanStep_congr hstep g' g
          obtain ⟨hobserve, hends⟩ := ih hrest cs' hcs'
          refine ⟨?_, ?_⟩
          · rw [observe, observe, hsame, hobserve]
          · rw [EndsWithoutKey, last_eq_false hstep, hsame]
            exact ⟨by simp, hends⟩

/-- The outcomes decide what a sequence of calls does exactly when none of its
commands fails. -/
theorem scan_wellDefined_iff (iterId : Nat) (db : DB IoResult) (cs : List (ScanStep × Locals)) :
    WellDefined iterId db cs ↔ Succeed iterId db cs :=
  ⟨succeed_of_wellDefined, wellDefined_of_succeed⟩

/-- A seek that the device answers with `0x7C1`, and a `NextScan`. -/
def seekNothing (g : Locals) : List (ScanStep × Locals) :=
  [({ isSeek := true, key := [48, 48, 48, 48], value := [], data := true
      io := { err := 0x7C1, result := 0, data := fun _ => 0 } }, g),
    ({ isSeek := false, key := [], value := [], data := true
       io := { err := 0x7C1, result := 0, data := fun _ => 0 } }, g)]

/-- With 7 in `next` the scan goes on at key 7, and `NextScan` returns -2. -/
theorem seekNothing_differs :
    observe 0 (DB.opened { err := 0, result := 0, data := fun _ => 0 })
        (seekNothing { next := 0xFFFFFFFF, result := 0 }) =
      [(-2, [48, 48, 48, 48], [], noNextKey), (-3, [], [], noNextKey)] ∧
    observe 0 (DB.opened { err := 0, result := 0, data := fun _ => 0 })
        (seekNothing { next := 7, result := 0 }) =
      [(-2, [48, 48, 48, 48], [], 7), (-2, [], [], 7)] := by
  decide +kernel

end Kvaccel.Spec
