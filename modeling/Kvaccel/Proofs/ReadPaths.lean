import Kvaccel.Spec.ReadPaths
import Kvaccel.Spec.Scans

/-!
# The two reads

`Get` has one place for a value and one for everything else. It therefore says
the truth about a store that has delivered or does not have the key, and about
no other: a failure of the device or of Main-LSM is `NotFound`, and a status
that the driver does not test for may even be `OK`, with as many bytes as an
unassigned word says.

`GetPin` looks at Main-LSM only, and takes a value for missing unless it starts
with an `a`.
-/

namespace Kvaccel.Ref

open Kvaccel.Lib Kvaccel.Spec

namespace Master

/-! ## `GetPin` -/

variable (murmur : Murmur) (s : Master) (key : Key)

theorem get_cases :
    s.get murmur key = (.notFound, none) ∨ ∃ v, s.get murmur key = (.ok, some v) := by
  unfold get
  simp only []
  repeat' split
  all_goals first
    | exact Or.inl rfl
    | exact Or.inr ⟨_, rfl⟩

/-- While nothing is redirected, the two differ in the look at the first byte. -/
theorem getPin_of_kacheFlag (hflag : s.kacheFlag = 0) :
    s.getPin key = match s.get murmur key with
      | (.ok, some v) => if v.headD 0 = 97 then (.ok, some v) else (.notFound, some v)
      | r => r := by
  unfold getPin get
  simp only [if_pos hflag]
  split
  · next hok => rfl
  · next hok => rfl

/-- The two reads agree exactly on the values that `GetPin` accepts, while
nothing is redirected. -/
theorem pinAgrees_iff :
    PinAgrees murmur s key ↔
      ∀ v, s.get murmur key = (.ok, some v) → s.kacheFlag = 0 ∧ v.headD 0 = 97 := by
  by_cases hflag : s.kacheFlag = 0
  · have hpin := getPin_of_kacheFlag murmur s key hflag
    rcases get_cases murmur s key with hget | ⟨w, hget⟩
    · rw [hget] at hpin
      refine ⟨fun _ v hv => ?_, fun _ => ⟨?_, ?_⟩⟩
      · rw [hget] at hv
        cases hv
      · rw [hpin, hget]
      · rw [hpin, hget]
        exact fun _ => rfl
    · rw [hget] at hpin
      simp only [] at hpin
      refine ⟨fun h v hv => ?_, fun h => ?_⟩
      · rw [hget] at hv
        cases hv
        refine ⟨hflag, ?_⟩
        by_contra hbyte
        have hok := h.status.mpr (by rw [hget])
        rw [hpin, if_neg hbyte] at hok
        cases hok
      · rw [if_pos (h w hget).2] at hpin
        exact ⟨by rw [hpin, hget], fun _ => by rw [hpin, hget]⟩
  · have hpin : s.getPin key = (.notFound, none) := if_neg hflag
    refine ⟨fun h v hv => ?_, fun h => ?_⟩
    · have hok := h.status.mpr (by rw [hv])
      rw [hpin] at hok
      cases hok
    · have hget : s.get murmur key = (.notFound, none) := by
        rcases get_cases murmur s key with hget | ⟨v, hget⟩
        · exact hget
        · exact absurd (h v hget).1 hflag
      exact ⟨by rw [hpin, hget], fun _ => by rw [hpin, hget]⟩

/-- A put below `LEVEL_HIGH`, of a value that starts with `b`. -/
theorem getPin_misses :
    ∃ s, (run (fun _ => 0) opened [.put [48, 48, 48, 48] [98]]) = some ([.put .ok], s) ∧
      s.get (fun _ => 0) [48, 48, 48, 48] = (.ok, some [98]) ∧
      (s.getPin [48, 48, 48, 48]).1 = .notFound :=
  ⟨_, rfl, by decide, by decide⟩

end Master

/-! ## Errors of the stores -/

namespace DB

variable {σ : Type} (exec : Device σ)

/-- A `Get` of the driver by what its command came to. -/
theorem get_of_completed {db : DB σ} {key : Bytes} (value : Bytes) {out : Outside}
    (hout : out.data = true)
    (hok : (exec (getCmd key) db.device).1.err = 0)
    (hlen : (exec (getCmd key) db.device).1.result ≤ maxBufLen) :
    0 ≤ (db.get exec key value out).1 ∧
      (db.get exec key value out).2.1 =
        (exec (getCmd key) db.device).1.data.read 0 (exec (getCmd key) db.device).1.result := by
  have hcmd : db.nvmePassthru exec (getCmd key) out.result = _ := nvmePassthru_ok hok
  have hint : asInt (exec (getCmd key) db.device).1.result =
      (exec (getCmd key) db.device).1.result := by
    unfold maxBufLen at hlen
    exact if_pos (by omega)
  unfold getCmd at hcmd hok hint hlen ⊢
  unfold get
  rw [if_neg (by simp [hout])]
  simp only [hcmd, hok, hint]
  rw [if_neg (by omega), if_neg (by omega)]
  split
  · exact ⟨Int.natCast_nonneg _, Mem.read_upTo (by rw [Nat.zero_add]; exact hlen)⟩
  · next hzero =>
      refine ⟨Int.natCast_nonneg _, ?_⟩
      rw [Nat.eq_zero_of_not_pos hzero, Mem.read_zero]

theorem get_of_absent {db : DB σ} {key : Bytes} (value : Bytes) {out : Outside}
    (hout : out.data = true)
    (habsent : (exec (getCmd key) db.device).1.err = 0x7C1) :
    (db.get exec key value out).1 = -2 := by
  obtain ⟨stat, hcmd⟩ := nvmePassthru_eq exec db (getCmd key) out.result
  unfold getCmd at hcmd habsent
  unfold get
  rw [if_neg (by simp [hout])]
  simp only [hcmd, habsent]
  rw [if_neg (by omega), if_pos trivial]

end DB

namespace Reading

variable {σ : Type} (murmur : Murmur) (exec : Device σ) (s : Reading σ) (key : Key)
  (main : Status × Value) (out : Outside)

/-- The two values of `rollback_flag` have the same branches. -/
theorem get_eq :
    ((s.get murmur exec key main out).1, (s.get murmur exec key main out).2.1) =
      if s.kacheFlag ≠ 0 ∧ s.keyTracker.contains (doubleHash murmur key 1) then
        if (s.ilsm.get exec key [] out).1 ≥ 0 then
          (.ok, some (s.ilsm.get exec key [] out).2.1) else (.notFound, none)
      else
        if main.1 = .ok then (.ok, some main.2) else (.notFound, none) := by
  unfold get
  by_cases hflag : s.kacheFlag = 0
  · simp only [if_pos hflag, if_neg (fun h => h.1 hflag :
      ¬ (s.kacheFlag ≠ 0 ∧ s.keyTracker.contains (doubleHash murmur key 1)))]
    split <;> rfl
  · by_cases htracked : s.keyTracker.contains (doubleHash murmur key 1)
    · simp only [if_neg hflag, if_pos htracked, if_pos (And.intro hflag htracked), ite_self]
      split <;> rfl
    · simp only [if_neg hflag, if_neg htracked, if_neg (fun h => htracked h.2 :
        ¬ (s.kacheFlag ≠ 0 ∧ s.keyTracker.contains (doubleHash murmur key 1))), ite_self]
      split <;> rfl

/-- Over stores that answer as the ideal ones do, this is the ideal `Get`. -/
theorem get_eq_master {m : Master} (hkache : s.kacheFlag = m.kacheFlag)
    (htracker : s.keyTracker = m.keyTracker)
    (hcode : (s.ilsm.get exec key [] out).1 = (m.ilsmGet key).1)
    (hvalue : (m.ilsmGet key).1 ≥ 0 →
      (s.ilsm.get exec key [] out).2.1 = (m.ilsmGet key).2) :
    ((s.get murmur exec key (m.mainGet key) out).1,
        (s.get murmur exec key (m.mainGet key) out).2.1) = m.get murmur key := by
  rw [get_eq, hkache, htracker, hcode]
  unfold Master.get
  by_cases hflag : m.kacheFlag = 0
  · rw [if_neg fun h => h.1 hflag]
    simp only [if_pos hflag]
  · by_cases htracked : m.keyTracker.contains (doubleHash murmur key 1)
    · rw [if_pos ⟨hflag, htracked⟩]
      simp only [if_neg hflag, if_pos htracked, ite_self]
      split
      · next hfound => rw [hvalue hfound]
      · rfl
    · rw [if_neg fun h => htracked h.2]
      simp only [if_neg hflag, if_neg htracked, ite_self]

/-- `Get` has no other status. -/
theorem get_status :
    (s.get murmur exec key main out).1 = .ok ∨ (s.get murmur exec key main out).1 = .notFound := by
  have heq := congrArg Prod.fst (get_eq murmur exec s key main out)
  simp only [] at heq
  rw [heq]
  repeat' split
  all_goals first
    | exact Or.inl rfl
    | exact Or.inr rfl

/-- What `Get` makes of a store that has the key, or has it not. -/
theorem get_of_outcome
    (hlen : (getIo exec s key).err = 0 → (getIo exec s key).result ≤ maxBufLen) :
    (∀ v, readOutcome murmur exec s key main out = .completed v →
        ((s.get murmur exec key main out).1, (s.get murmur exec key main out).2.1) =
          (.ok, some v)) ∧
      (readOutcome murmur exec s key main out = .absent →
        ((s.get murmur exec key main out).1, (s.get murmur exec key main out).2.1) =
          (.notFound, none)) := by
  rw [get_eq]
  unfold readOutcome
  split
  · unfold ilsmOutcome
    split
    · exact ⟨nofun, nofun⟩
    · next hout =>
        have hdata : out.data = true := by simpa using hout
        split
        · next hok =>
            obtain ⟨hcode, hvalue⟩ := DB.get_of_completed exec [] hdata hok (hlen hok)
            refine ⟨fun v hv => ?_, nofun⟩
            cases hv
            rw [if_pos hcode, hvalue]
            rfl
        · split
          · next habsent =>
              refine ⟨nofun, fun _ => ?_⟩
              rw [if_neg (by rw [DB.get_of_absent exec [] hdata habsent]; decide)]
          · exact ⟨nofun, nofun⟩
  · unfold mainOutcome
    split
    · next hok =>
        refine ⟨fun v hv => ?_, nofun⟩
        cases hv
        rw [if_pos hok]
    · next hnot =>
        refine ⟨nofun, fun _ => ?_⟩
        rw [if_neg (by rw [hnot]; decide)]
    · exact ⟨nofun, nofun⟩

end Reading

open Reading in
/-- `Get` is faithful to a store exactly when the store has not failed. -/
theorem readFaithful_iff {σ : Type} (murmur : Murmur) (exec : Device σ) (s : Reading σ)
    (key : Key) (main : Status × Value) (out : Outside)
    (hlen : (getIo exec s key).err = 0 → (getIo exec s key).result ≤ maxBufLen) :
    ReadFaithful (readOutcome murmur exec s key main out)
        (s.get murmur exec key main out).1 (s.get murmur exec key main out).2.1 ↔
      readOutcome murmur exec s key main out ≠ .failed := by
  obtain ⟨hcompleted, habsent⟩ := get_of_outcome murmur exec s key main out hlen
  constructor
  · intro h hfailed
    rcases get_status murmur exec s key main out with hok | hnot
    · obtain ⟨v, hv, _⟩ := h.ok hok
      rw [hfailed] at hv
      cases hv
    · have := h.notFound hnot
      rw [hfailed] at this
      cases this
  · intro h
    cases ho : readOutcome murmur exec s key main out with
    | completed v =>
        have hget := hcompleted v ho
        rw [Prod.mk.injEq] at hget
        rw [hget.1, hget.2]
        exact ⟨fun _ => ⟨v, rfl, rfl⟩, nofun, fun h => absurd rfl h⟩
    | absent =>
        have hget := habsent ho
        rw [Prod.mk.injEq] at hget
        rw [hget.1, hget.2]
        exact ⟨nofun, fun _ => rfl, fun _ => rfl⟩
    | failed => exact absurd ho h

/-- A redirected key, and a device that gives every command the one answer. -/
def tracking (io : IoResult) : Reading IoResult where
  kacheFlag := 1
  rollbackFlag := 0
  keyTracker := HashMap.empty.insert (doubleHash (fun _ => 0) [48, 48, 48, 48] 1) [48, 48, 48, 48]
  ilsm := DB.opened io

theorem readFaithful_delivered :
    ReadFaithful (.completed [1, 2])
      ((tracking ⟨0, 2, Mem.write (fun _ => 0) 0 [1, 2]⟩).get (fun _ => 0) told
        [48, 48, 48, 48] (.notFound, []) .fine).1
      ((tracking ⟨0, 2, Mem.write (fun _ => 0) 0 [1, 2]⟩).get (fun _ => 0) told
        [48, 48, 48, 48] (.notFound, []) .fine).2.1 := by
  have h := readFaithful_iff (fun _ => 0) told
    (tracking ⟨0, 2, Mem.write (fun _ => 0) 0 [1, 2]⟩) [48, 48, 48, 48] (.notFound, []) .fine
    (fun _ => by decide)
  exact h.mpr (by decide)

/-- A failed `ioctl` is reported as absence, and a status that is not tested for
as data: three bytes, because `result` happened to hold a 3. -/
theorem get_misreports :
    ((tracking ⟨-1, 0, fun _ => 0⟩).get (fun _ => 0) told [48, 48, 48, 48] (.notFound, [])
        .fine).1 = .notFound ∧
      ((tracking ⟨2, 0, fun _ => 0⟩).get (fun _ => 0) told [48, 48, 48, 48] (.notFound, [])
        { Outside.fine with result := 3 }).1 = .ok ∧
      ((tracking ⟨2, 0, fun _ => 0⟩).get (fun _ => 0) told [48, 48, 48, 48] (.notFound, [])
        { Outside.fine with result := 3 }).2.1 = some [0, 0, 0] ∧
      ({ tracking ⟨0, 0, fun _ => 0⟩ with kacheFlag := 0 }.get (fun _ => 0) told
        [48, 48, 48, 48] (.other 5, []) .fine).1 = .notFound := by
  decide

end Kvaccel.Ref
