import Kvaccel.Proofs.Isolation
import Kvaccel.Spec.Survives

/-!
# A pass over a failing Main-LSM

What `DB::Put` answers changes nothing about a pass except what Main-LSM holds
afterwards: the same records are scanned, the same entries deleted, and the
device is erased at the end. So the pass with failures makes the same attempts
as the one without (`rollbackConsumerTrying_eq`), and its attempts are known:
each record of a tracked key, once.

A key whose attempt failed is then in neither store. A key whose attempt
succeeded is in Main-LSM, if it has four bytes; a longer one is there under its
first four, and nobody will look for it there. Nothing is lost exactly when no
attempt fails and the tracked keys have four bytes.
-/

namespace Kvaccel.Ref

open Kvaccel.Lib Kvaccel.Spec

namespace Master

variable {murmur : Murmur}

/-! ## The pass without Main-LSM -/

/-- The state but for what Main-LSM holds. -/
def eraseMain (s : Master) : Master := { s with main := fun _ => none }

theorem eraseMain_mainPut (s : Master) (key : Key) (value : Value) :
    (s.mainPut key value).eraseMain = s.eraseMain := rfl

theorem eraseMain_tryMainPut (s : Master) (key : Key) (value : Value) (st : Status) :
    (s.tryMainPut key value st).eraseMain = s.eraseMain := by
  rw [tryMainPut]
  split
  · rfl
  · rfl

/-- The writes `w` as attempts, the first one the `n`-th of the pass. -/
def answered (answers : Nat → Status) (n : Nat) (w : List (Key × Value)) : List Attempt :=
  (w.zipIdx n).map fun r => (r.1, answers r.2)

theorem answered_append (answers : Nat → Status) (n : Nat) (w w' : List (Key × Value)) :
    answered answers n (w ++ w') =
      answered answers n w ++ answered answers (n + w.length) w' := by
  rw [answered, List.zipIdx_append, List.map_append]
  rfl

theorem migrateTrying_eq (murmur : Murmur) {s t : Master}
    (h : s.eraseMain = t.eraseMain) (key : Key) (value : Value) (answers : Nat → Status) (n : Nat) :
    (migrateTrying murmur s key value (answers n)).1 =
        answered answers n (migrate murmur t key value).1 ∧
      (migrateTrying murmur s key value (answers n)).2.eraseMain =
        (migrate murmur t key value).2.eraseMain := by
  have htracker : s.eraseMain.keyTracker = t.eraseMain.keyTracker := by rw [h]
  have htracker : s.keyTracker = t.keyTracker := htracker
  rw [migrateTrying, migrate, htracker]
  split
  · refine ⟨rfl, ?_⟩
    rw [eraseMain_tryMainPut, eraseMain_mainPut]
    exact congrArg (fun m : Master =>
      { m with keyTracker := t.keyTracker.delete (doubleHash murmur key 1) }) h
  · exact ⟨rfl, h⟩

/-- In lockstep: whatever the answers, the loop goes the way it goes without
failures. -/
theorem rollbackLoopTrying_eq (order : List (Key × Value)) (measure : Nat → Level × Int)
    (answers : Nat → Status) :
    ∀ (fuel i n : Nat) (p : Pass) {s t t' : Master} {w : List (Key × Value)},
      s.eraseMain = t.eraseMain →
      rollbackLoop murmur order measure fuel i p t = some (w, t') →
      ∃ s', rollbackLoopTrying murmur order measure answers fuel i n p s =
          some (answered answers n w, s') ∧ s'.eraseMain = t'.eraseMain := by
  intro fuel
  induction fuel with
  | zero => intro i n p s t t' w _ hrun; cases hrun
  | succ fuel ih =>
      intro i n p s t t' w h hrun
      -- One record, from the seek or from the next branch.
      have hrecord : ∀ q : Pass,
          (rollbackLoop murmur order measure fuel (i + 1) q
            ((migrate murmur t q.key q.value).2.monitor (measure i))).map
              (fun r => ((migrate murmur t q.key q.value).1 ++ r.1, r.2)) = some (w, t') →
          ∃ s', (rollbackLoopTrying murmur order measure answers fuel (i + 1)
              (n + (migrateTrying murmur s q.key q.value (answers n)).1.length) q
              ((migrateTrying murmur s q.key q.value (answers n)).2.monitor (measure i))).map
                (fun r => ((migrateTrying murmur s q.key q.value (answers n)).1 ++ r.1, r.2)) =
              some (answered answers n w, s') ∧ s'.eraseMain = t'.eraseMain := by
        intro q hq
        obtain ⟨hw, hs⟩ := migrateTrying_eq murmur h q.key q.value answers n
        obtain ⟨⟨w', u⟩, hloop, heq⟩ := Option.map_eq_some_iff.mp hq
        cases heq
        have hnext : ((migrateTrying murmur s q.key q.value (answers n)).2.monitor
            (measure i)).eraseMain =
            ((migrate murmur t q.key q.value).2.monitor (measure i)).eraseMain :=
          congrArg (fun m : Master => m.monitor (measure i)) hs
        obtain ⟨s', hloop', hs'⟩ := ih (i + 1)
          (n + (migrateTrying murmur s q.key q.value (answers n)).1.length) q hnext hloop
        refine ⟨s', ?_, hs'⟩
        rw [hloop', Option.map_some, answered_append, hw]
        simp [answered]
      rw [rollbackLoop] at hrun
      rw [rollbackLoopTrying]
      split at hrun
      · next hflag =>
          rw [if_pos hflag]
          exact hrecord (seekScan order p) hrun
      · next hflag =>
          rw [if_neg hflag]
          simp only [] at hrun ⊢
          split at hrun
          · next hend =>
              rw [if_pos hend]
              cases hrun
              refine ⟨_, rfl, ?_⟩
              show s.eraseMain.finishPass = t.eraseMain.finishPass
              rw [h]
          · next hend =>
              rw [if_neg hend]
              exact hrecord (nextScan p) hrun

theorem rollbackConsumerTrying_eq {s s' : Master} {order w : List (Key × Value)}
    {measure : Nat → Level × Int} (answers : Nat → Status)
    (hrun : s.rollbackConsumer murmur order measure = some (w, s')) :
    ∃ t, s.rollbackConsumerTrying murmur order measure answers =
        some (answered answers 0 w, t) ∧ t.eraseMain = s'.eraseMain := by
  rw [rollbackConsumer] at hrun
  rw [rollbackConsumerTrying]
  split at hrun
  · next hguard =>
      rw [if_pos hguard]
      exact rollbackLoopTrying_eq _ _ answers _ 0 0 _ rfl hrun
  · next hguard =>
      rw [if_neg hguard]
      cases hrun
      exact ⟨s, rfl, rfl⟩

/-- With every answer OK this is the pass of the ideal stores. -/
theorem rollbackLoopTrying_ok (order : List (Key × Value)) (measure : Nat → Level × Int) :
    ∀ (fuel i n : Nat) (p : Pass) (s : Master),
      rollbackLoopTrying murmur order measure (fun _ => .ok) fuel i n p s =
        (rollbackLoop murmur order measure fuel i p s).map fun r =>
          (r.1.map fun w => (w, .ok), r.2) := by
  have hmigrate : ∀ (s : Master) (key : Key) (value : Value),
      migrateTrying murmur s key value .ok =
        ((migrate murmur s key value).1.map fun w => (w, .ok),
          (migrate murmur s key value).2) := by
    intro s key value
    rw [migrateTrying, migrate]
    split
    · rfl
    · rfl
  intro fuel
  induction fuel with
  | zero => intro i n p s; rfl
  | succ fuel ih =>
      intro i n p s
      rw [rollbackLoopTrying, rollbackLoop]
      simp only [hmigrate, ih]
      split
      · rw [Option.map_map, Option.map_map]
        congr 1
        funext r
        simp
      · split
        · rfl
        · rw [Option.map_map, Option.map_map]
          congr 1
          funext r
          simp

theorem rollbackConsumerTrying_ok (s : Master) (order : List (Key × Value))
    (measure : Nat → Level × Int) :
    s.rollbackConsumerTrying murmur order measure (fun _ => .ok) =
      (s.rollbackConsumer murmur order measure).map fun r =>
        (r.1.map fun w => (w, .ok), r.2) := by
  rw [rollbackConsumerTrying, rollbackConsumer]
  split
  · exact rollbackLoopTrying_ok _ _ _ _ _ _ _
  · rfl

/-! ## What is tracked is on the device -/

/-- Every tracked key of `K` has a record. -/
def Backed (murmur : Murmur) (K : Set Key) (s : Master) : Prop :=
  ∀ k ∈ K, s.keyTracker.contains (doubleHash murmur k 1) = true →
    (s.dev.lookup (firstFour k)).isSome

section Reach

variable {K : Set Key} (hap : HashesApart murmur K)

include hap

theorem Backed.put {s : Master} (h : Backed murmur K s) {k : Key} (hk : k ∈ K) (v : Value) :
    Backed murmur K (s.put murmur k v).2 := by
  rw [Master.put]
  split
  · split
    · exact h
    · split
      · exact fun k' hk' hin => h k' hk' (HashMap.contains_of_contains_delete hin)
      · exact h
  · intro k' hk' hin
    simp only [] at hin ⊢
    by_cases heq : firstFour k' = firstFour k
    · rw [heq, AList.lookup_insert]
      rfl
    · -- Another key: its entry was there before.
      have hne : doubleHash murmur k 1 ≠ doubleHash murmur k' 1 := fun hhash =>
        heq (hap k' hk' k hk hhash.symm)
      rw [AList.lookup_insert_ne heq]
      rw [HashMap.contains_insert_of_ne hne] at hin
      exact h k' hk' hin

theorem Backed.step {s s' : Master} (h : Backed murmur K s) (hs : FlagSound K s) {op : Op}
    (hkeys : ∀ k ∈ op.keys, k ∈ K) {o : Out} (hstep : s.step murmur op = some (o, s')) :
    Backed murmur K s' := by
  cases op with
  | put k v =>
      cases hstep
      exact h.put hap (hkeys k (by simp [Op.keys])) v
  | get k =>
      cases hstep
      exact h
  | monitor m =>
      cases hstep
      exact h
  | rollback order measure =>
      rw [Master.step] at hstep
      obtain ⟨⟨w, t⟩, hrun, heq⟩ := Option.map_eq_some_iff.mp hstep
      cases heq
      by_cases hguard : s.rollbackStatus ≤ 26 ∧ s.kacheFlag = 1
      · obtain ⟨w', t', hrun', hdone⟩ := rollbackConsumer_spec murmur order measure hguard
          (hs.inUse hguard.2) (hs.devInj hap)
        cases hrun.symm.trans hrun'
        intro k _ hin
        rw [HashMap.contains_iff, hdone.keyTracker] at hin
        omega
      · cases hrun.symm.trans (rollbackConsumer_skip order measure hguard)
        exact h

theorem backed_run : ∀ (ops : List Op) {s s' : Master} {outs : List Out},
    FlagSound K s → Backed murmur K s → (∀ op ∈ ops, ∀ k ∈ op.keys, k ∈ K) →
    s.run murmur ops = some (outs, s') → FlagSound K s' ∧ Backed murmur K s' := by
  intro ops
  induction ops with
  | nil =>
      intro s s' outs hs h _ hrun
      cases hrun
      exact ⟨hs, h⟩
  | cons op ops ih =>
      intro s s' outs hs h hkeys hrun
      rw [Master.run] at hrun
      obtain ⟨⟨o, t⟩, hstep, hrest⟩ := Option.bind_eq_some_iff.mp hrun
      obtain ⟨⟨outs', t'⟩, hrun', heq⟩ := Option.map_eq_some_iff.mp hrest
      cases heq
      have hop := hkeys op List.mem_cons_self
      obtain ⟨o', t', hstep', ht⟩ := hs.step hap op hop
      cases hstep.symm.trans hstep'
      exact ih ht (h.step hap hs hop hstep) (fun op' hop' =>
        hkeys op' (List.mem_cons_of_mem _ hop')) hrun'

end Reach

/-! ## What a pass loses -/

theorem mem_answered {answers : Nat → Status} {w : List (Key × Value)}
    {a : Attempt} : a ∈ answered answers 0 w ↔
      ∃ j, w[j]? = some a.1 ∧ a.2 = answers j := by
  rw [answered, List.mem_map]
  constructor
  · intro ⟨⟨r, j⟩, hmem, heq⟩
    rw [List.mem_zipIdx_iff_getElem?] at hmem
    rw [← heq]
    exact ⟨j, hmem, rfl⟩
  · intro ⟨j, hj, hst⟩
    exact ⟨(a.1, j), List.mem_zipIdx_iff_getElem?.mpr hj, by rw [← hst]⟩

/-- Dev-LSM has four-byte keys only, so a pass writes only these. -/
theorem length_of_written {K : Set Key} {s t : Master} {order w : List (Key × Value)}
    (hs : FlagSound K s) (hdone : PassDone murmur s order w t) {k : Key} {v : Value}
    (h : (k, v) ∈ w) : k.length = 4 := by
  obtain ⟨hdev, _⟩ := hdone.mem_writes.mp h
  obtain ⟨k', _, rfl⟩ := hs.devKeys k (by rw [hdev]; rfl)
  exact length_firstFour k'

theorem length_written {s t : Master} {order w : List (Key × Value)}
    (hdone : PassDone murmur s order w t) : w.length = attemptCount murmur s := by
  rw [hdone.writes]
  exact ((DevMap.scanOrder_perm s.dev order).filter _).length_eq

/-- The tracker is empty after the pass, whatever the writes returned. -/
theorem cleared_of_eraseMain {s t s' : Master} {order w : List (Key × Value)}
    (hdone : PassDone murmur s order w t) (herase : s'.eraseMain = t.eraseMain) (h : UInt64) :
    s'.keyTracker.contains h = false := by
  have htracker : s'.eraseMain.keyTracker = t.eraseMain.keyTracker := by rw [herase]
  rw [HashMap.contains_eq_false_iff]
  show s'.eraseMain.keyTracker.countOf h = 0
  rw [htracker]
  exact hdone.keyTracker h

/-- A pass attempts each key once. -/
theorem written_unique {s t : Master} {order w : List (Key × Value)}
    (hdone : PassDone murmur s order w t) {i j : Nat} {k : Key} {v v' : Value}
    (hi : w[i]? = some (k, v)) (hj : w[j]? = some (k, v')) : i = j := by
  have hlt : i < (w.map Prod.fst).length := by
    rw [List.length_map]
    exact (List.getElem?_eq_some_iff.mp hi).1
  refine (List.getElem?_inj hlt hdone.nodup_writes).mp ?_
  rw [List.getElem?_map, hi, List.getElem?_map, hj]
  rfl

/-- After any run, a pass loses nothing exactly when every `DB::Put` that it
makes returns OK and the keys that are tracked have four bytes. -/
theorem losesNothing_iff {K : Set Key} (hap : HashesApart murmur K) {ops : List Op}
    (hkeys : ∀ op ∈ ops, ∀ k ∈ op.keys, k ∈ K) {outs : List Out} {s : Master}
    (hrun : opened.run murmur ops = some (outs, s))
    (hguard : s.rollbackStatus ≤ 26 ∧ s.kacheFlag = 1) (order : List (Key × Value))
    (measure : Nat → Level × Int) (answers : Nat → Status) :
    (∃ w s', s.rollbackConsumerTrying murmur order measure answers = some (w, s') ∧
        LosesNothing murmur K s s' w) ↔
      (∀ j < attemptCount murmur s, answers j = .ok) ∧
        ∀ k ∈ K, s.keyTracker.contains (doubleHash murmur k 1) = true → k.length = 4 := by
  obtain ⟨hs, hbacked⟩ := backed_run hap ops (flagSound_opened K)
    (fun k _ hin => by simp [HashMap.contains_iff, opened] at hin) hkeys hrun
  obtain ⟨w, t, hpass, hdone⟩ := rollbackConsumer_spec murmur order measure hguard
    (hs.inUse hguard.2) (hs.devInj hap)
  obtain ⟨s', htrying, herase⟩ := rollbackConsumerTrying_eq answers hpass
  rw [← length_written hdone]
  constructor
  · rintro ⟨w', s'', heq, hkeeps⟩
    cases htrying.symm.trans heq
    -- The tracker is empty at the end, so a tracked key has been written.
    have hwritten : ∀ k ∈ K, s.keyTracker.contains (doubleHash murmur k 1) = true →
        ∃ v i, w[i]? = some (k, v) ∧ answers i = .ok := by
      intro k hk htracked
      rcases hkeeps k hk htracked with ⟨v, _, hin⟩ | ⟨_, hstill⟩
      · obtain ⟨i, hi, hst⟩ := mem_answered.mp hin
        exact ⟨v, i, hi, hst.symm⟩
      · rw [cleared_of_eraseMain hdone herase] at hstill
        cases hstill
    have hfour : ∀ k ∈ K, s.keyTracker.contains (doubleHash murmur k 1) = true →
        k.length = 4 := by
      intro k hk htracked
      obtain ⟨v, i, hi, _⟩ := hwritten k hk htracked
      exact length_of_written hs hdone (List.mem_of_getElem? hi)
    refine ⟨fun j hj => ?_, hfour⟩
    -- The `j`-th attempt is the only one of its key.
    obtain ⟨⟨u, v'⟩, hj⟩ : ∃ r, w[j]? = some r := ⟨_, List.getElem?_eq_getElem hj⟩
    obtain ⟨hdev, htracked⟩ := hdone.mem_writes.mp (List.mem_of_getElem? hj)
    obtain ⟨k, hk, rfl⟩ := hs.devKeys u (by rw [hdev]; rfl)
    rw [doubleHash_firstFour] at htracked
    obtain ⟨v, i, hi, hst⟩ := hwritten k hk htracked
    rw [firstFour_eq_self (hfour k hk htracked)] at hj
    rw [← written_unique hdone hi hj, hst]
  · rintro ⟨hok, hfour⟩
    refine ⟨_, s', htrying, fun k hk htracked => Or.inl ?_⟩
    obtain ⟨v, hv⟩ := Option.isSome_iff_exists.mp (hbacked k hk htracked)
    have hmem : (k, v) ∈ w := by
      refine hdone.mem_writes.mpr ⟨?_, htracked⟩
      rw [← firstFour_eq_self (hfour k hk htracked)]
      exact hv
    obtain ⟨j, hj⟩ := List.mem_iff_getElem?.mp hmem
    have hlt := (List.getElem?_eq_some_iff.mp hj).1
    exact ⟨v, hv, mem_answered.mpr ⟨j, hj, (hok j hlt).symm⟩⟩

/-- One redirected put, and a level at which the pass runs. -/
def onePending : List Op :=
  [.monitor (.high, 40), .put [97, 97, 97, 97] [1], .monitor (.low, 10)]

theorem losesNothing_onePending :
    ∃ outs s, opened.run murmurHash3 onePending = some (outs, s) ∧
      ((∃ w s', s.rollbackConsumerTrying murmurHash3 [] (fun _ => (.low, 9))
            (fun _ => .ok) = some (w, s') ∧
          LosesNothing murmurHash3 {[97, 97, 97, 97]} s s' w) ↔
        (∀ j < attemptCount murmurHash3 s, Status.ok = .ok) ∧
          ∀ k ∈ ({[97, 97, 97, 97]} : Set Key),
            s.keyTracker.contains (doubleHash murmurHash3 k 1) = true → k.length = 4) := by
  refine ⟨_, _, rfl, ?_⟩
  have hkeys : ∀ op ∈ onePending, ∀ k ∈ op.keys, k ∈ ({[97, 97, 97, 97]} : Set Key) := by
    simp [onePending, Op.keys]
  exact losesNothing_iff (by simp [HashesApart]) hkeys rfl (by decide) []
    (fun _ => (.low, 9)) (fun _ => .ok)

/-- The one `DB::Put` of the pass fails: the key is in no store afterwards, and
no longer tracked. -/
theorem losesRecord_onePending :
    ∃ outs s, opened.run murmurHash3 onePending = some (outs, s) ∧
      ¬ ∃ w s', s.rollbackConsumerTrying murmurHash3 [] (fun _ => (.low, 9))
            (fun _ => .other 5) = some (w, s') ∧
          LosesNothing murmurHash3 {[97, 97, 97, 97]} s s' w := by
  have hpass : ((opened.run murmurHash3 onePending).bind fun r =>
      (r.2.rollbackConsumerTrying murmurHash3 [] (fun _ => (.low, 9))
        (fun _ => .other 5)).map fun q =>
        r.2.keyTracker.contains (doubleHash murmurHash3 [97, 97, 97, 97] 1) &&
          q.1 == [(([97, 97, 97, 97], [1]), .other 5)] &&
          !q.2.keyTracker.contains (doubleHash murmurHash3 [97, 97, 97, 97] 1)) =
      some true := by decide +kernel
  obtain ⟨⟨outs, s⟩, hrun, hpass⟩ := Option.bind_eq_some_iff.mp hpass
  obtain ⟨⟨w, s'⟩, hpass, heq⟩ := Option.map_eq_some_iff.mp hpass
  simp only [Bool.and_eq_true, beq_iff_eq, Bool.not_eq_true'] at heq
  obtain ⟨⟨htracked, rfl⟩, hcleared⟩ := heq
  refine ⟨outs, s, hrun, fun h => ?_⟩
  obtain ⟨w, t, hpass', hkeeps⟩ := h
  cases hpass.symm.trans hpass'
  rcases hkeeps [97, 97, 97, 97] rfl htracked with ⟨v, _, hin⟩ | ⟨_, hstill⟩
  · simp at hin
  · rw [hcleared] at hstill
    cases hstill

end Master

end Kvaccel.Ref
