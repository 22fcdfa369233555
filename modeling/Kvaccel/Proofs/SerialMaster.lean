import Kvaccel.Proofs.Routing
import Kvaccel.Proofs.Sections

/-!
# The threads refine the sequential program

Over an ideal Dev-LSM every section, alone, is one call of the sequential
`DB_MASTER`: the put at a level below high, the put at level high, and the
pass. A put that comes too late for its direct branch is no different, since a
section entered at `kache_flag = 0` finds the tracker empty. So a run of any
number of threads leaves, whenever `reset_mtx` is free, what the calls leave
one after the other; only the direct puts appear as bare writes to Main-LSM,
because another thread may have set the flag since they looked.
-/

namespace Kvaccel.Spec

open Kvaccel.Lib Kvaccel.Ref

/-- What an event is to the sequential program, at the level that sends it
there. -/
def Sequential (murmur : Murmur) (s : Master) : Event → Master → Prop
  | .direct k v, s' => s' = s.mainPut k v
  | .critical (.withRollback k v), s' => s' = (Master.put murmur { s with level := .low } k v).2
  | .critical (.redirected k v), s' => s' = (Master.put murmur { s with level := .high } k v).2
  | .critical (.pass _), s' => ∃ order measure ws,
      Master.rollbackConsumer murmur { s with rollbackStatus := 0 } order measure = some (ws, s')

/-- The events one after the other. -/
inductive Sequence (murmur : Murmur) (s₀ : Master) : List Event → Master → Prop where
  | start : Sequence murmur s₀ [] s₀
  | next {evs : List Event} {ev : Event} {s s' : Master} (sequence : Sequence murmur s₀ evs s)
      (does : Sequential murmur s ev s') : Sequence murmur s₀ (evs ++ [ev]) s'

/-- The same stores, tracker and flags. -/
structure Matches (s : Master) (g : Guarded idealDev) (main : Key → Option Value) : Prop where
  kacheFlag : s.kacheFlag = g.kacheFlag
  rollbackFlag : s.rollbackFlag = g.rollbackFlag
  keyTracker : s.keyTracker = g.keyTracker
  main : s.main = main
  dev : s.dev = g.dev.store

/-- Between two sections: under flag 0 nothing is tracked, under flag 1 there
is something to move. -/
structure Tame (g : Guarded idealDev) : Prop where
  untracked : g.kacheFlag = 0 → ∀ h, g.keyTracker.contains h = false
  some : g.kacheFlag = 1 → g.dev.store.records ≠ []

section Sections

variable {murmur : Murmur} {s : Master} {g g' : Guarded idealDev} {main : Key → Option Value}
  {ws : List (Key × Value)} {b : Body idealDev} {k : Key} {v : Value} {l : Ref.Locals}
  {E : idealDev.Env → Prop}

/-! ## The puts -/

theorem Matches.withRollback (h : Matches s g main) (ht : Tame g) :
    Matches (Master.put murmur { s with level := .low } k v).2
      { g with keyTracker := takenBack murmur g.keyTracker k } (overwrite main [(k, v)]) := by
  obtain ⟨hkache, hflag, htr, rfl, hdev⟩ := h
  rw [Master.put, if_pos (by simp), takenBack, ← htr]
  by_cases hzero : s.kacheFlag = 0
  · have hno : s.keyTracker.contains (doubleHash murmur k 1) = false := by
      rw [htr]
      exact ht.untracked (hkache.symm.trans hzero) _
    rw [if_pos hzero, if_neg (by rw [hno]; simp)]
    exact ⟨hkache, hflag, rfl, rfl, hdev⟩
  · rw [if_neg hzero]
    by_cases hc : s.keyTracker.contains (doubleHash murmur k 1) = true
    · rw [if_pos hc, if_pos hc]
      exact ⟨hkache, hflag, rfl, rfl, hdev⟩
    · rw [if_neg hc, if_neg hc]
      exact ⟨hkache, hflag, rfl, rfl, hdev⟩

theorem takenBack_contains {tracker : HashMap Key 128} {h : UInt64}
    (hno : tracker.contains h = false) : (takenBack murmur tracker k).contains h = false := by
  rw [takenBack]
  split
  · rw [HashMap.contains_eq_false_iff, HashMap.countOf_delete]
    rw [HashMap.contains_eq_false_iff] at hno
    omega
  · exact hno

theorem Tame.withRollback (h : Tame g) :
    Tame { g with keyTracker := takenBack murmur g.keyTracker k } :=
  ⟨fun hzero _ => takenBack_contains (h.untracked hzero _), h.some⟩

/-- `ilsm_db_.Put` is one step here. -/
theorem devPut_ideal {st st' : IdealSt} (h : DevPut E (idealDev.putPc k v) st st') :
    st' = { st with store := st.store.insert (firstFour k) v } := by
  cases h with
  | last _ _ => rfl
  | more _ hgoes _ => cases hgoes

theorem Matches.redirected (h : Matches s g main) :
    Matches (Master.put murmur { s with level := .high } k v).2 { g with
      kacheFlag := 1
      dev := { g.dev with store := g.dev.store.insert (firstFour k) v }
      keyTracker := g.keyTracker.insert (doubleHash murmur k 1) k } main := by
  obtain ⟨hkache, hflag, htr, rfl, hdev⟩ := h
  rw [Master.put, if_neg (by simp)]
  exact ⟨rfl, hflag, by rw [← htr], rfl, by rw [← hdev]⟩

theorem Tame.redirected : Tame { g with
    kacheFlag := 1
    dev := { g.dev with store := g.dev.store.insert (firstFour k) v }
    keyTracker := g.keyTracker.insert (doubleHash murmur k 1) k } := by
  refine ⟨fun hzero => absurd hzero (by simp), fun _ hnil => ?_⟩
  have hmem : (firstFour k, v) ∈ DevMap.records (g.dev.store.insert (firstFour k) v) :=
    DevMap.mem_records.mpr (AList.lookup_insert _)
  rw [hnil] at hmem
  cases hmem

/-! ## The pass -/

theorem migrateAll_eq : ∀ (rs : List (Key × Value)) (s : Master),
    Master.migrateAll murmur rs s = ((migrated murmur rs s.keyTracker).1, { s with
      keyTracker := (migrated murmur rs s.keyTracker).2
      main := overwrite s.main (migrated murmur rs s.keyTracker).1 }) := by
  intro rs
  induction rs with
  | nil => intro s; rfl
  | cons r rs ih =>
      intro s
      obtain ⟨k, v⟩ := r
      rw [Master.migrateAll]
      simp only [ih, migrated, takenBack, Master.migrate]
      by_cases hc : s.keyTracker.contains (doubleHash murmur k 1) = true
      · simp only [if_pos hc, overwrite_append]
        rfl
      · simp only [if_neg hc]
        rfl

theorem devIter_ideal {id id' : Nat} {st st' : IdealSt}
    (h : DevIter E idealDev.iterPc id st id' st') : st' = st := by
  cases h with
  | last _ _ => rfl
  | more _ hgoes _ => cases hgoes

theorem hands_ideal (id : Nat) : ∀ (rs : List (Key × Value)) (st : IdealSt), st.cursor = rs →
    Hands E (fun _ => True) (D := idealDev) id rs st := by
  intro rs
  induction rs with
  | nil =>
      intro st hcur
      exact Hands.nil fun env key value _ => ⟨_, _, _, Pass.nextScan_nil hcur, trivial⟩
  | cons r rs ih =>
      intro st hcur
      exact Hands.cons fun env key value _ => ⟨_, Pass.nextScan_cons hcur, ih _ rfl⟩

/-- A scan hands out the records in the order it was asked for. -/
theorem starts_ideal (id : Nat) {st : IdealSt} (h : st.store.records ≠ []) :
    Starts E (fun _ => True) (D := idealDev) (fun rs => ∃ order, st.store.scanOrder order = rs)
      id st := by
  refine Starts.intro fun order value _ => ?_
  obtain ⟨r, rs, hrs⟩ : ∃ r rs, st.store.scanOrder order = r :: rs := by
    refine List.exists_cons_of_ne_nil fun hnil => h ?_
    have hperm := DevMap.scanOrder_perm st.store order
    rw [hnil] at hperm
    exact hperm.nil_eq.symm
  exact ⟨r, rs, _, ⟨order, hrs⟩, Pass.seekScan_cons hrs, hands_ideal id rs _ rfl⟩

theorem Matches.pass (h : Matches s g main) (hone : g.kacheFlag = 1)
    (hne : g.dev.store.records ≠ []) (order : List (Key × Value)) (st : IdealSt)
    (env : idealDev.Env) :
    ∃ s', Sequential murmur s (.critical (.pass l)) s' ∧ Matches s' {
      kacheFlag := 0, rollbackFlag := 0
      keyTracker := (migrated murmur (g.dev.store.scanOrder order) g.keyTracker).2.clear
      dev := idealDev.reset env st }
      (overwrite main (migrated murmur (g.dev.store.scanOrder order) g.keyTracker).1) := by
  obtain ⟨hkache, hflag, htr, rfl, hdev⟩ := h
  have hscan : s.dev.scanOrder order ≠ [] := by
    rw [hdev]
    intro hnil
    have hperm := DevMap.scanOrder_perm g.dev.store order
    rw [hnil] at hperm
    exact hne hperm.nil_eq.symm
  have hlen : (s.dev.scanOrder order).length = s.dev.records.length :=
    (DevMap.scanOrder_perm s.dev order).length_eq
  obtain ⟨m, hloop⟩ := Master.rollbackLoop_eq murmur (fun _ => (.low, 0))
    (Master.rollbackFuel s) { flag := -2, key := [], value := [], cursor := [] }
    { s with rollbackStatus := 0, rollbackFlag := 1 } hscan (by simp)
    (by rw [Master.rollbackFuel, hlen]; omega)
  have hguard : Master.rollbackConsumer murmur { s with rollbackStatus := 0 } order
      (fun _ => (.low, 0)) = Master.rollbackLoop murmur (s.dev.scanOrder order)
        (fun _ => (.low, 0)) s.rollbackFuel 0
        { flag := -2, key := [], value := [], cursor := [] }
        { s with rollbackStatus := 0, rollbackFlag := 1 } :=
    if_pos ⟨by simp, hkache.trans hone⟩
  rw [migrateAll_eq] at hloop
  refine ⟨_, ⟨order, _, _, hguard.trans hloop⟩, ?_⟩
  rw [← hdev, ← htr]
  exact ⟨rfl, rfl, rfl, rfl, rfl⟩

theorem Tame.pass {tracker : HashMap Key 128} {st : IdealSt} {env : idealDev.Env} :
    Tame {
      kacheFlag := 0, rollbackFlag := 0, keyTracker := tracker.clear
      dev := idealDev.reset env st } := by
  refine ⟨fun _ h => ?_, fun hone => absurd hone (by simp)⟩
  rw [HashMap.contains_eq_false_iff]
  exact HashMap.countOf_clear _ _

/-- A section, alone, is the call. -/
theorem Matches.critical {F : Prop} {p : Purpose} (h : Matches s g main) (ht : Tame g)
    (hbegins : p.Begins murmur F g) (halone : Alone murmur E p.body g ws b g')
    (hout : b.inside = false) :
    ∃ s', Sequential murmur s (.critical p) s' ∧ Matches s' g' (overwrite main ws) ∧
      Tame g' := by
  cases p with
  | withRollback k v =>
      obtain ⟨rfl, rfl⟩ := alone_withRollback halone hout
      exact ⟨_, rfl, h.withRollback ht, ht.withRollback⟩
  | redirected k v =>
      obtain ⟨rfl, st, hcall, rfl⟩ := alone_redirected halone hout
      obtain rfl := devPut_ideal hcall
      exact ⟨_, rfl, h.redirected, Tame.redirected⟩
  | pass l =>
      have hne := ht.some hbegins.2
      obtain ⟨rs, ⟨order, rfl⟩, rfl, env, st, _, _, rfl⟩ :=
        alone_pass halone hout (by rw [hbegins.1]; decide) fun id st hcall => by
          obtain rfl := devIter_ideal hcall
          exact starts_ideal id hne
      obtain ⟨s', hdoes, hmatch⟩ : ∃ s', Sequential murmur s (.critical (.pass l)) s' ∧ _ :=
        h.pass hbegins.2 hne order st env
      exact ⟨s', hdoes, hmatch, Tame.pass⟩

end Sections

/-! ## The runs -/

section Runs

variable {T : Type} [DecidableEq T] {murmur : Murmur}

theorem sequence_of_serial {E : idealDev.Env → Prop} {F : Prop} {s₀ : Master}
    {g₀ g : Guarded idealDev} {main₀ main : Key → Option Value} {evs : List Event}
    (hmatch : Matches s₀ g₀ main₀) (htame : Tame g₀) (h : Serial murmur E F g₀ main₀ evs g main) :
    ∃ s, Sequence murmur s₀ evs s ∧ Matches s g main ∧ Tame g := by
  induction h with
  | start => exact ⟨s₀, .start, hmatch, htame⟩
  | direct _ k v _ ih =>
      obtain ⟨s, hseq, hs, ht⟩ := ih
      refine ⟨s.mainPut k v, hseq.next rfl, ?_, ht⟩
      exact ⟨hs.kacheFlag, hs.rollbackFlag, hs.keyTracker,
        by rw [Master.mainPut, hs.main], hs.dev⟩
  | critical _ p hbegins halone hout ih =>
      obtain ⟨s, hseq, hs, ht⟩ := ih
      obtain ⟨s', hdoes, hs', ht'⟩ := hs.critical ht hbegins halone hout
      exact ⟨s', hseq.next hdoes, hs', ht'⟩

/-- Whenever `reset_mtx` is free, any number of threads over an ideal Dev-LSM
have left what the sequential calls leave, made in the order in which the
threads took the lock, with the direct puts as writes between them. -/
theorem threads_refine_master {Q : State T idealDev → Act T idealDev → Prop}
    {main : Key → Option Value} {dev : IdealSt} {tr : List (State T idealDev × Act T idealDev)}
    {s : State T idealDev} (h : Run (State.step murmur) Q (State.opened main dev) tr s)
    (hfree : s.sh.resetMtx = none) :
    ∃ evs s', Sequence murmur { Master.opened with main := main, dev := dev.store } evs s' ∧
      Matches s' (guarded s.sh) s.sh.main ∧
      evs.filterMap Event.purpose = tr.reverse.filterMap entered ∧
      SamePuts (evs.filterMap Event.put) (tr.reverse.filterMap effected) := by
  obtain ⟨evs, g, hserial, hsame, horder, hputs⟩ := (replayed_of_run (E := fun _ => True)
    (F := False) idealSilent (fun _ _ _ _ _ => trivial) False.elim h).2.2.row hfree
  have htame : Tame (guarded (State.opened main dev : State T idealDev).sh) :=
    ⟨fun _ _ => HashMap.contains_eq_false_iff _ _ |>.mpr (HashMap.countOf_empty _),
      fun hone => absurd hone (by simp [guarded, State.opened])⟩
  have hmatch : Matches { Master.opened with main := main, dev := dev.store }
      (guarded (State.opened main dev : State T idealDev).sh) main :=
    ⟨rfl, rfl, rfl, rfl, rfl⟩
  obtain ⟨s', hseq, hs, _⟩ := sequence_of_serial hmatch htame hserial
  refine ⟨evs, s', hseq, ?_, horder, hputs⟩
  have hdev : g.dev = s.sh.dev := hsame.view
  exact ⟨hs.kacheFlag.trans hsame.kacheFlag, hs.rollbackFlag.trans hsame.rollbackFlag,
    hs.keyTracker.trans hsame.keyTracker, hs.main, by rw [hs.dev, hdev]; rfl⟩

end Runs

/-- The run of `overtaken`. -/
theorem threads_refine_master_overtaken :
    (replay (State.step murmurHash3) beforeOvertaken overtaken).sh.resetMtx = none ∧
      ∃ evs s', Sequence murmurHash3 { Master.opened with main := fun _ => none, dev := ∅ } evs
          s' ∧
        Matches s' (guarded (replay (State.step murmurHash3) beforeOvertaken overtaken).sh)
          (replay (State.step murmurHash3) beforeOvertaken overtaken).sh.main ∧
        evs.filterMap Event.purpose =
          (replayTrace (State.step murmurHash3) beforeOvertaken overtaken []).reverse.filterMap
            entered ∧
        SamePuts (evs.filterMap Event.put)
          ((replayTrace (State.step murmurHash3) beforeOvertaken overtaken []).reverse.filterMap
            effected) :=
  ⟨rfl, threads_refine_master run_overtaken rfl⟩

end Kvaccel.Spec
