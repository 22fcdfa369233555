import Mathlib.Data.Finset.Card
import Kvaccel.Proofs.Routing
import Kvaccel.Proofs.Threads
import Kvaccel.Spec.IdealDev

/-!
# One rollback pass among the clients

From the moment it holds `reset_mtx` a pass works on a part of the state that
no client touches: its own counter and locals, the tracker, Dev-LSM and the
two flags. `Pass` is that part. A client step keeps it, because every access
to it is made under `reset_mtx`, so the pass runs on it as if alone, and what
holds at each of its counters (`PassAt`) follows from its own steps: the
records it has dealt with and those still to come make up Dev-LSM, and the
tracker still knows of the latter what it knew at the start.
-/

namespace Kvaccel.Ref

open Kvaccel.Lib Kvaccel.Spec

/-- Where the local `flag` has its resting value. -/
def RollbackPc.resting {Pc : Type} : RollbackPc Pc → Bool
  | .monitor | .guard | .lockReset | .setFlag | .unlockRollback | .unlockReset => true
  | _ => false

section Code

variable {T : Type} {D : DevLsm} {murmur : Murmur} {env : D.Env}
  {m : Level × Int} {l : Locals} {rpc : RollbackPc D.Pc} {a : Access D}
  {next : Shared T D → RollbackPc D.Pc × Locals} {sh : Shared T D}

theorem rollbackCode_resting (h : rollbackCode murmur env m l rpc = (a, next))
    (hl : rpc.resting = true → l.flag = -2) (hn : (next sh).1.resting = true) :
    (next sh).2.flag = -2 := by
  cases rpc <;> cases h <;> first
    | exact hl rfl
    | rfl
    | cases hn
    | (revert hn; simp only []; split <;> exact nofun)

theorem rollbackCode_toSetFlag (h : rollbackCode murmur env m l rpc = (a, next))
    (hn : (next sh).1 = .lockReset ∨ (next sh).1 = .setFlag) :
    (a = .read ∧ sh.kacheFlag = 1) ∨ (a = .lockReset ∧ rpc = .lockReset) := by
  cases rpc with
  | guard =>
      cases h
      by_cases hguard : sh.rollbackStatus ≤ 26 ∧ sh.kacheFlag = 1
      · exact Or.inl ⟨rfl, hguard.2⟩
      · simp only [if_neg hguard] at hn
        rcases hn with hn | hn <;> cases hn
  | lockReset =>
      cases h
      exact Or.inr ⟨rfl, rfl⟩
  | _ =>
      cases h
      first
        | (rcases hn with hn | hn <;> cases hn)
        | (revert hn; simp only []; split <;> rintro (hn | hn) <;> cases hn)

end Code

structure Pass where
  pc : RollbackPc idealDev.Pc
  locals : Locals
  tracker : HashMap Key 128
  dev : idealDev.St
  kacheFlag : Int
  rollbackFlag : Int

namespace Pass

/-! ## The pass alone -/

section Alone

variable {order : idealDev.Env} {id : Nat} {key : Key} {value : Value}
  {d : idealDev.St} {r : Key × Value} {rest : List (Key × Value)}

theorem seekScan_nil (h : d.store.scanOrder order = []) :
    idealDev.seekScan order id key value d = (-2, key, value, d) := by
  simp only [idealDev, h]

theorem seekScan_cons (h : d.store.scanOrder order = r :: rest) :
    idealDev.seekScan order id key value d =
      (1, r.1, r.2, { d with cursor := rest }) := by
  simp only [idealDev, h]

theorem nextScan_nil (h : d.cursor = []) :
    idealDev.nextScan order id key value d = (-3, key, value, d) := by
  simp only [idealDev, h]

theorem nextScan_cons (h : d.cursor = r :: rest) :
    idealDev.nextScan order id key value d =
      (1, r.1, r.2, { d with cursor := rest }) := by
  simp only [idealDev, h]

end Alone

/-- The steps of a pass over an ideal Dev-LSM, each with what it writes to
Main-LSM. -/
inductive PassStep (murmur : Murmur) : List (Key × Value) → Pass → Pass → Prop where
  | setFlag (p : Pass) : PassStep murmur []
      { p with pc := .setFlag } { p with pc := .loop, rollbackFlag := 1 }
  | seek (p : Pass) (first : p.locals.flag < 0) : PassStep murmur []
      { p with pc := .loop } { p with pc := .createIter .iter }
  | again (p : Pass) (notFirst : ¬ p.locals.flag < 0) : PassStep murmur []
      { p with pc := .loop } { p with pc := .nextScan }
  | createIter (p : Pass) : PassStep murmur []
      { p with pc := .createIter .iter } { p with pc := .seekScan }
  | seekNone (p : Pass) (order : List (Key × Value))
      (none : p.dev.store.scanOrder order = []) : PassStep murmur []
      { p with pc := .seekScan }
      { p with
        pc := .lock false
        locals := { p.locals with flag := -2, key := startKey } }
  | seekOne (p : Pass) (order : List (Key × Value)) (r : Key × Value)
      (rest : List (Key × Value)) (one : p.dev.store.scanOrder order = r :: rest) :
      PassStep murmur []
      { p with pc := .seekScan }
      { p with
        pc := .lock false
        locals := { p.locals with flag := 1, key := r.1, tmpValue := r.2 }
        dev := { p.dev with cursor := rest } }
  | nextNone (p : Pass) (none : p.dev.cursor = []) : PassStep murmur []
      { p with pc := .nextScan }
      { p with pc := .lock true, locals := { p.locals with flag := -3 } }
  | nextOne (p : Pass) (r : Key × Value) (rest : List (Key × Value))
      (one : p.dev.cursor = r :: rest) : PassStep murmur []
      { p with pc := .nextScan }
      { p with
        pc := .lock true
        locals := { p.locals with flag := 1, key := r.1, tmpValue := r.2 }
        dev := { p.dev with cursor := rest } }
  | lock (p : Pass) (next : Bool) (more : ¬ (next = true ∧ p.locals.flag = -3)) :
      PassStep murmur [] { p with pc := .lock next } { p with pc := .contains }
  | lockEnd (p : Pass) (last : p.locals.flag = -3) : PassStep murmur []
      { p with pc := .lock true } { p with pc := .devReset }
  | tracked (p : Pass)
      (found : p.tracker.contains (doubleHash murmur p.locals.key 1) = true) :
      PassStep murmur [] { p with pc := .contains } { p with pc := .delete }
  | untracked (p : Pass)
      (notFound : p.tracker.contains (doubleHash murmur p.locals.key 1) = false) :
      PassStep murmur [] { p with pc := .contains } { p with pc := .unlock }
  | delete (p : Pass) : PassStep murmur []
      { p with pc := .delete }
      { p with
        pc := .put
        tracker := p.tracker.delete (doubleHash murmur p.locals.key 1) }
  | put (p : Pass) : PassStep murmur [(p.locals.key, p.locals.tmpValue)]
      { p with pc := .put } { p with pc := .unlock }
  | unlock (p : Pass) : PassStep murmur []
      { p with pc := .unlock } { p with pc := .remonitor }
  | remonitor (p : Pass) : PassStep murmur []
      { p with pc := .remonitor } { p with pc := .loop }
  | devReset (p : Pass) : PassStep murmur []
      { p with pc := .devReset }
      { p with pc := .clear, dev := { store := ∅, cursor := [] } }
  | clear (p : Pass) : PassStep murmur []
      { p with pc := .clear } { p with pc := .clearKache, tracker := p.tracker.clear }
  | clearKache (p : Pass) : PassStep murmur []
      { p with pc := .clearKache } { p with pc := .clearRollback, kacheFlag := 0 }
  | clearRollback (p : Pass) : PassStep murmur []
      { p with pc := .clearRollback }
      { p with
        pc := .unlockRollback
        locals := { p.locals with flag := -2 }
        rollbackFlag := 0 }
  | unlockRollback (p : Pass) : PassStep murmur []
      { p with pc := .unlockRollback } { p with pc := .unlockReset }
  | unlockReset (p : Pass) : PassStep murmur []
      { p with pc := .unlockReset } { p with pc := .monitor }

/-! ## What holds at each counter -/

variable {murmur : Murmur} {p₀ p : Pass} {ws : List (Key × Value)}
  {done rest : List (Key × Value)} {k : Key} {v : Value}

def tracked (murmur : Murmur) (p : Pass) (k : Key) : Bool :=
  p.tracker.contains (doubleHash murmur k 1)

def current (p : Pass) : Key × Value := (p.locals.key, p.locals.tmpValue)

/-- The records that `p₀` tracks, newest first: what is written of `done`. -/
def written (murmur : Murmur) (p₀ : Pass) (done : List (Key × Value)) :
    List (Key × Value) :=
  (done.filter fun r => p₀.tracked murmur r.1).reverse

structure Unscanned (p₀ : Pass) (ws : List (Key × Value)) (p : Pass) : Prop where
  flag : p.locals.flag < 0
  tracker : p.tracker = p₀.tracker
  store : p.dev.store = p₀.dev.store
  writes : ws = []

/-- The records in `done` dealt with, those in `rest` still as at the start. -/
structure Scanning (murmur : Murmur) (p₀ : Pass) (done rest : List (Key × Value))
    (ws : List (Key × Value)) (p : Pass) : Prop where
  records : (done ++ rest).Perm p₀.dev.store.records
  store : p.dev.store = p₀.dev.store
  untouched : ∀ r ∈ rest, p.tracked murmur r.1 = p₀.tracked murmur r.1
  writes : ws = written murmur p₀ done

/-- Every record dealt with and the device empty. -/
structure Erased (murmur : Murmur) (p₀ : Pass) (ws : List (Key × Value)) (p : Pass) :
    Prop where
  writes : ∃ done, done.Perm p₀.dev.store.records ∧ ws = written murmur p₀ done
  store : p.dev.store = ∅

/-- The loop invariant of the pass that began as `p₀`, `ws` being what it has
written to Main-LSM, newest first. -/
def PassAt (murmur : Murmur) (p₀ : Pass) (ws : List (Key × Value)) (p : Pass) : Prop :=
  match p.pc with
  | .setFlag | .createIter .iter | .seekScan => Unscanned p₀ ws p
  | .loop => Unscanned p₀ ws p ∨
      (p.locals.flag = 1 ∧ ∃ done, Scanning murmur p₀ done p.dev.cursor ws p)
  | .unlock | .remonitor | .nextScan =>
      p.locals.flag = 1 ∧ ∃ done, Scanning murmur p₀ done p.dev.cursor ws p
  | .lock next =>
      (p.locals.flag = 1 ∧
        ∃ done, Scanning murmur p₀ done (p.current :: p.dev.cursor) ws p) ∨
      (next = true ∧ p.locals.flag = -3 ∧ ∃ done, Scanning murmur p₀ done [] ws p)
  | .contains => p.locals.flag = 1 ∧
      ∃ done, Scanning murmur p₀ done (p.current :: p.dev.cursor) ws p
  | .delete => p.locals.flag = 1 ∧ p₀.tracked murmur p.locals.key = true ∧
      ∃ done, Scanning murmur p₀ done (p.current :: p.dev.cursor) ws p
  -- The entry is gone already, the write is next.
  | .put => p.locals.flag = 1 ∧
      ∃ done, Scanning murmur p₀ done p.dev.cursor (p.current :: ws) p
  | .devReset => ∃ done, Scanning murmur p₀ done [] ws p
  | .clear => Erased murmur p₀ ws p
  | .clearKache => Erased murmur p₀ ws p ∧ p.tracker.entries = []
  | .clearRollback =>
      Erased murmur p₀ ws p ∧ p.tracker.entries = [] ∧ p.kacheFlag = 0
  | .unlockRollback | .unlockReset | .monitor =>
      Erased murmur p₀ ws p ∧ p.tracker.entries = [] ∧ p.kacheFlag = 0 ∧
        p.rollbackFlag = 0
  | .guard | .lockReset | .createIter _ => False

/-- The steps the pass has still to make, at most. -/
def left (p : Pass) : Nat :=
  match p.pc with
  | .setFlag => 11 + 8 * p.dev.store.records.length
  | .loop =>
      if p.locals.flag < 0 then 10 + 8 * p.dev.store.records.length
      else 9 + 8 * p.dev.cursor.length
  | .createIter _ => 9 + 8 * p.dev.store.records.length
  | .seekScan => 8 + 8 * p.dev.store.records.length
  | .lock _ => if p.locals.flag = -3 then 7 else 15 + 8 * p.dev.cursor.length
  | .contains => 14 + 8 * p.dev.cursor.length
  | .delete => 13 + 8 * p.dev.cursor.length
  | .put => 12 + 8 * p.dev.cursor.length
  | .unlock => 11 + 8 * p.dev.cursor.length
  | .remonitor => 10 + 8 * p.dev.cursor.length
  | .nextScan => 8 + 8 * p.dev.cursor.length
  | .devReset => 6
  | .clear => 5
  | .clearKache => 4
  | .clearRollback => 3
  | .unlockRollback => 2
  | .unlockReset => 1
  | .monitor | .guard | .lockReset => 0

theorem Scanning.congr {p' : Pass} (h : Scanning murmur p₀ done rest ws p)
    (hstore : p'.dev.store = p.dev.store) (htr : p'.tracker = p.tracker) :
    Scanning murmur p₀ done rest ws p' where
  records := h.records
  store := hstore.trans h.store
  untouched r hr := by rw [tracked, htr]; exact h.untouched r hr
  writes := h.writes

theorem Unscanned.scan (h : Unscanned p₀ ws p) {order : List (Key × Value)}
    {p' : Pass} (hrest : p.dev.store.scanOrder order = rest)
    (hstore : p'.dev.store = p.dev.store) (htr : p'.tracker = p.tracker) :
    Scanning murmur p₀ [] rest ws p' where
  records := by
    rw [List.nil_append, ← hrest, ← h.store]
    exact DevMap.scanOrder_perm _ order
  store := hstore.trans h.store
  untouched r _ := by rw [tracked, htr, h.tracker]; rfl
  writes := h.writes

theorem Scanning.skip {r : Key × Value}
    (h : Scanning murmur p₀ done (r :: rest) ws p) (hr : p.tracked murmur r.1 = false) :
    Scanning murmur p₀ (done ++ [r]) rest ws p where
  records := by simpa using h.records
  store := h.store
  untouched r' hr' := h.untouched r' (List.mem_cons_of_mem _ hr')
  writes := by
    have hr₀ : p₀.tracked murmur r.1 = false :=
      (h.untouched r List.mem_cons_self).symm.trans hr
    rw [h.writes, written, written, List.filter_append]
    simp [hr₀]

/-- Its entry deleted, a tracked record is as good as written: no other record
was looked up by that entry. -/
theorem Scanning.delete (h : Scanning murmur p₀ done (p.current :: rest) ws p)
    (hr : p₀.tracked murmur p.locals.key = true)
    (hinj : ∀ k k', (p₀.dev.store.lookup k).isSome → (p₀.dev.store.lookup k').isSome →
      doubleHash murmur k 1 = doubleHash murmur k' 1 → k = k') {p' : Pass}
    (hstore : p'.dev.store = p.dev.store)
    (htr : p'.tracker = p.tracker.delete (doubleHash murmur p.locals.key 1)) :
    Scanning murmur p₀ (done ++ [p.current]) rest (p.current :: ws) p' where
  records := by simpa using h.records
  store := hstore.trans h.store
  untouched r hrest := by
    have hpresent : ∀ r' ∈ p.current :: rest, (p₀.dev.store.lookup r'.1).isSome := by
      intro r' hr'
      have hmem := h.records.mem_iff.mp (List.mem_append_right done hr')
      rw [DevMap.mem_records.mp hmem]
      rfl
    have hne : r.1 ≠ p.locals.key := by
      have hnodup := (h.records.map Prod.fst).nodup_iff.mpr (DevMap.nodup_records _)
      rw [List.map_append, List.nodup_append, List.map_cons, List.nodup_cons] at hnodup
      intro heq
      exact hnodup.2.1.1 (List.mem_map.mpr ⟨r, hrest, heq⟩)
    have hhash : doubleHash murmur p.locals.key 1 ≠ doubleHash murmur r.1 1 := by
      intro heq
      exact hne (hinj r.1 p.locals.key (hpresent r (List.mem_cons_of_mem _ hrest))
        (hpresent p.current List.mem_cons_self) heq.symm)
    rw [← h.untouched r (List.mem_cons_of_mem _ hrest), tracked, tracked, htr,
      Bool.eq_iff_iff, HashMap.contains_iff, HashMap.contains_iff,
      HashMap.countOf_delete, if_neg hhash]
    rfl
  writes := by
    rw [h.writes, written, written, List.filter_append]
    simp [current, hr]

/-- What was written is, at every counter, tracked records of those dealt
with. -/
def Wrote (murmur : Murmur) (p₀ : Pass) (ws : List (Key × Value)) : Prop :=
  ∃ done rest, (done ++ rest).Perm p₀.dev.store.records ∧
    ws.Sublist (written murmur p₀ done)

theorem Unscanned.wrote (h : Unscanned p₀ ws p) : Wrote murmur p₀ ws :=
  ⟨[], p₀.dev.store.records, List.Perm.refl _, h.writes ▸ List.nil_sublist _⟩

theorem Scanning.wrote {w : List (Key × Value)}
    (h : Scanning murmur p₀ done rest w p) (hw : ws.Sublist w) : Wrote murmur p₀ ws :=
  ⟨done, rest, h.records, h.writes ▸ hw⟩

theorem Erased.wrote (h : Erased murmur p₀ ws p) : Wrote murmur p₀ ws := by
  obtain ⟨done, hperm, hws⟩ := h.writes
  exact ⟨done, [], by simpa using hperm, hws ▸ List.Sublist.refl _⟩

theorem PassAt.of_pc (hat : PassAt murmur p₀ ws p) {c : RollbackPc idealDev.Pc}
    (hpc : p.pc = c) : PassAt murmur p₀ ws { p with pc := c } := by
  subst hpc
  exact hat

theorem PassAt.wrote (hat : PassAt murmur p₀ ws p) : Wrote murmur p₀ ws := by
  have hscan : ∀ {rest}, (∃ done, Scanning murmur p₀ done rest ws p) →
      Wrote murmur p₀ ws := fun ⟨_, h⟩ => h.wrote (List.Sublist.refl _)
  unfold PassAt at hat
  split at hat
  · exact hat.wrote
  · exact hat.wrote
  · exact hat.wrote
  · exact hat.elim (fun h => h.wrote) fun h => hscan h.2
  · exact hscan hat.2
  · exact hscan hat.2
  · exact hscan hat.2
  · exact hat.elim (fun h => hscan h.2) fun h => hscan h.2.2
  · exact hscan hat.2
  · exact hscan hat.2.2
  · obtain ⟨_, done, h⟩ := hat
    exact h.wrote (List.sublist_cons_self _ _)
  · exact hscan hat
  · exact hat.wrote
  · exact hat.1.wrote
  · exact hat.1.wrote
  · exact hat.1.wrote
  · exact hat.1.wrote
  · exact hat.1.wrote
  all_goals exact hat.elim

theorem mem_written {r : Key × Value} :
    r ∈ written murmur p₀ done ↔ r ∈ done ∧ p₀.tracked murmur r.1 = true := by
  rw [written, List.mem_reverse, List.mem_filter]

/-- Each record once, as Dev-LSM had it, and tracked. -/
theorem Wrote.sound (h : Wrote murmur p₀ ws) :
    (ws.map Prod.fst).Nodup ∧ ∀ r ∈ ws,
      p₀.tracked murmur r.1 = true ∧ p₀.dev.store.lookup r.1 = some r.2 := by
  obtain ⟨done, rest, hperm, hsub⟩ := h
  constructor
  · have hnodup := (hperm.map Prod.fst).nodup_iff.mpr (DevMap.nodup_records _)
    rw [List.map_append] at hnodup
    have hdone := (List.nodup_append.mp hnodup).1
    refine ((hsub.map Prod.fst).nodup ?_)
    rw [written, List.map_reverse]
    exact List.nodup_reverse.mpr ((List.filter_sublist.map Prod.fst).nodup hdone)
  · intro r hr
    obtain ⟨hmem, htracked⟩ := mem_written.mp (hsub.subset hr)
    exact ⟨htracked, DevMap.mem_records.mp
      (hperm.mem_iff.mp (List.mem_append_left rest hmem))⟩

/-- Each step of the pass keeps the invariant and brings the end nearer. -/
theorem PassAt.step {p' : Pass} {w : List (Key × Value)}
    (hne : p₀.dev.store.records ≠ [])
    (hinj : ∀ k k', (p₀.dev.store.lookup k).isSome → (p₀.dev.store.lookup k').isSome →
      doubleHash murmur k 1 = doubleHash murmur k' 1 → k = k')
    (hat : PassAt murmur p₀ ws p) (hstep : PassStep murmur w p p') :
    PassAt murmur p₀ (w ++ ws) p' ∧ p'.left < p.left := by
  cases hstep with
  | setFlag p =>
      have h : Unscanned p₀ ws _ := hat
      have hflag : p.locals.flag < 0 := h.flag
      refine ⟨Or.inl ⟨h.flag, h.tracker, h.store, h.writes⟩, ?_⟩
      simp only [left, if_pos hflag]
      omega
  | seek p hfirst =>
      have h : Unscanned p₀ ws _ ∨ (p.locals.flag = 1 ∧ _) := hat
      rcases h with h | ⟨hflag, _⟩
      · refine ⟨⟨h.flag, h.tracker, h.store, h.writes⟩, ?_⟩
        simp only [left, if_pos hfirst]
        omega
      · omega
  | again p hnot =>
      have h : Unscanned p₀ ws _ ∨ (p.locals.flag = 1 ∧ ∃ done, _) := hat
      rcases h with h | ⟨hflag, done, h⟩
      · exact absurd h.flag hnot
      · refine ⟨⟨hflag, done, h.congr rfl rfl⟩, ?_⟩
        simp only [left, if_neg hnot]
        omega
  | createIter p =>
      have h : Unscanned p₀ ws _ := hat
      refine ⟨⟨h.flag, h.tracker, h.store, h.writes⟩, ?_⟩
      simp only [left]
      omega
  | seekNone p order hnone =>
      have h : Unscanned p₀ ws _ := hat
      have hperm := DevMap.scanOrder_perm p.dev.store order
      rw [hnone, show p.dev.store = p₀.dev.store from h.store] at hperm
      exact absurd hperm.nil_eq.symm hne
  | seekOne p order r rest hone =>
      have h : Unscanned p₀ ws _ := hat
      have hlen := (DevMap.scanOrder_perm p.dev.store order).length_eq
      rw [hone, List.length_cons] at hlen
      refine ⟨Or.inl ⟨rfl, [], h.scan hone rfl rfl⟩, ?_⟩
      simp only [left]
      rw [if_neg (by decide)]
      omega
  | nextNone p hnone =>
      obtain ⟨hflag, done, h⟩ : p.locals.flag = 1 ∧ ∃ done, Scanning _ _ done _ _ _ := hat
      have hrest : p.dev.cursor = [] := hnone
      refine ⟨Or.inr ⟨rfl, rfl, done, ?_⟩, ?_⟩
      · have h : Scanning murmur p₀ done p.dev.cursor ws _ := h
        rw [hrest] at h
        exact h.congr rfl rfl
      · simp only [left]
        rw [if_pos trivial]
        omega
  | nextOne p r rest hone =>
      obtain ⟨hflag, done, h⟩ : p.locals.flag = 1 ∧ ∃ done, Scanning _ _ done _ _ _ := hat
      refine ⟨Or.inl ⟨rfl, done, ?_⟩, ?_⟩
      · have h : Scanning murmur p₀ done p.dev.cursor ws _ := h
        rw [hone] at h
        exact h.congr rfl rfl
      · simp only [left, hone, List.length_cons]
        rw [if_neg (by decide)]
        omega
  | lock p next hmore =>
      have h : (p.locals.flag = 1 ∧ ∃ done, Scanning _ _ done _ _ _) ∨
        (next = true ∧ p.locals.flag = -3 ∧ _) := hat
      rcases h with ⟨hflag, done, h⟩ | ⟨hnext, hflag, _⟩
      · refine ⟨⟨hflag, done, h.congr rfl rfl⟩, ?_⟩
        have hnot : p.locals.flag ≠ -3 := by omega
        simp only [left, if_neg hnot]
        omega
      · exact absurd ⟨hnext, hflag⟩ hmore
  | lockEnd p hlast =>
      have h : (p.locals.flag = 1 ∧ _) ∨
        (true = true ∧ p.locals.flag = -3 ∧ ∃ done, Scanning _ _ done _ _ _) := hat
      rcases h with ⟨hflag, _⟩ | ⟨_, _, done, h⟩
      · omega
      · refine ⟨⟨done, h.congr rfl rfl⟩, ?_⟩
        simp only [left, if_pos hlast]
        omega
  | tracked p hfound =>
      obtain ⟨hflag, done, h⟩ : p.locals.flag = 1 ∧ ∃ done, Scanning _ _ done _ _ _ := hat
      have htracked : p₀.tracked murmur p.locals.key = true :=
        (h.untouched _ List.mem_cons_self).symm.trans hfound
      refine ⟨⟨hflag, htracked, done, h.congr rfl rfl⟩, ?_⟩
      simp only [left]
      omega
  | untracked p hnotFound =>
      obtain ⟨hflag, done, h⟩ : p.locals.flag = 1 ∧ ∃ done, Scanning _ _ done _ _ _ := hat
      refine ⟨⟨hflag, _, (h.skip hnotFound).congr rfl rfl⟩, ?_⟩
      simp only [left]
      omega
  | delete p =>
      obtain ⟨hflag, htracked, done, h⟩ : p.locals.flag = 1 ∧ _ ∧
        ∃ done, Scanning _ _ done _ _ _ := hat
      refine ⟨⟨hflag, _, h.delete htracked hinj rfl rfl⟩, ?_⟩
      simp only [left]
      omega
  | put p =>
      obtain ⟨hflag, done, h⟩ : p.locals.flag = 1 ∧ ∃ done, Scanning _ _ done _ _ _ := hat
      refine ⟨⟨hflag, done, h.congr rfl rfl⟩, ?_⟩
      simp only [left]
      omega
  | unlock p =>
      obtain ⟨hflag, done, h⟩ : p.locals.flag = 1 ∧ ∃ done, Scanning _ _ done _ _ _ := hat
      refine ⟨⟨hflag, done, h.congr rfl rfl⟩, ?_⟩
      simp only [left]
      omega
  | remonitor p =>
      obtain ⟨hflag, done, h⟩ : p.locals.flag = 1 ∧ ∃ done, Scanning _ _ done _ _ _ := hat
      refine ⟨Or.inr ⟨hflag, done, h.congr rfl rfl⟩, ?_⟩
      have hnot : ¬ p.locals.flag < 0 := by omega
      simp only [left, if_neg hnot]
      omega
  | devReset p =>
      obtain ⟨done, h⟩ : ∃ done, Scanning murmur p₀ done [] ws _ := hat
      refine ⟨⟨⟨done, ?_, h.writes⟩, rfl⟩, ?_⟩
      · simpa using h.records
      · simp only [left]
        omega
  | clear p =>
      have h : Erased murmur p₀ ws _ := hat
      refine ⟨⟨⟨h.writes, h.store⟩, HashMap.entries_clear _⟩, ?_⟩
      simp only [left]
      omega
  | clearKache p =>
      obtain ⟨h, hempty⟩ : Erased murmur p₀ ws _ ∧ _ := hat
      refine ⟨⟨⟨h.writes, h.store⟩, hempty, rfl⟩, ?_⟩
      simp only [left]
      omega
  | clearRollback p =>
      obtain ⟨h, hempty, hkache⟩ : Erased murmur p₀ ws _ ∧ _ ∧ _ := hat
      refine ⟨⟨⟨h.writes, h.store⟩, hempty, hkache, rfl⟩, ?_⟩
      simp only [left]
      omega
  | unlockRollback p =>
      obtain ⟨h, hrest⟩ : Erased murmur p₀ ws _ ∧ _ := hat
      refine ⟨⟨⟨h.writes, h.store⟩, hrest⟩, ?_⟩
      simp only [left]
      omega
  | unlockReset p =>
      obtain ⟨h, hrest⟩ : Erased murmur p₀ ws _ ∧ _ := hat
      refine ⟨⟨⟨h.writes, h.store⟩, hrest⟩, ?_⟩
      simp only [left]
      omega

end Pass

namespace State

variable {T : Type} {murmur : Murmur} {s s' : State T idealDev}
  {act : Act T idealDev}

def pass (s : State T idealDev) : Pass where
  pc := s.rollback
  locals := s.locals
  tracker := s.sh.keyTracker
  dev := s.sh.dev
  kacheFlag := s.sh.kacheFlag
  rollbackFlag := s.sh.rollbackFlag

def Passing (s : State T idealDev) (_ : Act T idealDev) : Prop :=
  s.rollback.holdsReset = true

instance (s : State T idealDev) (act : Act T idealDev) : Decidable (Passing s act) :=
  inferInstanceAs (Decidable (s.rollback.holdsReset = true))

theorem passAt_iter {p₀ : Pass} {ws : List (Key × Value)}
    (hat : Pass.PassAt murmur p₀ ws s.pass) (k : Key) (v : Value) :
    s.rollback ≠ .createIter (.put k v) :=
  fun hpc => hat.of_pc hpc

theorem passAt_monitor {p₀ : Pass} {ws : List (Key × Value)}
    (hat : Pass.PassAt murmur p₀ ws s.pass) (hout : s.rollback.holdsReset = false) :
    s.rollback = .monitor := by
  obtain ⟨sh, clients, rollback, locals⟩ := s
  cases rollback with
  | monitor => rfl
  | guard => exact absurd hat id
  | lockReset => exact absurd hat id
  | _ => cases hout

variable [DecidableEq T]

theorem pass_client (h : Locks s) (hheld : s.rollback.holdsReset = true) {t : T}
    {env : idealDev.Env} {a : Access idealDev}
    {next : Shared T idealDev → ClientPc idealDev.Pc}
    (hcode : clientCode murmur env (s.clients t) = some (a, next)) :
    pass { s.setClient t (next s.sh) with
      sh := a.effect murmur (.client t) env s.sh } = s.pass := by
  have hout : a.underReset = false := by
    cases hunder : a.underReset with
    | false => rfl
    | true =>
        have hclient : s.holdsReset (.client t) = true :=
          clientCode_underReset hcode hunder
        have hroll : s.holdsReset .rollback = true := hheld
        have hother := h.reset_unique (.client t) hroll nofun
        rw [hclient] at hother
        cases hother
  cases a with
  | devGet k =>
      have hget : (idealDev.get env k s.sh.dev).2.2 = s.sh.dev := by
        simp only [idealDev]
        split <;> rfl
      simp only [pass, setClient, Access.effect, hget]
  | _ => first | rfl | cases hout

theorem pass_other (h : Locks s) (hheld : s.rollback.holdsReset = true)
    (hstep : s.step murmur act = some s') (hact : ∀ env m, act ≠ .rollback env m) :
    s'.pass = s.pass := by
  cases Steps.of_step hstep with
  | callPut t k v hidle => rfl
  | callGet t k hidle => rfl
  | client t env a next hcode hready => exact pass_client h hheld hcode
  | rollback env m a next hcode hready => exact absurd rfl (hact env m)

def writesOf (murmur : Murmur) (s : State T idealDev) :
    Act T idealDev → List (Key × Value)
  | .rollback env m =>
      match (rollbackCode (T := T) murmur env m s.locals s.rollback).1 with
      | .mainPut k v => [(k, v)]
      | _ => []
  | _ => []

/-- A step of the rollback thread among the clients is a step of the pass
alone. -/
theorem pass_rollback {env : idealDev.Env} {m : Level × Int}
    (hheld : s.rollback.holdsReset = true)
    (hiter : ∀ k v, s.rollback ≠ .createIter (.put k v))
    (hstep : s.step murmur (.rollback env m) = some s') :
    Pass.PassStep murmur (writesOf murmur s (.rollback env m)) s.pass s'.pass := by
  obtain ⟨sh, clients, rollback, locals⟩ := s
  let p := pass ⟨sh, clients, rollback, locals⟩
  cases Steps.of_step hstep with
  | rollback _ _ a next hcode hready =>
  cases rollback with
  | monitor => cases hheld
  | guard => cases hheld
  | lockReset => cases hheld
  | setFlag => cases hcode; exact .setFlag p
  | loop =>
      cases hcode
      by_cases hflag : locals.flag < 0
      · simp only [if_pos hflag]
        exact .seek p hflag
      · simp only [if_neg hflag]
        exact .again p hflag
  | createIter pc =>
      cases hcode
      cases pc with
      | put k v => exact absurd rfl (hiter k v)
      | iter => exact .createIter p
  | seekScan =>
      cases hcode
      cases hscan : sh.dev.store.scanOrder env with
      | nil =>
          simp only [pass, Access.effect, Pass.seekScan_nil hscan]
          exact .seekNone p env hscan
      | cons r rest =>
          simp only [pass, Access.effect, Pass.seekScan_cons hscan]
          exact .seekOne p env r rest hscan
  | nextScan =>
      cases hcode
      cases hcursor : sh.dev.cursor with
      | nil =>
          simp only [pass, Access.effect, Pass.nextScan_nil hcursor]
          exact .nextNone p hcursor
      | cons r rest =>
          simp only [pass, Access.effect, Pass.nextScan_cons hcursor]
          exact .nextOne p r rest hcursor
  | lock next =>
      cases hcode
      by_cases hend : next = true ∧ locals.flag = -3
      · simp only [if_pos hend]
        obtain ⟨rfl, hflag⟩ := hend
        exact .lockEnd p hflag
      · simp only [if_neg hend]
        exact .lock p next hend
  | contains =>
      cases hcode
      cases htr : sh.tracked murmur locals.key with
      | true =>
          simp only [htr, if_true]
          exact .tracked p htr
      | false =>
          simp only [htr, Bool.false_eq_true, if_false]
          exact .untracked p htr
  | delete => cases hcode; exact .delete p
  | put => cases hcode; exact .put p
  | unlock => cases hcode; exact .unlock p
  | remonitor => cases hcode; exact .remonitor p
  | devReset => cases hcode; exact .devReset p
  | clear => cases hcode; exact .clear p
  | clearKache => cases hcode; exact .clearKache p
  | clearRollback => cases hcode; exact .clearRollback p
  | unlockRollback => cases hcode; exact .unlockRollback p
  | unlockReset => cases hcode; exact .unlockReset p

/-! ## The end of the pass -/

theorem step_client {t : T} {env : idealDev.Env} {a : Access idealDev}
    {next : Shared T idealDev → ClientPc idealDev.Pc}
    (hcode : clientCode murmur env (s.clients t) = some (a, next))
    (hready : a.ready s.sh = true) :
    s.step murmur (.client t env) = some { s.setClient t (next s.sh) with
      sh := a.effect murmur (.client t) env s.sh } := by
  simp only [step, hcode, hready, if_true]

theorem step_rollback {env : idealDev.Env} {m : Level × Int} {a : Access idealDev}
    {next : Shared T idealDev → RollbackPc idealDev.Pc × Locals}
    (hcode : rollbackCode murmur env m s.locals s.rollback = (a, next))
    (hready : a.ready s.sh = true) :
    s.step murmur (.rollback env m) = some { s with
      sh := a.effect murmur .rollback env s.sh
      rollback := (next s.sh).1
      locals := (next s.sh).2 } := by
  simp only [step, hcode, hready, if_true]

/-- Client steps that only move readers. -/
structure Drained (murmur : Murmur) (s s' : State T idealDev) : Prop where
  leads : Leads (step murmur) Passing s s'
  locks : Locks s'
  pass : s'.pass = s.pass

theorem Drained.trans {s'' : State T idealDev} (h : Drained murmur s s')
    (h' : Drained murmur s' s'') : Drained murmur s s'' :=
  ⟨h.leads.trans h'.leads, h'.locks, h'.pass.trans h.pass⟩

theorem Drained.client (h : Locks s) (hheld : s.rollback.holdsReset = true) {t : T}
    {env : idealDev.Env} {a : Access idealDev}
    {next : Shared T idealDev → ClientPc idealDev.Pc}
    (hcode : clientCode murmur env (s.clients t) = some (a, next))
    (hready : a.ready s.sh = true) :
    Drained murmur s { s.setClient t (next s.sh) with
      sh := a.effect murmur (.client t) env s.sh } where
  leads := .single hheld (step_client hcode hready)
  locks := h.client hcode hready
  pass := pass_client h hheld hcode

def toUnlock (s : State T idealDev) (t : T) : Nat :=
  match s.clients t with
  | .getContains .. => 2
  | .getDev .. | .getMain .. => 1
  | _ => 0

/-- A reader inside the lock can always move, towards its unlock or out. -/
theorem reader_moves (h : Locks s) (hheld : s.rollback.holdsReset = true) {t : T}
    (ht : (s.clients t).holdsShared = true) :
    ∃ s', Drained murmur s s' ∧
      (s'.sh.rollbackMtx.readers = s.sh.rollbackMtx.readers.erase t ∨
        (s'.sh.rollbackMtx.readers = s.sh.rollbackMtx.readers ∧
          (s'.clients t).holdsShared = true ∧ s'.toUnlock t < s.toUnlock t)) := by
  have hmove : ∀ a next, clientCode murmur ([] : idealDev.Env) (s.clients t) =
      some (a, next) → a.ready s.sh = true → Drained murmur s _ :=
    fun a next hcode hready => Drained.client h hheld hcode hready
  cases hpc : s.clients t with
  | getUnlock k r =>
      rw [hpc] at hmove
      exact ⟨_, hmove _ _ rfl rfl, Or.inl rfl⟩
  | getDev b k =>
      obtain rfl : b = .locked := by cases b <;> first | rfl | (rw [hpc] at ht; cases ht)
      rw [hpc] at hmove
      refine ⟨_, hmove _ _ rfl rfl, Or.inr ⟨rfl, ?_, ?_⟩⟩
      · simp only [setClient_self]
        rfl
      · simp only [toUnlock, setClient_self, hpc]
        exact Nat.zero_lt_one
  | getMain b k =>
      obtain rfl : b = .locked := by cases b <;> first | rfl | (rw [hpc] at ht; cases ht)
      rw [hpc] at hmove
      refine ⟨_, hmove _ _ rfl rfl, Or.inr ⟨rfl, ?_, ?_⟩⟩
      · simp only [setClient_self]
        rfl
      · simp only [toUnlock, setClient_self, hpc]
        exact Nat.zero_lt_one
  | getContains b k =>
      obtain rfl : b = .locked := by cases b <;> first | rfl | (rw [hpc] at ht; cases ht)
      rw [hpc] at hmove
      refine ⟨_, hmove _ _ rfl rfl, Or.inr ⟨rfl, ?_, ?_⟩⟩
      · simp only [setClient_self]
        split <;> rfl
      · simp only [toUnlock, setClient_self, hpc]
        cases s.sh.tracked murmur k <;> exact Nat.one_lt_two
  | _ =>
      rw [hpc] at ht
      cases ht

theorem Drained.refl (h : Locks s) : Drained murmur s s :=
  ⟨Relation.ReflTransGen.refl, h, rfl⟩

theorem Drained.holdsReset (h : Drained murmur s s')
    (hheld : s.rollback.holdsReset = true) : s'.rollback.holdsReset = true := by
  have hpc : s'.rollback = s.rollback := congrArg Pass.pc h.pass
  rw [hpc]
  exact hheld

theorem drain_one (h : Locks s) (hheld : s.rollback.holdsReset = true) {t : T}
    (ht : (s.clients t).holdsShared = true) :
    ∃ s', Drained murmur s s' ∧
      s'.sh.rollbackMtx.readers = s.sh.rollbackMtx.readers.erase t := by
  induction hn : s.toUnlock t using Nat.strong_induction_on generalizing s with
  | _ n ih =>
      obtain ⟨s₁, hdr, hout | ⟨hsame, ht₁, hlt⟩⟩ : ∃ s₁, Drained murmur s s₁ ∧ _ :=
        reader_moves h hheld ht
      · exact ⟨s₁, hdr, hout⟩
      · obtain ⟨s₂, hdr₂, hout⟩ :=
          ih _ (hn ▸ hlt) hdr.locks (hdr.holdsReset hheld) ht₁ rfl
        exact ⟨s₂, hdr.trans hdr₂, by rw [hout, hsame]⟩

/-- All readers can leave without the pass taking a step. -/
theorem drain_all (h : Locks s) (hheld : s.rollback.holdsReset = true) :
    ∃ s', Drained murmur s s' ∧ s'.sh.rollbackMtx.readers = ∅ := by
  induction hn : s.sh.rollbackMtx.readers.card generalizing s with
  | zero => exact ⟨s, .refl h, Finset.card_eq_zero.mp hn⟩
  | succ n ih =>
      obtain ⟨t, ht⟩ : s.sh.rollbackMtx.readers.Nonempty :=
        Finset.card_pos.mp (by omega)
      obtain ⟨s₁, hdr, hout⟩ : ∃ s₁, Drained murmur s s₁ ∧ _ :=
        drain_one h hheld ((h.shared t).mpr ht)
      have hcard : s₁.sh.rollbackMtx.readers.card = n := by
        rw [hout, Finset.card_erase_of_mem ht]
        omega
      obtain ⟨s₂, hdr₂, hempty⟩ := ih hdr.locks (hdr.holdsReset hheld) hcard
      exact ⟨s₂, hdr.trans hdr₂, hempty⟩

/-- Then nothing blocks the pass: it holds `reset_mtx`, so nobody else holds
`rollback_mtx` exclusively. -/
theorem rollback_ready (h : Locks s) (hheld : s.rollback.holdsReset = true)
    (hempty : s.sh.rollbackMtx.readers = ∅) {env : idealDev.Env} {m : Level × Int} :
    (rollbackCode (T := T) murmur env m s.locals s.rollback).1.ready s.sh = true := by
  cases hpc : s.rollback with
  | monitor => rw [hpc] at hheld; cases hheld
  | guard => rw [hpc] at hheld; cases hheld
  | lockReset => rw [hpc] at hheld; cases hheld
  | lock next =>
      have hfree : s.sh.rollbackMtx.writer = none :=
        h.free_of_holdsReset .rollback hheld (by rw [holdsRollback, hpc]; rfl)
      exact Access.ready_lockRollback.mpr ⟨hfree, hempty⟩
  | _ => rfl

/-- From wherever it stands, the pass can be completed. -/
theorem pass_completes {p₀ : Pass} {ws : List (Key × Value)}
    (hne : p₀.dev.store.records ≠ [])
    (hinj : ∀ k k', (p₀.dev.store.lookup k).isSome → (p₀.dev.store.lookup k').isSome →
      doubleHash murmur k 1 = doubleHash murmur k' 1 → k = k')
    (h : Locks s) (hat : Pass.PassAt murmur p₀ ws s.pass) :
    ∃ s', Leads (step murmur) Passing s s' ∧ s'.rollback = .monitor := by
  induction hn : s.pass.left using Nat.strong_induction_on generalizing s ws with
  | _ n ih =>
      cases hheld : s.rollback.holdsReset with
      | false => exact ⟨s, Relation.ReflTransGen.refl, passAt_monitor hat hheld⟩
      | true =>
          obtain ⟨s₁, hdr, hempty⟩ : ∃ s₁, Drained murmur s s₁ ∧ _ := drain_all h hheld
          have hheld₁ := hdr.holdsReset hheld
          have hat₁ : Pass.PassAt murmur p₀ ws s₁.pass := by rw [hdr.pass]; exact hat
          have htaken : s₁.step murmur (.rollback [] (.low, 0)) = some _ :=
            step_rollback rfl (rollback_ready hdr.locks hheld₁ hempty)
          obtain ⟨hat₂, hlt⟩ := hat₁.step hne hinj
            (pass_rollback hheld₁ (passAt_iter hat₁) htaken)
          rw [hdr.pass] at hlt
          obtain ⟨s₃, hleads, hend⟩ :=
            ih _ (hn ▸ hlt) (hdr.locks.step htaken) hat₂ rfl
          exact ⟨s₃, (hdr.leads.trans (Leads.single hheld₁ htaken)).trans hleads, hend⟩

/-! ## Nothing redirected is lost -/

/-- A pass that has just acquired `reset_mtx`, with `ks` in the tracker, each
key as often as it was inserted. -/
structure PassStart (murmur : Murmur) (ks : List Key) (s : State T idealDev) :
    Prop where
  locks : Locks s
  acquired : s.rollback = .setFlag
  fresh : s.locals.flag = -2
  flag : s.sh.kacheFlag = 1
  tracker : ∀ h, s.sh.keyTracker.countOf h = ks.countP fun k => doubleHash murmur k 1 == h
  present : ∀ k ∈ ks, (s.sh.dev.store.lookup k).isSome
  nonempty : s.sh.dev.store.records ≠ []
  inj : ∀ k k', (s.sh.dev.store.lookup k).isSome → (s.sh.dev.store.lookup k').isSome →
    doubleHash murmur k 1 = doubleHash murmur k' 1 → k = k'

def passWrites (murmur : Murmur) (tr : List (State T idealDev × Act T idealDev)) :
    List (Key × Value) :=
  tr.flatMap fun e => writesOf murmur e.1 e.2

def passSteps (tr : List (State T idealDev × Act T idealDev)) : Nat :=
  tr.countP fun e => match e.2 with
    | .rollback _ _ => true
    | _ => false

section Whole

variable {ks : List Key} {s₀ : State T idealDev}
  {tr : List (State T idealDev × Act T idealDev)}

omit [DecidableEq T] in
theorem PassStart.passAt (h : PassStart murmur ks s₀) :
    Pass.PassAt murmur s₀.pass [] s₀.pass := by
  have hunscanned : Pass.Unscanned s₀.pass [] s₀.pass :=
    ⟨show s₀.locals.flag < 0 by rw [h.fresh]; decide, rfl, rfl, rfl⟩
  unfold Pass.PassAt
  rw [show s₀.pass.pc = .setFlag from h.acquired]
  exact hunscanned

theorem passAt_run (h : PassStart murmur ks s₀)
    (hrun : Run (step murmur) Passing s₀ tr s) :
    Locks s ∧ Pass.PassAt murmur s₀.pass (passWrites murmur tr) s.pass ∧
      passSteps tr + s.pass.left ≤ s₀.pass.left := by
  induction hrun with
  | start => exact ⟨h.locks, h.passAt, by simp [passSteps]⟩
  | next run hheld htaken ih =>
      rename_i tr s s' act
      obtain ⟨hlocks, hat, hsteps⟩ := ih
      refine ⟨hlocks.step htaken, ?_⟩
      by_cases hact : ∃ env m, act = .rollback env m
      · obtain ⟨env, m, rfl⟩ := hact
        obtain ⟨hat', hlt⟩ := hat.step h.nonempty h.inj
          (pass_rollback hheld (passAt_iter hat) htaken)
        refine ⟨hat', ?_⟩
        simp only [passSteps, List.countP_cons, if_true] at hsteps ⊢
        omega
      · have hpass := pass_other hlocks hheld htaken fun env m heq => hact ⟨env, m, heq⟩
        cases act with
        | rollback env m => exact absurd ⟨env, m, rfl⟩ hact
        | _ => rw [hpass]; exact ⟨hat, hsteps⟩

omit [DecidableEq T] in
theorem PassStart.tracked_iff (h : PassStart murmur ks s₀) {k : Key}
    (hk : (s₀.sh.dev.store.lookup k).isSome) :
    s₀.pass.tracked murmur k = true ↔ k ∈ ks := by
  rw [Pass.tracked, HashMap.contains_iff, show s₀.pass.tracker = s₀.sh.keyTracker from rfl,
    h.tracker, List.countP_pos_iff]
  constructor
  · rintro ⟨k', hk', heq⟩
    rwa [h.inj k k' hk (h.present k' hk') (beq_iff_eq.mp heq).symm]
  · exact fun hmem => ⟨k, hmem, beq_self_eq_true _⟩

/-- What a pass owes to the keys `ks` it found tracked, in every interleaving
with the clients. -/
structure PassSound (murmur : Murmur) (ks : List Key) (s₀ : State T idealDev)
    (tr : List (State T idealDev × Act T idealDev)) (s : State T idealDev) : Prop where
  /-- No client step changes Dev-LSM or the tracker. -/
  clients : ∀ e ∈ tr, (∀ env m, e.2 ≠ .rollback env m) →
    ∀ u, e.1.step murmur e.2 = some u →
      u.sh.dev = e.1.sh.dev ∧ u.sh.keyTracker = e.1.sh.keyTracker
  /-- No key is written twice. -/
  once : ((passWrites murmur tr).map Prod.fst).Nodup
  /-- Only tracked keys are written, with the values Dev-LSM had. -/
  tracked : ∀ r ∈ passWrites murmur tr,
    r.1 ∈ ks ∧ s₀.sh.dev.store.lookup r.1 = some r.2
  /-- At the device reset every tracked key has been written. -/
  all : s.rollback = .devReset → ∀ k ∈ ks, ∃ v, (k, v) ∈ passWrites murmur tr
  /-- At the end both are empty and both flags 0. -/
  ended : s.rollback = .monitor →
    s.sh.keyTracker.entries = [] ∧ s.sh.dev.store = ∅ ∧
      s.sh.kacheFlag = 0 ∧ s.sh.rollbackFlag = 0
  /-- The pass has taken no more than its steps, and the end can be reached. -/
  bounded : passSteps tr ≤ 11 + 8 * s₀.sh.dev.store.records.length
  ends : ∃ s', Leads (step murmur) Passing s s' ∧ s'.rollback = .monitor

theorem pass_loses_nothing (h : PassStart murmur ks s₀)
    (hrun : Run (step murmur) Passing s₀ tr s) : PassSound murmur ks s₀ tr s := by
  obtain ⟨hlocks, hat, hsteps⟩ := passAt_run h hrun
  obtain ⟨hnodup, hwrites⟩ := hat.wrote.sound
  refine ⟨?_, hnodup, ?_, ?_, ?_, ?_, pass_completes h.nonempty h.inj hlocks hat⟩
  · intro e he hact u hu
    obtain ⟨hheld, tr', hrun'⟩ := hrun.of_mem he
    have hpass := pass_other (passAt_run h hrun').1 hheld hu hact
    exact ⟨congrArg Pass.dev hpass, congrArg Pass.tracker hpass⟩
  · intro r hr
    obtain ⟨htracked, hlookup⟩ := hwrites r hr
    refine ⟨(h.tracked_iff ?_).mp htracked, hlookup⟩
    rw [show s₀.sh.dev.store.lookup r.1 = some r.2 from hlookup]
    rfl
  · intro hpc k hk
    obtain ⟨done, hscan⟩ : ∃ done, Pass.Scanning murmur s₀.pass done [] _ _ :=
      hat.of_pc hpc
    obtain ⟨v, hv⟩ := Option.isSome_iff_exists.mp (h.present k hk)
    refine ⟨v, ?_⟩
    rw [hscan.writes, Pass.mem_written]
    have hperm : done.Perm s₀.pass.dev.store.records := by simpa using hscan.records
    exact ⟨hperm.mem_iff.mpr (DevMap.mem_records.mpr hv),
      (h.tracked_iff (h.present k hk)).mpr hk⟩
  · intro hpc
    obtain ⟨herased, hempty, hflags⟩ : Pass.Erased murmur s₀.pass _ _ ∧ _ :=
      hat.of_pc hpc
    exact ⟨hempty, herased.store, hflags⟩
  · have hleft : s₀.pass.left = 11 + 8 * s₀.sh.dev.store.records.length := by
      rw [Pass.left, show s₀.pass.pc = .setFlag from h.acquired]
      rfl
    omega

end Whole

/-! One key tracked twice and one superseded record, with a reader that takes
the shared lock while the pass runs. -/

def passStore : DevMap :=
  (AList.singleton [48, 48, 48, 49] [2]).insert [48, 48, 48, 48] [1]

def passBegins : State Bool idealDev where
  sh := {
    level := .high
    rollbackStatus := 10
    kacheFlag := 1
    rollbackFlag := 0
    resetMtx := some .rollback
    rollbackMtx := { writer := none, readers := ∅ }
    keyTracker := (HashMap.empty.insert (doubleHash murmurHash3 [48, 48, 48, 48] 1)
      [48, 48, 48, 48]).insert (doubleHash murmurHash3 [48, 48, 48, 48] 1)
      [48, 48, 48, 48]
    main := fun _ => none
    dev := { store := passStore, cursor := [] } }
  clients := fun _ => .idle
  rollback := .setFlag
  locals := { flag := -2, key := [], tmpValue := [], iterId := 0 }

theorem passBegins_start :
    PassStart murmurHash3 [[48, 48, 48, 48], [48, 48, 48, 48]] passBegins where
  locks := {
    reset := by rintro (t | _) <;> simp [passBegins, holdsReset,
      ClientPc.holdsReset, RollbackPc.holdsReset]
    rollback := by rintro (t | _) <;> simp [passBegins, holdsRollback,
      ClientPc.holdsRollback, RollbackPc.holdsRollback]
    shared := by intro t; simp [passBegins, ClientPc.holdsShared]
    exclusive := Or.inl rfl }
  acquired := rfl
  fresh := rfl
  flag := rfl
  tracker h := by
    simp only [passBegins, HashMap.countOf_insert, HashMap.countOf_empty,
      List.countP_cons, List.countP_nil, beq_iff_eq]
  present := by decide
  nonempty := by decide
  inj k k' hk hk' heq := by
    have hkeys : ∀ k, (passStore.lookup k).isSome →
        k = [48, 48, 48, 48] ∨ k = [48, 48, 48, 49] := by
      intro k hk
      have hmem : k ∈ [[48, 48, 48, 48], [48, 48, 48, 49]] :=
        AList.mem_keys.mp (AList.lookup_isSome.mp hk)
      simpa using hmem
    rcases hkeys k hk with rfl | rfl <;> rcases hkeys k' hk' with rfl | rfl <;>
      first | rfl | exact absurd heq (by decide)

def passAndReader : List (Act Bool idealDev) :=
  List.replicate 3 (.rollback [] (.high, 10)) ++
    .callGet false [48, 48, 48, 48] :: List.replicate 6 (.client false []) ++
    List.replicate 22 (.rollback [] (.high, 10))

theorem pass_loses_nothing_passBegins :
    (replay (step murmurHash3) passBegins passAndReader).rollback = .monitor ∧
      PassSound murmurHash3 [[48, 48, 48, 48], [48, 48, 48, 48]] passBegins
        (replayTrace (step murmurHash3) passBegins passAndReader [])
        (replay (step murmurHash3) passBegins passAndReader) :=
  ⟨rfl, pass_loses_nothing passBegins_start
    (Run.replay passAndReader .start (by decide))⟩

end State

end Kvaccel.Ref
