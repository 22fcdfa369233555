import Kvaccel.Proofs.KvSections
import Kvaccel.Proofs.SerialMaster

/-!
# What is there when nobody holds the lock

Any number of threads, the driver and the device at once. Whenever `reset_mtx`
is free, the sections have left what they would one after the other
(`replayed_of_run`), and two things follow by going along them.

The driver holds the redirected puts that no pass has moved, in the order in
which their sections took the lock: so many full batches on the device, the
rest in the host buffer. This takes no more than puts that the driver can
carry and allocations that succeed.

And no put is lost or brought back: of every key there is the put that came
into effect last, in Dev-LSM if the key is tracked and in Main-LSM if not.
This takes `Unhidden` on top, a device that `Pairs`, and different hashes for
the keys in use. `Lags` is the invariant: the tracker says which of the two is
behind.
-/

namespace Kvaccel.Spec

open Kvaccel.Lib Kvaccel.Ref

/-! ## The puts of a run -/

section Puts

variable {T : Type} [DecidableEq T] {D : DevLsm} {murmur : Murmur}
  {Q : State T D → Act T D → Prop} {P : Key × Value → Prop}

/-- The put that a client is at. -/
def putting {Pc : Type} : ClientPc Pc → Option (Key × Value)
  | .putLevel k v | .putKache k v | .putDirect k v | .ctlReset k v | .ctlRollback k v
  | .ctlContains k v | .ctlDelete k v | .ctlPut k v | .redReset k v | .redFlag k v
  | .redPut k v _ | .redInsert k v => some (k, v)
  | _ => none

omit [DecidableEq T] in
theorem putting_next {env : D.Env} {pc : ClientPc D.Pc} {a : Access D}
    {next : Shared T D → ClientPc D.Pc} (h : clientCode murmur env pc = some (a, next))
    (sh : Shared T D) {r : Key × Value} (hr : putting (next sh) = some r) :
    putting pc = some r := by
  cases pc with
  | putLevel k v | putKache k v | ctlContains k v =>
      cases h
      revert hr
      dsimp only
      split <;> exact id
  | redPut k v pc =>
      cases h
      revert hr
      dsimp only
      split <;> exact id
  | getKache k | getRollback k | getContains b k =>
      cases h
      revert hr
      dsimp only
      split <;> exact fun hr => by cases hr
  | getDev b k | getMain b k =>
      cases h
      revert hr
      dsimp only
      split <;> exact fun hr => by cases hr
  | putDirect k v | ctlPut k v | redInsert k v =>
      cases h
      cases hr
  | idle => cases h
  | _ => cases h; exact hr

/-- A put in progress was called. -/
theorem puts_called (hQ : ∀ s t k v, Q s (.callPut t k v) → P (k, v))
    {main : Key → Option Value} {dev : D.St} {tr : List (State T D × Act T D)} {s : State T D}
    (h : Run (State.step murmur) Q (State.opened main dev : State T D) tr s) :
    ∀ t r, putting (s.clients t) = some r → P r := by
  refine h.invariant (I := fun s => ∀ t r, putting (s.clients t) = some r → P r) ?_ ?_
  · intro t r hr
    cases hr
  · intro s act s' ih hallowed hstep t r hr
    cases State.Steps.of_step hstep with
    | callPut t' k v _ =>
        by_cases ht : t = t'
        · subst ht
          rw [State.setClient_self] at hr
          cases hr
          exact hQ s t k v hallowed
        · rw [State.setClient_ne s _ ht] at hr
          exact ih t r hr
    | callGet t' k _ =>
        by_cases ht : t = t'
        · subst ht
          rw [State.setClient_self] at hr
          cases hr
        · rw [State.setClient_ne s _ ht] at hr
          exact ih t r hr
    | client t' env a next hcode _ =>
        change putting ((s.setClient t' (next s.sh)).clients t) = some r at hr
        by_cases ht : t = t'
        · subst ht
          rw [State.setClient_self] at hr
          exact ih t r (putting_next hcode s.sh hr)
        · rw [State.setClient_ne s _ ht] at hr
          exact ih t r hr
    | rollback env m a next _ _ => exact ih t r hr

omit [DecidableEq T] in
/-- The sections entered and the puts brought into effect are of that put. -/
theorem putting_of_step {e : State T D × Act T D} {r : Key × Value}
    (h : (entered e).bind Purpose.put = some r ∨ effected e = some r) :
    ∃ t, putting (e.1.clients t) = some r := by
  obtain ⟨s, act⟩ := e
  cases hm : mover act with
  | none =>
      simp only [entered, effected, hm, Option.bind_none] at h
      rcases h with h | h <;> cases h
  | some θ =>
      simp only [entered, effected, hm, Option.bind_some] at h
      cases θ with
      | client t =>
          refine ⟨t, ?_⟩
          simp only [bodyOf] at h
          cases hpc : s.clients t <;> rw [hpc] at h <;> rcases h with h | h <;> cases h <;> rfl
      | rollback =>
          simp only [bodyOf] at h
          cases hpc : s.rollback <;> rw [hpc] at h <;> rcases h with h | h <;> cases h

/-- What holds of every put that is called holds of those that take a lock and
of those that take effect. -/
theorem puts_of_run (hQ : ∀ s t k v, Q s (.callPut t k v) → P (k, v))
    {main : Key → Option Value} {dev : D.St} {tr : List (State T D × Act T D)} {s : State T D}
    (h : Run (State.step murmur) Q (State.opened main dev : State T D) tr s) {e}
    (he : e ∈ tr) {r : Key × Value}
    (hr : (entered e).bind Purpose.put = some r ∨ effected e = some r) : P r := by
  obtain ⟨_, tr', hrun⟩ := h.of_mem he
  obtain ⟨t, ht⟩ := putting_of_step hr
  exact puts_called hQ hrun t r ht

end Puts

/-! ## Which runs -/

section Allowed

variable {σ T : Type} {K : KvDevice σ}

/-- Puts that the driver can carry, and allocations that succeed. -/
structure Carried (K : KvDevice σ) (s : State T (ilsmDev K.exec))
    (act : Act T (ilsmDev K.exec)) : Prop where
  put : ∀ t k v, act = .callPut t k v → Fitting (k, v)
  outside : ∀ out, outsideOf act = some out → Supplied out

/-- And no put that is hidden behind an older one. -/
structure Visible (K : KvDevice σ) (murmur : Murmur) (s : State T (ilsmDev K.exec))
    (act : Act T (ilsmDev K.exec)) : Prop extends Carried K s act where
  unhidden : Unhidden murmur s act

/-- `Carried`, computed. -/
def carries : Act T (ilsmDev K.exec) → Bool
  | .callPut _ k v => decide (Fitting (k, v))
  | .callGet _ _ => true
  | .client _ out | .rollback out _ => isSupplied out

theorem carried_iff (s : State T (ilsmDev K.exec)) (act : Act T (ilsmDev K.exec)) :
    Carried K s act ↔ carries act = true := by
  constructor
  · intro h
    cases act with
    | callPut t k v => exact decide_eq_true (h.put t k v rfl)
    | callGet t k => rfl
    | client t out | rollback out m => exact (supplied_iff out).mp (h.outside out rfl)
  · intro h
    refine ⟨?_, fun out hout => ?_⟩
    · rintro t k v rfl
      exact of_decide_eq_true h
    · cases act with
      | callPut t k v | callGet t k => cases hout
      | client t out' | rollback out' m =>
          cases hout
          exact (supplied_iff _).mpr h

instance (murmur : Murmur) (s : State T (ilsmDev K.exec)) (act : Act T (ilsmDev K.exec)) :
    Decidable (Visible K murmur s act) :=
  decidable_of_iff (carries act = true ∧ Unhidden murmur s act)
    ⟨fun h => ⟨(carried_iff s act).mpr h.1, h.2⟩,
      fun h => ⟨(carried_iff s act).mp h.toCarried, h.unhidden⟩⟩

end Allowed

/-! One of them: a direct put, two that are redirected, one of them taken back by a
put with rollback, a pass for the other, and a redirected put after it. -/

def moving : List (Act Bool (ilsmDev listDevice.exec)) := List.flatten [
  [.callPut false [48, 48, 48, 48] [1]], List.replicate 4 (.client false .fine),
  List.replicate 2 (.rollback .fine (.high, 10)),
  [.callPut true [48, 48, 48, 49] [2]], List.replicate 7 (.client true .fine),
  [.callPut true [48, 48, 48, 50] [3]], List.replicate 7 (.client true .fine),
  List.replicate 2 (.rollback .fine (.low, 40)),
  [.callPut false [48, 48, 48, 49] [4]], List.replicate 10 (.client false .fine),
  List.replicate 36 (.rollback .fine (.low, 10)),
  List.replicate 2 (.rollback .fine (.high, 10)),
  [.callPut true [48, 48, 48, 48] [5]], List.replicate 7 (.client true .fine)]

def beforeMoving : State Bool (ilsmDev listDevice.exec) :=
  State.opened (fun _ => none) (DB.opened ListDevice.empty)

def afterMoving : State Bool (ilsmDev listDevice.exec) :=
  replay (State.step murmurHash3) beforeMoving moving

def movingTrace :
    List (State Bool (ilsmDev listDevice.exec) × Act Bool (ilsmDev listDevice.exec)) :=
  replayTrace (State.step murmurHash3) beforeMoving moving []

theorem visible_moving : ∀ e ∈ movingTrace, Visible listDevice murmurHash3 e.1 e.2 := by
  decide +kernel

theorem run_moving : Run (State.step murmurHash3) (Visible listDevice murmurHash3)
    (State.opened (fun _ => none) (DB.opened ListDevice.empty)) movingTrace afterMoving :=
  Run.start.replay moving visible_moving

theorem run_moving_carried : Run (State.step murmurHash3) (Carried listDevice)
    (State.opened (fun _ => none) (DB.opened ListDevice.empty)) movingTrace afterMoving :=
  Run.start.replay moving fun e he => (visible_moving e he).toCarried

theorem moving_free : afterMoving.sh.resetMtx = none := by
  decide +kernel

theorem outstanding_moving :
    outstanding (movingTrace.reverse.filterMap entered) = [([48, 48, 48, 48], [5])] := by
  decide +kernel

theorem effected_moving :
    movingTrace.reverse.filterMap effected = [([48, 48, 48, 48], [1]), ([48, 48, 48, 49], [2]),
      ([48, 48, 48, 50], [3]), ([48, 48, 48, 49], [4]), ([48, 48, 48, 48], [5])] := by
  decide +kernel

/-- The keys in use. -/
def movingKeys : Set Key := {[48, 48, 48, 48], [48, 48, 48, 49], [48, 48, 48, 50]}

theorem injOn_moving : Set.InjOn (fun k => doubleHash murmurHash3 k 1) movingKeys := by
  intro a ha b hb
  simp only [movingKeys, Set.mem_insert_iff, Set.mem_singleton_iff] at ha hb
  rcases ha with rfl | rfl | rfl <;> rcases hb with rfl | rfl | rfl <;> decide

theorem puts_moving : ∀ r ∈ movingTrace.reverse.filterMap effected, r.1 ∈ movingKeys := by
  rw [effected_moving]
  simp [movingKeys]

theorem mem_empty : listDevice.mem ListDevice.empty = MapDevice.empty := rfl

/-! ## The driver -/

section Driver

variable {σ : Type} {K : KvDevice σ} {murmur : Murmur} {F : Prop}
  {g₀ g : Guarded (ilsmDev K.exec)} {main₀ main : Key → Option Value} {evs : List Event}

theorem filterMap_purpose_concat (evs : List Event) (p : Purpose) :
    (evs ++ [Event.critical p]).filterMap Event.purpose = evs.filterMap Event.purpose ++ [p] := by
  rw [List.filterMap_append]
  rfl

theorem filterMap_purpose_direct (evs : List Event) (k : Key) (v : Value) :
    (evs ++ [Event.direct k v]).filterMap Event.purpose = evs.filterMap Event.purpose := by
  rw [List.filterMap_append, List.filterMap_cons_none rfl, List.filterMap_nil, List.append_nil]

theorem atRest_of_serial (h₀ : AtRest K [] g₀)
    (h : Serial murmur Supplied F g₀ main₀ evs g main) :
    (∀ k v, .redirected k v ∈ evs.filterMap Event.purpose → Fitting (k, v)) →
    AtRest K (outstanding (evs.filterMap Event.purpose)) g := by
  induction h with
  | start => exact fun _ => h₀
  | direct _ k v _ ih =>
      intro hfit
      rw [filterMap_purpose_direct] at hfit ⊢
      exact ih hfit
  | critical _ p hbegins halone hout ih =>
      intro hfit
      rw [filterMap_purpose_concat] at hfit ⊢
      have hrest := ih fun k v hmem => hfit k v (List.mem_append_left _ hmem)
      rw [outstanding_concat]
      refine (hrest.critical (fun hne => K.delivers hne hrest.fitting)
        (fun k v hp => hfit k v ?_) hbegins halone hout).1
      rw [hp]
      simp

/-- An empty device and a driver just opened. -/
theorem atRest_opened {T : Type} {device : σ} (h : K.mem device = MapDevice.empty)
    (main : Key → Option Value) :
    AtRest K [] (guarded (State.opened main (DB.opened device) : State T (ilsmDev K.exec)).sh) where
  stored := stored_opened h
  clean := fun _ => ⟨rfl, rfl⟩
  fitting := by simp
  some := fun hone => by cases hone
  calm := rfl

/-- The driver in a state of the threads. -/
def ilsmDb {T : Type} {exec : Device σ} (s : State T (ilsmDev exec)) : DB σ := s.sh.dev

theorem AtRest.same {l : List (Key × Value)} (h : AtRest K l g)
    (hsame : (driverSilent K).Same g g₀) : AtRest K l g₀ := by
  have hview : DB.unstat g.dev = DB.unstat g₀.dev := hsame.view
  have hkeys : DB.keys g₀.dev = DB.keys g.dev := (congrArg DB.keys hview).symm
  have hvalues : DB.values g₀.dev = DB.values g.dev := (congrArg DB.values hview).symm
  refine ⟨h.stored.congr (congrArg DB.bufferingInfo hview).symm ?_, ?_, h.fitting, ?_, ?_⟩
  · exact congrArg K.mem (congrArg DB.device hview).symm
  · intro iterId
    rw [hkeys, hvalues]
    exact h.clean iterId
  · rw [← hsame.kacheFlag]
    exact h.some
  · rw [← hsame.rollbackFlag]
    exact h.calm

variable {T : Type} [DecidableEq T] {tr : List (State T (ilsmDev K.exec) × Act T (ilsmDev K.exec))}
  {s : State T (ilsmDev K.exec)} {device : σ}

/-- The redirected puts among the sections were called. -/
theorem fitting_of_run {Q : State T (ilsmDev K.exec) → Act T (ilsmDev K.exec) → Prop}
    (hQ : ∀ s act, Q s act → Carried K s act)
    (h : Run (State.step murmur) Q (State.opened main (DB.opened device)) tr s) {p : Purpose}
    (hp : p ∈ tr.reverse.filterMap entered) {r : Key × Value} (hr : p.put = some r) :
    Fitting r := by
  obtain ⟨e, he, hentered⟩ := List.mem_filterMap.mp hp
  refine puts_of_run (P := Fitting) (fun s t k v hallowed => (hQ s _ hallowed).put t k v rfl) h
    (List.mem_reverse.mp he) (Or.inl ?_)
  rw [hentered]
  exact hr

theorem atRest_of_run {Q : State T (ilsmDev K.exec) → Act T (ilsmDev K.exec) → Prop}
    (hQ : ∀ s act, Q s act → Carried K s act) (hdev : K.mem device = MapDevice.empty)
    (h : Run (State.step murmur) Q (State.opened main (DB.opened device)) tr s)
    (hfree : s.sh.resetMtx = none) :
    AtRest K (outstanding (tr.reverse.filterMap entered)) (guarded s.sh) := by
  obtain ⟨evs, g, hserial, hsame, horder, _⟩ := (replayed_of_run (E := Supplied) (F := False)
    (driverSilent K) (fun s act out hallowed => (hQ s act hallowed).outside out) False.elim
    h).2.2.row hfree
  have hrest := atRest_of_serial (atRest_opened hdev main) hserial fun k v hmem => by
    rw [horder] at hmem
    exact fitting_of_run hQ h hmem rfl
  rw [horder] at hrest
  exact hrest.same hsame

end Driver

section Lagging

variable {D : DevLsm} {murmur : Murmur} {U : Set Key} {main₀ main : Key → Option Value}
  {puts l ws : List (Key × Value)} {g g' : Guarded D} {k : Key} {v : Value}

/-- What the stores and the tracker make of the puts so far: of a tracked key
Dev-LSM has the last one, of the others Main-LSM. The keys in use are in `U`. -/
structure Lags (murmur : Murmur) (U : Set Key) (main₀ : Key → Option Value)
    (puts l : List (Key × Value)) (g : Guarded D) (main : Key → Option Value) : Prop where
  untracked : g.kacheFlag = 0 → ∀ h, g.keyTracker.contains h = false
  known : ∀ k ∈ U, g.keyTracker.contains (doubleHash murmur k 1) = true →
    (lastPut l k).isSome
  value : ∀ k ∈ U,
    (if g.keyTracker.contains (doubleHash murmur k 1) then lastPut l k else main k) =
      overwrite main₀ puts k

theorem Lags.direct (h : Lags murmur U main₀ puts l g main) (hzero : g.kacheFlag = 0) :
    Lags murmur U main₀ (puts ++ [(k, v)]) l g (Function.update main k (some v)) := by
  refine ⟨h.untracked, h.known, fun k' hk' => ?_⟩
  have hvalue := h.value k' hk'
  rw [h.untracked hzero, if_neg (by simp)] at hvalue ⊢
  rw [overwrite_concat]
  by_cases heq : k' = k
  · subst heq
    rw [Function.update_self, Function.update_self]
  · rw [Function.update_of_ne heq, Function.update_of_ne heq, hvalue]

theorem countOf_takenBack (murmur : Murmur) (tracker : HashMap Key 128) (k : Key) (h : UInt64) :
    (takenBack murmur tracker k).countOf h =
      tracker.countOf h - if doubleHash murmur k 1 = h then 1 else 0 := by
  unfold takenBack
  split
  · exact HashMap.countOf_delete _ _ _
  · rename_i hno
    rw [Bool.not_eq_true, HashMap.contains_eq_false_iff] at hno
    split
    · rename_i heq
      rw [← heq]
      omega
    · omega

theorem lastPut_concat (l : List (Key × Value)) (k : Key) (v : Value) (k' : Key) :
    lastPut (l ++ [(k, v)]) k' = if k' = k then some v else lastPut l k' := by
  rw [DB.lastPut_append]
  by_cases hk : k' = k
  · subst hk
    simp [lastPut, applied]
  · simp [lastPut, applied, hk]

variable (hinj : Set.InjOn (fun k => doubleHash murmur k 1) U)

include hinj

theorem Lags.withRollback (h : Lags murmur U main₀ puts l g main) (hk : k ∈ U)
    (hone : g.keyTracker.countOf (doubleHash murmur k 1) ≤ 1)
    (hflag : g'.kacheFlag = g.kacheFlag)
    (htracker : g'.keyTracker = takenBack murmur g.keyTracker k) :
    Lags murmur U main₀ (puts ++ [(k, v)]) l g' (overwrite main [(k, v)]) := by
  refine ⟨fun hzero h' => ?_, fun k' hk' hin => ?_, fun k' hk' => ?_⟩
  · rw [htracker]
    exact takenBack_contains (h.untracked (hflag.symm.trans hzero) h')
  · refine h.known k' hk' ?_
    rw [htracker, HashMap.contains_iff, countOf_takenBack] at hin
    rw [HashMap.contains_iff]
    omega
  · rw [htracker, overwrite_concat]
    by_cases heq : k' = k
    · -- The one entry of the key is gone, and Main-LSM has the put.
      subst heq
      have hno : (takenBack murmur g.keyTracker k').contains (doubleHash murmur k' 1) = false := by
        rw [HashMap.contains_eq_false_iff, countOf_takenBack, if_pos rfl]
        omega
      rw [hno, if_neg (by simp), Function.update_self]
      exact Function.update_self ..
    · have hsame : (takenBack murmur g.keyTracker k).contains (doubleHash murmur k' 1) =
          g.keyTracker.contains (doubleHash murmur k' 1) := by
        have hne : doubleHash murmur k 1 ≠ doubleHash murmur k' 1 :=
          fun hhash => heq (hinj hk hk' hhash).symm
        rw [Bool.eq_iff_iff, HashMap.contains_iff, HashMap.contains_iff, countOf_takenBack,
          if_neg hne, Nat.sub_zero]
      rw [hsame, Function.update_of_ne heq, ← h.value k' hk']
      congr 1
      exact Function.update_of_ne heq ..

theorem Lags.redirected (h : Lags murmur U main₀ puts l g main) (hk : k ∈ U)
    (hflag : g'.kacheFlag = 1)
    (htracker : g'.keyTracker = g.keyTracker.insert (doubleHash murmur k 1) k) :
    Lags murmur U main₀ (puts ++ [(k, v)]) (l ++ [(k, v)]) g' main := by
  have hother : ∀ k' ∈ U, k' ≠ k →
      g'.keyTracker.contains (doubleHash murmur k' 1) =
        g.keyTracker.contains (doubleHash murmur k' 1) := by
    intro k' hk' heq
    rw [htracker]
    exact HashMap.contains_insert_of_ne fun hhash => heq (hinj hk hk' hhash).symm
  refine ⟨fun hzero => ?_, fun k' hk' hin => ?_, fun k' hk' => ?_⟩
  · rw [hflag] at hzero
    cases hzero
  · rw [lastPut_concat]
    by_cases heq : k' = k
    · rw [if_pos heq]
      rfl
    · rw [hother k' hk' heq] at hin
      rw [if_neg heq]
      exact h.known k' hk' hin
  · rw [overwrite_concat, lastPut_concat]
    by_cases heq : k' = k
    · subst heq
      have hin : g'.keyTracker.contains (doubleHash murmur k' 1) = true := by
        rw [htracker, HashMap.contains_iff, HashMap.countOf_insert, if_pos rfl]
        omega
      rw [if_pos hin, if_pos rfl, Function.update_self]
    · rw [hother k' hk' heq, if_neg heq, Function.update_of_ne heq]
      exact h.value k' hk'

/-- The pass writes the records of the tracked keys. -/
theorem migrated_writes {rs : List (Key × Value)} (tracker : HashMap Key 128)
    (hnodup : (rs.map Prod.fst).Nodup) (hrs : ∀ r ∈ rs, r.1 ∈ U) :
    (migrated murmur rs tracker).1 =
      rs.filter fun r => tracker.contains (doubleHash murmur r.1 1) := by
  have hkeys : ∀ a ∈ rs.map Prod.fst, a ∈ U := by
    intro a ha
    obtain ⟨r, hr, rfl⟩ := List.mem_map.mp ha
    exact hrs r hr
  have hall := Master.migrateAll_writes murmur rs { Master.opened with keyTracker := tracker }
    hnodup fun a ha b hb hhash => hinj (hkeys a ha) (hkeys b hb) hhash
  rw [migrateAll_eq] at hall
  exact hall

theorem Lags.pass {rs : List (Key × Value)} (h : Lags murmur U main₀ puts l g main)
    (hl : ∀ r ∈ l, r.1 ∈ U) (hrs : LastOf rs l)
    (htracker : g'.keyTracker = (migrated murmur rs g.keyTracker).2.clear) :
    Lags murmur U main₀ puts [] g' (overwrite main (migrated murmur rs g.keyTracker).1) := by
  have hempty : ∀ h', g'.keyTracker.contains h' = false := by
    intro h'
    rw [htracker, HashMap.contains_eq_false_iff]
    exact HashMap.countOf_clear _ _
  refine ⟨fun _ => hempty, fun k' _ hin => ?_, fun k' hk' => ?_⟩
  · rw [hempty] at hin
    cases hin
  · have hkeys : ∀ r ∈ rs, r.1 ∈ U :=
      fun r hr => hl r (DB.mem_of_lastPut ((hrs.mem r).mp hr))
    rw [hempty, if_neg (by simp), migrated_writes hinj g.keyTracker hrs.once hkeys,
      ← h.value k' hk']
    by_cases hin : g.keyTracker.contains (doubleHash murmur k' 1) = true
    · obtain ⟨v', hv'⟩ := Option.isSome_iff_exists.mp (h.known k' hk' hin)
      rw [if_pos hin, hv']
      refine overwrite_of_mem (hrs.once.sublist (List.filter_sublist.map _)) ?_
      rw [List.mem_filter]
      exact ⟨(hrs.mem (k', v')).mpr hv', hin⟩
    · rw [if_neg hin]
      refine overwrite_of_notMem fun w hw hkey => hin ?_
      rw [← hkey]
      exact (List.mem_filter.mp hw).2

theorem Lags.critical {p : Purpose} (h : Lags murmur U main₀ puts l g main)
    (hl : ∀ r ∈ l, r.1 ∈ U) (hput : ∀ r, p.put = some r → r.1 ∈ U)
    (hbegins : p.Begins murmur True g) (hdoes : Does murmur (LastOf · l) g ws g' p) :
    Lags murmur U main₀ (puts ++ p.put.toList) (p.leaves l) g' (overwrite main ws) := by
  cases p with
  | withRollback k v =>
      obtain ⟨rfl, hflag, htracker⟩ := hdoes
      exact h.withRollback hinj (hput (k, v) rfl) (hbegins trivial) hflag htracker
  | redirected k v =>
      obtain ⟨rfl, hflag, htracker⟩ := hdoes
      exact h.redirected hinj (hput (k, v) rfl) hflag htracker
  | pass locals =>
      obtain ⟨rs, hrs, rfl, _, htracker⟩ := hdoes
      have hpass := h.pass hinj hl hrs htracker
      rwa [← List.append_nil puts] at hpass

end Lagging

/-! ## The runs -/

section Runs

variable {σ : Type} {K : KvDevice σ} {murmur : Murmur} {U : Set Key}
  {g₀ g : Guarded (ilsmDev K.exec)} {main₀ main : Key → Option Value} {evs : List Event}

theorem filterMap_put_concat (evs : List Event) (ev : Event) :
    (evs ++ [ev]).filterMap Event.put = evs.filterMap Event.put ++ ev.put.toList := by
  rw [List.filterMap_append, List.filterMap_cons]
  cases ev.put <;> rfl

theorem put_mem_of_purpose_mem {p : Purpose} {r : Key × Value} (hr : p.put = some r) :
    p ∈ evs.filterMap Event.purpose → r ∈ evs.filterMap Event.put := by
  intro hp
  obtain ⟨ev, hev, hpurpose⟩ := List.mem_filterMap.mp hp
  refine List.mem_filterMap.mpr ⟨ev, hev, ?_⟩
  cases ev with
  | direct k v => cases hpurpose
  | critical p' =>
      cases hpurpose
      exact hr

theorem lags_of_serial (hpairs : K.Pairs) (hinj : Set.InjOn (fun k => doubleHash murmur k 1) U)
    (h₀ : AtRest K [] g₀) (hlags : Lags murmur U main₀ [] [] g₀ main₀)
    (h : Serial murmur Supplied True g₀ main₀ evs g main) :
    (∀ r ∈ evs.filterMap Event.put, Fitting r ∧ r.1 ∈ U) →
    Lags murmur U main₀ (evs.filterMap Event.put) (outstanding (evs.filterMap Event.purpose)) g
      main := by
  induction h with
  | start => exact fun _ => hlags
  | direct _ k v hfresh ih =>
      intro hfit
      rw [filterMap_put_concat] at hfit ⊢
      rw [filterMap_purpose_direct]
      exact (ih fun r hr => hfit r (List.mem_append_left _ hr)).direct (hfresh trivial)
  | @critical evs g g' main ws b hserial p hbegins halone hout ih =>
      intro hfit
      rw [filterMap_put_concat] at hfit ⊢
      have hfit' : ∀ r ∈ evs.filterMap Event.put, Fitting r ∧ r.1 ∈ U :=
        fun r hr => hfit r (List.mem_append_left _ hr)
      have hput : ∀ r, p.put = some r → Fitting r ∧ r.1 ∈ U := by
        intro r hr
        refine hfit r (List.mem_append_right _ ?_)
        rw [Event.put, hr]
        exact List.mem_singleton_self r
      have hrest := atRest_of_serial h₀ hserial fun k v hmem =>
        (hfit' (k, v) (put_mem_of_purpose_mem rfl hmem)).1
      have hdoes := (hrest.critical (fun hne => hpairs.delivers hne hrest.fitting)
        (fun k v hp => (hput (k, v) (by rw [hp]; rfl)).1) hbegins halone hout).2
      rw [filterMap_purpose_concat, outstanding_concat]
      refine (ih hfit').critical hinj (fun r hr => ?_) (fun r hr => (hput r hr).2) hbegins hdoes
      exact (hfit' r (put_mem_of_purpose_mem rfl (mem_outstanding hr))).2

theorem SamePuts.mem {a b : List (Key × Value)} (h : SamePuts a b) {r : Key × Value}
    (hr : r ∈ a) : r ∈ b := by
  have hmem : r ∈ a.filter fun w => w.1 = r.1 := List.mem_filter.mpr ⟨hr, by simp⟩
  rw [h r.1] at hmem
  exact (List.mem_filter.mp hmem).1

variable {T : Type} [DecidableEq T] {tr : List (State T (ilsmDev K.exec) × Act T (ilsmDev K.exec))}
  {s : State T (ilsmDev K.exec)} {device : σ}

theorem lags_of_run (hpairs : K.Pairs) (hinj : Set.InjOn (fun k => doubleHash murmur k 1) U)
    (hU : ∀ r ∈ tr.reverse.filterMap effected, r.1 ∈ U) (hdev : K.mem device = MapDevice.empty)
    (h : Run (State.step murmur) (Visible K murmur) (State.opened main (DB.opened device)) tr s)
    (hfree : s.sh.resetMtx = none) :
    Lags murmur U main (tr.reverse.filterMap effected)
      (outstanding (tr.reverse.filterMap entered)) (guarded s.sh) s.sh.main := by
  obtain ⟨evs, g, hserial, hsame, horder, hputs⟩ := (replayed_of_run (E := Supplied) (F := True)
    (driverSilent K) (fun s act out hallowed => hallowed.outside out)
    (fun _ s act hallowed => hallowed.unhidden) h).2.2.row hfree
  have hopened : Lags murmur U main [] []
      (guarded (State.opened main (DB.opened device) : State T (ilsmDev K.exec)).sh) main := by
    have hempty : ∀ h', (HashMap.empty : HashMap Key 128).contains h' = false := fun h' =>
      (HashMap.contains_eq_false_iff _ _).mpr (HashMap.countOf_empty h')
    refine ⟨fun _ => hempty, fun k _ hin => ?_, fun k _ => ?_⟩
    · rw [show (guarded _).keyTracker = HashMap.empty from rfl, hempty] at hin
      cases hin
    · rw [show (guarded _).keyTracker = HashMap.empty from rfl, hempty]
      rfl
  have hlags := lags_of_serial hpairs hinj (atRest_opened hdev main) hopened hserial
    fun r hr => by
      obtain ⟨e, he, heffected⟩ := List.mem_filterMap.mp (hputs.mem hr)
      exact ⟨puts_of_run (P := Fitting) (fun s t k v hallowed => hallowed.put t k v rfl) h
        (List.mem_reverse.mp he) (Or.inr heffected), hU r (hputs.mem hr)⟩
  rw [horder] at hlags
  have htracker : g.keyTracker = (guarded s.sh).keyTracker := hsame.keyTracker
  refine ⟨fun hzero => ?_, fun k hk hin => ?_, fun k hk => ?_⟩
  · rw [← htracker]
    exact hlags.untracked (hsame.kacheFlag.trans hzero)
  · rw [← htracker] at hin
    exact hlags.known k hk hin
  · rw [← htracker, hlags.value k hk, overwrite_congr hputs]

/-- Whenever `reset_mtx` is free, every key has the put of it that came into
effect last: among the outstanding puts, which are in Dev-LSM, if the key is
tracked, and in Main-LSM if not. -/
theorem last_put_at_rest (hpairs : K.Pairs)
    (hinj : Set.InjOn (fun k => doubleHash murmur k 1) U)
    (hU : ∀ r ∈ tr.reverse.filterMap effected, r.1 ∈ U) (hdev : K.mem device = MapDevice.empty)
    (h : Run (State.step murmur) (Visible K murmur) (State.opened main (DB.opened device)) tr s)
    (hfree : s.sh.resetMtx = none) {k : Key} (hk : k ∈ U) :
    (if s.sh.tracked murmur k then lastPut (outstanding (tr.reverse.filterMap entered)) k
      else s.sh.main k) = overwrite main (tr.reverse.filterMap effected) k :=
  (lags_of_run hpairs hinj hU hdev h hfree).value k hk

end Runs

/-- The key that was taken back. -/
theorem last_put_at_rest_moving :
    movingTrace.reverse.filterMap effected = [([48, 48, 48, 48], [1]), ([48, 48, 48, 49], [2]),
        ([48, 48, 48, 50], [3]), ([48, 48, 48, 49], [4]), ([48, 48, 48, 48], [5])] ∧
      (if afterMoving.sh.tracked murmurHash3 [48, 48, 48, 49] then
          lastPut (outstanding (movingTrace.reverse.filterMap entered)) [48, 48, 48, 49]
        else afterMoving.sh.main [48, 48, 48, 49]) =
        overwrite (fun _ => none) (movingTrace.reverse.filterMap effected) [48, 48, 48, 49] :=
  ⟨effected_moving, last_put_at_rest pairs_listDevice injOn_moving puts_moving mem_empty
    run_moving moving_free (by simp [movingKeys])⟩

end Kvaccel.Spec
