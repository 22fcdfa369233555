import Kvaccel.Lib.Inevitable
import Kvaccel.Proofs.KvReads

/-!
# The rollback thread alone

When the clients are quiet, or at least keep their hands off the two locks, a
pass goes through: whatever the allocations leave in the fresh pages and the
monitor reads, as long as it lets a pass begin. The argument runs over the code
of `Rollback_Consumer` from its end backwards. It terminates for two reasons, a
call of `ilsm_db_` that sends several commands ends (`DevEnds`), and a scan
hands out a finite list (`Hands`).

What the stores hold then is not for this argument to say. The steps are a
continuation of the run, and `reset_mtx` is free at their end.
-/

namespace Kvaccel.Spec

open Kvaccel.Lib Kvaccel.Ref

/-! ## The code, backwards -/

section Code

variable {T : Type} [DecidableEq T] {D : DevLsm} {murmur : Murmur} {E : D.Env → Prop}
  {J : D.St → Prop} {P : List (Key × Value) → Prop} {clients : T → ClientPc D.Pc}
  {pc : RollbackPc D.Pc} {l : Ref.Locals} {sh : Shared T D}

/-- A step of the rollback thread, with a reading that lets a pass begin. -/
def Unhindered (E : D.Env → Prop) (act : Act T D) : Prop :=
  ∃ env m, act = .rollback env m ∧ E env ∧ m.2 ≤ 26

/-- No pass under way, and none to do. -/
def AllMoved (s : State T D) : Prop := s.sh.resetMtx = none ∧ s.sh.kacheFlag = 0

/-- From this counter the rollback thread gets there by itself. -/
def Drains (murmur : Murmur) (E : D.Env → Prop) (clients : T → ClientPc D.Pc)
    (pc : RollbackPc D.Pc) (l : Ref.Locals) (sh : Shared T D) : Prop :=
  Inevitable (State.step murmur) (Unhindered E) AllMoved ⟨sh, clients, pc, l⟩

/-- The row at hand, with every lock it wants free. -/
theorem Drains.row {a : D.Env → Level × Int → Access D}
    {next : D.Env → Level × Int → Shared T D → RollbackPc D.Pc × Ref.Locals}
    (hcode : ∀ env m, rollbackCode murmur env m l pc = (a env m, next env m))
    (hready : ∀ env m, (a env m).ready sh = true)
    (h : ∀ env m, E env → m.2 ≤ 26 → Drains murmur E clients (next env m sh).1
      (next env m sh).2 ((a env m).effect murmur .rollback env sh)) :
    Drains murmur E clients pc l sh := by
  have hstep : ∀ env m, State.step murmur ⟨sh, clients, pc, l⟩ (.rollback env m) =
      some ⟨(a env m).effect murmur .rollback env sh, clients, (next env m sh).1,
        (next env m sh).2⟩ := by
    intro env m
    simp only [State.step, hcode, hready, if_true]
  refine .later ?_ ?_
  · rintro _ ⟨env, m, rfl, _, _⟩
    rw [hstep]
    rfl
  · rintro _ s' ⟨env, m, rfl, hE, hm⟩ htaken
    rw [hstep] at htaken
    cases htaken
    exact h env m hE hm

/-- The end of a pass asks for nothing. -/
theorem drains_devReset (l : Ref.Locals) (sh : Shared T D) :
    Drains murmur E clients .devReset l sh := by
  refine .row (fun _ _ => rfl) (fun _ _ => rfl) fun _ _ _ _ => ?_
  refine .row (fun _ _ => rfl) (fun _ _ => rfl) fun _ _ _ _ => ?_
  refine .row (fun _ _ => rfl) (fun _ _ => rfl) fun _ _ _ _ => ?_
  refine .row (fun _ _ => rfl) (fun _ _ => rfl) fun _ _ _ _ => ?_
  refine .row (fun _ _ => rfl) (fun _ _ => rfl) fun _ _ _ _ => ?_
  exact .row (fun _ _ => rfl) (fun _ _ => rfl) fun _ _ _ _ => .here ⟨rfl, rfl⟩

/-- Nobody is inside `rollback_mtx`. -/
def Unlocked (sh : Shared T D) : Prop :=
  sh.rollbackMtx.writer = none ∧ sh.rollbackMtx.readers = ∅

/-- The rows that deal with a record, up to the top of the loop. -/
theorem drains_contains (hreaders : sh.rollbackMtx.readers = ∅)
    (h : ∀ sh', Unlocked sh' → sh'.dev = sh.dev → Drains murmur E clients .loop l sh') :
    Drains murmur E clients .contains l sh := by
  have hunlock : ∀ sh' : Shared T D, sh'.rollbackMtx.readers = ∅ → sh'.dev = sh.dev →
      Drains murmur E clients .unlock l sh' := by
    intro sh' hreaders' hdev
    refine .row (fun _ _ => rfl) (fun _ _ => rfl) fun _ _ _ _ => ?_
    exact .row (fun _ _ => rfl) (fun _ _ => rfl) fun _ _ _ _ => h _ ⟨rfl, hreaders'⟩ hdev
  refine .row (fun _ _ => rfl) (fun _ _ => rfl) fun _ _ _ _ => ?_
  dsimp only
  by_cases htr : sh.tracked murmur l.key = true
  · rw [if_pos htr]
    refine .row (fun _ _ => rfl) (fun _ _ => rfl) fun _ _ _ _ => ?_
    exact .row (fun _ _ => rfl) (fun _ _ => rfl) fun _ _ _ _ => hunlock _ hreaders rfl
  · rw [if_neg htr]
    exact hunlock _ hreaders rfl

/-- `rollback_mtx.lock()`, for the end of the scan or for a record. -/
theorem drains_lock {next : Bool} (hfree : Unlocked sh)
    (h : ¬ (next = true ∧ l.flag = -3) → ∀ sh', Unlocked sh' → sh'.dev = sh.dev →
      Drains murmur E clients .loop l sh') :
    Drains murmur E clients (.lock next) l sh := by
  refine .row (fun _ _ => rfl) (fun _ _ => Access.ready_lockRollback.mpr hfree) fun _ _ _ _ => ?_
  dsimp only
  by_cases hend : next = true ∧ l.flag = -3
  · rw [if_pos hend]
    exact drains_devReset _ _
  · rw [if_neg hend]
    exact drains_contains hfree.2 (h hend)

/-- The loop, by the records that are still to come. -/
theorem drains_loop : ∀ (rs : List (Key × Value)) (l : Ref.Locals) (sh : Shared T D), 0 ≤ l.flag →
    Unlocked sh → Hands E J l.iterId rs sh.dev → Drains murmur E clients .loop l sh := by
  intro rs
  induction rs with
  | nil =>
      intro l sh hflag hfree hhands
      refine .row (fun _ _ => rfl) (fun _ _ => rfl) fun _ _ _ _ => ?_
      dsimp only
      rw [if_neg (Int.not_lt.mpr hflag)]
      refine .row (fun _ _ => rfl) (fun _ _ => rfl) fun env _ hE _ => ?_
      exact drains_lock hfree fun hgo => absurd ⟨rfl, (hhands env l.key l.tmpValue hE).1⟩ hgo
  | cons r rs ih =>
      intro l sh hflag hfree hhands
      refine .row (fun _ _ => rfl) (fun _ _ => rfl) fun _ _ _ _ => ?_
      dsimp only
      rw [if_neg (Int.not_lt.mpr hflag)]
      refine .row (fun _ _ => rfl) (fun _ _ => rfl) fun env _ hE _ => ?_
      obtain ⟨hone, _, _, hrest⟩ := hhands env l.key l.tmpValue hE
      refine drains_lock hfree fun _ sh' hfree' hdev => ih _ sh' ?_ hfree' ?_
      · show (0 : Int) ≤ (D.nextScan env l.iterId l.key l.tmpValue sh.dev).1
        rw [hone]
        decide
      · rw [hdev]
        exact hrest

/-- A call of Dev-LSM sends no more than finitely many commands. -/
inductive DevEnds (E : D.Env → Prop) : D.Pc → Nat → D.St → Prop where
  | intro {pc : D.Pc} {id : Nat} {st : D.St}
      (more : ∀ env pc', E env → (D.step env pc id st).1 = some pc' →
        DevEnds E pc' (D.step env pc id st).2.1 (D.step env pc id st).2.2) : DevEnds E pc id st

theorem drains_createIter {p : D.Pc} {id : Nat} {st : D.St} (hends : DevEnds E p id st) :
    ∀ (l : Ref.Locals) (sh : Shared T D), l.iterId = id → sh.dev = st → Unlocked sh →
    (∀ id' st', DevIter E p id st id' st' → ∀ sh', Unlocked sh' → sh'.dev = st' →
      Drains murmur E clients .seekScan { l with iterId := id' } sh') →
    Drains murmur E clients (.createIter p) l sh := by
  induction hends with
  | @intro p id st more ih =>
      rintro l sh rfl rfl hfree h
      refine .row (fun _ _ => rfl) (fun _ _ => rfl) fun env _ hE _ => ?_
      dsimp only
      cases hpc : (D.step env p l.iterId sh.dev).1 with
      | none => exact h _ _ (.last hE hpc) _ hfree rfl
      | some p' =>
          exact ih env p' hE hpc _ _ rfl rfl hfree fun id' st' hcall =>
            h id' st' (.more hE hpc hcall)

/-- All that a pass needs. -/
structure Poised (E : D.Env → Prop) (J : D.St → Prop) (P : List (Key × Value) → Prop)
    (l : Ref.Locals) (sh : Shared T D) : Prop where
  reset : sh.resetMtx = none
  unlocked : Unlocked sh
  kache : sh.kacheFlag = 1
  flag : l.flag < 0
  ends : DevEnds E D.iterPc l.iterId sh.dev
  starts : ∀ id st, DevIter E D.iterPc l.iterId sh.dev id st → Starts E J P id st

theorem drains_setFlag (hfree : Unlocked sh) (hflag : l.flag < 0)
    (hends : DevEnds E D.iterPc l.iterId sh.dev)
    (hstarts : ∀ id st, DevIter E D.iterPc l.iterId sh.dev id st → Starts E J P id st) :
    Drains murmur E clients .setFlag l sh := by
  refine .row (fun _ _ => rfl) (fun _ _ => rfl) fun _ _ _ _ => ?_
  refine .row (fun _ _ => rfl) (fun _ _ => rfl) fun _ _ _ _ => ?_
  dsimp only
  rw [if_pos hflag]
  refine drains_createIter hends _ _ rfl rfl hfree fun id st hcall sh' hfree' hdev => ?_
  subst hdev
  refine .row (fun _ _ => rfl) (fun _ _ => rfl) fun env _ hE _ => ?_
  obtain ⟨r, rs, _, hone, _, _, hhands⟩ := hstarts id _ hcall env l.tmpValue hE
  refine drains_lock hfree' fun _ sh'' hfree'' hdev'' =>
    drains_loop (J := J) rs _ sh'' ?_ hfree'' ?_
  · show (0 : Int) ≤ (D.seekScan env id startKey l.tmpValue sh'.dev).1
    rw [hone]
    decide
  · rw [hdev'']
    exact hhands

theorem Poised.lockReset (h : Poised E J P l sh) : Drains murmur E clients .lockReset l sh :=
  .row (fun _ _ => rfl) (fun _ _ => Access.ready_lockReset.mpr h.reset) fun _ _ _ _ =>
    drains_setFlag h.unlocked h.flag h.ends h.starts

theorem Poised.monitor (h : Poised E J P l sh) : Drains murmur E clients .monitor l sh := by
  refine .row (fun _ _ => rfl) (fun _ _ => rfl) fun _ m _ hm => ?_
  refine .row (fun _ _ => rfl) (fun _ _ => rfl) fun _ _ _ _ => ?_
  dsimp only
  split
  · exact Poised.lockReset (J := J) (P := P)
      ⟨h.reset, h.unlocked, h.kache, h.flag, h.ends, h.starts⟩
  · rename_i hno
    exact absurd ⟨hm, h.kache⟩ hno

/-- The guard that does not let the pass begin is not the last one. -/
theorem Poised.guard (h : Poised E J P l sh) : Drains murmur E clients .guard l sh := by
  refine .row (fun _ _ => rfl) (fun _ _ => rfl) fun _ _ _ _ => ?_
  dsimp only
  split
  · exact h.lockReset
  · exact h.monitor

end Code

/-! ## The driver -/

section Driver

variable {σ : Type} {exec : Device σ} {E : Outside → Prop}

/-- What comes to its end in one piece comes to its end. -/
theorem devEnds_of_runPc : ∀ (fuel : Nat) {pc : IlsmPc} {db : DB σ} {id : Nat} {r : Nat × DB σ},
    flushing pc = true → runPc exec .fine fuel pc id db = some r → ∀ id',
    DevEnds (D := ilsmDev exec) E pc id' db := by
  intro fuel
  induction fuel with
  | zero => intro pc db id r _ hrun; cases hrun
  | succ fuel ih =>
      intro pc db id r hpc hrun id'
      refine .intro fun env pc' _ hgoes => ?_
      obtain ⟨hnext, hdb, hflush⟩ : _ ∧ (ilsmStep exec env pc id' db).2.2 = _ ∧ _ :=
        ilsmStep_flushing hpc env .fine id' id
      have hgoes : (ilsmStep exec env pc id' db).1 = some pc' := hgoes
      rw [runPc_more (hnext.symm.trans hgoes), ← hdb] at hrun
      exact ih (hflush pc' hgoes) hrun _

theorem Stored.devEnds {K : KvDevice σ} {split : Split} {db : DB σ} (h : Stored K split db)
    (iterId : Nat) : DevEnds (D := ilsmDev K.exec) Supplied .createIter iterId db := by
  have hoffset : db.bufferingInfo.valueLogOffset ≤ maxValueBufferEntry := by
    rw [h.buffered.offset]
    obtain ⟨m, _, hholds⟩ := h
    exact hholds.fits
  have hrun : Ref.runPc K.exec .fine (maxValueBufferEntry + 5) .createIter iterId db =
      some (db.createIter K.exec iterId .fine).2 :=
    runPc_createIter rfl (Nat.lt_of_le_of_lt (Nat.mul_le_mul_right _ hoffset) (by decide))
      (by omega)
  exact devEnds_of_runPc _ rfl hrun iterId

end Driver

/-! ## After a run -/

section Runs

variable {σ T : Type} [DecidableEq T] {K : KvDevice σ} {murmur : Murmur}
  {main : Key → Option Value} {tr : List (State T (ilsmDev K.exec) × Act T (ilsmDev K.exec))}
  {s : State T (ilsmDev K.exec)} {device : σ} {U : Set Key}

/-- `kache_flag` is one or zero. -/
theorem kacheFlag_of_run {D : DevLsm} {Q : State T D → Act T D → Prop} {dev : D.St}
    {tr : List (State T D × Act T D)} {s : State T D}
    (h : Run (State.step murmur) Q (State.opened main dev) tr s) :
    s.sh.kacheFlag = 0 ∨ s.sh.kacheFlag = 1 := by
  refine h.invariant (I := fun s => s.sh.kacheFlag = 0 ∨ s.sh.kacheFlag = 1) (Or.inl rfl) ?_
  intro s act s' ih _ hstep
  cases State.Steps.of_step hstep with
  | callPut t k v _ | callGet t k _ => exact ih
  | client t env a next hcode _ =>
      rcases a.effect_kacheFlag murmur (.client t) env s.sh with hsame | ⟨n, rfl, hn⟩
      · exact hsame.symm ▸ ih
      · exact Or.inr (hn.trans (clientCode_setKache hcode))
  | rollback env m a next hcode _ =>
      rcases a.effect_kacheFlag murmur .rollback env s.sh with hsame | ⟨n, rfl, hn⟩
      · exact hsame.symm ▸ ih
      · exact Or.inl (hn.trans (rollbackCode_setKache hcode).2)

/-- Under flag 0 there is nothing to move. -/
theorem outstanding_of_serial {F : Prop} {g₀ g : Guarded (ilsmDev K.exec)}
    {main₀ main : Key → Option Value} {evs : List Event} (h₀ : AtRest K [] g₀)
    (h : Serial murmur Supplied F g₀ main₀ evs g main) :
    (∀ k v, .redirected k v ∈ evs.filterMap Event.purpose → Fitting (k, v)) →
    g.kacheFlag = 0 → outstanding (evs.filterMap Event.purpose) = [] := by
  induction h with
  | start => exact fun _ _ => rfl
  | direct _ k v _ ih =>
      intro hfit
      rw [filterMap_purpose_direct] at hfit ⊢
      exact ih hfit
  | @critical evs g g' main ws b hserial p hbegins halone hout ih =>
      intro hfit hzero
      rw [filterMap_purpose_concat] at hfit ⊢
      rw [outstanding_concat]
      have hfit' : ∀ k v, .redirected k v ∈ evs.filterMap Event.purpose → Fitting (k, v) :=
        fun k v hmem => hfit k v (List.mem_append_left _ hmem)
      have hrest := atRest_of_serial h₀ hserial hfit'
      have hdoes := (hrest.critical (fun hne => K.delivers hne hrest.fitting)
        (fun k v hp => hfit k v (by rw [hp]; simp)) hbegins halone hout).2
      cases p with
      | withRollback k v => exact ih hfit' (hdoes.2.1.symm.trans hzero)
      | redirected k v =>
          rw [hdoes.2.1] at hzero
          cases hzero
      | pass l => rfl

theorem outstanding_of_run (hdev : K.mem device = MapDevice.empty)
    (h : Run (State.step murmur) (Visible K murmur) (State.opened main (DB.opened device)) tr s)
    (hempty : AllMoved s) : outstanding (tr.reverse.filterMap entered) = [] := by
  obtain ⟨evs, g, hserial, hsame, horder, _⟩ := (replayed_of_run (E := Supplied) (F := False)
    (driverSilent K) (fun s act out hallowed => hallowed.outside out) False.elim
    h).2.2.row hempty.1
  rw [← horder]
  refine outstanding_of_serial (atRest_opened hdev main) hserial (fun k v hmem => ?_)
    (hsame.kacheFlag.trans hempty.2)
  rw [horder] at hmem
  exact fitting_of_run (fun _ _ hallowed => hallowed.toCarried) h hmem rfl

/-- Where no reader is inside `rollback_mtx` a pass can go through. -/
theorem drains_of_run (hdev : K.mem device = MapDevice.empty)
    (h : Run (State.step murmur) (Visible K murmur) (State.opened main (DB.opened device)) tr s)
    (hfree : s.sh.resetMtx = none) (hreaders : s.sh.rollbackMtx.readers = ∅) :
    Inevitable (State.step murmur) (Unhindered (D := ilsmDev K.exec) Supplied) AllMoved s := by
  rcases kacheFlag_of_run h with hzero | hone
  · exact .here ⟨hfree, hzero⟩
  · obtain ⟨hlocks, hpass, _⟩ := replayed_of_run (E := Supplied) (F := False) (driverSilent K)
      (fun s act out hallowed => hallowed.outside out) False.elim h
    have hrest := atRest_of_run (fun _ _ hallowed => hallowed.toCarried) hdev h hfree
    have houtside : ∀ θ, s.holdsReset θ = false := by
      intro θ
      rw [← Bool.not_eq_true, hlocks.reset θ, hfree]
      simp
    have hwriter : s.sh.rollbackMtx.writer = none := by
      by_contra hsome
      obtain ⟨θ, hθ⟩ := Option.ne_none_iff_exists'.mp hsome
      have hheld := State.holdsReset_of_holdsRollback ((hlocks.rollback θ).mpr hθ)
      rw [houtside θ] at hheld
      cases hheld
    have hpoised : s.locals.flag < 0 → Poised Supplied _ _ s.locals s.sh := fun hflag =>
      ⟨hfree, ⟨hwriter, hreaders⟩, hone, hflag, hrest.stored.devEnds _,
        fun id st hcall => hrest.starts (K.delivers (hrest.some hone) hrest.fitting) hcall⟩
    -- Outside the lock the thread is on its way to it.
    have hout : s.rollback.holdsReset = false := houtside .rollback
    obtain ⟨sh, clients, pc, l⟩ := s
    cases pc with
    | monitor => exact (hpoised (by rw [hpass.flag rfl]; decide)).monitor
    | guard => exact (hpoised (by rw [hpass.flag rfl]; decide)).guard
    | lockReset => exact (hpoised (by rw [hpass.flag rfl]; decide)).lockReset
    | _ => cases hout

end Runs

end Kvaccel.Spec
