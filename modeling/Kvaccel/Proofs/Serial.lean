import Kvaccel.Proofs.Pass
import Kvaccel.Spec.Serial

/-!
# Every interleaving comes to its sections in a row

A thread inside `reset_mtx` works on what is guarded, and nobody else writes
there. So the section of the current holder can be replayed alone, from what
was there when it took the lock, and only Main-LSM needs an argument: direct
puts fall between the section's own writes. Those that a later write of the
section overwrites are put before it and the others after it, and it makes no
difference to Main-LSM (`overwrite_own`).

`Progress` is the state of that replay; the induction is over the run.
-/

namespace Kvaccel.Spec

open Kvaccel.Lib Kvaccel.Ref

/-! ## The code of a section -/

section Rows

variable {T : Type} {D : DevLsm} {murmur : Murmur} {env : D.Env} {m : Level × Int}
  {q : Silent D} {g g' : Guarded D} {sh : Shared T D}

theorem Silent.Same.refl (q : Silent D) (g : Guarded D) : q.Same g g := ⟨rfl, rfl, rfl, rfl⟩

theorem Silent.Same.symm (h : q.Same g g') : q.Same g' g :=
  ⟨h.1.symm, h.2.symm, h.3.symm, h.4.symm⟩

theorem Silent.Same.trans {g'' : Guarded D} (h : q.Same g g') (h' : q.Same g' g'') :
    q.Same g g'' :=
  ⟨h.1.trans h'.1, h.2.trans h'.2, h.3.trans h'.3, h.4.trans h'.4⟩

theorem Silent.Same.tracked (h : q.Same g (guarded sh)) (murmur : Murmur) (k : Key) :
    g.shared.tracked murmur k = sh.tracked murmur k :=
  congrArg (fun tr => HashMap.contains tr (doubleHash murmur k 1)) h.keyTracker

/-- Inside a section the way on depends on what is guarded, and of Dev-LSM on
the view. -/
theorem Body.code_inside (q : Silent D) (murmur : Murmur) (env : D.Env) (m : Level × Int)
    {b : Body D} (h : b.inside = true) :
    ∃ a next next', b.code (T := T) murmur env m = some (a, next) ∧
      b.code (T := Empty) murmur env m = some (a, next') ∧
      ∀ (g : Guarded D) (sh : Shared T D), q.Same g (guarded sh) →
        next' g.shared = next sh := by
  cases b with
  | client pc =>
      cases pc with
      | ctlContains k v =>
          refine ⟨_, _, _, rfl, rfl, fun g sh hsame => ?_⟩
          simp only [hsame.tracked]
      | redPut k v pc =>
          refine ⟨_, _, _, rfl, rfl, fun g sh hsame => ?_⟩
          have hstep := (q.step env pc 0 g.dev sh.dev hsame.view).1
          simp only [Guarded.shared, hstep]
      | _ => first
        | exact ⟨_, _, _, rfl, rfl, fun _ _ _ => rfl⟩
        | cases h
  | rollback pc l =>
      cases pc with
      | contains =>
          refine ⟨_, _, _, rfl, rfl, fun g sh hsame => ?_⟩
          simp only [rollbackCode, hsame.tracked]
      | createIter pc =>
          refine ⟨_, _, _, rfl, rfl, fun g sh hsame => ?_⟩
          have hstep := q.step env pc l.iterId g.dev sh.dev hsame.view
          simp only [rollbackCode, Guarded.shared, hstep.1, hstep.2.1]
      | seekScan =>
          refine ⟨_, _, _, rfl, rfl, fun g sh hsame => ?_⟩
          have hseek := q.seekScan env l.iterId startKey l.tmpValue g.dev sh.dev hsame.view
          simp only [rollbackCode, Guarded.shared, hseek.1, hseek.2.1, hseek.2.2.1]
      | nextScan =>
          refine ⟨_, _, _, rfl, rfl, fun g sh hsame => ?_⟩
          have hnext := q.nextScan env l.iterId l.key l.tmpValue g.dev sh.dev hsame.view
          simp only [rollbackCode, Guarded.shared, hnext.1, hnext.2.1, hnext.2.2.1]
      | _ => first
        | exact ⟨_, _, _, rfl, rfl, fun _ _ _ => rfl⟩
        | cases h

variable [DecidableEq T] {θ : Thread T}

/-- The same access does the same to what is the same. -/
theorem Silent.Same.effect (h : q.Same g (guarded sh)) (a : Access D) (θ : Thread T) :
    q.Same (guarded (a.effect murmur .rollback env g.shared))
      (guarded (a.effect murmur θ env sh)) := by
  obtain ⟨hkache, hflag, htr, hview⟩ := h
  cases a with
  | setKache n => exact ⟨rfl, hflag, htr, hview⟩
  | setRollbackFlag n => exact ⟨hkache, rfl, htr, hview⟩
  | trackerInsert k =>
      exact ⟨hkache, hflag,
        congrArg (fun tr => HashMap.insert tr (doubleHash murmur k 1) k) htr, hview⟩
  | trackerDelete k =>
      exact ⟨hkache, hflag,
        congrArg (fun tr => HashMap.delete tr (doubleHash murmur k 1)) htr, hview⟩
  | trackerClear => exact ⟨hkache, hflag, congrArg HashMap.clear htr, hview⟩
  | devStep pc id => exact ⟨hkache, hflag, htr, (q.step env pc id _ _ hview).2.2⟩
  | devGet k =>
      refine ⟨hkache, hflag, htr, ?_⟩
      exact (q.get env k g.dev).trans (hview.trans (q.get env k sh.dev).symm)
  | devSeekScan id key value =>
      exact ⟨hkache, hflag, htr, (q.seekScan env id key value _ _ hview).2.2.2⟩
  | devNextScan id key value =>
      exact ⟨hkache, hflag, htr, (q.nextScan env id key value _ _ hview).2.2.2⟩
  | devReset => exact ⟨hkache, hflag, htr, q.reset env _ _ hview⟩
  | lockShared => cases θ <;> exact ⟨hkache, hflag, htr, hview⟩
  | unlockShared => cases θ <;> exact ⟨hkache, hflag, htr, hview⟩
  | _ => exact ⟨hkache, hflag, htr, hview⟩

/-- An access that needs no `reset_mtx` leaves alone what it guards. -/
theorem Silent.same_of_outside (q : Silent D) {a : Access D} (h : a.underReset = false) :
    q.Same (guarded sh) (guarded (a.effect murmur θ env sh)) := by
  cases a with
  | devGet k => exact ⟨rfl, rfl, rfl, (q.get env k sh.dev).symm⟩
  | lockShared => cases θ <;> exact .refl q _
  | unlockShared => cases θ <;> exact .refl q _
  | _ => first | exact .refl q _ | cases h

theorem effect_main (a : Access D) :
    (a.effect murmur θ env sh).main = overwrite sh.main (mainWrites a) := by
  cases a with
  | lockShared => cases θ <;> rfl
  | unlockShared => cases θ <;> rfl
  | _ => rfl

end Rows

/-! ## Where a section stands -/

section Standing

variable {D : DevLsm} {murmur : Murmur} {E : D.Env → Prop} {g g' : Guarded D} {p : Purpose}
  {b : Body D} {own : List (Key × Value)}

/-- The section's put is in effect. -/
def Body.past : Body D → Bool
  | .client .ctlUnlockRollback | .client .ctlUnlockReset | .client .redUnlock
  | .client .putReturn => true
  | _ => false

/-- The pass has cleared `kache_flag`, and writes no more. -/
def Body.cleared : Body D → Bool
  | .rollback .clearRollback _ | .rollback .unlockRollback _ | .rollback .unlockReset _
  | .rollback .monitor _ => true
  | _ => false

/-- The put of a section, once it is in effect. -/
def Purpose.soFar (p : Purpose) (b : Body D) : List (Key × Value) :=
  if b.past then p.put.toList else []

/-- The counters of a section, with what it has written and done to the flag. -/
def Stands (g : Guarded D) (own : List (Key × Value)) (b : Body D) (g' : Guarded D) :
    Purpose → Prop
  | .withRollback k v => g'.kacheFlag = g.kacheFlag ∧
      (b = .client (.ctlRollback k v) ∨ b = .client (.ctlContains k v) ∨
        b = .client (.ctlDelete k v) ∨ b = .client (.ctlPut k v) ∨
        b = .client .ctlUnlockRollback ∨ b = .client .ctlUnlockReset ∨ b = .client .putReturn)
  | .redirected k v => own = [] ∧
      ((b = .client (.redFlag k v) ∧ g' = g) ∨ (g'.kacheFlag = 1 ∧
        ((∃ pc, b = .client (.redPut k v pc)) ∨ b = .client (.redInsert k v) ∨
          b = .client .redUnlock ∨ b = .client .putReturn)))
  | .pass _ => (∃ pc l, b = .rollback pc l) ∧
      (if b.cleared then g'.kacheFlag = 0 else g'.kacheFlag = g.kacheFlag)

theorem stands_start (g : Guarded D) : ∀ p : Purpose, Stands g [] p.body g p
  | .withRollback _ _ => ⟨rfl, Or.inl rfl⟩
  | .redirected _ _ => ⟨rfl, Or.inl ⟨rfl, rfl⟩⟩
  | .pass _ => ⟨⟨_, _, rfl⟩, rfl⟩

/-- What a step of a section is to the puts. -/
inductive Went (p : Purpose) (b b' : Body D) (g g' : Guarded D) : List (Key × Value) → Prop where
  | quietly (none : b.put = none) (past : b'.past = b.past)
      (cleared : b.cleared = true → b'.cleared = true ∧ g'.kacheFlag = g.kacheFlag) :
      Went p b b' g g' []
  | redirects (k : Key) (v : Value) (purpose : p = .redirected k v) (put : b.put = some (k, v))
      (before : b.past = false) (after : b'.past = true) : Went p b b' g g' []
  | writes (k : Key) (v : Value) (purpose : p = .withRollback k v) (put : b.put = some (k, v))
      (before : b.past = false) (after : b'.past = true) : Went p b b' g g' [(k, v)]
  | migrates (l : Ref.Locals) (w : Key × Value) (purpose : p = .pass l) (none : b.put = none)
      (still : b.cleared = false) : Went p b b' g g' [w]

theorem Body.step_of_code {env : D.Env} {m : Level × Int} {a : Access D}
    {n : Shared Empty D → Body D} (hin : b.inside = true)
    (hcode : b.code murmur env m = some (a, n)) :
    b.step murmur env m g =
      some (n g.shared, guarded (a.effect murmur .rollback env g.shared), mainWrites a) := by
  rw [Body.step, if_pos hin, hcode]
  rfl

/-- A call of `ilsm_db_` goes on, or is over. -/
theorem step_redPut {env : D.Env} {m : Level × Int} {k : Key} {v : Value} {pc : D.Pc}
    {next : Option D.Pc} (h : (D.step env pc 0 g.dev).1 = next) :
    (Body.client (.redPut k v pc)).step murmur env m g = some (.client
      (next.elim (.redInsert k v) (.redPut k v)), { g with dev := (D.step env pc 0 g.dev).2.2 },
      []) := by
  refine (Body.step_of_code rfl rfl).trans ?_
  simp only [Guarded.shared, h]
  cases next <;> rfl

theorem step_createIter {env : D.Env} {m : Level × Int} {l : Ref.Locals} {pc : D.Pc}
    {next : Option D.Pc} (h : (D.step env pc l.iterId g.dev).1 = next) :
    (Body.rollback (.createIter pc) l).step murmur env m g = some (.rollback
      (next.elim .seekScan .createIter) { l with iterId := (D.step env pc l.iterId g.dev).2.1 },
      { g with dev := (D.step env pc l.iterId g.dev).2.2 }, []) := by
  refine (Body.step_of_code rfl rfl).trans ?_
  simp only [rollbackCode, Guarded.shared, h]
  cases next <;> rfl

theorem Body.step_eq_none {env : D.Env} {m : Level × Int} (hin : b.inside = false) :
    b.step murmur env m g = none := by
  rw [Body.step, hin]
  rfl

variable {env : D.Env} {m : Level × Int} {b' : Body D} {g'' : Guarded D} {w : List (Key × Value)}

theorem Stands.withRollback {k : Key} {v : Value} (h : Stands g own b g' (.withRollback k v))
    (hstep : b.step murmur env m g' = some (b', g'', w)) :
    Stands g (own ++ w) b' g'' (.withRollback k v) ∧ Went (.withRollback k v) b b' g' g'' w := by
  obtain ⟨hflag, hb⟩ := h
  rcases hb with rfl | rfl | rfl | rfl | rfl | rfl | rfl
  · rw [Body.step_of_code rfl rfl] at hstep
    cases hstep
    exact ⟨⟨hflag, Or.inr (Or.inl rfl)⟩, .quietly rfl rfl fun h => by cases h⟩
  · rw [Body.step_of_code rfl rfl] at hstep
    cases hstep
    refine ⟨⟨hflag, ?_⟩, .quietly rfl ?_ fun h => by cases h⟩
    · simp only []
      split
      · exact Or.inr (Or.inr (Or.inl rfl))
      · exact Or.inr (Or.inr (Or.inr (Or.inl rfl)))
    · simp only []
      split <;> rfl
  · rw [Body.step_of_code rfl rfl] at hstep
    cases hstep
    exact ⟨⟨hflag, Or.inr (Or.inr (Or.inr (Or.inl rfl)))⟩, .quietly rfl rfl fun h => by cases h⟩
  · rw [Body.step_of_code rfl rfl] at hstep
    cases hstep
    exact ⟨⟨hflag, Or.inr (Or.inr (Or.inr (Or.inr (Or.inl rfl))))⟩,
      .writes k v rfl rfl rfl rfl⟩
  · rw [Body.step_of_code rfl rfl] at hstep
    cases hstep
    exact ⟨⟨hflag, Or.inr (Or.inr (Or.inr (Or.inr (Or.inr (Or.inl rfl)))))⟩,
      .quietly rfl rfl fun h => by cases h⟩
  · rw [Body.step_of_code rfl rfl] at hstep
    cases hstep
    exact ⟨⟨hflag, Or.inr (Or.inr (Or.inr (Or.inr (Or.inr (Or.inr rfl)))))⟩,
      .quietly rfl rfl fun h => by cases h⟩
  · rw [Body.step_eq_none rfl] at hstep
    cases hstep

theorem Stands.redirected {k : Key} {v : Value} (h : Stands g own b g' (.redirected k v))
    (hstep : b.step murmur env m g' = some (b', g'', w)) :
    Stands g (own ++ w) b' g'' (.redirected k v) ∧ Went (.redirected k v) b b' g' g'' w := by
  obtain ⟨rfl, ⟨rfl, rfl⟩ | ⟨hflag, ⟨pc, rfl⟩ | rfl | rfl | rfl⟩⟩ := h
  · rw [Body.step_of_code rfl rfl] at hstep
    cases hstep
    exact ⟨⟨rfl, Or.inr ⟨rfl, Or.inl ⟨_, rfl⟩⟩⟩, .quietly rfl rfl fun h => by cases h⟩
  · rw [step_redPut rfl] at hstep
    cases hnext : (D.step env pc 0 g'.dev).1 with
    | none =>
        rw [hnext] at hstep
        cases hstep
        exact ⟨⟨rfl, Or.inr ⟨hflag, Or.inr (Or.inl rfl)⟩⟩, .quietly rfl rfl fun h => by cases h⟩
    | some pc' =>
        rw [hnext] at hstep
        cases hstep
        exact ⟨⟨rfl, Or.inr ⟨hflag, Or.inl ⟨_, rfl⟩⟩⟩, .quietly rfl rfl fun h => by cases h⟩
  · rw [Body.step_of_code rfl rfl] at hstep
    cases hstep
    exact ⟨⟨rfl, Or.inr ⟨hflag, Or.inr (Or.inr (Or.inl rfl))⟩⟩, .redirects k v rfl rfl rfl rfl⟩
  · rw [Body.step_of_code rfl rfl] at hstep
    cases hstep
    exact ⟨⟨rfl, Or.inr ⟨hflag, Or.inr (Or.inr (Or.inr rfl))⟩⟩,
      .quietly rfl rfl fun h => by cases h⟩
  · rw [Body.step_eq_none rfl] at hstep
    cases hstep

theorem Stands.pass {l : Ref.Locals} (h : Stands g own b g' (.pass l))
    (hstep : b.step murmur env m g' = some (b', g'', w)) :
    Stands g (own ++ w) b' g'' (.pass l) ∧ Went (.pass l) b b' g' g'' w := by
  obtain ⟨⟨pc, l', rfl⟩, hflag⟩ := h
  cases pc with
  | monitor | guard | lockReset =>
      rw [Body.step_eq_none rfl] at hstep
      cases hstep
  | put =>
      rw [Body.step_of_code rfl rfl] at hstep
      cases hstep
      exact ⟨⟨⟨_, _, rfl⟩, hflag⟩, .migrates l _ rfl rfl rfl⟩
  | clearRollback | unlockRollback | unlockReset =>
      rw [Body.step_of_code rfl rfl] at hstep
      cases hstep
      exact ⟨⟨⟨_, _, rfl⟩, hflag⟩, .quietly rfl rfl fun _ => ⟨rfl, rfl⟩⟩
  | clearKache =>
      rw [Body.step_of_code rfl rfl] at hstep
      cases hstep
      exact ⟨⟨⟨_, _, rfl⟩, rfl⟩, .quietly rfl rfl fun h => by cases h⟩
  | createIter pc =>
      rw [step_createIter rfl] at hstep
      cases hnext : (D.step env pc l'.iterId g'.dev).1 with
      | none =>
          rw [hnext] at hstep
          cases hstep
          exact ⟨⟨⟨_, _, rfl⟩, hflag⟩, .quietly rfl rfl fun h => by cases h⟩
      | some pc' =>
          rw [hnext] at hstep
          cases hstep
          exact ⟨⟨⟨_, _, rfl⟩, hflag⟩, .quietly rfl rfl fun h => by cases h⟩
  | loop | lock | contains =>
      -- The counters they branch to are alike here.
      rw [Body.step_of_code rfl rfl] at hstep
      cases hstep
      refine ⟨⟨⟨_, _, rfl⟩, ?_⟩, .quietly rfl ?_ fun h => by cases h⟩
      · simp only [rollbackCode]
        split <;> exact hflag
      · simp only [rollbackCode]
        split <;> rfl
  | _ =>
      rw [Body.step_of_code rfl rfl] at hstep
      cases hstep
      exact ⟨⟨⟨_, _, rfl⟩, hflag⟩, .quietly rfl rfl fun h => by cases h⟩

theorem Stands.step (h : Stands g own b g' p)
    (hstep : b.step murmur env m g' = some (b', g'', w)) :
    Stands g (own ++ w) b' g'' p ∧ Went p b b' g' g'' w := by
  cases p with
  | withRollback k v => exact h.withRollback hstep
  | redirected k v => exact h.redirected hstep
  | pass l => exact h.pass hstep

theorem Alone.stands (h : Alone murmur E p.body g own b g') : Stands g own b g' p := by
  induction h with
  | enter => exact stands_start g p
  | step _ _ taken ih => exact (ih.step taken).1

theorem Went.soFar (h : Went p b b' g g' w) : p.soFar b' = p.soFar b ++ b.put.toList := by
  cases h with
  | quietly none past _ => simp [Purpose.soFar, none, past]
  | redirects k v purpose put before after =>
      simp [Purpose.soFar, purpose, put, before, after, Purpose.put]
  | writes k v purpose put before after =>
      simp [Purpose.soFar, purpose, put, before, after, Purpose.put]
  | migrates l w purpose none _ => simp [Purpose.soFar, purpose, none, Purpose.put]

theorem Went.soFar_of_write {w : Key × Value} (h : Went p b b' g g' [w]) :
    p.soFar b = [] ∧ ∀ x ∈ b.put.toList, x.1 = w.1 := by
  cases h with
  | writes k v purpose put before _ => simp [Purpose.soFar, put, before]
  | migrates l w purpose none _ => simp [Purpose.soFar, purpose, none, Purpose.put]

theorem Stands.soFar_of_outside (h : Stands g own b g' p) (hout : b.inside = false) :
    p.soFar b = p.put.toList := by
  cases p with
  | withRollback k v =>
      obtain ⟨_, rfl | rfl | rfl | rfl | rfl | rfl | rfl⟩ := h <;> first | rfl | cases hout
  | redirected k v =>
      obtain ⟨_, ⟨rfl, _⟩ | ⟨_, ⟨pc, rfl⟩ | rfl | rfl | rfl⟩⟩ := h <;> first | rfl | cases hout
  | pass l => simp [Purpose.soFar, Purpose.put]

/-! ## Where the direct puts go -/

/-- The direct puts made during the section, those before it and those after.
During a redirected put they go before it, as long as it is not in effect, and
otherwise after; and under `F` they have found the flag at 0. -/
structure Placed (F : Prop) (p : Purpose) (g₁ : Guarded D) (b : Body D) (g : Guarded D)
    (before after : List (Key × Value)) : Prop where
  redirected : ∀ k v, p = .redirected k v → b.past = false → after = []
  withRollback : ∀ k v, p = .withRollback k v → b.past = false → before = []
  freshBefore : F → before ≠ [] → g₁.kacheFlag = 0
  freshAfter : F → after ≠ [] →
    g.kacheFlag = 0 ∧ (b.cleared = true ∨ ∃ k v, p = .withRollback k v)

variable {F : Prop} {before after : List (Key × Value)}

theorem Placed.direct_before {k : Key} {v : Value}
    (h : Placed F (.redirected k v) g b g' before after)
    (hst : Stands g own b g' (.redirected k v)) (hpast : b.past = false)
    (hfresh : F → g'.kacheFlag = 0) (w : Key × Value) :
    after = [] ∧ own = [] ∧ Placed F (.redirected k v) g b g' (before ++ [w]) [] := by
  refine ⟨h.redirected k v rfl hpast, hst.1, fun _ _ _ _ => rfl, nofun, fun hF _ => ?_,
    fun _ hne => absurd rfl hne⟩
  -- The flag is 0, so the section has not set it yet.
  rcases hst.2 with ⟨_, rfl⟩ | ⟨hone, _⟩
  · exact hfresh hF
  · have := hfresh hF
    omega

theorem Placed.direct_after (h : Placed F p g b g' before after) (hst : Stands g own b g' p)
    (hbegins : p.Begins murmur F g)
    (hp : ∀ k v, p = .redirected k v → b.past = true) (hfresh : F → g'.kacheFlag = 0)
    (w : Key × Value) : Placed F p g b g' before (after ++ [w]) := by
  refine ⟨fun k v heq hpast => ?_, h.withRollback, h.freshBefore, fun hF _ => ?_⟩
  · rw [hp k v heq] at hpast
    cases hpast
  · have hzero := hfresh hF
    refine ⟨hzero, ?_⟩
    cases p with
    | withRollback k v => exact Or.inr ⟨k, v, rfl⟩
    | redirected k v =>
        have hpast := hp k v rfl
        rcases hst.2 with ⟨rfl, _⟩ | ⟨hone, _⟩
        · cases hpast
        · omega
    | pass l =>
        left
        have hflag := hst.2
        cases hc : b.cleared with
        | true => rfl
        | false =>
            rw [hc, if_neg (by simp), hbegins.2] at hflag
            omega

/-- A step that writes nothing to Main-LSM. -/
theorem Placed.quietly (h : Placed F p g b g' before after) (hst : Stands g own b g' p)
    (hst' : Stands g (own ++ []) b' g'' p) (hwent : Went p b b' g' g'' []) :
    Placed F p g b' g'' before after := by
  have hpast : b'.past = false → b.past = false := by
    intro hb'
    cases hwent with
    | quietly _ past _ => exact past.symm.trans hb'
    | redirects _ _ _ _ hb _ => exact hb
  refine ⟨fun k v heq hb => h.redirected k v heq (hpast hb),
    fun k v heq hb => h.withRollback k v heq (hpast hb), h.freshBefore, fun hF hne => ?_⟩
  obtain ⟨hzero, hcl | ⟨k, v, rfl⟩⟩ := h.freshAfter hF hne
  · cases hwent with
    | quietly _ _ cleared =>
        obtain ⟨hcl', hsame⟩ := cleared hcl
        exact ⟨hsame.trans hzero, Or.inl hcl'⟩
    | redirects k v purpose _ _ _ =>
        subst purpose
        exact absurd (h.redirected k v rfl ‹_›) hne
  · exact ⟨hst'.1.trans (hst.1.symm.trans hzero), Or.inr ⟨k, v, rfl⟩⟩

/-- A write drives the direct puts of its key to the front. -/
theorem Placed.write {w : Key × Value} (h : Placed F p g b g' before after)
    (hst : Stands g own b g' p) (hst' : Stands g (own ++ [w]) b' g'' p)
    (hwent : Went p b b' g' g'' [w]) :
    Placed F p g b' g'' (before ++ after.filter fun w' => w'.1 = w.1)
      (after.filter fun w' => w'.1 ≠ w.1) := by
  have hafter : ∀ q : Key × Value → Bool, after.filter q ≠ [] → after ≠ [] := by
    rintro q hne rfl
    exact hne rfl
  cases hwent with
  | writes k v purpose put hb hb' =>
      subst purpose
      refine ⟨nofun, fun _ _ _ hpast => ?_, fun hF hne => ?_, fun hF hne => ?_⟩
      · rw [hb'] at hpast
        cases hpast
      · by_cases hbefore : before = []
        · rw [hbefore, List.nil_append] at hne
          exact hst.1.symm.trans (h.freshAfter hF (hafter _ hne)).1
        · exact h.freshBefore hF hbefore
      · exact ⟨hst'.1.trans (hst.1.symm.trans (h.freshAfter hF (hafter _ hne)).1),
          Or.inr ⟨k, v, rfl⟩⟩
  | migrates l w purpose none hstill =>
      subst purpose
      -- Under `F` no direct put can have been made yet.
      have hnone : F → after = [] := by
        intro hF
        by_contra hne
        obtain ⟨_, hcl | ⟨_, _, heq⟩⟩ := h.freshAfter hF hne
        · rw [hstill] at hcl
          cases hcl
        · cases heq
      refine ⟨nofun, nofun, fun hF hne => ?_, fun hF hne => absurd (hnone hF) (hafter _ hne)⟩
      rw [hnone hF, List.filter_nil, List.append_nil] at hne
      exact h.freshBefore hF hne

end Standing

/-! ## The replay -/

section Replay

variable {D : DevLsm} {murmur : Murmur} {E : D.Env → Prop} {F : Prop} {q : Silent D}
  {g₀ g g' : Guarded D} {main₀ main : Key → Option Value} {ps : List Purpose}
  {puts : List (Key × Value)} {b : Body D} {owner : Option (Body D)}

theorem SamePuts.append {l l' : List (Key × Value)} (h : SamePuts l l')
    (x : List (Key × Value)) : SamePuts (l ++ x) (l' ++ x) := by
  intro k
  rw [List.filter_append, List.filter_append, h k]

/-- The sections entered so far, `ps`, and the puts in effect so far, in a row;
at the end of it the section of the lock's owner, as far as it is. -/
inductive Progress (murmur : Murmur) (E : D.Env → Prop) (F : Prop) (q : Silent D)
    (g₀ : Guarded D) (main₀ : Key → Option Value) (ps : List Purpose)
    (puts : List (Key × Value)) (g : Guarded D) (main : Key → Option Value) :
    Option (Body D) → Prop where
  | free {evs : List Event} {g' : Guarded D} (serial : Serial murmur E F g₀ main₀ evs g' main)
      (same : q.Same g' g) (order : evs.filterMap Event.purpose = ps)
      (effects : SamePuts (evs.filterMap Event.put) puts) :
      Progress murmur E F q g₀ main₀ ps puts g main none
  | held {evs : List Event} {g₁ g' : Guarded D} {main₁ : Key → Option Value} {p : Purpose}
      {b : Body D} (before own after : List (Key × Value))
      (serial : Serial murmur E F g₀ main₀ evs g₁ main₁) (begins : p.Begins murmur F g₁)
      (alone : Alone murmur E p.body g₁ own b g') (same : q.Same g' g)
      (writes : main = overwrite main₁ (before ++ own ++ after))
      (order : evs.filterMap Event.purpose ++ [p] = ps)
      (effects : SamePuts (evs.filterMap Event.put ++ before ++ p.soFar b ++ after) puts)
      (placed : Placed F p g₁ b g' before after) :
      Progress murmur E F q g₀ main₀ ps puts g main (some b)

theorem Serial.directs {evs : List Event} (h : Serial murmur E F g₀ main₀ evs g main)
    (l : List (Key × Value)) (hfresh : F → l ≠ [] → g.kacheFlag = 0) :
    Serial murmur E F g₀ main₀ (evs ++ l.map fun w => .direct w.1 w.2) g (overwrite main l) := by
  induction l using List.reverseRecOn with
  | nil => simpa using h
  | append_singleton l w ih =>
      have hzero : F → g.kacheFlag = 0 := fun hF => hfresh hF (by simp)
      rw [List.map_append, ← List.append_assoc, overwrite_concat]
      exact (ih fun hF _ => hzero hF).direct w.1 w.2 hzero

theorem filterMap_purpose_directs (l : List (Key × Value)) :
    (l.map fun w => Event.direct w.1 w.2).filterMap Event.purpose = [] := by
  induction l with
  | nil => rfl
  | cons w l ih => exact ih

theorem filterMap_put_directs (l : List (Key × Value)) :
    (l.map fun w => Event.direct w.1 w.2).filterMap Event.put = l := by
  rw [List.filterMap_map]
  exact List.filterMap_some

theorem Progress.frame (h : Progress murmur E F q g₀ main₀ ps puts g main owner)
    (hsame : q.Same g g') : Progress murmur E F q g₀ main₀ ps puts g' main owner := by
  cases h with
  | free serial same order effects => exact .free serial (same.trans hsame) order effects
  | held before own after serial begins alone same writes order effects placed =>
      exact .held before own after serial begins alone (same.trans hsame) writes order effects
        placed

/-- A direct put, whoever has the lock. -/
theorem Progress.direct (h : Progress murmur E F q g₀ main₀ ps puts g main owner)
    (w : Key × Value) (hfresh : F → g.kacheFlag = 0) :
    Progress murmur E F q g₀ main₀ ps (puts ++ [w]) g
      (Function.update main w.1 (some w.2)) owner := by
  cases h with
  | @free evs g' serial same order effects =>
      have hzero : F → g'.kacheFlag = 0 := fun hF => same.kacheFlag.trans (hfresh hF)
      refine .free (serial.direct w.1 w.2 hzero) same ?_ ?_
      · rw [List.filterMap_append, order]
        exact List.append_nil ps
      · rw [List.filterMap_append]
        exact effects.append [w]
  | @held evs g₁ g' main₁ p b before own after serial begins alone same writes order effects
      placed =>
      have hzero : F → g'.kacheFlag = 0 := fun hF => same.kacheFlag.trans (hfresh hF)
      have hlast : main = overwrite main₁ (before ++ own ++ after) →
          Function.update main w.1 (some w.2) =
            overwrite main₁ (before ++ own ++ (after ++ [w])) := by
        intro hmain
        rw [← List.append_assoc, overwrite_concat, ← hmain]
      by_cases hp : ∃ k v, p = .redirected k v ∧ b.past = false
      · obtain ⟨k, v, rfl, hpast⟩ := hp
        obtain ⟨rfl, rfl, hplaced⟩ := placed.direct_before alone.stands hpast hzero w
        refine .held (before ++ [w]) [] [] serial begins alone same ?_ order ?_ hplaced
        · rw [hlast writes]
          simp
        · have hnone : (Purpose.redirected k v).soFar b = [] := by simp [Purpose.soFar, hpast]
          rw [hnone] at effects ⊢
          have := effects.append [w]
          simpa using this
      · have hred : ∀ k v, p = .redirected k v → b.past = true := by
          intro k v heq
          by_contra hpast
          exact hp ⟨k, v, heq, by simpa using hpast⟩
        refine .held before own (after ++ [w]) serial begins alone same (hlast writes) order ?_
          (placed.direct_after alone.stands begins hred hzero w)
        have := effects.append [w]
        simpa using this

theorem Silent.Same.begins (h : q.Same g' g) {p : Purpose} (hp : p.Begins murmur F g) :
    p.Begins murmur F g' := by
  cases p with
  | withRollback k v =>
      intro hF
      rw [h.keyTracker]
      exact hp hF
  | redirected k v => trivial
  | pass l => exact ⟨hp.1, h.kacheFlag.trans hp.2⟩

theorem Progress.enter (h : Progress murmur E F q g₀ main₀ ps puts g main none) (p : Purpose)
    (hp : p.Begins murmur F g) :
    Progress murmur E F q g₀ main₀ (ps ++ [p]) puts g main (some p.body) := by
  cases h with
  | @free evs g' serial same order effects =>
      refine .held [] [] [] serial (same.begins hp) .enter same rfl (by rw [order]) ?_
        ⟨fun _ _ _ _ => rfl, fun _ _ _ _ => rfl, fun _ hne => absurd rfl hne,
          fun _ hne => absurd rfl hne⟩
      have hnone : p.soFar (p.body : Body D) = [] := by cases p <;> rfl
      rw [hnone]
      simpa using effects

/-- The owner makes a step of its section. -/
theorem Progress.step {T : Type} [DecidableEq T] {sh : Shared T D} {θ : Thread T}
    {env : D.Env} {m : Level × Int} {a : Access D} {next : Shared T D → Body D}
    (h : Progress murmur E F q g₀ main₀ ps puts (guarded sh) sh.main (some b))
    (hin : b.inside = true) (hallowed : E env) (hcode : b.code murmur env m = some (a, next)) :
    Progress murmur E F q g₀ main₀ ps (puts ++ b.put.toList)
      (guarded (a.effect murmur θ env sh)) (a.effect murmur θ env sh).main
      (some (next sh)) := by
  obtain ⟨a', next', nextAlone, hcode', halone, hnext⟩ :=
    Body.code_inside (T := T) q murmur env m hin
  rw [hcode] at hcode'
  cases hcode'
  cases h with
  | @held evs g₁ g' main₁ p b before own after serial begins alone same writes order effects
      placed =>
      have htaken : b.step murmur env m g' = some (next sh,
          guarded (a.effect murmur .rollback env g'.shared), mainWrites a) := by
        rw [Body.step_of_code hin halone, hnext g' sh same]
      have hsame : q.Same (guarded (a.effect murmur .rollback env g'.shared))
          (guarded (a.effect murmur θ env sh)) := same.effect a θ
      have hmain : (a.effect murmur θ env sh).main = overwrite sh.main (mainWrites a) :=
        effect_main a
      obtain ⟨hstands, hwent⟩ := alone.stands.step htaken
      have hsoFar := hwent.soFar
      -- Only a write to Main-LSM moves anything.
      by_cases hw : ∃ w, mainWrites a = [w]
      · obtain ⟨w, hw⟩ := hw
        rw [hw] at htaken hmain hstands hwent
        refine .held _ _ _ serial begins (alone.step hallowed htaken) hsame ?_ order ?_
          (placed.write alone.stands hstands hwent)
        · rw [overwrite_own, ← writes, hmain]
          rfl
        · obtain ⟨hnone, hkey⟩ := hwent.soFar_of_write
          rw [hsoFar, hnone]
          rw [hnone] at effects
          intro k
          have hmoved := filter_moved (l := after) hkey k
          have heffects := effects k
          simp only [List.filter_append, List.append_assoc, List.nil_append] at hmoved heffects ⊢
          rw [hmoved, ← heffects]
          simp only [List.append_assoc]
      · have hnone : mainWrites a = [] := by
          cases a with
          | mainPut k v => exact absurd ⟨(k, v), rfl⟩ hw
          | _ => rfl
        rw [hnone] at htaken hmain hstands hwent
        refine .held _ _ _ serial begins (alone.step hallowed htaken) hsame ?_ order ?_
          (placed.quietly alone.stands hstands hwent)
        · rw [List.append_nil, ← writes, hmain]
          rfl
        · rw [hsoFar]
          cases hwent with
          | quietly none _ _ =>
              rw [none]
              simpa using effects
          | redirects k v purpose _ hpast _ =>
              rw [placed.redirected k v purpose hpast] at effects ⊢
              have := effects.append b.put.toList
              simpa using this

/-- The section is over, and takes its place in the row. -/
theorem Progress.leave (h : Progress murmur E F q g₀ main₀ ps puts g main (some b))
    (hout : b.inside = false) : Progress murmur E F q g₀ main₀ ps puts g main none := by
  cases h with
  | @held evs g₁ g' main₁ p b before own after serial begins alone same writes order effects
      placed =>
      have hrow := ((serial.directs before placed.freshBefore).critical p begins alone
        hout).directs after fun hF hne => (placed.freshAfter hF hne).1
      rw [writes, overwrite_append, overwrite_append]
      refine .free hrow same ?_ ?_
      · simp only [List.filterMap_append, filterMap_purpose_directs, List.append_nil]
        exact order
      · rw [alone.stands.soFar_of_outside hout] at effects
        have hput : [Event.critical p].filterMap Event.put = p.put.toList := by
          cases p <;> rfl
        simp only [List.filterMap_append, filterMap_put_directs, hput]
        exact effects

theorem Progress.row (h : Progress murmur E F q g₀ main₀ ps puts g main none) :
    ∃ evs g', Serial murmur E F g₀ main₀ evs g' main ∧ q.Same g' g ∧
      evs.filterMap Event.purpose = ps ∧ SamePuts (evs.filterMap Event.put) puts := by
  cases h with
  | free serial same order effects => exact ⟨_, _, serial, same, order, effects⟩

end Replay

/-! ## Along a run -/

section Bodies

variable {T : Type} {D : DevLsm} {murmur : Murmur} {env : D.Env} {m : Level × Int}
  {b : Body D} {a : Access D} {next : Shared T D → Body D}

theorem Body.code_passes (h : b.code murmur env m = some (a, next)) (sh : Shared T D) :
    a.onReset.Passes b.inside (next sh).inside := by
  cases b with
  | client pc =>
      obtain ⟨r, hr, heq⟩ := Option.map_eq_some_iff.mp h
      cases heq
      exact clientCode_holdsReset hr sh
  | rollback pc l =>
      cases h
      exact rollbackCode_holdsReset rfl sh

theorem Body.inside_of_underReset (h : b.code murmur env m = some (a, next))
    (ha : a.underReset = true) : b.inside = true := by
  cases b with
  | client pc =>
      obtain ⟨r, hr, heq⟩ := Option.map_eq_some_iff.mp h
      cases heq
      exact clientCode_underReset hr ha
  | rollback pc l =>
      cases h
      cases pc <;> first | rfl | cases ha

/-- `reset_mtx` is taken for a purpose. -/
theorem Body.code_purpose (h : b.code murmur env m = some (a, next)) (sh : Shared T D) :
    (a.onReset = .acquire → ∃ p : Purpose, b.purpose = some p ∧ next sh = p.body) ∧
      (a.onReset ≠ .acquire → b.purpose = none) := by
  cases b with
  | client pc =>
      obtain ⟨r, hr, heq⟩ := Option.map_eq_some_iff.mp h
      cases heq
      cases pc <;> cases hr <;> first
        | exact ⟨fun _ => ⟨_, rfl, rfl⟩, fun hne => absurd rfl hne⟩
        | exact ⟨fun ha => (by cases ha), fun _ => rfl⟩
  | rollback pc l =>
      cases h
      cases pc <;> first
        | exact ⟨fun _ => ⟨_, rfl, rfl⟩, fun hne => absurd rfl hne⟩
        | exact ⟨fun ha => (by cases ha), fun _ => rfl⟩

/-- Outside every section the puts are the direct ones. -/
theorem Body.code_put (h : b.code (T := T) murmur env m = some (a, next))
    (hout : b.inside = false) :
    mainWrites a = b.put.toList ∧ ∀ w, b.put = some w → b = .client (.putDirect w.1 w.2) := by
  cases b with
  | client pc =>
      obtain ⟨r, hr, heq⟩ := Option.map_eq_some_iff.mp h
      cases heq
      cases pc <;> cases hr <;> first
        | (cases hout; done)
        | (refine ⟨rfl, fun w hw => ?_⟩; cases hw; done)
        | (refine ⟨rfl, fun w hw => ?_⟩; cases hw; rfl)
  | rollback pc l =>
      cases h
      cases pc <;> first
        | (cases hout; done)
        | (refine ⟨rfl, fun w hw => ?_⟩; cases hw)

theorem inside_bodyOf (s : State T D) (θ : Thread T) :
    (bodyOf s θ).inside = s.holdsReset θ := by
  cases θ <;> rfl

end Bodies

/-- Gets do nothing to an ideal Dev-LSM. -/
def idealSilent : Silent idealDev where
  View := IdealSt
  view := id
  get := by
    intro env k st
    simp only [idealDev]
    split <;> rfl
  step := by
    rintro env pc id st _ rfl
    exact ⟨rfl, rfl, rfl⟩
  seekScan := by
    rintro env id key value st _ rfl
    exact ⟨rfl, rfl, rfl, rfl⟩
  nextScan := by
    rintro env id key value st _ rfl
    exact ⟨rfl, rfl, rfl, rfl⟩
  reset := by
    rintro env st _ rfl
    rfl

section Runs

variable {T : Type} [DecidableEq T] {D : DevLsm} {murmur : Murmur} {E : D.Env → Prop}
  {F : Prop} {q : Silent D}
  {g₀ : Guarded D} {main₀ : Key → Option Value} {s s' : State T D} {act : Act T D}
  {tr : List (State T D × Act T D)} {θ : Thread T} {env : D.Env} {m : Level × Int}
  {a : Access D} {next : Shared T D → Body D}

/-- Up to its loop a pass has its `flag` at -2, and on its way to `reset_mtx`
it has seen `kache_flag` set; only it could clear that. -/
structure PassReady (s : State T D) : Prop where
  flag : s.rollback.resting = true → s.locals.flag = -2
  kache : s.rollback = .lockReset ∨ s.rollback = .setFlag → s.sh.kacheFlag = 1

omit [DecidableEq T] in
theorem passReady_opened (main : Key → Option Value) (dev : D.St) :
    PassReady (State.opened main dev : State T D) := by
  refine ⟨fun _ => rfl, fun h => ?_⟩
  rcases h with h | h <;> cases h

theorem PassReady.step (h : PassReady s) (hstep : s.step murmur act = some s') :
    PassReady s' := by
  cases State.Steps.of_step hstep with
  | callPut t k v hidle => exact ⟨h.flag, h.kache⟩
  | callGet t k hidle => exact ⟨h.flag, h.kache⟩
  | client t env a next hcode hready =>
      refine ⟨h.flag, fun hpc => ?_⟩
      rcases a.effect_kacheFlag murmur (.client t) env s.sh with hsame | ⟨n, rfl, hn⟩
      · exact hsame.trans (h.kache hpc)
      · exact hn.trans (clientCode_setKache hcode)
  | rollback env m a next hcode hready =>
      refine ⟨rollbackCode_resting hcode h.flag, fun hpc => ?_⟩
      rcases rollbackCode_toSetFlag hcode hpc with ⟨rfl, hone⟩ | ⟨rfl, hlock⟩
      · exact hone
      · exact h.kache (Or.inl hlock)

omit [DecidableEq T] in
theorem PassReady.begins (h : PassReady s) (hF : F → Unhidden murmur s act)
    (hmover : mover act = some θ) {p : Purpose} (hp : (bodyOf s θ).purpose = some p) :
    p.Begins murmur F (guarded s.sh) := by
  cases θ with
  | client t =>
      cases hpc : s.clients t <;> rw [bodyOf, hpc] at hp <;> cases hp
      · intro hf
        exact ((hF hf) _ _ _ hmover).2 (by rw [bodyOf, hpc])
      · trivial
  | rollback =>
      cases hpc : s.rollback <;> rw [bodyOf, hpc] at hp <;> cases hp
      exact ⟨h.flag (by rw [hpc]; rfl), h.kache (Or.inl hpc)⟩

/-- The replay of the run so far. -/
def Replayed (murmur : Murmur) (E : D.Env → Prop) (F : Prop) (q : Silent D) (g₀ : Guarded D)
    (main₀ : Key → Option Value) (tr : List (State T D × Act T D)) (s : State T D) : Prop :=
  Progress murmur E F q g₀ main₀ (tr.reverse.filterMap entered)
    (tr.reverse.filterMap effected)
    (guarded s.sh) s.sh.main (s.sh.resetMtx.map (bodyOf s))

/-- A step of the thread `θ`. -/
structure StepBy (murmur : Murmur) (s : State T D) (act : Act T D) (θ : Thread T) (env : D.Env)
    (m : Level × Int) (a : Access D) (next : Shared T D → Body D) (s' : State T D) : Prop where
  mover : mover act = some θ
  outside : outsideOf act = some env
  code : (bodyOf s θ).code murmur env m = some (a, next)
  ready : a.ready s.sh = true
  sh : s'.sh = a.effect murmur θ env s.sh
  self : bodyOf s' θ = next s.sh
  others : ∀ θ', θ' ≠ θ → bodyOf s' θ' = bodyOf s θ'

theorem StepBy.entered (h : StepBy murmur s act θ env m a next s') :
    entered (s, act) = (bodyOf s θ).purpose := by
  rw [Spec.entered, h.mover]
  rfl

theorem StepBy.effected (h : StepBy murmur s act θ env m a next s') :
    effected (s, act) = (bodyOf s θ).put := by
  rw [Spec.effected, h.mover]
  rfl

theorem StepBy.filterMap_effected (h : StepBy murmur s act θ env m a next s')
    (tr : List (State T D × Act T D)) :
    ((s, act) :: tr).reverse.filterMap Spec.effected =
      tr.reverse.filterMap Spec.effected ++ (bodyOf s θ).put.toList := by
  rw [List.reverse_cons, List.filterMap_append, List.filterMap_cons, h.effected]
  cases (bodyOf s θ).put <;> rfl

/-- Every step is a call, which touches no thread inside its code and nothing
shared, or is made by a thread. -/
theorem stepBy_of_step (hstep : s.step murmur act = some s') :
    (mover act = none ∧ s'.sh = s.sh ∧
      ∀ θ, bodyOf s' θ = bodyOf s θ ∨ (bodyOf s θ).inside = false) ∨
    ∃ θ env m a next, StepBy murmur s act θ env m a next s' := by
  have hcall : ∀ {t : T} {pc : ClientPc D.Pc}, s.clients t = .idle →
      ∀ θ, bodyOf (s.setClient t pc) θ = bodyOf s θ ∨ (bodyOf s θ).inside = false := by
    intro t pc hidle θ
    cases θ with
    | rollback => exact Or.inl rfl
    | client t' =>
        by_cases heq : t' = t
        · subst heq
          refine Or.inr ?_
          rw [bodyOf, hidle]
          rfl
        · refine Or.inl ?_
          rw [bodyOf, State.setClient_ne s pc heq]
          rfl
  cases State.Steps.of_step hstep with
  | callPut t k v hidle => exact Or.inl ⟨rfl, rfl, hcall hidle⟩
  | callGet t k hidle => exact Or.inl ⟨rfl, rfl, hcall hidle⟩
  | client t env a next hcode hready =>
      refine Or.inr ⟨.client t, env, (.low, 0), a, fun sh => .client (next sh), rfl, rfl, ?_,
        hready, rfl, ?_, ?_⟩
      · rw [bodyOf, Body.code, hcode]
        rfl
      · rw [bodyOf, State.setClient_self]
      · rintro (t' | _) hne
        · rw [bodyOf, State.setClient_ne s _ fun heq => hne (by rw [heq])]
          rfl
        · rfl
  | rollback env m a next hcode hready =>
      refine Or.inr ⟨.rollback, env, m, a, fun sh => .rollback (next sh).1 (next sh).2, rfl,
        rfl, ?_, hready, rfl, rfl, ?_⟩
      · rw [bodyOf, Body.code, hcode]
      · rintro (t' | _) hne
        · rfl
        · exact absurd rfl hne

theorem Replayed.inside (h : Replayed murmur E F q g₀ main₀ tr s) (hlocks : State.Locks s)
    (hallowed : E env) (hby : StepBy murmur s act θ env m a next s')
    (hin : (bodyOf s θ).inside = true) :
    Replayed murmur E F q g₀ main₀ ((s, act) :: tr) s' := by
  have howner : s.sh.resetMtx = some θ :=
    (hlocks.reset θ).mp ((inside_bodyOf s θ).symm.trans hin)
  rw [Replayed, howner] at h
  have hstep : Progress murmur E F q g₀ main₀ _ _ (guarded (a.effect murmur θ env s.sh))
    (a.effect murmur θ env s.sh).main (some (next s.sh)) := Progress.step h hin hallowed hby.code
  have hpass := Body.code_passes hby.code s.sh
  have hacts : a.onReset.Acts θ s.sh.resetMtx (a.effect murmur θ env s.sh).resetMtx :=
    Access.effect_resetMtx hby.ready
  have hkeep : a.onReset ≠ .acquire := by
    intro hacq
    rw [hacq, hin] at hpass
    cases hpass.1
  rw [Replayed, hby.filterMap_effected, List.reverse_cons, List.filterMap_append, hby.sh]
  simp only [List.filterMap_cons, List.filterMap_nil, hby.entered,
    (Body.code_purpose hby.code s.sh).2 hkeep, List.append_nil]
  cases hop : a.onReset with
  | acquire => exact absurd hop hkeep
  | keep =>
      rw [hop] at hacts
      rw [show (a.effect murmur θ env s.sh).resetMtx = some θ from hacts.trans howner,
        Option.map_some, hby.self]
      exact hstep
  | release =>
      rw [hop] at hacts hpass
      rw [show (a.effect murmur θ env s.sh).resetMtx = none from hacts, Option.map_none]
      exact hstep.leave hpass.2

theorem Replayed.outside (h : Replayed murmur E F q g₀ main₀ tr s) (hlocks : State.Locks s)
    (hready : PassReady s) (hF : F → Unhidden murmur s act)
    (hby : StepBy murmur s act θ env m a next s') (hin : (bodyOf s θ).inside = false) :
    Replayed murmur E F q g₀ main₀ ((s, act) :: tr) s' := by
  have hpass := Body.code_passes hby.code s.sh
  have hacts : a.onReset.Acts θ s.sh.resetMtx (a.effect murmur θ env s.sh).resetMtx :=
    Access.effect_resetMtx hby.ready
  have hunder : a.underReset = false := by
    cases hu : a.underReset with
    | false => rfl
    | true =>
        rw [Body.inside_of_underReset hby.code hu] at hin
        cases hin
  have hsame : q.Same (guarded s.sh) (guarded (a.effect murmur θ env s.sh)) :=
    q.same_of_outside hunder
  obtain ⟨hwrites, hdirect⟩ := Body.code_put hby.code hin
  -- Main-LSM, whoever has the lock.
  have hput : Progress murmur E F q g₀ main₀ (tr.reverse.filterMap entered)
      (tr.reverse.filterMap effected ++ (bodyOf s θ).put.toList)
      (guarded (a.effect murmur θ env s.sh)) (a.effect murmur θ env s.sh).main
      (s.sh.resetMtx.map (bodyOf s)) := by
    rw [effect_main, hwrites]
    cases hw : (bodyOf s θ).put with
    | none =>
        rw [Option.toList_none, List.append_nil]
        exact Progress.frame h hsame
    | some w =>
        have hfresh : F → (guarded s.sh).kacheFlag = 0 := fun hf =>
          (hF hf θ w.1 w.2 hby.mover).1 (hdirect w hw)
        exact (Progress.direct h w hfresh).frame hsame
  rw [Replayed, hby.filterMap_effected, List.reverse_cons, List.filterMap_append, hby.sh]
  cases hop : a.onReset with
  | acquire =>
      obtain ⟨p, hp, hbody⟩ := (Body.code_purpose hby.code s.sh).1 hop
      rw [hop] at hacts
      rw [hacts.1] at hput
      simp only [List.filterMap_cons, List.filterMap_nil, hby.entered, hp]
      rw [hacts.2, Option.map_some, hby.self, hbody]
      exact hput.enter p (hsame.symm.begins (hready.begins hF hby.mover hp))
  | keep =>
      have hnone := (Body.code_purpose hby.code s.sh).2 (by rw [hop]; exact nofun)
      rw [hop] at hacts
      rw [show (a.effect murmur θ env s.sh).resetMtx = s.sh.resetMtx from hacts]
      simp only [List.filterMap_cons, List.filterMap_nil, hby.entered, hnone, List.append_nil]
      -- The owner is somebody else, who has not moved.
      have howner : s.sh.resetMtx.map (bodyOf s') = s.sh.resetMtx.map (bodyOf s) := by
        cases hown : s.sh.resetMtx with
        | none => rfl
        | some θ' =>
            rw [Option.map_some, Option.map_some, hby.others θ']
            rintro rfl
            rw [inside_bodyOf, (hlocks.reset θ').mpr hown] at hin
            cases hin
      rw [howner]
      exact hput
  | release =>
      rw [hop, hin] at hpass
      cases hpass.1

theorem Replayed.step (h : Replayed murmur E F q g₀ main₀ tr s) (hlocks : State.Locks s)
    (hready : PassReady s) (hallowed : ∀ env, outsideOf act = some env → E env)
    (hF : F → Unhidden murmur s act) (hstep : s.step murmur act = some s') :
    Replayed murmur E F q g₀ main₀ ((s, act) :: tr) s' := by
  rcases stepBy_of_step hstep with ⟨hcall, hsh, hbody⟩ | ⟨θ, env, m, a, next, hby⟩
  · have howner : s'.sh.resetMtx.map (bodyOf s') = s.sh.resetMtx.map (bodyOf s) := by
      rw [hsh]
      cases hown : s.sh.resetMtx with
      | none => rfl
      | some θ =>
          rcases hbody θ with heq | hout
          · rw [Option.map_some, Option.map_some, heq]
          · rw [inside_bodyOf, (hlocks.reset θ).mpr hown] at hout
            cases hout
    rw [Replayed, List.reverse_cons, List.filterMap_append, List.filterMap_append, howner, hsh]
    simp only [List.filterMap_cons, List.filterMap_nil, entered, effected, hcall,
      Option.bind_none, List.append_nil]
    exact h
  · cases hin : (bodyOf s θ).inside with
    | true => exact h.inside hlocks (hallowed env hby.outside) hby hin
    | false => exact h.outside hlocks hready hF hby hin

theorem replayed_of_run {Q : State T D → Act T D → Prop} {main : Key → Option Value}
    {dev : D.St} (q : Silent D) (hQ : ∀ s act env, Q s act → outsideOf act = some env → E env)
    (hF : F → ∀ s act, Q s act → Unhidden murmur s act)
    (h : Run (State.step murmur) Q (State.opened main dev : State T D) tr s) :
    State.Locks s ∧ PassReady s ∧
      Replayed murmur E F q (guarded (State.opened main dev : State T D).sh) main tr s := by
  induction h with
  | start =>
      exact ⟨State.locks_opened main dev, passReady_opened main dev,
        .free .start (.refl q _) rfl fun _ => rfl⟩
  | next run hallowed htaken ih =>
      obtain ⟨hlocks, hready, hreplay⟩ := ih
      exact ⟨hlocks.step htaken, hready.step htaken, hreplay.step hlocks hready
        (fun env => hQ _ _ env hallowed) (fun hf => hF hf _ _ hallowed) htaken⟩

omit [DecidableEq T] in
theorem Replayed.row (h : Replayed murmur E F q g₀ main₀ tr s) (hfree : s.sh.resetMtx = none) :
    ∃ evs g, Serial murmur E F g₀ main₀ evs g s.sh.main ∧ q.Same g (guarded s.sh) ∧
      evs.filterMap Event.purpose = tr.reverse.filterMap entered ∧
      SamePuts (evs.filterMap Event.put) (tr.reverse.filterMap effected) := by
  rw [Replayed, hfree] at h
  exact h.row

/-- Whenever `reset_mtx` is free, the threads have left the flags, the tracker,
Dev-LSM and Main-LSM as their sections would, each in one piece and in the
order in which they took the lock, with the direct puts between them. Every key
sees its puts in the order in which they came into effect. -/
theorem serialisable {Q : State T D → Act T D → Prop} {main : Key → Option Value}
    {dev : D.St} (q : Silent D) (hQ : ∀ s act env, Q s act → outsideOf act = some env → E env)
    (h : Run (State.step murmur) Q (State.opened main dev : State T D) tr s)
    (hfree : s.sh.resetMtx = none) :
    ∃ evs g, Serial murmur E (∀ s act, Q s act → Unhidden murmur s act)
        (guarded (State.opened main dev : State T D).sh) main evs g s.sh.main ∧
      q.Same g (guarded s.sh) ∧
      evs.filterMap Event.purpose = tr.reverse.filterMap entered ∧
      SamePuts (evs.filterMap Event.put) (tr.reverse.filterMap effected) :=
  (replayed_of_run q hQ id h).2.2.row hfree

end Runs

/-- A put that saw `kache_flag = 0` is overtaken by a redirected one, writes in
the middle of its section, and a pass follows. -/
def overtaken : List (Act Bool idealDev) :=
  .callPut false [48, 48, 48, 49] [2] :: List.replicate 2 (.client false []) ++
    .rollback [] (.high, 10) :: .callPut true [48, 48, 48, 48] [1] ::
    List.replicate 3 (.client true []) ++ .client false [] ::
    List.replicate 4 (.client true []) ++ List.replicate 21 (.rollback [] (.low, 10))

def beforeOvertaken : State Bool idealDev :=
  State.opened (fun _ => none) { store := ∅, cursor := [] }

theorem run_overtaken : Run (State.step murmurHash3) (fun _ _ => True) beforeOvertaken
    (replayTrace (State.step murmurHash3) beforeOvertaken overtaken [])
    (replay (State.step murmurHash3) beforeOvertaken overtaken) :=
  Run.start.replay_allowed fun _ _ _ => trivial

theorem serialisable_overtaken :
    (replay (State.step murmurHash3) beforeOvertaken overtaken).sh.resetMtx = none ∧
      ((replayTrace (State.step murmurHash3) beforeOvertaken overtaken []).filterMap entered).length
        = 2 ∧
      (replayTrace (State.step murmurHash3) beforeOvertaken overtaken []).reverse.filterMap
        effected = [([48, 48, 48, 49], [2]), ([48, 48, 48, 48], [1])] ∧
      ∃ evs g, Serial murmurHash3 (fun _ => True)
          (∀ (s : State Bool idealDev) act, True → Unhidden murmurHash3 s act)
          (guarded beforeOvertaken.sh) (fun _ => none) evs g
          (replay (State.step murmurHash3) beforeOvertaken overtaken).sh.main ∧
        idealSilent.Same g
          (guarded (replay (State.step murmurHash3) beforeOvertaken overtaken).sh) ∧
        evs.filterMap Event.purpose =
          (replayTrace (State.step murmurHash3) beforeOvertaken overtaken []).reverse.filterMap
            entered ∧
        SamePuts (evs.filterMap Event.put)
          ((replayTrace (State.step murmurHash3) beforeOvertaken overtaken []).reverse.filterMap
            effected) :=
  ⟨rfl, by decide +kernel, by decide +kernel,
    serialisable idealSilent (fun _ _ _ _ _ => trivial) run_overtaken rfl⟩

end Kvaccel.Spec
