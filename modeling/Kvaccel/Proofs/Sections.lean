import Kvaccel.Proofs.Serial

/-!
# What a section does, alone

The code of a section is straight but for three places: the calls of
`ilsm_db_` that take several commands, the tracker lookups, and the loop of
the pass. A run of it is walked forwards, row by row (`Alone.next`), and comes
out as one sentence for each purpose.

A pass depends on what the scan of Dev-LSM delivers. `Starts` says that it
delivers the records of a list, one a call, and then reports its end; the pass
is then the walk `migrated` along that list, followed by the reset.
-/

namespace Kvaccel.Spec

open Kvaccel.Lib Kvaccel.Ref

section Forwards

variable {D : DevLsm} {murmur : Murmur} {E : D.Env → Prop} {b b' : Body D}
  {g g' : Guarded D} {ws : List (Key × Value)}

theorem Alone.head (h : Alone murmur E b g ws b' g') :
    (b' = b ∧ g' = g ∧ ws = []) ∨
      ∃ env m b₁ g₁ w ws', E env ∧ b.step murmur env m g = some (b₁, g₁, w) ∧
        Alone murmur E b₁ g₁ ws' b' g' ∧ ws = w ++ ws' := by
  induction h with
  | enter => exact Or.inl ⟨rfl, rfl, rfl⟩
  | @step ws w b' b'' g' g'' env m alone allowed taken ih =>
      refine Or.inr ?_
      rcases ih with ⟨rfl, rfl, rfl⟩ | ⟨env₁, m₁, b₁, g₁, w₁, ws₁, hE, hfirst, hrest, rfl⟩
      · exact ⟨env, m, b'', g'', w, [], allowed, taken, .enter, by simp⟩
      · exact ⟨env₁, m₁, b₁, g₁, w₁, ws₁ ++ w, hE, hfirst, hrest.step allowed taken, by simp⟩

/-- Induction from the end of the section back. -/
theorem Alone.induct {P : Body D → Guarded D → List (Key × Value) → Prop}
    (h : Alone murmur E b g ws b' g') (hend : P b' g' [])
    (hstep : ∀ {env m b₀ g₀ w b₁ g₁ ws'}, E env → b₀.step murmur env m g₀ = some (b₁, g₁, w) →
      Alone murmur E b₁ g₁ ws' b' g' → P b₁ g₁ ws' → P b₀ g₀ (w ++ ws')) : P b g ws := by
  induction h generalizing P with
  | enter => exact hend
  | @step ws w b' b'' g' g'' env m alone allowed taken ih =>
      -- The steps before the last one, for the writes with the last ones added.
      refine ih (P := fun b g ws => P b g (ws ++ w)) ?_ ?_
      · have := hstep allowed taken .enter hend
        simpa using this
      · intro env₀ m₀ b₀ g₀ w₀ b₁ g₁ ws' hE hfirst hrest hP
        rw [List.append_assoc]
        exact hstep hE hfirst (hrest.step allowed taken) hP

/-- From inside to outside there is a first step. -/
theorem Alone.leaves (h : Alone murmur E b g ws b' g') (hin : b.inside = true)
    (hout : b'.inside = false) :
    ∃ env m b₁ g₁ w ws', E env ∧ b.step murmur env m g = some (b₁, g₁, w) ∧
      Alone murmur E b₁ g₁ ws' b' g' ∧ ws = w ++ ws' := by
  rcases h.head with ⟨rfl, _⟩ | hstep
  · rw [hin] at hout
    cases hout
  · exact hstep

/-- The row at hand. -/
theorem Alone.next {a : D.Env → Level × Int → Access D}
    {n : D.Env → Level × Int → Shared Empty D → Body D} (h : Alone murmur E b g ws b' g')
    (hcode : ∀ env m, b.code murmur env m = some (a env m, n env m)) (hin : b.inside = true)
    (hout : b'.inside = false) :
    ∃ env m, E env ∧ ∃ ws', Alone murmur E (n env m g.shared)
        (guarded ((a env m).effect murmur .rollback env g.shared)) ws' b' g' ∧
      ws = mainWrites (a env m) ++ ws' := by
  obtain ⟨env, m, b₂, g₂, w₂, ws', hE, hstep, hrest, rfl⟩ := h.leaves hin hout
  rw [Body.step_of_code hin (hcode env m)] at hstep
  cases hstep
  exact ⟨env, m, hE, ws', hrest, rfl⟩

/-- Outside, the section is over. -/
theorem Alone.over (h : Alone murmur E b g ws b' g') (hb : b.inside = false) :
    g' = g ∧ ws = [] := by
  rcases h.head with ⟨_, hg, hws⟩ | ⟨env, m, b₁, g₁, w, ws', _, hstep, _⟩
  · exact ⟨hg, hws⟩
  · rw [Body.step, hb] at hstep
    cases hstep

end Forwards

/-! ## The puts -/

section Puts

variable {D : DevLsm} {murmur : Murmur} {E : D.Env → Prop} {b : Body D} {g g' : Guarded D}
  {ws : List (Key × Value)} {k : Key} {v : Value}

/-- `Contains`, and `Delete` where it was found. -/
def takenBack (murmur : Murmur) (tracker : HashMap Key 128) (k : Key) : HashMap Key 128 :=
  if tracker.contains (doubleHash murmur k 1) then tracker.delete (doubleHash murmur k 1)
  else tracker

/-- The last two rows of the put with rollback. -/
theorem alone_ctlUnlock (h : Alone murmur E (.client .ctlUnlockRollback) g ws b g')
    (hout : b.inside = false) : ws = [] ∧ g' = g := by
  obtain ⟨_, _, _, ws₁, h₁, rfl⟩ := h.next (fun _ _ => rfl) rfl hout
  obtain ⟨_, _, _, ws₂, h₂, rfl⟩ := h₁.next (fun _ _ => rfl) rfl hout
  obtain ⟨hg, rfl⟩ := h₂.over rfl
  exact ⟨rfl, hg⟩

theorem alone_ctlPut (h : Alone murmur E (.client (.ctlPut k v)) g ws b g')
    (hout : b.inside = false) : ws = [(k, v)] ∧ g' = g := by
  obtain ⟨_, _, _, ws₁, h₁, rfl⟩ := h.next (fun _ _ => rfl) rfl hout
  obtain ⟨rfl, hg⟩ := alone_ctlUnlock h₁ hout
  exact ⟨rfl, hg⟩

theorem alone_ctlContains (h : Alone murmur E (.client (.ctlContains k v)) g ws b g')
    (hout : b.inside = false) :
    ws = [(k, v)] ∧ g' = { g with keyTracker := takenBack murmur g.keyTracker k } := by
  obtain ⟨_, _, _, ws₁, h₁, rfl⟩ := h.next (fun _ _ => rfl) rfl hout
  have h₁ : Alone murmur E (.client (if g.keyTracker.contains (doubleHash murmur k 1) then
      .ctlDelete k v else .ctlPut k v)) g _ b g' := h₁
  rw [takenBack]
  by_cases htr : g.keyTracker.contains (doubleHash murmur k 1) = true
  · rw [if_pos htr] at h₁ ⊢
    obtain ⟨_, _, _, ws₂, h₂, rfl⟩ := h₁.next (fun _ _ => rfl) rfl hout
    exact alone_ctlPut h₂ hout
  · rw [if_neg htr] at h₁ ⊢
    exact alone_ctlPut h₁ hout

theorem alone_withRollback (h : Alone murmur E (.client (.ctlRollback k v)) g ws b g')
    (hout : b.inside = false) :
    ws = [(k, v)] ∧ g' = { g with keyTracker := takenBack murmur g.keyTracker k } := by
  obtain ⟨_, _, _, ws₁, h₁, rfl⟩ := h.next (fun _ _ => rfl) rfl hout
  exact alone_ctlContains h₁ hout

/-- `ilsm_db_.Put` from the counter `pc` to its end, and what is left. -/
inductive DevPut (E : D.Env → Prop) : D.Pc → D.St → D.St → Prop where
  | last {env : D.Env} {pc : D.Pc} {st : D.St} (allowed : E env)
      (ends : (D.step env pc 0 st).1 = none) : DevPut E pc st (D.step env pc 0 st).2.2
  | more {env : D.Env} {pc pc' : D.Pc} {st st' : D.St} (allowed : E env)
      (goes : (D.step env pc 0 st).1 = some pc')
      (rest : DevPut E pc' (D.step env pc 0 st).2.2 st') : DevPut E pc st st'

theorem alone_redInsert (h : Alone murmur E (.client (.redInsert k v)) g ws b g')
    (hout : b.inside = false) :
    ws = [] ∧ g' = { g with keyTracker := g.keyTracker.insert (doubleHash murmur k 1) k } := by
  obtain ⟨_, _, _, ws₁, h₁, rfl⟩ := h.next (fun _ _ => rfl) rfl hout
  obtain ⟨_, _, _, ws₂, h₂, rfl⟩ := h₁.next (fun _ _ => rfl) rfl hout
  obtain ⟨hg, rfl⟩ := h₂.over rfl
  exact ⟨rfl, hg⟩

theorem alone_redPut {pc : D.Pc} (h : Alone murmur E (.client (.redPut k v pc)) g ws b g')
    (hout : b.inside = false) :
    ws = [] ∧ ∃ st, DevPut E pc g.dev st ∧ g' = { g with
      dev := st, keyTracker := g.keyTracker.insert (doubleHash murmur k 1) k } := by
  refine h.induct (P := fun b₀ g ws => ∀ pc, b₀ = .client (.redPut k v pc) → ws = [] ∧
    ∃ st, DevPut E pc g.dev st ∧ g' = { g with
      dev := st, keyTracker := g.keyTracker.insert (doubleHash murmur k 1) k }) ?_ ?_ pc rfl
  · rintro pc rfl
    cases hout
  · rintro env m _ g₀ w b₁ g₁ ws' hE hstep hrest ih pc rfl
    rw [step_redPut rfl] at hstep
    cases hpc : (D.step env pc 0 g₀.dev).1 with
    | none =>
        rw [hpc] at hstep
        cases hstep
        obtain ⟨rfl, rfl⟩ := alone_redInsert hrest hout
        exact ⟨rfl, _, .last hE hpc, rfl⟩
    | some pc' =>
        rw [hpc] at hstep
        cases hstep
        obtain ⟨rfl, st, hcall, rfl⟩ := ih pc' rfl
        exact ⟨rfl, st, .more hE hpc hcall, rfl⟩

theorem alone_redirected (h : Alone murmur E (.client (.redFlag k v)) g ws b g')
    (hout : b.inside = false) :
    ws = [] ∧ ∃ st, DevPut E (D.putPc k v) g.dev st ∧ g' = { g with
      kacheFlag := 1, dev := st,
      keyTracker := g.keyTracker.insert (doubleHash murmur k 1) k } := by
  obtain ⟨_, _, _, ws₁, h₁, rfl⟩ := h.next (fun _ _ => rfl) rfl hout
  exact alone_redPut h₁ hout

end Puts

/-! ## The pass -/

/-- The records of a scan in order: which are written to Main-LSM, and the
tracker afterwards. -/
def migrated (murmur : Murmur) :
    List (Key × Value) → HashMap Key 128 → List (Key × Value) × HashMap Key 128
  | [], tracker => ([], tracker)
  | r :: rs, tracker =>
      let rest := migrated murmur rs (takenBack murmur tracker r.1)
      ((if tracker.contains (doubleHash murmur r.1 1) then [r] else []) ++ rest.1, rest.2)

section Scans

variable {D : DevLsm} (E : D.Env → Prop) (J : D.St → Prop)

/-- `ilsm_db_.CreateIter` from the counter `pc` to its end: the iterator id,
and what is left. -/
inductive DevIter : D.Pc → Nat → D.St → Nat → D.St → Prop where
  | last {env : D.Env} {pc : D.Pc} {id : Nat} {st : D.St} (allowed : E env)
      (ends : (D.step env pc id st).1 = none) :
      DevIter pc id st (D.step env pc id st).2.1 (D.step env pc id st).2.2
  | more {env : D.Env} {pc pc' : D.Pc} {id id' : Nat} {st st' : D.St} (allowed : E env)
      (goes : (D.step env pc id st).1 = some pc')
      (rest : DevIter pc' (D.step env pc id st).2.1 (D.step env pc id st).2.2 id' st') :
      DevIter pc id st id' st'

/-- The calls of `NextScan` hand out the records of the list, one each, and the
call after them returns -3, in a state with `J`. -/
def Hands (id : Nat) : List (Key × Value) → D.St → Prop
  | [], st => ∀ env key value, E env →
      (D.nextScan env id key value st).1 = -3 ∧ J (D.nextScan env id key value st).2.2.2
  | r :: rs, st => ∀ env key value, E env →
      (D.nextScan env id key value st).1 = 1 ∧
        (D.nextScan env id key value st).2.1 = r.1 ∧
        (D.nextScan env id key value st).2.2.1 = r.2 ∧
        Hands id rs (D.nextScan env id key value st).2.2.2

/-- A scan from the start hands out a list with `P`, of one record at least. -/
def Starts (P : List (Key × Value) → Prop) (id : Nat) (st : D.St) : Prop :=
  ∀ env value, E env → ∃ r rs, P (r :: rs) ∧
    (D.seekScan env id startKey value st).1 = 1 ∧
    (D.seekScan env id startKey value st).2.1 = r.1 ∧
    (D.seekScan env id startKey value st).2.2.1 = r.2 ∧
    Hands E J id rs (D.seekScan env id startKey value st).2.2.2

end Scans

section Intro

variable {D : DevLsm} {E : D.Env → Prop} {J : D.St → Prop} {id : Nat} {st : D.St}

theorem Hands.nil (h : ∀ env key value, E env → ∃ key' value' st',
    D.nextScan env id key value st = (-3, key', value', st') ∧ J st') : Hands E J id [] st := by
  intro env key value hE
  obtain ⟨key', value', st', hscan, hJ⟩ := h env key value hE
  rw [hscan]
  exact ⟨rfl, hJ⟩

theorem Hands.cons {r : Key × Value} {rs : List (Key × Value)}
    (h : ∀ env key value, E env → ∃ st',
      D.nextScan env id key value st = (1, r.1, r.2, st') ∧ Hands E J id rs st') :
    Hands E J id (r :: rs) st := by
  intro env key value hE
  obtain ⟨st', hscan, hrest⟩ := h env key value hE
  rw [hscan]
  exact ⟨rfl, rfl, rfl, hrest⟩

theorem Starts.intro {P : List (Key × Value) → Prop}
    (h : ∀ env value, E env → ∃ r rs st', P (r :: rs) ∧
      D.seekScan env id startKey value st = (1, r.1, r.2, st') ∧ Hands E J id rs st') :
    Starts E J P id st := by
  intro env value hE
  obtain ⟨r, rs, st', hP, hscan, hhands⟩ := h env value hE
  refine ⟨r, rs, hP, ?_⟩
  rw [hscan]
  exact ⟨rfl, rfl, rfl, hhands⟩

end Intro

section Pass

variable {D : DevLsm} {murmur : Murmur} {E : D.Env → Prop} {J : D.St → Prop} {b : Body D}
  {g g' : Guarded D} {ws : List (Key × Value)} {l : Ref.Locals}

/-- The end of a pass. -/
theorem alone_devReset (h : Alone murmur E (.rollback .devReset l) g ws b g')
    (hout : b.inside = false) :
    ws = [] ∧ ∃ env, E env ∧ g' = {
      kacheFlag := 0, rollbackFlag := 0, keyTracker := g.keyTracker.clear,
      dev := D.reset env g.dev } := by
  obtain ⟨env, _, hE, ws₁, h₁, rfl⟩ := h.next (fun _ _ => rfl) rfl hout
  obtain ⟨_, _, _, ws₂, h₂, rfl⟩ := h₁.next (fun _ _ => rfl) rfl hout
  obtain ⟨_, _, _, ws₃, h₃, rfl⟩ := h₂.next (fun _ _ => rfl) rfl hout
  obtain ⟨_, _, _, ws₄, h₄, rfl⟩ := h₃.next (fun _ _ => rfl) rfl hout
  obtain ⟨_, _, _, ws₅, h₅, rfl⟩ := h₄.next (fun _ _ => rfl) rfl hout
  obtain ⟨_, _, _, ws₆, h₆, rfl⟩ := h₅.next (fun _ _ => rfl) rfl hout
  obtain ⟨hg, rfl⟩ := h₆.over rfl
  exact ⟨rfl, env, hE, hg⟩

/-- A record is dealt with, and the pass is at the top of its loop. -/
theorem alone_unlock (h : Alone murmur E (.rollback .unlock l) g ws b g')
    (hout : b.inside = false) : Alone murmur E (.rollback .loop l) g ws b g' := by
  obtain ⟨_, _, _, ws₁, h₁, rfl⟩ := h.next (fun _ _ => rfl) rfl hout
  obtain ⟨_, _, _, ws₂, h₂, rfl⟩ := h₁.next (fun _ _ => rfl) rfl hout
  exact h₂

theorem alone_contains (h : Alone murmur E (.rollback .contains l) g ws b g')
    (hout : b.inside = false) :
    ∃ ws', Alone murmur E (.rollback .loop l)
        { g with keyTracker := takenBack murmur g.keyTracker l.key } ws' b g' ∧
      ws = (if g.keyTracker.contains (doubleHash murmur l.key 1) then [(l.key, l.tmpValue)]
        else []) ++ ws' := by
  obtain ⟨_, _, _, ws₁, h₁, rfl⟩ := h.next (fun _ _ => rfl) rfl hout
  have h₁ : Alone murmur E (.rollback (if g.keyTracker.contains (doubleHash murmur l.key 1) then
      .delete else .unlock) l) g _ b g' := h₁
  rw [takenBack]
  by_cases htr : g.keyTracker.contains (doubleHash murmur l.key 1) = true
  · rw [if_pos htr] at h₁
    rw [if_pos htr, if_pos htr]
    obtain ⟨_, _, _, ws₂, h₂, rfl⟩ := h₁.next (fun _ _ => rfl) rfl hout
    obtain ⟨_, _, _, ws₃, h₃, rfl⟩ := h₂.next (fun _ _ => rfl) rfl hout
    exact ⟨ws₃, alone_unlock h₃ hout, rfl⟩
  · rw [if_neg htr] at h₁
    rw [if_neg htr, if_neg htr]
    exact ⟨_, alone_unlock h₁ hout, rfl⟩

theorem alone_lock {next : Bool} (h : Alone murmur E (.rollback (.lock next) l) g ws b g')
    (hout : b.inside = false) :
    Alone murmur E (.rollback (if next = true ∧ l.flag = -3 then .devReset else .contains) l) g
      ws b g' := by
  obtain ⟨_, _, _, ws₁, h₁, rfl⟩ := h.next (fun _ _ => rfl) rfl hout
  exact h₁

/-- The top of the loop, past the first round. -/
theorem alone_again (h : Alone murmur E (.rollback .loop l) g ws b g') (hout : b.inside = false)
    (hflag : 0 ≤ l.flag) :
    ∃ env, E env ∧ Alone murmur E (.rollback (.lock true) { l with
        flag := (D.nextScan env l.iterId l.key l.tmpValue g.dev).1
        key := (D.nextScan env l.iterId l.key l.tmpValue g.dev).2.1
        tmpValue := (D.nextScan env l.iterId l.key l.tmpValue g.dev).2.2.1 })
      { g with dev := (D.nextScan env l.iterId l.key l.tmpValue g.dev).2.2.2 } ws b g' := by
  obtain ⟨_, _, _, ws₁, h₁, rfl⟩ := h.next (fun _ _ => rfl) rfl hout
  have h₁ : Alone murmur E (.rollback (if l.flag < 0 then .createIter D.iterPc else .nextScan) l)
      g _ b g' := h₁
  rw [if_neg (Int.not_lt.mpr hflag)] at h₁
  obtain ⟨env, _, hE, ws₂, h₂, rfl⟩ := h₁.next (fun _ _ => rfl) rfl hout
  exact ⟨env, hE, h₂⟩

/-- The loop, on the records that the scan has still to hand out. -/
theorem alone_loop (hout : b.inside = false) : ∀ (rs : List (Key × Value)) (l : Ref.Locals)
    (g : Guarded D) (ws : List (Key × Value)), 0 ≤ l.flag → Hands E J l.iterId rs g.dev →
    Alone murmur E (.rollback .loop l) g ws b g' →
    ws = (migrated murmur rs g.keyTracker).1 ∧ ∃ env st, E env ∧ J st ∧ g' = {
      kacheFlag := 0, rollbackFlag := 0,
      keyTracker := (migrated murmur rs g.keyTracker).2.clear, dev := D.reset env st } := by
  intro rs
  induction rs with
  | nil =>
      intro l g ws hflag hhands h
      obtain ⟨env, hE, h₁⟩ := alone_again h hout hflag
      obtain ⟨hend, hJ⟩ := hhands env l.key l.tmpValue hE
      have h₂ := alone_lock h₁ hout
      rw [if_pos ⟨rfl, hend⟩] at h₂
      obtain ⟨rfl, env', hE', rfl⟩ := alone_devReset h₂ hout
      exact ⟨rfl, env', _, hE', hJ, rfl⟩
  | cons r rs ih =>
      intro l g ws hflag hhands h
      obtain ⟨env, hE, h₁⟩ := alone_again h hout hflag
      obtain ⟨hone, hkey, hvalue, hrest⟩ := hhands env l.key l.tmpValue hE
      have h₂ := alone_lock h₁ hout
      rw [hone, hkey, hvalue, if_neg (by simp)] at h₂
      obtain ⟨ws₁, h₃, rfl⟩ := alone_contains h₂ hout
      obtain ⟨rfl, hend⟩ := ih _ _ _ (by simp) hrest h₃
      exact ⟨rfl, hend⟩

theorem alone_createIter {pc : D.Pc}
    (h : Alone murmur E (.rollback (.createIter pc) l) g ws b g') (hout : b.inside = false) :
    ∃ id st, DevIter E pc l.iterId g.dev id st ∧
      Alone murmur E (.rollback .seekScan { l with iterId := id }) { g with dev := st } ws b
        g' := by
  refine h.induct (P := fun b₀ g ws => ∀ pc l, b₀ = .rollback (.createIter pc) l →
    ∃ id st, DevIter E pc l.iterId g.dev id st ∧
      Alone murmur E (.rollback .seekScan { l with iterId := id }) { g with dev := st } ws b
        g') ?_ ?_ pc l rfl
  · rintro pc l rfl
    cases hout
  · rintro env m _ g₀ w b₁ g₁ ws' hE hstep hrest ih pc l rfl
    rw [step_createIter rfl] at hstep
    cases hpc : (D.step env pc l.iterId g₀.dev).1 with
    | none =>
        rw [hpc] at hstep
        cases hstep
        exact ⟨_, _, .last hE hpc, hrest⟩
    | some pc' =>
        rw [hpc] at hstep
        cases hstep
        obtain ⟨id, st, hcall, hgo⟩ := ih pc' _ rfl
        exact ⟨id, st, .more hE hpc hcall, hgo⟩

/-- A pass over a scan that hands out a list with `P` migrates that list, in a
state with `J` resets Dev-LSM, and leaves the tracker and the flags empty. -/
theorem alone_pass {P : List (Key × Value) → Prop}
    (h : Alone murmur E (.rollback .setFlag l) g ws b g') (hout : b.inside = false)
    (hflag : l.flag < 0)
    (hstarts : ∀ id st, DevIter E D.iterPc l.iterId g.dev id st → Starts E J P id st) :
    ∃ rs, P rs ∧ ws = (migrated murmur rs g.keyTracker).1 ∧ ∃ env st, E env ∧ J st ∧ g' = {
      kacheFlag := 0, rollbackFlag := 0,
      keyTracker := (migrated murmur rs g.keyTracker).2.clear, dev := D.reset env st } := by
  obtain ⟨_, _, _, ws₁, h₁, rfl⟩ := h.next (fun _ _ => rfl) rfl hout
  obtain ⟨_, _, _, ws₂, h₂, rfl⟩ := h₁.next (fun _ _ => rfl) rfl hout
  have h₂ : Alone murmur E (.rollback (if l.flag < 0 then .createIter D.iterPc else .nextScan) l)
      { g with rollbackFlag := 1 } _ b g' := h₂
  rw [if_pos hflag] at h₂
  obtain ⟨id, st, hcall, h₃⟩ := alone_createIter h₂ hout
  obtain ⟨env, _, hE, ws₃, h₄, rfl⟩ := h₃.next (fun _ _ => rfl) rfl hout
  obtain ⟨r, rs, hP, hone, hkey, hvalue, hhands⟩ := hstarts id st hcall env l.tmpValue hE
  have h₄ : Alone murmur E (.rollback (.lock false) { l with
        flag := (D.seekScan env id startKey l.tmpValue st).1
        key := (D.seekScan env id startKey l.tmpValue st).2.1
        tmpValue := (D.seekScan env id startKey l.tmpValue st).2.2.1
        iterId := id })
      { g with
        rollbackFlag := 1, dev := (D.seekScan env id startKey l.tmpValue st).2.2.2 } _ b g' := h₄
  have h₅ := alone_lock h₄ hout
  rw [hone, hkey, hvalue, if_neg (by simp)] at h₅
  obtain ⟨ws₄, h₆, rfl⟩ := alone_contains h₅ hout
  obtain ⟨rfl, hend⟩ := alone_loop hout rs _ _ _ (by simp) hhands h₆
  exact ⟨r :: rs, hP, rfl, hend⟩

end Pass

end Kvaccel.Spec
