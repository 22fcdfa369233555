import Kvaccel.Proofs.Threads
import Kvaccel.Spec.IdealDev
import Kvaccel.Spec.Races

/-!
# Where two threads can meet

The locks were meant to keep the threads apart on everything that is not
atomic, and they do for all who write the stores: whoever writes a chain of the
tracker or the host side of the driver is inside `reset_mtx`, so two writers of
these never meet, and the driver's buffers are met by nobody.

Two reads are made outside. `Put` looks at the level, which the monitor is free
to write at any time. And `Get` searches a chain of the tracker: with no lock
at all as long as `rollback_flag` is 0, and otherwise with `rollback_mtx`
shared, which keeps out the deletes and the clear and lets the insert of a
redirected put through, since that takes `reset_mtx` only.

One write is made outside too. A `Get` that found its key appends to `times_get`
when it has given up the lock, or has had none, and so may another one.
-/

namespace Kvaccel.Spec

open Kvaccel.Lib Kvaccel.Ref

/-! ## A step changes what it writes -/

section Frame

variable {T σ : Type} [DecidableEq T] {exec : Device σ} {murmur : Murmur}
  {s s' : State T (ilsmDev exec)} {act : Act T (ilsmDev exec)} {c : Cell}

omit [DecidableEq T] in
theorem SameCell.refl (sh : Shared T (ilsmDev exec)) (c : Cell) : SameCell sh sh c := by
  cases c with
  | level => rfl
  | bucket i => rfl
  | host => exact ⟨_, _, _, rfl⟩
  | timesGet => trivial

theorem sameHost_get (db : DB σ) (k value : Bytes) (out : Outside) :
    SameHost db (db.get exec k value out).2.2 := by
  rw [DB.get_db]
  split
  · exact ⟨_, _, _, rfl⟩
  · obtain ⟨stat, hcmd⟩ := DB.nvmePassthru_eq exec db _ out.result
    rw [hcmd]
    exact ⟨_, _, _, rfl⟩

/-- What an access may change. -/
def written (murmur : Murmur) {D : DevLsm} : Access D → Cell → Bool
  | .setLevel _, .level => true
  | .trackerInsert k, .bucket i | .trackerDelete k, .bucket i => bucketOf murmur k = i
  | .trackerClear, .bucket _ => true
  | .devStep _ _, .host | .devSeekScan _ _ _, .host | .devNextScan _ _ _, .host
  | .devReset, .host => true
  | _, _ => false

theorem table_setBucket_ne (m : HashMap Key 128) (key : UInt64) (b : List (UInt64 × Key))
    {i : Fin 128} (h : HashMap.index 128 key ≠ i) :
    (m.setBucket key b).get i = m.table.get i := by
  have hne : (HashMap.index 128 key).val ≠ i.val := fun heq => h (Fin.ext heq)
  exact Vector.getElem_set_ne (HashMap.index 128 key).isLt i.isLt hne

/-- Cell by cell, since an access that writes one leaves the others alone. -/
theorem effect_sameCell {a : Access (ilsmDev exec)} (h : written murmur a c = false) (θ : Thread T)
    (env : Outside) (sh : Shared T (ilsmDev exec)) :
    SameCell sh (a.effect murmur θ env sh) c := by
  cases c with
  | level =>
      cases a with
      | setLevel m => cases h
      | lockShared | unlockShared => cases θ <;> rfl
      | _ => rfl
  | bucket i =>
      show (a.effect murmur θ env sh).keyTracker.table.get i = _
      rcases a.effect_keyTracker murmur θ env sh with
        heq | ⟨k, rfl, heq⟩ | ⟨k, rfl, heq⟩ | ⟨rfl, heq⟩
      · rw [heq]
      · rw [heq]
        exact table_setBucket_ne _ _ _ (of_decide_eq_false h)
      · rw [heq]
        unfold HashMap.delete
        dsimp only
        split
        · exact table_setBucket_ne _ _ _ (of_decide_eq_false h)
        · rfl
      · cases h
  | host =>
      cases a with
      | devGet k => exact sameHost_get sh.dev k [] env
      | devStep pc iterId => cases h
      | devSeekScan iterId key value | devNextScan iterId key value => cases h
      | devReset => cases h
      | lockShared | unlockShared => cases θ <;> exact ⟨_, _, _, rfl⟩
      | _ => exact ⟨_, _, _, rfl⟩
  | timesGet => trivial

omit [DecidableEq T] in
theorem clientCode_written {D : DevLsm} {env : D.Env} {pc : ClientPc D.Pc} {a : Access D}
    {next : Shared T D → ClientPc D.Pc} (h : clientCode murmur env pc = some (a, next))
    (hwritten : written murmur a c = true) : ClientPc.uses murmur pc c = some .writes := by
  cases pc <;> cases h <;> cases c <;> first
    | rfl
    | exact if_pos (of_decide_eq_true hwritten)
    | cases hwritten

omit [DecidableEq T] in
theorem rollbackCode_written {D : DevLsm} {env : D.Env} {m : Level × Int} {l : Ref.Locals}
    {pc : RollbackPc D.Pc} {a : Access D} {next : Shared T D → RollbackPc D.Pc × Ref.Locals}
    (h : rollbackCode murmur env m l pc = (a, next)) (hwritten : written murmur a c = true) :
    RollbackPc.uses murmur l pc c = some .writes := by
  cases pc <;> cases h <;> cases c <;> first
    | rfl
    | exact if_pos (of_decide_eq_true hwritten)
    | cases hwritten

/-- Who takes the step. -/
def stepper {D : DevLsm} : Act T D → Thread T
  | .callPut t _ _ | .callGet t _ | .client t _ => .client t
  | .rollback _ _ => .rollback

/-- An object that a step changes is one that the thread was about to write. -/
theorem uses_of_changed (h : s.step murmur act = some s') (hchanged : ¬ SameCell s.sh s'.sh c) :
    uses murmur s (stepper act) c = some .writes := by
  cases State.Steps.of_step h with
  | callPut t k v idle => exact absurd (SameCell.refl _ _) hchanged
  | callGet t k idle => exact absurd (SameCell.refl _ _) hchanged
  | client t env a next code ready =>
      refine clientCode_written code ?_
      by_contra hnot
      exact hchanged (effect_sameCell (Bool.eq_false_iff.mpr hnot) _ env _)
  | rollback env m a next code ready =>
      refine rollbackCode_written code ?_
      by_contra hnot
      exact hchanged (effect_sameCell (Bool.eq_false_iff.mpr hnot) _ env _)

end Frame

/-! ## Who is inside -/

section Inside

variable {murmur : Murmur} {c : Cell} {u : Use}

/-- A client uses these objects in a section, apart from the two reads and the
notes of `Get`. -/
theorem ClientPc.uses_cases {Pc : Type} {pc : ClientPc Pc}
    (h : ClientPc.uses murmur pc c = some u) (hc : c ≠ .timesGet) :
    (pc.holdsReset = true ∧ c ≠ .level) ∨
      (u = .reads ∧ c = .level ∧ ∃ k v, pc = .putLevel k v) ∨
      (u = .reads ∧ ∃ b k, c = .bucket (bucketOf murmur k) ∧ pc = .getContains b k) := by
  cases pc with
  | putLevel k v =>
      cases c with
      | level =>
          cases h
          exact Or.inr (Or.inl ⟨rfl, rfl, k, v, rfl⟩)
      | _ => cases h
  | ctlContains k v | ctlDelete k v | redInsert k v =>
      cases c with
      | bucket i => exact Or.inl ⟨rfl, nofun⟩
      | _ => cases h
  | redPut k v pc =>
      cases c with
      | host => exact Or.inl ⟨rfl, nofun⟩
      | _ => cases h
  | getContains b k =>
      cases c with
      | bucket i =>
          by_cases hk : bucketOf murmur k = i
          · cases (if_pos hk).symm.trans h
            exact Or.inr (Or.inr ⟨rfl, b, k, by rw [hk], rfl⟩)
          · cases (if_neg hk).symm.trans h
      | _ => cases h
  | getReturn b k r =>
      cases c with
      | timesGet => exact absurd rfl hc
      | _ => cases h
  | _ => cases c <;> cases h

/-- Only a `Get` that found its key notes a time. -/
theorem ClientPc.uses_timesGet {Pc : Type} {pc : ClientPc Pc}
    (h : ClientPc.uses murmur pc .timesGet = some u) : ∃ b k v, pc = .getReturn b k (some v) := by
  cases pc with
  | getReturn b k r =>
      cases r with
      | none => cases h
      | some v => exact ⟨b, k, v, rfl⟩
  | _ => cases h

theorem RollbackPc.uses_timesGet {Pc : Type} (l : Ref.Locals) (pc : RollbackPc Pc) :
    RollbackPc.uses murmur l pc .timesGet = none := by
  cases pc <;> rfl

theorem RollbackPc.uses_cases {Pc : Type} {l : Ref.Locals} {pc : RollbackPc Pc}
    (h : RollbackPc.uses murmur l pc c = some u) :
    (pc.holdsReset = true ∧ c ≠ .level) ∨ c = .level := by
  cases c with
  | level => exact Or.inr rfl
  | bucket i => cases pc <;> first | exact Or.inl ⟨rfl, nofun⟩ | cases h
  | host => cases pc <;> first | exact Or.inl ⟨rfl, nofun⟩ | cases h
  | timesGet => cases pc <;> cases h

/-- A chain is written with `rollback_mtx` held too, or by an insert. -/
theorem ClientPc.writes_bucket {Pc : Type} {pc : ClientPc Pc} {i : Fin 128}
    (h : ClientPc.uses murmur pc (.bucket i) = some .writes) :
    pc.holdsRollback = true ∨ ∃ k v, pc = .redInsert k v ∧ bucketOf murmur k = i := by
  cases pc with
  | ctlDelete k v => exact Or.inl rfl
  | redInsert k v =>
      by_cases hk : bucketOf murmur k = i
      · exact Or.inr ⟨k, v, rfl, hk⟩
      · cases (if_neg hk).symm.trans h
  | ctlContains k v | getContains b k =>
      by_cases hk : bucketOf murmur k = i
      · cases (if_pos hk).symm.trans h
      · cases (if_neg hk).symm.trans h
  | _ => cases h

theorem RollbackPc.writes_bucket {Pc : Type} {l : Ref.Locals} {pc : RollbackPc Pc} {i : Fin 128}
    (h : RollbackPc.uses murmur l pc (.bucket i) = some .writes) : pc.holdsRollback = true := by
  cases pc <;> first | rfl | cases h

end Inside

/-! ## Where they meet -/

section Races

variable {T : Type} {D : DevLsm} {murmur : Murmur} {s : State T D} {writer other : Thread T}
  {c : Cell}

/-- The level is the monitor's, and `Put` looks at it. -/
theorem Race.of_level (h : Race murmur s writer other .level) :
    writer = .rollback ∧ uses murmur s other .level = some .reads ∧
      ∃ t k v, other = .client t ∧ s.clients t = .putLevel k v := by
  have hwrites := h.writes
  cases writer with
  | client t =>
      rcases ClientPc.uses_cases hwrites nofun with ⟨_, hne⟩ | ⟨hu, _⟩ | ⟨hu, _⟩
      · exact absurd rfl hne
      · cases hu
      · cases hu
  | rollback =>
      obtain ⟨u, hu⟩ := Option.ne_none_iff_exists'.mp h.meets
      cases other with
      | rollback => exact absurd rfl h.differ
      | client t =>
          rcases ClientPc.uses_cases hu nofun with
            ⟨_, hne⟩ | ⟨rfl, _, k, v, hpc⟩ | ⟨_, b, k, hc, _⟩
          · exact absurd rfl hne
          · exact ⟨rfl, hu, t, k, v, rfl, hpc⟩
          · cases hc

/-- The notes of `Get` are written by two of them. -/
theorem Race.of_timesGet (h : Race murmur s writer other .timesGet) :
    ∃ t b k v t' b' k' v', writer = .client t ∧ s.clients t = .getReturn b k (some v) ∧
      other = .client t' ∧ s.clients t' = .getReturn b' k' (some v') := by
  have hwrites := h.writes
  obtain ⟨u, hu⟩ := Option.ne_none_iff_exists'.mp h.meets
  cases writer with
  | rollback => cases (RollbackPc.uses_timesGet s.locals s.rollback).symm.trans hwrites
  | client t =>
      obtain ⟨b, k, v, hpc⟩ := ClientPc.uses_timesGet hwrites
      cases other with
      | rollback => cases (RollbackPc.uses_timesGet s.locals s.rollback).symm.trans hu
      | client t' =>
          obtain ⟨b', k', v', hpc'⟩ := ClientPc.uses_timesGet hu
          exact ⟨t, b, k, v, t', b', k', v', rfl, hpc, rfl, hpc'⟩

/-- Besides these a race is on a chain, with a `Get` in its search, and if that
has the lock the writer is inserting. -/
theorem Race.of_ne_level (h : Race murmur s writer other c) (hlocks : State.Locks s)
    (hc : c ≠ .level) (htimes : c ≠ .timesGet) : uses murmur s other c = some .reads ∧ ∃ t b k,
      other = .client t ∧ s.clients t = .getContains b k ∧ c = .bucket (bucketOf murmur k) ∧
      (b = .locked → ∃ t' k' v, writer = .client t' ∧ s.clients t' = .redInsert k' v ∧
        bucketOf murmur k' = bucketOf murmur k) := by
  have hinside : s.holdsReset writer = true := by
    have hwrites := h.writes
    cases writer with
    | client t =>
        rcases ClientPc.uses_cases hwrites htimes with hin | ⟨hu, _⟩ | ⟨hu, _⟩
        · exact hin.1
        · cases hu
        · cases hu
    | rollback =>
        rcases RollbackPc.uses_cases hwrites with hin | hlevel
        · exact hin.1
        · exact absurd hlevel hc
  have houtside := hlocks.reset_unique other hinside h.differ.symm
  obtain ⟨u, hu⟩ := Option.ne_none_iff_exists'.mp h.meets
  cases other with
  | rollback =>
      rcases RollbackPc.uses_cases hu with hin | hlevel
      · exact absurd (hin.1.symm.trans houtside) (by decide)
      · exact absurd hlevel hc
  | client t =>
      rcases ClientPc.uses_cases hu htimes with hin | ⟨_, hlevel, _⟩ | ⟨rfl, b, k, rfl, hpc⟩
      · exact absurd (hin.1.symm.trans houtside) (by decide)
      · exact absurd hlevel hc
      · refine ⟨hu, t, b, k, rfl, hpc, rfl, fun hb => ?_⟩
        subst hb
        -- A reader inside keeps out everybody who holds the lock exclusively.
        have hfree := hlocks.free_of_holdsShared (t := t) (by rw [hpc]; rfl)
        have hwrites := h.writes
        cases writer with
        | client t' =>
            rcases ClientPc.writes_bucket hwrites with hheld | ⟨k', v, hpc', hk'⟩
            · exact absurd hfree (hlocks.not_free (.client t') hheld)
            · exact ⟨t', k', v, rfl, hpc', hk'⟩
        | rollback =>
            exact absurd hfree (hlocks.not_free .rollback (RollbackPc.writes_bucket hwrites))

variable [DecidableEq T] {Q : State T D → Act T D → Prop} {main : Key → Option Value} {dev : D.St}
  {tr : List (State T D × Act T D)}

/-- In every state of every run the threads race in three places only: on the
level, where the monitor writes and a `Put` reads; on a chain of the tracker that
a `Get` searches, without `rollback_mtx` or against the insert of a redirected
put; and on `times_get`, where two `Get`s that have found their keys write. -/
theorem race_on_level_chain_or_times
    (h : Run (State.step murmur) Q (State.opened main dev) tr s)
    (hrace : Race murmur s writer other c) :
    (c = .level ∧ uses murmur s other c = some .reads ∧ writer = .rollback ∧
        ∃ t k v, other = .client t ∧ s.clients t = .putLevel k v) ∨
      (uses murmur s other c = some .reads ∧ ∃ t b k,
        other = .client t ∧ s.clients t = .getContains b k ∧ c = .bucket (bucketOf murmur k) ∧
        (b = .locked → ∃ t' k' v, writer = .client t' ∧ s.clients t' = .redInsert k' v ∧
          bucketOf murmur k' = bucketOf murmur k)) ∨
      (c = .timesGet ∧ ∃ t b k v t' b' k' v',
        writer = .client t ∧ s.clients t = .getReturn b k (some v) ∧
          other = .client t' ∧ s.clients t' = .getReturn b' k' (some v')) := by
  have hlocks : State.Locks s := h.invariant (State.locks_opened main dev)
    fun _ _ _ hlocks _ hstep => hlocks.step hstep
  by_cases hlevel : c = .level
  · subst hlevel
    obtain ⟨hwriter, hreads, hother⟩ := hrace.of_level
    exact Or.inl ⟨rfl, hreads, hwriter, hother⟩
  · by_cases htimes : c = .timesGet
    · subst htimes
      exact Or.inr (Or.inr ⟨rfl, hrace.of_timesGet⟩)
    · exact Or.inr (Or.inl (hrace.of_ne_level hlocks hlevel htimes))

end Races

/-- A `Get` that saw `rollback_flag` set waits until the pass is over, and then
has the lock while another put is redirected. -/
def lateReader : List (Act Bool idealDev) := List.flatten [
  [.rollback [] (.high, 10), .callPut true [48, 48, 48, 48] [1]],
  List.replicate 7 (.client true []),
  List.replicate 4 (.rollback [] (.low, 10)),
  .callGet false [48, 48, 48, 48] :: List.replicate 2 (.client false []),
  List.replicate 17 (.rollback [] (.low, 10)),
  [.rollback [] (.high, 10), .callPut true [48, 48, 48, 48] [2]],
  List.replicate 4 (.client true []),
  [.client false []]]

def beforeLateReader : State Bool idealDev :=
  State.opened (fun _ => none) { store := ∅, cursor := [] }

def afterLateReader : State Bool idealDev :=
  replay (State.step murmurHash3) beforeLateReader lateReader

theorem run_lateReader : Run (State.step murmurHash3) (fun _ _ => True) beforeLateReader
    (replayTrace (State.step murmurHash3) beforeLateReader lateReader []) afterLateReader :=
  Run.start.replay_allowed fun _ _ _ => trivial

theorem race_lateReader : Race murmurHash3 afterLateReader (.client true) (.client false)
    (.bucket (bucketOf murmurHash3 [48, 48, 48, 48])) :=
  ⟨by decide, by decide +kernel, by decide +kernel⟩

theorem race_on_level_chain_or_times_lateReader :
    afterLateReader.clients false = .getContains .locked [48, 48, 48, 48] ∧
      uses murmurHash3 afterLateReader (.client false)
        (.bucket (bucketOf murmurHash3 [48, 48, 48, 48])) = some .reads := by
  refine ⟨by decide +kernel, ?_⟩
  rcases race_on_level_chain_or_times run_lateReader race_lateReader with
    ⟨_, hreads, _⟩ | ⟨hreads, _⟩ | ⟨htimes, _⟩
  · exact hreads
  · exact hreads
  · cases htimes

/-- Two `Get`s of one key, side by side to their last step. -/
example : Race murmurHash3 (replay (State.step murmurHash3) beforeLateReader
    (.callPut true [48, 48, 48, 48] [1] :: List.replicate 4 (.client true []) ++
      [.callGet true [48, 48, 48, 48], .callGet false [48, 48, 48, 48]] ++
      List.replicate 2 (.client true []) ++ List.replicate 2 (.client false [])))
    (.client true) (.client false) .timesGet :=
  ⟨by decide, by decide +kernel, by decide +kernel⟩

end Kvaccel.Spec
