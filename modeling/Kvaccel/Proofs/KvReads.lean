import Kvaccel.Proofs.KvRest

/-!
# A read when nobody else is at it

`DB_MASTER::Get` asks Dev-LSM for a tracked key, and Dev-LSM is the device: what
is still in the host buffer it does not see. So a get that runs alone from a
state in which `reset_mtx` is free returns the last put of its key exactly when
the key is not tracked, or has no pending put that says something else than the
device does. The batches are in the statement, since they decide what is
pending.
-/

namespace Kvaccel.Spec

open Kvaccel.Lib Kvaccel.Ref

section Get

variable {σ : Type} {K : KvDevice σ} {db : DB σ} {m : DB MapDevice} {split : Split} {k : Key}
  {out : Outside}

/-- The device answers a get as the map would. -/
theorem Simulates.get (h : Simulates K db m) (key value : Bytes) (out : Outside) :
    (db.get K.exec key value out).1 = (m.get MapDevice.exec key value out).1 ∧
      (db.get K.exec key value out).2.1 = (m.get MapDevice.exec key value out).2.1 := by
  have hreply : (db.nvmePassthru K.exec {
        opcode := .kvGet
        cdw10 := word (firstFour key)
        cdw12 := DB.replyNlb
        dataLen := maxBufLen } out.result).1 =
      (m.nvmePassthru MapDevice.exec {
        opcode := .kvGet
        cdw10 := word (firstFour key)
        cdw12 := DB.replyNlb
        dataLen := maxBufLen } out.result).1 := by
    obtain ⟨_, hdb⟩ := DB.nvmePassthru_eq K.exec db {
      opcode := .kvGet
      cdw10 := word (firstFour key)
      cdw12 := DB.replyNlb
      dataLen := maxBufLen } out.result
    obtain ⟨_, hm⟩ := DB.nvmePassthru_eq MapDevice.exec m {
      opcode := .kvGet
      cdw10 := word (firstFour key)
      cdw12 := DB.replyNlb
      dataLen := maxBufLen } out.result
    rw [hdb, hm, (K.get _ db.device rfl).1, h.mem]
  unfold DB.get
  generalize db.nvmePassthru K.exec _ out.result = r at hreply ⊢
  generalize m.nvmePassthru MapDevice.exec _ out.result = r' at hreply ⊢
  obtain ⟨io, _⟩ := r
  obtain ⟨io', _⟩ := r'
  change io = io' at hreply
  subst hreply
  by_cases hout : out.data = false
  · simp only [if_pos hout, and_self]
  · simp only [if_neg hout]
    by_cases herr : io.err < 0
    · simp only [if_pos herr, and_self]
    · simp only [if_neg herr]
      by_cases hnone : io.err = 0x7C1
      · simp only [if_pos hnone, and_self]
      · simp only [if_neg hnone]
        by_cases hsome : 0 < io.result
        · simp only [if_pos hsome, and_self]
        · simp only [if_neg hsome, and_self]

/-- What `ilsm_db_.Get` finds is the last flushed put. -/
theorem Stored.found (h : Stored K split db)
    (hshort : ∀ r ∈ split.flushed, r.2.length ≤ maxBufLen) (hk : k.length = 4)
    (hout : out.data = true) :
    (if (db.get K.exec k [] out).1 ≥ 0 then some (db.get K.exec k [] out).2.1 else none) =
      lastPut split.flushed k := by
  obtain ⟨m, hsim, hholds⟩ := h
  have hreply := (hholds.get [] hk hout).2
  rw [DB.map_clipped fun v hv => hshort _ (DB.mem_of_lastPut hv)] at hreply
  rw [(hsim.get k [] out).1, (hsim.get k [] out).2]
  cases hlast : lastPut split.flushed k with
  | none =>
      rw [hlast, reported, Reply.get.injEq] at hreply
      rw [hreply.1, if_neg (by decide)]
  | some v =>
      rw [hlast, reported, Reply.get.injEq] at hreply
      rw [hreply.1, hreply.2, if_pos (Int.natCast_nonneg _)]

/-- A get leaves both sides where they are. -/
theorem Stored.get (h : Stored K split db) (key value : Bytes) (out : Outside) :
    Stored K split (db.get K.exec key value out).2.2 := by
  have hview : (db.get K.exec key value out).2.2.unstat = db.unstat :=
    DB.unstat_get K db key value out
  exact h.congr (congrArg DB.bufferingInfo hview.symm).symm
    (congrArg K.mem (congrArg DB.device hview.symm).symm)

end Get

/-! ## One thread alone -/

section Alone

variable {σ T : Type} [DecidableEq T] {K : KvDevice σ} {murmur : Murmur}
  {s s' : State T (ilsmDev K.exec)} {split : Split} {t : T} {k : Key} {want : Option Value}

/-- Only this thread moves, and its allocations succeed. -/
def Only (t : T) (_ : State T (ilsmDev K.exec)) (act : Act T (ilsmDev K.exec)) : Prop :=
  ∃ out, act = .client t out ∧ Supplied out

/-- What a get of `k` returns. -/
def found (murmur : Murmur) (split : Split) (sh : Shared T (ilsmDev K.exec)) (k : Key) :
    Option Value :=
  if sh.tracked murmur k then lastPut split.flushed k else sh.main k

/-- The flags and the stores of a state at rest. -/
structure Settled (murmur : Murmur) (split : Split) (sh : Shared T (ilsmDev K.exec)) : Prop where
  stored : Stored K split sh.dev
  short : ∀ r ∈ split.flushed, r.2.length ≤ maxBufLen
  rollbackFlag : sh.rollbackFlag = 0
  untracked : sh.kacheFlag = 0 → ∀ k, sh.tracked murmur k = false

/-- How far a get of `k` is, in `sh`, if it is to return `want`. -/
def Asks (murmur : Murmur) (sh : Shared T (ilsmDev K.exec)) (k : Key) (want : Option Value) :
    ClientPc (ilsmDev K.exec).Pc → Prop
  | .getKache k' => k' = k
  | .getRollback k' => k' = k ∧ sh.kacheFlag ≠ 0
  | .getContains b k' => k' = k ∧ b = .unlocked
  | .getDev b k' => k' = k ∧ b = .unlocked ∧ sh.tracked murmur k = true
  | .getMain b k' => k' = k ∧ b ≠ .locked ∧ sh.tracked murmur k = false
  | .getReturn _ k' r => k' = k ∧ r = want
  | .idle => True
  | _ => False

/-- A step of such a get: it changes nothing that the get is about. -/
theorem Asks.step {act : Act T (ilsmDev K.exec)} (hset : Settled murmur split s.sh)
    (hk : k.length = 4) (h : Asks murmur s.sh k (found murmur split s.sh k) (s.clients t))
    (hallowed : Only t s act) (hstep : s.step murmur act = some s') :
    Settled murmur split s'.sh ∧ found murmur split s'.sh k = found murmur split s.sh k ∧
      Asks murmur s'.sh k (found murmur split s.sh k) (s'.clients t) := by
  obtain ⟨out, rfl, hout⟩ := hallowed
  cases State.Steps.of_step hstep with
  | client _ _ a next hcode hready =>
      show Settled murmur split (a.effect murmur (.client t) out s.sh) ∧
        found murmur split (a.effect murmur (.client t) out s.sh) k = _ ∧
        Asks murmur (a.effect murmur (.client t) out s.sh) k _
          ((s.setClient t (next s.sh)).clients t)
      rw [State.setClient_self]
      cases hpc : s.clients t with
      | getKache k' =>
          rw [hpc] at h hcode
          cases hcode
          refine ⟨hset, rfl, ?_⟩
          dsimp only
          by_cases hzero : s.sh.kacheFlag = 0
          · rw [if_pos hzero]
            exact ⟨h, (fun hb => by cases hb), hset.untracked hzero k⟩
          · rw [if_neg hzero]
            exact ⟨h, hzero⟩
      | getRollback k' =>
          rw [hpc] at h hcode
          cases hcode
          refine ⟨hset, rfl, ?_⟩
          dsimp only
          rw [if_neg (by rw [hset.rollbackFlag]; decide)]
          exact ⟨h.1, rfl⟩
      | getContains b k' =>
          rw [hpc] at h hcode
          cases hcode
          obtain ⟨rfl, rfl⟩ := h
          refine ⟨hset, rfl, ?_⟩
          dsimp only
          by_cases htr : s.sh.tracked murmur k' = true
          · rw [if_pos htr]
            exact ⟨rfl, rfl, htr⟩
          · rw [if_neg htr]
            exact ⟨rfl, (fun hb => by cases hb), Bool.not_eq_true _ ▸ htr⟩
      | getDev b k' =>
          rw [hpc] at h hcode
          cases hcode
          obtain ⟨rfl, rfl, htr⟩ := h
          refine ⟨⟨hset.stored.get k' [] out, hset.short, hset.rollbackFlag, hset.untracked⟩,
            rfl, ?_⟩
          dsimp only
          rw [if_neg (fun hb => by cases hb)]
          refine ⟨rfl, ?_⟩
          rw [found, if_pos htr]
          exact hset.stored.found hset.short hk hout.2.2
      | getMain b k' =>
          rw [hpc] at h hcode
          cases hcode
          obtain ⟨rfl, hb, htr⟩ := h
          refine ⟨hset, rfl, ?_⟩
          dsimp only
          rw [if_neg hb]
          refine ⟨rfl, ?_⟩
          rw [found, if_neg (by rw [htr]; decide)]
      | getReturn b k' r =>
          rw [hpc] at hcode
          cases hcode
          exact ⟨hset, rfl, trivial⟩
      | idle =>
          rw [hpc] at hcode
          cases hcode
      | _ =>
          rw [hpc] at h
          exact h.elim

/-- Whatever else it gets from outside, the get returns that. -/
theorem found_of_run {tr : List (State T (ilsmDev K.exec) × Act T (ilsmDev K.exec))}
    (hset : Settled murmur split s.sh) (hk : k.length = 4)
    (hstart : s.clients t = .getKache k)
    (h : Run (State.step murmur) (Only t) s tr s') {b : Branch} {k' : Key} {r : Option Value}
    (hret : s'.clients t = .getReturn b k' r) : r = found murmur split s.sh k := by
  have hrun := h.invariant (I := fun s₁ => Settled murmur split s₁.sh ∧
      found murmur split s₁.sh k = found murmur split s.sh k ∧
      Asks murmur s₁.sh k (found murmur split s.sh k) (s₁.clients t))
    ⟨hset, rfl, by rw [hstart]; rfl⟩ fun s₁ act s₂ hI hallowed hstep => by
      obtain ⟨hset₁, hfound, hasks⟩ := hI
      rw [← hfound] at hasks ⊢
      exact hasks.step hset₁ hk hallowed hstep
  obtain ⟨_, _, hasks⟩ := hrun
  rw [hret] at hasks
  exact hasks.2

/-- A step of a client, by its row. -/
theorem client_step {out : (ilsmDev K.exec).Env} {a : Access (ilsmDev K.exec)}
    {next : Shared T (ilsmDev K.exec) → ClientPc (ilsmDev K.exec).Pc}
    (hcode : clientCode murmur out (s.clients t) = some (a, next)) (hready : a.ready s.sh = true) :
    s.step murmur (.client t out) = some { s.setClient t (next s.sh) with
      sh := a.effect murmur (.client t) out s.sh } := by
  rw [State.step, hcode]
  exact if_pos hready

/-- From `s`, by steps of `t` that leave everything shared as it was. -/
def Gets (murmur : Murmur) (t : T) (s : State T (ilsmDev K.exec))
    (pc : ClientPc (ilsmDev K.exec).Pc) : Prop :=
  ∃ tr s', Run (State.step murmur) (Only t) s tr s' ∧ s'.sh = s.sh ∧ s'.clients t = pc

theorem Gets.read {pc : ClientPc (ilsmDev K.exec).Pc}
    {next : Shared T (ilsmDev K.exec) → ClientPc (ilsmDev K.exec).Pc} (h : Gets murmur t s pc)
    (hcode : clientCode murmur (D := ilsmDev K.exec) Outside.fine pc = some (.read, next)) :
    Gets murmur t s (next s.sh) := by
  obtain ⟨tr, s', hrun, hsh, rfl⟩ := h
  refine ⟨_, _, hrun.next ⟨.fine, rfl, rfl, rfl, rfl⟩ (client_step hcode rfl), hsh, ?_⟩
  rw [← hsh]
  exact State.setClient_self ..

/-- Left to itself, a get comes to its end. -/
theorem get_returns (hset : Settled murmur split s.sh) (hstart : s.clients t = .getKache k) :
    ∃ tr s' b r, Run (State.step murmur) (Only t) s tr s' ∧ s'.clients t = .getReturn b k r := by
  have hmain : ∀ b, b ≠ .locked → Gets murmur t s (.getMain b k) →
      ∃ tr s' b r, Run (State.step murmur) (Only t) s tr s' ∧
        s'.clients t = .getReturn b k r := by
    intro b hb h
    have hread := h.read rfl
    rw [if_neg hb] at hread
    obtain ⟨tr, s', hrun, _, hpc⟩ := hread
    exact ⟨tr, s', b, _, hrun, hpc⟩
  have hkache : Gets murmur t s (.getKache k) := ⟨[], s, .start, rfl, hstart⟩
  have hnext := hkache.read rfl
  by_cases hzero : s.sh.kacheFlag = 0
  · rw [if_pos hzero] at hnext
    exact hmain .noDev (fun hb => by cases hb) hnext
  · rw [if_neg hzero] at hnext
    have hrollback := hnext.read rfl
    rw [if_neg (by rw [hset.rollbackFlag]; decide)] at hrollback
    have hcontains := hrollback.read rfl
    by_cases htr : s.sh.tracked murmur k = true
    · rw [if_pos htr] at hcontains
      obtain ⟨tr, s', hrun, _, hpc⟩ := hcontains
      refine ⟨_, _, .unlocked, _, hrun.next ⟨.fine, rfl, rfl, rfl, rfl⟩
        (client_step (by rw [hpc]; rfl) rfl), State.setClient_self ..⟩
    · rw [if_neg htr] at hcontains
      exact hmain .unlocked (fun hb => by cases hb) hcontains

end Alone

/-! ## After a run -/

section Runs

variable {σ T : Type} [DecidableEq T] {K : KvDevice σ} {murmur : Murmur}
  {main : Key → Option Value} {tr : List (State T (ilsmDev K.exec) × Act T (ilsmDev K.exec))}
  {s s₁ : State T (ilsmDev K.exec)} {device : σ} {t : T} {U : Set Key} {k : Key}

theorem settled_of_run (hpairs : K.Pairs) (hinj : Set.InjOn (fun k => doubleHash murmur k 1) U)
    (hU : ∀ r ∈ tr.reverse.filterMap effected, r.1 ∈ U) (hdev : K.mem device = MapDevice.empty)
    (h : Run (State.step murmur) (Visible K murmur) (State.opened main (DB.opened device)) tr s)
    (hfree : s.sh.resetMtx = none) :
    Settled murmur (batched (outstanding (tr.reverse.filterMap entered))) s.sh := by
  have hrest := atRest_of_run (fun _ _ hallowed => hallowed.toCarried) hdev h hfree
  have hlags := lags_of_run hpairs hinj hU hdev h hfree
  exact ⟨hrest.stored, fun r hr => (hrest.fitting r (List.mem_of_mem_take hr)).length_le,
    hrest.calm, fun hzero k => hlags.untracked hzero _⟩

/-- Called when `reset_mtx` is free and left to itself, a get returns, and what
it returns is the last put of the key exactly when the key is not tracked or no
pending put of it differs from what the device has. -/
theorem get_at_rest (hpairs : K.Pairs) (hinj : Set.InjOn (fun k => doubleHash murmur k 1) U)
    (hU : ∀ r ∈ tr.reverse.filterMap effected, r.1 ∈ U) (hdev : K.mem device = MapDevice.empty)
    (h : Run (State.step murmur) (Visible K murmur) (State.opened main (DB.opened device)) tr s)
    (hfree : s.sh.resetMtx = none) (hk : k.length = 4) (hin : k ∈ U)
    (hcall : s.step murmur (.callGet t k) = some s₁) :
    (∃ tr' s' b r, Run (State.step murmur) (Only t) s₁ tr' s' ∧
      s'.clients t = .getReturn b k r) ∧
    ∀ tr' s' b k' r, Run (State.step murmur) (Only t) s₁ tr' s' →
      s'.clients t = .getReturn b k' r →
      (r = overwrite main (tr.reverse.filterMap effected) k ↔
        (s.sh.tracked murmur k = true →
          lastPut (batched (outstanding (tr.reverse.filterMap entered))).pending k = none ∨
            lastPut (batched (outstanding (tr.reverse.filterMap entered))).pending k =
              lastPut (batched (outstanding (tr.reverse.filterMap entered))).flushed k)) := by
  have hvalue := (lags_of_run hpairs hinj hU hdev h hfree).value k hin
  have hset := settled_of_run hpairs hinj hU hdev h hfree
  obtain ⟨hsh, hstart⟩ : s₁.sh = s.sh ∧ s₁.clients t = .getKache k := by
    cases State.Steps.of_step hcall with
    | callGet _ _ _ => exact ⟨rfl, State.setClient_self ..⟩
  rw [← hsh] at hset
  refine ⟨get_returns hset hstart, fun tr' s' b k' r hrun hret => ?_⟩
  rw [found_of_run hset hk hstart hrun hret, found, hsh, ← hvalue]
  change (if s.sh.tracked murmur k then _ else _) =
    (if s.sh.tracked murmur k then lastPut (outstanding (tr.reverse.filterMap entered)) k
      else s.sh.main k) ↔ _
  generalize outstanding (tr.reverse.filterMap entered) = l
  by_cases htr : s.sh.tracked murmur k = true
  · -- The outstanding puts are the flushed ones and then the pending ones.
    have hlast : lastPut l k =
        (lastPut (batched l).pending k).or (lastPut (batched l).flushed k) := by
      rw [← DB.lastPut_append, batched_append]
    rw [if_pos htr, if_pos htr, hlast]
    cases lastPut (batched l).pending k with
    | none => exact ⟨fun _ _ => Or.inl rfl, fun _ => rfl⟩
    | some v =>
        rw [Option.some_or]
        refine ⟨fun heq _ => Or.inr heq.symm, fun hpending => ?_⟩
        rcases hpending htr with hnone | heq
        · cases hnone
        · exact heq.symm
  · rw [if_neg htr, if_neg htr]
    exact ⟨fun _ hin => absurd hin htr, fun _ => rfl⟩

end Runs

/-- The key that was redirected last is pending, and its get does not see it. -/
theorem get_at_rest_moving :
    ∃ s₁ tr' s' b r, afterMoving.step murmurHash3 (.callGet true [48, 48, 48, 48]) = some s₁ ∧
      Run (State.step murmurHash3) (Only true) s₁ tr' s' ∧
      s'.clients true = .getReturn b [48, 48, 48, 48] r ∧
      r ≠ overwrite (fun _ => none) (movingTrace.reverse.filterMap effected)
        [48, 48, 48, 48] := by
  have hidle : afterMoving.clients true = .idle := by decide +kernel
  have hcall : afterMoving.step murmurHash3 (.callGet true [48, 48, 48, 48]) =
      some (afterMoving.setClient true (.getKache [48, 48, 48, 48])) := by
    rw [State.step, hidle]
  have hget := get_at_rest pairs_listDevice injOn_moving puts_moving mem_empty run_moving
    moving_free rfl (by simp [movingKeys]) hcall
  obtain ⟨⟨tr', s', b, r, hrun, hret⟩, hall⟩ := hget
  refine ⟨_, tr', s', b, r, hcall, hrun, hret, fun heq => ?_⟩
  have hpending := (hall tr' s' b _ r hrun hret).mp heq (by decide +kernel)
  rw [outstanding_moving] at hpending
  revert hpending
  decide

end Kvaccel.Spec
