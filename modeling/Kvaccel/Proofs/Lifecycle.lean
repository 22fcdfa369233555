import Mathlib.Data.List.Basic
import Kvaccel.Lib.Run
import Kvaccel.Spec.Lifecycle

/-!
# One thread for the whole process

`checker` is set by the first `Open` and never again, so a process starts one
rollback thread. It exits where it tests the flag and finds it set, and nothing
brings it back. An open database is therefore watched as long as no test has
fallen between a `DestroyDB_Master` and the `Open` that clears the flag.

The handle the thread uses is there as long as the caller is orderly. Between
two tests of the flag the thread relies on it, so it must not be deleted there;
and once it is gone, the thread must not get past a test.
-/

namespace Kvaccel.Ref

open Kvaccel.Lib Kvaccel.Spec

theorem ThreadPc.next_eq_exited_iff {pc : ThreadPc} (h : pc ≠ .exited) (exit : Bool)
    (f : Finds) : pc.next exit f = .exited ↔ pc.tests = true ∧ exit = true := by
  cases pc with
  | exited => exact absurd rfl h
  | pendingBytes pass => cases pass <;> simp [next, tests]
  | scan negative =>
      rw [next]
      split
      · simp [tests]
      · split <;> simp [tests]
  | guard =>
      rw [next]
      split <;> simp [tests]
  | _ => simp [next, tests]

theorem ThreadPc.tests_of_uses {pc : ThreadPc} (h : pc.uses = true) : pc.tests = false := by
  cases pc with
  | test => cases h
  | retest => cases h
  | _ => rfl

/-- Between the start of the thread and `checker = gettid()`. -/
def CallerPc.startedThread {O : Type} : CallerPc O → Bool
  | .openChecker _ _ => true
  | _ => false

namespace Process

variable {O : Type}

/-- A thread's counter moves, and nothing else does. -/
def setPc (s : Process O) (i : Nat) (θ : RollbackThread O) (pc : ThreadPc) : Process O :=
  { s with threads := s.threads.set i { θ with pc := pc } }

theorem threadStep_eq {s s' : Process O} {i : Nat} {f : Finds}
    (h : s.threadStep i f = some s') :
    ∃ θ, s.threads[i]? = some θ ∧ θ.pc ≠ .exited ∧
      s' = s.setPc i θ (θ.pc.next s.rollbackShouldExit f) := by
  rw [threadStep] at h
  split at h
  · cases h
  · next θ hθ =>
    split at h
    · cases h
    · next hpc =>
      cases h
      exact ⟨θ, hθ, hpc, rfl⟩

/-- Replacing an element that does not satisfy `P`. -/
theorem exists_mem_set {α : Type} {P : α → Prop} {l : List α} {i : Nat} {a b : α}
    (h : l[i]? = some b) (hb : ¬ P b) :
    (∃ x ∈ l.set i a, P x) ↔ P a ∨ ∃ x ∈ l, P x := by
  obtain ⟨hi, hget⟩ := List.getElem?_eq_some_iff.mp h
  constructor
  · intro ⟨x, hx, hP⟩
    rcases List.mem_or_eq_of_mem_set hx with hx | rfl
    · exact Or.inr ⟨x, hx, hP⟩
    · exact Or.inl hP
  · intro hor
    rcases hor with ha | ⟨x, hx, hP⟩
    · exact ⟨a, List.mem_set hi a, ha⟩
    · obtain ⟨j, hj, rfl⟩ := List.mem_iff_getElem.mp hx
      have hne : i ≠ j := by
        intro heq
        subst heq
        exact hb (hget ▸ hP)
      refine ⟨l[j], ?_, hP⟩
      refine List.mem_iff_getElem.mpr ⟨j, by simpa using hj, ?_⟩
      rw [List.getElem_set_ne hne]

section Moves

variable [DecidableEq O]

/-- A step that was taken, by where its taker was. -/
inductive Moves (s : Process O) : ProcessAct O → Process O → Prop where
  | refuse (o : O) (n : Nat) (idle : s.caller = .idle) (hn : n ≠ 1) :
      Moves s (.callOpen o n) s
  | callOpen (o : O) (idle : s.caller = .idle) :
      Moves s (.callOpen o 1) { s with
        numInstances := Function.update s.numInstances o 1, caller := .openInner o }
  | callDestroy (o : O) (idle : s.caller = .idle) :
      Moves s (.callDestroy o) { s with caller := .destroyExit o }
  | openInner (o : O) (ok : Bool) (pc : s.caller = .openInner o) :
      Moves s (.caller ok) { s with
        slot := Function.update s.slot o (if ok then .live else .empty)
        caller := .openExit o ok }
  | openExit (o : O) (ok b : Bool) (pc : s.caller = .openExit o ok) :
      Moves s (.caller b) { s with rollbackShouldExit := false, caller := .openStart o ok }
  | openStart (o : O) (ok b : Bool) (pc : s.caller = .openStart o ok) :
      Moves s (.caller b) { s with
        threads := if s.checker then s.threads else s.threads ++ [⟨o, .test⟩]
        caller := .openChecker o ok }
  | openChecker (o : O) (ok b : Bool) (pc : s.caller = .openChecker o ok) :
      Moves s (.caller b) { s with checker := true, caller := .idle }
  | destroyExit (o : O) (b : Bool) (pc : s.caller = .destroyExit o) :
      Moves s (.caller b) { s with
        rollbackShouldExit := true
        caller := if s.numInstances o = 0 then .idle else .destroyName o }
  | destroyName (o : O) (b : Bool) (pc : s.caller = .destroyName o) (live : s.slot o = .live) :
      Moves s (.caller b) { s with caller := .destroyDelete o }
  | destroyDelete (o : O) (b : Bool) (pc : s.caller = .destroyDelete o) :
      Moves s (.caller b) { s with
        slot := Function.update s.slot o .deleted, caller := .destroyNull o }
  | destroyNull (o : O) (b : Bool) (pc : s.caller = .destroyNull o) :
      Moves s (.caller b) { s with
        slot := Function.update s.slot o .empty, caller := .destroyFiles o }
  | destroyFiles (o : O) (b : Bool) (pc : s.caller = .destroyFiles o) :
      Moves s (.caller b) { s with caller := .idle }
  | thread (i : Nat) (f : Finds) (θ : RollbackThread O) (at_ : s.threads[i]? = some θ)
      (runs : θ.pc ≠ .exited) :
      Moves s (.thread i f) (s.setPc i θ (θ.pc.next s.rollbackShouldExit f))

theorem Moves.of_step {s s' : Process O} {a : ProcessAct O} (h : s.step a = some s') :
    Moves s a s' := by
  cases a with
  | callOpen o n =>
      rw [step] at h
      split at h
      · next hidle =>
        split at h
        · next hn =>
          cases h
          exact .refuse o n hidle hn
        · next hn =>
          cases h
          rw [not_not.mp hn]
          exact .callOpen o hidle
      · cases h
  | callDestroy o =>
      rw [step] at h
      split at h
      · next hidle =>
        cases h
        exact .callDestroy o hidle
      · cases h
  | caller ok =>
      rw [step, callerStep] at h
      cases hpc : s.caller with
      | idle => rw [hpc] at h; cases h
      | openInner o => rw [hpc] at h; cases h; exact .openInner o ok hpc
      | openExit o b => rw [hpc] at h; cases h; exact .openExit o b ok hpc
      | openStart o b => rw [hpc] at h; cases h; exact .openStart o b ok hpc
      | openChecker o b => rw [hpc] at h; cases h; exact .openChecker o b ok hpc
      | destroyExit o => rw [hpc] at h; cases h; exact .destroyExit o ok hpc
      | destroyName o =>
          simp only [hpc] at h
          split at h
          · next hlive =>
            cases h
            exact .destroyName o ok hpc hlive
          · cases h
      | destroyDelete o => rw [hpc] at h; cases h; exact .destroyDelete o ok hpc
      | destroyNull o => rw [hpc] at h; cases h; exact .destroyNull o ok hpc
      | destroyFiles o => rw [hpc] at h; cases h; exact .destroyFiles o ok hpc
  | thread i f =>
      obtain ⟨θ, hat, hruns, rfl⟩ := threadStep_eq h
      exact .thread i f θ hat hruns

end Moves

/-! ## Watched -/

section Watched

/-- One thread once an `Open` has got so far, and it has exited exactly if a
test saw the flag. -/
structure Watched (tr : List (Process O × ProcessAct O)) (s : Process O) : Prop where
  count : s.threads.length = if s.checker || s.caller.startedThread then 1 else 0
  opened : isOpen tr = true → s.checker = true
  exited : (∃ θ ∈ s.threads, θ.pc = .exited) ↔ ∃ e ∈ tr, seesExit e = true

theorem watched_started : Watched [] (started : Process O) where
  count := rfl
  opened h := by cases h
  exited := by simp [started]

variable {tr : List (Process O × ProcessAct O)} {s s' : Process O} {a : ProcessAct O}

/-- A step that starts no thread, sets no `checker` and tests nothing. -/
theorem Watched.quiet (h : Watched tr s) (hsees : seesExit (s, a) = false)
    (hopen : isOpen ((s, a) :: tr) = true → isOpen tr = true)
    (hthreads : s'.threads = s.threads) (hchecker : s'.checker = s.checker)
    (hpc : s.caller.startedThread = false) (hpc' : s'.caller.startedThread = false) :
    Watched ((s, a) :: tr) s' where
  count := by rw [hthreads, hchecker, h.count, hpc, hpc']
  opened ho := by
    rw [hchecker]
    exact h.opened (hopen ho)
  exited := by
    rw [hthreads, h.exited, List.exists_mem_cons_iff, hsees]
    simp

theorem isOpen_caller {b : Bool} (hpc : s.caller.startedThread = false) :
    isOpen ((s, .caller b) :: tr) = isOpen tr := by
  cases hcaller : s.caller with
  | openChecker o ok =>
      rw [hcaller] at hpc
      cases hpc
  | _ => simp [isOpen, hcaller]

theorem Watched.caller (h : Watched tr s) {b : Bool} (hthreads : s'.threads = s.threads)
    (hchecker : s'.checker = s.checker) (hpc : s.caller.startedThread = false)
    (hpc' : s'.caller.startedThread = false) : Watched ((s, .caller b) :: tr) s' := by
  refine h.quiet rfl ?_ hthreads hchecker hpc hpc'
  rw [isOpen_caller hpc]
  exact id

theorem Watched.openStart (h : Watched tr s) {o : O} {ok b : Bool}
    (hpc : s.caller = .openStart o ok) :
    Watched ((s, .caller b) :: tr) { s with
      threads := if s.checker then s.threads else s.threads ++ [⟨o, .test⟩]
      caller := .openChecker o ok } where
  count := by
    have hcount := h.count
    rw [hpc] at hcount
    simp only [CallerPc.startedThread, Bool.or_true, if_true]
    cases hchecker : s.checker with
    | true =>
        rw [hchecker] at hcount
        exact hcount
    | false =>
        rw [hchecker] at hcount
        have hnone : s.threads.length = 0 := hcount
        simp only [Bool.false_eq_true, if_false, List.length_append, hnone]
        rfl
  opened ho := by
    rw [isOpen_caller (by rw [hpc]; rfl)] at ho
    exact h.opened ho
  exited := by
    rw [List.exists_mem_cons_iff, ← h.exited]
    -- A new thread is at its first test.
    cases s.checker with
    | true => simp [seesExit, actor]
    | false => simp [seesExit, actor, or_and_right, exists_or]

theorem Watched.openChecker (h : Watched tr s) {o : O} {ok b : Bool}
    (hpc : s.caller = .openChecker o ok) :
    Watched ((s, .caller b) :: tr) { s with checker := true, caller := .idle } where
  count := by
    rw [h.count, hpc]
    simp [CallerPc.startedThread]
  opened _ := rfl
  exited := by
    rw [List.exists_mem_cons_iff, ← h.exited]
    simp [seesExit, actor]

theorem Watched.thread (h : Watched tr s) {i : Nat} {f : Finds} {θ : RollbackThread O}
    (hat : s.threads[i]? = some θ) (hruns : θ.pc ≠ .exited) :
    Watched ((s, .thread i f) :: tr) (s.setPc i θ (θ.pc.next s.rollbackShouldExit f)) where
  count := by
    show (s.threads.set i _).length = _
    rw [List.length_set, h.count]
    rfl
  opened := h.opened
  exited := by
    have hsees : seesExit (s, .thread i f) = true ↔
        θ.pc.next s.rollbackShouldExit f = .exited := by
      rw [ThreadPc.next_eq_exited_iff hruns, seesExit, actor]
      simp only [hat, Option.any_some, Bool.and_eq_true]
    show (∃ θ' ∈ s.threads.set i _, θ'.pc = .exited) ↔ _
    rw [exists_mem_set hat hruns, h.exited, ← hsees, List.exists_mem_cons_iff]

variable [DecidableEq O]

theorem Watched.step (h : Watched tr s) (hstep : s.step a = some s') :
    Watched ((s, a) :: tr) s' := by
  cases Moves.of_step hstep with
  | refuse o n hidle hn =>
      exact h.quiet rfl id rfl rfl (by rw [hidle]; rfl) (by rw [hidle]; rfl)
  | callOpen o hidle => exact h.quiet rfl id rfl rfl (by rw [hidle]; rfl) rfl
  | callDestroy o hidle =>
      refine h.quiet rfl ?_ rfl rfl (by rw [hidle]; rfl) rfl
      intro ho
      cases ho
  | openInner o ok hpc => exact h.caller rfl rfl (by rw [hpc]; rfl) rfl
  | openExit o ok b hpc => exact h.caller rfl rfl (by rw [hpc]; rfl) rfl
  | openStart o ok b hpc => exact h.openStart hpc
  | openChecker o ok b hpc => exact h.openChecker hpc
  | destroyExit o b hpc =>
      refine h.caller rfl rfl (by rw [hpc]; rfl) ?_
      simp only []
      split
      · rfl
      · rfl
  | destroyName o b hpc hlive => exact h.caller rfl rfl (by rw [hpc]; rfl) rfl
  | destroyDelete o b hpc => exact h.caller rfl rfl (by rw [hpc]; rfl) rfl
  | destroyNull o b hpc => exact h.caller rfl rfl (by rw [hpc]; rfl) rfl
  | destroyFiles o b hpc => exact h.caller rfl rfl (by rw [hpc]; rfl) rfl
  | thread i f θ hat hruns => exact h.thread hat hruns

theorem watched_run {Q : Process O → ProcessAct O → Prop}
    (h : Run step Q started tr s) : Watched tr s := by
  induction h with
  | start => exact watched_started
  | next run _ htaken ih => exact ih.step htaken

/-- While the database is open, some rollback thread has not exited, exactly if
no test of `rollback_should_exit` has ever found it set. -/
theorem monitored_iff (h : Run step (fun _ _ => True) (started : Process O) tr s)
    (hopen : isOpen tr = true) : Monitored s ↔ ∀ e ∈ tr, seesExit e = false := by
  have hwatched := watched_run h
  have hcount := hwatched.count
  rw [hwatched.opened hopen, Bool.true_or, if_pos rfl] at hcount
  obtain ⟨θ, hθ⟩ := List.length_eq_one_iff.mp hcount
  have hexited := hwatched.exited
  rw [hθ] at hexited
  rw [Monitored, hθ]
  simp only [List.mem_singleton, exists_eq_left] at hexited ⊢
  rw [Ne, hexited]
  simp

/-- An `Open` that succeeds, on the one object. -/
def opens : List (ProcessAct Unit) :=
  .callOpen () 1 :: List.replicate 4 (.caller true)

/-- A step of the thread that finds nothing to migrate. -/
def idles (n : Nat) : List (ProcessAct Unit) :=
  List.replicate n (.thread 0 ⟨false, false, false, false⟩)

/-- Destroyed and opened again while the thread sleeps. -/
def sleptThrough : List (ProcessAct Unit) :=
  opens ++ idles 1 ++ .callDestroy () :: List.replicate 5 (.caller true) ++ opens

theorem monitored_sleptThrough :
    Monitored (replay step started sleptThrough) :=
  (monitored_iff (Run.replay sleptThrough .start fun _ _ => trivial) (by decide)).mpr
    (by decide)

/-- `DestroyDB_Master` has set the flag, and the thread wakes up and tests it
before the next `Open`. -/
def wokenBetween : List (ProcessAct Unit) :=
  opens ++ idles 2 ++ [.callDestroy (), .caller true] ++ idles 4 ++
    List.replicate 4 (.caller true) ++ opens

/-- The database is open and no thread is left. -/
theorem not_monitored_wokenBetween :
    Run step (fun _ _ => True) (started : Process Unit)
        (replayTrace step started wokenBetween []) (replay step started wokenBetween) ∧
      isOpen (replayTrace step (started : Process Unit) wokenBetween []) = true ∧
      ¬ Monitored (replay step (started : Process Unit) wokenBetween) :=
  ⟨Run.replay wokenBetween .start fun _ _ => trivial, by decide, by decide⟩

end Watched

/-! ## In order -/

section Orderly

def destroying : CallerPc O → Bool
  | .destroyName _ | .destroyDelete _ | .destroyNull _ | .destroyFiles _ => true
  | _ => false

/-- A thread is safe: it has exited, or its handle is live, or it is about to
test the flag, which is set. -/
def Safe (s : Process O) (θ : RollbackThread O) : Prop :=
  θ.pc = .exited ∨ s.slot θ.object = .live ∨
    θ.pc.tests = true ∧ s.rollbackShouldExit = true

/-- With the caller's own account: inside `DestroyDB_Master` the flag is set,
and past the `delete` the handle is gone. -/
structure InOrder (s : Process O) : Prop where
  closing : destroying s.caller = true → s.rollbackShouldExit = true
  gone : ∀ o, s.caller = .destroyNull o → s.slot o ≠ .live
  safe : ∀ θ ∈ s.threads, Safe s θ

theorem inOrder_started : InOrder (started : Process O) where
  closing h := by cases h
  gone o h := by cases h
  safe θ hθ := by cases hθ

variable {s s' : Process O} {a : ProcessAct O}

/-- A thread that calls into the handle finds it live. -/
theorem Safe.live {θ : RollbackThread O} (h : Safe s θ) (huses : θ.pc.uses = true) :
    s.slot θ.object = .live := by
  rcases h with hpc | hlive | ⟨htests, _⟩
  · rw [hpc] at huses
    cases huses
  · exact hlive
  · rw [ThreadPc.tests_of_uses huses] at htests
    cases htests

theorem InOrder.usesLive (h : InOrder s) : usesLive (s, a) = true := by
  rw [Spec.usesLive, Option.all_eq_true]
  intro θ hθ
  cases huses : θ.pc.uses with
  | false => rfl
  | true =>
      have hmem : θ ∈ s.threads := by
        cases a with
        | thread i f => exact List.mem_of_getElem? hθ
        | _ => cases hθ
      simp [(h.safe θ hmem).live huses]

theorem Safe.next {θ : RollbackThread O} (h : Safe s θ) (hruns : θ.pc ≠ .exited)
    (f : Finds) {i : Nat} :
    Safe (s.setPc i θ (θ.pc.next s.rollbackShouldExit f))
      { θ with pc := θ.pc.next s.rollbackShouldExit f } := by
  rcases h with hpc | hlive | htests
  · exact absurd hpc hruns
  · exact Or.inr (Or.inl hlive)
  · exact Or.inl ((ThreadPc.next_eq_exited_iff hruns _ f).mpr htests)

/-- The caller moves without touching handles or threads. -/
theorem InOrder.caller (h : InOrder s) (hthreads : s'.threads = s.threads)
    (hslot : s'.slot = s.slot) (hexit : s'.rollbackShouldExit = s.rollbackShouldExit)
    (hpc : destroying s'.caller = true → s.rollbackShouldExit = true)
    (hnull : ∀ o, s'.caller ≠ .destroyNull o) : InOrder s' where
  closing hd := by rw [hexit]; exact hpc hd
  gone o hpc := absurd hpc (hnull o)
  safe θ hθ := by
    rw [hthreads] at hθ
    rw [Safe, hslot, hexit]
    exact h.safe θ hθ

theorem InOrder.thread (h : InOrder s) {i : Nat} {f : Finds} {θ : RollbackThread O}
    (hat : s.threads[i]? = some θ) (hruns : θ.pc ≠ .exited) :
    InOrder (s.setPc i θ (θ.pc.next s.rollbackShouldExit f)) where
  closing := h.closing
  gone := h.gone
  safe θ' hθ' := by
    rcases List.mem_or_eq_of_mem_set hθ' with hθ' | rfl
    · exact h.safe θ' hθ'
    · exact (h.safe θ (List.mem_of_getElem? hat)).next hruns f

theorem InOrder.destroyExit (h : InOrder s) {pc : CallerPc O}
    (hnull : ∀ o, pc ≠ .destroyNull o) :
    InOrder { s with rollbackShouldExit := true, caller := pc } := by
  refine ⟨fun _ => rfl, fun o hpc => absurd hpc (hnull o), fun θ hθ => ?_⟩
  rcases h.safe θ hθ with hpc | hlive | ⟨htests, _⟩
  · exact Or.inl hpc
  · exact Or.inr (Or.inl hlive)
  · exact Or.inr (Or.inr ⟨htests, rfl⟩)

variable [DecidableEq O]

/-- A handle changes hands, and the threads of its object do not depend on
it. -/
theorem InOrder.setSlot (h : InOrder s) {o : O} {x : Slot} {pc : CallerPc O}
    (hpc : destroying pc = true → s.rollbackShouldExit = true)
    (hnull : ∀ o', pc = .destroyNull o' → o' = o ∧ x ≠ .live)
    (hfree : x = .live ∨ ∀ θ ∈ s.threads, θ.object = o → θ.pc = .exited ∨
      θ.pc.tests = true ∧ s.rollbackShouldExit = true) :
    InOrder { s with slot := Function.update s.slot o x, caller := pc } where
  closing := hpc
  gone o' hpc' := by
    obtain ⟨rfl, hx⟩ := hnull o' hpc'
    show Function.update s.slot o' x o' ≠ .live
    rw [Function.update_self]
    exact hx
  safe θ hθ := by
    by_cases ho : θ.object = o
    · rcases hfree with rfl | hfree
      · refine Or.inr (Or.inl ?_)
        show Function.update s.slot o .live θ.object = .live
        rw [ho, Function.update_self]
      · rcases hfree θ hθ ho with hpc | htests
        · exact Or.inl hpc
        · exact Or.inr (Or.inr htests)
    · rcases h.safe θ hθ with hpc | hlive | htests
      · exact Or.inl hpc
      · refine Or.inr (Or.inl ?_)
        show Function.update s.slot o x θ.object = .live
        rw [Function.update_of_ne ho, hlive]
      · exact Or.inr (Or.inr htests)

theorem InOrder.openInner (h : InOrder s) {o : O} {ok : Bool} (hpc : s.caller = .openInner o)
    (horderly : orderly s (.caller ok) = true) :
    InOrder { s with
      slot := Function.update s.slot o (if ok then .live else .empty)
      caller := .openExit o ok } := by
  refine h.setSlot (by simp [destroying]) (by simp) ?_
  simp only [orderly, hpc, Bool.or_eq_true, List.all_eq_true] at horderly
  rcases horderly with rfl | hall
  · exact Or.inl rfl
  · refine Or.inr fun θ hθ ho => Or.inl ?_
    simpa [ho] using hall θ hθ

/-- The flag is cleared over live handles only. -/
theorem inOrder_openExit {o : O} {ok b : Bool}
    (hpc : s.caller = .openExit o ok) (horderly : orderly s (.caller b) = true) :
    InOrder { s with rollbackShouldExit := false, caller := .openStart o ok } := by
  refine ⟨by simp [destroying], by simp, fun θ hθ => ?_⟩
  simp only [orderly, hpc, List.all_eq_true] at horderly
  have hlive := horderly θ hθ
  rw [Bool.or_eq_true, decide_eq_true_eq, decide_eq_true_eq] at hlive
  exact hlive.imp_right Or.inl

theorem InOrder.openStart (h : InOrder s) {o : O} {ok b : Bool}
    (hpc : s.caller = .openStart o ok) (horderly : orderly s (.caller b) = true) :
    InOrder { s with
      threads := if s.checker then s.threads else s.threads ++ [⟨o, .test⟩]
      caller := .openChecker o ok } := by
  refine ⟨by simp [destroying], by simp, fun θ hθ => ?_⟩
  simp only [orderly, hpc, Bool.or_eq_true, decide_eq_true_eq] at horderly
  simp only [] at hθ
  split at hθ
  · exact h.safe θ hθ
  · next hchecker =>
    rcases List.mem_append.mp hθ with hθ | hθ
    · exact h.safe θ hθ
    · rw [List.mem_singleton.mp hθ]
      exact Or.inr (Or.inl (horderly.resolve_left hchecker))

theorem InOrder.destroyDelete (h : InOrder s) {o : O} {b : Bool}
    (hpc : s.caller = .destroyDelete o) (horderly : orderly s (.caller b) = true) :
    InOrder { s with
      slot := Function.update s.slot o .deleted, caller := .destroyNull o } := by
  have hexit := h.closing (by rw [hpc]; rfl)
  refine h.setSlot (fun _ => hexit) ?_ (Or.inr fun θ hθ ho => ?_)
  · intro o' hpc'
    cases hpc'
    exact ⟨rfl, by decide⟩
  · simp only [orderly, hpc, List.all_eq_true] at horderly
    have hthread := horderly θ hθ
    simp only [ho, ne_eq, not_true_eq_false, decide_false, Bool.false_or, Bool.or_eq_true,
      decide_eq_true_eq] at hthread
    exact hthread.imp_right fun htests => ⟨htests, hexit⟩

/-- A deleted handle is nobody's, so it may as well be cleared. -/
theorem InOrder.destroyNull (h : InOrder s) {o : O} (hpc : s.caller = .destroyNull o) :
    InOrder { s with
      slot := Function.update s.slot o .empty, caller := .destroyFiles o } := by
  have hexit := h.closing (by rw [hpc]; rfl)
  refine h.setSlot (fun _ => hexit) (by simp) (Or.inr fun θ hθ ho => ?_)
  rcases h.safe θ hθ with hpc | hlive | htests
  · exact Or.inl hpc
  · rw [ho] at hlive
    exact absurd hlive (h.gone o hpc)
  · exact Or.inr htests

theorem InOrder.step (h : InOrder s) (horderly : orderly s a = true)
    (hstep : s.step a = some s') : InOrder s' := by
  cases Moves.of_step hstep with
  | refuse o n hidle hn => exact h
  | callOpen o hidle => exact h.caller rfl rfl rfl (by simp [destroying]) (by simp)
  | callDestroy o hidle => exact h.caller rfl rfl rfl (by simp [destroying]) (by simp)
  | openInner o ok hpc => exact h.openInner hpc horderly
  | openExit o ok b hpc => exact inOrder_openExit hpc horderly
  | openStart o ok b hpc => exact h.openStart hpc horderly
  | openChecker o ok b hpc => exact h.caller rfl rfl rfl (by simp [destroying]) (by simp)
  | destroyExit o b hpc =>
      refine h.destroyExit fun o' => ?_
      split
      · simp
      · simp
  | destroyName o b hpc hlive =>
      exact h.caller rfl rfl rfl (fun _ => h.closing (by rw [hpc]; rfl)) (by simp)
  | destroyDelete o b hpc => exact h.destroyDelete hpc horderly
  | destroyNull o b hpc => exact h.destroyNull hpc
  | destroyFiles o b hpc => exact h.caller rfl rfl rfl (by simp [destroying]) (by simp)
  | thread i f θ hat hruns => exact h.thread hat hruns

/-- In every run whose caller is orderly, every call of a rollback thread into
`dbptr_array[0]` finds a handle that a successful `DB::Open` stored and nobody
has deleted. -/
theorem uses_live_of_orderly {tr : List (Process O × ProcessAct O)}
    (h : Run step (fun s a => orderly s a = true) (started : Process O) tr s) :
    ∀ e ∈ tr, usesLive e = true := by
  intro e he
  obtain ⟨_, tr', hrun⟩ := h.of_mem he
  have horder : InOrder e.1 :=
    hrun.invariant inOrder_started fun _ _ _ hinv hQ hstep => hinv.step hQ hstep
  exact horder.usesLive

/-- Destroyed while the thread is about to test the flag for the second time. -/
def deletedAtTest : List (ProcessAct Unit) :=
  opens ++ idles 5 ++ .callDestroy () :: List.replicate 5 (.caller true) ++ idles 1

theorem uses_live_deletedAtTest :
    (∃ e ∈ replayTrace step (started : Process Unit) deletedAtTest [],
        (actor e).any (fun θ => θ.pc.uses) = true) ∧
      ∀ e ∈ replayTrace step (started : Process Unit) deletedAtTest [], usesLive e = true :=
  ⟨by decide, uses_live_of_orderly (Run.replay deletedAtTest .start (by decide))⟩

/-- The first `Open` fails inside, and starts the thread all the same. -/
def failedOpen : List (ProcessAct Unit) :=
  .callOpen () 1 :: List.replicate 4 (.caller false) ++ idles 3

/-- Destroyed while the thread sleeps. -/
def deletedAsleep : List (ProcessAct Unit) :=
  opens ++ idles 2 ++ .callDestroy () :: List.replicate 3 (.caller true) ++ idles 1

/-- The thread calls into a slot with no handle, or with a deleted one. -/
theorem uses_dead_handle :
    (Run step (fun _ _ => True) (started : Process Unit)
        (replayTrace step started failedOpen []) (replay step started failedOpen) ∧
      ∃ e ∈ replayTrace step (started : Process Unit) failedOpen [], usesLive e = false) ∧
    (Run step (fun _ _ => True) (started : Process Unit)
        (replayTrace step started deletedAsleep []) (replay step started deletedAsleep) ∧
      ∃ e ∈ replayTrace step (started : Process Unit) deletedAsleep [], usesLive e = false) :=
  ⟨⟨Run.replay failedOpen .start fun _ _ => trivial, by decide⟩,
    ⟨Run.replay deletedAsleep .start fun _ _ => trivial, by decide⟩⟩

end Orderly

end Process

end Kvaccel.Ref
