import Mathlib.Data.List.Basic
import Mathlib.Logic.Relation

/-!
# Runs with their history

A run of a partial step function, with the steps taken so far, newest first,
each with the state it was taken in. `Q` restricts the steps. What a program
proof wants of a run is an induction rule for invariants, and, for a thread
that is inside an operation, the instants since that operation began: the
current state and the states before it back to the last one in which the
thread was idle.
-/

namespace Kvaccel.Lib

variable {S A : Type} {step : S → A → Option S} {Q : S → A → Prop} {s₀ : S}

inductive Run (step : S → A → Option S) (Q : S → A → Prop) (s₀ : S) :
    List (S × A) → S → Prop where
  | start : Run step Q s₀ [] s₀
  | next {tr : List (S × A)} {s s' : S} {a : A} (run : Run step Q s₀ tr s)
      (allowed : Q s a) (taken : step s a = some s') :
      Run step Q s₀ ((s, a) :: tr) s'

/-- What holds at the start and is kept by every step holds after every run. -/
theorem Run.invariant {I : S → Prop} {tr : List (S × A)} {s : S}
    (h : Run step Q s₀ tr s) (hstart : I s₀)
    (hstep : ∀ s a s', I s → Q s a → step s a = some s' → I s') : I s := by
  induction h with
  | start => exact hstart
  | next _ hQ htaken ih => exact hstep _ _ _ ih hQ htaken

/-- Every step of a run was allowed, in a state that the run went through. -/
theorem Run.of_mem {tr : List (S × A)} {s : S} (h : Run step Q s₀ tr s) {e : S × A}
    (he : e ∈ tr) : Q e.1 e.2 ∧ ∃ tr', Run step Q s₀ tr' e.1 := by
  induction h with
  | start => cases he
  | next run hQ htaken ih =>
      rcases List.mem_cons.mp he with rfl | he
      · exact ⟨hQ, _, run⟩
      · exact ih he

/-- Some allowed steps lead from one state to the other. -/
def Leads (step : S → A → Option S) (Q : S → A → Prop) : S → S → Prop :=
  Relation.ReflTransGen fun s s' => ∃ a, Q s a ∧ step s a = some s'

theorem Leads.single {s s' : S} {a : A} (allowed : Q s a) (taken : step s a = some s') :
    Leads step Q s s' :=
  Relation.ReflTransGen.single ⟨a, allowed, taken⟩

/-- The state a list of actions leads to, as far as they go. -/
def replay (step : S → A → Option S) : S → List A → S
  | s, [] => s
  | s, a :: as =>
      match step s a with
      | none => s
      | some s' => replay step s' as

/-- The history of a replay, newest step first, on top of `tr`. -/
def replayTrace (step : S → A → Option S) : S → List A → List (S × A) → List (S × A)
  | _, [], tr => tr
  | s, a :: as, tr =>
      match step s a with
      | none => tr
      | some s' => replayTrace step s' as ((s, a) :: tr)

theorem mem_replayTrace {as : List A} {tr : List (S × A)} {s : S} {e : S × A}
    (he : e ∈ tr) : e ∈ replayTrace step s as tr := by
  induction as generalizing tr s with
  | nil => exact he
  | cons a as ih =>
      rw [replayTrace]
      split
      · exact he
      · exact ih (List.mem_cons_of_mem _ he)

theorem of_mem_replayTrace {as : List A} {tr : List (S × A)} {s : S} {e : S × A}
    (he : e ∈ replayTrace step s as tr) : e ∈ tr ∨ e.2 ∈ as := by
  induction as generalizing tr s with
  | nil => exact Or.inl he
  | cons a as ih =>
      rw [replayTrace] at he
      split at he
      · exact Or.inl he
      · rcases ih he with he | he
        · rcases List.mem_cons.mp he with rfl | he
          · exact Or.inr List.mem_cons_self
          · exact Or.inl he
        · exact Or.inr (List.mem_cons_of_mem _ he)

/-- Actions that something does not look at leave it as it was. -/
theorem filterMap_replayTrace {B : Type} {f : S × A → Option B} {as : List A}
    (hf : ∀ a ∈ as, ∀ s, f (s, a) = none) (tr : List (S × A)) (s : S) :
    (replayTrace step s as tr).filterMap f = tr.filterMap f := by
  induction as generalizing tr s with
  | nil => rfl
  | cons a as ih =>
      rw [replayTrace]
      split
      · rfl
      · rw [ih (fun a ha => hf a (List.mem_cons_of_mem _ ha)),
          List.filterMap_cons_none (hf a List.mem_cons_self s)]

theorem Run.replay (as : List A) {tr : List (S × A)} {s : S}
    (h : Run step Q s₀ tr s) (hQ : ∀ e ∈ replayTrace step s as tr, Q e.1 e.2) :
    Run step Q s₀ (replayTrace step s as tr) (replay step s as) := by
  induction as generalizing tr s with
  | nil => exact h
  | cons a as ih =>
      rw [replayTrace] at hQ ⊢
      rw [Lib.replay]
      split at hQ
      · exact h
      · rename_i s' htaken
        exact ih (h.next (hQ (s, a) (mem_replayTrace List.mem_cons_self)) htaken) hQ

/-- A replay of actions that are allowed in every state. -/
theorem Run.replay_allowed {as : List A} (hQ : ∀ a ∈ as, ∀ s, Q s a) {tr : List (S × A)} {s : S}
    (h : Run step Q s₀ tr s) :
    Run step Q s₀ (replayTrace step s as tr) (Lib.replay step s as) := by
  refine h.replay as fun e he => ?_
  rcases of_mem_replayTrace he with he | he
  · exact (h.of_mem he).1
  · exact hQ e.2 he e.1

section Interval

variable (idle : S → Bool)

/-- The steps taken since the operation began. -/
def stepsSince (tr : List (S × A)) : List (S × A) := tr.takeWhile fun e => !idle e.1

/-- The instants since the operation began, the current state first. -/
def instantsSince (tr : List (S × A)) (s : S) : List S :=
  s :: (stepsSince idle tr).map Prod.fst

variable {idle}

theorem stepsSince_cons {tr : List (S × A)} {s : S} {a : A} (h : idle s = false) :
    stepsSince idle ((s, a) :: tr) = (s, a) :: stepsSince idle tr := by
  simp [stepsSince, h]

theorem instantsSince_cons {tr : List (S × A)} {s s' : S} {a : A}
    (h : idle s = false) :
    instantsSince idle ((s, a) :: tr) s' = s' :: instantsSince idle tr s := by
  rw [instantsSince, stepsSince_cons h]
  rfl

theorem instantsSince_of_idle {tr : List (S × A)} {s s' : S} {a : A}
    (h : idle s = true) : instantsSince idle ((s, a) :: tr) s' = [s'] := by
  simp [instantsSince, stepsSince, h]

theorem mem_instantsSince (tr : List (S × A)) (s : S) : s ∈ instantsSince idle tr s :=
  List.mem_cons_self

end Interval

end Kvaccel.Lib
