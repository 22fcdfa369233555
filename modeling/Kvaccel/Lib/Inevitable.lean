import Mathlib.Data.List.Range
import Kvaccel.Lib.Run

/-!
# What a party left to itself comes to

A step may depend on something outside, and the action says what that was. So
even where only one party moves there are many runs, one for each way in which
the outside turns out. `Inevitable` is about all of them: no action that `Q`
allows is refused, and a state with `P` is reached. It is proved backwards, a
step at a time, from the states with `P`; no bound on the number of steps has
to be found.
-/

namespace Kvaccel.Lib

variable {S A : Type} {step : S → A → Option S} {Q : A → Prop} {P : S → Prop} {s : S}

inductive Inevitable (step : S → A → Option S) (Q : A → Prop) (P : S → Prop) : S → Prop where
  | here {s : S} (holds : P s) : Inevitable step Q P s
  | later {s : S} (goes : ∀ a, Q a → (step s a).isSome)
      (next : ∀ a s', Q a → step s a = some s' → Inevitable step Q P s') :
      Inevitable step Q P s

/-- Along any sequence of allowed actions. -/
theorem Inevitable.reached (h : Inevitable step Q P s) (acts : ℕ → A) (hacts : ∀ i, Q (acts i)) :
    ∃ n, P (replay step s ((List.range n).map acts)) := by
  induction h generalizing acts with
  | here holds => exact ⟨0, holds⟩
  | @later s goes next ih =>
      obtain ⟨s', hstep⟩ := Option.isSome_iff_exists.mp (goes (acts 0) (hacts 0))
      obtain ⟨n, hn⟩ := ih (acts 0) s' (hacts 0) hstep (fun i => acts (i + 1))
        fun i => hacts (i + 1)
      refine ⟨n + 1, ?_⟩
      rw [List.range_succ_eq_map, List.map_cons, List.map_map, replay, hstep]
      exact hn

end Kvaccel.Lib
