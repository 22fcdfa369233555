import Mathlib.Data.Multiset.ZeroCons

/-!
# Bags of keyed entries

A container that stores a key as often as it was inserted, seen from outside:
the multiset of its entries. Which of several entries a removal takes is left
open, so an operation is a relation, with the value it returns.

`simulate` is the rule for an implementation: one step at a time, from an
invariant and a function to the bag it stands for.
-/

namespace Kvaccel.Lib.Bag

inductive Op (K V : Type) where
  | insert (key : K) (value : V)
  | delete (key : K)
  | clear
  | pop
deriving DecidableEq

variable {K V M : Type}

inductive Step : Multiset (K × V) → Op K V → Option V → Multiset (K × V) → Prop where
  | insert {k v b} : Step b (.insert k v) none ((k, v) ::ₘ b)
  | delete {k v b} : Step ((k, v) ::ₘ b) (.delete k) none b
  | miss {k b} (h : ∀ e ∈ b, e.1 ≠ k) : Step b (.delete k) none b
  | clear {b} : Step b .clear none 0
  | pop {k v b} : Step ((k, v) ::ₘ b) .pop (some v) b

inductive Steps : Multiset (K × V) → List (Op K V) → List (Option V) →
    Multiset (K × V) → Prop where
  | nil {b} : Steps b [] [] b
  | cons {b b' b'' op out ops outs} (step : Step b op out b') (steps : Steps b' ops outs b'') :
      Steps b (op :: ops) (out :: outs) b''

section Implementation

variable (call : M → Op K V → Option (Option V × M)) (bag : M → Multiset (K × V))

/-- Calls one after another, with what they return. -/
def run : M → List (Op K V) → Option (List (Option V) × M)
  | m, [] => some ([], m)
  | m, op :: ops =>
      (call m op).bind fun r => (run r.2 ops).map fun rest => (r.1 :: rest.1, rest.2)

/-- Every `pop` of the run comes when there is something to pop. -/
def PopsFind : M → List (Op K V) → Prop
  | _, [] => True
  | m, op :: ops => (op = .pop → bag m ≠ 0) ∧ ∀ r, call m op = some r → PopsFind r.2 ops

variable {call bag}

theorem simulate {I : M → Prop}
    (hcall : ∀ m op, I m → (op = .pop → bag m ≠ 0) →
      ∃ out m', call m op = some (out, m') ∧ I m' ∧ Step (bag m) op out (bag m'))
    (ops : List (Op K V)) {m : M} (hm : I m) (hpops : PopsFind call bag m ops) :
    ∃ outs m', run call m ops = some (outs, m') ∧ I m' ∧ Steps (bag m) ops outs (bag m') := by
  induction ops generalizing m with
  | nil => exact ⟨[], m, rfl, hm, .nil⟩
  | cons op ops ih =>
      obtain ⟨out, m₁, hout, hm₁, hstep⟩ := hcall m op hm hpops.1
      obtain ⟨outs, m₂, houts, hm₂, hsteps⟩ := ih hm₁ (hpops.2 _ hout)
      refine ⟨out :: outs, m₂, ?_, hm₂, .cons hstep hsteps⟩
      rw [run, hout, Option.bind_some, houts]
      rfl

end Implementation

end Kvaccel.Lib.Bag
