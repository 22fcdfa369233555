import Kvaccel.Ref.Session

/-!
# What a session may deliver

A session owes its callers their own puts. `OwnRecords` says that a run of it
hands out nothing else: no get answers with, and no pass writes to Main-LSM, a
record that was not put in the session before.
-/

namespace Kvaccel.Spec

open Kvaccel.Ref

/-- The records that a step hands out. -/
def delivered : Master.Op → Master.Out → List (Key × Value)
  | .get k, .get _ (some v) => [(k, v)]
  | .rollback _ _, .rollback w => w
  | _, _ => []

def putsOf : Master.Op → List (Key × Value)
  | .put k v => [(k, v)]
  | _ => []

theorem putsOf_get (k : Key) : putsOf (.get k) = [] := rfl

theorem putsOf_monitor (m : Level × Int) : putsOf (.monitor m) = [] := rfl

theorem putsOf_rollback (order : List (Key × Value)) (measure : Nat → Level × Int) :
    putsOf (.rollback order measure) = [] := rfl

/-- Every step returns, and hands out nothing but records put before it:
`puts`, and those of the steps between. -/
def OwnRecords (murmur : Murmur) :
    List (Key × Value) → Session → List Master.Op → Prop
  | _, _, [] => True
  | puts, s, op :: ops =>
      ∃ o s', s.step murmur op = some (o, s') ∧
        (∀ r ∈ delivered op o, r ∈ puts) ∧
        OwnRecords murmur (puts ++ putsOf op) s' ops

end Kvaccel.Spec
