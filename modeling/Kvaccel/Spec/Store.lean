import Kvaccel.Ref.Master

/-!
# One map

What the routing layer is for: two stores that answer like one. The abstract
store is a single map that every put updates and every get reads; the level,
the rollbacks and where a value physically is do not occur in it.
-/

namespace Kvaccel.Spec

open Kvaccel.Ref

/-- A put replaces the key's value; no other step changes the map. -/
def writeOf (m : Key → Option Value) : Master.Op → Key → Option Value
  | .put k v => Function.update m k (some v)
  | _ => m

/-- The value of the most recent put of each key among `ops`. -/
def contents (ops : List Master.Op) : Key → Option Value :=
  ops.foldl writeOf fun _ => none

/-- How a get reports what a store holds: the status, and the string it
assigns when there is one. -/
def report : Option Value → Status × Option Value
  | some v => (.ok, some v)
  | none => (.notFound, none)

def answer (found : Option Value) : Master.Out :=
  .get (report found).1 (report found).2

/-- The run returns, and each get in it answers with the key's most recent
put, or with NotFound when there was none. -/
def ReadsLastPut (murmur : Murmur) (ops : List Master.Op) : Prop :=
  ∃ outs s, Master.opened.run murmur ops = some (outs, s) ∧
    ∀ i k, ops[i]? = some (.get k) →
      outs[i]? = some (answer (contents (ops.take i) k))

end Kvaccel.Spec
