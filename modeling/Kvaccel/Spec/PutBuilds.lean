import Kvaccel.Spec.KeyWalk

/-!
# The two builds of `Put`

`BUFFERING_MODE` is an optimisation. Without it `_Put` sends one `KV_PUT` with
the value, and `_CreateIter` has nothing to flush; with it the values wait in
the host for 127 others. `plainCall` is a call of the build without, over a map
device that knows the command, and the same device may serve the other build:
`BuildsAgree` says that a caller cannot tell by the gets which one it has.
-/

namespace Kvaccel.Spec

open Kvaccel.Lib Kvaccel.Ref

/-- The map device with `KV_PUT`: the first `cdw13` bytes of the data are the
value. -/
def MapDevice.execPut : Device MapDevice := fun cmd d =>
  match cmd.opcode with
  | .kvPut =>
      ({ err := 0, result := 0, data := cmd.data }, { d with
        map := Function.update d.map (le32 cmd.cdw10) (some (cmd.data.read 0 cmd.cdw13)) })
  | _ => MapDevice.exec cmd d

section Calls

variable {σ : Type} (exec : Device σ)

/-- The one allocation of the plain `_Put` is `valueLog`. -/
def plainCall (db : DB σ) : Call → Reply × DB σ
  | .put key value out =>
      let r := db.plainPut exec key value out.valueLog out.result
      (.put r.1, r.2.finishOp 0)
  | .get key value out =>
      let r := db.get exec key value out
      (.get r.1 r.2.1, r.2.2)
  | .createIter iterId out =>
      let r := db.createIterCmd exec iterId out
      (.createIter r.1 r.2.1, r.2.2)

def plainCalls : DB σ → List Call → List Reply
  | _, [] => []
  | db, c :: cs =>
      let r := plainCall exec db c
      r.1 :: plainCalls r.2 cs

/-- The driver after these calls. -/
def plainCalled (db : DB σ) (cs : List Call) : DB σ :=
  cs.foldl (fun db c => (plainCall exec db c).2) db

/-- What the plain build can carry: the value may have any bytes, but the reply
to a get has to hold it. -/
def PlainSound : Call → Prop
  | .put key value out =>
      key.length = 4 ∧ value.length ≤ maxBufLen ∧ out.valueLog.isSome
  | .get key _ out => key.length = 4 ∧ out.data = true
  | .createIter _ _ => True

/-- Every get of the plain build returns the last put of its key, and -2 if
there was none. -/
def PlainReadsLast (db : DB σ) (cs : List Call) : Prop :=
  ∀ (i : Nat) key value out, cs[i]? = some (.get key value out) →
    (plainCalls exec db cs)[i]? =
      some (reported value (lastPut ((cs.take i).filterMap putOf) key))

/-- Every get returns the same from both. -/
def BuildsAgree (db : DB σ) (cs : List Call) : Prop :=
  ∀ (i : Nat) key value out, cs[i]? = some (.get key value out) →
    (calls exec db cs)[i]? = (plainCalls exec db cs)[i]?

end Calls

end Kvaccel.Spec
