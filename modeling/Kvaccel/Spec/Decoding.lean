import Kvaccel.Spec.Reply

/-!
# What a reply says

The two sides of decoding a bulk reply. `Replies` is a command that succeeded
with `encodeReply b` in the `MAX_BUFLEN` bytes the host gave it, and `Appends`
what the two `DoBulky` functions owe their caller for it. The other side is a
reply of any content: `announced` are the lengths its header names, and
`AnnouncesInside` says that the values of those lengths lie in the buffer.
-/

namespace Kvaccel.Spec

open Kvaccel.Lib Kvaccel.Ref

structure Replies (io : IoResult) (b : List Record) : Prop where
  ok : io.err = 0
  data : ∀ i < maxBufLen, io.data i = encodeReply b i

/-- A call from `db` that returned `r` added the records `b` to the lists of
`iterId` and reported `next`. -/
structure Appends {σ : Type} (db : DB σ) (iterId : Nat) (b : List Record) (next : Nat)
    (r : Int × Nat × DB σ) : Prop where
  code : r.1 = asInt next
  next : r.2.1 = next
  keys : r.2.2.keys iterId = db.keys iterId ++ b.map Prod.fst
  values : r.2.2.values iterId = db.values iterId ++ b.map Prod.snd
  others : ∀ j ≠ iterId, r.2.2.keys j = db.keys j ∧ r.2.2.values j = db.values j

/-- The lengths before the first zero word. -/
def announced (data : Mem) : List Nat := (headerLoop data maxCmdNum 0).1.map Prod.fst

/-- If the header is terminated, the values it announces end in the buffer, as
far as the decoder comes with them. -/
def AnnouncesInside (data : Mem) : Prop :=
  data.word (8 * (announced data).length) = 0 →
    valueStart (announced data).length +
      blockSize * (((announced data).takeWhile (· < 2147483648)).map valueBlocks).sum ≤ maxBufLen

end Kvaccel.Spec
