import Kvaccel.Ref.Iterator
import Kvaccel.Ref.Master

/-!
# One ordered view of the two stores

What an iteration over Main-LSM and Dev-LSM together has to deliver: every key
of either from the start key on, in order, with the value that
`DB_MASTER::Get` returns for it. The device side is any scan that hands out
Dev-LSM's records in key order.

The composite iterator changes sides at a key that both stores have, and
nowhere else. `TakesTurns` says when that happens to be right.
-/

namespace Kvaccel.Spec

open Kvaccel.Lib Kvaccel.Ref

/-- The table has the map's records, in key order, under four-byte keys. -/
structure Lists (map : Key → Option Value) (table : List (Key × Value)) : Prop where
  ascending : Ascending Before table
  records : ∀ k v, map k = some v ↔ (k, v) ∈ table
  four : ∀ r ∈ table, r.1.length = 4

structure Merged (murmur : Murmur) (m : Master) (k : Key)
    (reads : List (Key × Value)) : Prop where
  ascending : Ascending Before reads
  complete : ∀ u, u ∈ reads.map Prod.fst ↔
    ¬ Before u k ∧ ((m.main u).isSome ∨ (m.dev.lookup u).isSome)
  values : ∀ r ∈ reads, m.get murmur r.1 = (.ok, some r.2)

/-- A driver whose scans deliver `records` in key order. -/
structure SortedScan (D : ScanLsm) where
  records : D.St → List (Key × Value)
  /-- What the scan of the iterator has still to deliver. -/
  Pending : D.St → Nat → List (Key × Value) → Prop
  create : ∀ env id st, records (D.createIter env id st).2.2 = records st
  seek : ∀ env id key value st r rest, key.length = 4 →
    fromKey Before key (records st) = r :: rest →
    ∃ flag st', D.seekScan env id key value st = (flag, r.1, r.2, st') ∧
      Pending st' id rest
  next : ∀ env id key value st r rest, Pending st id (r :: rest) →
    ∃ flag st', D.nextScan env id key value st = (flag, r.1, r.2, st') ∧
      Pending st' id rest
  ended : ∀ env id key value st, Pending st id [] →
    ∃ flag st', D.nextScan env id key value st = (flag, key, value, st') ∧
      Pending st' id []
  note : ∀ id key value st rest, Pending st id rest →
    Pending (D.noteIter id key value st) id rest

/-- One that also says when there is nothing to deliver: the batch is empty, and
key and value stay as they were passed. -/
structure IdealScan (D : ScanLsm) extends SortedScan D where
  seekNone : ∀ env id key value st, key.length = 4 →
    fromKey Before key (records st) = [] →
    ∃ flag st', D.seekScan env id key value st = (flag, key, value, st')

/-- One that says for every key what a scan from there delivers, and is at its end
when that is nothing. -/
structure EndingScan (D : ScanLsm) extends SortedScan D where
  delivers : D.St → Key → List (Key × Value)
  delivers_four : ∀ st key, key.length = 4 → delivers st key = fromKey Before key (records st)
  delivers_create : ∀ env id st key, delivers (D.createIter env id st).2.2 key = delivers st key
  seekSome : ∀ env id key value st r rest, delivers st key = r :: rest →
    ∃ flag st', D.seekScan env id key value st = (flag, r.1, r.2, st') ∧
      Pending st' id rest
  seekEnd : ∀ env id key value st, delivers st key = [] →
    ∃ flag st', D.seekScan env id key value st = (flag, key, value, st') ∧
      Pending st' id []

/-! ## Taking turns -/

inductive Side where
  | main
  | dev
deriving DecidableEq

/-- Main-LSM's record, Dev-LSM's record, or both. -/
abbrev Rows := List (Row Key Value Value)

namespace Side

def other : Side → Side
  | .main => .dev
  | .dev => .main

/-- `iter_location` -/
def location : Side → Nat
  | .main => 0
  | .dev => 1

def value : Side → Row Key Value Value → Option Value
  | .main, r => r.left?.map Prod.snd
  | .dev, r => r.right?.map Prod.snd

/-- Whose turn it is after the row: a shared key ends a turn. -/
def after (side : Side) : Row Key Value Value → Side
  | .both _ _ _ => side.other
  | _ => side

/-- The store of the first key, Main-LSM if both have it. -/
def first : Rows → Side
  | .right _ _ :: _ => .dev
  | _ => .main

end Side

/-- From the bottom up, the store whose turn it is has each key with the value
`get` returns, and the last key is a shared one. -/
def TakesTurns (get : Key → Option Value) : Side → Rows → Prop
  | _, [] => True
  | side, r :: rows =>
      ((side.value r).isSome ∧ get r.key = side.value r) ∧
        (rows = [] → r.left?.isSome ∧ r.right?.isSome) ∧
        TakesTurns get (side.after r) rows

instance decidableTakesTurns (get : Key → Option Value) :
    ∀ (side : Side) (rows : Rows), Decidable (TakesTurns get side rows)
  | _, [] => .isTrue trivial
  | side, r :: rows =>
      have := decidableTakesTurns get (side.after r) rows
      have : Decidable (rows = []) := decidable_of_iff (rows.isEmpty = true) (by simp)
      inferInstanceAs (Decidable (_ ∧ _ ∧ _))

/-- The two stores from `k` on, side by side. -/
def rowsFrom (k : Key) (main dev : List (Key × Value)) : Rows :=
  join Before (fromKey Before k main) (fromKey Before k dev)

/-! ## Staying on records -/

/-- The device's keys as the iterator notes them, one after the other. Of a scan
that delivers nothing it notes the key it has asked for. -/
def notedKeys (k : Key) : List (Key × Value) → List Key
  | [] => [k]
  | ds => ds.map Prod.fst

/-- In `n` rounds the cursor in Main-LSM's keys `es` is on one of them whenever it is
looked at, with the device's keys `ds` noted in their order. A round that shows
Main-LSM moves the cursor and compares the key there with the noted one; a round
that shows Dev-LSM notes the next key and compares that. The side changes when the
other one is behind, and a change moves its cursor too. -/
def Lasts : Nat → Side → List Key → List Key → Prop
  | 0, _, _, _ => True
  | n + 1, .main, _ :: e :: es, ds =>
      if Before (ds.headD []) e then Lasts n .dev (e :: es) ds.tail
      else Lasts n .main (e :: es) ds
  | n + 1, .dev, e :: es, ds =>
      if Before e (ds.tail.headD []) then Lasts n .main es ds.tail
      else Lasts n .dev (e :: es) ds.tail
  | _ + 1, _, _, _ => False

instance decidableLasts : ∀ (n : Nat) (side : Side) (es ds : List Key),
    Decidable (Lasts n side es ds)
  | 0, _, _, _ => .isTrue trivial
  | n + 1, .main, _ :: e :: es, ds =>
      have := decidableLasts n .dev (e :: es) ds.tail
      have := decidableLasts n .main (e :: es) ds
      inferInstanceAs (Decidable (if Before (ds.headD []) e then Lasts n .dev (e :: es) ds.tail
        else Lasts n .main (e :: es) ds))
  | n + 1, .dev, e :: es, ds =>
      have := decidableLasts n .main es ds.tail
      have := decidableLasts n .dev (e :: es) ds.tail
      inferInstanceAs (Decidable (if Before e (ds.tail.headD []) then Lasts n .main es ds.tail
        else Lasts n .dev (e :: es) ds.tail))
  | _ + 1, .main, [], _ => .isFalse id
  | _ + 1, .main, [_], _ => .isFalse id
  | _ + 1, .dev, [], _ => .isFalse id

/-- The same from a seek on, which looks at the cursor once and starts on the side
of the smaller key. -/
def LastsFromSeek (n : Nat) : List Key → List Key → Prop
  | [], _ => False
  | e :: es, ds => Lasts n (if Before (ds.headD []) e then .dev else .main) (e :: es) ds

instance decidableLastsFromSeek (n : Nat) : ∀ es ds : List Key, Decidable (LastsFromSeek n es ds)
  | [], _ => .isFalse id
  | e :: es, ds => decidableLasts n _ (e :: es) ds

/-! ## A sorted scan -/

structure SortedSt where
  records : List (Key × Value)
  cursor : Nat → List (Key × Value)
  iterKeys : Nat → Key
  iterValues : Nat → Value

def sortedLsm : ScanLsm where
  St := SortedSt
  Env := Unit
  createIter := fun _ id st => (0, id, st)
  seekScan := fun _ id key value st =>
    match fromKey Before key st.records with
    | [] => (-2, key, value, { st with cursor := Function.update st.cursor id [] })
    | r :: rest => (1, r.1, r.2, { st with cursor := Function.update st.cursor id rest })
  nextScan := fun _ id key value st =>
    match st.cursor id with
    | [] => (-3, key, value, st)
    | r :: rest => (1, r.1, r.2, { st with cursor := Function.update st.cursor id rest })
  destroyIter := fun _ _ st => (0, st)
  iterKeys := SortedSt.iterKeys
  iterValues := SortedSt.iterValues
  noteIter := fun id key value st => { st with
    iterKeys := Function.update st.iterKeys id key
    iterValues := Function.update st.iterValues id value }
  iterKeys_noteIter := fun _ _ _ _ => Function.update_self ..
  iterValues_noteIter := fun _ _ _ _ => Function.update_self ..

theorem sortedLsm_seekScan {id : Nat} {key : Key} {value : Value} {st : SortedSt}
    {r : Key × Value} {rest : List (Key × Value)}
    (hfrom : fromKey Before key st.records = r :: rest) :
    sortedLsm.seekScan () id key value st =
      (1, r.1, r.2, { st with cursor := Function.update st.cursor id rest }) := by
  simp only [sortedLsm]
  rw [hfrom]

def sortedScan : SortedScan sortedLsm where
  records := SortedSt.records
  Pending := fun st id rest => st.cursor id = rest
  create := fun _ _ _ => rfl
  seek := by
    intro _ id key value st r rest _ hfrom
    exact ⟨1, _, sortedLsm_seekScan hfrom, Function.update_self ..⟩
  next := by
    intro _ id key value st r rest hcur
    refine ⟨1, { st with cursor := Function.update st.cursor id rest }, ?_,
      Function.update_self ..⟩
    simp only [sortedLsm]
    rw [hcur]
  ended := by
    intro _ id key value st hcur
    refine ⟨-3, st, ?_, hcur⟩
    simp only [sortedLsm]
    rw [hcur]
  note := fun _ _ _ _ _ h => h

def idealScan : IdealScan sortedLsm where
  toSortedScan := sortedScan
  seekNone := by
    intro _ id key value st _ hfrom
    refine ⟨-2, { st with cursor := Function.update st.cursor id [] }, ?_⟩
    have hrecords : fromKey Before key st.records = [] := hfrom
    simp only [sortedLsm]
    rw [hrecords]

def endingScan : EndingScan sortedLsm where
  toSortedScan := sortedScan
  delivers := fun st key => fromKey Before key st.records
  delivers_four := fun _ _ _ => rfl
  delivers_create := fun _ _ _ _ => rfl
  seekSome := by
    intro _ id key value st r rest hfrom
    exact ⟨1, _, sortedLsm_seekScan hfrom, Function.update_self ..⟩
  seekEnd := by
    intro _ id key value st hfrom
    refine ⟨-2, { st with cursor := Function.update st.cursor id [] }, ?_,
      Function.update_self ..⟩
    simp only [sortedLsm]
    rw [hfrom]

/-! ## What may be shown at all -/

/-- The records drawn from the store. -/
def drawnFrom (side : Side) (drawn : List (Side × Key × Value)) : List (Key × Value) :=
  (drawn.filter fun r => r.1 = side).map Prod.snd

/-- The reads are records of the two tables, those of each in its order and none
twice, and then only the empty record that a scan leaves behind at its end. -/
def Drawn (main dev reads : List (Key × Value)) : Prop :=
  ∃ (drawn : List (Side × Key × Value)) (n : Nat),
    reads = drawn.map Prod.snd ++ List.replicate n ([], []) ∧
    (drawnFrom .main drawn).Sublist main ∧ (drawnFrom .dev drawn).Sublist dev

end Kvaccel.Spec
