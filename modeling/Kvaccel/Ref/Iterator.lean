import Kvaccel.Lib.Join
import Kvaccel.Ref.Scan

/-!
# The composite iterator of `DB_MASTER`

One RocksDB iterator over Main-LSM and one device iterator, of which
`iter_location` says which is shown. The device side is one record ahead:
`iter_keys` and `iter_values` hold what the last scan call delivered.

`key()` and `value()` of a RocksDB iterator that is not valid are undefined,
so whatever reads one is partial here. Nothing in the source checks.
-/

namespace Kvaccel.Ref

open Kvaccel.Lib

/-! ## Keys in order -/

/-- `Slice::compare`: byte by byte, then by length. -/
def sliceCompare : Bytes → Bytes → Int
  | [], [] => 0
  | [], _ :: _ => -1
  | _ :: _, [] => 1
  | a :: as, b :: bs =>
      if a < b then -1 else if b < a then 1 else sliceCompare as bs

def Before (a b : Bytes) : Prop := sliceCompare a b < 0

instance : DecidableRel Before := fun _ _ => inferInstanceAs (Decidable (_ < _))

theorem before_cons {a b : UInt8} {as bs : Bytes} :
    Before (a :: as) (b :: bs) ↔ a < b ∨ a = b ∧ Before as bs := by
  rw [Before, sliceCompare]
  rcases eq_or_ne a b with rfl | hne
  · simp [UInt8.lt_irrefl, Before]
  · rcases UInt8.lt_or_lt_of_ne hne with h | h
    · simp [h]
    · simp [h, UInt8.lt_asymm h, hne]

theorem before_nil (b : UInt8) (bs : Bytes) : Before [] (b :: bs) := by
  rw [Before, sliceCompare]
  decide

theorem not_before_nil (a : Bytes) : ¬ Before a [] := by
  cases a <;> exact nofun

theorem sliceCompare_swap (a b : Bytes) : sliceCompare b a = -sliceCompare a b := by
  induction a generalizing b with
  | nil => cases b <;> rfl
  | cons x a ih =>
      cases b with
      | nil => rfl
      | cons y b =>
          rw [sliceCompare, sliceCompare, ih]
          rcases eq_or_ne x y with rfl | hne
          · simp [UInt8.lt_irrefl]
          · rcases UInt8.lt_or_lt_of_ne hne with h | h
            · simp [h, UInt8.lt_asymm h]
            · simp [h, UInt8.lt_asymm h]

theorem lt_sliceCompare {a b : Bytes} : sliceCompare a b > 0 ↔ Before b a := by
  rw [Before, sliceCompare_swap a b]
  omega

instance : IsStrictTotalOrder Bytes Before where
  irrefl a := by
    have := sliceCompare_swap a a
    rw [Before]
    omega
  trans a b c := by
    induction a generalizing b c with
    | nil =>
        intro hab hbc
        cases c with
        | nil => exact absurd hbc (not_before_nil b)
        | cons z c => exact before_nil z c
    | cons x a ih =>
        intro hab hbc
        cases b with
        | nil => exact absurd hab (not_before_nil _)
        | cons y b =>
            cases c with
            | nil => exact absurd hbc (not_before_nil _)
            | cons z c =>
                rw [before_cons] at hab hbc ⊢
                rcases hab with hab | ⟨rfl, hab⟩
                · rcases hbc with hbc | ⟨rfl, hbc⟩
                  · exact Or.inl (UInt8.lt_trans hab hbc)
                  · exact Or.inl hab
                · exact hbc.imp_right fun hbc => ⟨hbc.1, ih b c hab hbc.2⟩
  trichotomous a := by
    induction a with
    | nil =>
        rintro (_ | ⟨y, b⟩) hab hba
        · rfl
        · exact absurd (before_nil y b) hab
    | cons x a ih =>
        rintro (_ | ⟨y, b⟩) hab hba
        · exact absurd (before_nil x a) hba
        · rw [before_cons] at hab hba
          rcases eq_or_ne x y with rfl | hne
          · rw [ih b (fun h => hab (Or.inr ⟨rfl, h⟩)) fun h => hba (Or.inr ⟨rfl, h⟩)]
          · rcases UInt8.lt_or_lt_of_ne hne with h | h
            · exact absurd (Or.inl h) hab
            · exact absurd (Or.inl h) hba

theorem sliceCompare_eq_zero_iff {a b : Bytes} : sliceCompare a b = 0 ↔ a = b := by
  constructor
  · intro h
    refine Std.Trichotomous.trichotomous (r := Before) a b ?_ ?_
    · rw [Before]
      omega
    · rw [← lt_sliceCompare]
      omega
  · rintro rfl
    have := sliceCompare_swap a a
    omega

/-! ## The two sides -/

/-- A RocksDB iterator over a table in key order: what is ahead of it, the
current record first. It is valid as long as there is one. -/
structure MainIter where
  table : List (Key × Value)
  rest : List (Key × Value)

namespace MainIter

/-- `NewIterator`: not positioned yet. -/
def new (table : List (Key × Value)) : MainIter := { table, rest := [] }

def valid (it : MainIter) : Bool := !it.rest.isEmpty

def key (it : MainIter) : Option Key := it.rest.head?.map Prod.fst

def value (it : MainIter) : Option Value := it.rest.head?.map Prod.snd

def seek (it : MainIter) (key : Key) : MainIter :=
  { it with rest := fromKey Before key it.table }

def next (it : MainIter) : MainIter := { it with rest := it.rest.tail }

/-- Before the first record the iterator is not valid. -/
def prev (it : MainIter) : MainIter :=
  if it.rest.length < it.table.length then
    { it with rest := it.table.drop (it.table.length - it.rest.length - 1) }
  else
    { it with rest := [] }

end MainIter

/-- `ilsm_db_` as the iterator calls it. -/
structure ScanLsm where
  St : Type
  Env : Type
  createIter : Env → Nat → St → Int × Nat × St
  seekScan : Env → Nat → Key → Value → St → Int × Key × Value × St
  nextScan : Env → Nat → Key → Value → St → Int × Key × Value × St
  destroyIter : Env → Nat → St → Int × St
  iterKeys : St → Nat → Key
  iterValues : St → Nat → Value
  /-- `iter_values[iter_id] = value; iter_keys[iter_id] = key` -/
  noteIter : Nat → Key → Value → St → St
  iterKeys_noteIter : ∀ id key value st, iterKeys (noteIter id key value st) id = key
  iterValues_noteIter : ∀ id key value st,
    iterValues (noteIter id key value st) id = value

/-- The driver over the device `exec`. -/
def ilsmScan {σ : Type} (exec : Device σ) : ScanLsm where
  St := DB σ
  Env := Outside
  createIter := fun out iterId db => db.createIter exec iterId out
  seekScan := fun out iterId key value db => db.seekScan exec iterId key value out
  nextScan := fun out iterId key value db => db.nextScan exec iterId key value out
  destroyIter := fun out iterId db => db.destroyIter exec iterId out
  iterKeys := DB.iterKeys
  iterValues := DB.iterValues
  noteIter := fun iterId key value db => db.noteIter iterId key value
  iterKeys_noteIter := fun _ _ _ _ => Function.update_self ..
  iterValues_noteIter := fun _ _ _ _ => Function.update_self ..

/-! ## The calls -/

/-- What the `Iterator…` functions work on. -/
structure MasterIter (D : ScanLsm) where
  kacheFlag : Int
  /-- `iter_to_use_master[0]` -/
  iter : MainIter
  ilsm : D.St
  ilsmIterId : Nat
  iterLocation : Nat

namespace MasterIter

variable {D : ScanLsm} (env : D.Env)

/-- `IteratorReset` with the table that the new iterator walks. -/
def iteratorReset (s : MasterIter D) (table : List (Key × Value)) : MasterIter D :=
  let s := { s with iter := .new table }
  if s.kacheFlag = 1 then
    let r := D.createIter env s.ilsmIterId s.ilsm
    { s with ilsm := r.2.2, ilsmIterId := r.2.1 }
  else
    s

def iteratorSeek (s : MasterIter D) (key : Key) : Option (MasterIter D) :=
  let s := { s with iter := s.iter.seek key }
  if s.kacheFlag = 1 then
    let r := D.seekScan env s.ilsmIterId key [] s.ilsm
    let targetKey := r.2.1
    let ilsm := D.noteIter s.ilsmIterId targetKey r.2.2.1 r.2.2.2
    s.iter.key.map fun mainKey => { s with
      ilsm
      iterLocation := if sliceCompare mainKey targetKey ≤ 0 then 0 else 1 }
  else
    some s

def iteratorValid (s : MasterIter D) : Bool := s.iter.valid

def iteratorCompare (s : MasterIter D) (key : Key) : Bool :=
  if s.iter.key.any fun mainKey => sliceCompare mainKey key = 0 then
    true
  else if s.kacheFlag = 1 then
    sliceCompare key (D.iterKeys s.ilsm s.ilsmIterId) = 0
  else
    false

/-- `NextScan` into fresh strings, noted as the device's current record. -/
def advanceDev (s : MasterIter D) : MasterIter D :=
  let r := D.nextScan env s.ilsmIterId [] [] s.ilsm
  { s with ilsm := D.noteIter s.ilsmIterId r.2.1 r.2.2.1 r.2.2.2 }

def iteratorNext (s : MasterIter D) : Option (MasterIter D) :=
  if s.kacheFlag = 0 then
    some (if s.iter.valid then { s with iter := s.iter.next } else s)
  else if s.iterLocation = 0 ∧ s.iter.valid then
    let s := { s with iter := s.iter.next }
    s.iter.key.map fun mainKey =>
      if sliceCompare mainKey (D.iterKeys s.ilsm s.ilsmIterId) > 0 then
        { s.advanceDev env with iterLocation := 1 }
      else
        s
  else if s.iterLocation = 1 then
    let s := s.advanceDev env
    s.iter.key.map fun mainKey =>
      if sliceCompare mainKey (D.iterKeys s.ilsm s.ilsmIterId) < 0 then
        { s with iter := s.iter.next, iterLocation := 0 }
      else
        s
  else
    some s

def iteratorPrev (s : MasterIter D) : MasterIter D :=
  if s.iter.valid then { s with iter := s.iter.prev } else s

def destroyIter (s : MasterIter D) : MasterIter D :=
  { s with ilsm := (D.destroyIter env s.ilsmIterId s.ilsm).2 }

def iteratorValue (s : MasterIter D) : Option Value :=
  if s.iterLocation = 0 then s.iter.value
  else some (D.iterValues s.ilsm s.ilsmIterId)

def iteratorKey (s : MasterIter D) : Option Key :=
  if s.iterLocation = 0 then s.iter.key
  else some (D.iterKeys s.ilsm s.ilsmIterId)

/-- `IteratorKey` and `IteratorValue`. -/
def read (s : MasterIter D) : Option (Key × Value) :=
  s.iteratorKey.bind fun key => s.iteratorValue.map fun value => (key, value)

/-- Read, and `n` times `IteratorNext` and read again. -/
def walk (envs : Nat → D.Env) : Nat → MasterIter D → Option (List (Key × Value))
  | 0, s => s.read.map fun r => [r]
  | n + 1, s =>
      s.read.bind fun r => (s.iteratorNext (envs n)).bind fun s =>
        (walk envs n s).map fun rs => r :: rs

/-- `IteratorReset`, `IteratorSeek`, and `n + 1` reads. -/
def scanFrom (s : MasterIter D) (table : List (Key × Value)) (key : Key)
    (envs : Nat → D.Env) (n : Nat) : Option (List (Key × Value)) :=
  ((s.iteratorReset (envs (n + 1)) table).iteratorSeek (envs n) key).bind fun s =>
    s.walk envs n

/-- The loop of db_bench's `SeekRandom`: `IteratorValue`, `IteratorKey`,
`IteratorNext`. -/
def rounds (envs : Nat → D.Env) : Nat → MasterIter D → Option (List (Key × Value))
  | 0, _ => some []
  | n + 1, s =>
      s.read.bind fun r => (s.iteratorNext (envs n)).bind fun s =>
        (rounds envs n s).map fun rs => r :: rs

/-- One seek of `SeekRandom` with `seek_nexts` rounds: whether it counts as
found, and what it read. -/
def seekRandom (s : MasterIter D) (table : List (Key × Value)) (key : Key)
    (envs : Nat → D.Env) (seekNexts : Nat) : Option (Bool × List (Key × Value)) :=
  ((s.iteratorReset (envs (seekNexts + 1)) table).iteratorSeek (envs seekNexts) key).bind
    fun s => (s.rounds envs seekNexts).map fun rs => (s.iteratorCompare key, rs)

end MasterIter

end Kvaccel.Ref
