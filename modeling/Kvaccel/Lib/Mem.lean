import Mathlib.Data.List.Basic
import Mathlib.Tactic.Linarith

/-!
# Byte memory

A buffer is a total function from offsets to bytes, and an access is a
range: `Mem.read` lists the bytes of a range, `Mem.write` overlays a list of
bytes at an offset. What a program proof needs of the pair is framing — a
read sees the last write that covers it and no write beside it — and the
little-endian words that C programs copy in and out of such buffers.
-/

namespace Kvaccel.Lib

abbrev Bytes := List UInt8

abbrev Mem := Nat → UInt8

/-- The `n` bytes from offset `off` on. -/
def Mem.read (m : Mem) (off n : Nat) : Bytes :=
  (List.range n).map fun i => m (off + i)

/-- The memory with `bs` laid over the range that starts at `off`. -/
def Mem.write (m : Mem) (off : Nat) (bs : Bytes) : Mem := fun i =>
  if off ≤ i then (bs[i - off]?).getD (m i) else m i

/-- The first `n` bytes of a buffer, and zeros from there on. -/
def Mem.upTo (m : Mem) (n : Nat) : Mem := fun i => if i < n then m i else 0

@[simp] theorem Mem.length_read (m : Mem) (off n : Nat) :
    (m.read off n).length = n := by simp [Mem.read]

@[simp] theorem Mem.read_zero (m : Mem) (off : Nat) : m.read off 0 = [] := rfl

theorem Mem.getElem_read (m : Mem) {off n i : Nat}
    (hi : i < (m.read off n).length) : (m.read off n)[i] = m (off + i) := by
  simp [Mem.read]

theorem Mem.read_congr {m m' : Mem} {off n : Nat}
    (h : ∀ i, off ≤ i → i < off + n → m i = m' i) :
    m.read off n = m'.read off n := by
  unfold Mem.read
  refine List.map_congr_left fun i hi => ?_
  have hlt : i < n := List.mem_range.mp hi
  exact h _ (by omega) (by omega)

theorem Mem.write_of_lt {m : Mem} {off i : Nat} {bs : Bytes} (h : i < off) :
    m.write off bs i = m i := by
  rw [Mem.write, if_neg (by omega)]

theorem Mem.write_of_ge {m : Mem} {off i : Nat} {bs : Bytes}
    (h : off + bs.length ≤ i) : m.write off bs i = m i := by
  rw [Mem.write, if_pos (by omega), List.getElem?_eq_none (by omega)]
  rfl

theorem Mem.write_of_mem {m : Mem} {off i : Nat} {bs : Bytes}
    (h : i < bs.length) : m.write off bs (off + i) = bs[i] := by
  rw [Mem.write, if_pos (by omega), show off + i - off = i by omega,
    List.getElem?_eq_getElem h]
  rfl

theorem Mem.read_write_self (m : Mem) (off : Nat) (bs : Bytes) :
    (m.write off bs).read off bs.length = bs := by
  refine List.ext_getElem (by simp) fun i h₁ h₂ => ?_
  rw [Mem.getElem_read, Mem.write_of_mem h₂]

theorem Mem.read_write_disjoint {m : Mem} {off n off' : Nat} {bs : Bytes}
    (h : off + n ≤ off' ∨ off' + bs.length ≤ off) :
    (m.write off' bs).read off n = m.read off n := by
  refine Mem.read_congr fun i hlo hhi => ?_
  rcases h with h | h
  · exact Mem.write_of_lt (by omega)
  · exact Mem.write_of_ge (by omega)

theorem Mem.read_upTo {m : Mem} {off len n : Nat} (h : off + len ≤ n) :
    (m.upTo n).read off len = m.read off len :=
  Mem.read_congr fun i _ hi => if_pos (by omega)

theorem Mem.read_append (m : Mem) (off a b : Nat) :
    m.read off a ++ m.read (off + a) b = m.read off (a + b) := by
  unfold Mem.read
  rw [List.range_add, List.map_append, List.map_map]
  congr 1
  refine List.map_congr_left fun i _ => ?_
  simp [Nat.add_assoc]

theorem Mem.read_eq_append {m : Mem} {off : Nat} {a b : Bytes}
    (h : m.read off (a.length + b.length) = a ++ b) :
    m.read off a.length = a ∧ m.read (off + a.length) b.length = b := by
  rw [← Mem.read_append] at h
  exact List.append_inj h (by simp)

/-! ## Little-endian words -/

/-- The four bytes of a 32-bit word, least significant first. -/
def le32 (n : Nat) : Bytes :=
  [UInt8.ofNat n, UInt8.ofNat (n / 256), UInt8.ofNat (n / 65536),
    UInt8.ofNat (n / 16777216)]

/-- The word that four bytes spell; a shorter or longer list spells none. -/
def word : Bytes → Nat
  | [a, b, c, d] =>
      a.toNat + 256 * b.toNat + 65536 * c.toNat + 16777216 * d.toNat
  | _ => 0

@[simp] theorem length_le32 (n : Nat) : (le32 n).length = 4 := rfl

theorem word_le32 (n : Nat) : word (le32 n) = n % 4294967296 := by
  simp only [le32, word, UInt8.toNat_ofNat']
  omega

theorem word_lt (bs : Bytes) : word bs < 4294967296 := by
  unfold word
  split
  · next a b c d =>
      have ha := a.toNat_lt
      have hb := b.toNat_lt
      have hc := c.toNat_lt
      have hd := d.toNat_lt
      omega
  · decide

theorem le32_word {bs : Bytes} (h : bs.length = 4) : le32 (word bs) = bs := by
  match bs, h with
  | [a, b, c, d], _ =>
      have ha := a.toNat_lt
      have hb := b.toNat_lt
      have hc := c.toNat_lt
      have hd := d.toNat_lt
      have e₁ : UInt8.ofNat (word [a, b, c, d]) = a := by
        rw [← UInt8.toNat_inj, UInt8.toNat_ofNat', word]; omega
      have e₂ : UInt8.ofNat (word [a, b, c, d] / 256) = b := by
        rw [← UInt8.toNat_inj, UInt8.toNat_ofNat', word]; omega
      have e₃ : UInt8.ofNat (word [a, b, c, d] / 65536) = c := by
        rw [← UInt8.toNat_inj, UInt8.toNat_ofNat', word]; omega
      have e₄ : UInt8.ofNat (word [a, b, c, d] / 16777216) = d := by
        rw [← UInt8.toNat_inj, UInt8.toNat_ofNat', word]; omega
      rw [le32, e₁, e₂, e₃, e₄]

def Mem.word (m : Mem) (off : Nat) : Nat := Lib.word (m.read off 4)

end Kvaccel.Lib
