import BlockOS.Lib.Words

/-! Byte-addressed memory with 64-bit addresses. -/

namespace BlockOS.Bytes
open Words
open BitVec (ofNat)

abbrev Mem := Word → Byte

def byteOf (v : Word) (k : Nat) : Byte := ofNat 8 (v.toNat / 256 ^ k)

def store8 (m : Mem) (a : Word) (b : Byte) : Mem := fun x => if x = a then b else m x

def store64 (m : Mem) (a v : Word) : Mem := fun x =>
  if (x - a).toNat < 8 then byteOf v (x - a).toNat else m x

def load64 (m : Mem) (a : Word) : Word :=
  ofNat 64 ((m a).toNat + (m (a + 1)).toNat * 256 + (m (a + 2)).toNat * 256 ^ 2 +
    (m (a + 3)).toNat * 256 ^ 3 + (m (a + 4)).toNat * 256 ^ 4 + (m (a + 5)).toNat * 256 ^ 5 +
    (m (a + 6)).toNat * 256 ^ 6 + (m (a + 7)).toNat * 256 ^ 7)

@[simp] theorem store8_same (m : Mem) (a : Word) (b : Byte) : store8 m a b a = b := by
  simp [store8]

theorem store8_other (m : Mem) (b : Byte) (h : x ≠ a) : store8 m a b x = m x := by
  simp [store8, h]

theorem store64_at (m : Mem) (a v : Word) (k : Nat) (hk : k < 8) :
    store64 m a v (a + ofNat 64 k) = byteOf v k := by
  have h : (a + ofNat 64 k - a).toNat = k := by
    have := toNat_lt a
    rw [BitVec.toNat_sub, BitVec.toNat_add, toNat_ofNat_of_lt (by omega)]
    omega
  simp only [store64, h, hk, ↓reduceIte]

theorem store64_other (m : Mem) (v : Word) (h : 8 ≤ (x - a).toNat) : store64 m a v x = m x := by
  simp only [store64]
  rw [if_neg (by omega)]

theorem load64_store64 (m : Mem) (a v : Word) : load64 (store64 m a v) a = v := by
  have h0 : store64 m a v a = byteOf v 0 := by simpa using store64_at m a v 0 (by decide)
  have h1 := store64_at m a v 1 (by decide)
  have h2 := store64_at m a v 2 (by decide)
  have h3 := store64_at m a v 3 (by decide)
  have h4 := store64_at m a v 4 (by decide)
  have h5 := store64_at m a v 5 (by decide)
  have h6 := store64_at m a v 6 (by decide)
  have h7 := store64_at m a v 7 (by decide)
  apply eq_of_toNat
  have := toNat_lt v
  simp only [load64, h0]
  rw [show (1 : Word) = ofNat 64 1 from rfl, show (2 : Word) = ofNat 64 2 from rfl,
    show (3 : Word) = ofNat 64 3 from rfl, show (4 : Word) = ofNat 64 4 from rfl,
    show (5 : Word) = ofNat 64 5 from rfl, show (6 : Word) = ofNat 64 6 from rfl,
    show (7 : Word) = ofNat 64 7 from rfl, h1, h2, h3, h4, h5, h6, h7]
  simp only [byteOf, BitVec.toNat_ofNat]
  omega

theorem load64_congr (h : ∀ k < 8, m' (a + ofNat 64 k) = m (a + ofNat 64 k)) :
    load64 m' a = load64 m a := by
  have h0 : m' a = m a := by simpa using h 0 (by decide)
  have h1 := h 1 (by decide)
  have h2 := h 2 (by decide)
  have h3 := h 3 (by decide)
  have h4 := h 4 (by decide)
  have h5 := h 5 (by decide)
  have h6 := h 6 (by decide)
  have h7 := h 7 (by decide)
  simp only [load64, h0]
  rw [show (1 : Word) = ofNat 64 1 from rfl, show (2 : Word) = ofNat 64 2 from rfl,
    show (3 : Word) = ofNat 64 3 from rfl, show (4 : Word) = ofNat 64 4 from rfl,
    show (5 : Word) = ofNat 64 5 from rfl, show (6 : Word) = ofNat 64 6 from rfl,
    show (7 : Word) = ofNat 64 7 from rfl, h1, h2, h3, h4, h5, h6, h7]

def memset (m : Mem) (p : Word) (v : Byte) (n : Nat) : Mem := fun a =>
  if (a - p).toNat < n then v else m a

def memcpy (m : Mem) (d s : Word) (n : Nat) : Mem := fun a =>
  if (a - d).toNat < n then m (s + (a - d)) else m a

theorem memset_inside (m : Mem) (v : Byte) (h : (a - p).toNat < n) : memset m p v n a = v :=
    if_pos h

theorem memset_outside (m : Mem) (v : Byte) (h : n ≤ (a - p).toNat) : memset m p v n a = m a :=
    if_neg (by omega)

theorem memcpy_outside (m : Mem) (h : n ≤ (a - d).toNat) : memcpy m d s n a = m a :=
    if_neg (by omega)

end BlockOS.Bytes
