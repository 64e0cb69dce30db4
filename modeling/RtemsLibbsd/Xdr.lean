import Mathlib.Algebra.Group.Nat.Defs
import Mathlib.Data.List.Basic

/-!
# External data representation

Items of four bytes with the most significant byte first: words, truth values, opaque data of a known length that is
filled up to whole items, and counted strings.  A `get` function reads an item from the front of the bytes that are
left and answers the item with the rest, or nothing if the bytes do not start with one; a `put` function gives the
bytes of an item.

* `getLong_putLong`, `getOpaque_putOpaque`, `getString_putString`, `getBool_putBool` — what was put is read back,
  whatever follows.
* `getString_length` — a string that was read is not longer than the limit.
* `Encoder`, `encodeAll` — values that are written to a buffer of limited size, one after the other.
  `encodeAll_eq` says when all of them are, and what the buffer has then.
-/

namespace RtemsLibbsd.Xdr

open Option

open List

def putLong (n : Nat) : List UInt8 :=
  [UInt8.ofNat (n / 2 ^ 24), UInt8.ofNat (n / 2 ^ 16), UInt8.ofNat (n / 2 ^ 8), UInt8.ofNat n]

def getLong : List UInt8 → Option (Nat × List UInt8)
  | a :: b :: c :: d :: bs => some (((a.toNat * 256 + b.toNat) * 256 + c.toNat) * 256 + d.toNat, bs)
  | _ => none

def putBool (b : Bool) : List UInt8 := putLong b.toNat

def getBool (bs : List UInt8) : Option (Bool × List UInt8) := (getLong bs).map fun r => (r.1 != 0, r.2)

def getBytes (n : Nat) (bs : List UInt8) : Option (List UInt8 × List UInt8) :=
  if n ≤ bs.length then some (bs.take n, bs.drop n) else none

/-- The bytes that fill `n` bytes up to whole items. -/
def padding (n : Nat) : Nat := (4 - n % 4) % 4

def putOpaque (data : List UInt8) : List UInt8 := data ++ List.replicate (padding data.length) 0

def getOpaque (n : Nat) (bs : List UInt8) : Option (List UInt8 × List UInt8) := do
  let (data, bs) ← getBytes n bs
  let (_, bs) ← getBytes (padding n) bs
  return (data, bs)

def putString (s : List UInt8) : List UInt8 := putLong s.length ++ putOpaque s

def getString (maxsize : Nat) (bs : List UInt8) : Option (List UInt8 × List UInt8) := do
  let (size, bs) ← getLong bs
  if maxsize < size then none else getOpaque size bs

variable {n : Nat}

theorem getLong_putLong (h : n < 2 ^ 32) (bs : List UInt8) : getLong (putLong n ++ bs) = some (n, bs) := by
  show some ((((UInt8.ofNat (n / 2 ^ 24)).toNat * 256 + (UInt8.ofNat (n / 2 ^ 16)).toNat) * 256 +
    (UInt8.ofNat (n / 2 ^ 8)).toNat) * 256 + (UInt8.ofNat n).toNat, bs) = some (n, bs)
  simp only [UInt8.toNat_ofNat']
  congr 2
  omega

theorem getBool_putBool (b : Bool) (bs : List UInt8) : getBool (putBool b ++ bs) = some (b, bs) := by
  unfold getBool putBool
  cases b with
  | true =>
    rw [getLong_putLong (by decide)]
    rfl
  | false =>
    rw [getLong_putLong (by decide)]
    rfl

theorem getBytes_append (data bs : List UInt8) : getBytes data.length (data ++ bs) = some (data, bs) := by
  unfold getBytes
  simp

theorem getOpaque_putOpaque (data bs : List UInt8) :
    getOpaque data.length (putOpaque data ++ bs) = some (data, bs) := by
  unfold getOpaque putOpaque
  rw [append_assoc, getBytes_append]
  have hpad := getBytes_append (List.replicate (padding data.length) 0) bs
  grind

variable {maxsize : Nat}

theorem getString_putString {s : List UInt8} (h : s.length ≤ maxsize) (hmax : s.length < 2 ^ 32)
    (bs : List UInt8) : getString maxsize (putString s ++ bs) = some (s, bs) := by
  unfold getString putString
  rw [append_assoc, getLong_putLong hmax]
  simp only [bind_eq_bind, bind_some]
  rw [if_neg (by omega), getOpaque_putOpaque]

variable {bs data rest : List UInt8}

theorem getBytes_length (h : getBytes n bs = some (data, rest)) :
    data.length = n := by
  unfold getBytes at h
  split at h
  · rename_i hle
    cases h
    simp [Nat.min_eq_left hle]
  · cases h

theorem getOpaque_length (h : getOpaque n bs = some (data, rest)) :
    data.length = n := by
  obtain ⟨⟨d, mid⟩, hd, h⟩ := bind_eq_some_iff.mp h
  obtain ⟨⟨p, r⟩, -, h⟩ := bind_eq_some_iff.mp h
  cases h
  exact getBytes_length hd

/-! Reading makes the rest shorter. -/

theorem getLong_rest (h : getLong bs = some (n, rest)) :
    rest.length + 4 = bs.length := by
  match bs, h with
  | _ :: _ :: _ :: _ :: _, h =>
    cases h
    rfl

theorem getBool_rest {b : Bool} (h : getBool bs = some (b, rest)) :
    rest.length + 4 = bs.length := by
  obtain ⟨⟨n, r⟩, hlong, heq⟩ := map_eq_some_iff.mp h
  cases heq
  exact getLong_rest hlong

theorem getBytes_rest (h : getBytes n bs = some (data, rest)) :
    rest.length ≤ bs.length := by
  unfold getBytes at h
  split at h
  · cases h
    rw [length_drop]
    exact Nat.sub_le _ _
  · cases h

theorem getOpaque_rest (h : getOpaque n bs = some (data, rest)) :
    rest.length ≤ bs.length := by
  obtain ⟨⟨d, mid⟩, hd, h⟩ := bind_eq_some_iff.mp h
  obtain ⟨⟨p, r⟩, hp, h⟩ := bind_eq_some_iff.mp h
  cases h
  exact Nat.le_trans (getBytes_rest hp) (getBytes_rest hd)

theorem getString_eq_some {bs s rest : List UInt8} (h : getString maxsize bs = some (s, rest)) :
    ∃ mid, getLong bs = some (s.length, mid) ∧ s.length ≤ maxsize ∧ getOpaque s.length mid = some (s, rest) := by
  obtain ⟨⟨size, mid⟩, hlong, h⟩ := bind_eq_some_iff.mp h
  grind [getOpaque_length]

theorem getString_rest {bs s rest : List UInt8} (h : getString maxsize bs = some (s, rest)) :
    rest.length ≤ bs.length := by
  obtain ⟨mid, hlong, -, hdata⟩ := getString_eq_some h
  have h1 := getLong_rest hlong
  have h2 := getOpaque_rest hdata
  omega

/-- **A string is not longer than the limit.** -/
theorem getString_length {bs s rest : List UInt8} (h : getString maxsize bs = some (s, rest)) :
    s.length ≤ maxsize := by
  obtain ⟨-, -, hle, -⟩ := getString_eq_some h
  exact hle

/-! ## Encoders -/

/-- A value that is to be written: its encoding, and whether it has one. -/
structure Encoder where
  bytes : List UInt8
  ok : Bool

def Encoder.long (n : Nat) : Encoder := ⟨putLong n, true⟩

/-- The value is written behind `buf` to a buffer of `size` bytes. -/
def Encoder.run (e : Encoder) (size : Nat) (buf : List UInt8) : Option (List UInt8) :=
  if e.ok ∧ buf.length + e.bytes.length ≤ size then some (buf ++ e.bytes) else none

def encodeAll (size : Nat) (buf : List UInt8) : List Encoder → Option (List UInt8)
  | [] => some buf
  | e :: es => (e.run size buf).bind fun buf => encodeAll size buf es

/-- Every value has an encoding, and they fit behind `used` bytes into `size` bytes. -/
def Fits (size used : Nat) (es : List Encoder) : Prop :=
  (∀ e ∈ es, e.ok = true) ∧ used + (es.flatMap Encoder.bytes).length ≤ size

instance (size used : Nat) (es : List Encoder) : Decidable (Fits size used es) :=
  inferInstanceAs (Decidable (_ ∧ _))

section Encoders

variable {size : Nat} {buf out : List UInt8} {e : Encoder} {es : List Encoder}

theorem fits_cons {used : Nat} : Fits size used (e :: es) ↔ e.ok = true ∧ Fits size (used + e.bytes.length) es := by
  unfold Fits
  simp [← Nat.add_assoc, and_assoc]

/-- **The values are written exactly if all of them have encodings that fit**, one behind the other. -/
theorem encodeAll_eq (hbuf : buf.length ≤ size) :
    encodeAll size buf es =
      if Fits size buf.length es then some (buf ++ es.flatMap Encoder.bytes) else none := by
  induction es generalizing buf with
  | nil =>
    rw [if_pos ⟨fun e he => absurd he not_mem_nil, hbuf⟩, flatMap_nil, append_nil]
    rfl
  | cons e es ih =>
    unfold encodeAll Encoder.run
    by_cases h : e.ok = true ∧ buf.length + e.bytes.length ≤ size
    · rw [if_pos h, bind_some, ih (by rw [length_append]; exact h.2), length_append,
        flatMap_cons, append_assoc]
      exact if_congr (fits_cons.trans (and_iff_right h.1)).symm rfl rfl
    · rw [if_neg h, bind_none, if_neg]
      intro hfits
      obtain ⟨hok, -, hle⟩ := fits_cons.1 hfits
      exact h ⟨hok, Nat.le_trans (Nat.le_add_right _ _) hle⟩

end Encoders

end RtemsLibbsd.Xdr
