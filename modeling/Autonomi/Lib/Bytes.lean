/-
Byte strings and the fixed-width fields they are built from.

The payment types are hashed and signed through hand-written byte layouts: each
field is appended at a width known in advance, and integers go little-endian.
Two layouts that agree as a whole therefore agree field by field, from the front,
as long as the fields before have equal lengths; `List.append_inj` is that fact,
and what it needs from this file is how long each field is.
-/
import Mathlib.Data.BitVec

namespace Lib

/-- A byte string: `Vec<u8>` or a slice of it. -/
abbrev Bytes := List UInt8

/-- `[u8; 32]`: a hash, an address or a salt. -/
abbrev Bytes32 := Vector UInt8 32

instance : LawfulBEq Bytes := List.instLawfulBEq

instance : LawfulBEq Bytes32 := Vector.instLawfulBEq

/-- The `width` low bytes of `n`, least significant first. -/
def toLeBytes : Nat → Nat → Bytes
  | 0, _ => []
  | width + 1, n => UInt8.ofNat n :: toLeBytes width (n / 256)

/-- The `width` low bytes of `n`, most significant first. -/
def toBeBytes (width n : Nat) : Bytes := (toLeBytes width n).reverse

/-- The number a byte string denotes, most significant byte first. -/
def ofBeBytes (bytes : Bytes) : Nat := bytes.foldl (fun acc b => 256 * acc + b.toNat) 0

@[simp] theorem length_toLeBytes : ∀ (width n : Nat), (toLeBytes width n).length = width := by
  intro width
  induction width with
  | zero => intro n; rfl
  | succ width ih => intro n; simp [toLeBytes, ih]

def hexDigit (n : Nat) : Char := "0123456789abcdef".toList.getD n '0'

def hexEncode (bytes : Bytes) : String :=
  String.ofList (bytes.flatMap fun b => [hexDigit (b.toNat / 16), hexDigit (b.toNat % 16)])

/-- The value of a hexadecimal digit of either case. -/
def hexValue (c : Char) : Option Nat :=
  let lower := "0123456789abcdef".toList.idxOf c
  let upper := "0123456789ABCDEF".toList.idxOf c
  if lower < 16 then some lower else if upper < 16 then some upper else none

def hexBytes : List Char → Option Bytes
  | [] => some []
  | [_] => none
  | high :: low :: rest => do
    let high ← hexValue high
    let low ← hexValue low
    let bytes ← hexBytes rest
    return UInt8.ofNat (16 * high + low) :: bytes

/-- `hex::decode`, which takes digits of either case. -/
def hexDecode (text : String) : Option Bytes := hexBytes text.toList

theorem hexValue_hexDigit : ∀ n < 16, hexValue (hexDigit n) = some n := by decide

theorem hexBytes_digits (bytes : Bytes) :
    hexBytes (bytes.flatMap fun b => [hexDigit (b.toNat / 16), hexDigit (b.toNat % 16)])
      = some bytes := by
  induction bytes with
  | nil => rfl
  | cons b bytes ih =>
    have hbyte : b.toNat < 256 := b.toNat_lt
    have hhigh := hexValue_hexDigit (b.toNat / 16) (by omega)
    have hlow := hexValue_hexDigit (b.toNat % 16) (Nat.mod_lt _ (by decide))
    simp only [List.flatMap_cons, List.cons_append, List.nil_append, hexBytes, hhigh, hlow, ih,
      Nat.div_add_mod, Option.bind_eq_bind, Option.bind_some, Option.pure_def,
      UInt8.ofNat_toNat]

/-- What is encoded is decoded again. -/
theorem hexDecode_hexEncode (bytes : Bytes) : hexDecode (hexEncode bytes) = some bytes := by
  rw [hexDecode, hexEncode, String.toList_ofList, hexBytes_digits]

/-- An optional field: a one byte marker, and the value behind it if there is one. -/
def optionBytes {α : Type} (encode : α → Bytes) : Option α → Bytes
  | some a => 1 :: encode a
  | none => [0]

def blocks {width : Nat} (bs : List (Vector UInt8 width)) : Bytes :=
  (bs.map Vector.toList).flatten

@[simp] theorem length_blocks {width : Nat} (bs : List (Vector UInt8 width)) :
    (blocks bs).length = bs.length * width := by
  induction bs with
  | nil => simp [blocks]
  | cons b bs ih =>
    have hcons : blocks (b :: bs) = b.toList ++ blocks bs := by simp [blocks]
    rw [hcons, List.length_append, ih, Vector.length_toList, List.length_cons,
      Nat.succ_mul, Nat.add_comm]

/-- Two fixed-width fields at the front of equal strings are equal, and so are the rests. -/
theorem append_inj_vector {width : Nat} {a b : Vector UInt8 width} {s t : Bytes}
    (h : a.toList ++ s = b.toList ++ t) : a = b ∧ s = t := by
  obtain ⟨hab, hst⟩ := List.append_inj h (by simp)
  exact ⟨Vector.toList_inj.mp hab, hst⟩

end Lib
