import Mathlib.Data.List.Basic
import Mathlib.Data.Nat.Bitwise

namespace Library.ByteRegion
variable {α : Type}

-- Numbers of a fixed width, least significant byte first.
def encode : Nat → Nat → List UInt8
  | 0,_ => []
  | width + 1,n => UInt8.ofNat n :: encode width (n / 256)

def decode : List UInt8 → Nat
  | [] => 0
  | b :: rest => b.toNat + 256 * decode rest

@[simp] theorem length_encode (width n : Nat) : (encode width n).length = width := by
  induction width generalizing n with
  | zero => rfl
  | succ width ih => rw [encode,List.length_cons,ih]

theorem decode_encode (width n : Nat) (small : n < 256^width) : decode (encode width n) = n := by
  induction width generalizing n with
  | zero =>
    rw [encode,decode]
    exact (Nat.lt_one_iff.mp small).symm
  | succ width ih =>
    have less : n / 256 < 256^width := Nat.div_lt_of_lt_mul (by rwa [Nat.mul_comm,← Nat.pow_succ])
    rw [encode,decode,ih _ less,UInt8.toNat_ofNat']
    exact Nat.mod_add_div n 256

def slice (data : List α) (start n : Nat) : List α := (data.drop start).take n

-- Writing over what stands at a place.
def patch (data : List α) (start : Nat) (bytes : List α) : List α := data.take start ++ (bytes ++ data.drop (start + bytes.length))

theorem length_patch (data bytes : List α) (start : Nat) (inside : start + bytes.length ≤ data.length) :
    (patch data start bytes).length = data.length := by
  simp only [patch,List.length_append,List.length_take,List.length_drop]
  omega

@[simp] theorem slice_append (first middle rest : List α) : slice (first ++ (middle ++ rest)) first.length middle.length = middle := by
  simp [slice]

theorem patch_append (first bytes rest : List α) :
    patch (first ++ rest) first.length bytes = first ++ (bytes ++ rest.drop bytes.length) := by
  simp [patch]

theorem length_slice (data : List α) {start n : Nat} (inside : start + n ≤ data.length) : (slice data start n).length = n := by
  rw [slice,List.length_take,List.length_drop]
  omega

end Library.ByteRegion
