import XenAet.Vchan

namespace XenAet.VchanCopies
open XenAet.Vchan
open Library
open Library.RingBuffer

variable {r : Ring} {o : Output} {i : Input} {n : Nat} {got : List UInt8}

-- The free-running indexes count the stream modulo 2^32, which every ring size
-- divides.
structure Sound (r : Ring) : Prop where
  prod : r.prod = BitVec.ofNat 32 r.put.length
  cons : r.cons = BitVec.ofNat 32 r.taken.length
  came : r.taken <+: r.put
  window : r.put.length ≤ r.taken.length + r.size
  held : Held r.size r.buffer r.put r.taken.length

theorem size_pos (r : Ring) : 0 < r.size := Nat.two_pow_pos _

theorem size_le (r : Ring) : r.size ≤ 2^20 := Nat.pow_le_pow_right (by decide) r.order.property.2

theorem size_dvd (r : Ring) : r.size ∣ 2^32 :=
  Nat.pow_dvd_pow 2 (Nat.le_trans r.order.property.2 (by decide))

theorem Sound.came_le (sound : Sound r) : r.taken.length ≤ r.put.length := sound.came.length_le

theorem Sound.distance (sound : Sound r) : (r.prod - r.cons).toNat = r.put.length - r.taken.length := by
  have le := sound.came_le
  have window := sound.window
  have size := size_le r
  rw [sound.prod,sound.cons,BitVec.toNat_sub,BitVec.toNat_ofNat,BitVec.toNat_ofNat]
  omega

theorem Sound.ready (sound : Sound r) : rawGetDataReady r = r.put.length - r.taken.length := by
  have window := sound.window
  rw [rawGetDataReady]
  rw [sound.distance,if_neg (by omega)]

theorem Sound.space (sound : Sound r) : rawGetBufferSpace r = r.size - (r.put.length - r.taken.length) := by
  have window := sound.window
  have size := size_le r
  have left : (BitVec.ofNat 32 r.size - (r.prod - r.cons)).toNat = r.size - (r.put.length - r.taken.length) := by
    rw [BitVec.toNat_sub,sound.distance,BitVec.toNat_ofNat]
    omega
  rw [rawGetBufferSpace]
  rw [left,if_neg (by omega)]

theorem realIdx_ofNat (r : Ring) (k : Nat) : realIdx r (BitVec.ofNat 32 k) = k % r.size := by
  have size := size_le r
  have pos := size_pos r
  have mask : (BitVec.ofNat 32 r.size - 1).toNat = r.size - 1 := by
    rw [BitVec.toNat_sub,BitVec.toNat_ofNat]
    change (2^32 - 1 + r.size % 2^32) % 2^32 = _
    omega
  rw [realIdx,BitVec.toNat_and,mask,BitVec.toNat_ofNat,Ring.size,Nat.and_two_pow_sub_one_eq_mod]
  exact Nat.mod_mod_of_dvd k (size_dvd r)

theorem Sound.contig_prod (sound : Sound r) (n : Nat) : availContig r r.prod n = min n (r.size - r.put.length % r.size) := by
  rw [availContig,sound.prod,realIdx_ofNat]

theorem Sound.contig_cons (sound : Sound r) (n : Nat) : availContig r r.cons n = min n (r.size - r.taken.length % r.size) := by
  rw [availContig,sound.cons,realIdx_ofNat]

-- Where the copy goes on at the start of the ring.
theorem mod_rest (r : Ring) {k n : Nat} (part : min n (r.size - k % r.size) < n) : (k + min n (r.size - k % r.size)) % r.size = 0 := by
  have below := Nat.mod_lt k (size_pos r)
  have eq : min n (r.size - k % r.size) = r.size - k % r.size := by omega
  rw [eq,← Nat.mod_add_div k r.size,Nat.add_right_comm]
  have whole : (k % r.size + r.size * (k / r.size)) % r.size = k % r.size := by
    rw [Nat.mod_add_div]
  rw [whole,Nat.add_sub_cancel' (Nat.le_of_lt below),Nat.add_mul_mod_self_left,Nat.mod_self]

theorem length_piece (fits : o.pos + n ≤ o.data.length) : (o.piece n).length = n := by
  simp only [Output.piece,List.length_take,List.length_drop]
  omega

theorem take_more (o : Output) (n : Nat) : o.data.take o.pos ++ o.piece n = o.data.take (o.pos + n) := by
  rw [Output.piece,List.take_add]

-- What the writing end has in hand: room for the bytes it plans to send, and
-- behind the stream those it has copied.
def Fits (r : Ring) (o : Output) (n : Nat) : Prop :=
  o.pos + n ≤ o.data.length ∧ r.put.length + n ≤ r.taken.length + r.size

def Writing (r : Ring) : Pc → Prop
  | .copy o n => Fits r o n
  | .copyRest o n => Fits r o n ∧
    Held r.size r.buffer (r.put ++ (o.piece n).take (availContig r r.prod n)) r.taken.length
  | .publish o n => Fits r o n ∧ Held r.size r.buffer (r.put ++ o.piece n) r.taken.length
  | .outTell o n => o.pos + n ≤ o.data.length
  | .outEvent o n => o.pos + n ≤ o.data.length
  | _ => True

-- And the reading end: the bytes it plans to take are there, and those it has
-- copied are the next of the stream.
def Reading (r : Ring) : Pc → Prop
  | .fetch _ n => r.taken.length + n ≤ r.put.length
  | .fetchRest _ n got => r.taken.length + n ≤ r.put.length ∧
    got = (r.put.drop r.taken.length).take (availContig r r.cons n)
  | .consume _ got => r.taken.length + got.length ≤ r.put.length ∧ got = (r.put.drop r.taken.length).take got.length
  | .inTell _ got => got.length ≤ r.size
  | .inEvent _ got => got.length ≤ r.size
  | _ => True

theorem copyFirst_sound (sound : Sound r) (fits : Fits r o n) : Sound (copyFirst r o n) ∧
    Held r.size (copyFirst r o n).buffer (r.put ++ (o.piece n).take (availContig r r.prod n)) r.taken.length := by
  have length := length_piece fits.1
  have room := fits.2
  have below := Nat.mod_lt r.put.length (size_pos r)
  have held : Held r.size (copyFirst r o n).buffer (r.put ++ (o.piece n).take (availContig r r.prod n)) r.taken.length := by
    have contig := sound.contig_prod n
    have idx : realIdx r r.prod = r.put.length % r.size := by rw [sound.prod,realIdx_ofNat]
    rw [copyFirst]
    dsimp only
    rw [idx]
    refine held_store sound.held ?_ ?_ <;> rw [List.length_take] <;> omega
  exact ⟨⟨sound.prod,sound.cons,sound.came,sound.window,held.of_append⟩,held⟩

theorem copySecond_sound (sound : Sound r) (fits : Fits r o n)
    (first : Held r.size r.buffer (r.put ++ (o.piece n).take (availContig r r.prod n)) r.taken.length) :
    Sound (copySecond r o n) ∧ Held r.size (copySecond r o n).buffer (r.put ++ o.piece n) r.taken.length := by
  have length := length_piece fits.1
  have room := fits.2
  have contig := sound.contig_prod n
  rw [copySecond]
  split
  · rename_i part
    have taken : ((o.piece n).take (availContig r r.prod n)).length = availContig r r.prod n := by
      rw [List.length_take]
      omega
    have cell : (r.put ++ (o.piece n).take (availContig r r.prod n)).length % r.size = 0 := by
      rw [List.length_append,taken,contig]
      exact mod_rest r (by omega)
    have came := sound.came_le
    have left : ((o.piece n).drop (availContig r r.prod n)).length = n - availContig r r.prod n := by
      rw [List.length_drop,length]
    have second := held_store first (by rw [cell,left]; omega) (by rw [List.length_append,taken,left]; omega)
    rw [cell,List.append_assoc,List.take_append_drop] at second
    exact ⟨⟨sound.prod,sound.cons,sound.came,sound.window,second.of_append⟩,second⟩
  · rename_i whole
    rw [List.take_of_length_le (by omega)] at first
    exact ⟨sound,first⟩

theorem produce_sound (sound : Sound r) (fits : Fits r o n) (held : Held r.size r.buffer (r.put ++ o.piece n) r.taken.length) :
    Sound (produce r o n) := by
  have length := length_piece fits.1
  have room := fits.2
  refine ⟨?_,sound.cons,sound.came.trans (List.prefix_append _ _),?_,held⟩
  · change r.prod + BitVec.ofNat 32 n = BitVec.ofNat 32 (r.put ++ o.piece n).length
    rw [sound.prod,List.length_append,length,BitVec.ofNat_add]
  · change (r.put ++ o.piece n).length ≤ r.taken.length + r.size
    rw [List.length_append]
    omega

theorem fetchFirst_eq (sound : Sound r) (there : r.taken.length + n ≤ r.put.length) :
    fetchFirst r n = (r.put.drop r.taken.length).take (availContig r r.cons n) := by
  have below := Nat.mod_lt r.taken.length (size_pos r)
  have contig := sound.contig_cons n
  have idx : realIdx r r.cons = r.taken.length % r.size := by rw [sound.cons,realIdx_ofNat]
  rw [fetchFirst,idx]
  exact fetch_held sound.held (Nat.le_refl _) (by omega) (by omega)

theorem fetchSecond_eq (sound : Sound r) (there : r.taken.length + n ≤ r.put.length) :
    (r.put.drop r.taken.length).take (availContig r r.cons n) ++ fetchSecond r n = (r.put.drop r.taken.length).take n := by
  have contig := sound.contig_cons n
  have window := sound.window
  rw [fetchSecond]
  split
  · rename_i part
    have cell : (r.taken.length + availContig r r.cons n) % r.size = 0 := by
      rw [contig]
      exact mod_rest r (by omega)
    have second := fetch_held (n:=n - availContig r r.cons n) sound.held (Nat.le_add_right _ (availContig r r.cons n))
      (by rw [cell]; omega) (by omega)
    rw [cell] at second
    rw [second,← List.drop_drop,← List.take_add,Nat.add_sub_cancel' (Nat.le_of_lt part)]
  · rename_i whole
    have all : availContig r r.cons n = n := by omega
    rw [all,List.append_nil]

theorem consumed_sound (sound : Sound r) (got_eq : got = (r.put.drop r.taken.length).take got.length) : Sound (consumed r got) := by
  have window := sound.window
  have split : r.put = r.taken ++ r.put.drop r.taken.length := (List.prefix_iff_eq_append.mp sound.came).symm
  have length : (r.taken ++ got).length = r.taken.length + got.length := List.length_append
  refine ⟨sound.prod,?_,?_,?_,sound.held.later (by change _ ≤ (r.taken ++ got).length; omega)⟩
  · change r.cons + BitVec.ofNat 32 got.length = BitVec.ofNat 32 (r.taken ++ got).length
    rw [sound.cons,length,BitVec.ofNat_add]
  · change r.taken ++ got <+: r.put
    rw [split,got_eq]
    exact (List.prefix_append_right_inj _).mpr (List.take_prefix _ _)
  · change r.put.length ≤ (r.taken ++ got).length + r.size
    rw [length]
    omega

end XenAet.VchanCopies
