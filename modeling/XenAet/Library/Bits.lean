import Mathlib.Data.BitVec
import Mathlib.Data.Nat.Bitwise
import Mathlib.Tactic.Ring

namespace Library.Masks
variable {w : Nat}

-- Tests and updates of a word under a mask, each with its meaning bit by bit.
def anyOf (x mask : BitVec w) : Bool := (x &&& mask) != 0#w
def allOf (x mask : BitVec w) : Bool := (x &&& mask) == mask
def setIf (go : Bool) (mask x : BitVec w) : BitVec w := if go then x ||| mask else x
def clearIf (go : Bool) (mask x : BitVec w) : BitVec w := if go then x &&& ~~~mask else x

theorem anyOf_iff {x mask : BitVec w} :
    anyOf x mask = true ↔ ∃ i, x.getLsbD i = true ∧ mask.getLsbD i = true := by
  constructor
  · intro found
    by_contra none
    have empty : x &&& mask = 0#w := by
      apply BitVec.eq_of_getLsbD_eq
      intro i _
      rw [BitVec.getLsbD_and,BitVec.getLsbD_zero]
      by_contra both
      exact none ⟨i,by simpa using both⟩
    simp [anyOf,empty] at found
  · rintro ⟨i,here,there⟩
    rw [anyOf,bne_iff_ne]
    intro empty
    have bit : (x &&& mask).getLsbD i = false := by rw [empty,BitVec.getLsbD_zero]
    simp [here,there] at bit

theorem allOf_iff {x mask : BitVec w} :
    allOf x mask = true ↔ ∀ i, mask.getLsbD i = true → x.getLsbD i = true := by
  rw [allOf,beq_iff_eq]
  constructor
  · intro same i there
    rw [← same,BitVec.getLsbD_and,Bool.and_eq_true] at there
    exact there.1
  · intro covered
    apply BitVec.eq_of_getLsbD_eq
    intro i _
    rw [BitVec.getLsbD_and]
    cases there : mask.getLsbD i with
    | false => exact Bool.and_false _
    | true => rw [covered i there]; rfl

theorem anyOf_bit {x : BitVec w} (i : Nat) : anyOf x (BitVec.twoPow w i) = x.getLsbD i := by
  rw [Bool.eq_iff_iff,anyOf_iff]
  constructor
  · rintro ⟨j,here,there⟩
    rw [BitVec.getLsbD_twoPow,Bool.and_eq_true,decide_eq_true_iff,decide_eq_true_iff] at there
    rw [there.2]; exact here
  · intro here
    refine ⟨i,here,?_⟩
    have inside : i < w := by
      by_contra larger
      rw [BitVec.getLsbD_of_ge x i (by omega)] at here
      cases here
    simp [inside]

theorem getLsbD_constant {mask : BitVec w} {p : Nat → Prop} [DecidablePred p]
    (inside : ∀ i : Fin w, mask.getLsbD i = decide (p i)) (outside : ∀ i, w ≤ i → ¬ p i) (i : Nat) :
    mask.getLsbD i = decide (p i) := by
  by_cases small : i < w
  · exact inside ⟨i,small⟩
  · rw [BitVec.getLsbD_of_ge _ _ (by omega),eq_comm,decide_eq_false_iff_not]
    exact outside i (by omega)

@[simp] theorem getLsbD_setIf (go : Bool) (mask x : BitVec w) (i : Nat) :
    (setIf go mask x).getLsbD i = (x.getLsbD i || (go && mask.getLsbD i)) := by
  cases go <;> simp [setIf]

@[simp] theorem getLsbD_clearIf (go : Bool) (mask x : BitVec w) (i : Nat) :
    (clearIf go mask x).getLsbD i = (x.getLsbD i && !(go && mask.getLsbD i)) := by
  cases go with
  | false => simp [clearIf]
  | true =>
    by_cases inside : i < w
    · simp [clearIf,inside]
    · simp [clearIf,BitVec.getLsbD_of_ge x i (by omega)]

end Library.Masks

namespace Library.BitHole
variable {b h n m i : Nat}

-- A number without the `h` digits from digit `b` on, and with `h` zero digits
-- put in there.
def squeeze (b h n : Nat) : Nat := 2^b * (n / 2^(b + h)) + n % 2^b

def stretch (b h n : Nat) : Nat := 2^(b + h) * (n / 2^b) + n % 2^b

def HoleFree (b h n : Nat) : Prop := ∀ i, b ≤ i → i < b + h → n.testBit i = false

theorem low_lt (b n : Nat) : n % 2^b < 2^b := Nat.mod_lt n (Nat.two_pow_pos b)

theorem low_lt_hole (b h n : Nat) : n % 2^b < 2^(b + h) :=
  Nat.lt_of_lt_of_le (low_lt b n) (Nat.pow_le_pow_right (by decide) (Nat.le_add_right b h))

theorem testBit_squeeze (b h n i : Nat) : (squeeze b h n).testBit i = if i < b then n.testBit i else n.testBit (i + h) := by
  rw [squeeze,Nat.testBit_two_pow_mul_add _ (low_lt b n)]
  by_cases low : i < b
  · rw [if_pos low,if_pos low,Nat.testBit_mod_two_pow]
    simp [low]
  · rw [if_neg low,if_neg low,Nat.testBit_div_two_pow]
    congr 1
    omega

theorem testBit_stretch (b h n i : Nat) :
    (stretch b h n).testBit i = if i < b then n.testBit i else decide (b + h ≤ i) && n.testBit (i - h) := by
  rw [stretch,Nat.testBit_two_pow_mul_add _ (low_lt_hole b h n)]
  by_cases low : i < b
  · rw [if_pos low,if_pos (by omega),Nat.testBit_mod_two_pow]
    simp [low]
  · rw [if_neg low]
    by_cases hole : i < b + h
    · rw [if_pos hole,Nat.testBit_mod_two_pow]
      simp [low,hole]
    · rw [if_neg hole,Nat.testBit_div_two_pow]
      have above : b + h ≤ i := by omega
      simp only [above,decide_true,Bool.true_and]
      congr 1
      omega

theorem stretch_squeeze (free : HoleFree b h n) : stretch b h (squeeze b h n) = n := by
  refine Nat.eq_of_testBit_eq fun i => ?_
  rw [testBit_stretch]
  by_cases low : i < b
  · rw [if_pos low,testBit_squeeze,if_pos low]
  · rw [if_neg low]
    by_cases hole : i < b + h
    · rw [free i (by omega) hole]
      simp [hole]
    · have above : b + h ≤ i := by omega
      rw [testBit_squeeze,if_neg (by omega)]
      simp only [above,decide_true,Bool.true_and]
      congr 1
      omega

theorem stretch_free (b h n : Nat) : HoleFree b h (stretch b h n) := by
  intro i low hole
  rw [testBit_stretch,if_neg (by omega)]
  simp [hole]

theorem squeeze_stretch (b h n : Nat) : squeeze b h (stretch b h n) = n := by
  refine Nat.eq_of_testBit_eq fun i => ?_
  rw [testBit_squeeze,testBit_stretch,testBit_stretch]
  by_cases low : i < b
  · rw [if_pos low,if_pos low]
  · have above : b + h ≤ i + h := by omega
    rw [if_neg low,if_neg (by omega)]
    simp [above]

theorem stretch_lt (less : n < m) : stretch b h n < stretch b h m := by
  have wider : 2^b ≤ 2^(b + h) := Nat.pow_le_pow_right (by decide) (Nat.le_add_right b h)
  have low := low_lt b n
  have parts := Nat.div_add_mod n (2^b)
  have parts' := Nat.div_add_mod m (2^b)
  rw [stretch,stretch]
  rcases Nat.lt_or_ge (n / 2^b) (m / 2^b) with before | after
  · calc 2^(b + h) * (n / 2^b) + n % 2^b < 2^(b + h) * (n / 2^b) + 2^(b + h) := by omega
      _ = 2^(b + h) * (n / 2^b + 1) := by ring
      _ ≤ 2^(b + h) * (m / 2^b) := Nat.mul_le_mul_left _ before
      _ ≤ 2^(b + h) * (m / 2^b) + m % 2^b := Nat.le_add_right _ _
  · have same : n / 2^b = m / 2^b := Nat.le_antisymm (Nat.div_le_div_right (Nat.le_of_lt less)) after
    rw [same] at parts ⊢
    omega

theorem stretch_lt_iff : stretch b h n < stretch b h m ↔ n < m := by
  refine ⟨fun less => ?_,stretch_lt⟩
  rcases Nat.lt_trichotomy n m with less' | same | more
  · exact less'
  · rw [same] at less
    exact absurd less (Nat.lt_irrefl _)
  · exact absurd less (Nat.lt_asymm (stretch_lt more))

theorem squeeze_lt_iff (free : HoleFree b h n) (free' : HoleFree b h m) : squeeze b h n < squeeze b h m ↔ n < m := by
  rw [← stretch_lt_iff (b:=b) (h:=h),stretch_squeeze free,stretch_squeeze free']

-- What is added below the hole stays there.
theorem squeeze_add (fits : n % 2^b + i < 2^b) : squeeze b h (n + i) = squeeze b h n + i := by
  have parts : n + i = 2^b * (n / 2^b) + (n % 2^b + i) := by
    have := Nat.div_add_mod n (2^b)
    omega
  have low : (n + i) % 2^b = n % 2^b + i := by
    rw [parts,Nat.mul_add_mod,Nat.mod_eq_of_lt fits]
  have high : (n + i) / 2^(b + h) = n / 2^(b + h) := by
    rw [Nat.pow_add,← Nat.div_div_eq_div_mul,← Nat.div_div_eq_div_mul,parts,Nat.mul_add_div (Nat.two_pow_pos b),
      Nat.div_eq_of_lt fits,Nat.add_zero]
  rw [squeeze,squeeze,low,high,Nat.add_assoc]

end Library.BitHole

namespace Library.Bitmaps
variable {bits : Nat → Bool} {off n i lo hi : Nat}

-- The first index from `off` on that is in the set, or the end of the `n`
-- looked at.
def next (bits : Nat → Bool) : Nat → Nat → Nat
  | off,0 => off
  | off,n + 1 => if bits off then off else next bits (off + 1) n

theorem next_spec (bits : Nat → Bool) (off n : Nat) : off ≤ next bits off n ∧ next bits off n ≤ off + n ∧
    (next bits off n < off + n → bits (next bits off n) = true) ∧ ∀ i, off ≤ i → i < next bits off n → bits i = false := by
  induction n generalizing off with
  | zero => exact ⟨Nat.le_refl _,Nat.le_refl _,fun less => absurd less (Nat.lt_irrefl _),fun i low high => absurd high (Nat.not_lt.mpr low)⟩
  | succ n ih =>
    rw [next]
    cases here : bits off with
    | true =>
      rw [if_pos rfl]
      exact ⟨Nat.le_refl _,Nat.le_add_right _ _,fun _ => here,fun i low high => absurd high (Nat.not_lt.mpr low)⟩
    | false =>
      rw [if_neg (by simp)]
      obtain ⟨above,below,found,before⟩ := ih (off + 1)
      refine ⟨by omega,by omega,fun less => found (by omega),fun i low high => ?_⟩
      rcases Nat.eq_or_lt_of_le low with rfl | low
      · exact here
      · exact before i low high

-- The index is the first: nothing before it, and it is there or is the end.
theorem next_eq (low : off ≤ i) (high : i ≤ off + n) (before : ∀ j, off ≤ j → j < i → bits j = false)
    (there : i < off + n → bits i = true) : next bits off n = i := by
  obtain ⟨above,below,found,clear⟩ := next_spec bits off n
  rcases Nat.lt_trichotomy (next bits off n) i with less | same | more
  · rw [before _ above less] at found
    exact absurd (found (by omega)) (by simp)
  · exact same
  · rw [clear i low more] at there
    exact absurd (there (by omega)) (by simp)

def fill (bits : Nat → Bool) (lo hi i : Nat) : Bool := bits i || (decide (lo ≤ i) && decide (i < hi))

def clear (bits : Nat → Bool) (lo hi i : Nat) : Bool := bits i && !(decide (lo ≤ i) && decide (i < hi))

theorem fill_iff : fill bits lo hi i = true ↔ bits i = true ∨ lo ≤ i ∧ i < hi := by simp [fill]

theorem fill_out (out : ¬(lo ≤ i ∧ i < hi)) : fill bits lo hi i = bits i := by
  rw [Bool.eq_iff_iff,fill_iff]
  simp [out]

theorem clear_iff : clear bits lo hi i = true ↔ bits i = true ∧ ¬(lo ≤ i ∧ i < hi) := by
  simp only [clear,Bool.and_eq_true,Bool.not_eq_true']
  rw [← Bool.not_eq_true,Bool.and_eq_true,decide_eq_true_iff,decide_eq_true_iff]

-- Clearing bit after bit until one is clear already.
def clearRun (bits : Nat → Bool) : Nat → Nat → Nat → Bool
  | _,0 => bits
  | bit,n + 1 => if bits bit then clearRun (clear bits bit (bit + 1)) (bit + 1) n else bits

theorem clear_clear (low : lo ≤ n) (high : n ≤ hi) : clear (clear bits lo n) n hi = clear bits lo hi := by
  funext i
  rw [Bool.eq_iff_iff,clear_iff,clear_iff,clear_iff]
  constructor
  · rintro ⟨⟨is,first⟩,second⟩
    exact ⟨is,fun both => by omega⟩
  · rintro ⟨is,out⟩
    exact ⟨⟨is,fun both => out (by omega)⟩,fun both => out (by omega)⟩

theorem clear_none (none : hi ≤ lo) : clear bits lo hi = bits := by
  funext i
  rw [Bool.eq_iff_iff,clear_iff]
  exact ⟨And.left,fun is => ⟨is,fun both => by omega⟩⟩

theorem clearRun_eq (low : lo ≤ hi) (high : hi ≤ lo + n) (run : ∀ i, lo ≤ i → i < hi → bits i = true)
    (ends : hi < lo + n → bits hi = false) : clearRun bits lo n = clear bits lo hi := by
  induction n generalizing bits lo with
  | zero => rw [clearRun,clear_none (by omega)]
  | succ n ih =>
    rw [clearRun]
    rcases Nat.eq_or_lt_of_le low with rfl | more
    · rw [ends (by omega),if_neg (by simp),clear_none (Nat.le_refl _)]
    · rw [run lo (Nat.le_refl _) more,if_pos rfl,ih more (by omega),clear_clear (by omega) more]
      · intro i above below
        rw [clear_iff]
        exact ⟨run i (by omega) below,by omega⟩
      · intro less
        rw [← Bool.not_eq_true,clear_iff,ends (by omega)]
        simp

-- The lowest index that is reached from `n` down through clear bits.
def lowest (bits : Nat → Bool) : Nat → Nat
  | 0 => 0
  | n + 1 => if bits n then n + 1 else lowest bits n

theorem lowest_spec (bits : Nat → Bool) (n : Nat) : lowest bits n ≤ n ∧ (∀ i, lowest bits n ≤ i → i < n → bits i = false) ∧
    (lowest bits n ≠ 0 → bits (lowest bits n - 1) = true) := by
  induction n with
  | zero => exact ⟨Nat.le_refl _,fun i _ less => absurd less (Nat.not_lt_zero _),fun some_ => absurd rfl some_⟩
  | succ n ih =>
    rw [lowest]
    cases here : bits n with
    | true =>
      rw [if_pos rfl]
      exact ⟨Nat.le_refl _,fun i low high => by omega,fun _ => here⟩
    | false =>
      rw [if_neg (by simp)]
      obtain ⟨below,clear,ends⟩ := ih
      refine ⟨by omega,fun i low high => ?_,ends⟩
      rcases Nat.eq_or_lt_of_le (Nat.le_of_lt_succ high) with rfl | less
      · exact here
      · exact clear i low less

end Library.Bitmaps
