import Mathlib.Data.Nat.Bitwise

/-! The packed 32-bit notify word: a waiter flag in bit 31 and a free-running
wake sequence in bits 0..30. -/

namespace SpscRing.NotifyWord

def notifyWaiterBit : UInt32 := 0x80000000

def notifySeqMask : UInt32 := 0x7FFFFFFF

/-- Wake-sequence value with the waiter flag stripped. -/
def notifySeqValue (raw : UInt32) : UInt32 := raw &&& notifySeqMask

/-- The waiter flag of a word, as every party tests it. -/
def hasWaiter (word : UInt32) : Bool := (word &&& notifyWaiterBit) != 0

/-- `fetch_or(notify_waiter_bit)`: the word it leaves behind. -/
def setWaiter (word : UInt32) : UInt32 := word ||| notifyWaiterBit

/-- `fetch_and(~notify_waiter_bit)`: the word it leaves behind. -/
def clearWaiter (word : UInt32) : UInt32 := word &&& ~~~notifyWaiterBit

/-- `bump_notify_word`: the word after the `fetch_add`, and whether the
previous word carried the waiter flag. -/
def bumpNotifyWord (word : UInt32) : UInt32 × Bool :=
  (word + 1, hasWaiter word)

/-- A bump of this word carries out of bit 30. -/
def carries (word : UInt32) : Bool := notifySeqValue word == notifySeqMask

theorem toNat_notifySeqValue (word : UInt32) :
    (notifySeqValue word).toNat = word.toNat % 2 ^ 31 := by
  have mask : notifySeqMask.toNat = 2 ^ 31 - 1 := rfl
  rw [notifySeqValue, UInt32.toNat_and, mask, Nat.and_two_pow_sub_one_eq_mod]

theorem toNat_clearWaiter (word : UInt32) : (clearWaiter word).toNat = word.toNat % 2 ^ 31 := by
  have mask : ~~~notifyWaiterBit = notifySeqMask := by decide
  rw [clearWaiter, mask]
  exact toNat_notifySeqValue word

theorem toNat_and_waiterBit (word : UInt32) :
    (word &&& notifyWaiterBit).toNat = if 2 ^ 31 ≤ word.toNat then 2 ^ 31 else 0 := by
  have bit : notifyWaiterBit.toNat = 2 ^ 31 := rfl
  have below : word.toNat < 2 ^ 32 := word.toNat_lt
  rw [UInt32.toNat_and, bit, Nat.and_two_pow]
  by_cases flagged : 2 ^ 31 ≤ word.toNat
  · have set : word.toNat.testBit 31 = true :=
      Nat.testBit_of_two_pow_le_and_two_pow_add_one_gt flagged (by omega)
    rw [set, if_pos flagged]
    rfl
  · have unset : word.toNat.testBit 31 = false := Nat.testBit_lt_two_pow (by omega)
    rw [unset, if_neg flagged]
    rfl

theorem hasWaiter_iff {word : UInt32} : hasWaiter word = true ↔ 2 ^ 31 ≤ word.toNat := by
  have value := toNat_and_waiterBit word
  simp only [hasWaiter, bne_iff_ne, ne_eq, ← UInt32.toNat_inj, value, UInt32.toNat_zero]
  split <;> simp_all

theorem hasWaiter_eq_false {word : UInt32} : hasWaiter word = false ↔ word.toNat < 2 ^ 31 := by
  rw [← Bool.not_eq_true, hasWaiter_iff, Nat.not_le]

theorem toNat_setWaiter (word : UInt32) :
    (setWaiter word).toNat = word.toNat % 2 ^ 31 + 2 ^ 31 := by
  have bit : notifyWaiterBit.toNat = 2 ^ 31 := rfl
  have below : word.toNat < 2 ^ 32 := word.toNat_lt
  have low : word.toNat % 2 ^ 31 < 2 ^ 31 := Nat.mod_lt _ (by decide)
  have joined : 2 ^ 31 + word.toNat % 2 ^ 31 = 2 ^ 31 ||| word.toNat % 2 ^ 31 := by
    simpa only [Nat.mul_one] using Nat.two_pow_add_eq_or_of_lt low 1
  rw [setWaiter, UInt32.toNat_or, bit, Nat.add_comm, joined, Nat.lor_comm]
  by_cases flagged : 2 ^ 31 ≤ word.toNat
  · have same : word.toNat = 2 ^ 31 ||| word.toNat % 2 ^ 31 := by omega
    calc 2 ^ 31 ||| word.toNat = 2 ^ 31 ||| (2 ^ 31 ||| word.toNat % 2 ^ 31) := by rw [← same]
      _ = 2 ^ 31 ||| word.toNat % 2 ^ 31 := by rw [← Nat.lor_assoc, Nat.or_self]
  · rw [Nat.mod_eq_of_lt (Nat.lt_of_not_le flagged)]

theorem toNat_bump (word : UInt32) : (word + 1).toNat = (word.toNat + 1) % 2 ^ 32 := by
  simp [UInt32.toNat_add]

theorem hasWaiter_setWaiter (word : UInt32) : hasWaiter (setWaiter word) = true := by
  rw [hasWaiter_iff, toNat_setWaiter]
  omega

theorem hasWaiter_clearWaiter (word : UInt32) : hasWaiter (clearWaiter word) = false := by
  rw [hasWaiter_eq_false, toNat_clearWaiter]
  omega

theorem carries_iff {word : UInt32} : carries word = true ↔ word.toNat % 2 ^ 31 = 2 ^ 31 - 1 := by
  have mask : notifySeqMask.toNat = 2 ^ 31 - 1 := rfl
  rw [carries, beq_iff_eq, ← UInt32.toNat_inj, toNat_notifySeqValue, mask]

/-- Only a carry out of bit 30 lets a bump touch the waiter flag. -/
theorem hasWaiter_bump {word : UInt32} (within : carries word = false) :
    hasWaiter (word + 1) = hasWaiter word := by
  have below : word.toNat < 2 ^ 32 := word.toNat_lt
  have inside : ¬ word.toNat % 2 ^ 31 = 2 ^ 31 - 1 := by
    rw [← carries_iff, within]
    decide
  rw [Bool.eq_iff_iff, hasWaiter_iff, hasWaiter_iff, toNat_bump]
  omega

end SpscRing.NotifyWord
