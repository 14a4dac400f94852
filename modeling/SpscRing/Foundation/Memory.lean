import Mathlib.Data.List.Basic
import Mathlib.Data.Nat.Bitwise

/-! Byte-addressed memory and little-endian words. A memory is total: what lies
outside the region a program owns is memory too, and keeps what is written to it. -/

namespace SpscRing.Foundation

abbrev Memory := Nat → UInt8

namespace Memory

def read (memory : Memory) (start count : Nat) : List UInt8 :=
  (List.range count).map fun offset => memory (start + offset)

def write (memory : Memory) (start : Nat) (bytes : List UInt8) : Memory := fun address =>
  if start ≤ address ∧ address < start + bytes.length then bytes.getD (address - start) 0
  else memory address

/-- Two memories agree on `count` bytes from `start`. -/
def Agree (first second : Memory) (start count : Nat) : Prop :=
  ∀ offset < count, first (start + offset) = second (start + offset)

/-- Two memories differ at most on `count` bytes from `start`. -/
def Confined (first second : Memory) (start count : Nat) : Prop :=
  ∀ address, (address < start ∨ start + count ≤ address) → first address = second address

variable {memory first second : Memory} {start count : Nat} {bytes : List UInt8}

@[simp]
theorem length_read (memory : Memory) (start count : Nat) :
    (memory.read start count).length = count := by
  simp [read]

theorem getElem_read {offset : Nat} (inside : offset < (memory.read start count).length) :
    (memory.read start count)[offset] = memory (start + offset) := by
  simp [read]

theorem write_apart {address : Nat} (apart : address < start ∨ start + bytes.length ≤ address) :
    memory.write start bytes address = memory address := by
  rw [write, if_neg]
  omega

theorem write_inside {offset : Nat} (inside : offset < bytes.length) :
    memory.write start bytes (start + offset) = bytes[offset] := by
  rw [write, if_pos (by omega)]
  simp [List.getD_eq_getElem?_getD, inside]

theorem read_congr (agree : first.Agree second start count) :
    first.read start count = second.read start count := by
  apply List.map_congr_left
  intro offset member
  exact agree offset (List.mem_range.mp member)

/-- Agreement narrows to any range inside. -/
theorem Agree.narrow (agree : first.Agree second start count) (inner length : Nat)
    (fits : inner + length ≤ count) : first.Agree second (start + inner) length := by
  intro offset inside
  rw [Nat.add_assoc]
  exact agree (inner + offset) (by omega)

theorem confined_write {outer : Nat} (before : outer ≤ start)
    (fits : start + bytes.length ≤ outer + count) :
    (memory.write start bytes).Confined memory outer count := by
  intro address outside
  exact write_apart (by omega)

/-- What lies apart from a confined change is unchanged. -/
theorem Confined.agree {other length : Nat} (confined : first.Confined second start count)
    (apart : other + length ≤ start ∨ start + count ≤ other) : first.Agree second other length := by
  intro offset inside
  exact confined (other + offset) (by omega)

/-- Reading a part of what was just written. -/
theorem read_write_part {inner length : Nat} (fits : inner + length ≤ bytes.length) :
    (memory.write start bytes).read (start + inner) length = (bytes.drop inner).take length := by
  apply List.ext_getElem (by simp; omega)
  intro offset inside _
  have within : inner + offset < bytes.length := by
    simp only [length_read] at inside
    omega
  rw [getElem_read, Nat.add_assoc, write_inside within]
  simp

theorem take_read (memory : Memory) (start count kept : Nat) :
    (memory.read start count).take kept = memory.read start (min kept count) := by
  rw [read, ← List.map_take, List.take_range, read]

/-- Reading fewer bytes from the same place. -/
theorem read_shorter (memory : Memory) (start : Nat) {short long : Nat} (shorter : short ≤ long) :
    memory.read start short <+: memory.read start long := by
  obtain ⟨more, rfl⟩ := Nat.exists_eq_add_of_le shorter
  rw [read, read, List.range_add, List.map_append]
  exact List.prefix_append _ _

/-- Overwrite a part of a list of bytes. -/
def patch (old : List UInt8) (offset : Nat) (bytes : List UInt8) : List UInt8 :=
  old.take offset ++ bytes ++ old.drop (offset + bytes.length)

theorem length_patch {old : List UInt8} {offset : Nat}
    (fits : offset + bytes.length ≤ old.length) : (patch old offset bytes).length = old.length := by
  simp [patch]
  omega

/-- A write inside a range patches what is read from the range. -/
theorem read_write_inside {offset : Nat} (fits : offset + bytes.length ≤ count) :
    (memory.write (start + offset) bytes).read start count =
      patch (memory.read start count) offset bytes := by
  apply List.ext_getElem (by rw [length_patch (by simpa using fits)]; simp)
  intro position inside _
  simp only [length_read] at inside
  rw [getElem_read]
  simp only [patch, List.getElem_append, List.length_append, List.length_take, length_read,
    List.getElem_take, List.getElem_drop, getElem_read]
  have early : min offset count = offset := by omega
  simp only [early]
  split
  · split
    · rw [write_apart (by omega)]
    · have shift : start + position = start + offset + (position - offset) := by omega
      rw [shift, write_inside (by omega)]
  · rw [write_apart (by omega)]
    congr 1
    omega

end Memory

/-- The low `width` bytes of a number, least significant first. -/
def leBytes : (width : Nat) → Nat → List UInt8
  | 0, _ => []
  | width + 1, value => UInt8.ofNat value :: leBytes width (value / 256)

def leValue : List UInt8 → Nat
  | [] => 0
  | byte :: rest => byte.toNat + 256 * leValue rest

@[simp]
theorem length_leBytes (width value : Nat) : (leBytes width value).length = width := by
  induction width generalizing value with
  | zero => rfl
  | succ width ih => simp [leBytes, ih]

theorem leValue_leBytes (width value : Nat) :
    leValue (leBytes width value) = value % 256 ^ width := by
  induction width generalizing value with
  | zero => simp [leBytes, leValue, Nat.mod_one]
  | succ width ih =>
    rw [leBytes, leValue, ih, Nat.pow_succ', Nat.mod_mul]
    simp

/-- Words stored in memory. -/
def loadU32 (memory : Memory) (start : Nat) : UInt32 :=
  UInt32.ofNat (leValue (memory.read start 4))

def loadU64 (memory : Memory) (start : Nat) : UInt64 :=
  UInt64.ofNat (leValue (memory.read start 8))

def bytesU32 (value : UInt32) : List UInt8 := leBytes 4 value.toNat

def bytesU64 (value : UInt64) : List UInt8 := leBytes 8 value.toNat

@[simp]
theorem length_bytesU32 (value : UInt32) : (bytesU32 value).length = 4 := length_leBytes _ _

@[simp]
theorem length_bytesU64 (value : UInt64) : (bytesU64 value).length = 8 := length_leBytes _ _

theorem ofNat_leValue_bytesU32 (value : UInt32) :
    UInt32.ofNat (leValue (bytesU32 value)) = value := by
  have below : value.toNat < 256 ^ 4 := value.toNat_lt
  rw [bytesU32, leValue_leBytes, Nat.mod_eq_of_lt below]
  exact UInt32.ofNat_toNat

theorem ofNat_leValue_bytesU64 (value : UInt64) :
    UInt64.ofNat (leValue (bytesU64 value)) = value := by
  have below : value.toNat < 256 ^ 8 := value.toNat_lt
  rw [bytesU64, leValue_leBytes, Nat.mod_eq_of_lt below]
  exact UInt64.ofNat_toNat

theorem loadU32_congr {first second : Memory} {start : Nat} (agree : first.Agree second start 4) :
    loadU32 first start = loadU32 second start := by
  rw [loadU32, loadU32, Memory.read_congr agree]

theorem loadU64_congr {first second : Memory} {start : Nat} (agree : first.Agree second start 8) :
    loadU64 first start = loadU64 second start := by
  rw [loadU64, loadU64, Memory.read_congr agree]

end SpscRing.Foundation
