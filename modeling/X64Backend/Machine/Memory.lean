import Std.Data.HashMap
import X64Backend.Code.Phys

/-!
The storage of the machine: the register file, and a memory of bytes that are zero until written.
-/

namespace X64Backend.Machine

structure Registers where
  words : Vector UInt64 16

namespace Registers

def zero : Registers := ⟨Vector.replicate 16 0⟩

def get (registers : Registers) (phys : Phys) : UInt64 :=
  registers.words.get phys.index

def set (registers : Registers) (phys : Phys) (word : UInt64) : Registers :=
  ⟨registers.words.set phys.index word⟩

end Registers

/-- The bytes written so far. -/
structure Memory where
  cells : Std.HashMap UInt64 UInt8

namespace Memory

def empty : Memory := ⟨∅⟩

def get (memory : Memory) (address : UInt64) : UInt8 :=
  memory.cells.getD address 0

def set (memory : Memory) (address : UInt64) (byte : UInt8) : Memory :=
  ⟨memory.cells.insert address byte⟩

/-- Reads a number of bytes, the first one lowest. -/
def load (memory : Memory) (address : UInt64) : (count : Nat) → UInt64
  | 0 => 0
  | count + 1 => (load memory (address + 1) count <<< 8) ||| (memory.get address).toUInt64

/-- Writes the low bytes of a word, the lowest one first. -/
def store (memory : Memory) (address : UInt64) : (count : Nat) → UInt64 → Memory
  | 0, _ => memory
  | count + 1, word => store (memory.set address word.toUInt8) (address + 1) count (word >>> 8)

def storeBytes (memory : Memory) : UInt64 → List UInt8 → Memory
  | _, [] => memory
  | address, byte :: rest => storeBytes (memory.set address byte) (address + 1) rest

end Memory

end X64Backend.Machine
