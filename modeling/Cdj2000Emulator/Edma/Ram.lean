import Cdj2000Emulator.Edma.Model

namespace Cdj2000Emulator.Edma.Ram

open Model

/-- A flat byte memory over the whole 32-bit address space. -/
abbrev Memory := Word → Byte

def load (mem : Memory) (address : Word) (n : ℕ) : Vector Byte n :=
  Vector.ofFn fun i ↦ mem (address + BitVec.ofNat 32 i)

def store {n : ℕ} (mem : Memory) (address : Word) (bytes : Vector Byte n) : Memory :=
  fun x ↦ if h : (x - address).toNat < n then bytes.get ⟨(x - address).toNat, h⟩ else mem x

def ram : Bus Memory where
  read := fun mem address n ↦ (some (load mem address n), mem)
  write := fun mem address _ bytes commit ↦ (true, if commit then store mem address bytes else mem)

end Cdj2000Emulator.Edma.Ram
