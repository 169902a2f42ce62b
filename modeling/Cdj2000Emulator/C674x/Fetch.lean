import Cdj2000Emulator.C674x.Execute

namespace Cdj2000Emulator.C674x.Fetch

open Library.Stateful State Transfer Execute

/-- The loop state of `cdj_c674x_fetch`; `header` is the one in hand, with its address. -/
structure Progress where
  next : Word
  header : Option (Word × Word)
  instructions : List Instruction

variable {β : Type} (bus : Bus β)

def fetchHeader (p : Progress) : Exec β Word :=
  let address := (p.next &&& ~~~31#32) + 28
  let read := (bus.fetchWord address).orFail (⟨p.next, 0, "unmapped instruction fetch"⟩ : Fault)
  match p.header with
  | some (held, header) => if held = address then pure header else read
  | none => read

/-- Eight slots, one skipped header and the slot that is too many bound the rounds. -/
def fetchRounds : (rounds : ℕ) → Progress → Exec β Progress
  | 0, p => pure p
  | rounds + 1, p => do
    let next := p.next
    Machine.require (next &&& 1#32 = 0) ⟨next, 0, "unaligned instruction fetch"⟩
    let header ← fetchHeader bus p
    let held := some ((next &&& ~~~31#32) + 28, header)
    let mixed : Bool := header >>> 28 = 14#32
    let position := field next 0 5
    if mixed && position = 28 then
      fetchRounds rounds { p with next := next + 4, header := held }
    else do
      Machine.require (¬(mixed && position = 30))
        ⟨next, header, "instruction points into compact header"⟩
      let short : Bool := mixed && header.getLsbD (21 + position / 4)
      Machine.require (short ∨ next &&& 3#32 = 0) ⟨next, 0, "unaligned full instruction fetch"⟩
      let word ← (bus.fetchWord (next &&& ~~~3#32)).orFail
        (⟨next, 0, "unmapped instruction fetch"⟩ : Fault)
      Machine.require (p.instructions.length ≠ 8)
        ⟨next, word, "execute packet exceeds eight instructions"⟩
      let word := if short then (word >>> ((next &&& 2#32).toNat * 8)) &&& 0xffff#32 else word
      let parallel : Bool := if short then header.getLsbD (position / 2) else word.getLsbD 0
      let insn : Instruction := ⟨word, next, if mixed then header else 0, short⟩
      let next := next + if short then 2 else 4
      let next := if mixed && field next 0 5 = 28 then next + 4 else next
      let p : Progress := ⟨next, held, p.instructions ++ [insn]⟩
      if parallel then fetchRounds rounds p else pure p

def fetch (cpu : Cpu) : Exec β Packet :=
  match cpu.fault with
  | some why => Machine.fail ⟨cpu.faultPc, cpu.faultWord, why⟩
  | none => do
    let p ← fetchRounds bus 10 ⟨cpu.pc, none, []⟩
    pure ⟨p.instructions, p.next, false⟩

end Cdj2000Emulator.C674x.Fetch
