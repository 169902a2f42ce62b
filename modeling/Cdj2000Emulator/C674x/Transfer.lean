import Cdj2000Emulator.C674x.State

namespace Cdj2000Emulator.C674x.Transfer

open Library.Stateful State

/-- The bus callbacks over a bus state `β`, and the board clock edge. Nothing is
assumed of them here. -/
structure Bus (β : Type) where
  read : β → Word → β × Option Word
  write : β → Word → Long → (size : ℕ) → (commit : Bool) → β × Bool
  tick : β → β

abbrev Access (β α : Type) := Machine β Unit α

variable {β : Type} (bus : Bus β)

def Bus.fetchWord (address : Word) : Access β Word := fun s ↦
  match bus.read s address with
  | (s, some word) => (s, .ok word)
  | (s, none) => (s, .error ())

def Bus.put (address : Word) (value : Long) (size : ℕ) (commit : Bool) : Access β Unit := fun s ↦
  match bus.write s address value size commit with
  | (s, true) => (s, .ok ())
  | (s, false) => (s, .error ())

def circularAddress (base result : Word) (width : ℕ) : Word :=
  if width = 0 ∨ width = 32 then result
  else
    let mask : Word := BitVec.twoPow 32 width - 1
    (base &&& ~~~mask) ||| (result &&& mask)

/-- The loop of `read_scalar`, from `done` on. Each round reads at least a byte, so
`size` rounds are enough. -/
def readLanes (address : Word) (size : ℕ) : (rounds done : ℕ) → Long → Access β Long
  | 0, _, value => pure value
  | rounds + 1, done, value =>
    if size ≤ done then pure value
    else do
      let current := address + BitVec.ofNat 32 done
      let word ← bus.fetchWord (current &&& ~~~3#32)
      let lane := current.toNat % 4
      let n := min (4 - lane) (size - done)
      let word := (word >>> (lane * 8)).setWidth 64 % BitVec.twoPow 64 (n * 8)
      readLanes address size rounds (done + n) (value ||| word <<< (done * 8))

def readScalar (address : Word) (size : ℕ) : Access β Long := do
  Machine.require (address.toNat + size ≤ 0x100000000) ()
  readLanes bus address size size 0 0

def readTransfer (address : Word) (size width : ℕ) : Access β Long :=
  if width = 0 then readScalar bus address size
  else
    (List.range size).foldlM (fun value i ↦ do
      let byte ← readScalar bus
        (circularAddress address (address + BitVec.ofNat 32 i) width) 1
      pure (value ||| byte <<< (8 * i))) 0

def writeTransfer (address : Word) (value : Long) (size width : ℕ) (commit : Bool) :
    Access β Unit :=
  if width = 0 ∨ (circularAddress address (address + BitVec.ofNat 32 (size - 1)) width).toNat =
      address.toNat + size - 1 then
    bus.put address value size commit
  else
    (List.range size).foldlM (fun _ i ↦
      bus.put (circularAddress address (address + BitVec.ofNat 32 i) width)
        ((value >>> (8 * i)) &&& 255#64) 1 commit) ()

section Keeps

open Machine

variable {τ : Type} {view : β → τ} {bus}

theorem keeps_fetchWord (hread : ∀ s a, view (bus.read s a).1 = view s) (address : Word) :
    Keeps view (bus.fetchWord address) := by
  intro s
  have := hread s address
  unfold Bus.fetchWord
  rcases h : bus.read s address with ⟨t, _ | word⟩
  · rwa [h] at this
  · rwa [h] at this

theorem keeps_readLanes (hread : ∀ s a, view (bus.read s a).1 = view s) (address : Word)
    (size : ℕ) : ∀ rounds done value, Keeps view (readLanes bus address size rounds done value)
  | 0, _, _ => keeps_pure
  | rounds + 1, done, value => by
    unfold readLanes
    split_ifs
    · exact keeps_pure
    · exact (keeps_fetchWord hread _).bind fun word ↦
        keeps_readLanes hread address size rounds _ _

end Keeps

end Cdj2000Emulator.C674x.Transfer
