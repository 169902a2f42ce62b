import Cdj2000Emulator.Library.Worklist
import Mathlib.Logic.Function.Basic

namespace Cdj2000Emulator.Edma.Model

open Library.Worklist

abbrev Word := BitVec 32
abbrev Byte := BitVec 8

/-- The client's byte bus over a bus state `β`. Both callbacks report success and
leave a new bus state; nothing is assumed of them here. -/
structure Bus (β : Type) where
  read : β → Word → (n : ℕ) → Option (Vector Byte n) × β
  write : β → Word → {n : ℕ} → Vector Byte n → (commit : Bool) → Bool × β

/-- The eight words of a PaRAM set: OPT, SRC, BCNT:ACNT, DST, DSTBIDX:SRCBIDX,
BCNTRLD:LINK, DSTCIDX:SRCCIDX, CCNT. -/
abbrev ParamSet := ℕ → Word

/-- `CdjC6747Edma`, its arrays as functions of the index. -/
structure C6747Edma where
  param : ℕ → ParamSet
  qchmap : ℕ → Word
  dmaqnum : ℕ → Word
  qdmaqnum : Word
  qwmthra : Word
  drae : ℕ → Word
  qrae : ℕ → Word
  er : Word
  esr : Word
  cer : Word
  eer : Word
  ser : Word
  qer : Word
  qeer : Word
  qser : Word
  ier : Word
  ipr : Word
  irqNotifications : Word
  emr : Word
  qemr : Word
  ccerr : Word
  transferRequests : BitVec 64
  bytesTransferred : BitVec 64

def reset : C6747Edma where
  param := fun _ _ ↦ 0
  qchmap := fun _ ↦ 0
  dmaqnum := fun _ ↦ 0
  qdmaqnum := 0
  qwmthra := 0
  drae := fun _ ↦ 0
  qrae := fun _ ↦ 0
  er := 0
  esr := 0
  cer := 0
  eer := 0
  ser := 0
  qer := 0
  qeer := 0
  qser := 0
  ier := 0
  ipr := 0
  irqNotifications := 0
  emr := 0
  qemr := 0
  ccerr := 0
  transferRequests := 0
  bytesTransferred := 0

/-- `1u << i`. -/
abbrev bit (i : ℕ) : Word := BitVec.twoPow 32 i

def optItcchen : ℕ := 23
def optTcchen : ℕ := 22
def optItcinten : ℕ := 21
def optTcinten : ℕ := 20
def optStatic : ℕ := 3
def optSyncdim : ℕ := 2
def optDam : ℕ := 1
def optSam : ℕ := 0
def optAllowed : Word := 0x00f3ff0f
def serviceLimit : ℕ := 1048576

inductive EventKind
  | dma
  | qdma
  deriving DecidableEq

structure PendingEvent where
  kind : EventKind
  channel : ℕ
  deriving DecidableEq

abbrev PendingQueue := Queue PendingEvent

def locate (address : Word) : Option ℕ :=
  if address.toNat < 0x01c00000 ∨ 0x01c08000 ≤ address.toNat ∨ address.toNat % 4 ≠ 0 then none
  else some (address.toNat - 0x01c00000)

def writeMapped (address : Word) (size : ℕ) : Bool := (size = 4 ∨ size = 8) ∧ (locate address).isSome

def tcc (opt : Word) : ℕ := ((opt >>> 12) &&& 0x3f#32).toNat

def legalOpt (value : Word) : Bool :=
  value &&& ~~~optAllowed = 0 ∧ tcc value < 32 ∧ ((value >>> 8) &&& 7#32).toNat ≤ 5

def legalQueueMap (value : Word) : Bool := value &&& ~~~0x11111111#32 = 0

def mappedSet (value : Word) : ℕ := ((value >>> 5) &&& 0x1ff#32).toNat

def legalQchmap (value : Word) : Bool :=
  value &&& ~~~0x0ffc#32 = 0 ∧ mappedSet value < 128

def acnt (p : ParamSet) : ℕ := (p 2 &&& 0xffff#32).toNat
def bcnt (p : ParamSet) : ℕ := (p 2 >>> 16).toNat
def ccnt (p : ParamSet) : ℕ := (p 7 &&& 0xffff#32).toNat
def link (p : ParamSet) : Word := p 5 &&& 0xffff#32

def lowIndex (w : Word) : Word := (w.setWidth 16).signExtend 32

def highIndex (w : Word) : Word := ((w >>> 16).setWidth 16).signExtend 32

def validParam (p : ParamSet) : Bool :=
  legalOpt (p 0) ∧ (p 0).getLsbD optDam = false ∧ (p 0).getLsbD optSam = false ∧
  acnt p ≠ 0 ∧ bcnt p ≠ 0 ∧ ccnt p ≠ 0 ∧ p 7 &&& 0xffff0000#32 = 0 ∧
  (link p = 0xffff ∨
    (link p &&& 0x3fff#32 &&& 31#32 = 0 ∧ (link p &&& 0x3fff#32).toNat < 128 * 32))

section Transfer

variable {β : Type} (bus : Bus β) (commit : Bool)

/-- The array loop of `transfer_bytes`: each array is read, checked at its
destination and, when committing, written, before the indices advance. -/
def transferArrays (count : ℕ) (srcIndex dstIndex : Word) : ℕ → Word → Word → β → Bool × β
  | 0, _, _, b => (true, b)
  | arrays + 1, src, dst, b =>
    match bus.read b src count with
    | (none, b) => (false, b)
    | (some bytes, b) =>
      match bus.write b dst bytes false with
      | (false, b) => (false, b)
      | (true, b) =>
        match if commit then bus.write b dst bytes true else (true, b) with
        | (false, b) => (false, b)
        | (true, b) =>
          transferArrays count srcIndex dstIndex arrays (src + srcIndex) (dst + dstIndex) b

def abSync (p : ParamSet) : Bool := (p 0).getLsbD optSyncdim

def transferBytes (p : ParamSet) (b : β) : Bool × β :=
  if validParam p then
    let arrays := if abSync p then bcnt p else 1
    transferArrays bus commit (acnt p) (lowIndex (p 4)) (highIndex (p 4)) arrays (p 1) (p 3) b
  else (false, b)

end Transfer

def C6747Edma.setOf (s : C6747Edma) (event : PendingEvent) : ℕ :=
  match event.kind with
  | .dma => event.channel
  | .qdma => mappedSet (s.qchmap event.channel)

/-- Whether a request exhausts the set's counts. -/
def final (p : ParamSet) : Bool := (abSync p || bcnt p == 1) && ccnt p == 1

def C6747Edma.acknowledge (s : C6747Edma) (event : PendingEvent) : C6747Edma :=
  match event.kind with
  | .dma =>
    let clear := ~~~bit event.channel
    { s with er := s.er &&& clear, esr := s.esr &&& clear,
             cer := s.cer &&& clear, ser := s.ser &&& clear }
  | .qdma =>
    let clear := ~~~bit event.channel
    { s with qer := s.qer &&& clear, qser := s.qser &&& clear }

def C6747Edma.setParam (s : C6747Edma) (set : ℕ) (p : ParamSet) : C6747Edma :=
  { s with param := Function.update s.param set p }

def advance (p : ParamSet) : ParamSet :=
  let step (q : ParamSet) (index : Word) : ParamSet :=
    Function.update (Function.update q 1 (p 1 + lowIndex index)) 3 (p 3 + highIndex index)
  let ccntLess : Word := BitVec.ofNat 32 (ccnt p - 1)
  if abSync p then step (Function.update p 7 ccntLess) (p 6)
  else if 1 < bcnt p then
    step (Function.update p 2
      ((p 2 &&& 0xffff#32) ||| (BitVec.ofNat 32 (bcnt p - 1) <<< 16))) (p 4)
  else
    step (Function.update (Function.update p 2
      ((p 2 &&& 0xffff#32) ||| (p 5 &&& 0xffff0000#32))) 7 ccntLess) (p 6)

def nullSet : ParamSet := Function.update (fun _ ↦ 0) 5 0xffff

def C6747Edma.qmatches (s : C6747Edma) (set : ℕ) : List ℕ :=
  (List.range 8).filter fun q ↦ s.qeer.getLsbD q && mappedSet (s.qchmap q) == set

/-- A link writes a whole set, so it triggers every QDMA channel mapped to it. -/
def C6747Edma.retrigger (s : C6747Edma) (queue : PendingQueue) :
    List ℕ → Bool × C6747Edma × PendingQueue
  | [] => (true, s, queue)
  | q :: qs =>
    let s := if s.qer.getLsbD q then { s with qemr := s.qemr ||| bit q }
      else { s with qer := s.qer ||| bit q }
    match queue.push serviceLimit ⟨.qdma, q⟩ with
    | none => (false, s, queue)
    | some queue => s.retrigger queue qs

/-- The PaRAM update of a completed request. -/
def C6747Edma.updateParam (s : C6747Edma) (set : ℕ) (original : ParamSet) (queue : PendingQueue) :
    Bool × C6747Edma × PendingQueue :=
  if (original 0).getLsbD optStatic then (true, s, queue)
  else if !final original then (true, s.setParam set (advance original), queue)
  else if link original = 0xffff then (true, s.setParam set nullSet, queue)
  else
    let linkedSet := (link original &&& 0x3fff#32).toNat / 32
    let s := s.setParam set (s.param linkedSet)
    s.retrigger queue (s.qmatches set)

def C6747Edma.regionPending (s : C6747Edma) (region : ℕ) : Bool :=
  s.ipr &&& s.ier &&& s.drae region ≠ 0

def C6747Edma.raiseInterrupt (s : C6747Edma) (code : ℕ) : C6747Edma :=
  let s' := { s with ipr := s.ipr ||| bit code }
  let notify (n : Word) (r : ℕ) : Word :=
    if !s.regionPending r && s'.regionPending r then n ||| bit r else n
  { s' with irqNotifications := (List.range 4).foldl notify s.irqNotifications }

def C6747Edma.chainTo (s : C6747Edma) (code : ℕ) (queue : PendingQueue) :
    Bool × C6747Edma × PendingQueue :=
  let s := if s.cer.getLsbD code then { s with emr := s.emr ||| bit code }
    else { s with cer := s.cer ||| bit code }
  match queue.push serviceLimit ⟨.dma, code⟩ with
  | none => (false, s, queue)
  | some queue => (true, s, queue)

def interrupts (p : ParamSet) : Bool :=
  (p 0).getLsbD (if final p then optTcinten else optItcinten)

def chains (p : ParamSet) : Bool :=
  (p 0).getLsbD (if final p then optTcchen else optItcchen)

def C6747Edma.count (s : C6747Edma) (p : ParamSet) : C6747Edma :=
  { s with
    transferRequests := s.transferRequests + 1
    bytesTransferred := s.bytesTransferred +
      BitVec.ofNat 64 (acnt p * (if abSync p then bcnt p else 1)) }

section Service

variable {β : Type} (bus : Bus β) (commit : Bool)

/-- The bookkeeping of `complete_one` once the bytes have moved. -/
def C6747Edma.retire (s : C6747Edma) (event : PendingEvent) (set : ℕ) (original : ParamSet)
    (queue : PendingQueue) : Bool × C6747Edma × PendingQueue :=
  match (s.acknowledge event).updateParam set original queue with
  | (false, s, queue) => (false, s, queue)
  | (true, s, queue) =>
    let s := if interrupts original then s.raiseInterrupt (tcc (original 0)) else s
    match if chains original then s.chainTo (tcc (original 0)) queue else (true, s, queue) with
    | (false, s, queue) => (false, s, queue)
    | (true, s, queue) => (true, s.count original, queue)

def completeOne (m : C6747Edma × β) (queue : PendingQueue) (event : PendingEvent) :
    Bool × (C6747Edma × β) × PendingQueue :=
  let (s, b) := m
  let set := s.setOf event
  if 128 ≤ set then (false, (s, b), queue)
  else
    let original := s.param set
    match transferBytes bus commit original b with
    | (false, b) => (false, (s, b), queue)
    | (true, b) =>
      match s.retire event set original queue with
      | (ok, s, queue) => (ok, (s, b), queue)

/-- `service`: the worklist of a request and of everything it triggers. -/
def service (m : C6747Edma × β) (initial : List PendingEvent) : Bool × (C6747Edma × β) :=
  match Queue.empty.pushAll serviceLimit initial with
  | none => (false, m)
  | some queue => drain (completeOne bus commit) serviceLimit m queue

end Service

def valid (s : C6747Edma) : Bool :=
  (List.range 8).all (fun q ↦ legalQchmap (s.qchmap q)) &&
  (List.range 4).all (fun n ↦ legalQueueMap (s.dmaqnum n)) &&
  legalQueueMap s.qdmaqnum && s.qwmthra &&& ~~~0x1f1f#32 == 0 &&
  s.qer &&& ~~~0xff#32 == 0 && s.qeer &&& ~~~0xff#32 == 0 &&
  s.qser &&& ~~~0xff#32 == 0 && s.qemr &&& ~~~0xff#32 == 0 &&
  s.irqNotifications &&& ~~~0xf#32 == 0 && s.ccerr &&& ~~~0x00030003#32 == 0 &&
  (List.range 4).all (fun r ↦ s.qrae r &&& ~~~0xff#32 == 0) &&
  (List.range 128).all (fun p ↦ legalOpt (s.param p 0) && s.param p 7 &&& 0xffff0000#32 == 0)

/-- A channel register as seen through the global view or a shadow region. -/
structure View where
  offset : ℕ
  dmaMask : Word
  qdmaMask : Word
  region : Option ℕ

def channelView (s : C6747Edma) (offset : ℕ) : Option View :=
  if 0x1000 ≤ offset ∧ offset ≤ 0x1094 then
    some ⟨offset - 0x1000, BitVec.allOnes 32, 0xff, none⟩
  else if 0x2000 ≤ offset ∧ offset < 0x2800 then
    let r := (offset - 0x2000) / 0x200
    let within := (offset - 0x2000) % 0x200
    if 4 ≤ r ∨ 0x94 < within then none
    else some ⟨within, s.drae r, s.qrae r &&& 0xff#32, some r⟩
  else none

theorem channelView_window {s : C6747Edma} {o : ℕ} {view : View}
    (h : channelView s o = some view) : 0x1000 ≤ o ∧ o < 0x2800 := by
  unfold channelView at h
  split at h
  · omega
  · split at h
    · omega
    · cases h

def dmaEvents (mask : Word) : List PendingEvent :=
  ((List.range 32).filter mask.getLsbD).map (⟨.dma, ·⟩)

section Registers

variable {β : Type} (bus : Bus β)

/-- Preview on a copy whose bus accesses do not commit, then the real run. -/
def serviceChecked (m start : C6747Edma × β) (events : List PendingEvent) (commit : Bool) :
    Bool × (C6747Edma × β) :=
  match service bus false start events with
  | (false, _, b) => (false, m.1, b)
  | (true, _, b) =>
    if commit then service bus true (start.1, b) events else (true, m.1, b)

def writeChannel (m : C6747Edma × β) (view : View) (value : Word) (commit : Bool) :
    Bool × (C6747Edma × β) :=
  let (s, b) := m
  let d := value &&& view.dmaMask
  let q := value &&& view.qdmaMask
  let update (ok : Bool) (s' : C6747Edma) : Bool × (C6747Edma × β) :=
    (ok, if commit then s' else s, b)
  match view.offset with
  | 0x08 => update true { s with er := s.er &&& ~~~d }
  | 0x10 => serviceChecked bus m ({ s with esr := s.esr ||| d }, b) (dmaEvents d) commit
  | 0x28 => update true { s with eer := s.eer &&& ~~~d }
  | 0x30 =>
    -- a previously latched external event is serviced on enable
    let events := dmaEvents (d &&& s.er)
    let enabled := { s with eer := s.eer ||| d }
    if events.isEmpty then update true enabled
    else serviceChecked bus m (enabled, b) events commit
  | 0x40 => update true { s with ser := s.ser &&& ~~~d }
  | 0x58 => update true { s with ier := s.ier &&& ~~~d }
  | 0x60 => update true { s with ier := s.ier ||| d }
  | 0x70 => update true { s with ipr := s.ipr &&& ~~~d }
  | 0x78 =>
    if 1 < value.toNat then (false, m)
    else match view.region with
      | none => (true, m)
      | some r =>
        if value ≠ 0 ∧ s.regionPending r then
          update true { s with irqNotifications := s.irqNotifications ||| bit r }
        else (true, m)
  -- these three update the register before they refuse its reserved bits
  | 0x88 => update (value &&& ~~~0xff#32 = 0) { s with qeer := s.qeer &&& ~~~q }
  | 0x8c => update (value &&& ~~~0xff#32 = 0) { s with qeer := s.qeer ||| q }
  | 0x94 => update (value &&& ~~~0xff#32 = 0) { s with qser := s.qser &&& ~~~q }
  | _ => (false, m)

def paramWords (word size : ℕ) (value : BitVec 64) : List (ℕ × Word) :=
  ((List.range (size / 4)).map fun i ↦ (word + i, (value >>> (32 * i)).setWidth 32))

def writeWords (p : ParamSet) (words : List (ℕ × Word)) : ParamSet :=
  words.foldl (fun p w ↦ Function.update p w.1 w.2) p

def writeParam (m : C6747Edma × β) (set word size : ℕ) (value : BitVec 64) (commit : Bool) :
    Bool × (C6747Edma × β) :=
  let (s, b) := m
  let words := paramWords word size value
  if words.any fun w ↦ (w.1 == 0 && !legalOpt w.2) || (w.1 == 7 && w.2 &&& 0xffff0000#32 != 0)
  then (false, m)
  else
    let written := s.setParam set (writeWords (s.param set) words)
    let triggered := (written.qmatches set).filter fun q ↦
      let trigger := ((s.qchmap q >>> 2) &&& 7#32).toNat
      word ≤ trigger && trigger < word + size / 4
    let events := triggered.map (⟨.qdma, ·⟩)
    if events.isEmpty then (true, if commit then written else s, b)
    else match service bus false (written, b) events with
      | (false, _, b) => (false, s, b)
      | (true, _, b) =>
        if commit then
          service bus true ({ written with
            qer := triggered.foldl (fun x q ↦ x ||| bit q) s.qer }, b) events
        else (true, s, b)

/-- The global registers of `cdj_c6747_edma_write`: whether the value is accepted, and
the state once it is committed. -/
def writeGlobal (s : C6747Edma) (o : ℕ) (v : Word) : Option (Bool × C6747Edma) :=
  let checked (legal : Bool) (s' : C6747Edma) : Option (Bool × C6747Edma) :=
    some (legal, if legal then s' else s)
  if 0x200 ≤ o ∧ o ≤ 0x21c then
    checked (legalQchmap v) { s with qchmap := Function.update s.qchmap ((o - 0x200) / 4) v }
  else if 0x240 ≤ o ∧ o ≤ 0x24c then
    checked (legalQueueMap v) { s with dmaqnum := Function.update s.dmaqnum ((o - 0x240) / 4) v }
  else if o = 0x260 then checked (legalQueueMap v) { s with qdmaqnum := v }
  else if o = 0x308 then checked true { s with emr := s.emr &&& ~~~v }
  else if o = 0x314 then checked (v &&& ~~~0xff#32 = 0) { s with qemr := s.qemr &&& ~~~v }
  else if o = 0x31c then checked (v &&& ~~~0x00030003#32 = 0) { s with ccerr := s.ccerr &&& ~~~v }
  else if o = 0x320 then checked (v.toNat ≤ 1) s
  else if 0x340 ≤ o ∧ o ≤ 0x358 ∧ (o - 0x340) % 8 = 0 then
    checked true { s with drae := Function.update s.drae ((o - 0x340) / 8) v }
  else if 0x380 ≤ o ∧ o ≤ 0x38c then
    checked (v &&& ~~~0xff#32 = 0) { s with qrae := Function.update s.qrae ((o - 0x380) / 4) v }
  else if o = 0x620 then checked (v &&& ~~~0x1f1f#32 = 0) { s with qwmthra := v }
  else none

/-- The global registers lie below the channel views. -/
theorem writeGlobal_window {s : C6747Edma} {o : ℕ} (v : Word) (ho : 0x1000 ≤ o) :
    writeGlobal s o v = none := by
  unfold writeGlobal
  iterate 10 rw [if_neg (by omega)]

/-- The size and span checks of `cdj_c6747_edma_write` at offset `o`. -/
def misfit (o : ℕ) (value : BitVec 64) (size : ℕ) : Bool :=
  (size ≠ 4 ∧ size ≠ 8) ∨ (size = 8 ∧ (o < 0x4000 ∨ 0x5000 ≤ o ∨ 24 < o % 32)) ∨
    (size = 4 ∧ 0x100000000 ≤ value.toNat)

def write (m : C6747Edma × β) (address : Word) (value : BitVec 64) (size : ℕ) (commit : Bool) :
    Bool × (C6747Edma × β) :=
  match locate address with
  | none => (false, m)
  | some o =>
    let v := value.setWidth 32
    if misfit o value size then (false, m)
    else if 0x4000 ≤ o ∧ o < 0x5000 then
      writeParam bus m ((o - 0x4000) / 32) ((o - 0x4000) % 32 / 4) size value commit
    else match writeGlobal m.1 o v with
      | some (ok, s') => (ok, if commit then s' else m.1, m.2)
      | none =>
        match channelView m.1 o with
        | some view => writeChannel bus m view v commit
        | none => (false, m)

def event (m : C6747Edma × β) (channel : ℕ) : Bool × (C6747Edma × β) :=
  let (s, b) := m
  if 32 ≤ channel then (false, m)
  else if !s.eer.getLsbD channel then (true, { s with er := s.er ||| bit channel }, b)
  else
    let latched := if s.er.getLsbD channel then { s with emr := s.emr ||| bit channel } else s
    serviceChecked bus m ({ latched with er := latched.er ||| bit channel }, b)
      [⟨.dma, channel⟩] true

end Registers

def takeIrqNotification (s : C6747Edma) (region : ℕ) : Bool × C6747Edma :=
  if 4 ≤ region ∨ !s.irqNotifications.getLsbD region then (false, s)
  else (true, { s with irqNotifications := s.irqNotifications &&& ~~~bit region })

end Cdj2000Emulator.Edma.Model
