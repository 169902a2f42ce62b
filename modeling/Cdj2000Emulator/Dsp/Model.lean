import Mathlib.Algebra.Order.Ring.Int
import Mathlib.Logic.Function.Basic
import Mathlib.Data.Nat.Notation
import Mathlib.Data.Int.Notation
import Mathlib.Tactic.SplitIfs

namespace Cdj2000Emulator.Dsp.Model

open Function

abbrev Word := BitVec 32

/-- The 64 KiB window by its aligned words: `window offset` is `ldl_le_p(window + offset)`. -/
abbrev Window := ℕ → Word

/-- What the `CDJ_DSP_*` switches set once, in `cdj_dsp_model_new`. -/
structure Config where
  absent : Bool
  ackControl : Bool
  slotReport : Bool
  slotLoadedState : ℕ
  slotEvent : ℕ
  playEvent : ℕ
  slotPeriodNs : ℤ
  consumeRate : ℤ
  statusFlags : Bool
  refillEvent : ℕ
  refillLow : ℤ
  posReport : Bool
  loopSelect : Bool
  flushReset : Bool
  jobAnswer : Bool
  jobConsume : Bool
  jobAdvance : Bool
  events : Bool
  slotMsg : Bool
  slotReadyEvent : Bool
  states433 : Bool
  loopInSlot0 : Bool
  loopSlots : Bool
  slotEntry : Bool
  autoCue : Bool
  statusRecord : Bool
  statusCurrent : Bool
  statusFirst : Bool
  probeStartNs : ℤ
  probeIntervalNs : ℤ
  probeList : List ℕ

/-- `pos_state`: nothing loaded (0), loaded and stopped (2), playing (3). -/
inductive PosState
  | unloaded
  | standing
  | playing
  deriving DecidableEq

inductive Transport
  | stopped
  | cued
  | playing
  deriving DecidableEq

/-- The part of `CdjDspModel` behind the position report, the slots and the loop table. -/
structure Deck where
  posState : PosState
  posMs : ℤ
  cueMs : ℤ
  hotMs : ℕ → ℤ
  posLastNs : ℤ
  posRemNs : ℤ
  posStandby : Bool
  rateValidSeen : Bool
  loopInMs : ℤ
  loopOutMs : ℤ
  loopOn : Bool
  segEndMs : ℕ → ℤ
  segEndValid : ℕ → Bool
  loopBuilt : ℕ → Bool
  posRecord : Word
  fmtRecord : Word
  fmtSeen : Bool
  firstRecord : Word
  seekApplied : Word × Word × Word
  seekArmed : Bool
  recQueue : List Word

/-- `CdjDspModel`, its window and the events posted to MAIN so far. -/
structure Device where
  window : Window
  posted : List ℕ
  running : Bool
  controlCleared : Bool
  streamBuffer : ℕ
  deck : Deck
  jobs : ℕ
  sawLoadEnd : Bool
  slotState : ℕ
  slotPosMs : ℤ
  slotLastNs : ℤ
  statusFlagsSet : Bool
  consumeCarryMs : ℤ
  consumed : ℤ
  refillAsked : Bool
  reportId : ℕ
  probeLastNs : ℤ
  probeNext : ℕ
  lastTickNs : ℤ
  transport : Transport
  positionMs : ℤ
  tempoPpm : ℤ

section Arithmetic

def scaleMs : ℤ := 1000000

def hotSlots : ℕ := 10

def loopOutSlot : ℕ := 5

/-- Signed arithmetic wraps, as the build's `-fwrapv` has it. -/
def int32 (x : ℤ) : ℤ := x.bmod (2 ^ 32)

def int64 (x : ℤ) : ℤ := x.bmod (2 ^ 64)

def word (x : ℤ) : Word := BitVec.ofInt 32 x

end Arithmetic

namespace Window

variable (w : Window)

def stl (offset : ℕ) (value : Word) : Window := update w offset value

/-- `memset` with 0. -/
def zero (offset length : ℕ) : Window := fun at' =>
  if offset ≤ at' ∧ at' < offset + length then 0 else w at'

/-- A byte stored at an aligned offset. -/
def stb (offset : ℕ) (value : Word) : Window :=
  w.stl offset ((w offset &&& 0xffffff00) ||| (value &&& 0xff))

end Window

def levelBuffer1 : ℕ := 0x7cd0

def levelBuffer2 : ℕ := 0x7ccc

variable (c : Config) (now : ℤ) (d : Device)

namespace Device

def stl (offset : ℕ) (value : Word) : Device := { d with window := d.window.stl offset value }

/-- `cdj_dsp_event`: the code in the mailbox, its bytes swapped, and the interrupt line up. -/
def event (code : ℕ) : Device :=
  { d.stl 0xffe8 (BitVec.ofNat 32 (code / 256 % 256 * 2 ^ 16 + code % 256 * 2 ^ 24)) with
    posted := d.posted ++ [code] }

def post (code : ℕ) : Device :=
  if d.reportId = 0 then d.event code
  else
    let id := (d.reportId + 1) % 2 ^ 32
    ({ d with reportId := id }.stl 0x7cd4 (BitVec.ofNat 32 id)).event code

end Device

section Loops

def loopsClear (k : Deck) : Deck :=
  { k with
    segEndValid := fun n => if n < loopOutSlot then false else k.segEndValid n
    segEndMs := fun n => if n < loopOutSlot then -1 else k.segEndMs n
    loopBuilt := fun n => if n < loopOutSlot then false else k.loopBuilt n }

def loopIn (k : Deck) (n : ℕ) : ℤ := if n = 0 then k.cueMs else k.hotMs n

/-- The END of loop `n`: the cached one while its flag is set, slot `5 + n`'s point otherwise. -/
def loopEnd (k : Deck) (n : ℕ) : ℤ :=
  if k.segEndValid n then k.segEndMs n else k.hotMs (loopOutSlot + n)

/-- Loop `n` can be played. -/
def LoopDefined (k : Deck) (n : ℕ) : Prop :=
  (k.segEndValid n ∨ k.loopBuilt n) ∧ 0 ≤ loopIn k n ∧ loopIn k n < loopEnd k n

instance (k : Deck) (n : ℕ) : Decidable (LoopDefined k n) := instDecidableAnd

/-- `cdj_dsp_model_loop_select` on the value of +0x7bc8. -/
def loopSelect (selection : Word) (k : Deck) : Deck :=
  let n := selection.toNat - 1
  if 1 ≤ selection.toNat ∧ selection.toNat ≤ loopOutSlot ∧ LoopDefined k n then
    { k with loopOn := true, loopInMs := loopIn k n, loopOutMs := loopEnd k n }
  else { k with loopOn := false }

end Loops

section Reports

def slotMsg (slot : ℕ) : Device :=
  if ¬c.slotMsg ∨ slot = 4 ∨ 9 ≤ slot then d
  else
    let msg := if slot < 4 then (slot + 1) * 16 + 1 else (slot - 4) * 16 + 2
    let d := d.stl 0x7c00 (BitVec.ofNat 32 msg)
    if c.slotReadyEvent then d.event (0x0100 + slot) else d

def slotEntry (slot : ℕ) (ms : ℤ) : Device :=
  if ¬c.slotEntry ∨ slot = 4 ∨ 9 ≤ slot ∨ ms < 0 then d
  else
    let base := if slot < 4 then 0x7ce0 + slot * 132 else 0x7ef0 + (slot - 5) * 132
    let samples := word ((ms * 44100).tdiv 1000)
    ((d.stl (base + 32) (samples / 588)).stl (base + 96) (samples % 588)).stl (base + 100)
      (samples / 588)

/-- The four entries `cdj_dsp_model_slot_report` fills. -/
def slotTable (state : ℕ) (fine coarse : Word) : Window :=
  (List.range 4).foldl (fun w i =>
    let entry := 0x7ce0 + i * 132
    (((w.stl (entry + 96) fine).stl (entry + 100) coarse).stl (entry + 104) 0).stl (entry + 128)
      (BitVec.ofNat 32 state)) d.window

def slotReport (state : ℕ) : Device :=
  let event := if state = 3 ∧ d.slotState = 3 then c.playEvent else c.slotEvent
  let fine := word ((d.slotPosMs * 22050).tdiv 1000)
  let coarse := word ((d.slotPosMs * 75).tdiv 1000)
  let out := { d with
    window := slotTable d state fine coarse
    slotLastNs := if state = 3 ∧ d.slotState ≠ 3 then now else d.slotLastNs
    slotState := state }
  if event ≠ 0 then out.post event else out

/-- The rate the deck plays at: the word +0x7bc0, or 2^20 for one it does not accept. -/
def effectiveRate (rate : ℤ) (validSeen : Bool) : ℤ :=
  if 0x300000 < rate ∨ (rate < 0x20000 ∧ ¬validSeen) then 0x100000 else rate

def rateWord (w : Window) : ℤ := (w 0x7bc0 &&& 0xffffff).toNat

/-- The turn back at the end of the loop in force. -/
def wrap (k : Deck) : Deck :=
  if k.loopOn ∧ k.loopInMs < k.loopOutMs ∧ k.loopOutMs ≤ k.posMs then
    { k with posMs := k.loopInMs + (k.posMs - k.loopInMs).tmod (k.loopOutMs - k.loopInMs) }
  else k

/-- The audio time since the last report, with the part of a millisecond carried over. -/
def advance (rate : ℤ) (k : Deck) : Deck :=
  let valid := k.rateValidSeen || decide (0x20000 ≤ rate ∧ rate ≤ 0x300000)
  let played := int64 ((now - k.posLastNs) * effectiveRate rate valid) / 2 ^ 20 + k.posRemNs
  { k with
    rateValidSeen := valid
    posMs := k.posMs + played.tdiv scaleMs
    posRemNs := played.tmod scaleMs
    posLastNs := now }

/-- The block +0x7bf0.. of `cdj_dsp_model_position_report`. -/
def positionBlock (k : Deck) (w : Window) : Window :=
  let frames := word ((k.posMs * 75).tdiv 1000)
  let samples := word (((k.posMs * 44100).tdiv 1000).tmod 588)
  let status : Word := match k.posState with
    | .playing => 2
    | .standing => 4
    | .unloaded => 0
  let valid : Word :=
    if k.posState = .unloaded then 0
    else if k.posRecord ≠ 0 then k.posRecord
    else if c.statusFirst then k.firstRecord else 0
  ((((w.stl 0x7bf0 0).stl 0x7bf4 samples).stl 0x7bfc status).stl 0x7c10 frames).stl 0x7c14 valid

def positionReport : Device :=
  if ¬d.controlCleared then d
  else
    let deck := if d.deck.posState = .playing then wrap (advance now (rateWord d.window) d.deck)
      else d.deck
    { d with deck, window := positionBlock c deck d.window }

end Reports

/-- `dsp_ack_words`. -/
inductive Request
  | helper
  | command
  | slot
  | segment
  | flush
  | format
  | header
  | buffer
  deriving DecidableEq

namespace Request

def offset : Request → ℕ
  | helper => 0x7b80
  | command => 0x7ba0
  | slot => 0x7c80
  | segment => 0x7c9c
  | flush => 0x7cb0
  | format => 0x8100
  | header => 0x8140
  | buffer => 0x81c4

def limit : Request → ℤ
  | segment | header => 2 ^ 31 - 1
  | _ => 0x100

def clearResult : Request → Bool
  | helper | command => true
  | _ => false

/-- In the order of the table. -/
def all : List Request := [helper, command, slot, segment, flush, format, header, buffer]

end Request

section Header

def streamHeader (header : ℕ) : Device :=
  let buffer := header / 256 % 256
  let count := (d.window 0x8144).toInt
  if buffer ≠ 1 ∧ buffer ≠ 2 then d
  else if header / 2 ^ 24 = 1 then
    if 0 ≤ count then { d with streamBuffer := buffer } else d
  else if header / 2 ^ 24 ≠ 2 then d
  else
    let level := if buffer = 1 then levelBuffer1 else levelBuffer2
    let count := if count < 0 then 20 else count
    let was := (d.window level).toInt
    d.stl level (word (if count < was then was - count else 0))

def statusRecord (header : ℕ) : Device :=
  let buffer := header / 256 % 256
  let k := d.deck
  if ¬c.statusRecord ∨ header / 2 ^ 16 % 256 ≠ 1 ∨ (buffer ≠ 1 ∧ buffer ≠ 2) then d
  else if c.statusCurrent then
    let current := if buffer = 1 ∧ (k.posRecord = 0 ∨ k.posState = .unloaded) then k.fmtRecord
      else k.posRecord
    let current := if current = 0 ∧ c.statusFirst then k.firstRecord else current
    if current = 0 then d
    else { d with window := (d.window.stb 0x81a4 current).stb 0x8184 current }
  else { d with window := d.window.stb (if buffer = 1 then 0x81a4 else 0x8184) k.fmtRecord }

def openMove (header : ℕ) (k : Deck) : Deck :=
  if header / 2 ^ 24 ≠ 1 ∨ ¬c.posReport ∨ ¬k.fmtSeen then k
  else
    let known := k.fmtRecord ∈ k.recQueue
    let k := if ¬known ∧ k.recQueue.length < 10 then
        { k with recQueue := k.recQueue ++ [k.fmtRecord] }
      else k
    if header / 256 % 256 ≠ 1 ∨ known then k
    else if k.posRecord = 0 ∨ k.posState = .unloaded then
      { k with
        seekApplied := (0, 0, 0)
        seekArmed := true
        posRecord := k.fmtRecord
        posMs := 0
        cueMs := 0
        posState := .standing }
    else k

def streamOpen (header : ℕ) : Device :=
  if header / 2 ^ 24 ≠ 1 ∨ ¬c.posReport ∨ ¬d.deck.fmtSeen then d
  else
    let added := d.deck.fmtRecord ∉ d.deck.recQueue ∧ d.deck.recQueue.length < 10
    let out := { statusRecord c d header with deck := openMove c header d.deck }
    if added ∧ c.events then out.event 0x0500 else out

/-- A stream that starts from a frame places the deck there, once. -/
def seekMove (header : ℕ) (p26 p27 p28 : Word) (k : Deck) : Deck :=
  if header / 2 ^ 24 ≠ 1 ∨ ¬c.posReport ∨ (p26 = 0 ∧ p27 = 0 ∧ p28 = 0) ∨
      header / 256 % 256 ≠ 1 then k
  else if (p26, p27, p28) = k.seekApplied then k
  else if ¬k.seekArmed then k
  else if ¬k.fmtSeen ∨ k.fmtRecord ≠ k.posRecord then k
  else
    let ms : ℤ := ((p28.toNat * 1152 + p27.toNat) * 1000 / 44100 : ℕ)
    { k with
      seekArmed := false
      seekApplied := (p26, p27, p28)
      posMs := ms
      cueMs := ms
      posLastNs := now }

def streamSeek (header : ℕ) : Device :=
  { d with deck :=
    seekMove c now header (d.window 0x8154) (d.window 0x8158) (d.window 0x815c) d.deck }

end Header

section Commands

def formatRecord (value : ℤ) (record : Word) (k : Deck) : Deck :=
  if 2 ≤ value ∧ value ≤ 4 then { k with fmtRecord := record, fmtSeen := true } else k

/-- A load begins, or the deck is unloaded: no stream open. -/
def recordsForgotten (value : ℤ) (k : Deck) : Deck :=
  if value = 1 ∨ value = 5 then { k with recQueue := [] } else k

def flushMove (value : ℤ) (k : Deck) : Deck :=
  let k := if value = 1 then
      loopsClear { k with hotMs := fun i => if i < hotSlots then -1 else k.hotMs i }
    else k
  if (value = 1 ∨ value = 2) ∧ c.flushReset then
    { k with
      recQueue := []
      posRecord := 0
      firstRecord := 0
      posMs := 0
      posState := .unloaded
      loopOn := false }
  else k

def flushWindow (value : ℤ) (w : Window) : Window :=
  if (value = 1 ∨ value = 2) ∧ c.flushReset then
    let w := (w.zero 0x7c10 0x20).zero 0x8180 0x40
    (((w.stl levelBuffer1 0).stl levelBuffer2 0).stl 0x81c4 0).stl 0x7cd4 0xff
  else w

def slotMove (jump : Bool) (slot : ℕ) (k : Deck) : Deck :=
  if slot = 0 ∧ ¬jump then
    let k := { k with cueMs := k.posMs }
    if c.loopInSlot0 then { k with loopInMs := k.posMs, loopOn := false } else k
  else if slot = 0 then { k with posMs := k.cueMs }
  else if hotSlots ≤ slot then k
  else if c.loopSlots ∧ loopOutSlot ≤ slot then
    let n := slot - loopOutSlot
    let start := loopIn k n
    let k := if ¬jump then
        { k with hotMs := update k.hotMs slot k.posMs, loopBuilt := update k.loopBuilt n true }
      else k
    if 0 ≤ start ∧ start < k.hotMs slot then
      { k with
        loopInMs := start
        loopOutMs := k.hotMs slot
        loopOn := true
        posMs := if jump then start else k.posMs }
    else k
  else if ¬jump then
    if k.hotMs slot < 0 then { k with hotMs := update k.hotMs slot k.posMs } else k
  else if 0 ≤ k.hotMs slot then { k with posMs := k.hotMs slot } else k

/-- The slot a command names: the codes with bit 1 set count from slot 5. -/
def slotOf (value : ℤ) (parameter : Word) : ℕ :=
  (parameter + if value = 0x12 ∨ value = 0x22 then 5 else 0).toNat

def IsSlotCommand (value : ℤ) : Prop :=
  value = 0x11 ∨ value = 0x12 ∨ value = 0x21 ∨ value = 0x22

instance (value : ℤ) : Decidable (IsSlotCommand value) := instDecidableOr

def isJump (value : ℤ) : Bool := value = 0x21 ∨ value = 0x22

/-- +0x7c80 on the deck; with `CDJ_DSP_STATES=0` a jump also starts it. -/
def slotDeck (value : ℤ) (parameter : Word) (k : Deck) : Deck :=
  if ¬c.posReport ∨ ¬IsSlotCommand value then k
  else
    let slot := slotOf value parameter
    let k : Deck := { slotMove c (isJump value) slot k with posLastNs := now }
    if isJump value ∧ slot < hotSlots ∧ ¬c.states433 ∧ (slot = 0 ∨ 0 ≤ k.hotMs slot) then
      { k with posState := if k.posStandby then .standing else .playing }
    else k

/-- +0x7c80. -/
def slotCommand (value : ℤ) : Device :=
  let slot := slotOf value (d.window 0x7c84)
  let k := slotDeck c now value (d.window 0x7c84) d.deck
  let d := { d with deck := k }
  if ¬c.posReport ∨ ¬IsSlotCommand value then d
  else if slot < hotSlots ∧ (¬isJump value ∨ slot = 0 ∨ 0 ≤ k.hotMs slot) then
    slotEntry c (slotMsg c d slot) slot (if slot = 0 then k.cueMs else k.hotMs slot)
  else d

def pointMs (sub half : Word) : ℤ :=
  (half.toNat * 1000 / 150 + (sub * 1000 / 44100).toNat : ℕ)

/-- What segment command `code` with slot `slot` and point `point` does to the deck. -/
def segmentMove (slot code : ℕ) (point : ℤ) (k : Deck) : Deck :=
  if c.loopSelect ∧ slot < loopOutSlot ∧
      (code = 1 ∨ code = 2 ∨ code = 9 ∨ code = 0xc ∨ code = 0xd) then
    if code = 1 then
      let k := if slot = 0 then { k with cueMs := point, loopInMs := point }
        else { k with hotMs := update k.hotMs slot point }
      { k with
        hotMs := update k.hotMs (loopOutSlot + slot) (-1)
        loopBuilt := update k.loopBuilt slot false }
    else if code = 2 then
      { k with
        hotMs := update k.hotMs (loopOutSlot + slot) point
        loopBuilt := update k.loopBuilt slot true }
    else if code = 9 then
      { k with
        segEndMs := update k.segEndMs slot point
        segEndValid := update k.segEndValid slot true }
    else if code = 0xc then { k with segEndValid := update k.segEndValid slot false }
    else
      { k with
        segEndValid := fun n => if n < loopOutSlot then false else k.segEndValid n }
  else if code = 1 ∧ 1 ≤ slot ∧ slot < hotSlots then
    { k with hotMs := update k.hotMs slot point }
  else if code = 2 ∧ 1 ≤ slot then k
  else if code = 1 then { k with loopInMs := point, loopOn := false }
  else if code = 2 then { k with loopOutMs := point, loopOn := decide (k.loopInMs < point) }
  else if code = 0xc ∧ k.loopOn then { k with loopOn := false }
  else k

/-- +0x7c9c on the deck: the segment slot plus one in the high nibble, the command in the low
one. -/
def segmentDeck (value : ℤ) (sub half : Word) (k : Deck) : Deck :=
  if ¬c.posReport then k
  else segmentMove c ((value / 16 % 16).toNat - 1) (value % 16).toNat (pointMs sub half) k

def formatCommand (value : ℤ) (record : Word) (k : Deck) : Deck :=
  let k := if value = 3 ∧ k.firstRecord = 0 then { k with firstRecord := record } else k
  if value = 2 ∧ c.posReport then
    { k with posRecord := record, posMs := 0, posState := .standing }
  else k

def stateMove433 (value : ℤ) (k : Deck) : Deck :=
  let k := if 2 ≤ value then
      { k with posStandby := decide (value = 4), seekArmed := k.seekArmed && decide (value = 4) }
    else k
  if value = 2 ∨ value = 5 then
    { k with
      posLastNs := if k.posState ≠ .playing then now else k.posLastNs
      posState := .playing }
  else if value ≠ 1 ∨ k.posState = .playing then { k with posState := .standing }
  else k

/-- The same with `CDJ_DSP_STATES=0`: 3 runs, everything else stands. -/
def stateMove (value : ℤ) (k : Deck) : Deck :=
  let k := { k with
    posStandby := decide (value = 4)
    seekArmed := k.seekArmed && decide (value = 4) }
  if value = 3 then { k with posState := .playing, posLastNs := now }
  else { k with posState := .standing }

def stateDeck (value : ℤ) (k : Deck) : Deck :=
  if c.posReport ∧ c.states433 ∧ 1 ≤ value ∧ value ≤ 8 then
    let k := stateMove433 now value k
    if value = 7 ∧ c.autoCue then { k with cueMs := k.posMs } else k
  else if c.posReport ∧ ¬c.states433 ∧ 2 ≤ value ∧ value ≤ 6 then stateMove now value k
  else k

def stateRequest (value : ℤ) : Device :=
  let d := { d with deck := stateDeck c now value d.deck }
  if c.posReport ∧ c.states433 ∧ 1 ≤ value ∧ value ≤ 8 then
    let d := d.stl 0x7bf8 (word value)
    if value = 7 ∧ c.autoCue then slotEntry c (d.stl 0x7bf8 8) 0 d.deck.cueMs else d
  else d

/-- `CDJ_DSP_SLOT_REPORT`'s part of +0x7ba0. -/
def slotReportRequest (value : ℤ) : Device :=
  if ¬c.slotReport then d
  else if value = 4 then { d with sawLoadEnd := true }
  else if value = 2 ∧ d.sawLoadEnd ∧ d.slotState = 0 then slotReport c now d c.slotLoadedState
  else if value = 3 ∧ d.slotState ≠ 0 ∧ d.slotState ≠ 3 then slotReport c now d 3
  else d

def prepare (value : ℤ) : Request → Device
  | .command => { d with deck := recordsForgotten value d.deck }
  | .flush => { d with deck := flushMove c value d.deck, window := flushWindow c value d.window }
  | .format => { d with deck := formatRecord value (d.window 0x8120) d.deck }
  | .header =>
    streamSeek c now (streamOpen c (streamHeader d value.toNat) value.toNat) value.toNat
  | _ => d

def clear (r : Request) : Device :=
  let d := d.stl r.offset 0
  if r.clearResult then d.stl (r.offset + 4) 0 else d

def perform (value : ℤ) : Request → Device
  | .command => slotReportRequest c now (stateRequest c now d value) value
  | .slot => slotCommand c now d value
  | .segment =>
    { d with deck := segmentDeck c value (d.window 0x7ca4) (d.window 0x7ca8) d.deck }
  | .format => { d with deck := formatCommand c value (d.window 0x8120) d.deck }
  | _ => d

/-- One pass of the loop over `dsp_ack_words`. -/
def acknowledge (r : Request) : Device :=
  let value := (d.window r.offset).toInt
  if value ≤ 0 ∨ r.limit ≤ value then d
  else perform c now (clear (prepare c now d value r) r) value r

/-- The model answers MAIN's requests. -/
def Answers : Prop := c.ackControl ∧ d.running ∧ ¬c.absent

instance : Decidable (Answers c d) := instDecidableAnd

def commands : Device :=
  if Answers c d then Request.all.foldl (acknowledge c now) d else d

end Commands

section Jobs

/-- A job is posted and its word free. -/
def JobReady : Prop :=
  c.jobAnswer ∧ d.running ∧ ¬c.absent ∧ d.controlCleared ∧ 0 < (d.window 0x7ba4).toInt ∧
    d.window 0x7ba0 = 0

instance : Decidable (JobReady c d) := instDecidableAnd

/-- The CD frames a job of `count` half frames takes, of the `stored` that are there. -/
def jobTake (count stored : ℤ) : ℤ :=
  min ((if count < 0 then int32 (int32 (-count) + 1) else int32 (count + 1)).tdiv 2) stored

/-- `CDJ_DSP_JOB_CONSUME`: the frames go from the level ahead to the one behind, or back. -/
def jobConsume : Device :=
  let count := (d.window 0x7ba8).toInt
  let source := if count < 0 then levelBuffer2 else levelBuffer1
  let target := if count < 0 then levelBuffer1 else levelBuffer2
  let used := if count < 0 then 0x8180 else 0x81a0
  let stored := (d.window source).toInt
  let take := jobTake count stored
  let d := d.stl source (word (stored - take))
  let d := d.stl target (word ((d.window target).toInt + take))
  d.stl used (d.window used + word take)

/-- `CDJ_DSP_JOB_ADVANCE`: the position moves by the count, in whole half frames. -/
def jobAdvance : Device :=
  let count := (d.window 0x7ba8).toInt
  if d.window 0x7bac = 0 ∧ count ≠ 0 then
    let half := max ((d.deck.posMs * 150).tdiv 1000 + count) 0
    let ms := (half * 1000 + 149).tdiv 150
    { d with deck := { d.deck with posMs := ms, cueMs := ms, posLastNs := now } }
  else d

def job : Device :=
  let d := { d with jobs := d.jobs + 1, deck := { d.deck with seekArmed := false } }.stl 0x7ba4 0
  let d := if c.jobConsume then jobConsume d else d
  let d := if c.jobAdvance then jobAdvance now d else d
  if c.events then d.post 0x0500 else d

def jobs : Device := if JobReady c d then job c now d else d

end Jobs

section Rest

def probe : Device :=
  if c.probeIntervalNs ≠ 0 ∧ d.running ∧ ¬c.absent ∧ d.probeNext < c.probeList.length ∧
      c.probeStartNs ≤ now ∧ c.probeIntervalNs ≤ now - d.probeLastNs then
    { d with probeLastNs := now, probeNext := d.probeNext + 1 }.post
      (c.probeList.getD d.probeNext 0)
  else d

def slotPeriod : Device :=
  if d.slotState = 3 ∧ c.slotPeriodNs ≠ 0 ∧ d.running ∧ c.slotPeriodNs ≤ now - d.slotLastNs then
    slotReport c now { d with
      slotPosMs := d.slotPosMs + (now - d.slotLastNs).tdiv 1000000
      slotLastNs := now } 3
  else d

def statusFlags : Device :=
  let playing := decide (d.slotState = 3)
  if c.statusFlags ∧ playing ≠ d.statusFlagsSet then
    let b1 := d.window 0x81ac
    let b2 := d.window 0x818c
    let w := d.window.stl 0x81ac (if playing then b1 ||| 0x1000000 else b1 &&& ~~~0x1000000)
    let w := w.stl 0x818c (if playing then b2 ||| 0x2000000 else b2 &&& ~~~0x2000000)
    { d with window := w, statusFlagsSet := playing }
  else d

def consume (elapsedMs : ℤ) : Device :=
  if 0 < c.consumeRate ∧ d.slotState = 3 ∧ 0 < elapsedMs then
    let carry := d.consumeCarryMs + elapsedMs
    let units := (carry * c.consumeRate).tdiv 1000
    if 0 < units then
      let level := (d.window levelBuffer1).toInt
      let level := if units < level then level - units else 0
      let w := d.window.stl levelBuffer1 (word level)
      let d := { d with
        window := w.stl 0x81a0 (w 0x81a0 + word units)
        consumeCarryMs := carry - (units * 1000).tdiv c.consumeRate
        consumed := d.consumed + units }
      if c.refillEvent ≠ 0 ∧ level < c.refillLow ∧ ¬d.refillAsked then
        { d with refillAsked := true }.post c.refillEvent
      else if c.refillLow ≤ level then { d with refillAsked := false }
      else d
    else { d with consumeCarryMs := carry }
  else d

def transportStep (elapsedMs : ℤ) : Device :=
  if d.transport ≠ .playing ∨ elapsedMs ≤ 0 then d
  else { d with
    positionMs := d.positionMs + elapsedMs + (elapsedMs * d.tempoPpm).tdiv 1000000 }

end Rest

def report : Device :=
  if c.posReport ∧ d.running ∧ ¬c.absent then positionReport c now d else d

/-- What a tick does after its position report. -/
def rest (elapsedMs : ℤ) : Device :=
  transportStep (consume c (statusFlags c (slotPeriod c now (probe c now d))) elapsedMs) elapsedMs

def select : Device :=
  if c.loopSelect then { d with deck := loopSelect (d.window 0x7bc8) d.deck } else d

/-- What a tick does before the job block looks at the window. -/
def scanned : Device := commands c now (select c { d with lastTickNs := now })

def tick : Device :=
  rest c now (report c now (jobs c now (scanned c now d))) ((now - d.lastTickNs).tdiv scaleMs)

def positionTick : Device :=
  if c.posReport ∧ d.running ∧ ¬c.absent ∧ d.deck.posState = .playing then positionReport c now d
  else d

/-- What reaches the model: MAIN's stores into the window, and the two timers. -/
inductive Step
  | guest (window : Window)
  | tick (now : ℤ)
  | positionTick (now : ℤ)

def step (d : Device) : Step → Device
  | .guest window => { d with window }
  | .tick now => tick c now d
  | .positionTick now => positionTick c now d

def run (d : Device) (steps : List Step) : Device := steps.foldl (step c) d

section Start

/-- The switches of a run with `CDJ_DSP_ACK` and `CDJ_DSP_POSITION`. -/
def Config.standard : Config where
  absent := false
  ackControl := true
  slotReport := false
  slotLoadedState := 0
  slotEvent := 0x100
  playEvent := 0
  slotPeriodNs := 500 * 1000000
  consumeRate := 0
  statusFlags := false
  refillEvent := 0
  refillLow := 20
  posReport := true
  loopSelect := true
  flushReset := true
  jobAnswer := true
  jobConsume := true
  jobAdvance := true
  events := true
  slotMsg := false
  slotReadyEvent := false
  states433 := true
  loopInSlot0 := true
  loopSlots := true
  slotEntry := true
  autoCue := true
  statusRecord := true
  statusCurrent := true
  statusFirst := true
  probeStartNs := 0
  probeIntervalNs := 0
  probeList := []

/-- The model at time 0, once MAIN has seen the DSP up. -/
def Device.started : Device where
  window := fun _ => 0
  posted := []
  running := true
  controlCleared := true
  streamBuffer := 0
  deck := {
    posState := .unloaded
    posMs := 0
    cueMs := 0
    hotMs := fun _ => -1
    posLastNs := 0
    posRemNs := 0
    posStandby := false
    rateValidSeen := false
    loopInMs := 0
    loopOutMs := 0
    loopOn := false
    segEndMs := fun _ => -1
    segEndValid := fun _ => false
    loopBuilt := fun _ => false
    posRecord := 0
    fmtRecord := 0
    fmtSeen := false
    firstRecord := 0
    seekApplied := (0, 0, 0)
    seekArmed := false
    recQueue := [] }
  jobs := 0
  sawLoadEnd := false
  slotState := 0
  slotPosMs := 0
  slotLastNs := 0
  statusFlagsSet := false
  consumeCarryMs := 0
  consumed := 0
  refillAsked := false
  reportId := 0
  probeLastNs := 0
  probeNext := 0
  lastTickNs := 0
  transport := .stopped
  positionMs := 0
  tempoPpm := 0

end Start

end Cdj2000Emulator.Dsp.Model
