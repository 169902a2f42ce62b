import Cdj2000Emulator.Library.Bytes
import Mathlib.Data.Fintype.Basic

namespace Cdj2000Emulator.Display

open Library.Bytes

inductive Color
  | rgb555Le
  | rgb565
  | bgr565
  | rgb888
  | bgr888
  | rgba8888
  deriving DecidableEq

/-- `bytes_per_pixel` of `color_spaces`. -/
def Color.bytesPerPixel : Color → ℕ
  | .rgb555Le | .rgb565 | .bgr565 => 2
  | .rgb888 | .bgr888 => 3
  | .rgba8888 => 4

structure Pixel where
  r : Byte
  g : Byte
  b : Byte
  deriving DecidableEq

def black : Pixel := ⟨0, 0, 0⟩

def spread5 (v : BitVec 32) : Byte := (v <<< 3 ||| v >>> 2).setWidth 8

def spread6 (v : BitVec 32) : Byte := (v <<< 2 ||| v >>> 4).setWidth 8

/-- One pixel of `bfin_gui_convert_line`. -/
def convertPixel (color : Color) (source : ℕ → Byte) : Pixel :=
  let low := (source 0).setWidth 32
  let high := (source 1).setWidth 32
  match color with
  | .rgb555Le =>
    let pixel := low ||| high <<< 8
    ⟨spread5 (pixel >>> 10 &&& 0x1f), spread5 (pixel >>> 5 &&& 0x1f), spread5 (pixel &&& 0x1f)⟩
  | .rgb565 =>
    -- RGB565 comes most significant byte first, BGR565 the other way round.
    let pixel := low <<< 8 ||| high
    ⟨spread5 (pixel >>> 11 &&& 0x1f), spread6 (pixel >>> 5 &&& 0x3f), spread5 (pixel &&& 0x1f)⟩
  | .bgr565 =>
    let pixel := low ||| high <<< 8
    ⟨spread5 (pixel &&& 0x1f), spread6 (pixel >>> 5 &&& 0x3f), spread5 (pixel >>> 11 &&& 0x1f)⟩
  | .bgr888 => ⟨source 2, source 1, source 0⟩
  | .rgb888 | .rgba8888 => ⟨source 0, source 1, source 2⟩

theorem convertPixel_zero (color : Color) : convertPixel color (fun _ ↦ 0) = black := by
  cases color <;> decide

/-- `BFIN_JOG_RECT` and `BFIN_JOG_BLANK`. -/
structure Jog where
  x : ℤ
  y : ℤ
  w : ℤ
  h : ℤ
  blank : Bool

namespace Jog

variable (j : Jog) (width height : ℕ)

def x0 : ℤ := if j.x < 0 then 0 else j.x
def y0 : ℤ := if j.y < 0 then 0 else j.y
def x1 : ℤ := if (width : ℤ) < j.x + j.w then width else j.x + j.w
def y1 : ℤ := if (height : ℤ) < j.y + j.h then height else j.y + j.h

/-- The rectangle has pixels in the picture. -/
def present : Bool := decide (0 < j.x1 width - j.x0) && decide (0 < j.y1 height - j.y0)

def row (y : ℕ) : Bool := decide (j.y0 ≤ y) && decide (y < j.y1 height)
def col (x : ℕ) : Bool := decide (j.x0 ≤ x) && decide (x < j.x1 width)

end Jog

/-- The size, the format and the options of a display. -/
structure Setup where
  width : ℕ
  height : ℕ
  color : Color
  rawOutput : Bool
  bestOutput : Bool
  detailOutput : Bool
  always : Bool
  jog : Option Jog

namespace Setup

variable (s : Setup)

abbrev lineBytes : ℕ := s.width * s.color.bytesPerPixel

abbrev Line := Block s.lineBytes

abbrev Image := Fin s.height → Fin s.width → Pixel

abbrev Raw := Fin s.height → s.Line

def scoring : Bool := s.bestOutput || s.detailOutput

def convert (line : s.Line) (x : Fin s.width) : Pixel :=
  convertPixel s.color fun i ↦ Block.get line (x * s.color.bytesPerPixel + i)

def lineOf (source : List Byte) : Option s.Line :=
  if source.length < s.lineBytes then none else some fun i ↦ source.getD i 0

end Setup

/-- What is on disk: the images of the main file, of the best and of the detail file in the order in which
they were written, and the last contents of the raw file and of the jog file. -/
structure Output (s : Setup) where
  main : List s.Image
  raw : Option s.Raw
  jog : Option (List (List Pixel))
  best : List s.Image
  detail : List s.Image

/-- `struct gui_state`, with `bfin_stat_frames`. -/
structure Gui (s : Setup) where
  rgb : s.Image
  raw : ℕ → s.Line
  published : Option s.Image
  frameChanged : Bool
  currLine : ℕ
  frameScore : ℕ
  bestScore : ℕ
  frameDetail : ℕ
  bestDetail : ℕ
  frames : ℕ
  output : Output s

def count (previous : Pixel) : List Pixel → ℕ × ℕ → ℕ × ℕ
  | [], counts => counts
  | pixel :: pixels, (score, detail) =>
    let score := if pixel ≠ black then score + 1 else score
    count pixel pixels (if pixel ≠ previous then (score + 64, detail + 1) else (score, detail))

namespace Gui

variable {s : Setup}

def setup (s : Setup) : Gui s where
  rgb := fun _ _ ↦ black
  raw := fun _ ↦ Block.zeros
  published := none
  frameChanged := false
  currLine := 0
  frameScore := 0
  bestScore := 0
  frameDetail := 0
  bestDetail := 0
  frames := 0
  output := ⟨[], none, none, [], []⟩

def convertLine (line : s.Line) (g : Gui s) : Gui s :=
  let counts := if s.scoring then count black (List.ofFn (s.convert line)) (g.frameScore, g.frameDetail)
    else (g.frameScore, g.frameDetail)
  { g with
    rgb := fun y ↦ if y = g.currLine then s.convert line else g.rgb y
    frameScore := counts.1
    frameDetail := counts.2 }

def storeLine (line : s.Line) (g : Gui s) : Gui s :=
  { g with raw := fun y ↦ if y = g.currLine then line else g.raw y }

def handleJog (g : Gui s) : Gui s :=
  match s.jog with
  | none => g
  | some j =>
    if !j.present s.width s.height then g
    else
      let rows := (List.finRange s.height).filter fun y : Fin s.height ↦ j.row s.height y
      let cols := (List.finRange s.width).filter fun x : Fin s.width ↦ j.col s.width x
      { g with
        output := { g.output with jog := some (rows.map fun y ↦ cols.map (g.rgb y)) }
        rgb := if j.blank then fun y x ↦ if j.row s.height y && j.col s.width x then black else g.rgb y x
          else g.rgb }

/-- `bfin_gui_write_frame_to` the main file and `bfin_gui_write_raw_frame`. -/
def publish (g : Gui s) : Gui s :=
  { g with
    published := some g.rgb
    output := { g.output with
      main := g.output.main ++ [g.rgb]
      raw := if s.rawOutput then some fun y ↦ g.raw y else g.output.raw } }

def chooseBest (g : Gui s) : Gui s :=
  if s.bestOutput && decide (g.bestScore < g.frameScore) then
    { g with bestScore := g.frameScore, output := { g.output with best := g.output.best ++ [g.rgb] } }
  else g

def chooseDetail (g : Gui s) : Gui s :=
  if s.detailOutput && decide (g.bestDetail < g.frameDetail) then
    { g with bestDetail := g.frameDetail, output := { g.output with detail := g.output.detail ++ [g.rgb] } }
  else g

def finish (due : Bool) (g : Gui s) : Gui s :=
  let g := if due then g.publish else g
  let g := { g with frameChanged := false }.chooseBest.chooseDetail
  { g with frameScore := 0, frameDetail := 0 }

def top (g : Gui s) : Gui s := { g with frames := g.frames + 1, currLine := 0 }.handleJog

def frameComplete (g : Gui s) : Gui s :=
  let g := g.top
  g.finish (s.always || g.published.isNone || g.frameChanged && g.published != some g.rgb)

def frameSync (g : Gui s) : Gui s := if g.currLine ≠ 0 then g.frameComplete else g

/-- A line of `bfin_gui_update` goes to its place. -/
def scan (line : s.Line) (g : Gui s) : Gui s :=
  let g := if s.scoring || g.raw g.currLine != line then
      { (g.storeLine line).convertLine line with frameChanged := true }
    else g
  { g with currLine := g.currLine + 1 }

/-- `bfin_gui_update`, with the number of bytes that it takes. -/
def update (source : List Byte) (g : Gui s) : Gui s × ℕ :=
  match s.lineOf source with
  | none => (g, 0)
  | some line =>
    let g := g.scan line
    (if g.currLine = s.height then g.frameComplete else g, source.length)

end Gui

namespace Plain

variable {s : Setup}

def frameComplete (g : Gui s) : Gui s :=
  let g := g.top
  g.finish (s.always || g.published != some g.rgb)

def frameSync (g : Gui s) : Gui s := if g.currLine ≠ 0 then frameComplete g else g

def scan (line : s.Line) (g : Gui s) : Gui s :=
  let g := (g.storeLine line).convertLine line
  { g with currLine := g.currLine + 1 }

def update (source : List Byte) (g : Gui s) : Gui s × ℕ :=
  match s.lineOf source with
  | none => (g, 0)
  | some line =>
    let g := scan line g
    (if g.currLine = s.height then frameComplete g else g, source.length)

end Plain

/-- What the PPI brings. -/
inductive Input
  | scanline (source : List Byte)
  | frameSync

variable {s : Setup}

def Gui.handle (g : Gui s) : Input → Gui s
  | .scanline source => (g.update source).1
  | .frameSync => g.frameSync

def Plain.handle (g : Gui s) : Input → Gui s
  | .scanline source => (update source g).1
  | .frameSync => frameSync g

def Gui.run (g : Gui s) (inputs : List Input) : Gui s := inputs.foldl Gui.handle g

def Plain.run (g : Gui s) (inputs : List Input) : Gui s := inputs.foldl handle g

end Cdj2000Emulator.Display
