import MemoryKit.Bytes

/-!
# The region between two marker lines

Generated text stands between the line that the begin marker ends and the end marker. A marker
counts where a line ends right after it; the first such place of each is taken.
-/

namespace MemoryKit.Source

open Bytes

/-! ## 1. Line ends -/

inductive Newline where
  | lf
  | crlf
  deriving DecidableEq, Repr

namespace Newline

def text : Newline → String
  | .lf => "\n"
  | .crlf => "\r\n"

def bytes : Newline → Bytes
  | .lf => [0x0A]
  | .crlf => [0x0D, 0x0A]

def leading? (s : Bytes) : Option Newline :=
  if (after? crlf.bytes s).isSome then some .crlf
  else if (after? lf.bytes s).isSome then some .lf
  else none

end Newline

/-! ## 2. Marker lines -/

/-- The line end after a marker, where the marker begins here and ends its line. -/
def markerHere? (marker s : Bytes) : Option Newline :=
  (after? marker s).bind Newline.leading?

/-- The first place of a marker line and the line end after it, given the offset at which the
search begins. -/
def markerFrom? (marker : Bytes) : (offset : Nat) → Bytes → Option (Nat × Newline)
  | _, [] => none
  | offset, b :: rest =>
    match markerHere? marker (b :: rest) with
    | some newline => some (offset, newline)
    | none => markerFrom? marker (offset + 1) rest

/-- The first place of a marker line and the line end after it; an empty marker has none. -/
def markerLine? (marker source : Bytes) : Option (Nat × Newline) :=
  if marker.isEmpty then none else markerFrom? marker 0 source

/-! ## 3. Regions -/

/-- The bytes from offset `start` up to offset `stop`, and the line end used around them. -/
structure Region where
  start : Nat
  stop : Nat
  newline : Newline
  deriving DecidableEq, Repr

inductive RegionError where
  /-- No line ends in this marker. -/
  | markerNotFound (marker : String)
  /-- The end marker stands before the end of the line that the begin marker ends. -/
  | markersOutOfOrder
  deriving DecidableEq, Repr

def findRegion (beginMarker endMarker : String) (source : Bytes) : Except RegionError Region :=
  match markerLine? (utf8 beginMarker) source with
  | none => .error (.markerNotFound beginMarker)
  | some (first, newline) =>
    match markerLine? (utf8 endMarker) source with
    | none => .error (.markerNotFound endMarker)
    | some (stop, _) =>
      let start := first + (utf8 beginMarker).length + newline.bytes.length
      if stop < start then .error .markersOutOfOrder else .ok ⟨start, stop, newline⟩

def Region.bytes (region : Region) (source : Bytes) : Bytes :=
  (source.drop region.start).take (region.stop - region.start)

def splice (source : Bytes) (region : Region) (generated : Bytes) : Bytes :=
  source.take region.start ++ generated ++ source.drop region.stop

end MemoryKit.Source
