/-!
# GridFold.Rect.Basic

Index rectangles. A `Rect` is a list of one to four inclusive coordinate ranges, outermost axis
first. A range whose upper end lies below its lower one is empty, and then so is the rectangle.

Coordinates are exact integers. Task arrays have rank 1 to `maxTaskRank`; a store may carry one
stacking axis more, so rectangles go up to `maxStoreRank`.
-/

namespace GridFold

def maxTaskRank : Nat := 3

def maxStoreRank : Nat := maxTaskRank + 1

/-- One coordinate per axis, outermost first. -/
abbrev Point := List Int

/-- Items between square brackets, separated by commas. -/
def bracketed (items : List String) : String := "[" ++ ", ".intercalate items ++ "]"

def Point.text (p : Point) : String := bracketed (p.map toString)

/-- The coordinates from `lo` to `hi`, both included. -/
structure Span where
  lo : Int
  hi : Int
  deriving DecidableEq

namespace Span

def isEmpty (s : Span) : Bool := decide (s.hi < s.lo)

def extent (s : Span) : Nat := (s.hi - s.lo + 1).toNat

def contains (s : Span) (c : Int) : Bool := decide (s.lo ≤ c) && decide (c ≤ s.hi)

/-- Both ends of `t` lie within the ends of `s`. -/
def covers (s t : Span) : Bool := decide (s.lo ≤ t.lo) && decide (t.hi ≤ s.hi)

def coords (s : Span) : List Int := (List.range s.extent).map fun i => s.lo + Int.ofNat i

def text (s : Span) : String := toString s.lo ++ "..=" ++ toString s.hi

end Span

structure Rect where
  spans : List Span
  rank_pos : 0 < spans.length
  rank_le : spans.length ≤ maxStoreRank
  deriving DecidableEq

namespace Rect

def rank (r : Rect) : Nat := r.spans.length

def lo (r : Rect) : Point := r.spans.map Span.lo

def hi (r : Rect) : Point := r.spans.map Span.hi

def isEmpty (r : Rect) : Bool := r.spans.any Span.isEmpty

def extents (r : Rect) : List Nat := r.spans.map Span.extent

/-- The number of points that have a coordinate in each of the spans. -/
def spansVolume : List Span → Nat
  | [] => 1
  | s :: spans => s.extent * spansVolume spans

def volume (r : Rect) : Nat := spansVolume r.spans

/-- The point has one coordinate for each span, and each lies in its span. -/
def spansContain : List Span → Point → Bool
  | [], [] => true
  | s :: spans, c :: p => s.contains c && spansContain spans p
  | _, _ => false

def containsPoint (r : Rect) (p : Point) : Bool := spansContain r.spans p

/-- Each span of the first list covers the one in its place in the second. -/
def spansCover : List Span → List Span → Bool
  | [], [] => true
  | s :: spans, t :: others => s.covers t && spansCover spans others
  | _, _ => false

/-- An empty rectangle of the same rank is contained wherever its corners lie. -/
def contains (r other : Rect) : Bool :=
  decide (other.rank = r.rank) && (other.isEmpty || spansCover r.spans other.spans)

def text (r : Rect) : String := bracketed (r.spans.map Span.text)

end Rect

end GridFold
