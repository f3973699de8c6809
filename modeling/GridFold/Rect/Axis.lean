import GridFold.Failure

/-!
# GridFold.Rect.Axis

Building rectangles, and taking axes out of and into them. Every result has rank 1 to 4; the
operations refuse where it would not.
-/

namespace GridFold.Rect

/-- The rectangle with these spans, if a store can have as many axes. -/
def ofSpans (spans : List Span) : Except GridError Rect :=
  if h : 0 < spans.length ∧ spans.length ≤ maxStoreRank then .ok ⟨spans, h.1, h.2⟩
  else .error (.unsupportedRank spans.length 1 maxStoreRank)

/-- The rectangle between two corners. -/
def ofCorners (lo hi : Point) : Except GridError Rect :=
  if lo.length = hi.length then ofSpans (lo.zipWith Span.mk hi)
  else .error (.rankMismatch lo.length hi.length)

def removeAxis (r : Rect) (axis : Nat) : Except GridError Rect :=
  if axis < r.rank then ofSpans (r.spans.eraseIdx axis)
  else .error (.invalidAxis axis r.rank)

/-- Puts `span` in front of the axis at `axis`, or behind all axes where `axis` is the rank. -/
def insertAxis (r : Rect) (axis : Nat) (span : Span) : Except GridError Rect :=
  if axis ≤ r.rank then ofSpans (r.spans.insertIdx axis span)
  else .error (.invalidAxis axis r.rank)

theorem ofSpans_spans (r : Rect) : ofSpans r.spans = .ok r := by
  simp [ofSpans, r.rank_pos, r.rank_le]

theorem spans_of_ofSpans {spans : List Span} {r : Rect} (h : ofSpans spans = .ok r) :
    r.spans = spans := by
  unfold ofSpans at h
  split at h
  · cases h; rfl
  · cases h

end GridFold.Rect
