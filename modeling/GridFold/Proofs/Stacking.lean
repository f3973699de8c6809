import GridFold.Proofs.Contents

/-!
# GridFold.Proofs.Stacking

An axis may be folded in pieces. The range of the axis is cut into consecutive spans, each of them is
collapsed into a slice of a stacked store of its own, and the slices are fanned in; that leaves what one
collapse of the whole range leaves.

* `Stacking` — the rectangles, and how the range is cut. `Stacking.Launches` — the argument bytes and
  points of all launches.
* `Stacking.stack_get` — the pieces, taken in any order, leave their folds in their slices.
* `fanIn_of_pieces` — the main result.
-/

namespace GridFold

open Wire

variable {α : Type}

def Rect.withSpan (r : Rect) (axis : Nat) (span : Span) : Rect where
  spans := r.spans.set axis span
  rank_pos := by rw [List.length_set]; exact r.rank_pos
  rank_le := by rw [List.length_set]; exact r.rank_le

/-- One axis of a rectangle, whose range is cut into consecutive spans, and a stack with one slice for
each span. -/
structure Stacking (α : Type) where
  source : Region α
  inRect : Rect
  axis : Nat
  span : Span
  initRect : Rect
  pieces : List Span
  /-- The spans of the stack, without the axis that numbers its slices. -/
  cover : Rect
  stackAxis : Nat
  stackBounds : Rect
  reads : source.Reads inRect none
  rank_le : inRect.rank ≤ maxTaskRank
  span_eq : inRect.spans[axis]? = some span
  init_eq : inRect.removeAxis axis = .ok initRect
  init_nonempty : initRect.isEmpty = false
  /-- The pieces are consecutive and make up the range; some of them may be empty. -/
  pieces_eq : pieces.flatMap Span.coords = span.coords
  pieces_pos : 0 < pieces.length
  cover_contains : cover.contains initRect = true
  stack_eq : cover.insertAxis stackAxis ⟨0, Int.ofNat pieces.length - 1⟩ = .ok stackBounds

/-- What the launches are given: one collapse for each piece, the fan-in of the stack, and one collapse of
the whole range. -/
structure Stacking.Launches (w : Stacking α) where
  pieceArgs : Nat → List UInt8
  piecePoint : Nat → Point
  radix : Int32
  fanInArgs : List UInt8
  fanInPoint : Point
  wholeArgs : List UInt8
  wholePoint : Point
  piece_decodes : ∀ (j : Nat) (h : j < w.pieces.length), CollapseArgs.decode (pieceArgs j) =
    .ok ⟨w.axis, some w.stackAxis, w.initRect, w.inRect.withSpan w.axis w.pieces[j]⟩
  piece_coord : ∀ j < w.pieces.length, (piecePoint j)[w.stackAxis]? = some (Int.ofNat j)
  fanIn_decodes : RadixArgs.decode fanInArgs = .ok ⟨radix, none, some w.stackAxis, w.initRect⟩
  fanIn_coord : fanInPoint[w.stackAxis]? = some 0
  radix_ge : Int.ofNat w.pieces.length ≤ radix.toInt
  radix_le : radix.toInt ≤ Int.ofNat maxFanIn
  whole_decodes : CollapseArgs.decode wholeArgs = .ok ⟨w.axis, none, w.initRect, w.inRect⟩

namespace Stacking

variable {w : Stacking α}

namespace Launches

def pieceContext (l : w.Launches) (j : Nat) (stacked : Store α) : TaskContext α :=
  ⟨l.pieceArgs j, [.readWrite stacked, w.source], [], l.piecePoint j⟩

def fanInContext (l : w.Launches) (out : Region α) (stacked : Store α) : TaskContext α :=
  ⟨l.fanInArgs, out :: List.replicate w.pieces.length (.readOnly stacked), [], l.fanInPoint⟩

def wholeContext (l : w.Launches) (out : Store α) : TaskContext α :=
  ⟨l.wholeArgs, [.readWrite out, w.source], [], l.wholePoint⟩

/-- Collapses the pieces into the stack, in the given order. -/
def stack [Element α] (l : w.Launches) (op : Operator α) (e : Nat → Executor) (order : List Nat)
    (stacked : Store α) : Option (Store α) :=
  order.foldlM (fun stacked j =>
    (Launch.body op (e j) .axisCollapse).output? (l.pieceContext j stacked)) stacked

end Launches

/-! ## The rectangles -/

theorem axis_lt (w : Stacking α) : w.axis < w.inRect.rank :=
  (List.getElem?_eq_some_iff.mp w.span_eq).1

theorem init_spans (w : Stacking α) : w.initRect.spans = w.inRect.spans.eraseIdx w.axis :=
  (Rect.removeAxis_inv w.init_eq).2

theorem init_rank (w : Stacking α) : w.initRect.rank + 1 = w.inRect.rank :=
  Rect.rank_of_removeAxis w.init_eq

theorem stack_spans (w : Stacking α) :
    w.stackBounds.spans =
      w.cover.spans.insertIdx w.stackAxis ⟨0, Int.ofNat w.pieces.length - 1⟩ ∧
      w.stackAxis ≤ w.cover.rank := by
  obtain ⟨haxis, hspans⟩ := Rect.insertAxis_inv w.stack_eq
  exact ⟨hspans, haxis⟩

theorem cover_rank (w : Stacking α) : w.initRect.rank = w.cover.rank :=
  (Rect.contains_iff.mp w.cover_contains).1

/-- The spans of a piece's rectangle: its own on the folded axis, and the others as before. -/
theorem piece_spans (w : Stacking α) (s : Span) :
    (w.inRect.withSpan w.axis s).spans[w.axis]? = some s ∧
      (w.inRect.withSpan w.axis s).spans.eraseIdx w.axis = w.initRect.spans := by
  constructor
  · exact List.getElem?_set_self w.axis_lt
  · rw [w.init_spans]
    exact List.eraseIdx_set_eq

theorem folds (w : Stacking α) (dim : Option Nat) (s : Span) :
    Folds ⟨w.axis, dim, w.initRect, w.inRect.withSpan w.axis s⟩ := by
  obtain ⟨hspan, hrest⟩ := w.piece_spans s
  have hrank : (w.inRect.withSpan w.axis s).rank = w.inRect.rank := List.length_set
  refine ⟨by rw [hrank]; exact w.axis_lt, by rw [hrank]; exact w.init_rank, ?_⟩
  intro p c hpc
  have := ((Rect.containsPoint_insertIdx hspan p c).mp hpc).2
  rwa [hrest] at this

theorem withSpan_span (w : Stacking α) : w.inRect.withSpan w.axis w.span = w.inRect := by
  have hspans : w.inRect.spans.set w.axis w.span = w.inRect.spans := by
    obtain ⟨h, hget⟩ := List.getElem?_eq_some_iff.mp w.span_eq
    rw [← hget]
    exact List.set_getElem_self h
  cases hr : w.inRect with
  | mk spans _ _ =>
    rw [hr] at hspans
    simp only [Rect.withSpan, hspans]

theorem mem_coords_of_piece {s : Span} (hs : s ∈ w.pieces) {c : Int} (hc : s.contains c = true) :
    w.span.contains c = true := by
  rw [← Span.mem_coords, ← w.pieces_eq]
  exact List.mem_flatMap.mpr ⟨s, hs, Span.mem_coords.mpr hc⟩

theorem reads_piece {s : Span} (hs : s ∈ w.pieces) :
    w.source.Reads (w.inRect.withSpan w.axis s) none := by
  have hrank : (w.inRect.withSpan w.axis s).rank = w.inRect.rank := List.length_set
  obtain ⟨hspan, hrest⟩ := w.piece_spans s
  refine w.reads.mono hrank ?_
  intro q hq
  obtain ⟨p, c, rfl, _⟩ := Rect.exists_eq_insertIdx (by rw [hrank]; exact w.axis_lt) hq
  obtain ⟨hc, hp⟩ := (Rect.containsPoint_insertIdx hspan p c).mp hq
  rw [hrest, w.init_spans] at hp
  exact (Rect.containsPoint_insertIdx w.span_eq p c).mpr ⟨mem_coords_of_piece hs hc, hp⟩

/-- The stack has room for the results of each piece. -/
theorem admits_slice {stacked : Store α} (hb : stacked.bounds = w.stackBounds) {j : Nat}
    (hj : j < w.pieces.length) :
    stacked.Admits w.initRect (some ⟨w.stackAxis, Int.ofNat j⟩) := by
  obtain ⟨hspans, haxis⟩ := w.stack_spans
  have hrank : stacked.rank = w.cover.rank + 1 := by
    rw [Store.rank, hb, Rect.rank, hspans]
    exact List.length_insertIdx_of_le_length haxis _
  refine ⟨⟨by rw [hrank, w.cover_rank], by simp only [hrank]; omega⟩, ?_⟩
  intro p hp
  rw [hb, Rect.containsPoint, hspans]
  refine (Rect.spansContain_insertIdx haxis _ p _).mpr ⟨?_, ?_⟩
  · rw [Span.contains_iff]
    simp only [Int.ofNat_eq_natCast]
    omega
  · exact (Rect.contains_iff.mp w.cover_contains).2 p hp

/-! ## The folds -/

section Folds

variable [Element α] {op : Operator α} {t : Store α} {privilege : Privilege}

/-- The elements over a point at the coordinates of a span, folded. -/
def spanFold (w : Stacking α) (op : Operator α) (t : Store α) (s : Span) (p : Point) : α :=
  (s.coords.map fun c => t.getD op.identity (p.insertIdx w.axis c)).foldl op.combine op.identity

omit [Element α] in
theorem foldOver_eq (w : Stacking α) (op : Operator α) (t : Store α) (s : Span) {p : Point}
    (hp : w.initRect.containsPoint p = true) :
    foldOver op t (w.inRect.withSpan w.axis s) w.axis op.identity p = w.spanFold op t s p := by
  obtain ⟨hspan, hrest⟩ := w.piece_spans s
  have hpoints := Rect.pointsOver_eq hspan (p := p) (by rw [hrest]; exact hp)
  rw [foldOver, spanFold, hpoints, List.map_map]
  rfl

theorem piece_overwrites (l : w.Launches) (hsource : w.source.binding? = some (t, privilege))
    {stacked : Store α} (hb : stacked.bounds = w.stackBounds) {j : Nat} (hj : j < w.pieces.length)
    (op : Operator α) (e : Executor) :
    ∃ stacked', (Launch.body op e .axisCollapse).output? (l.pieceContext j stacked) = some stacked' ∧
      stacked.Overwritten stacked' w.initRect (some ⟨w.stackAxis, Int.ofNat j⟩)
        (w.spanFold op t w.pieces[j]) := by
  obtain ⟨stacked', houtput, hover⟩ := axisCollapse_overwrites (l.pieceContext j stacked)
    (l.piece_decodes j hj) rfl rfl hsource w.init_nonempty ⟨_, l.piece_coord j hj, rfl⟩
    (admits_slice hb hj) (reads_piece (List.getElem_mem hj)) (w.folds _ _) op e
  exact ⟨stacked', houtput, hover.congr fun p hp => w.foldOver_eq op t _ hp⟩

theorem whole_overwrites (l : w.Launches) (hsource : w.source.binding? = some (t, privilege))
    {out : Store α} (hout : out.Admits w.initRect none) (op : Operator α) (e : Executor) :
    ∃ out', (Launch.body op e .axisCollapse).output? (l.wholeContext out) = some out' ∧
      out.Overwritten out' w.initRect none (w.spanFold op t w.span) := by
  have hfolds := w.folds none w.span
  rw [w.withSpan_span] at hfolds
  obtain ⟨out', houtput, hover⟩ := axisCollapse_overwrites (l.wholeContext out)
    l.whole_decodes rfl rfl hsource w.init_nonempty rfl hout w.reads hfolds op e
  refine ⟨out', houtput, hover.congr fun p hp => ?_⟩
  have := w.foldOver_eq op t w.span hp
  rwa [w.withSpan_span] at this

theorem stack_get (l : w.Launches) (hsource : w.source.binding? = some (t, privilege))
    (op : Operator α) (e : Nat → Executor) {js : List Nat} (hjs : ∀ j ∈ js, j < w.pieces.length)
    (hnodup : js.Nodup) {stacked : Store α} (hb : stacked.bounds = w.stackBounds) :
    ∃ stacked', l.stack op e js stacked = some stacked' ∧ stacked'.bounds = w.stackBounds ∧
      ∀ (j : Nat) (hj : j < w.pieces.length), j ∈ js → ∀ p, w.initRect.containsPoint p = true →
        stacked'.get (p.insertIdx w.stackAxis (Int.ofNat j)) =
          .ok (w.spanFold op t w.pieces[j] p) := by
  have haxis : w.stackAxis ≤ w.initRect.rank := by
    rw [w.cover_rank]
    exact w.stack_spans.2
  have hstep : ∀ j ∈ js, ∀ s : Store α, s.bounds = w.stackBounds → ∃ s',
      (Launch.body op (e j) .axisCollapse).output? (l.pieceContext j s) = some s' ∧
        s.Overwritten s' w.initRect (some ⟨w.stackAxis, Int.ofNat j⟩)
          (w.spanFold op t (w.pieces.getD j ⟨0, 0⟩)) := by
    intro j hj s hs
    rw [List.getD_eq_getElem _ _ (hjs j hj)]
    exact piece_overwrites l hsource hs (hjs j hj) op (e j)
  obtain ⟨stacked', hstack, hb', hget, _⟩ := Store.foldlM_slices haxis hnodup hstep hb
  refine ⟨stacked', hstack, hb', ?_⟩
  intro j hj hmem p hp
  have := hget j hmem p hp
  rwa [List.getD_eq_getElem _ _ hj] at this

theorem stack_fanIn (l : w.Launches) {stacked : Store α} (hb : stacked.bounds = w.stackBounds)
    {out : Store α} {target : Region α} (htarget : target.binding? = some (out, privilege))
    (hout : target.Overwrites w.initRect none) (op : Operator α) (e : Executor) :
    ∃ out', (Launch.body op e .radixFanIn).output? (l.fanInContext target stacked) = some out' ∧
      out.Overwritten out' w.initRect none fun p =>
        op.foldFirst ((List.range w.pieces.length).map fun j =>
          stacked.getD op.identity (p.insertIdx w.stackAxis (Int.ofNat j))) := by
  have hpos := w.pieces_pos
  have hge := l.radix_ge
  have hle := l.radix_le
  simp only [Int.ofNat_eq_natCast] at hge hle
  obtain ⟨radix, hradix⟩ : ∃ radix : Nat, l.radix.toInt = radix :=
    Int.eq_ofNat_of_zero_le (by omega)
  have hreads : CandidatesRead w.initRect radix (some ⟨w.stackAxis, 0⟩)
      (List.replicate w.pieces.length (.readOnly stacked)) := by
    intro j r hr _
    obtain ⟨hj, rfl⟩ := List.getElem?_eq_some_iff.mp hr
    rw [List.length_replicate] at hj
    rw [List.getElem_replicate]
    have hadmits := admits_slice hb hj
    simpa [Region.Reads] using hadmits
  have hslots : (List.replicate w.pieces.length (Region.readOnly stacked)).length ≤ radix := by
    rw [List.length_replicate]
    omega
  have hpresent : ∃ r ∈ List.replicate w.pieces.length (Region.readOnly stacked),
      r.isAbsent = false := ⟨_, List.mem_replicate.mpr ⟨by omega, rfl⟩, rfl⟩
  obtain ⟨out', houtput, hover⟩ := radixFanIn_overwrites (l.fanInContext target stacked)
    l.fanIn_decodes rfl rfl htarget hradix (by omega) hslots w.init_nonempty
    ⟨0, l.fanIn_coord, rfl⟩ rfl hreads hout hpresent op e
  refine ⟨out', houtput, hover.congr fun p _ => ?_⟩
  simp only [shown_replicate, slotSlice_succ, Option.map_some, Int.zero_mul, Int.zero_add, Point.placed]

omit [Element α] in
theorem foldFirst_pieces (hop : op.Monoidal) (w : Stacking α) (t : Store α) (p : Point) :
    op.foldFirst (w.pieces.map fun s => w.spanFold op t s p) = w.spanFold op t w.span p := by
  have hblocks := hop.foldl_blocks op.identity (w.pieces.map fun s =>
    s.coords.map fun c => t.getD op.identity (p.insertIdx w.axis c))
  rw [hop.foldFirst_eq, spanFold, ← w.pieces_eq, List.map_flatMap]
  rw [List.map_map, ← List.flatMap_def] at hblocks
  exact hblocks

end Folds

end Stacking

/-- For an operator that combines associatively and has a neutral identity: the pieces of an axis, collapsed
into the slices of a stack in any order, and the stack fanned in, leave in the output what one collapse of
the whole axis leaves there, whoever works it out. -/
theorem fanIn_of_pieces [Element α] {op : Operator α} (hop : op.Monoidal) {w : Stacking α}
    (l : w.Launches) {order : List Nat} (horder : order.Perm (List.range w.pieces.length))
    {stacked out : Store α} {target : Region α} (hstacked : stacked.bounds = w.stackBounds)
    (hout : out.Admits w.initRect none)
    (htarget : target = .writeDiscard out ∨ target = .readWrite out) (piece : Nat → Executor)
    (fanIn whole : Executor) :
    ∃ stacked' out', l.stack op piece order stacked = some stacked' ∧
      (Launch.body op fanIn .radixFanIn).output? (l.fanInContext target stacked') = some out' ∧
      (Launch.body op whole .axisCollapse).output? (l.wholeContext out) = some out' := by
  obtain ⟨t, privilege, hsource, _⟩ := w.reads.binding
  have horder_lt : ∀ j ∈ order, j < w.pieces.length := fun j hj =>
    List.mem_range.mp (horder.mem_iff.mp hj)
  obtain ⟨stacked', hstack, hb', hget⟩ := Stacking.stack_get l hsource op piece horder_lt
    (horder.nodup_iff.mpr List.nodup_range) hstacked
  obtain ⟨privilege', hbinding, hover⟩ : ∃ privilege', target.binding? = some (out, privilege') ∧
      target.Overwrites w.initRect none := by
    rcases htarget with rfl | rfl
    · exact ⟨_, rfl, hout⟩
    · exact ⟨_, rfl, hout⟩
  obtain ⟨out', hfanIn, hfolds⟩ := Stacking.stack_fanIn l hb' hbinding hover op fanIn
  obtain ⟨out'', hwhole, hfold⟩ := Stacking.whole_overwrites l hsource hout op whole
  have hvalues : ∀ p, w.initRect.containsPoint p = true →
      op.foldFirst ((List.range w.pieces.length).map fun j =>
        stacked'.getD op.identity (p.insertIdx w.stackAxis (Int.ofNat j))) =
          w.spanFold op t w.span p := by
    intro p hp
    rw [← Stacking.foldFirst_pieces hop w t p]
    congr 1
    refine List.ext_getElem (by simp) ?_
    intro j hj _
    have hj : j < w.pieces.length := by simpa using hj
    have hmem : j ∈ order := horder.mem_iff.mpr (List.mem_range.mpr hj)
    rw [List.getElem_map, List.getElem_map, List.getElem_range,
      Store.getD_eq (hget j hj hmem p hp)]
  obtain rfl : out' = out'' := (hfolds.congr hvalues).unique hfold
  exact ⟨stacked', out', hstack, hfanIn, hwhole⟩

/-! Two rows of three elements, cut into three pieces, the second of them empty. -/

namespace TwoRows

def line : Rect := ⟨[⟨0, 1⟩], by decide, by decide⟩

def rows : Rect := ⟨[⟨0, 1⟩, ⟨0, 2⟩], by decide, by decide⟩

def pieces : List Span := [⟨0, 0⟩, ⟨1, 0⟩, ⟨1, 2⟩]

def stacking : Stacking UInt8 where
  source := .readOnly ⟨rows, ⟨#[1, 2, 3, 4, 5, 6], rfl⟩⟩
  inRect := rows
  axis := 1
  span := ⟨0, 2⟩
  initRect := line
  pieces := pieces
  cover := line
  stackAxis := 1
  stackBounds := rows
  reads := ⟨rfl, fun _ h => h⟩
  rank_le := by decide
  span_eq := rfl
  init_eq := rfl
  init_nonempty := by decide
  pieces_eq := by decide
  pieces_pos := by decide
  cover_contains := by decide
  stack_eq := rfl

def launches : stacking.Launches where
  pieceArgs j := CollapseArgs.encode ⟨1, some 1, line, rows.withSpan 1 (pieces.getD j ⟨0, 0⟩)⟩
  piecePoint j := [0, Int.ofNat j]
  radix := 4
  fanInArgs := RadixArgs.encode ⟨4, none, some 1, line⟩
  fanInPoint := [0, 0]
  wholeArgs := CollapseArgs.encode ⟨1, none, line, rows⟩
  wholePoint := []
  piece_decodes := by
    have h : ∀ j : Fin 3, CollapseArgs.decode (CollapseArgs.encode
        ⟨1, some 1, line, rows.withSpan 1 (pieces.getD j ⟨0, 0⟩)⟩) =
          .ok ⟨1, some 1, line, rows.withSpan 1 pieces[j]⟩ := by decide +kernel
    intro j hj
    exact h ⟨j, hj⟩
  piece_coord _ _ := rfl
  fanIn_decodes := by decide +kernel
  fanIn_coord := rfl
  radix_ge := by decide
  radix_le := by decide
  whole_decodes := by decide +kernel

/-- Summed up piece by piece, the last piece first, and by different executors. -/
theorem fanIn_of_pieces_summed :
    (Operator.sum : Operator UInt8).Monoidal ∧
      [2, 0, 1].Perm (List.range stacking.pieces.length) ∧
      ∃ stacked out, launches.stack .sum (fun j => ⟨⟨.parallel, 0⟩, j⟩) [2, 0, 1]
          (.filled rows 9) = some stacked ∧
        (Launch.body .sum ⟨.standard, 4⟩ .radixFanIn).output?
          (launches.fanInContext (.writeDiscard (.filled line 7)) stacked) = some out ∧
        (Launch.body .sum ⟨.serial, 1⟩ .axisCollapse).output?
          (launches.wholeContext (.filled line 7)) = some out ∧ out.toList = [6, 15] := by
  have hop : (Operator.sum : Operator UInt8).Monoidal := (lawful_uint8 .sum).monoidal
  have horder : [2, 0, 1].Perm (List.range stacking.pieces.length) := by decide
  have hstacked : (Store.filled rows (9 : UInt8)).bounds = stacking.stackBounds := rfl
  have hout : (Store.filled line (7 : UInt8)).Admits stacking.initRect none :=
    ⟨rfl, fun _ h => h⟩
  obtain ⟨stacked, out, hstack, hfanIn, hwhole⟩ := fanIn_of_pieces hop launches horder hstacked hout
    (.inl rfl) (fun j => ⟨⟨.parallel, 0⟩, j⟩) ⟨.standard, 4⟩ ⟨.serial, 1⟩
  have hlist : ((Launch.body .sum ⟨.serial, 1⟩ .axisCollapse).output?
      (launches.wholeContext (.filled line 7))).map Store.toList = some [6, 15] := by
    decide +kernel
  rw [hwhole] at hlist
  exact ⟨hop, horder, stacked, out, hstack, hfanIn, hwhole, Option.some.inj hlist⟩

end TwoRows

end GridFold
