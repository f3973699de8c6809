import GridFold.Proofs.Contents

/-!
# GridFold.Proofs.Pieces

A rectangle may be tiled with rectangles of any shape, listed in any order. Each tile is folded into a
scalar by a launch of its own; where combining commutes, the fold of those scalars is the scalar of one
launch on the whole rectangle.

* `Rect.TiledBy` — the tiles. Their points are the points of the rectangle in another order
  (`TiledBy.points_perm`).
* `wholePartition_scalar` — the scalar of a launch.
* `Tiling` — the launches on a rectangle and its tiles. `Tiling.scalars_eq`, `Tiling.foldl_scalars`.
-/

namespace GridFold

open Wire

variable {α : Type}

/-! ## Tiles -/

/-- Each point of the rectangle, and no other, lies in one of the tiles, and in a single one. -/
structure Rect.TiledBy (r : Rect) (tiles : List Rect) : Prop where
  nonempty : ∀ tile ∈ tiles, tile.isEmpty = false
  disjoint : tiles.Pairwise fun a b => ∀ p, a.containsPoint p = true → b.containsPoint p = false
  covers : ∀ p, r.containsPoint p = true ↔ ∃ tile ∈ tiles, tile.containsPoint p = true

namespace Rect.TiledBy

variable {r : Rect} {tiles : List Rect}

/-- Only finitely many points have to be looked at. -/
theorem iff_points : r.TiledBy tiles ↔ (∀ tile ∈ tiles, tile.isEmpty = false) ∧
    (tiles.Pairwise fun a b => ∀ p ∈ a.points, b.containsPoint p = false) ∧
      (∀ p ∈ r.points, ∃ tile ∈ tiles, tile.containsPoint p = true) ∧
        ∀ tile ∈ tiles, ∀ p ∈ tile.points, r.containsPoint p = true := by
  simp only [mem_points]
  constructor
  · rintro ⟨hne, hdisjoint, hcovers⟩
    exact ⟨hne, hdisjoint, fun p => (hcovers p).mp, fun tile htile p hp =>
      (hcovers p).mpr ⟨tile, htile, hp⟩⟩
  · rintro ⟨hne, hdisjoint, hcovers, hin⟩
    exact ⟨hne, hdisjoint, fun p => ⟨hcovers p, fun ⟨tile, htile, hp⟩ => hin tile htile p hp⟩⟩

instance : Decidable (r.TiledBy tiles) := decidable_of_iff _ iff_points.symm

theorem points_perm (h : r.TiledBy tiles) : (tiles.flatMap points).Perm r.points := by
  have hnodup : (tiles.flatMap points).Nodup := by
    rw [List.nodup_flatMap]
    refine ⟨fun tile _ => nodup_points tile, h.disjoint.imp ?_⟩
    intro a b hab p ha hb
    rw [mem_points] at ha hb
    rw [hab p ha] at hb
    cases hb
  refine (List.perm_ext_iff_of_nodup hnodup (nodup_points r)).mpr ?_
  intro p
  simp only [List.mem_flatMap, mem_points]
  exact (h.covers p).symm

theorem ne_nil (h : r.TiledBy tiles) (hne : r.isEmpty = false) : tiles ≠ [] := by
  obtain ⟨tile, htile, _⟩ := (h.covers r.lo).mp (containsPoint_lo hne)
  exact List.ne_nil_of_mem htile

theorem reads (h : r.TiledBy tiles) {source : Region α} (hreads : source.Reads r none) {tile : Rect}
    (htile : tile ∈ tiles) : source.Reads tile none := by
  have hsub : ∀ p, tile.containsPoint p = true → r.containsPoint p = true := fun p hp =>
    (h.covers p).mpr ⟨tile, htile, hp⟩
  have hlo := containsPoint_lo (h.nonempty tile htile)
  refine hreads.mono ?_ hsub
  exact (length_of_spansContain hlo).symm.trans (length_of_spansContain (hsub _ hlo))

end Rect.TiledBy

/-! ## Scalars -/

def rectFold (op : Operator α) (s : Store α) (r : Rect) : α :=
  (r.points.map (s.getD op.identity)).foldl op.combine op.identity

/-- The fold of the tiles' folds is the fold of the rectangle. -/
theorem foldl_rectFold {op : Operator α} (hop : op.Monoidal) (hc : op.Commutes) {r : Rect}
    {tiles : List Rect} (h : r.TiledBy tiles) (s : Store α) :
    (tiles.map (rectFold op s)).foldl op.combine op.identity = rectFold op s r := by
  have hblocks := hop.foldl_blocks op.identity
    (tiles.map fun tile => tile.points.map (s.getD op.identity))
  rw [List.map_map, ← List.flatMap_def, ← List.map_flatMap] at hblocks
  exact hblocks.trans (hop.foldl_perm hc (h.points_perm.map _) op.identity)

def Launch.scalar? (x : Launch α (TaskOutput α)) (ctx : TaskContext α) : Option α :=
  match x ctx with
  | .ok (.scalar a) _ => some a
  | .ok .done _ => none
  | .error _ _ => none

variable [Element α] {op : Operator α}

theorem wholePartition_scalar (hop : op.Lawful) (ctx : TaskContext α) {args : ShapeArgs}
    {source : Region α} {s : Store α} {privilege : Privilege}
    (hargs : ShapeArgs.decode ctx.args = .ok args) (hfutures : ctx.futures = [])
    (hregions : ctx.regions = [source]) (hbinding : source.binding? = some (s, privilege))
    (hreads : source.Reads args.rect none) (e : Executor) :
    (Launch.body op e .wholePartition).scalar? ctx = some (rectFold op s args.rect) := by
  obtain ⟨value, ctx', hrun⟩ := (wholePartition_accepts op e).mpr
    ⟨args, hargs, hfutures, source, hregions, hreads⟩
  obtain ⟨args', hargs', _, source', hregions', src, hsrc, htotal, rfl⟩ :=
    Launch.wholePartition_ok_iff.mp hrun
  cases hargs.symm.trans hargs'
  cases hregions.symm.trans hregions'
  obtain ⟨s', _, hbinding', _, hview⟩ := Region.input_ok_iff.mp hsrc
  cases hbinding.symm.trans hbinding'
  obtain ⟨hrect, hcut⟩ := Region.input_cut hsrc
  have hrank : src.rank ≤ maxTaskRank := by
    rw [View.rank, hrect]
    exact ShapeArgs.rank_le hargs
  obtain ⟨xs, hxs, htotal'⟩ := total_eq hop hcut hrank e
  have hvalue := htotal.symm.trans htotal'
  rw [View.elements, hrect, mapM_get_view hview op.identity fun p hp => Rect.mem_points.mp hp] at hxs
  cases hxs
  cases hvalue
  have hbody : Launch.body op e .wholePartition ctx = .ok (.scalar (rectFold op s args.rect)) ctx := by
    simp only [Launch.body, Launch.bodyIn, run_bind_eq_ok, run_pure_eq_ok]
    exact ⟨_, ctx, hrun, rfl, rfl⟩
  rw [Launch.scalar?, hbody]

/-- A rectangle of a source and its tiles, and what a launch on each of them is given. -/
structure Tiling (α : Type) where
  source : Region α
  rect : Rect
  tiles : List Rect
  args : Rect → List UInt8
  point : Rect → Point
  reads : source.Reads rect none
  nonempty : rect.isEmpty = false
  tiled : rect.TiledBy tiles
  decodes : ∀ r ∈ rect :: tiles, ShapeArgs.decode (args r) = .ok ⟨r⟩

namespace Tiling

/-- The launch on one rectangle. -/
def scalar? (w : Tiling α) (op : Operator α) (e : Executor) (r : Rect) : Option α :=
  (Launch.body op e .wholePartition).scalar? ⟨w.args r, [w.source], [], w.point r⟩

def scalars? (w : Tiling α) (op : Operator α) (e : Rect → Executor) : Option (List α) :=
  w.tiles.mapM fun tile => w.scalar? op (e tile) tile

variable {w : Tiling α} {s : Store α} {privilege : Privilege}

theorem scalar_eq (hop : op.Lawful) (hbinding : w.source.binding? = some (s, privilege)) {r : Rect}
    (hr : r ∈ w.rect :: w.tiles) (e : Executor) : w.scalar? op e r = some (rectFold op s r) := by
  have hreads : w.source.Reads r none := by
    rcases List.mem_cons.mp hr with rfl | hr
    · exact w.reads
    · exact w.tiled.reads w.reads hr
  exact wholePartition_scalar hop _ (w.decodes r hr) rfl rfl hbinding hreads e

theorem scalars_eq (hop : op.Lawful) (hbinding : w.source.binding? = some (s, privilege))
    (e : Rect → Executor) : w.scalars? op e = some (w.tiles.map (rectFold op s)) :=
  mapM_eq_map fun tile htile => scalar_eq hop hbinding (List.mem_cons_of_mem w.rect htile) (e tile)

end Tiling

end GridFold
