import GridFold.Pass.Elementwise
import GridFold.Pass.FanIn
import GridFold.Proofs.Edits
import GridFold.Proofs.Layout

/-!
# GridFold.Proofs.Elementwise

Passes that move through several windows of one rectangle.

* `boxPositions_windows` — such a pass meets the points of the rectangle in row-major order, and at
  each point every operand stands where its window shows the point.
* `actsBy_through` — where the destination is cut out of a store, no two steps meet the same element,
  so the pass acts point by point. The pass of each elementwise kernel and of the fan-in is an
  instance.
-/

namespace GridFold

/-- Where all windows show a point. -/
def standing {k : Nat} (windows : Vector Window k) (p : Point) : Vector Int k :=
  windows.map fun w => w.at p

@[simp]
theorem getElem_standing {k : Nat} (windows : Vector Window k) (p : Point) (i : Nat) (h : i < k) :
    (standing windows p)[i] = windows[i].at p := by
  simp [standing]

@[simp]
theorem destination_standing {k : Nat} (windows : Vector Window (k + 1)) (p : Point) :
    destination (standing windows p) = (destination windows).at p := destination_map _ windows

@[simp]
theorem source_standing {k : Nat} (windows : Vector Window (k + 2)) (p : Point) :
    source (standing windows p) = (source windows).at p := source_map _ windows

@[simp]
theorem secondSource_standing {k : Nat} (windows : Vector Window (k + 3)) (p : Point) :
    secondSource (standing windows p) = (secondSource windows).at p := secondSource_map _ windows

section Windows

variable {k : Nat} {r : Rect} {windows : Vector Window k}

theorem positionAt_windows (cost : Vector Int k → Nat)
    (hrect : ∀ w ∈ windows, w.rect = r) {index : List Nat}
    (h : index ∈ indices r.extents) :
    positionAt (axesOf cost r.extents (windows.map Window.strides)) (windows.map Window.base)
      index = standing windows (pointAt r.spans index) := by
  rw [Rect.extents, positionAt_axesOf cost r.spans _ _ h]
  ext i hi
  have hlo : windows[i].rect.lo = r.spans.map Span.lo := by rw [hrect _ (Vector.getElem_mem hi)]; rfl
  simp only [Vector.getElem_zipWith, Vector.getElem_map, standing, Window.at, Window.offsetOf, hlo]

theorem boxPositions_windows (cost : Vector Int k → Nat)
    (hrect : ∀ w ∈ windows, w.rect = r) :
    boxPositions (axesOf cost r.extents (windows.map Window.strides)) (windows.map Window.base) =
      r.points.map (standing windows) := by
  rw [boxPositions_eq_map, extents_axesOf, Rect.points_eq_grid, grid_eq_map, List.map_map]
  apply List.map_congr_left
  intro index hindex
  exact positionAt_windows cost hrect hindex

theorem containsPoint_pointAt {index : List Nat} (h : index ∈ indices r.extents) :
    r.containsPoint (pointAt r.spans index) = true := by
  rw [← Rect.mem_points, Rect.points_eq_grid, grid_eq_map]
  exact List.mem_map_of_mem h

end Windows

theorem agreeWhereCut_refl {k : Nat} (axes : List (Axis k)) (index : List Nat) :
    AgreeWhereCut axes index index := by
  induction axes generalizing index with
  | nil => trivial
  | cons a axes ih =>
    cases index with
    | nil => trivial
    | cons i index => exact ⟨fun _ => rfl, ih index⟩

variable {α β δ : Type} {bounds : Rect}

/-- Windows of one rectangle: the pass acts point by point, if it may be cut only between points that
the destination shows apart. -/
theorem actsBy_windows {k : Nat} {r : Rect} {windows : Vector Window (k + 1)}
    {cost : Vector Int (k + 1) → Nat} {body : Vector Int (k + 1) → Edit δ Unit}
    {step : Vector Int (k + 1) → δ → δ}
    (hrect : ∀ w ∈ windows, w.rect = r)
    (hapart : ∀ i ∈ indices r.extents, ∀ j ∈ indices r.extents,
      (destination windows).at (pointAt r.spans i) = (destination windows).at (pointAt r.spans j) →
        AgreeWhereCut (axesOf cost r.extents (windows.map Window.strides)) i j)
    (hbody : ∀ p, r.containsPoint p = true →
      (body (standing windows p)).Changes bounds ((destination windows).at p)
        (step (standing windows p))) :
    (Pass.through cost r.extents windows body).ActsBy bounds step := by
  have hchanges : ∀ pos ∈ boxPositions (axesOf cost r.extents (windows.map Window.strides))
      (windows.map Window.base), (body pos).Changes bounds (destination pos) (step pos) := by
    intro pos hpos
    rw [boxPositions_windows cost hrect] at hpos
    obtain ⟨p, hp, rfl⟩ := List.mem_map.mp hpos
    rw [destination_standing]
    exact hbody p (Rect.mem_points.mp hp)
  have hseparates : Separates (axesOf cost r.extents (windows.map Window.strides))
      (windows.map Window.base) := by
    intro i hi j hj hij
    rw [extents_axesOf] at hi hj
    rw [positionAt_windows cost hrect hi, positionAt_windows cost hrect hj, destination_standing,
      destination_standing] at hij
    exact hapart i hi j hj hij
  exact ⟨hchanges, hseparates⟩

/-- A destination cut out of a store shows all points apart, and may be cut anywhere. -/
theorem actsBy_through {k : Nat} {r : Rect} {windows : Vector Window (k + 1)}
    {cost : Vector Int (k + 1) → Nat} {body : Vector Int (k + 1) → Edit δ Unit}
    {step : Vector Int (k + 1) → δ → δ}
    (hrect : ∀ w ∈ windows, w.rect = r)
    (hdest : (destination windows).Faithful bounds)
    (hbody : ∀ p, r.containsPoint p = true →
      (body (standing windows p)).Changes bounds ((destination windows).at p)
        (step (standing windows p))) :
    (Pass.through cost r.extents windows body).ActsBy bounds step := by
  refine actsBy_windows hrect ?_ hbody
  intro i hi j hj hij
  have hr : (destination windows).rect = r := hrect _ (destination_mem windows)
  have hpoint := hdest.apart _ _ (by rw [hr]; exact containsPoint_pointAt hi)
    (by rw [hr]; exact containsPoint_pointAt hj) hij
  rw [pointAt_injective hi hj hpoint]
  exact agreeWhereCut_refl _ _

/-- The steps of a pass that meet position `j`, by the points of its rectangle. -/
theorem foldAt_through {k : Nat} {r : Rect} {windows : Vector Window (k + 1)}
    {cost : Vector Int (k + 1) → Nat} {body : Vector Int (k + 1) → Edit δ Unit}
    (hrect : ∀ w ∈ windows, w.rect = r)
    (step : Vector Int (k + 1) → δ → δ) (j : Int) (v : δ) :
    Pass.foldAt step (boxPositions (Pass.through cost r.extents windows body).axes
        (Pass.through cost r.extents windows body).origin) j v =
      ((r.points.map (standing windows)).filter fun pos => destination pos == j).foldl
        (fun v pos => step pos v) v := by
  change Pass.foldAt (k := k) step (boxPositions
    (axesOf cost r.extents (windows.map Window.strides)) (windows.map Window.base)) j v = _
  rw [boxPositions_windows cost hrect]
  rfl

theorem filter_standing {k : Nat} {r : Rect} {windows : Vector Window (k + 1)}
    (hrect : (destination windows).rect = r) (hdest : (destination windows).Faithful bounds)
    {p : Point} (hp : r.containsPoint p = true) :
    (r.points.map (standing windows)).filter
        (fun pos => destination pos == (destination windows).at p) = [standing windows p] := by
  have hsame : ∀ q ∈ r.points,
      (destination (standing windows q) == (destination windows).at p) = (q == p) := by
    intro q hq
    rw [destination_standing, Bool.eq_iff_iff, beq_iff_eq, beq_iff_eq]
    constructor
    · intro h
      rw [← hrect, Rect.mem_points] at hq
      exact hdest.apart q p hq (by rw [hrect]; exact hp) h
    · rintro rfl
      rfl
  rw [List.filter_map, Function.comp_def, List.filter_congr hsame, List.filter_beq,
    Rect.points_eq_grid, (Rect.nodup_grid _).count, if_pos (Rect.mem_grid.mpr hp)]
  rfl

/-! ## The elementwise kernels -/

variable {s : Store δ} {dest : Target} {src : View α} {other : View β}

/-! What a step of a kernel that writes afresh does, at a point that the destination shows. -/

section Afresh

variable {p : Point} (hin : 0 ≤ dest.window.at p ∧ (dest.window.at p).toNat < bounds.volume)
include hin

theorem changes_fill (value : δ) :
    ((Pass.fill dest value).body (standing #v[dest.window] p)).Changes bounds (dest.window.at p)
      fun _ => value := by
  change (Edit.writeAt (destination (standing #v[dest.window] p)) value).Changes _ _ _
  rw [destination_standing]
  exact Edit.changes_writeAt hin value

theorem changes_map {a : α} (ha : src.element (src.window.at p) = .ok a) (f : α → δ) :
    ((Pass.map dest src f).body (standing #v[dest.window, src.window] p)).Changes bounds
      (dest.window.at p) fun _ => f a := by
  change Edit.Changes (Edit.ofExcept (src.element (source (standing #v[dest.window, src.window] p))) >>=
    fun a => Edit.writeAt (destination (standing #v[dest.window, src.window] p)) (f a)) _ _ _
  rw [source_standing, destination_standing]
  change Edit.Changes (Edit.ofExcept (src.element (src.window.at p)) >>= _) _ _ _
  rw [Edit.ofExcept_bind ha]
  exact Edit.changes_writeAt hin (f a)

theorem changes_zip {a : α} {b : β} (ha : src.element (src.window.at p) = .ok a)
    (hb : other.element (other.window.at p) = .ok b) (f : α → β → δ) :
    ((Pass.zip dest src other f).body
      (standing #v[dest.window, src.window, other.window] p)).Changes bounds (dest.window.at p)
        fun _ => f a b := by
  change Edit.Changes
    (Edit.ofExcept (src.element
        (source (standing #v[dest.window, src.window, other.window] p))) >>= fun a =>
      Edit.ofExcept (other.element
        (secondSource (standing #v[dest.window, src.window, other.window] p))) >>= fun b =>
        Edit.writeAt (destination (standing #v[dest.window, src.window, other.window] p)) (f a b)) _ _ _
  rw [source_standing, secondSource_standing, destination_standing]
  change Edit.Changes (Edit.ofExcept (src.element (src.window.at p)) >>= fun a =>
    Edit.ofExcept (other.element (other.window.at p)) >>= fun b =>
      Edit.writeAt (dest.window.at p) (f a b)) _ _ _
  rw [Edit.ofExcept_bind ha, Edit.ofExcept_bind hb]
  exact Edit.changes_writeAt hin (f a b)

end Afresh

theorem actsBy_fill (hd : dest.IsCut s) (value : δ) :
    (Pass.fill dest value).ActsBy s.bounds fun _ _ => value := by
  refine actsBy_through (r := dest.rect) ?_ hd.faithful ?_
  · simp [Target.rect]
  · intro p hp
    exact changes_fill (hd.faithful.inside p hp) value

theorem actsBy_modify (hd : dest.IsCut s) (f : δ → δ) :
    (Pass.modify dest f).ActsBy s.bounds fun _ old => f old := by
  refine actsBy_through (r := dest.rect) ?_ hd.faithful ?_
  · simp [Target.rect]
  · intro p hp
    have hin := hd.faithful.inside p hp
    simp only [destination_standing]
    change Edit.Changes (Edit.readAt (dest.window.at p) >>= fun old =>
      Edit.writeAt (dest.window.at p) (f old)) _ _ _
    refine Edit.changes_readAt hin (f := fun old _ => f old) fun old => ?_
    exact Edit.changes_writeAt hin (f old)

/-- The element at a position of a source, put to use; without one nothing changes. -/
def View.feed (v : View α) (f : α → δ → δ) (position : Int) (old : δ) : δ :=
  match v.element position with
  | .ok a => f a old
  | .error _ => old

theorem View.feed_eq {v : View α} {position : Int} {a : α} (h : v.element position = .ok a)
    (f : α → δ → δ) : v.feed f position = f a := by
  funext old
  rw [feed, h]

theorem foldl_feed {v : View α} (hv : v.Sound) (f : α → δ → δ) {ps : List Point}
    (hp : ∀ p ∈ ps, v.rect.containsPoint p = true) :
    ∃ values, ps.mapM v.get = .ok values ∧ ∀ acc,
      ps.foldl (fun acc p => v.feed f (v.window.at p) acc) acc =
        values.foldl (fun acc a => f a acc) acc := by
  induction ps with
  | nil => exact ⟨[], rfl, fun _ => rfl⟩
  | cons p ps ih =>
    obtain ⟨a, ha⟩ := hv.element (hp p (by simp))
    obtain ⟨values, hvalues, hfold⟩ := ih fun q hq => hp q (by simp [hq])
    refine ⟨a :: values, ?_, ?_⟩
    · rw [List.mapM_cons, View.get_eq (hp p (by simp)), ha, hvalues]
      rfl
    · intro acc
      rw [List.foldl_cons, hfold, View.feed_eq ha]
      rfl

theorem actsBy_map (hd : dest.IsCut s) (hs : src.Sound) (hrect : src.rect = dest.rect)
    (f : α → δ) :
    (Pass.map dest src f).ActsBy s.bounds fun (pos : Vector Int 2) =>
      src.feed (fun a _ => f a) (source pos) := by
  refine actsBy_through (r := dest.rect) ?_ hd.faithful ?_
  · simpa [View.rect, Target.rect] using hrect
  · intro p hp
    obtain ⟨a, ha⟩ := hs.element (hrect ▸ hp)
    have hfeed : src.feed (fun a _ => f a) (source (standing #v[dest.window, src.window] p)) =
        fun _ => f a := by
      rw [source_standing]
      exact View.feed_eq ha _
    rw [hfeed]
    exact changes_map (hd.faithful.inside p hp) ha f

theorem actsBy_modifyWith (hd : dest.IsCut s) (hs : src.Sound) (hrect : src.rect = dest.rect)
    (f : δ → α → δ) :
    (Pass.modifyWith dest src f).ActsBy s.bounds fun (pos : Vector Int 2) =>
      src.feed (fun a old => f old a) (source pos) := by
  refine actsBy_through (r := dest.rect) ?_ hd.faithful ?_
  · simpa [View.rect, Target.rect] using hrect
  · intro p hp
    have hin := hd.faithful.inside p hp
    obtain ⟨a, ha⟩ := hs.element (hrect ▸ hp)
    simp only [destination_standing, source_standing]
    change Edit.Changes (Edit.readAt (dest.window.at p) >>= fun old =>
      Edit.ofExcept (src.element (src.window.at p)) >>= fun a =>
        Edit.writeAt (dest.window.at p) (f old a)) _ _ (src.feed _ (src.window.at p))
    rw [View.feed_eq ha]
    refine Edit.changes_readAt hin (f := fun old _ => f old a) fun old => ?_
    rw [Edit.ofExcept_bind ha]
    exact Edit.changes_writeAt hin (f old a)

theorem actsBy_zip (hd : dest.IsCut s) (hs : src.Sound) (ho : other.Sound)
    (hrect : src.rect = dest.rect) (horect : other.rect = dest.rect) (f : α → β → δ) :
    (Pass.zip dest src other f).ActsBy s.bounds fun (pos : Vector Int 3) =>
      src.feed (fun a => other.feed (fun b _ => f a b) (secondSource pos)) (source pos) := by
  refine actsBy_through (r := dest.rect) ?_ hd.faithful ?_
  · simpa [View.rect, Target.rect] using ⟨hrect, horect⟩
  · intro p hp
    obtain ⟨a, ha⟩ := hs.element (hrect ▸ hp)
    obtain ⟨b, hb⟩ := ho.element (horect ▸ hp)
    have hfeed : src.feed (fun a => other.feed (fun b _ => f a b)
          (secondSource (standing #v[dest.window, src.window, other.window] p)))
        (source (standing #v[dest.window, src.window, other.window] p)) = fun _ => f a b := by
      rw [source_standing, secondSource_standing]
      exact (View.feed_eq ha _).trans (View.feed_eq hb _)
    rw [hfeed]
    exact changes_zip (hd.faithful.inside p hp) ha hb f

/-! ## The fan-in -/

theorem size_fanInWindows (dest : Target) (first : View α) (others : List (View α)) :
    (dest.window :: first.window :: others.map View.window).toArray.size = others.length + 2 := by
  simp

def fanInWindows (dest : Target) (first : View α) (others : List (View α)) :
    Vector Window (others.length + 2) :=
  ⟨(dest.window :: first.window :: others.map View.window).toArray, size_fanInWindows dest first others⟩

theorem rect_fanInWindows {first : View α} {others : List (View α)}
    (hrect : ∀ v ∈ first :: others, v.rect = dest.rect) :
    ∀ w ∈ fanInWindows dest first others, w.rect = dest.rect := by
  intro w hw
  rw [fanInWindows, Vector.mem_mk, List.mem_toArray, List.mem_cons] at hw
  rcases hw with rfl | hw
  · rfl
  · obtain ⟨v, hv, rfl⟩ : ∃ v ∈ first :: others, v.window = w := by
      simpa [eq_comm] using hw
    exact hrect v hv

theorem standing_fanInWindows (dest : Target) (first : View α) (others : List (View α)) (p : Point) :
    (standing (fanInWindows dest first others) p).toList =
      dest.window.at p :: first.window.at p :: others.map fun v => v.window.at p := by
  simp [standing, fanInWindows]

theorem elementsAt_eq {views : List (View α)} {p : Point}
    (hp : ∀ v ∈ views, v.rect.containsPoint p = true) :
    elementsAt views (views.map fun v => v.window.at p) = views.mapM fun v => v.get p := by
  induction views with
  | nil => rfl
  | cons v views ih =>
    have hrest := ih fun w hw => hp w (by simp [hw])
    simp only [elementsAt, List.map_cons, List.zip_cons_cons, List.mapM_cons] at hrest ⊢
    rw [hrest, View.get_eq (hp v (by simp))]

theorem exists_mapM_get {views : List (View α)} {p : Point} (hv : ∀ v ∈ views, View.Sound v)
    (hp : ∀ v ∈ views, v.rect.containsPoint p = true) :
    ∃ values, (views.mapM fun v => v.get p) = .ok values := by
  induction views with
  | nil => exact ⟨[], rfl⟩
  | cons v views ih =>
    obtain ⟨a, ha⟩ := (hv v (by simp)).element (hp v (by simp))
    obtain ⟨values, hvalues⟩ :=
      ih (fun w hw => hv w (by simp [hw])) fun w hw => hp w (by simp [hw])
    refine ⟨a :: values, ?_⟩
    rw [List.mapM_cons, View.get_eq (hp v (by simp)), ha, hvalues]
    rfl

variable [Element δ]

def feedAll (op : Operator δ) (first : View δ) (others : List (View δ)) (positions : List Int)
    (old : δ) : δ :=
  match elementsAt others (positions.drop 2) with
  | .ok values => first.feed (fun a _ => values.foldl (op.fold .exclusive) a) (positions.getD 1 0) old
  | .error _ => old

/-- At a point, the elements that the sources show there are folded, whatever the old element was. -/
theorem feedAll_standing {first : View δ} {others : List (View δ)} {p : Point} {a : δ} {values : List δ}
    (op : Operator δ) (hp : ∀ v ∈ first :: others, v.rect.containsPoint p = true)
    (ha : first.get p = .ok a) (hvalues : (others.mapM fun v => v.get p) = .ok values) :
    feedAll op first others (standing (fanInWindows dest first others) p).toList =
      fun _ => values.foldl op.combine a := by
  rw [View.get_eq (hp first (by simp))] at ha
  rw [← elementsAt_eq fun v hv => hp v (by simp [hv])] at hvalues
  funext old
  rw [standing_fanInWindows]
  simp only [feedAll, List.drop_succ_cons, List.drop_zero, hvalues, List.getD_cons_succ,
    List.getD_cons_zero, View.feed_eq ha]
  rfl

/-- Whatever lies at the destination, a fan-in writes the fold of what its sources show at the point. -/
theorem changes_fanIn {first : View δ} {others : List (View δ)} {p : Point} {a : δ} {values : List δ}
    (hin : 0 ≤ dest.window.at p ∧ (dest.window.at p).toNat < bounds.volume)
    (hp : ∀ v ∈ first :: others, v.rect.containsPoint p = true) (ha : first.get p = .ok a)
    (hvalues : (others.mapM fun v => v.get p) = .ok values) (op : Operator δ) :
    ((Pass.fanIn op dest first others).body
      (standing (fanInWindows dest first others) p)).Changes bounds (dest.window.at p)
        fun _ => values.foldl op.combine a := by
  rw [View.get_eq (hp first (by simp))] at ha
  rw [← elementsAt_eq fun v hv => hp v (by simp [hv])] at hvalues
  change Edit.Changes
    (Edit.ofExcept (first.element (source (standing (fanInWindows dest first others) p))) >>= fun a =>
      Edit.ofExcept
          (elementsAt others ((standing (fanInWindows dest first others) p).toList.drop 2)) >>=
        fun values => Edit.writeAt (destination (standing (fanInWindows dest first others) p))
          (values.foldl (op.fold .exclusive) a)) _ _ _
  simp only [destination_standing, source_standing, standing_fanInWindows, List.drop_succ_cons,
    List.drop_zero]
  change Edit.Changes (Edit.ofExcept (first.element (first.window.at p)) >>= _) _ _ _
  rw [Edit.ofExcept_bind ha, Edit.ofExcept_bind hvalues]
  exact Edit.changes_writeAt hin _

theorem actsBy_fanIn {first : View δ} {others : List (View δ)} (hd : dest.IsCut s)
    (hs : ∀ v ∈ first :: others, View.Sound v)
    (hrect : ∀ v ∈ first :: others, v.rect = dest.rect) (op : Operator δ) :
    (Pass.fanIn op dest first others).ActsBy s.bounds
      fun (pos : Vector Int (others.length + 2)) => feedAll op first others pos.toList := by
  change (Pass.through sharedCost dest.rect.extents (fanInWindows dest first others) _).ActsBy _ _
  refine actsBy_through (rect_fanInWindows hrect) hd.faithful ?_
  intro p hp
  have hpoint : ∀ v ∈ first :: others, v.rect.containsPoint p = true := by
    intro v hv
    rw [hrect v hv]
    exact hp
  obtain ⟨a, ha⟩ := (hs first (by simp)).element (hpoint first (by simp))
  obtain ⟨values, hvalues⟩ : ∃ values, (others.mapM fun v => v.get p) = .ok values :=
    exists_mapM_get (fun v hv => hs v (by simp [hv])) fun v hv => hpoint v (by simp [hv])
  have hget := (View.get_eq (hpoint first (by simp))).trans ha
  rw [feedAll_standing op hpoint hget hvalues]
  exact changes_fanIn (hd.faithful.inside p hp) hpoint hget hvalues op

end GridFold
