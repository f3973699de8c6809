import GridFold.Proofs.Plans

/-!
# GridFold.Proofs.AxisFold

What collapsing an axis leaves in the destination: at each point the fold of the source elements over
it, by ascending coordinate and starting from the seed. No law of the operator is used, and the
executor does not show.
-/

namespace GridFold

variable {α : Type} {s : Store α} {dest : Target}

theorem foldAt_fill {value : α} (hd : dest.IsCut s) {p : Point}
    (hp : dest.rect.containsPoint p = true) (v : α) :
    Pass.foldAt (fun _ _ => value)
      (boxPositions (Pass.fill dest value).axes (Pass.fill dest value).origin) (dest.window.at p) v =
        value := by
  have hrect : ∀ w ∈ #v[dest.window], w.rect = dest.rect := by simp [Target.rect]
  refine (foldAt_through hrect (fun _ _ => value) (dest.window.at p) v).trans ?_
  have hfaithful : (destination #v[dest.window]).Faithful s.bounds := hd.faithful
  have hfilter := filter_standing (hrect _ (destination_mem _)) hfaithful hp
  change ((dest.rect.points.map (standing #v[dest.window])).filter fun pos =>
    destination pos == (destination #v[dest.window]).at p).foldl _ v = value
  rw [hfilter]
  rfl

variable [Element α] {src : View α} {axis : Nat}

/-- Folding an axis in meets the source's points over `p`, in ascending order. -/
theorem foldAt_foldInto (hd : dest.IsCut s) (hs : src.Sound) (hrank : dest.rank + 1 = src.rank)
    (haxis : axis < src.rank)
    (hproj : ∀ (p : Point) (c : Int), src.rect.containsPoint (p.insertIdx axis c) = true →
      dest.rect.containsPoint p = true)
    (op : Operator α) (lo : Int) {p : Point} (hp : dest.rect.containsPoint p = true) :
    ∃ values, (src.rect.pointsOver axis p).mapM src.get = .ok values ∧
      ∀ v, Pass.foldAt
        (fun (pos : Vector Int 2) =>
          src.feed (fun value acc => op.fold .exclusive acc value) (source pos))
        (boxPositions (Pass.foldInto op (dest.over src.rect axis lo) src).axes
          (Pass.foldInto op (dest.over src.rect axis lo) src).origin)
        (dest.window.at p) v = values.foldl op.combine v := by
  have hover : ∀ q ∈ src.rect.pointsOver axis p, src.rect.containsPoint q = true :=
    fun _ hq => Rect.containsPoint_of_pointsOver hq
  obtain ⟨values, hvalues, hfold⟩ :=
    foldl_feed hs (fun value acc => op.fold .exclusive acc value) hover
  refine ⟨values, hvalues, ?_⟩
  intro v
  have hrect : ∀ w ∈ #v[dest.over src.rect axis lo, src.window], w.rect = src.rect := by
    simp [Target.over, View.rect]
  refine (foldAt_through hrect _ (dest.window.at p) v).trans ?_
  rw [filter_over hd hrank haxis hproj lo hp, List.foldl_map]
  simp only [source_standing]
  exact hfold v

theorem collapse_sound {span : Span} (hd : dest.IsCut s) (hs : src.Sound)
    (hrank : dest.rank + 1 = src.rank) (haxis : axis < src.rank)
    (hproj : ∀ (p : Point) (c : Int), src.rect.containsPoint (p.insertIdx axis c) = true →
      dest.rect.containsPoint p = true)
    {op : Operator α} {seed : Option α} {e : Executor} {s' : Store α}
    (hrun : (collapsePasses op dest src axis span seed).forM (Pass.run e) s = .ok () s')
    {p : Point} (hp : dest.rect.containsPoint p = true) :
    ∃ values, (src.rect.pointsOver axis p).mapM src.get = .ok values ∧
      View.get ⟨s', dest.window⟩ p = .ok (values.foldl op.combine (seed.getD op.identity)) := by
  obtain ⟨values, hvalues, hfold⟩ := foldAt_foldInto hd hs hrank haxis hproj op span.lo hp
  obtain ⟨t, hfill, ht, htelement⟩ :=
    Pass.run_element (actsBy_fill hd (seed.getD op.identity)) e s rfl
  obtain ⟨old, hold⟩ := Store.element_inside (hd.faithful.inside p hp)
  have hseeded : t.element (dest.window.at p) = .ok (seed.getD op.identity) := by
    rw [htelement, hold]
    exact congrArg Except.ok (foldAt_fill hd hp old)
  refine ⟨values, hvalues, (View.get_eq (v := ⟨s', dest.window⟩) hp).trans ?_⟩
  change s'.element (dest.window.at p) = _
  rw [collapsePasses, Edit.forM_cons _ _ _ hfill] at hrun
  split at hrun
  · -- the source is empty, and no point of it lies over `p`
    rename_i hempty
    rw [Rect.pointsOver_eq_nil haxis fun c => Rect.isEmpty_iff.mp hempty _] at hvalues
    cases hvalues
    cases hrun
    exact hseeded
  · obtain ⟨u, hinto, _, huelement⟩ :=
      Pass.run_element (actsBy_foldInto hd hs hrank haxis hproj op span.lo) e t ht
    rw [Edit.forM_cons _ _ _ hinto] at hrun
    cases hrun
    rw [huelement, hseeded]
    exact congrArg Except.ok (hfold _)

theorem collapse_element {span : Span} (hd : dest.IsCut s) (hs : src.IsCut)
    (hrank : dest.rank + 1 = src.rank) (haxis : axis < src.rank)
    (hproj : ∀ (p : Point) (c : Int), src.rect.containsPoint (p.insertIdx axis c) = true →
      dest.rect.containsPoint p = true)
    {op : Operator α} {seed : Option α} {e : Executor} {s' : Store α}
    (hrun : (collapsePasses op dest src axis span seed).forM (Pass.run e) s = .ok () s')
    {p : Point} (hp : dest.rect.containsPoint p = true) :
    ∃ values, (src.rect.pointsOver axis p).mapM src.get = .ok values ∧
      View.get ⟨s', dest.window⟩ p = .ok (values.foldl op.combine (seed.getD op.identity)) :=
  collapse_sound hd hs.sound hrank haxis hproj hrun hp

/-- Collapsing an axis into a destination that is not empty: whatever executor has done it, every
other one leaves the same store, and there each point holds the fold of the source elements over it
by ascending coordinate, starting from the seed, or the seed itself where no source element lies over
it. -/
theorem get_of_collapse {t : Store α} {rect rect' : Rect} {slice slice' : Option Slice}
    {privilege : Privilege} {op : Operator α} {seed : Option α} {e : Executor} {s' : Store α}
    (hd : s.target rect slice privilege = .ok dest) (hs : t.view rect' slice' = .ok src)
    (hne : rect.isEmpty = false)
    (hrun : e.perform (Plan.collapse op dest src axis seed) s = .ok () s') :
    (∀ other : Executor, other.perform (Plan.collapse op dest src axis seed) s = .ok () s') ∧
      ∃ span, rect'.spans[axis]? = some span ∧ ∀ p, rect.containsPoint p = true →
        ((∃ c, rect'.containsPoint (p.insertIdx axis c) = true) →
          ∃ values, (span.coords.mapM fun c => src.get (p.insertIdx axis c)) = .ok values ∧
            View.get ⟨s', dest.window⟩ p = .ok (values.foldl op.combine (seed.getD op.identity))) ∧
        ((∀ c, rect'.containsPoint (p.insertIdx axis c) = false) →
          View.get ⟨s', dest.window⟩ p = .ok (seed.getD op.identity)) := by
  obtain ⟨_, rfl, hdcut⟩ := isCut_of_target hd
  obtain ⟨_, rfl, hscut⟩ := isCut_of_view hs
  cases hplan : Plan.collapse op dest src axis seed with
  | error cause =>
    rw [hplan] at hrun
    cases hrun
  | ok plan =>
    have hkernel : KernelPlan s plan := .collapse hdcut hscut hplan
    rw [hplan] at hrun
    obtain ⟨u, _, hall⟩ := hkernel.perform
    have hu : u = s' := by
      have := (hall e).symm.trans hrun
      cases this
      rfl
    rw [hu] at hall
    refine ⟨hall, ?_⟩
    rw [collapse_ok_iff, if_neg (by simp [Target.isEmpty, hne])] at hplan
    obtain ⟨_, _, hrank, _, span, hspan, hproj, rfl⟩ := hplan
    have haxis : axis < src.rank := (List.getElem?_eq_some_iff.mp hspan).1
    refine ⟨span, hspan, ?_⟩
    intro p hp
    obtain ⟨values, hvalues, hget⟩ :=
      collapse_element hdcut hscut hrank haxis hproj (perform_ok.mp hrun) hp
    constructor
    · intro hover
      rw [Rect.pointsOver_eq_map hspan hover, List.mapM_map] at hvalues
      exact ⟨values, hvalues, hget⟩
    · intro hnone
      rw [Rect.pointsOver_eq_nil haxis hnone] at hvalues
      cases hvalues
      exact hget

/-- Two rows of three, summed up. -/
theorem get_of_collapse_rows :
    let line : Rect := ⟨[⟨0, 1⟩], by decide, by decide⟩
    let rows : Rect := ⟨[⟨0, 1⟩, ⟨0, 2⟩], by decide, by decide⟩
    let s : Store UInt8 := .filled line 0
    let t : Store UInt8 := ⟨rows, ⟨#[1, 2, 3, 4, 5, 6], rfl⟩⟩
    let dest : Target := ⟨⟨line, 0, [1]⟩, .readWrite⟩
    let src : View UInt8 := ⟨t, ⟨rows, 0, [3, 1]⟩⟩
    s.target line none .readWrite = .ok dest ∧ t.view rows none = .ok src ∧
      ∃ s', (Executor.mk ⟨.parallel, 0⟩ 4).perform (Plan.collapse .sum dest src 1 none) s =
          .ok () s' ∧
        View.get ⟨s', dest.window⟩ [0] = .ok 6 := by
  intro line rows s t dest src
  have hd : s.target line none .readWrite = .ok dest := rfl
  have hs : t.view rows none = .ok src := rfl
  refine ⟨hd, hs, ?_⟩
  obtain ⟨plan, hplan⟩ : ∃ plan, Plan.collapse (.sum : Operator UInt8) dest src 1 none = .ok plan :=
    ⟨_, rfl⟩
  obtain ⟨s', _, hrun⟩ :=
    (KernelPlan.collapse (isCut_of_target hd).2.2 (isCut_of_view hs).2.2 hplan).perform
  have hrun := hrun (Executor.mk ⟨.parallel, 0⟩ 4)
  rw [← hplan] at hrun
  refine ⟨s', hrun, ?_⟩
  obtain ⟨_, span, hspan, hget⟩ := get_of_collapse hd hs (by decide) hrun
  cases hspan
  obtain ⟨values, hvalues, hv⟩ := (hget [0] (by decide)).1 ⟨0, by decide⟩
  have : values = [1, 2, 3] := by
    have h : ((Span.coords ⟨0, 2⟩).mapM fun c => src.get (List.insertIdx [0] 1 c)) =
        .ok [1, 2, 3] := rfl
    rw [h] at hvalues
    exact (Except.ok.inj hvalues).symm
  rw [hv, this]
  rfl

end GridFold
