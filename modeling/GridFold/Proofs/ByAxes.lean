import GridFold.Proofs.Calls
import GridFold.Proofs.AxisFold
import GridFold.Proofs.Totals

/-!
# GridFold.Proofs.ByAxes

Folding a view axis by axis, where operands may change places.

* `Operator.Exchangeable.foldl_fibres` — folding the folds of the fibres is folding all.
* `foldAlong` — what an array shows after an axis has been folded.
* `Operator.CollapsesTo` — an axis is collapsed into a place of a store, without a seed
  (`exists_collapse_to`).
* `Operator.FoldsByAxes` — the total of what a collapse leaves is the total of the view, and two axes
  may be collapsed in either order. `folds_by_axes` says so of the booleans and the integers.
-/

namespace GridFold

variable {α : Type}

/-! ## Fibres -/

/-- The entries with their keys in a list of different keys, key by key. -/
theorem flatMap_fibres {ι κ : Type} [BEq κ] [LawfulBEq κ] (xs : List ι) (key : ι → κ) {keys : List κ}
    (hnodup : keys.Nodup) (hkeys : ∀ x ∈ xs, key x ∈ keys) :
    (keys.flatMap fun k => xs.filter fun x => key x == k).Perm xs := by
  have hperm := flatMap_filter_perm xs (keys.map fun k x => key x == k)
  rw [List.pairwise_map, List.flatMap_map] at hperm
  refine hperm (hnodup.imp ?_) ?_
  · intro j k hjk x hx
    rw [beq_iff_eq, beq_iff_eq] at hx
    exact hjk (hx.1.symm.trans hx.2)
  · intro x hx
    exact ⟨_, List.mem_map_of_mem (hkeys x hx), beq_self_eq_true _⟩

theorem Operator.Exchangeable.foldl_fibres [Element α] {op : Operator α} (h : op.Exchangeable)
    {ι κ : Type} [BEq κ] [LawfulBEq κ] (xs : List ι) (key : ι → κ) {keys : List κ} (hnodup : keys.Nodup)
    (hkeys : ∀ x ∈ xs, key x ∈ keys) (value : ι → α) :
    (keys.map fun k => ((xs.filter fun x => key x == k).map value).foldl op.combine
        op.identity).foldl op.combine op.identity =
      (xs.map value).foldl op.combine op.identity := by
  have hblocks := h.monoidal.foldl_blocks op.identity
    (keys.map fun k => (xs.filter fun x => key x == k).map value)
  rw [List.map_map, ← List.flatMap_def, ← List.map_flatMap] at hblocks
  exact hblocks.trans
    (h.monoidal.foldl_perm h.comm ((flatMap_fibres xs key hnodup hkeys).map value) op.identity)

/-- Of two entries that are taken out, the one that comes first moves the other one up. -/
theorem eraseIdx_eraseIdx {β : Type} {a b : Nat} (h : a < b) (xs : List β) :
    (xs.eraseIdx a).eraseIdx (b - 1) = (xs.eraseIdx b).eraseIdx a := by
  apply List.ext_getElem?
  intro i
  simp only [List.getElem?_eraseIdx]
  split_ifs <;> first | rfl | omega

theorem Rect.removeAxis_comm {r r₁ r₁₂ r₂ r₂₁ : Rect} {a b : Nat} (hab : a < b)
    (h₁ : r.removeAxis a = .ok r₁) (h₁₂ : r₁.removeAxis (b - 1) = .ok r₁₂)
    (h₂ : r.removeAxis b = .ok r₂) (h₂₁ : r₂.removeAxis a = .ok r₂₁) : r₁₂ = r₂₁ := by
  have hspans : r₁₂.spans = r₂₁.spans := by
    rw [(removeAxis_inv h₁₂).2, (removeAxis_inv h₁).2, (removeAxis_inv h₂₁).2, (removeAxis_inv h₂).2,
      eraseIdx_eraseIdx hab]
  have h := ofSpans_spans r₁₂
  rw [hspans, ofSpans_spans] at h
  exact (Except.ok.inj h).symm

/-! ## Arrays by points -/

/-- At its points the view shows these values. -/
def View.Holds (v : View α) (value : Point → α) : Prop :=
  ∀ p, v.rect.containsPoint p = true → v.get p = .ok (value p)

theorem View.Sound.exists_holds {v : View α} (hv : v.Sound) (default : α) :
    ∃ value, v.Holds value := by
  refine ⟨fun p => v.elementD default (v.window.at p), ?_⟩
  intro p hp
  obtain ⟨a, ha⟩ := hv.element hp
  rw [View.get_eq hp, ha]
  exact congrArg Except.ok (View.elementD_eq ha default).symm

theorem View.Holds.mapM_get {v : View α} {value : Point → α} (h : v.Holds value) {ps : List Point}
    (hps : ∀ p ∈ ps, v.rect.containsPoint p = true) : ps.mapM v.get = .ok (ps.map value) :=
  mapM_eq_map fun p hp => h p (hps p hp)

theorem View.Holds.elements {v : View α} {value : Point → α} (h : v.Holds value) :
    v.elements = .ok (v.rect.points.map value) :=
  h.mapM_get fun _ hp => Rect.mem_points.mp hp

/-- At each point without the axis, the fold of the values over it. -/
def foldAlong (op : Operator α) (r : Rect) (axis : Nat) (value : Point → α) (p : Point) : α :=
  ((r.pointsOver axis p).map value).foldl op.combine op.identity

theorem store_window_congr {s t : Store α} (h : s.bounds = t.bounds) (rect : Rect)
    (slice : Option Slice) : s.window rect slice = t.window rect slice := by
  obtain ⟨bounds, _⟩ := s
  obtain ⟨_, _⟩ := t
  cases h
  rfl

section Folds

variable [Element α] {op : Operator α}

theorem View.Holds.total {v : View α} {value : Point → α} (h : v.Holds value)
    (hop : op.Exchangeable) (hv : v.Sound) (hrank : v.rank ≤ maxTaskRank) (e : Executor) :
    e.total op v = .ok ((v.rect.points.map value).foldl op.combine op.identity) := by
  obtain ⟨xs, hxs, htotal⟩ := total_exchangeable hop hv hrank e
  cases h.elements.symm.trans hxs
  exact htotal

/-- The folds along an axis, folded over points that have all projections among them. -/
theorem foldl_foldAlong (hop : op.Exchangeable) {r projected dest : Rect} {axis : Nat}
    (hremove : r.removeAxis axis = .ok projected) (hcontains : dest.contains projected = true)
    (value : Point → α) :
    (dest.points.map (foldAlong op r axis value)).foldl op.combine op.identity =
      (r.points.map value).foldl op.combine op.identity := by
  refine hop.foldl_fibres r.points (List.eraseIdx · axis) (Rect.nodup_points dest) ?_ value
  intro q hq
  have hq := Rect.containsPoint_of_removeAxis hremove (Rect.mem_points.mp hq)
  exact Rect.mem_points.mpr ((Rect.contains_iff.mp hcontains).2 _ hq)

/-- Folding along a second axis leaves the folds of all points that are `p` without both. -/
theorem foldAlong_foldAlong (hop : op.Exchangeable) {r projected : Rect} {first second : Nat}
    (hremove : r.removeAxis first = .ok projected) (value : Point → α) (p : Point) :
    foldAlong op projected second (foldAlong op r first value) p =
      ((r.points.filter fun q => (q.eraseIdx first).eraseIdx second == p).map value).foldl
        op.combine op.identity := by
  -- Each inner fold is over a fibre of all the points that are `p` without both axes.
  have hfibre : ∀ k ∈ projected.pointsOver second p,
      foldAlong op r first value k =
        (((r.points.filter fun q => (q.eraseIdx first).eraseIdx second == p).filter
          fun q => q.eraseIdx first == k).map value).foldl op.combine op.identity := by
    intro k hk
    have hkp : k.eraseIdx second = p := eq_of_beq (List.mem_filter.mp hk).2
    rw [foldAlong, Rect.pointsOver, List.filter_filter]
    congr 2
    apply List.filter_congr
    intro q _
    cases hqk : q.eraseIdx first == k with
    | false => rfl
    | true => simp [eq_of_beq hqk, hkp]
  have hkeys : ∀ q ∈ r.points.filter (fun q => (q.eraseIdx first).eraseIdx second == p),
      q.eraseIdx first ∈ projected.pointsOver second p := by
    intro q hq
    obtain ⟨hq, hqp⟩ := List.mem_filter.mp hq
    have hin := Rect.containsPoint_of_removeAxis hremove (Rect.mem_points.mp hq)
    exact List.mem_filter.mpr ⟨Rect.mem_points.mpr hin, hqp⟩
  rw [foldAlong, List.map_congr_left hfibre]
  exact hop.foldl_fibres _ _ ((Rect.nodup_points projected).filter _) hkeys value

theorem foldAlong_comm (hop : op.Exchangeable) {r r₁ r₂ : Rect} {a b : Nat} (hab : a < b)
    (h₁ : r.removeAxis a = .ok r₁) (h₂ : r.removeAxis b = .ok r₂) (value : Point → α) :
    foldAlong op r₁ (b - 1) (foldAlong op r a value) =
      foldAlong op r₂ a (foldAlong op r b value) := by
  funext p
  rw [foldAlong_foldAlong hop h₁, foldAlong_foldAlong hop h₂]
  simp only [eraseIdx_eraseIdx hab]

/-! ## Collapsing without a seed -/

/-- Where an array can be written to: a rectangle of a store, plain or in a slice. -/
structure Place (α : Type) where
  store : Store α
  rect : Rect
  slice : Option Slice
  admits : store.Admits rect slice

/-- The axis is collapsed into the place without a seed. Whoever does it, the place shows `v` then. -/
def Operator.CollapsesTo (op : Operator α) (src : View α) (axis : Nat) (d : Place α) (v : View α) :
    Prop :=
  ∃ dest s', d.store.target d.rect d.slice .readWrite = .ok dest ∧
    (∀ e : Executor, e.perform (Plan.collapse op dest src axis none) d.store = .ok () s') ∧
      dest.asView s' = .ok v ∧ s'.view d.rect d.slice = .ok v

theorem exists_collapsePlan (op : Operator α) {dest : Target} {src : View α} {axis : Nat}
    {projected : Rect} (hgrants : dest.privilege.grants .readWrite = true)
    (hrank : src.rank ≤ maxTaskRank) (hremove : src.rect.removeAxis axis = .ok projected)
    (hcontains : dest.rect.contains projected = true) (seed : Option α) :
    ∃ plan, Plan.collapse op dest src axis seed = .ok plan := by
  simp only [collapse_ok_iff]
  by_cases hempty : dest.isEmpty = true
  · exact ⟨[], by rw [if_pos hempty]⟩
  · obtain ⟨haxis, _⟩ := Rect.removeAxis_inv hremove
    obtain ⟨hdest, hin⟩ := Rect.contains_iff.mp hcontains
    have hspan : src.rect.spans[axis]? = some src.rect.spans[axis] := List.getElem?_eq_getElem haxis
    have hprojected : projected.rank + 1 = src.rank := Rect.rank_of_removeAxis hremove
    have hpos : 0 < projected.rank := projected.rank_pos
    refine ⟨collapsePasses op dest src axis src.rect.spans[axis] seed, ?_⟩
    rw [if_neg hempty]
    refine ⟨by omega, hrank, ?_, hgrants, _, hspan, ?_, rfl⟩
    · rw [Target.rank, ← hdest, hprojected]
    · intro p c hpc
      have hp := Rect.containsPoint_of_removeAxis hremove hpc
      rw [List.eraseIdx_insertIdx_self] at hp
      exact hin p hp

omit [Element α] in
theorem views_of_target {s s' : Store α} {rect : Rect} {slice : Option Slice} {dest : Target}
    (h : s.target rect slice .readWrite = .ok dest) (hbounds : s'.bounds = s.bounds) :
    dest.asView s' = .ok ⟨s', dest.window⟩ ∧ s'.view rect slice = .ok ⟨s', dest.window⟩ := by
  obtain ⟨_, hprivilege, hwindow⟩ := target_ok_iff.mp h
  refine ⟨?_, view_ok_iff.mpr ⟨?_, rfl⟩⟩
  · rw [Target.asView, Target.require, hprivilege]
    rfl
  · rw [store_window_congr hbounds]
    exact hwindow

theorem exists_collapse_to (op : Operator α) {src : View α} {axis : Nat} {projected : Rect}
    {value : Point → α} (hsrc : src.Sound) (hvalue : src.Holds value)
    (hrank : src.rank ≤ maxTaskRank) (hremove : src.rect.removeAxis axis = .ok projected)
    (d : Place α) (hcontains : d.rect.contains projected = true) :
    ∃ v, op.CollapsesTo src axis d v ∧ v.Sound ∧ v.rect = d.rect ∧ v.rank ≤ maxTaskRank ∧
      v.Holds (foldAlong op src.rect axis value) := by
  obtain ⟨dest, hdest⟩ := exists_target.mpr ⟨(rfl : Privilege.readWrite.canWrite = true), d.admits⟩
  obtain ⟨hprivilege, hrect, hcut⟩ := isCut_of_target hdest
  obtain ⟨plan, hplan⟩ := exists_collapsePlan op (by rw [hprivilege]; rfl) hrank hremove
    (by rw [hrect]; exact hcontains) none
  obtain ⟨s', hbounds, hrun⟩ := forM_runLeaves (acts_of_collapse hcut hsrc hplan) d.store rfl
  have hperform : ∀ e : Executor, e.perform (.ok plan) d.store = .ok () s' := fun e =>
    perform_ok.mpr (hrun e (fun p => e.schedule p.axes p.origin) fun _ _ => .refl _)
  obtain ⟨hasView, hview⟩ := views_of_target hdest hbounds
  have hvrank : dest.rect.rank ≤ maxTaskRank := by
    have hle : projected.rank + 1 = src.rank := Rect.rank_of_removeAxis hremove
    rw [hrect, ← (Rect.contains_iff.mp hcontains).1]
    omega
  refine ⟨⟨s', dest.window⟩, ⟨dest, s', hdest, ?_, hasView, hview⟩, (isCut_of_view hview).2.2.sound,
    hrect, hvrank, ?_⟩
  · rw [hplan]
    exact hperform
  · intro p hp
    -- An empty place has no passes at all; this one has a point in it.
    have hne : ¬ dest.isEmpty = true := by
      rw [Bool.not_eq_true]
      exact Rect.isEmpty_eq_false hp
    rw [collapse_ok_iff, if_neg hne] at hplan
    obtain ⟨_, _, hdrank, _, span, hspan, hproj, rfl⟩ := hplan
    have haxis : axis < src.rank := (List.getElem?_eq_some_iff.mp hspan).1
    obtain ⟨values, hvalues, hget⟩ := collapse_sound hcut hsrc hdrank haxis hproj
      (perform_ok.mp (hperform ⟨.serial, 0⟩)) hp
    rw [hvalue.mapM_get fun q hq => Rect.containsPoint_of_pointsOver hq] at hvalues
    cases hvalues
    exact hget

/-! ## Main result -/

/-- A view may be folded axis by axis. An axis may be collapsed into any place with room for the
projection, and the total of what is left is the total of the view. Two axes may be collapsed in
either order into places that are the projections, and what is left is the same. -/
structure Operator.FoldsByAxes (op : Operator α) : Prop where
  total : ∀ {src : View α} {axis : Nat}, src.Made → 1 < src.rank → src.rank ≤ maxTaskRank →
    axis < src.rank → ∃ projected, src.rect.removeAxis axis = .ok projected ∧
      ∀ d : Place α, d.rect.contains projected = true →
        ∃ v a, op.CollapsesTo src axis d v ∧ (∀ e : Executor, e.total op v = .ok a) ∧
          ∀ e : Executor, e.total op src = .ok a
  either_order : ∀ {src : View α} {a b : Nat}, src.Made → src.rank = 3 → a < b → b < 3 →
    ∃ r₁ r₂ r, src.rect.removeAxis a = .ok r₁ ∧ r₁.removeAxis (b - 1) = .ok r ∧
      src.rect.removeAxis b = .ok r₂ ∧ r₂.removeAxis a = .ok r ∧
        ∀ d₁ d₁₂ d₂ d₂₁ : Place α, d₁.rect = r₁ → d₁₂.rect = r → d₂.rect = r₂ → d₂₁.rect = r →
          ∃ v₁ v₁₂ v₂ v₂₁ xs, op.CollapsesTo src a d₁ v₁ ∧ op.CollapsesTo v₁ (b - 1) d₁₂ v₁₂ ∧
            op.CollapsesTo src b d₂ v₂ ∧ op.CollapsesTo v₂ a d₂₁ v₂₁ ∧
            v₁₂.elements = .ok xs ∧ v₂₁.elements = .ok xs

theorem Operator.Exchangeable.foldsByAxes (hop : op.Exchangeable) : op.FoldsByAxes where
  total {src axis} hmade hone hrank haxis := by
    obtain ⟨projected, hremove, _⟩ := Rect.removeAxis_ok haxis hone
    refine ⟨projected, hremove, ?_⟩
    intro d hcontains
    obtain ⟨value, hvalue⟩ := hmade.sound.exists_holds op.identity
    obtain ⟨v, hv, hsound, hrect, hvrank, hfolds⟩ :=
      exists_collapse_to op hmade.sound hvalue hrank hremove d hcontains
    refine ⟨v, _, hv, fun e => hfolds.total hop hsound hvrank e, fun e => ?_⟩
    rw [hvalue.total hop hmade.sound hrank e, hrect, foldl_foldAlong hop hremove hcontains]
  either_order {src a b} hmade hthree hab hb := by
    have hrank : src.rank ≤ maxTaskRank := hthree.le
    have hrect : src.rect.rank = 3 := hthree
    obtain ⟨r₁, h₁, _⟩ := Rect.removeAxis_ok (show a < src.rect.rank by omega) (by omega)
    obtain ⟨r₂, h₂, _⟩ := Rect.removeAxis_ok (show b < src.rect.rank by omega) (by omega)
    have hr₁ := Rect.rank_of_removeAxis h₁
    have hr₂ := Rect.rank_of_removeAxis h₂
    obtain ⟨r₁₂, h₁₂, _⟩ := Rect.removeAxis_ok (show b - 1 < r₁.rank by omega) (by omega)
    obtain ⟨r₂₁, h₂₁, _⟩ := Rect.removeAxis_ok (show a < r₂.rank by omega) (by omega)
    obtain rfl := Rect.removeAxis_comm hab h₁ h₁₂ h₂ h₂₁
    refine ⟨r₁, r₂, r₁₂, h₁, h₁₂, h₂, h₂₁, ?_⟩
    rintro d₁ d₁₂ d₂ d₂₁ rfl hd₁₂ rfl hd₂₁
    -- Both ways start from the same values, and each collapse says what the next one starts from.
    obtain ⟨value, hvalue⟩ := hmade.sound.exists_holds op.identity
    obtain ⟨v₁, hv₁, hsound₁, hrect₁, hrank₁, hfolds₁⟩ :=
      exists_collapse_to op hmade.sound hvalue hrank h₁ d₁ (Rect.contains_self _)
    obtain ⟨v₂, hv₂, hsound₂, hrect₂, hrank₂, hfolds₂⟩ :=
      exists_collapse_to op hmade.sound hvalue hrank h₂ d₂ (Rect.contains_self _)
    rw [← hrect₁] at h₁₂
    rw [← hrect₂] at h₂₁
    obtain ⟨v₁₂, hv₁₂, _, hrect₁₂, _, hfolds₁₂⟩ := exists_collapse_to op hsound₁ hfolds₁ hrank₁ h₁₂
      d₁₂ (by rw [hd₁₂]; exact Rect.contains_self _)
    obtain ⟨v₂₁, hv₂₁, _, hrect₂₁, _, hfolds₂₁⟩ := exists_collapse_to op hsound₂ hfolds₂ hrank₂ h₂₁
      d₂₁ (by rw [hd₂₁]; exact Rect.contains_self _)
    refine ⟨v₁, v₁₂, v₂, v₂₁, _, hv₁, hv₁₂, hv₂, hv₂₁, hfolds₁₂.elements, ?_⟩
    rw [hfolds₂₁.elements, hrect₁₂, hrect₂₁, hd₁₂, hd₂₁, hrect₁, hrect₂,
      foldAlong_comm hop hab h₁ h₂]

end Folds

/-- On booleans and integers every reduction may be done axis by axis. -/
theorem folds_by_axes (r : Reduction) :
    (r.operator : Operator Bool).FoldsByAxes ∧
      ((r.operator : Operator Int8).FoldsByAxes ∧ (r.operator : Operator Int16).FoldsByAxes ∧
        (r.operator : Operator Int32).FoldsByAxes ∧ (r.operator : Operator Int64).FoldsByAxes) ∧
      (r.operator : Operator UInt8).FoldsByAxes ∧ (r.operator : Operator UInt16).FoldsByAxes ∧
        (r.operator : Operator UInt32).FoldsByAxes ∧ (r.operator : Operator UInt64).FoldsByAxes :=
  ⟨(exchangeable_bool r).foldsByAxes,
    ⟨(exchangeable_int8 r).foldsByAxes, (exchangeable_int16 r).foldsByAxes,
      (exchangeable_int32 r).foldsByAxes, (exchangeable_int64 r).foldsByAxes⟩,
    (exchangeable_uint8 r).foldsByAxes, (exchangeable_uint16 r).foldsByAxes,
    (exchangeable_uint32 r).foldsByAxes, (exchangeable_uint64 r).foldsByAxes⟩

/-- A cube with a negative corner, collapsed into a place with a margin, and into its edge along the
middle axis. -/
theorem folds_by_axes_cube :
    let cube : Rect := ⟨[⟨0, 1⟩, ⟨5, 6⟩, ⟨-1, 0⟩], by decide, by decide⟩
    let wide : Rect := ⟨[⟨-1, 1⟩, ⟨-1, 1⟩], by decide, by decide⟩
    let front : Rect := ⟨[⟨5, 6⟩, ⟨-1, 0⟩], by decide, by decide⟩
    let side : Rect := ⟨[⟨0, 1⟩, ⟨5, 6⟩], by decide, by decide⟩
    let edge : Rect := ⟨[⟨5, 6⟩], by decide, by decide⟩
    let t : Store Int8 := ⟨cube, ⟨#[1, -2, 3, 4, 100, 100, -7, 8], rfl⟩⟩
    let src : View Int8 := ⟨t, ⟨cube, 0, [4, 2, 1]⟩⟩
    let place : Rect → Place Int8 := fun r =>
      ⟨.filled r 9, r, none, rfl, fun _ hp => hp⟩
    let op : Operator Int8 := .sum
    t.view cube none = .ok src ∧
      (∃ v, op.CollapsesTo src 1 (place wide) v ∧
        ∀ e : Executor, e.total op v = .ok (-49) ∧ e.total op src = .ok (-49)) ∧
      ∃ v₁ v₁₂ v₂ v₂₁ xs, op.CollapsesTo src 0 (place front) v₁ ∧
        op.CollapsesTo v₁ 1 (place edge) v₁₂ ∧ op.CollapsesTo src 2 (place side) v₂ ∧
        op.CollapsesTo v₂ 0 (place edge) v₂₁ ∧ v₁₂.elements = .ok xs ∧ v₂₁.elements = .ok xs := by
  intro cube wide front side edge t src place op
  have hs : t.view cube none = .ok src := rfl
  have h : op.FoldsByAxes := (folds_by_axes .sum).2.1.1
  refine ⟨hs, ?_, ?_⟩
  · obtain ⟨projected, hremove, hplaces⟩ :=
      h.total (.cut hs) (by decide) (by decide) (show 1 < src.rank by decide)
    cases hremove
    obtain ⟨v, a, hv, htotal, hsrc⟩ := hplaces (place wide) (by decide)
    obtain ⟨xs, hxs, hvalue⟩ := total_exchangeable (exchangeable_int8 .sum)
      (isCut_of_view hs).2.2.sound (by decide) ⟨⟨.serial, 0⟩, 1⟩
    obtain rfl : xs = [1, -2, 3, 4, 100, 100, -7, 8] := by
      have : src.elements = .ok [1, -2, 3, 4, 100, 100, -7, 8] := rfl
      rw [hxs] at this
      exact Except.ok.inj this
    have ha : a = -49 := Except.ok.inj ((hsrc _).symm.trans hvalue)
    rw [ha] at htotal hsrc
    exact ⟨v, hv, fun e => ⟨htotal e, hsrc e⟩⟩
  · obtain ⟨r₁, r₂, r, h₁, h₁₂, h₂, _, hplaces⟩ :=
      h.either_order (a := 0) (b := 2) (.cut hs) rfl (by decide) (by decide)
    cases h₁
    cases h₁₂
    cases h₂
    exact hplaces (place front) (place edge) (place side) (place edge) rfl rfl rfl rfl

end GridFold
