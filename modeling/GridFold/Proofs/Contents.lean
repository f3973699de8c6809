import GridFold.Proofs.Endings
import GridFold.Proofs.AxisFold

/-!
# GridFold.Proofs.Contents

What a launch leaves in region 0, point by point.

* `Store.Overwritten` — a store that holds given values where a rectangle is placed, and otherwise what
  another one holds. There is only one such store (`Overwritten.unique`).
* `axisCollapse_overwrites` — a collapse leaves the folds of the source over each point.
* `radixFanIn_overwrites` — a fan-in leaves the folds of what the candidates show.
-/

namespace GridFold

variable {α : Type}

/-! ## Elements by points -/

theorem Rect.exists_offset {bounds : Rect} {j : Int} (h : 0 ≤ j ∧ j.toNat < bounds.volume) :
    ∃ q, bounds.containsPoint q = true ∧ bounds.offset q = j := by
  have hin : ∀ q ∈ bounds.points, bounds.containsPoint q = true := fun _ hq => mem_points.mp hq
  have hpos : ∀ q ∈ bounds.points, 0 ≤ bounds.offset q ∧ bounds.offset q < Int.ofNat bounds.volume :=
    fun q hq => spanOffset_bounds (hin q hq)
  have hnodup : (bounds.points.map fun q => (bounds.offset q).toNat).Nodup := by
    refine List.Nodup.map_on ?_ (nodup_points bounds)
    intro p hp q hq hpq
    have := (hpos p hp).1
    have := (hpos q hq).1
    exact offset_injective (hin p hp) (hin q hq) (by omega)
  have hsub : (bounds.points.map fun q => (bounds.offset q).toNat) ⊆ List.range bounds.volume := by
    intro i hi
    obtain ⟨q, hq, rfl⟩ := List.mem_map.mp hi
    have := hpos q hq
    simp only [Int.ofNat_eq_natCast] at this
    exact List.mem_range.mpr (by omega)
  have hperm := (hnodup.subperm hsub).perm_of_length_le (by simp [length_points])
  obtain ⟨q, hq, hqj⟩ := List.mem_map.mp (hperm.mem_iff.mpr (List.mem_range.mpr h.2))
  have := (hpos q hq).1
  exact ⟨q, hin q hq, by omega⟩

theorem coord_of_insertIdx {p q : Point} {axis : Nat} {c d : Int} (hp : axis ≤ p.length)
    (hq : axis ≤ q.length) (h : p.insertIdx axis c = q.insertIdx axis d) : c = d := by
  have hget : (p.insertIdx axis c)[axis]? = (q.insertIdx axis d)[axis]? := by rw [h]
  rw [List.getElem?_insertIdx_self, List.getElem?_insertIdx_self, if_pos hp, if_pos hq] at hget
  exact Option.some.inj hget

namespace Store

theorem ext_get {s t : Store α} (hb : s.bounds = t.bounds) (h : ∀ q, s.get q = t.get q) : s = t := by
  refine ext_element hb ?_
  intro j
  by_cases hj : 0 ≤ j ∧ j.toNat < s.bounds.volume
  · obtain ⟨q, hq, rfl⟩ := Rect.exists_offset hj
    have hq' : t.bounds.containsPoint q = true := by rw [← hb]; exact hq
    rw [← get_inside hq, h, get_inside hq', hb]
  · have hj' : ¬(0 ≤ j ∧ j.toNat < t.bounds.volume) := by rw [← hb]; exact hj
    rw [element, element, dif_neg hj, dif_neg hj', length, length, hb]

/-- The element of a point, where there is one. -/
def getD (s : Store α) (default : α) (q : Point) : α :=
  match s.get q with
  | .ok a => a
  | .error _ => default

theorem getD_eq {s : Store α} {q : Point} {a : α} (h : s.get q = .ok a) (default : α) :
    s.getD default q = a := by
  rw [getD, h]

theorem get_eq_getD {s : Store α} {q : Point} (h : s.bounds.containsPoint q = true) (default : α) :
    s.get q = .ok (s.getD default q) := by
  have hpos : 0 ≤ s.bounds.offset q ∧ s.bounds.offset q < Int.ofNat s.bounds.volume :=
    spanOffset_bounds h
  simp only [Int.ofNat_eq_natCast] at hpos
  obtain ⟨a, ha⟩ := element_inside (s := s) (i := s.bounds.offset q) ⟨hpos.1, by omega⟩
  rw [getD, get_inside h, ha]

/-- The second store holds `value` where the rectangle is placed, and otherwise what the first holds. -/
structure Overwritten (s s' : Store α) (rect : Rect) (slice : Option Slice) (value : Point → α) :
    Prop where
  same : s.SameBut s' (rect.Places slice)
  get : ∀ p, rect.containsPoint p = true → s'.get (p.placed slice) = .ok (value p)

theorem Overwritten.congr {s s' : Store α} {rect : Rect} {slice : Option Slice}
    {value value' : Point → α} (h : s.Overwritten s' rect slice value)
    (hvalue : ∀ p, rect.containsPoint p = true → value p = value' p) :
    s.Overwritten s' rect slice value' := by
  refine ⟨h.same, ?_⟩
  intro p hp
  rw [← hvalue p hp]
  exact h.get p hp

theorem Overwritten.unique {s s₁ s₂ : Store α} {rect : Rect} {slice : Option Slice}
    {value : Point → α} (h₁ : s.Overwritten s₁ rect slice value)
    (h₂ : s.Overwritten s₂ rect slice value) : s₁ = s₂ := by
  refine ext_get (h₁.same.bounds.trans h₂.same.bounds.symm) ?_
  intro q
  by_cases hq : rect.Places slice q
  · obtain ⟨p, hp, rfl⟩ := hq
    rw [h₁.get p hp, h₂.get p hp]
  · rw [h₁.same.get q hq, h₂.same.get q hq]

/-- Steps that each overwrite a slice of their own: in the end every slice holds what its step has
written. -/
theorem foldlM_slices {step : Store α → Nat → Option (Store α)} {bounds rect : Rect} {axis : Nat}
    (haxis : axis ≤ rect.rank) {value : Nat → Point → α} {js : List Nat} (hnodup : js.Nodup)
    (hstep : ∀ j ∈ js, ∀ s : Store α, s.bounds = bounds → ∃ s', step s j = some s' ∧
      s.Overwritten s' rect (some ⟨axis, Int.ofNat j⟩) (value j)) {s : Store α}
    (hb : s.bounds = bounds) :
    ∃ s', js.foldlM step s = some s' ∧ s'.bounds = bounds ∧
      (∀ j ∈ js, ∀ p, rect.containsPoint p = true →
        s'.get (p.insertIdx axis (Int.ofNat j)) = .ok (value j p)) ∧
      ∀ q, (∀ j ∈ js, ¬ rect.Places (some ⟨axis, Int.ofNat j⟩) q) → s'.get q = s.get q := by
  induction js generalizing s with
  | nil => exact ⟨s, rfl, hb, fun _ h => (nomatch h), fun _ _ => rfl⟩
  | cons i js ih =>
    obtain ⟨hi, hnodup⟩ := List.nodup_cons.mp hnodup
    obtain ⟨t, ht, hover⟩ := hstep i (by simp) s hb
    obtain ⟨s', hs', hb', hget, hsame⟩ := ih hnodup (fun j hj => hstep j (by simp [hj]))
      (hover.same.bounds.trans hb)
    have hle : ∀ p, rect.containsPoint p = true → axis ≤ p.length := by
      intro p hp
      rw [Rect.length_of_spansContain hp]
      exact haxis
    refine ⟨s', ?_, hb', ?_, ?_⟩
    · rw [List.foldlM_cons, ht]
      exact hs'
    · intro j hmem p hp
      rcases List.mem_cons.mp hmem with rfl | hmem
      · -- the steps behind the first one leave its slice alone
        rw [hsame _ ?_]
        · exact hover.get p hp
        · rintro k hk ⟨p', hp', heq⟩
          obtain rfl : j = k := Int.ofNat.inj (coord_of_insertIdx (hle p hp) (hle p' hp') heq)
          exact hi hk
      · exact hget j hmem p hp
    · intro q hq
      rw [hsame q fun j hj => hq j (by simp [hj])]
      exact hover.same.get q (hq i (by simp))

end Store

/-- Through a window of the store, or of a store with the same bounds, a point shows the element of the
placed point. -/
theorem get_placed {s s' : Store α} {rect : Rect} {slice : Option Slice} {w : Window}
    (hw : s.window rect slice = .ok w) (hb : s'.bounds = s.bounds) {p : Point}
    (hp : rect.containsPoint p = true) : View.get ⟨s', w⟩ p = s'.get (p.placed slice) := by
  have hin : s'.bounds.containsPoint (p.placed slice) = true := by
    rw [hb]
    exact (window_ok_iff.mp ⟨w, hw⟩).2 p hp
  have hpoint : View.rect ⟨s', w⟩ = rect := window_rect hw
  rw [View.get_eq (by rw [hpoint]; exact hp), Store.get_inside hin, hb]
  exact congrArg s'.element (offset_placed hw hp)

theorem get_view {s : Store α} {rect : Rect} {slice : Option Slice} {v : View α}
    (hv : s.view rect slice = .ok v) (default : α) {p : Point} (hp : rect.containsPoint p = true) :
    v.get p = .ok (s.getD default (p.placed slice)) := by
  obtain ⟨hw, rfl⟩ := view_ok_iff.mp hv
  have hin := (window_ok_iff.mp ⟨_, hw⟩).2 p hp
  rw [← Store.get_eq_getD hin]
  exact get_placed hw rfl hp

theorem mapM_get_view {s : Store α} {rect : Rect} {slice : Option Slice} {v : View α}
    (hv : s.view rect slice = .ok v) (default : α) {ps : List Point}
    (hps : ∀ p ∈ ps, rect.containsPoint p = true) :
    ps.mapM v.get = .ok (ps.map fun p => s.getD default (p.placed slice)) :=
  mapM_eq_map fun p hp => get_view hv default (hps p hp)

/-! ## The output of a launch -/

namespace Launch

variable {β : Type} {ctx ctx' : TaskContext α}

/-- The store that the launch leaves in region 0, if it succeeds. -/
def output? (x : Launch α β) (ctx : TaskContext α) : Option (Store α) :=
  match x ctx with
  | .ok _ ctx' => ctx'.regions.head?.bind fun r => r.binding?.map Prod.fst
  | .error _ _ => none

theorem output?_eq {x : Launch α β} {b : β} {out : Region α} {inputs : List (Region α)}
    {s s' : Store α} {privilege : Privilege} (hrun : x ctx = .ok b ctx')
    (hregions : ctx'.regions = out.withStore s' :: inputs)
    (hbinding : out.binding? = some (s, privilege)) : x.output? ctx = some s' := by
  simp only [output?, hrun, hregions, List.head?_cons, Option.bind_some]
  cases out <;> cases hbinding <;> rfl

theorem onOutput_inv {kernel : Kernel α Unit} {u : Unit} {out : Region α} {inputs : List (Region α)}
    {s : Store α} {privilege : Privilege} (h : onOutput kernel ctx = .ok u ctx')
    (hregions : ctx.regions = out :: inputs) (hbinding : out.binding? = some (s, privilege)) :
    ∃ s', kernel s = .ok () s' ∧ ctx'.regions = out.withStore s' :: inputs := by
  obtain ⟨out', inputs', t, _, s', hregions', hbinding', hkernel, rfl⟩ := onOutput_ok_iff.mp h
  cases hregions.symm.trans hregions'
  cases hbinding.symm.trans hbinding'
  exact ⟨s', hkernel, rfl⟩

theorem Picks.unique {point : Point} {axis : Option Nat} {slice slice' : Option Slice}
    (h : Picks point axis slice) (h' : Picks point axis slice') : slice = slice' := by
  cases axis with
  | none => exact Eq.trans h (Eq.symm h')
  | some axis =>
    obtain ⟨c, hc, rfl⟩ := h
    obtain ⟨c', hc', rfl⟩ := h'
    cases hc.symm.trans hc'
    rfl

end Launch

/-! ## The collapse -/

section Collapse

variable [Element α] {op : Operator α}

/-- The elements over a point, by ascending coordinate on the axis, folded from the seed. -/
def foldOver (op : Operator α) (t : Store α) (rect : Rect) (axis : Nat) (seed : α) (p : Point) : α :=
  ((rect.pointsOver axis p).map (t.getD op.identity)).foldl op.combine seed

theorem collapse_overwrites {s s' t : Store α} {rect rect' : Rect} {slice : Option Slice}
    {privilege : Privilege} {dest : Target} {src : View α} {axis : Nat} {seed : Option α}
    {e : Executor} (hd : s.target rect slice privilege = .ok dest)
    (hs : t.view rect' none = .ok src) (hne : rect.isEmpty = false)
    (hrun : e.perform (Plan.collapse op dest src axis seed) s = .ok () s') :
    s.Overwritten s' rect slice (foldOver op t rect' axis (seed.getD op.identity)) := by
  obtain ⟨_, hrect, hdcut⟩ := isCut_of_target hd
  obtain ⟨_, hrect', hscut⟩ := isCut_of_view hs
  have hframe := Call.frame (c := .collapse op src axis seed) hd hscut.made e
  simp only [Call.plan, hrun] at hframe
  refine ⟨hframe.1, ?_⟩
  intro p hp
  cases hplan : Plan.collapse op dest src axis seed with
  | error cause =>
    rw [hplan] at hrun
    cases hrun
  | ok passes =>
    rw [hplan] at hrun
    rw [collapse_ok_iff, if_neg (by simp [Target.isEmpty, hrect, hne])] at hplan
    obtain ⟨_, _, hrank, _, span, hspan, hproj, rfl⟩ := hplan
    have haxis : axis < src.rank := (List.getElem?_eq_some_iff.mp hspan).1
    obtain ⟨values, hvalues, hget⟩ :=
      collapse_element hdcut hscut hrank haxis hproj (perform_ok.mp hrun) (hrect ▸ hp)
    rw [hrect', mapM_get_view hs op.identity fun q hq => Rect.containsPoint_of_pointsOver hq]
      at hvalues
    cases hvalues
    rw [← get_placed (target_ok_iff.mp hd).2.2 hframe.1.bounds hp]
    exact hget

theorem axisCollapse_overwrites (ctx : TaskContext α) {args : Wire.CollapseArgs} {s t : Store α}
    {source : Region α} {privilege : Privilege} {slice : Option Slice}
    (hargs : Wire.CollapseArgs.decode ctx.args = .ok args) (hfutures : ctx.futures = [])
    (hregions : ctx.regions = [.readWrite s, source])
    (hsource : source.binding? = some (t, privilege)) (hne : args.initRect.isEmpty = false)
    (hslice : Launch.Picks ctx.indexPoint args.collapseDim slice)
    (hadmits : s.Admits args.initRect slice) (hreads : source.Reads args.inRect none)
    (hfolds : Folds args) (op : Operator α) (e : Executor) :
    ∃ s', (Launch.body op e .axisCollapse).output? ctx = some s' ∧
      s.Overwritten s' args.initRect slice (foldOver op t args.inRect args.axis op.identity) := by
  have haccepts : ctx.Accepts .axisCollapse := ⟨args, hargs, by simp [hfutures], .readWrite s, source,
    hregions, .inr ⟨slice, hslice, hadmits, hreads, hfolds⟩⟩
  obtain ⟨ctx', hrun⟩ := (axisCollapse_accepts op e).mpr haccepts
  obtain ⟨args', hargs', _, out, source', hregions', hrest⟩ := Launch.axisCollapse_ok_iff.mp hrun
  cases hargs.symm.trans hargs'
  cases hregions.symm.trans hregions'
  rw [if_neg (by simp [hne])] at hrest
  obtain ⟨slice', hslice', dest, hdest, src, hsrc, houtput⟩ := hrest
  cases hslice.unique hslice'
  obtain ⟨_, _, hbinding, _, htarget⟩ := Region.output_ok_iff.mp hdest
  cases hbinding
  obtain ⟨_, _, hbinding', _, hview⟩ := Region.input_ok_iff.mp hsrc
  cases hsource.symm.trans hbinding'
  have hconsumed : ctx.consumed.regions = [.readWrite s, source] := hregions
  obtain ⟨s', hkernel, hctx'⟩ := Launch.onOutput_inv houtput hconsumed rfl
  refine ⟨s', ?_, ?_⟩
  · refine Launch.output?_eq (b := .done) ?_ hctx' rfl
    simp only [Launch.body, Launch.bodyIn, run_bind_eq_ok, run_pure_eq_ok]
    exact ⟨(), ctx', hrun, trivial, rfl⟩
  · rw [hfutures] at hkernel
    exact collapse_overwrites htarget hview hne hkernel

end Collapse

/-! ## The fan-in -/

section FanIn

/-- What the candidates from the one in `slot` on show at a point, in their order. Each lies in the
slice of its slot; an absent one shows nothing. -/
def shown (default : α) (sliceOf : Nat → Option Slice) (p : Point) : Nat → List (Region α) → List α
  | _, [] => []
  | slot, r :: candidates =>
    match r.binding? with
    | some (s, _) =>
      s.getD default (p.placed (sliceOf slot)) :: shown default sliceOf p (slot + 1) candidates
    | none => shown default sliceOf p (slot + 1) candidates

/-- A store bound for every slot shows its elements in one slice after the other. -/
theorem shown_replicate (default : α) (sliceOf : Nat → Option Slice) (p : Point) (slot n : Nat)
    (s : Store α) :
    shown default sliceOf p slot (List.replicate n (.readOnly s)) =
      (List.range n).map fun i => s.getD default (p.placed (sliceOf (slot + i))) := by
  induction n generalizing slot with
  | zero => rfl
  | succ n ih =>
    have hnext : ∀ i : Nat, slot + 1 + i = slot + (i + 1) := fun i => by omega
    simp only [List.replicate_succ, shown, Region.binding?, ih, hnext, List.range_succ_eq_map,
      List.map_cons, List.map_map]
    rfl

theorem mapM_get_presentInputs {rect : Rect} {sliceOf : Nat → Except Trap (Option Slice)}
    {f : Nat → Option Slice} (hf : ∀ slot slice, sliceOf slot = .ok slice → slice = f slot)
    {slot : Nat} {candidates : List (Region α)} {inputs : List (View α)}
    (h : Launch.presentInputs rect sliceOf slot candidates = .ok inputs) (default : α) {p : Point}
    (hp : rect.containsPoint p = true) :
    (inputs.mapM fun v => v.get p) = .ok (shown default f p slot candidates) := by
  induction candidates generalizing slot inputs with
  | nil =>
    cases h
    rfl
  | cons r candidates ih =>
    rw [presentInputs_cons] at h
    split at h
    · rename_i habsent
      have hnone : r.binding? = none := by cases r <;> first | rfl | cases habsent
      simp only [shown, hnone]
      exact ih h
    · obtain ⟨slice, hslice, v, hv, others, hothers, rfl⟩ := h
      obtain rfl := hf slot slice hslice
      obtain ⟨s, _, hbinding, _, hview⟩ := Region.input_ok_iff.mp hv
      rw [List.mapM_cons, get_view hview default hp, ih hothers]
      simp only [shown, hbinding]
      rfl

variable [Element α] {op : Operator α}

theorem foldAt_fanIn {s : Store α} {dest : Target} {first : View α} {others : List (View α)}
    (hd : dest.IsCut s) (hrect : ∀ v ∈ first :: others, v.rect = dest.rect) {p : Point}
    (hp : dest.rect.containsPoint p = true) {values : List α}
    (hvalues : ((first :: others).mapM fun v => v.get p) = .ok values) (old : α) :
    Pass.foldAt (fun (pos : Vector Int (others.length + 2)) => feedAll op first others pos.toList)
      (boxPositions (Pass.fanIn op dest first others).axes (Pass.fanIn op dest first others).origin)
      (dest.window.at p) old = op.foldFirst values := by
  rw [List.mapM_cons] at hvalues
  obtain ⟨a, ha, hvalues⟩ := bind_eq_ok.mp hvalues
  obtain ⟨as, has, hvalues⟩ := bind_eq_ok.mp hvalues
  obtain rfl := pure_eq_ok.mp hvalues
  have hpoint : ∀ v ∈ first :: others, v.rect.containsPoint p = true := by
    intro v hv
    rw [hrect v hv]
    exact hp
  refine (foldAt_through (rect_fanInWindows hrect) _ (dest.window.at p) old).trans ?_
  have hfaithful : (destination (fanInWindows dest first others)).Faithful s.bounds := hd.faithful
  have hfilter := filter_standing (rect_fanInWindows hrect _ (destination_mem _)) hfaithful hp
  change ((dest.rect.points.map (standing (fanInWindows dest first others))).filter fun pos =>
    destination pos == (destination (fanInWindows dest first others)).at p).foldl _ old = _
  rw [hfilter, List.foldl_cons, List.foldl_nil, feedAll_standing op hpoint ha has]
  rfl

theorem fanIn_overwrites {s s' : Store α} {rect : Rect} {slice : Option Slice}
    {privilege : Privilege} {dest : Target} {sliceOf : Nat → Except Trap (Option Slice)}
    {f : Nat → Option Slice} {slot : Nat} {candidates : List (Region α)} {inputs : List (View α)}
    {e : Executor} (hd : s.target rect slice privilege = .ok dest)
    (hf : ∀ slot slice, sliceOf slot = .ok slice → slice = f slot)
    (hinputs : Launch.presentInputs rect sliceOf slot candidates = .ok inputs)
    (hne : rect.isEmpty = false) (hrun : e.perform (Plan.fanIn op dest inputs) s = .ok () s') :
    s.Overwritten s' rect slice fun p =>
      op.foldFirst (shown op.identity f p slot candidates) := by
  obtain ⟨_, hrect, hdcut⟩ := isCut_of_target hd
  have hscut := (presentInputs_cut hinputs).2
  have hframe := Call.frame (c := .fanIn op inputs) hd (fun v hv => (hscut v hv).2.made) e
  simp only [Call.plan, hrun] at hframe
  refine ⟨hframe.1, ?_⟩
  intro p hp
  cases hplan : Plan.fanIn op dest inputs with
  | error cause =>
    rw [hplan] at hrun
    cases hrun
  | ok passes =>
    rw [hplan] at hrun
    rw [fanIn_ok_iff, if_neg (by simp [Target.isEmpty, hrect, hne])] at hplan
    obtain ⟨first, others, rfl, _, _, hrects, rfl⟩ := hplan
    have hpdest : dest.rect.containsPoint p = true := by rw [hrect]; exact hp
    obtain ⟨t, hpass, _, helement⟩ :=
      Pass.run_element (actsBy_fanIn hdcut (fun v hv => (hscut v hv).2.sound) hrects op) e s rfl
    have hrun := perform_ok.mp hrun
    rw [Edit.forM_cons _ _ _ hpass] at hrun
    cases hrun
    obtain ⟨old, hold⟩ := Store.element_inside (hdcut.faithful.inside p hpdest)
    rw [← get_placed (target_ok_iff.mp hd).2.2 hframe.1.bounds hp,
      View.get_eq (v := ⟨s', dest.window⟩) hpdest]
    change s'.element (dest.window.at p) = _
    rw [helement, hold]
    exact congrArg Except.ok
      (foldAt_fanIn hdcut hrects hpdest (mapM_get_presentInputs hf hinputs op.identity hp) old)

theorem radixFanIn_overwrites (ctx : TaskContext α) {args : Wire.RadixArgs} {s : Store α}
    {out : Region α} {candidates : List (Region α)} {privilege : Privilege} {radix : Nat}
    {node slice : Option Slice} (hargs : Wire.RadixArgs.decode ctx.args = .ok args)
    (hfutures : ctx.futures = []) (hregions : ctx.regions = out :: candidates)
    (hbinding : out.binding? = some (s, privilege)) (hradix : args.radix.toInt = radix)
    (hle : radix ≤ maxFanIn) (hslots : candidates.length ≤ radix)
    (hne : args.rect.isEmpty = false) (hnode : Launch.Picks ctx.indexPoint args.extraDimIn node)
    (hslice : Launch.Picks ctx.indexPoint args.extraDimOut slice)
    (hreads : CandidatesRead args.rect radix node candidates)
    (hout : out.Overwrites args.rect slice) (hpresent : ∃ r ∈ candidates, r.isAbsent = false)
    (op : Operator α) (e : Executor) :
    ∃ s', (Launch.body op e .radixFanIn).output? ctx = some s' ∧
      s.Overwritten s' args.rect slice fun p => op.foldFirst
        (shown op.identity (Launch.slotSlice .exact node radix) p 1 candidates) := by
  have hpos : 0 < radix := by
    obtain ⟨r, hr, _⟩ := hpresent
    have := List.length_pos_of_mem hr
    omega
  have haccepts : ctx.Accepts .radixFanIn := ⟨args, hargs, hfutures, out, candidates, hregions,
    radix, hradix, hpos, hle, hslots, .inr ⟨node, hnode, slice, hslice, hreads, hout, hpresent⟩⟩
  obtain ⟨ctx', hrun⟩ := (radixFanIn_accepts op e).mpr haccepts
  obtain ⟨args', hargs', _, out', candidates', hregions', radix', hradix', hrest⟩ :=
    Launch.radixFanIn_ok_iff.mp hrun
  cases hargs.symm.trans hargs'
  cases hregions.symm.trans hregions'
  have hsame : radix' = radix := by
    have := (fanInWidth_ok_iff.mp hradix').1
    omega
  subst hsame
  rw [if_neg (by simp [hne])] at hrest
  obtain ⟨node', hnode', offset, hoffset, slice', hslice', inputs, hinputs, dest, hdest, houtput⟩ :=
    hrest
  cases hnode.unique hnode'
  cases hslice.unique hslice'
  obtain ⟨_, _, hbinding', _, htarget⟩ := Region.output_ok_iff.mp hdest
  cases hbinding.symm.trans hbinding'
  obtain ⟨s', hkernel, hctx'⟩ := Launch.onOutput_inv houtput hregions hbinding
  refine ⟨s', ?_, fanIn_overwrites htarget (fun _ _ => eq_slotSlice hnode hoffset) hinputs hne hkernel⟩
  refine Launch.output?_eq (b := .done) ?_ hctx' hbinding
  simp only [Launch.body, Launch.bodyIn, run_bind_eq_ok, run_pure_eq_ok]
  exact ⟨(), ctx', hrun, trivial, rfl⟩

end FanIn

end GridFold
