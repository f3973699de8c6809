import GridFold.Proofs.Frame

/-!
# GridFold.Proofs.StillAxes

Axes along which the destination stands still, and whether they are split.

* `Leaf.KeepsStill` — the leaf has each of them in full.
* `Resolves` — indices that share a position of the destination agree on every axis along which it moves. In the
  windows of a store's targets they do, however often these are widened (`Target.Made.resolves`).
* `apart_iff_keepsStill` — then leaves write no element twice exactly where they keep the still axes.
* `Masked` — the still axes cost nothing; then leaves keep them. A fold makes sure of it. The other kernels do
  not look, and a target that is cut out of a store has no still axes.
* `still_axes_whole` — what kernels make of this; `widened_axis_split` — an axis that is not kept.
-/

namespace GridFold

variable {α : Type} {k : Nat}

/-- Each axis of the box along which the destination stands still is as long in the leaf. -/
def Leaf.KeepsStill (axes : List (Axis (k + 1))) (leaf : Leaf (k + 1)) : Prop :=
  List.Forall₂ (fun a b : Axis (k + 1) => destination a.steps = 0 → b.extent = a.extent) axes leaf.axes

/-- The leaves keep the axes along which the destination stands still, and write no element twice. -/
structure Pass.SplitsSafely (p : Pass α) (e : Executor) : Prop where
  still : ∀ leaf ∈ e.schedule p.axes p.origin, leaf.KeepsStill p.axes
  apart : (e.schedule p.axes p.origin).Pairwise Leaf.Apart

/-! ## Boxes -/

section Boxes

variable {axes : List (Axis (k + 1))} {origin : Vector Int (k + 1)}

/-- Halving an axis along which the destination stands still is worth nothing. -/
def Masked (axes : List (Axis (k + 1))) : Prop := ∀ a ∈ axes, destination a.steps = 0 → a.cost = 0

/-- The axis, at no cost if the destination stands still along it. -/
def Axis.masked (a : Axis (k + 1)) : Axis (k + 1) :=
  { a with cost := if destination a.steps = 0 then 0 else 1 }

theorem Axis.masked_eq_zero {a : Axis (k + 1)} : a.masked.cost = 0 ↔ destination a.steps = 0 := by
  simp [masked]

theorem extents_masked (axes : List (Axis (k + 1))) :
    (axes.map Axis.masked).map Axis.extent = axes.map Axis.extent := by
  simp [Axis.masked, Function.comp_def]

/-- Indices that share a position of the destination agree on every axis along which it moves. -/
def Resolves (axes : List (Axis (k + 1))) (origin : Vector Int (k + 1)) : Prop :=
  ∀ i ∈ indices (axes.map Axis.extent), ∀ j ∈ indices (axes.map Axis.extent),
    destination (positionAt axes origin i) = destination (positionAt axes origin j) →
      AgreeWhereCut (axes.map Axis.masked) i j

/-- Where every still axis costs nothing, each leaf has it in full. -/
theorem keepsStill_of_masked {part : List Stretch} {leaf : Leaf (k + 1)}
    (hmasked : Masked axes) (hfits : List.Forall₂ Stretch.Fits part axes)
    (hpart : leaf.IsPart axes origin part) : leaf.KeepsStill axes := by
  rw [Leaf.KeepsStill, hpart.axes_eq]
  clear hpart
  induction hfits with
  | nil => exact .nil
  | @cons s a part axes hs _ ih =>
    refine .cons ?_ (ih fun b hb => hmasked b (List.mem_cons_of_mem _ hb))
    intro hstill
    change s.length = a.extent
    rw [hs.whole (hmasked a (by simp) hstill)]

/-- A part whose leaf keeps the still axes would also fit if these cost nothing. -/
theorem fits_masked {part : List Stretch} {leaf : Leaf (k + 1)}
    (hfits : List.Forall₂ Stretch.Fits part axes) (hpart : leaf.IsPart axes origin part)
    (h : leaf.KeepsStill axes) : List.Forall₂ Stretch.Fits part (axes.map Axis.masked) := by
  rw [Leaf.KeepsStill, hpart.axes_eq] at h
  clear hpart
  induction hfits with
  | nil => exact .nil
  | @cons s a part axes hs _ ih =>
    obtain ⟨hhead, htail⟩ := List.forall₂_cons.mp h
    refine .cons ⟨hs.le, ?_⟩ (ih htail)
    intro hcost
    have hlength : s.length = a.extent := hhead (Axis.masked_eq_zero.mp hcost)
    obtain ⟨first, length⟩ := s
    obtain rfl : first = 0 := by
      have := hs.le
      simp only at this hlength
      omega
    exact congrArg (Stretch.mk 0) hlength

/-- The first index of a part that has indices. -/
theorem first_inPart {part : List Stretch} (hfits : List.Forall₂ Stretch.Fits part axes)
    (hpos : ∀ a ∈ partAxes axes part, 0 < a.extent) :
    inPart part (part.map Stretch.first) = true ∧
      part.map Stretch.first ∈ indices (axes.map Axis.extent) := by
  induction hfits with
  | nil => exact ⟨rfl, List.mem_singleton.mpr rfl⟩
  | @cons s a part axes hs _ ih =>
    obtain ⟨hhead, htail⟩ := List.forall_mem_cons.mp hpos
    obtain ⟨hin, hindex⟩ := ih htail
    have hle := hs.le
    have hlength : 0 < s.length := hhead
    constructor
    · simp [inPart, Stretch.contains, hin, hlength]
    · exact mem_indices_cons.mpr ⟨by omega, hindex⟩

/-- A part that has indices, and gathers them, has every still axis in full. -/
theorem keepsStill_of_gathers {part : List Stretch} (hfits : List.Forall₂ Stretch.Fits part axes)
    (hpos : ∀ a ∈ partAxes axes part, 0 < a.extent) (h : Gathers axes origin part) :
    List.Forall₂ (fun a b : Axis (k + 1) => destination a.steps = 0 → b.extent = a.extent) axes
      (partAxes axes part) := by
  induction hfits generalizing origin with
  | nil => exact .nil
  | @cons s a part axes hs hfits ih =>
    obtain ⟨hhead, htail⟩ := List.forall_mem_cons.mp hpos
    obtain ⟨hin, hindex⟩ := first_inPart hfits htail
    have hle := hs.le
    have hlength : 0 < s.length := hhead
    have hfirst : s.contains s.first = true := by simp [Stretch.contains, hlength]
    have hwhole : destination a.steps = 0 → s.length = a.extent := by
      intro hstill
      by_contra hne
      -- the same indices on the other axes, and on this one an index that the part does not have
      obtain ⟨x, hx, hout⟩ : ∃ x, x < a.extent ∧ ¬ s.contains x = true := by
        simp only [Stretch.contains_iff]
        by_cases hzero : s.first = 0
        · exact ⟨s.length, by omega, by omega⟩
        · exact ⟨0, by omega, by omega⟩
      have hsame : destination (positionAt (a :: axes) origin (s.first :: part.map Stretch.first)) =
          destination (positionAt (a :: axes) origin (x :: part.map Stretch.first)) := by
        simp only [positionAt, positionAt_advance, destination_advance, hstill, Int.mul_zero]
      have hgathered := h _ (mem_indices_cons.mpr ⟨by omega, hindex⟩) _
        (mem_indices_cons.mpr ⟨hx, hindex⟩) hsame (by rw [inPart, hfirst, hin]; rfl)
      rw [inPart, Bool.and_eq_true] at hgathered
      exact hout hgathered.1
    have hgathers : Gathers axes (advance origin a.steps (Int.ofNat s.first)) part := by
      intro i hi j hj hij hip
      have hgathered := h _ (mem_indices_cons.mpr ⟨by omega, hi⟩) _
        (mem_indices_cons.mpr ⟨by omega, hj⟩) hij (by rw [inPart, hfirst, hip]; rfl)
      rw [inPart, Bool.and_eq_true] at hgathered
      exact hgathered.2
    exact .cons hwhole (ih htail hgathers)

theorem keepsStill_whole {e : Executor} (h : e.parallelWorkers? (boxVolume axes) = none) :
    ∀ leaf ∈ e.schedule axes origin, leaf.KeepsStill axes := by
  intro leaf hleaf
  rw [Executor.schedule, h, List.mem_singleton] at hleaf
  rw [hleaf]
  exact List.forall₂_same.mpr fun _ _ _ => rfl

/-- Leaves that keep the still axes are apart, and no others are. -/
theorem apart_iff_keepsStill (hresolves : Resolves axes origin) (e : Executor) :
    (e.schedule axes origin).Pairwise Leaf.Apart ↔
      ∀ leaf ∈ e.schedule axes origin, leaf.KeepsStill axes := by
  cases he : e.parallelWorkers? (boxVolume axes) with
  | none =>
    refine iff_of_true ?_ (keepsStill_whole he)
    rw [Executor.schedule, he]
    exact List.pairwise_singleton _ _
  | some workers =>
    obtain ⟨parts, hparts⟩ := schedule_parts e axes origin
    rw [pairwise_apart_iff hparts]
    constructor
    · intro hgathers leaf hleaf
      obtain ⟨part, hpart, hwalk⟩ := hparts.exists_part hleaf
      have hpos : ∀ a ∈ leaf.axes, 0 < a.extent := by
        rw [Executor.schedule, he] at hleaf
        exact extents_pos_leavesOf _ _ _ _ (extents_pos (Executor.parallelWorkers?_some he).2) _ hleaf
      rw [hwalk.axes_eq] at hpos
      rw [Leaf.KeepsStill, hwalk.axes_eq]
      exact keepsStill_of_gathers (hparts.fits _ hpart) hpos (hgathers _ hpart)
    · intro hstill part hpart i hi j hj hij hin
      obtain ⟨leaf, hleaf, hwalk⟩ := hparts.exists_leaf hpart
      have hfits := fits_masked (hparts.fits _ hpart) hwalk (hstill _ hleaf)
      refine inPart_of_agree hfits ?_ (hresolves i hi j hj hij) hin
      rw [extents_masked]
      exact hj

theorem keepsStill_schedule (hmasked : Masked axes) (e : Executor) :
    ∀ leaf ∈ e.schedule axes origin, leaf.KeepsStill axes := by
  intro leaf hleaf
  obtain ⟨parts, hparts⟩ := schedule_parts e axes origin
  obtain ⟨part, hpart, hwalk⟩ := hparts.exists_part hleaf
  exact keepsStill_of_masked hmasked (hparts.fits _ hpart) hwalk

end Boxes

/-! ## Windows -/

section Windows

/-- Points that the window shows at one position agree on each axis with a stride other than zero. -/
def Window.Resolves (w : Window) : Prop :=
  ∀ p q, w.rect.containsPoint p = true → w.rect.containsPoint q = true → w.at p = w.at q →
    ∀ n, w.strides.getD n 0 ≠ 0 → p[n]? = q[n]?

theorem Window.Faithful.resolves {w : Window} {bounds : Rect} (h : w.Faithful bounds) :
    w.Resolves := by
  intro p q hp hq hpq n _
  rw [h.apart p q hp hq hpq]

/-- A window that got one more axis, of stride zero, still tells the points apart along the others. -/
theorem Window.Resolves.insert {w w' : Window} {axis : Nat} (h : w.Resolves)
    (hstrides : w'.strides = w.strides.insertIdx axis 0)
    (hunder : ∀ q, w'.rect.containsPoint q = true →
      ∃ p c, q = p.insertIdx axis c ∧ w.rect.containsPoint p = true ∧ w'.at q = w.at p) :
    w'.Resolves := by
  intro q q' hq hq' hqq' n hn
  obtain ⟨p, c, rfl, hp, hat⟩ := hunder q hq
  obtain ⟨p', c', rfl, hp', hat'⟩ := hunder q' hq'
  have hagree := h p p' hp hp' (hat.symm.trans (hqq'.trans hat'))
  rw [hstrides, List.getD_eq_getElem?_getD, List.getElem?_insertIdx] at hn
  rw [List.getElem?_insertIdx, List.getElem?_insertIdx]
  by_cases hlt : n < axis
  · rw [if_pos hlt] at hn
    rw [if_pos hlt, if_pos hlt]
    exact hagree n (by rwa [List.getD_eq_getElem?_getD])
  · rw [if_neg hlt] at hn
    rw [if_neg hlt, if_neg hlt]
    by_cases heq : n = axis
    · refine absurd ?_ hn
      rw [if_pos heq]
      split <;> rfl
    · rw [if_neg heq] at hn
      rw [if_neg heq, if_neg heq]
      exact hagree (n - 1) (by rwa [List.getD_eq_getElem?_getD])

/-- By induction on how the target came about. -/
theorem Target.Made.resolves {s : Store α} {t : Target} (h : t.Made s) : t.window.Resolves := by
  induction h with
  | cut h => exact (isCut_of_target h).2.2.faithful.resolves
  | widened ht h ih =>
    unfold Target.broadcastAxis at h
    split at h
    · rename_i w hw
      cases h
      obtain ⟨haxis, hspans, _, hstrides⟩ := Window.broadcastAxis_inv hw
      refine ih.insert hstrides ?_
      intro q hq
      rw [Rect.containsPoint, hspans] at hq
      obtain ⟨c, p, rfl, _, hp⟩ := Rect.exists_of_spansContain_insertIdx haxis hq
      exact ⟨p, c, rfl, hp, at_broadcastAxis ht.shows.1 hw hp c⟩
    · cases h

theorem resolves_over {s : Store α} {dest : Target} {src : View α} {axis : Nat} (hd : dest.Made s)
    (hrank : dest.rank + 1 = src.rank) (haxis : axis < src.rank)
    (hproj : ∀ (p : Point) (c : Int),
      src.rect.containsPoint (p.insertIdx axis c) = true → dest.rect.containsPoint p = true)
    (lo : Int) : (dest.over src.rect axis lo).Resolves := by
  have hunder : ∀ q, src.rect.containsPoint q = true → ∃ p c, q = p.insertIdx axis c ∧
      dest.rect.containsPoint p = true ∧ (dest.over src.rect axis lo).at q = dest.window.at p := by
    intro q hq
    obtain ⟨p, c, rfl, _⟩ := Rect.exists_eq_insertIdx haxis hq
    have hp := hproj p c hq
    exact ⟨p, c, rfl, hp, at_over hrank haxis hd.shows.1 lo (Rect.length_of_spansContain hp) c⟩
  exact hd.resolves.insert rfl hunder

/-- Indices whose points agree on each axis with a stride other than zero. -/
theorem agree_masked {cost : Vector Int (k + 1) → Nat} {spans : List Span}
    {strides : Vector (List Int) (k + 1)} {i j : List Nat}
    (hi : i ∈ indices (spans.map Span.extent)) (hj : j ∈ indices (spans.map Span.extent))
    (h : ∀ n, (destination strides).getD n 0 ≠ 0 → (pointAt spans i)[n]? = (pointAt spans j)[n]?) :
    AgreeWhereCut ((axesOf cost (spans.map Span.extent) strides).map Axis.masked) i j := by
  induction spans generalizing strides i j with
  | nil => trivial
  | cons s spans ih =>
    obtain ⟨a, i, rfl, _, hi⟩ := eq_cons_of_mem_indices hi
    obtain ⟨b, j, rfl, _, hj⟩ := eq_cons_of_mem_indices hj
    refine ⟨?_, ih hi hj ?_⟩
    · intro hcost
      have hmoves : (destination strides).headD 0 ≠ 0 := by
        intro hstill
        refine hcost (Axis.masked_eq_zero.mpr ?_)
        rw [destination_map, hstill]
      have hfirst := h 0 (by rwa [List.getD_eq_getElem?_getD, ← List.head?_eq_getElem?,
        ← List.headD_eq_head?_getD])
      simp only [pointAt, List.getElem?_cons_zero, Option.some.injEq, Int.ofNat_eq_natCast] at hfirst
      omega
    · intro n hn
      have hnext := h (n + 1) (by
        rw [destination_map] at hn
        simpa [List.getD_eq_getElem?_getD] using hn)
      simpa [pointAt] using hnext

theorem resolves_windows {r : Rect} {windows : Vector Window (k + 1)}
    (hrect : ∀ w ∈ windows, w.rect = r) (h : (destination windows).Resolves)
    (cost : Vector Int (k + 1) → Nat) :
    Resolves (axesOf cost r.extents (windows.map Window.strides)) (windows.map Window.base) := by
  intro i hi j hj hij
  rw [extents_axesOf] at hi hj
  rw [positionAt_windows cost hrect hi, positionAt_windows cost hrect hj, destination_standing,
    destination_standing] at hij
  have hr : (destination windows).rect = r := hrect _ (destination_mem windows)
  refine agree_masked hi hj ?_
  rw [destination_map]
  exact h _ _ (by rw [hr]; exact containsPoint_pointAt hi) (by rw [hr]; exact containsPoint_pointAt hj)
    hij

theorem exists_of_mem_axesOf {cost : Vector Int k → Nat} {extents : List Nat}
    {strides : Vector (List Int) k} {a : Axis k} (h : a ∈ axesOf cost extents strides) :
    ∃ n, n < extents.length ∧ a.steps = strides.map (fun s => s.getD n 0) ∧ a.cost = cost a.steps := by
  induction extents generalizing strides with
  | nil => cases h
  | cons extent extents ih =>
    rcases List.mem_cons.mp h with rfl | h
    · refine ⟨0, Nat.zero_lt_succ _, ?_, rfl⟩
      simp only [List.getD_eq_getElem?_getD, ← List.head?_eq_getElem?, ← List.headD_eq_head?_getD]
    · obtain ⟨n, hn, hsteps, hcost⟩ := ih h
      refine ⟨n + 1, Nat.succ_lt_succ hn, ?_, hcost⟩
      rw [hsteps, Vector.map_map]
      congr 1
      funext s
      simp [List.getD_eq_getElem?_getD]

end Windows

/-! ## Kernels -/

section Kernels

variable {s : Store α} {dest : Target} {p : Pass α}

/-- How the passes of the kernels move: through windows of the destination's rectangle, or through a
source with the destination over it. -/
inductive Pass.Moves (dest : Target) : Pass α → Prop where
  | beside {n : Nat} {windows : Vector Window (n + 1)} (body : Vector Int (n + 1) → Edit α Unit)
      (hdest : destination windows = dest.window) (hrect : ∀ w ∈ windows, w.rect = dest.rect) :
      Moves dest (.through sharedCost dest.rect.extents windows body)
  | along [Element α] {src : View α} {axis : Nat} (op : Operator α) (lo : Int)
      (hrank : dest.rank + 1 = src.rank) (haxis : axis < src.rank)
      (hproj : ∀ (p : Point) (c : Int),
        src.rect.containsPoint (p.insertIdx axis c) = true → dest.rect.containsPoint p = true) :
      Moves dest (.foldInto op (dest.over src.rect axis lo) src)

theorem Call.moves {c : Call α} {plan : Plan α} (h : c.plan dest = .ok plan) :
    ∀ p ∈ plan, p.Moves dest := by
  have hmodify : ∀ f, Plan.modify dest f = .ok plan → ∀ p ∈ plan, p.Moves dest := fun f h =>
    (modify_ok_iff.mp h).forall_mem fun _ => .beside _ rfl (by simp [Target.rect])
  have hmap : ∀ {β : Type} (src : View β) f, Plan.map dest src f = .ok plan →
      ∀ p ∈ plan, p.Moves dest := fun src f h =>
    (map_ok_iff.mp h).forall_mem fun hrect =>
      .beside _ rfl (by simpa [View.rect, Target.rect] using hrect)
  have hmodifyWith : ∀ {β : Type} (src : View β) f, Plan.modifyWith dest src f = .ok plan →
      ∀ p ∈ plan, p.Moves dest := fun src f h =>
    (modifyWith_ok_iff.mp h).forall_mem fun hrects =>
      .beside _ rfl (by simpa [View.rect, Target.rect] using hrects.2)
  have hzip : ∀ {β γ : Type} (a : View β) (b : View γ) f, Plan.zip dest a b f = .ok plan →
      ∀ p ∈ plan, p.Moves dest := fun a b f h =>
    (zip_ok_iff.mp h).forall_mem fun hrects =>
      .beside _ rfl (by simpa [View.rect, Target.rect] using hrects)
  cases c with
  | fill value => exact (fill_ok_iff.mp h).forall_mem fun _ => .beside _ rfl (by simp [Target.rect])
  | modify f => exact hmodify f h
  | map src f => exact hmap src f h
  | modifyWith src f => exact hmodifyWith src f h
  | zip a b f => exact hzip a b f h
  | combine op lhs rhs => exact hzip lhs rhs _ h
  | combineInPlace op rhs => exact hmodifyWith rhs _ h
  | combineScalar op lhs scalar => exact hmap lhs _ h
  | combineScalarInPlace op scalar => exact hmodify _ h
  | collapse op src axis seed =>
    exact collapse_forall_mem h (.beside _ rfl (by simp [Target.rect])) fun lo hrank haxis hproj =>
      .along op lo hrank haxis hproj
  | fanIn op inputs =>
    refine fanIn_forall_mem h ?_
    rintro first others rfl hrect
    change (Pass.through sharedCost dest.rect.extents (fanInWindows dest first others) _).Moves dest
    exact .beside _ rfl (rect_fanInWindows hrect)

theorem Pass.Moves.resolves (h : p.Moves dest) (hd : dest.Made s) : Resolves p.axes p.origin := by
  cases h with
  | beside body hdest hrect =>
    refine resolves_windows hrect ?_ sharedCost
    rw [hdest]
    exact hd.resolves
  | @along _ src axis op lo hrank haxis hproj =>
    have hrect : ∀ w ∈ #v[dest.over src.rect axis lo, src.window], w.rect = src.rect := by
      simp [Target.over, View.rect]
    exact resolves_windows hrect (resolves_over hd hrank haxis hproj lo) foldCost

theorem masked_foldCost (extents : List Nat) (strides : Vector (List Int) (k + 1)) :
    Masked (axesOf foldCost extents strides) := by
  intro a ha hstill
  obtain ⟨_, _, _, hcost⟩ := exists_of_mem_axesOf ha
  rw [hcost, foldCost, if_pos hstill]

theorem masked_of_strides {cost : Vector Int (k + 1) → Nat} {extents : List Nat}
    {strides : Vector (List Int) (k + 1)} (hlength : (destination strides).length = extents.length)
    (h : ∀ m ∈ destination strides, m ≠ 0) : Masked (axesOf cost extents strides) := by
  intro a ha hstill
  obtain ⟨n, hn, hsteps, _⟩ := exists_of_mem_axesOf ha
  rw [← hlength] at hn
  rw [hsteps, destination_map, List.getD_eq_getElem _ _ hn] at hstill
  exact absurd hstill (h _ (List.getElem_mem hn))

theorem spanStrides_ne_zero {spans : List Span} {p : Point}
    (h : Rect.spansContain spans p = true) : ∀ m ∈ spanStrides spans, m ≠ 0 := by
  induction spans generalizing p with
  | nil =>
    intro m hm
    cases hm
  | cons s spans ih =>
    cases p with
    | nil => cases h
    | cons c p =>
      rw [Rect.spansContain_cons] at h
      obtain ⟨hlo, hhi⟩ := spanOffset_bounds h.2
      rw [spanStrides_cons]
      intro m hm
      rcases List.mem_cons.mp hm with rfl | hm
      · exact (lt_of_le_of_lt hlo hhi).ne'
      · exact ih h.2 m hm

theorem strides_ne_zero (hd : dest.IsCut s) (hne : dest.isEmpty = false) :
    ∀ m ∈ dest.window.strides, m ≠ 0 := by
  obtain ⟨slice, hw⟩ := hd.window
  have hplaced := (window_ok_iff.mp ⟨_, hw⟩).2 _ (Rect.containsPoint_lo hne)
  rw [(window_inv hw).2.1]
  intro m hm
  refine spanStrides_ne_zero hplaced m ?_
  cases slice with
  | none => exact hm
  | some slice => exact List.mem_of_mem_eraseIdx hm

theorem Pass.Moves.masked (h : p.Moves dest) (hd : dest.IsCut s) (hne : dest.isEmpty = false) :
    Masked p.axes := by
  cases h with
  | @beside _ windows body hdest hrect =>
    have hstrides : destination (windows.map Window.strides) = dest.window.strides := by
      rw [destination_map, hdest]
    have hmasked : Masked (axesOf sharedCost dest.rect.extents (windows.map Window.strides)) := by
      apply masked_of_strides
      · rw [hstrides, hd.length_strides, Rect.extents, List.length_map, Rect.rank]
      · rw [hstrides]
        exact strides_ne_zero hd hne
    exact hmasked
  | along op lo hrank haxis hproj => exact masked_foldCost _ _

theorem Pass.Moves.splitsSafely (h : p.Moves dest) (hd : dest.Made s) {e : Executor}
    (hstill : ∀ leaf ∈ e.schedule p.axes p.origin, leaf.KeepsStill p.axes) : p.SplitsSafely e :=
  ⟨hstill, (apart_iff_keepsStill (h.resolves hd) e).mpr hstill⟩

/-- A kernel keeps the axes along which its destination stands still, and so writes no element from two
leaves, wherever the destination was cut from a store without being widened; wherever it folds; and
wherever it takes the box of a pass as a whole. In all other cases two leaves write one element exactly where
such an axis was halved. -/
theorem still_axes_whole (c : Call α) {plan : Plan α} (hd : dest.Made s)
    (h : c.plan dest = .ok plan) (e : Executor) :
    (dest.IsCut s → ∀ p ∈ plan, p.SplitsSafely e) ∧
    (∀ [Element α] op src axis seed, c = .collapse op src axis seed →
      ∀ p ∈ plan.tail, p.SplitsSafely e) ∧
    (∀ p ∈ plan, e.parallelWorkers? (boxVolume p.axes) = none → p.SplitsSafely e) ∧
    ∀ p ∈ plan, (e.schedule p.axes p.origin).Pairwise Leaf.Apart ↔
      ∀ leaf ∈ e.schedule p.axes p.origin, leaf.KeepsStill p.axes := by
  have hmoves := Call.moves h
  refine ⟨?_, ?_, ?_, ?_⟩
  · intro hcut p hp
    cases hempty : dest.isEmpty with
    | true =>
      obtain rfl : plan = [] := Except.ok.inj (h.symm.trans (c.plan_empty hempty))
      cases hp
    | false =>
      exact (hmoves p hp).splitsSafely hd (keepsStill_schedule ((hmoves p hp).masked hcut hempty) e)
  · rintro _ op src axis seed rfl p hp
    have hmem := List.mem_of_mem_tail hp
    rw [Call.plan, collapse_ok_iff] at h
    split at h
    · rw [h] at hp
      cases hp
    · obtain ⟨_, _, _, _, span, _, _, rfl⟩ := h
      refine (hmoves p hmem).splitsSafely hd (keepsStill_schedule ?_ e)
      rw [collapsePasses, List.tail_cons] at hp
      split at hp
      · cases hp
      · rw [List.mem_singleton.mp hp]
        exact masked_foldCost _ _
  · intro p hp hwhole
    exact (hmoves p hp).splitsSafely hd (keepsStill_whole hwhole)
  · intro p hp
    exact apart_iff_keepsStill ((hmoves p hp).resolves hd) e

end Kernels

theorem still_axes_whole_line :
    let line : Rect := ⟨[⟨0, 3⟩], by decide, by decide⟩
    let s : Store UInt8 := .filled line 0
    let dest : Target := ⟨⟨line, 0, [1]⟩, .readWrite⟩
    let widened : Target := ⟨⟨⟨[⟨0, 3⟩, ⟨0, 1⟩], by decide, by decide⟩, 0, [1, 0]⟩, .readWrite⟩
    let u : Store UInt8 := .filled ⟨[⟨0, 3⟩, ⟨0, 1⟩, ⟨0, 2⟩], by decide, by decide⟩ 1
    let src : View UInt8 := ⟨u, ⟨u.bounds, 0, u.strides⟩⟩
    let plain : Pass UInt8 := .fill dest 1
    let repeated : Pass UInt8 := .fill widened 1
    let folding : Pass UInt8 := .foldInto .sum (widened.over src.rect 2 0) src
    let e : Executor := ⟨⟨.parallel, 0⟩, 2⟩
    dest.Made s ∧ widened.Made s ∧
      (Call.plan dest (.fill 1) = .ok [plain] ∧ plain.SplitsSafely e) ∧
      (Call.plan widened (.collapse .sum src 2 none) = .ok [.fill widened 0, folding] ∧
        folding.SplitsSafely e) ∧
      Call.plan widened (.fill 1) = .ok [repeated] ∧
        (e.schedule repeated.axes repeated.origin).length = 2 ∧
        (e.schedule repeated.axes repeated.origin).Pairwise Leaf.Apart := by
  intro line s dest widened u src plain repeated folding e
  have hcut : s.target line none .readWrite = .ok dest := rfl
  have hmade : dest.Made s := .cut hcut
  have hwidened : widened.Made s := .widened hmade (rfl : dest.broadcastAxis 1 ⟨0, 1⟩ = .ok widened)
  have hplain : Call.plan dest (.fill 1) = .ok [plain] := rfl
  have hfold : Call.plan widened (.collapse .sum src 2 none) = .ok [.fill widened 0, folding] := rfl
  have hrepeated : Call.plan widened (.fill 1) = .ok [repeated] := rfl
  refine ⟨hmade, hwidened, ⟨hplain, ?_⟩, ⟨hfold, ?_⟩, hrepeated, by decide +kernel, ?_⟩
  · exact (still_axes_whole _ hmade hplain e).1 (isCut_of_target hcut).2.2 _ (by simp)
  · exact (still_axes_whole _ hwidened hfold e).2.1 _ _ _ _ rfl _ (by simp)
  · refine ((still_axes_whole _ hwidened hrepeated e).2.2.2 _ (by simp)).mpr ?_
    unfold Leaf.KeepsStill
    decide +kernel

/-- One element, shown at four points and filled by two workers: both of them write it. -/
theorem widened_axis_split :
    let s : Store UInt8 := .filled ⟨[⟨0, 0⟩], by decide, by decide⟩ 0
    let dest : Target := ⟨⟨⟨[⟨0, 3⟩, ⟨0, 0⟩], by decide, by decide⟩, 0, [0, 1]⟩, .readWrite⟩
    let p : Pass UInt8 := .fill dest 1
    let leaves := Executor.schedule ⟨⟨.parallel, 0⟩, 2⟩ p.axes p.origin
    dest.Made s ∧ (Call.fill 1).plan dest = .ok [p] ∧
      leaves.map (fun leaf => leaf.positions.map destination) = [[0, 0], [0, 0]] ∧
      (¬ ∀ leaf ∈ leaves, leaf.KeepsStill p.axes) ∧ ¬ leaves.Pairwise Leaf.Apart := by
  intro s dest p leaves
  have hcut : s.target s.bounds none .readWrite = .ok ⟨⟨s.bounds, 0, [1]⟩, .readWrite⟩ := rfl
  have hmade : dest.Made s := .widened (.cut hcut) (rfl : Target.broadcastAxis _ 0 ⟨0, 3⟩ = .ok dest)
  have hplan : (Call.fill 1).plan dest = .ok [p] := rfl
  have hwritten : leaves.map (fun leaf => leaf.positions.map destination) = [[0, 0], [0, 0]] := by
    decide +kernel
  have hshared : ¬ leaves.Pairwise Leaf.Apart := by
    intro hapart
    have hmapped : (leaves.map fun leaf => leaf.positions.map destination).Pairwise
        fun l m => ∀ x ∈ l, ∀ y ∈ m, x ≠ y :=
      List.pairwise_map.mpr (hapart.imp fun hlm => by simpa [Leaf.Apart] using hlm)
    rw [hwritten] at hmapped
    exact (List.pairwise_cons.mp hmapped).1 [0, 0] (by simp) 0 (by simp) 0 (by simp) rfl
  refine ⟨hmade, hplan, hwritten, ?_, hshared⟩
  exact fun hstill => hshared ((Call.moves hplan _ (by simp)).splitsSafely hmade hstill).apart

end GridFold
