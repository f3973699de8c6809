import GridFold.Pass.Total
import GridFold.Proofs.Blocks
import GridFold.Proofs.Elementwise

/-!
# GridFold.Proofs.Scratch

What the leaves of a shared-out total do to the scratch elements.

* `foldlM_foldAt` — each scratch element has the source elements folded into it that are met together
  with it, in their order.
* `mem_parallelLeaves` — a leaf folds into the scratch element of its slot alone.
* `foldLeaves_perm` — so the order of the leaves does not show.
-/

namespace GridFold

variable {α : Type}

/-- The element at a position, where there is one. -/
def View.elementD (v : View α) (default : α) (position : Int) : α :=
  v.feed (fun a _ => a) position default

theorem View.elementD_eq {v : View α} {position : Int} {a : α} (h : v.element position = .ok a)
    (default : α) : v.elementD default position = a := by
  rw [elementD, View.feed_eq h]

namespace Total

variable [Element α] {op : Operator α} {src : View α}

theorem size_emptyScratch (op : Operator α) (workers : Nat) :
    (emptyScratch op workers).size = spacing α * workers := Array.size_replicate

theorem foldAt_inside (op : Operator α) {scratch : Array α} {pos : Vector Int 2} {a : α} {j : Nat}
    (ha : src.element (source pos) = .ok a) (hj : destination pos = Int.ofNat j)
    (hin : j < scratch.size) :
    ∃ scratch', foldAt op src scratch pos = .ok scratch' ∧ scratch'.size = scratch.size ∧
      ∀ i, scratch'[i]? =
        if i = j then scratch[i]?.map (op.combine · a) else scratch[i]? := by
  have hpos : 0 ≤ destination pos ∧ (destination pos).toNat < scratch.size := by
    rw [hj]
    exact ⟨Int.natCast_nonneg j, hin⟩
  have htoNat : (destination pos).toNat = j := by
    rw [hj]
    rfl
  refine ⟨_, by rw [foldAt, ha]; exact dif_pos hpos, by simp, ?_⟩
  intro i
  rw [Array.getElem?_set]
  by_cases hi : i = j
  · subst hi
    simp [htoNat, hin, Operator.fold]
  · have : ¬ (destination pos).toNat = i := by omega
    rw [if_neg this, if_neg hi]

/-- The positions of the source that are met together with scratch element `i`. -/
def met (ps : List (Vector Int 2)) (i : Nat) : List Int :=
  (ps.filter fun pos => destination pos == Int.ofNat i).map fun pos => source pos

theorem met_cons (pos : Vector Int 2) (ps : List (Vector Int 2)) (i : Nat) :
    met (pos :: ps) i =
      if destination pos = Int.ofNat i then source pos :: met ps i else met ps i := by
  simp only [met, List.filter_cons, beq_iff_eq]
  split <;> rfl

/-- By induction on the steps: one that folds into another scratch element leaves this one to the
others. -/
theorem foldlM_foldAt (op : Operator α) (ps : List (Vector Int 2)) (scratch : Array α)
    (hin : ∀ pos ∈ ps, ∃ j < scratch.size, destination pos = Int.ofNat j)
    (hsrc : ∀ pos ∈ ps, ∃ a, src.element (source pos) = .ok a) :
    ∃ scratch', ps.foldlM (foldAt op src) scratch = .ok scratch' ∧
      scratch'.size = scratch.size ∧ ∀ i, scratch'[i]? = scratch[i]?.map fun acc =>
        ((met ps i).map (src.elementD op.identity)).foldl op.combine acc := by
  induction ps generalizing scratch with
  | nil => exact ⟨scratch, rfl, rfl, fun i => by simp [met]⟩
  | cons pos ps ih =>
    obtain ⟨j, hj, hpos⟩ := hin pos (by simp)
    obtain ⟨a, ha⟩ := hsrc pos (by simp)
    obtain ⟨next, hnext, hsize, hget⟩ := foldAt_inside op ha hpos hj
    obtain ⟨scratch', hrest, hsize', hget'⟩ := ih next
      (fun q hq => by rw [hsize]; exact hin q (by simp [hq])) fun q hq => hsrc q (by simp [hq])
    refine ⟨scratch', ?_, hsize'.trans hsize, ?_⟩
    · rw [List.foldlM_cons, hnext]
      exact hrest
    · intro i
      rw [hget', hget, met_cons, hpos]
      by_cases hi : i = j
      · rw [if_pos hi, if_pos (by rw [hi]), Option.map_map, List.map_cons, View.elementD_eq ha]
        rfl
      · rw [if_neg hi, if_neg fun h => hi (Int.ofNat.inj h).symm]

theorem foldLeaves_eq (leaves : List (Leaf 2)) (scratch : Array α) :
    foldLeaves op src leaves scratch =
      (leaves.flatMap Leaf.positions).foldlM (foldAt op src) scratch := by
  induction leaves generalizing scratch with
  | nil => rfl
  | cons leaf leaves ih =>
    rw [foldLeaves, List.foldlM_cons, List.flatMap_cons, List.foldlM_append]
    congr 1
    funext next
    exact ih next

/-! ## The leaves -/

/-- One step of the scratch element alone. -/
def apart : Vector Int 2 := #v[1, 0]

@[simp]
theorem destination_apart : destination apart = 1 := rfl

@[simp]
theorem source_apart : source apart = 0 := rfl

theorem boxPositions_advance {k : Nat} (axes : List (Axis k)) (origin steps : Vector Int k) (n : Int) :
    boxPositions axes (advance origin steps n) =
      (boxPositions axes origin).map fun pos => advance pos steps n := by
  simp only [boxPositions_eq_map, List.map_map]
  apply List.map_congr_left
  intro index _
  exact positionAt_advance axes origin steps n index

theorem positions_inSlot (spacing : Int) (leaf : Leaf 2) :
    (leaf.inSlot spacing).positions = leaf.positions.map fun pos =>
      advance pos apart (spacing * (Int.ofNat leaf.slot - 1)) := by
  have horigin : (leaf.inSlot spacing).origin =
      advance leaf.origin apart (spacing * (Int.ofNat leaf.slot - 1)) := by
    ext i hi
    rw [getElem_advance]
    match i with
    | 0 => simp [Leaf.inSlot, apart, destination]
    | 1 => simp [Leaf.inSlot, apart]
  rw [Leaf.positions_eq, horigin, Leaf.positions_eq, ← boxPositions_advance]
  rfl

/-- The scratch element of a slot. -/
def cell (α : Type) [Element α] (slot : Nat) : Nat := spacing α * (slot - 1)

theorem spacing_pos : 0 < spacing α := by
  unfold spacing
  omega

theorem cell_injective {l m : Nat} (hl : 0 < l) (hm : 0 < m) (h : cell α l = cell α m) : l = m := by
  have := Nat.eq_of_mul_eq_mul_left spacing_pos h
  omega

theorem cell_lt {slot workers : Nat} (h : slot ≤ workers) (hpos : 0 < slot) :
    cell α slot < spacing α * workers :=
  Nat.mul_lt_mul_of_pos_left (by omega) spacing_pos

theorem offsetFrom_replicate_zero (lo : Point) (n : Nat) (p : Point) :
    offsetFrom lo (List.replicate n 0) p = 0 := by
  induction lo generalizing n p with
  | nil => rfl
  | cons l lo ih =>
    cases p with
    | nil => cases n <;> rfl
    | cons c p =>
      cases n with
      | zero => exact offsetFrom_nil _ _
      | succ n =>
        rw [List.replicate_succ, offsetFrom_cons, List.headD_cons, List.tail_cons, ih]
        simp

omit [Element α] in
theorem boxPositions_parallel (src : View α) :
    boxPositions (parallelAxes src) #v[0, src.window.base] =
      src.rect.points.map fun p => #v[0, src.window.at p] := by
  have h := boxPositions_axesOf sourceCost src.rect.spans
    #v[List.replicate src.rank 0, src.window.strides] #v[0, src.window.base]
  rw [Rect.points_eq_grid]
  refine h.trans (List.map_congr_left fun p _ => ?_)
  ext i hi
  match i with
  | 0 => simp [offsetFrom_replicate_zero]
  | 1 =>
    simp only [Vector.getElem_zipWith]
    rfl

omit [Element α] in
theorem positions_serial (src : View α) :
    (Leaf.mk (serialAxes src) #v[src.window.base] 1).positions =
      src.rect.points.map (standing #v[src.window]) := by
  have hrect : ∀ w ∈ #v[src.window], w.rect = src.rect := by simp [View.rect]
  rw [Leaf.positions_eq, ← boxPositions_windows sharedCost hrect]
  simp [serialAxes]

/-- Each leaf folds points of the source into the scratch element of its slot. -/
theorem mem_parallelLeaves {minLength workers : Nat} (hw : 0 < workers) {leaf : Leaf 2}
    (h : leaf ∈ parallelLeaves minLength workers src) :
    (0 < leaf.slot ∧ leaf.slot ≤ workers) ∧ ∀ pos ∈ leaf.positions,
      destination pos = Int.ofNat (cell α leaf.slot) ∧
        ∃ p, src.rect.containsPoint p = true ∧ source pos = src.window.at p := by
  obtain ⟨whole, hwhole, rfl⟩ := List.mem_map.mp h
  have hslot := (slots_leavesOf minLength workers 1 _ _ hw).2 whole hwhole
  have hpos : 0 < whole.slot := by omega
  refine ⟨⟨hpos, by change whole.slot ≤ workers; omega⟩, ?_⟩
  intro pos hmem
  rw [positions_inSlot] at hmem
  obtain ⟨q, hq, rfl⟩ := List.mem_map.mp hmem
  obtain ⟨parts, hparts⟩ := leavesOf_parts minLength workers 1 (parallelAxes src)
    #v[0, src.window.base]
  have hbox := mem_boxPositions hparts hwhole hq
  rw [boxPositions_parallel] at hbox
  obtain ⟨p, hp, rfl⟩ := List.mem_map.mp hbox
  constructor
  · have hpred : Int.ofNat whole.slot - 1 = Int.ofNat (whole.slot - 1) := by
      simp only [Int.ofNat_eq_natCast]
      omega
    rw [destination_advance, destination_apart, hpred]
    simp [destination, cell, Leaf.inSlot]
  · refine ⟨p, Rect.mem_points.mp hp, ?_⟩
    rw [source_advance, source_apart]
    simp [source]

/-- A leaf meets the scratch element of its slot and no other. -/
theorem met_leaf {minLength workers : Nat} (hw : 0 < workers) {leaf : Leaf 2}
    (h : leaf ∈ parallelLeaves minLength workers src) (i : Nat) :
    met leaf.positions i =
      if i = cell α leaf.slot then leaf.positions.map fun pos => source pos else [] := by
  have hmeet := (mem_parallelLeaves hw h).2
  split
  · rename_i hi
    have hall :
        leaf.positions.filter (fun pos => destination pos == Int.ofNat i) = leaf.positions := by
      rw [List.filter_eq_self]
      intro pos hpos
      rw [(hmeet pos hpos).1, hi, beq_self_eq_true]
    rw [met, hall]
  · rename_i hi
    have hnone : leaf.positions.filter (fun pos => destination pos == Int.ofNat i) = [] := by
      rw [List.filter_eq_nil_iff]
      intro pos hpos h
      rw [(hmeet pos hpos).1, beq_iff_eq] at h
      exact hi (Int.ofNat.inj h).symm
    rw [met, hnone]
    rfl

theorem met_flatMap (leaves : List (Leaf 2)) (i : Nat) :
    met (leaves.flatMap Leaf.positions) i = leaves.flatMap fun l => met l.positions i := by
  simp only [met, List.filter_flatMap, List.map_flatMap]

theorem slots_parallelLeaves {minLength workers : Nat} (hw : 0 < workers) (src : View α) :
    (parallelLeaves minLength workers src).Pairwise fun l m => l.slot < m.slot := by
  rw [parallelLeaves, List.pairwise_map]
  exact (slots_leavesOf minLength workers 1 _ _ hw).1

/-! ## Any order -/

section Order

variable {minLength workers : Nat} {order : List (Leaf 2)}

theorem inside_of_mem {ps : List (Leaf 2)} (hw : 0 < workers)
    (hps : ∀ leaf ∈ ps, leaf ∈ parallelLeaves minLength workers src) {scratch : Array α}
    (hsize : scratch.size = spacing α * workers) :
    ∀ pos ∈ ps.flatMap Leaf.positions, ∃ j < scratch.size, destination pos = Int.ofNat j := by
  intro pos hpos
  obtain ⟨leaf, hleaf, hpos⟩ := List.mem_flatMap.mp hpos
  obtain ⟨⟨hslot, hle⟩, hmeet⟩ := mem_parallelLeaves hw (hps leaf hleaf)
  exact ⟨cell α leaf.slot, by rw [hsize]; exact cell_lt hle hslot, (hmeet pos hpos).1⟩

theorem readable_of_mem {ps : List (Leaf 2)} (hw : 0 < workers) (hv : src.Sound)
    (hps : ∀ leaf ∈ ps, leaf ∈ parallelLeaves minLength workers src) :
    ∀ pos ∈ ps.flatMap Leaf.positions, ∃ a, src.element (source pos) = .ok a := by
  intro pos hpos
  obtain ⟨leaf, hleaf, hpos⟩ := List.mem_flatMap.mp hpos
  obtain ⟨p, hp, hat⟩ := ((mem_parallelLeaves hw (hps leaf hleaf)).2 pos hpos).2
  rw [hat]
  exact hv.element hp

/-- A leaf looks at one scratch element and changes no other. -/
theorem foldLeaf_cell (op : Operator α) (hw : 0 < workers) (hv : src.IsCut) {leaf : Leaf 2}
    (hleaf : leaf ∈ parallelLeaves minLength workers src) {scratch : Array α}
    (hsize : scratch.size = spacing α * workers) :
    ∃ scratch', foldLeaf op src scratch leaf = .ok scratch' ∧ scratch'.size = scratch.size ∧
      ∀ i, scratch'[i]? = if i = cell α leaf.slot then
          scratch[i]?.map fun acc =>
            ((leaf.positions.map fun pos => source pos).map (src.elementD op.identity)).foldl
              op.combine acc
        else scratch[i]? := by
  have hone : ∀ l ∈ [leaf], l ∈ parallelLeaves minLength workers src := by
    intro l hl
    rw [List.mem_singleton.mp hl]
    exact hleaf
  have hflat : [leaf].flatMap Leaf.positions = leaf.positions := List.flatMap_singleton _ _
  have hin := inside_of_mem hw hone hsize
  have hsrc := readable_of_mem hw hv.sound hone
  rw [hflat] at hin hsrc
  obtain ⟨scratch', hrun, hsize', hget⟩ := foldlM_foldAt op _ scratch hin hsrc
  refine ⟨scratch', hrun, hsize', ?_⟩
  intro i
  rw [hget, met_leaf hw hleaf]
  split
  · rfl
  · simp

theorem cells_parallelLeaves (hw : 0 < workers) (src : View α) :
    (parallelLeaves minLength workers src).Pairwise fun l m => cell α l.slot ≠ cell α m.slot := by
  refine (slots_parallelLeaves hw src).imp_of_mem ?_
  intro l m hl hm hlm h
  have := cell_injective (mem_parallelLeaves hw hl).1.1 (mem_parallelLeaves hw hm).1.1 h
  omega

theorem met_perm (hw : 0 < workers) (horder : order.Perm (parallelLeaves minLength workers src))
    (i : Nat) : met (order.flatMap Leaf.positions) i =
      met ((parallelLeaves minLength workers src).flatMap Leaf.positions) i := by
  rw [met_flatMap, met_flatMap]
  symm
  refine flatMap_perm horder.symm ((cells_parallelLeaves hw src).imp_of_mem ?_)
  intro l m hl hm hlm
  rw [met_leaf hw hl, met_leaf hw hm]
  by_cases hi : i = cell α l.slot
  · exact .inr (if_neg fun h => hlm (hi.symm.trans h))
  · exact .inl (if_neg hi)

/-- The leaves run to their end in any order, and always leave the same scratch elements. -/
theorem foldLeaves_element (op : Operator α) (hw : 0 < workers) (hv : src.IsCut)
    (horder : order.Perm (parallelLeaves minLength workers src)) {scratch : Array α}
    (hsize : scratch.size = spacing α * workers) :
    ∃ scratch', foldLeaves op src order scratch = .ok scratch' ∧
      ∀ i, scratch'[i]? = scratch[i]?.map fun acc =>
        ((met ((parallelLeaves minLength workers src).flatMap Leaf.positions) i).map
          (src.elementD op.identity)).foldl op.combine acc := by
  have hmem : ∀ leaf ∈ order, leaf ∈ parallelLeaves minLength workers src := fun leaf h =>
    horder.mem_iff.mp h
  obtain ⟨scratch', hrun, _, hget⟩ := foldlM_foldAt op _ scratch
    (inside_of_mem hw hmem hsize) (readable_of_mem hw hv.sound hmem)
  refine ⟨scratch', (foldLeaves_eq order scratch).trans hrun, ?_⟩
  intro i
  rw [hget, met_perm hw horder]

theorem foldLeaves_perm (hw : 0 < workers) (hv : src.IsCut)
    (horder : order.Perm (parallelLeaves minLength workers src)) {scratch : Array α}
    (hsize : scratch.size = spacing α * workers) :
    foldLeaves op src order scratch =
      foldLeaves op src (parallelLeaves minLength workers src) scratch := by
  obtain ⟨s₁, hrun₁, hget₁⟩ := foldLeaves_element op hw hv horder hsize
  obtain ⟨s₂, hrun₂, hget₂⟩ := foldLeaves_element op hw hv (.refl _) hsize
  have : s₁ = s₂ := Array.ext_getElem? fun i => by rw [hget₁, hget₂]
  rw [hrun₁, hrun₂, this]

end Order

end Total

end GridFold
