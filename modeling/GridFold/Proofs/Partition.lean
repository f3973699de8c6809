import GridFold.Proofs.Sharing

/-!
# GridFold.Proofs.Partition

The leaves of a box, as boxes.

* `sharesOf` — the leaves together with the workers that each still has. The slots of these workers, laid
  end to end, are the slots of all (`slots_sharesOf`).
* `unsplit_sharesOf` — a leaf that could be shared out further has no axis left that is worth halving.
* `leaves_partition` — every index of the box lies in exactly one leaf, and a leaf starts where its corner
  says.
-/

namespace GridFold

variable {k : Nat}

/-- A leaf, and the workers that it still has. -/
structure Share (k : Nat) where
  leaf : Leaf k
  workers : Nat

def Share.slots (s : Share k) : List Nat := List.range' s.leaf.slot s.workers

def sharesOf (minLength workers slot : Nat) (axes : List (Axis k)) (origin : Vector Int k) :
    List (Share k) :=
  if workers ≤ 1 ∨ boxVolume axes ≤ minLength then [⟨⟨axes, origin, slot⟩, workers⟩]
  else
    match bestCut? axes with
    | none => [⟨⟨axes, origin, slot⟩, workers⟩]
    | some c =>
      if c.axis.cost = 0 ∨ c.axis.extent ≤ 1 then [⟨⟨axes, origin, slot⟩, workers⟩]
      else
        let half := c.axis.extent / 2
        sharesOf minLength (workers / 2) slot (c.resized half) origin
          ++ sharesOf minLength (workers - workers / 2) (slot + workers / 2)
            (c.resized (c.axis.extent - half)) (advance origin c.axis.steps (Int.ofNat half))
termination_by workers

theorem map_leaf_sharesOf (minLength workers slot : Nat) (axes : List (Axis k))
    (origin : Vector Int k) :
    (sharesOf minLength workers slot axes origin).map Share.leaf =
      leavesOf minLength workers slot axes origin := by
  induction workers using Nat.strongRecOn generalizing slot axes origin with
  | ind workers ih =>
    rw [sharesOf, leavesOf]
    by_cases hstop : workers ≤ 1 ∨ boxVolume axes ≤ minLength
    · rw [if_pos hstop, if_pos hstop]
      rfl
    rw [if_neg hstop, if_neg hstop]
    cases bestCut? axes with
    | none => rfl
    | some c =>
      by_cases hshort : c.axis.cost = 0 ∨ c.axis.extent ≤ 1
      · simp only [if_pos hshort]
        rfl
      · simp only [if_neg hshort]
        rw [List.map_append, ih _ (by omega), ih _ (by omega)]

theorem slots_sharesOf (minLength workers slot : Nat) (axes : List (Axis k))
    (origin : Vector Int k) :
    (sharesOf minLength workers slot axes origin).flatMap Share.slots =
      List.range' slot workers := by
  induction workers using Nat.strongRecOn generalizing slot axes origin with
  | ind workers ih =>
    have hwhole : [(⟨⟨axes, origin, slot⟩, workers⟩ : Share k)].flatMap Share.slots =
        List.range' slot workers := by
      rw [List.flatMap_cons, List.flatMap_nil, List.append_nil, Share.slots]
    rw [sharesOf]
    split
    · exact hwhole
    rename_i hworkers
    split
    · exact hwhole
    split
    · exact hwhole
    have hsum : workers / 2 + (workers - workers / 2) = workers := by omega
    rw [List.flatMap_append, ih _ (by omega), ih _ (by omega), List.range'_append_1, hsum]

/-- Where the best of the axes is free or has a single index, every axis that costs something has. -/
theorem extent_eq_one_of_bestCut? {axes : List (Axis k)} (hpos : ∀ a ∈ axes, 0 < a.extent) {c : Cut k}
    (hc : bestCut? axes = some c) (hshort : c.axis.cost = 0 ∨ c.axis.extent ≤ 1) :
    ∀ a ∈ axes, a.cost ≠ 0 → a.extent = 1 := by
  intro a ha hcost
  have hbest : c.axis.score = 0 := by
    rw [Axis.score, Nat.mul_eq_zero]
    omega
  have hscore := bestCut?_score hc a ha
  rw [hbest, Nat.le_zero, Axis.score, Nat.mul_eq_zero] at hscore
  have := hpos a ha
  omega

/-- The share was not split though it had workers and indices enough: it has no axis to split. -/
def Share.Unsplit (minLength : Nat) (s : Share k) : Prop :=
  1 < s.workers → minLength < boxVolume s.leaf.axes → ∀ a ∈ s.leaf.axes, a.cost ≠ 0 → a.extent = 1

theorem unsplit_sharesOf (minLength workers slot : Nat) {axes : List (Axis k)} (origin : Vector Int k)
    (hpos : ∀ a ∈ axes, 0 < a.extent) :
    ∀ s ∈ sharesOf minLength workers slot axes origin, s.Unsplit minLength := by
  induction workers using Nat.strongRecOn generalizing slot axes origin with
  | ind workers ih =>
    rw [sharesOf]
    split
    · rename_i hstop
      intro s hs hworkers hvolume
      obtain rfl := List.mem_singleton.mp hs
      simp only at hworkers hvolume
      omega
    rename_i hworkers
    split
    · rename_i hnone
      intro s hs _ _ a ha
      obtain rfl := List.mem_singleton.mp hs
      simp only [eq_nil_of_bestCut? hnone] at ha
      cases ha
    rename_i c hc
    split
    · rename_i hshort
      intro s hs _ _
      obtain rfl := List.mem_singleton.mp hs
      exact extent_eq_one_of_bestCut? hpos hc hshort
    rename_i hcut
    intro s hs
    rcases List.mem_append.mp hs with hs | hs
    · exact ih _ (by omega) _ _ (resized_pos hpos hc (by omega)) s hs
    · exact ih _ (by omega) _ _ (resized_pos hpos hc (by omega)) s hs

/-! ## Sub-boxes -/

/-- The leaf walks through the indices in `part`, which are there and are whole where an axis costs
nothing. Its operands start at the corner, the first of them in the part of the leaf's slot. -/
structure Leaf.IsSubBox (spacing : Int) (axes : List (Axis (k + 1))) (origin : Vector Int (k + 1))
    (part : List Stretch) (leaf : Leaf (k + 1)) : Prop where
  axes_eq : leaf.axes = partAxes axes part
  inside : List.Forall₂ (fun (s : Stretch) (a : Axis (k + 1)) =>
    0 < s.length ∧ s.first + s.length ≤ a.extent ∧ (a.cost = 0 → s = ⟨0, a.extent⟩)) part axes
  origin_eq : ∀ (j : Nat) (hj : j < k + 1), leaf.origin[j] =
    origin[j] + dot axes (part.map Stretch.first) j hj +
      if j = 0 then spacing * (Int.ofNat leaf.slot - 1) else 0

theorem Leaf.IsPart.isSubBox {axes : List (Axis (k + 1))} {origin : Vector Int (k + 1)}
    {part : List Stretch} {leaf : Leaf (k + 1)} (h : leaf.IsPart axes origin part)
    (hfits : List.Forall₂ Stretch.Fits part axes) (hpos : ∀ a ∈ leaf.axes, 0 < a.extent)
    (spacing : Int) : (leaf.inSlot spacing).IsSubBox spacing axes origin part where
  axes_eq := h.axes_eq
  inside := by
    rw [h.axes_eq] at hpos
    clear h
    induction hfits with
    | nil => exact .nil
    | @cons s a part axes hs _ ih =>
      obtain ⟨hhead, htail⟩ := List.forall_mem_cons.mp hpos
      exact .cons ⟨hhead, hs.le, hs.whole⟩ (ih htail)
  origin_eq := by
    intro j hj
    have hstart : leaf.origin[j] = origin[j] + dot axes (part.map Stretch.first) j hj := by
      simp only [h.origin_eq, partOrigin, getElem_positionAt]
    change (leaf.origin.set 0 (destination leaf.origin + spacing * (Int.ofNat leaf.slot - 1)))[j] = _
    rw [Vector.getElem_set, ← hstart]
    by_cases hzero : j = 0
    · subst hzero
      rw [if_pos rfl, if_pos rfl]
      rfl
    · rw [if_neg (Ne.symm hzero), if_neg hzero, Int.add_zero]

/-- Of parts that have no index in common, one has an index if any has. -/
theorem countP_inPart {parts : List (List Stretch)} {index : List Nat}
    (hdisjoint : parts.Pairwise fun p q => ∀ index, ¬(inPart p index = true ∧ inPart q index = true))
    (h : ∃ p ∈ parts, inPart p index = true) : parts.countP (fun p => inPart p index) = 1 := by
  induction parts with
  | nil =>
    obtain ⟨p, hp, _⟩ := h
    cases hp
  | cons p parts ih =>
    obtain ⟨hp, hparts⟩ := List.pairwise_cons.mp hdisjoint
    by_cases hin : inPart p index = true
    · have hothers : parts.countP (fun p => inPart p index) = 0 := by
        rw [List.countP_eq_zero]
        intro q hq hqin
        exact hp q hq index ⟨hin, hqin⟩
      rw [List.countP_cons, if_pos hin, hothers]
    · rw [List.countP_cons, if_neg hin, Nat.add_zero]
      refine ih hparts ?_
      obtain ⟨q, hq, hqin⟩ := h
      rcases List.mem_cons.mp hq with rfl | hq
      · exact absurd hqin hin
      · exact ⟨q, hq, hqin⟩

theorem SharesOut.subBoxes {axes : List (Axis (k + 1))} {origin : Vector Int (k + 1)}
    {part : List Stretch} {parts : List (List Stretch)} {leaves : List (Leaf (k + 1))}
    (h : SharesOut axes origin part parts leaves)
    (hpos : ∀ leaf ∈ leaves, ∀ a ∈ leaf.axes, 0 < a.extent) (spacing : Int) :
    List.Forall₂ (Leaf.IsSubBox spacing axes origin) parts (leaves.map (Leaf.inSlot spacing)) := by
  obtain ⟨hlength, hwalked⟩ := List.forall₂_iff_get.mp h.walked
  rw [List.forall₂_map_right_iff]
  refine List.forall₂_iff_get.mpr ⟨hlength, ?_⟩
  intro i hi hi'
  exact (hwalked i hi hi').isSubBox (h.fits _ (List.getElem_mem hi)) (hpos _ (List.getElem_mem hi')) spacing

/-- The leaves of a box without empty axes share its indices out: each lies in exactly one leaf. A leaf is
a sub-box that is not empty and that has every axis of cost zero in full. Leaves have slots of their own
among those of the workers. A leaf with more than one worker and more than the least number of indices
has a single index on every axis that costs something. -/
theorem leaves_partition (minLength workers slot : Nat) (spacing : Int) {axes : List (Axis (k + 1))}
    (origin : Vector Int (k + 1)) (haxes : ∀ a ∈ axes, 0 < a.extent) (hworkers : 0 < workers) :
    let leaves := (leavesOf minLength workers slot axes origin).map (Leaf.inSlot spacing)
    let shares := sharesOf minLength workers slot axes origin
    (∃ parts, List.Forall₂ (Leaf.IsSubBox spacing axes origin) parts leaves ∧
      ∀ index, List.Forall₂ (· < ·) index (axes.map Axis.extent) →
        parts.countP (fun part => inPart part index) = 1) ∧
    (leaves.map Leaf.slot).Nodup ∧
    (∀ leaf ∈ leaves, slot ≤ leaf.slot ∧ leaf.slot < slot + workers) ∧
    leaves = shares.map (fun s => s.leaf.inSlot spacing) ∧
    shares.flatMap Share.slots = List.range' slot workers ∧
    ∀ s ∈ shares, s.Unsplit minLength := by
  intro leaves shares
  obtain ⟨hslots, hrange⟩ := slots_leavesOf minLength workers slot axes origin hworkers
  refine ⟨?_, ?_, ?_, ?_, slots_sharesOf _ _ _ _ _, unsplit_sharesOf _ _ _ _ haxes⟩
  · obtain ⟨parts, hparts⟩ := leavesOf_parts minLength workers slot axes origin
    refine ⟨parts, hparts.subBoxes (extents_pos_leavesOf _ _ _ origin haxes) spacing, ?_⟩
    intro index hindex
    refine countP_inPart hparts.disjoint ((hparts.covers index).mp ?_)
    rw [inPart_wholePart]
    exact mem_indices_iff.mpr hindex
  · rw [List.map_map]
    exact (List.pairwise_map.mpr (hslots.imp Nat.ne_of_lt) : List.Pairwise (· ≠ ·) _)
  · intro leaf hleaf
    obtain ⟨uncut, huncut, rfl⟩ := List.mem_map.mp hleaf
    exact hrange uncut huncut
  · change (leavesOf minLength workers slot axes origin).map _ = _
    rw [← map_leaf_sharesOf, List.map_map]
    rfl

/-- Eight rows of two, the rows free, and four workers. There are two leaves, with a column and two workers
each, and the second one takes the third slot. -/
theorem leaves_partition_columns :
    let axes : List (Axis 2) := [⟨8, #v[0, 2], 0⟩, ⟨2, #v[1, 1], 2⟩]
    let leaves := (leavesOf 0 4 1 axes #v[0, 0]).map (Leaf.inSlot 8)
    let shares := sharesOf 0 4 1 axes #v[0, 0]
    leaves.map (fun leaf => (leaf.axes.map Axis.extent, leaf.origin, leaf.slot)) =
        [([8, 1], #v[0, 0], 1), ([8, 1], #v[17, 1], 3)] ∧
      (∃ parts, List.Forall₂ (Leaf.IsSubBox 8 axes #v[0, 0]) parts leaves ∧
        parts.countP (fun part => inPart part [7, 1]) = 1) ∧
      shares.map Share.slots = [[1, 2], [3, 4]] ∧
      ∀ s ∈ shares, ∀ a ∈ s.leaf.axes, a.cost ≠ 0 → a.extent = 1 := by
  intro axes leaves shares
  have haxes : ∀ a ∈ axes, 0 < a.extent := by
    intro a ha
    rcases List.mem_pair.mp ha with rfl | rfl <;> decide
  obtain ⟨⟨parts, hparts, hexactly⟩, _, _, _, _, hunsplit⟩ :=
    leaves_partition 0 4 1 8 #v[0, 0] haxes (by decide)
  have hlarge : ∀ s ∈ shares, 1 < s.workers ∧ 0 < boxVolume s.leaf.axes := by decide +kernel
  refine ⟨by decide +kernel, ⟨parts, hparts, hexactly [7, 1] ?_⟩, by decide +kernel, ?_⟩
  · exact .cons (by decide) (.cons (by decide) .nil)
  · intro s hs
    exact hunsplit s hs (hlarge s hs).1 (hlarge s hs).2

end GridFold
