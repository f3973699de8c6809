import GridFold.Proofs.Sharing

/-!
# GridFold.Proofs.Separation

Why leaves can be walked in any order: what the destination meets.

A box `Separates` its leaves where two indices that put the destination on one position agree on
every axis that may be cut. Then

* `disjoint_leaves` — the destination meets no position in two leaves. `pairwise_apart_iff` says when this is
  so in general;
* `filter_leaves` — whatever the order of the leaves, the steps that meet a given position come in
  the order of the whole box.
-/

namespace GridFold

variable {k : Nat}

/-- The indices agree on every axis that costs something. -/
def AgreeWhereCut : List (Axis k) → List Nat → List Nat → Prop
  | a :: axes, i :: index, j :: other => (a.cost ≠ 0 → i = j) ∧ AgreeWhereCut axes index other
  | _, _, _ => True

/-- Indices that share a position of the destination agree wherever the box may be cut. -/
def Separates (axes : List (Axis (k + 1))) (origin : Vector Int (k + 1)) : Prop :=
  ∀ i ∈ indices (axes.map Axis.extent), ∀ j ∈ indices (axes.map Axis.extent),
    destination (positionAt axes origin i) = destination (positionAt axes origin j) →
      AgreeWhereCut axes i j

/-- No position of the destination is met in both leaves. -/
def Leaf.Apart (l m : Leaf (k + 1)) : Prop :=
  ∀ x ∈ l.positions, ∀ y ∈ m.positions, destination x ≠ destination y

/-! ## Lists in parts -/

/-- Parts of a list that split nothing `q` selects keep what it selects, in its order. -/
theorem filter_flatMap_filter {ι : Type} (xs : List ι) (q : ι → Bool) (ps : List (ι → Bool))
    (hdisj : ps.Pairwise fun p r => ∀ x, ¬(p x = true ∧ r x = true))
    (hwhole : ∀ p ∈ ps, ∀ x ∈ xs, ∀ y ∈ xs, q x = true → q y = true → p x = true → p y = true)
    (hcover : ∀ x ∈ xs, q x = true → ∃ p ∈ ps, p x = true) :
    (ps.flatMap fun p => xs.filter p).filter q = xs.filter q := by
  induction ps with
  | nil =>
    symm
    rw [List.flatMap_nil, List.filter_nil, List.filter_eq_nil_iff]
    intro x hx hq
    obtain ⟨p, hp, _⟩ := hcover x hx hq
    cases hp
  | cons p ps ih =>
    rw [List.pairwise_cons] at hdisj
    rw [List.flatMap_cons, List.filter_append]
    by_cases hmeet : ∃ x ∈ xs, q x = true ∧ p x = true
    · obtain ⟨x, hx, hqx, hpx⟩ := hmeet
      have hall : ∀ y ∈ xs, q y = true → p y = true :=
        fun y hy hqy => hwhole p (by simp) x hx y hy hqx hqy hpx
      have hrest : (ps.flatMap fun p => xs.filter p).filter q = [] := by
        rw [List.filter_eq_nil_iff]
        intro y hy hqy
        obtain ⟨r, hr, hyr⟩ := List.mem_flatMap.mp hy
        rw [List.mem_filter] at hyr
        exact hdisj.1 r hr y ⟨hall y hyr.1 hqy, hyr.2⟩
      rw [hrest, List.append_nil, List.filter_filter]
      apply List.filter_congr
      intro y hy
      by_cases hqy : q y = true
      · simp [hqy, hall y hy hqy]
      · simp [hqy]
    · have hnone : (xs.filter p).filter q = [] := by
        rw [List.filter_eq_nil_iff]
        intro y hy hqy
        rw [List.mem_filter] at hy
        exact hmeet ⟨y, hy.1, hqy, hy.2⟩
      rw [hnone, List.nil_append]
      refine ih hdisj.2 (fun r hr => hwhole r (by simp [hr])) ?_
      intro x hx hqx
      obtain ⟨r, hr, hrx⟩ := hcover x hx hqx
      rcases List.mem_cons.mp hr with rfl | hr
      · exact absurd ⟨x, hx, hqx, hrx⟩ hmeet
      · exact ⟨r, hr, hrx⟩

/-- Parts of a list that are disjoint and have all of it hold each of its entries once. -/
theorem flatMap_filter_perm {ι : Type} (xs : List ι) (ps : List (ι → Bool))
    (hdisj : ps.Pairwise fun p r => ∀ x, ¬(p x = true ∧ r x = true))
    (hcover : ∀ x ∈ xs, ∃ p ∈ ps, p x = true) : (ps.flatMap fun p => xs.filter p).Perm xs := by
  induction ps generalizing xs with
  | nil =>
    have hnil : xs = [] := List.eq_nil_iff_forall_not_mem.mpr fun x hx => by
      obtain ⟨p, hp, _⟩ := hcover x hx
      cases hp
    rw [hnil]
    rfl
  | cons p ps ih =>
    rw [List.pairwise_cons] at hdisj
    have hrest : (ps.flatMap fun r => xs.filter r) =
        ps.flatMap fun r => (xs.filter fun x => !p x).filter r := by
      apply List.flatMap_congr
      intro r hr
      rw [List.filter_filter]
      apply List.filter_congr
      intro x _
      cases hx : r x with
      | false => rfl
      | true =>
        have hpx : p x = false := Bool.eq_false_iff.mpr fun hpx => hdisj.1 r hr x ⟨hpx, hx⟩
        rw [hpx]
        rfl
    rw [List.flatMap_cons, hrest]
    refine (List.Perm.append_left _ (ih _ hdisj.2 ?_)).trans (List.filter_append_perm p xs)
    intro x hx
    rw [List.mem_filter, Bool.not_eq_true'] at hx
    obtain ⟨r, hr, hrx⟩ := hcover x hx.1
    rcases List.mem_cons.mp hr with rfl | hr
    · rw [hx.2] at hrx
      cases hrx
    · exact ⟨r, hr, hrx⟩

/-- Where at most one of the lists is not empty, their order does not matter. -/
theorem flatMap_perm {ι β : Type} {f : ι → List β} {xs ys : List ι} (h : xs.Perm ys)
    (hone : xs.Pairwise fun a b => f a = [] ∨ f b = []) : xs.flatMap f = ys.flatMap f := by
  induction h with
  | nil => rfl
  | cons x _ ih =>
    rw [List.pairwise_cons] at hone
    rw [List.flatMap_cons, List.flatMap_cons, ih hone.2]
  | swap x y l =>
    rw [List.pairwise_cons] at hone
    simp only [List.flatMap_cons, ← List.append_assoc]
    rcases hone.1 x (by simp) with h | h <;> simp [h]
  | trans hxy _ ih₁ ih₂ =>
    rw [ih₁ hone]
    exact ih₂ (hone.perm hxy fun h => h.symm)

/-! ## The steps of the leaves -/

theorem inPart_of_agree {axes : List (Axis k)} {part : List Stretch}
    (hfits : List.Forall₂ Stretch.Fits part axes) {i j : List Nat}
    (hj : j ∈ indices (axes.map Axis.extent)) (h : AgreeWhereCut axes i j)
    (hin : inPart part i = true) : inPart part j = true := by
  induction hfits generalizing i j with
  | nil =>
    rw [List.map_nil, indices, List.mem_singleton] at hj
    rw [hj]
    rfl
  | @cons s a part axes hs _ ih =>
    cases i with
    | nil => cases hin
    | cons m i =>
      obtain ⟨n, j, rfl, hn, hrest⟩ := eq_cons_of_mem_indices hj
      simp only [inPart, Bool.and_eq_true] at hin ⊢
      refine ⟨?_, ih hrest h.2 hin.2⟩
      by_cases hcost : a.cost = 0
      · rw [hs.whole hcost]
        simp [Stretch.contains, hn]
      · rw [← h.1 hcost]
        exact hin.1

theorem positions_isPart {axes : List (Axis k)} {origin : Vector Int k} {part : List Stretch}
    {leaf : Leaf k} (hfits : List.Forall₂ Stretch.Fits part axes)
    (h : leaf.IsPart axes origin part) :
    leaf.positions =
      ((indices (axes.map Axis.extent)).filter (inPart part)).map (positionAt axes origin) := by
  rw [Leaf.positions_eq, h.axes_eq, h.origin_eq, boxPositions_part hfits]

theorem map_positions {axes : List (Axis k)} {origin : Vector Int k} {parts : List (List Stretch)}
    {leaves : List (Leaf k)} (hw : List.Forall₂ (Leaf.IsPart axes origin) parts leaves)
    (hfits : ∀ p ∈ parts, List.Forall₂ Stretch.Fits p axes) :
    leaves.map Leaf.positions = parts.map fun p =>
      ((indices (axes.map Axis.extent)).filter (inPart p)).map (positionAt axes origin) := by
  induction hw with
  | nil => rfl
  | cons h _ ih =>
    rw [List.map_cons, List.map_cons, positions_isPart (hfits _ (by simp)) h,
      ih fun p hp => hfits p (by simp [hp])]

variable {axes : List (Axis k)} {origin : Vector Int k} {parts : List (List Stretch)}
  {leaves : List (Leaf k)}

theorem SharesOut.exists_inPart (h : SharesOut axes origin (wholePart axes) parts leaves)
    {index : List Nat} (hindex : index ∈ indices (axes.map Axis.extent)) :
    ∃ p ∈ parts, inPart p index = true :=
  (h.covers index).mp ((inPart_wholePart axes index).mpr hindex)

theorem flatMap_positions (h : SharesOut axes origin (wholePart axes) parts leaves) :
    leaves.flatMap Leaf.positions =
      (parts.flatMap fun p => (indices (axes.map Axis.extent)).filter (inPart p)).map
        (positionAt axes origin) := by
  rw [List.flatMap_def, map_positions h.walked h.fits, ← List.flatMap_def, ← List.map_flatMap]

theorem mem_boxPositions (h : SharesOut axes origin (wholePart axes) parts leaves) {leaf : Leaf k}
    (hleaf : leaf ∈ leaves) {pos : Vector Int k} (hpos : pos ∈ leaf.positions) :
    pos ∈ boxPositions axes origin := by
  obtain ⟨part, hpart, hwalk⟩ := h.exists_part hleaf
  rw [positions_isPart (h.fits _ hpart) hwalk] at hpos
  obtain ⟨index, hindex, rfl⟩ := List.mem_map.mp hpos
  rw [boxPositions_eq_map]
  exact List.mem_map_of_mem (List.mem_of_mem_filter hindex)

theorem exists_leaf (h : SharesOut axes origin (wholePart axes) parts leaves) {pos : Vector Int k}
    (hpos : pos ∈ boxPositions axes origin) : ∃ leaf ∈ leaves, pos ∈ leaf.positions := by
  rw [boxPositions_eq_map] at hpos
  obtain ⟨index, hindex, rfl⟩ := List.mem_map.mp hpos
  obtain ⟨part, hpart, hin⟩ := h.exists_inPart hindex
  obtain ⟨leaf, hleaf, hwalk⟩ := h.exists_leaf hpart
  refine ⟨leaf, hleaf, ?_⟩
  rw [positions_isPart (h.fits _ hpart) hwalk]
  exact List.mem_map_of_mem (List.mem_filter.mpr ⟨hindex, hin⟩)

/-- The leaves visit each index of the box once. -/
theorem perm_leaves (h : SharesOut axes origin (wholePart axes) parts leaves) :
    (leaves.flatMap Leaf.positions).Perm (boxPositions axes origin) := by
  have hperm := flatMap_filter_perm (indices (axes.map Axis.extent)) (parts.map inPart)
  rw [List.pairwise_map, List.flatMap_map] at hperm
  rw [flatMap_positions h, boxPositions_eq_map]
  refine (hperm h.disjoint ?_).map _
  intro index hindex
  obtain ⟨part, hpart, hin⟩ := h.exists_inPart hindex
  exact ⟨inPart part, List.mem_map_of_mem hpart, hin⟩

variable {axes : List (Axis (k + 1))} {origin : Vector Int (k + 1)} {parts : List (List Stretch)}
  {leaves : List (Leaf (k + 1))}

/-- With an index, the part has all those at its position of the destination. -/
def Gathers (axes : List (Axis (k + 1))) (origin : Vector Int (k + 1)) (part : List Stretch) : Prop :=
  ∀ i ∈ indices (axes.map Axis.extent), ∀ j ∈ indices (axes.map Axis.extent),
    destination (positionAt axes origin i) = destination (positionAt axes origin j) →
      inPart part i = true → inPart part j = true

/-- No position of the destination is met at indices of both parts. -/
def PartsApart (axes : List (Axis (k + 1))) (origin : Vector Int (k + 1)) (p q : List Stretch) : Prop :=
  ∀ i ∈ indices (axes.map Axis.extent), inPart p i = true →
    ∀ j ∈ indices (axes.map Axis.extent), inPart q j = true →
      destination (positionAt axes origin i) ≠ destination (positionAt axes origin j)

theorem symm_partsApart (axes : List (Axis (k + 1))) (origin : Vector Int (k + 1)) :
    Std.Symm (PartsApart axes origin) where
  symm _ _ h j hj hjp i hi hiq := (h i hi hiq j hj hjp).symm

theorem pairwise_partsApart (h : SharesOut axes origin (wholePart axes) parts leaves) :
    leaves.Pairwise Leaf.Apart ↔ parts.Pairwise (PartsApart axes origin) := by
  change leaves.Pairwise (fun l m =>
    ∀ x ∈ l.positions, ∀ y ∈ m.positions, destination x ≠ destination y) ↔ _
  rw [← List.pairwise_map (R := fun xs ys => ∀ x ∈ xs, ∀ y ∈ ys, destination x ≠ destination y),
    map_positions h.walked h.fits, List.pairwise_map]
  simp only [List.forall_mem_map, List.mem_filter, and_imp]
  rfl

/-- No two leaves share a position of the destination exactly where each part gathers its indices. -/
theorem pairwise_apart_iff (h : SharesOut axes origin (wholePart axes) parts leaves) :
    leaves.Pairwise Leaf.Apart ↔ ∀ p ∈ parts, Gathers axes origin p := by
  rw [pairwise_partsApart h]
  constructor
  · intro hapart p hp i hi j hj hij hin
    obtain ⟨q, hq, hjq⟩ := h.exists_inPart hj
    by_cases hpq : p = q
    · rw [hpq]
      exact hjq
    · have := symm_partsApart axes origin
      exact absurd hij (hapart.forall hp hq hpq i hi hin j hj hjq)
  · intro hgathers
    refine h.disjoint.imp_of_mem ?_
    intro p q hp _ hpq i hi hip j hj hjq hij
    exact hpq j ⟨hgathers p hp i hi j hj hij hip, hjq⟩

theorem disjoint_leaves (hsep : Separates axes origin)
    (h : SharesOut axes origin (wholePart axes) parts leaves) : leaves.Pairwise Leaf.Apart := by
  refine (pairwise_apart_iff h).mpr ?_
  intro p hp i hi j hj hij hin
  exact inPart_of_agree (h.fits p hp) hj (hsep i hi j hj hij) hin

/-- The steps of all leaves that meet position `d` are those of the box, in the order of the box. -/
theorem filter_leaves (hsep : Separates axes origin)
    (h : SharesOut axes origin (wholePart axes) parts leaves) {order : List (Leaf (k + 1))}
    (horder : order.Perm leaves) (d : Int) :
    (order.flatMap Leaf.positions).filter (fun x => destination x == d) =
      (boxPositions axes origin).filter (fun x => destination x == d) := by
  have hone : leaves.Pairwise fun l m =>
      l.positions.filter (fun x => destination x == d) = [] ∨
        m.positions.filter (fun x => destination x == d) = [] := by
    refine (disjoint_leaves hsep h).imp ?_
    intro l m hlm
    by_cases hl : ∃ x ∈ l.positions, destination x = d
    · obtain ⟨x, hx, hxd⟩ := hl
      right
      rw [List.filter_eq_nil_iff]
      intro y hy hyd
      exact hlm x hx y hy (by rw [hxd, eq_of_beq hyd])
    · left
      rw [List.filter_eq_nil_iff]
      intro x hx hxd
      exact hl ⟨x, hx, eq_of_beq hxd⟩
  rw [List.filter_flatMap, ← flatMap_perm horder.symm hone, ← List.filter_flatMap,
    flatMap_positions h, boxPositions_eq_map, List.filter_map, List.filter_map]
  congr 1
  have hfilter := filter_flatMap_filter (indices (axes.map Axis.extent))
    ((fun x => destination x == d) ∘ positionAt axes origin) (parts.map inPart)
  rw [List.flatMap_map, List.pairwise_map] at hfilter
  apply hfilter h.disjoint
  · intro p hp x hx y hy hqx hqy hpx
    obtain ⟨part, hpart, rfl⟩ := List.mem_map.mp hp
    refine inPart_of_agree (h.fits part hpart) hy (hsep x hx y hy ?_) hpx
    rw [Function.comp, beq_iff_eq] at hqx hqy
    rw [hqx, hqy]
  · intro x hx _
    obtain ⟨part, hpart, hin⟩ := h.exists_inPart hx
    exact ⟨inPart part, List.mem_map_of_mem hpart, hin⟩

end GridFold
