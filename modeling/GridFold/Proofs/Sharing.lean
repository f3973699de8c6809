import GridFold.Proofs.Box
import GridFold.Sweep.Executor

/-!
# GridFold.Proofs.Sharing

The leaves of a box share its indices out.

* A `part` of a box has one `Stretch` of indices for each axis. `boxPositions_part` says that a walk
  through a part visits the indices in it, in the order in which the whole box visits them.
* `leavesOf_parts` — the leaves of a box are parts of it. Each index lies in exactly one of them, and
  an axis of cost zero is whole in each.
* `slots_leavesOf` — the slots of the leaves ascend, and stay below the number of workers.
-/

namespace GridFold

variable {k : Nat}

/-- Some consecutive indices of one axis. -/
structure Stretch where
  first : Nat
  length : Nat

def Stretch.contains (s : Stretch) (i : Nat) : Bool :=
  decide (s.first ≤ i) && decide (i < s.first + s.length)

theorem Stretch.contains_iff {s : Stretch} {i : Nat} :
    s.contains i = true ↔ s.first ≤ i ∧ i < s.first + s.length := by
  simp [contains]

def inPart : List Stretch → List Nat → Bool
  | [], [] => true
  | s :: part, i :: index => s.contains i && inPart part index
  | _, _ => false

/-- The axes, each as long as its stretch. -/
def partAxes (axes : List (Axis k)) (part : List Stretch) : List (Axis k) :=
  axes.zipWith (fun a s => { a with extent := s.length }) part

/-- The positions at the first index of a part. -/
def partOrigin (axes : List (Axis k)) (origin : Vector Int k) (part : List Stretch) :
    Vector Int k :=
  positionAt axes origin (part.map Stretch.first)

/-- The stretch lies on the axis, and an axis of cost zero is not cut. -/
structure Stretch.Fits (s : Stretch) (a : Axis k) : Prop where
  le : s.first + s.length ≤ a.extent
  whole : a.cost = 0 → s = ⟨0, a.extent⟩

/-- The leaf walks through the part of the box. -/
structure Leaf.IsPart (axes : List (Axis k)) (origin : Vector Int k) (part : List Stretch)
    (leaf : Leaf k) : Prop where
  axes_eq : leaf.axes = partAxes axes part
  origin_eq : leaf.origin = partOrigin axes origin part

/-! ## A walk through a part -/

theorem flatMap_range_stretch {β : Type} {n : Nat} {s : Stretch} (h : s.first + s.length ≤ n)
    (g : Nat → List β) :
    ((List.range n).flatMap fun i => if s.contains i then g i else []) =
      (List.range s.length).flatMap fun i => g (s.first + i) := by
  obtain ⟨m, rfl⟩ := Nat.exists_eq_add_of_le h
  have hbelow : (List.range s.first).flatMap (fun i => if s.contains i then g i else []) = [] := by
    rw [List.flatMap_eq_nil_iff]
    intro i hi
    rw [List.mem_range] at hi
    refine if_neg ?_
    rw [Stretch.contains_iff]
    omega
  have hin : ∀ i ∈ List.range s.length,
      (if s.contains (s.first + i) then g (s.first + i) else []) = g (s.first + i) := by
    intro i hi
    rw [List.mem_range] at hi
    simp [Stretch.contains, hi]
  have habove : (List.range m).flatMap (fun i =>
      if s.contains (s.first + s.length + i) then g (s.first + s.length + i) else []) = [] := by
    rw [List.flatMap_eq_nil_iff]
    intro i _
    refine if_neg ?_
    rw [Stretch.contains_iff]
    omega
  rw [List.range_add, List.range_add]
  simp only [List.flatMap_append, List.flatMap_map]
  rw [hbelow, habove, List.flatMap_congr hin, List.nil_append, List.append_nil]

theorem partOrigin_advance (axes : List (Axis k)) (p steps : Vector Int k) (n : Int)
    (part : List Stretch) :
    partOrigin axes (advance p steps n) part = advance (partOrigin axes p part) steps n :=
  positionAt_advance axes p steps n _

theorem boxPositions_part {axes : List (Axis k)} {part : List Stretch}
    (h : List.Forall₂ Stretch.Fits part axes) (origin : Vector Int k) :
    boxPositions (partAxes axes part) (partOrigin axes origin part) =
      ((indices (axes.map Axis.extent)).filter (inPart part)).map (positionAt axes origin) := by
  induction h generalizing origin with
  | nil => rfl
  | @cons s a part axes hs _ ih =>
    have hcons : ∀ i : Nat, inPart (s :: part) ∘ (i :: ·) =
        fun index => s.contains i && inPart part index := fun i => rfl
    have hinner : ∀ i : Nat,
        boxPositions (partAxes axes part)
            (advance (partOrigin (a :: axes) origin (s :: part)) a.steps (Int.ofNat i)) =
          ((indices (axes.map Axis.extent)).filter (inPart part)).map
            (positionAt axes (advance origin a.steps (Int.ofNat (s.first + i)))) := by
      intro i
      have hstart : advance (partOrigin (a :: axes) origin (s :: part)) a.steps (Int.ofNat i) =
          partOrigin axes (advance origin a.steps (Int.ofNat (s.first + i))) part := by
        rw [show Int.ofNat (s.first + i) = Int.ofNat s.first + Int.ofNat i from rfl,
          ← advance_advance, partOrigin_advance axes (advance origin a.steps _)]
        rfl
      rw [hstart, ih]
    calc boxPositions (partAxes (a :: axes) (s :: part)) (partOrigin (a :: axes) origin (s :: part))
        = (List.range s.length).flatMap fun i =>
            ((indices (axes.map Axis.extent)).filter (inPart part)).map
              (positionAt axes (advance origin a.steps (Int.ofNat (s.first + i)))) := by
          simp only [← hinner]
          rfl
      _ = (List.range a.extent).flatMap fun i =>
            if s.contains i then
              ((indices (axes.map Axis.extent)).filter (inPart part)).map
                (positionAt axes (advance origin a.steps (Int.ofNat i)))
            else [] :=
          (flatMap_range_stretch hs.le fun i =>
            ((indices (axes.map Axis.extent)).filter (inPart part)).map
              (positionAt axes (advance origin a.steps (Int.ofNat i)))).symm
      _ = _ := by
          simp only [List.map_cons, indices, List.filter_flatMap, List.filter_map, List.map_flatMap,
            List.map_map, hcons]
          congr 1
          funext i
          by_cases hi : s.contains i = true
          · simp only [hi, if_true, Bool.true_and]
            rfl
          · simp [hi]

def wholePart (axes : List (Axis k)) : List Stretch := axes.map fun a => ⟨0, a.extent⟩

theorem fits_wholePart (axes : List (Axis k)) :
    List.Forall₂ Stretch.Fits (wholePart axes) axes := by
  induction axes with
  | nil => exact .nil
  | cons a axes ih => exact .cons ⟨by simp, fun _ => rfl⟩ ih

theorem partAxes_wholePart (axes : List (Axis k)) : partAxes axes (wholePart axes) = axes := by
  induction axes with
  | nil => rfl
  | cons a axes ih =>
    rw [wholePart, List.map_cons, partAxes, List.zipWith_cons_cons]
    exact congrArg (a :: ·) ih

theorem partOrigin_wholePart (axes : List (Axis k)) (origin : Vector Int k) :
    partOrigin axes origin (wholePart axes) = origin := by
  induction axes generalizing origin with
  | nil => rfl
  | cons a axes ih =>
    have h := ih (advance origin a.steps 0)
    rw [advance_zero] at h
    rw [wholePart, List.map_cons, partOrigin, List.map_cons, positionAt]
    rw [show Int.ofNat 0 = 0 from rfl, advance_zero]
    exact h

theorem inPart_wholePart (axes : List (Axis k)) (index : List Nat) :
    inPart (wholePart axes) index = true ↔ index ∈ indices (axes.map Axis.extent) := by
  induction axes generalizing index with
  | nil => cases index <;> simp [wholePart, inPart, indices]
  | cons a axes ih =>
    cases index with
    | nil => simp [wholePart, inPart, indices]
    | cons i index =>
      rw [List.map_cons, mem_indices_cons, ← ih]
      simp [wholePart, inPart, Stretch.contains]

/-! ## Cutting a part in two -/

theorem inPart_cut (before after : List Stretch) (first m n : Nat) (index : List Nat) :
    inPart (before ++ ⟨first, m + n⟩ :: after) index = true ↔
      inPart (before ++ ⟨first, m⟩ :: after) index = true ∨
        inPart (before ++ ⟨first + m, n⟩ :: after) index = true := by
  induction before generalizing index with
  | nil =>
    cases index with
    | nil => simp [inPart]
    | cons i index =>
      simp only [List.nil_append, inPart, Stretch.contains, Bool.and_eq_true, decide_eq_true_eq]
      rw [← or_and_right]
      apply and_congr_left'
      omega
  | cons s before ih =>
    cases index with
    | nil => simp [inPart]
    | cons i index =>
      simp only [List.cons_append, inPart, Bool.and_eq_true, ih, and_or_left]

theorem not_inPart_both_halves (before after : List Stretch) (first m n : Nat) (index : List Nat) :
    ¬(inPart (before ++ ⟨first, m⟩ :: after) index = true ∧
      inPart (before ++ ⟨first + m, n⟩ :: after) index = true) := by
  induction before generalizing index with
  | nil =>
    cases index with
    | nil => simp [inPart]
    | cons i index =>
      simp only [List.nil_append, inPart, Stretch.contains, Bool.and_eq_true, decide_eq_true_eq]
      omega
  | cons s before ih =>
    cases index with
    | nil => simp [inPart]
    | cons i index =>
      simp only [List.cons_append, inPart, Bool.and_eq_true]
      rintro ⟨⟨_, hl⟩, ⟨_, hr⟩⟩
      exact ih index ⟨hl, hr⟩

theorem positionAt_append (outer inner : List (Axis k)) (p : Vector Int k) (i j : List Nat)
    (h : outer.length = i.length) :
    positionAt (outer ++ inner) p (i ++ j) = positionAt inner (positionAt outer p i) j := by
  induction outer generalizing p i with
  | nil =>
    cases i with
    | nil => rfl
    | cons _ _ => simp at h
  | cons a outer ih =>
    cases i with
    | nil => simp at h
    | cons n i => exact ih _ _ (by simpa using h)

/-- The part behind a cut starts where the cut axis has moved on by the part in front of it. -/
theorem partOrigin_cut {outer inner : List (Axis k)} {a : Axis k} (origin : Vector Int k)
    {before after : List Stretch} (first m n l : Nat) (h : outer.length = before.length) :
    partOrigin (outer ++ a :: inner) origin (before ++ ⟨first + m, n⟩ :: after) =
      advance (partOrigin (outer ++ a :: inner) origin (before ++ ⟨first, l⟩ :: after)) a.steps
        (Int.ofNat m) := by
  have hlen : outer.length = (before.map Stretch.first).length := by simpa using h
  simp only [partOrigin, List.map_append, List.map_cons, positionAt_append _ _ _ _ _ hlen,
    positionAt]
  rw [show Int.ofNat (first + m) = Int.ofNat first + Int.ofNat m from rfl, ← advance_advance,
    positionAt_advance]

/-- A part stays one where a single stretch is replaced by one that fits as well. -/
theorem fits_replace {outer inner : List (Axis k)} {a : Axis k} {before after : List Stretch}
    {s t : Stretch} (hlen : outer.length = before.length)
    (h : List.Forall₂ Stretch.Fits (before ++ s :: after) (outer ++ a :: inner))
    (hst : s.Fits a → t.Fits a) :
    List.Forall₂ Stretch.Fits (before ++ t :: after) (outer ++ a :: inner) := by
  induction before generalizing outer with
  | nil =>
    cases outer with
    | nil =>
      cases h with
      | cons hs hafter => exact .cons (hst hs) hafter
    | cons _ _ => simp at hlen
  | cons u before ih =>
    cases outer with
    | nil => simp at hlen
    | cons b outer =>
      cases h with
      | cons hu hrest => exact .cons hu (ih (by simpa using hlen) hrest)

theorem bestCut?_eq {axes : List (Axis k)} {c : Cut k} (h : bestCut? axes = some c) :
    axes = c.before ++ c.axis :: c.after := by
  induction axes generalizing c with
  | nil => cases h
  | cons a axes ih =>
    simp only [bestCut?] at h
    split at h
    · rename_i d hd
      split at h
      · cases h
        rw [ih hd]
        rfl
      · cases h
        rfl
    · cases h
      rfl

theorem eq_nil_of_bestCut? {axes : List (Axis k)} (h : bestCut? axes = none) : axes = [] := by
  cases axes with
  | nil => rfl
  | cons a axes =>
    simp only [bestCut?] at h
    split at h
    · split at h <;> cases h
    · cases h

theorem bestCut?_score {axes : List (Axis k)} {c : Cut k} (h : bestCut? axes = some c) :
    ∀ a ∈ axes, a.score ≤ c.axis.score := by
  induction axes generalizing c with
  | nil => cases h
  | cons a axes ih =>
    simp only [bestCut?] at h
    split at h
    · rename_i d hd
      have hrest := ih hd
      split at h
      · rename_i hle
        cases h
        simpa using ⟨hle, hrest⟩
      · rename_i hlt
        cases h
        intro b hb
        rcases List.mem_cons.mp hb with rfl | hb
        · exact Nat.le_refl _
        · exact Nat.le_trans (hrest b hb) (Nat.le_of_not_le hlt)
    · rename_i hnone
      cases h
      simp [eq_nil_of_bestCut? hnone]

/-- A cut of a part's axes cuts one stretch of the part. -/
theorem bestCut?_part {axes : List (Axis k)} {part : List Stretch} {c : Cut k}
    (h : bestCut? (partAxes axes part) = some c) :
    ∃ outer a inner before first after,
      axes = outer ++ a :: inner ∧ part = before ++ ⟨first, c.axis.extent⟩ :: after ∧
      outer.length = before.length ∧ c.axis.steps = a.steps ∧ c.axis.cost = a.cost ∧
      ∀ f e, c.resized e = partAxes axes (before ++ ⟨f, e⟩ :: after) := by
  obtain ⟨outer, rest, before, ends, hlen, haxes, hpart, hbefore, hrest⟩ :=
    List.zipWith_eq_append_iff.mp (bestCut?_eq h)
  obtain ⟨a, inner, ⟨first, n⟩, after, rfl, rfl, haxis, hafter⟩ :=
    List.zipWith_eq_cons_iff.mp hrest.symm
  have hext : c.axis.extent = n := by rw [haxis]
  refine ⟨outer, a, inner, before, first, after, haxes, by rw [hext]; exact hpart, hlen,
    by rw [haxis], by rw [haxis], ?_⟩
  intro f e
  rw [Cut.resized, haxes, partAxes, List.zipWith_append hlen, List.zipWith_cons_cons, hbefore,
    hafter, haxis]

/-- `parts` share `part` out, and `leaves` walk through them. -/
structure SharesOut (axes : List (Axis k)) (origin : Vector Int k) (part : List Stretch)
    (parts : List (List Stretch)) (leaves : List (Leaf k)) : Prop where
  walked : List.Forall₂ (Leaf.IsPart axes origin) parts leaves
  fits : ∀ p ∈ parts, List.Forall₂ Stretch.Fits p axes
  disjoint : parts.Pairwise fun p q => ∀ index, ¬(inPart p index = true ∧ inPart q index = true)
  covers : ∀ index, inPart part index = true ↔ ∃ p ∈ parts, inPart p index = true

theorem SharesOut.exists_part {axes : List (Axis k)} {origin : Vector Int k} {part : List Stretch}
    {parts : List (List Stretch)} {leaves : List (Leaf k)}
    (h : SharesOut axes origin part parts leaves) {leaf : Leaf k} (hleaf : leaf ∈ leaves) :
    ∃ p ∈ parts, leaf.IsPart axes origin p := by
  have hwalked := List.forall₂_iff_get.mp h.walked
  obtain ⟨i, hi, rfl⟩ := List.mem_iff_getElem.mp hleaf
  have hpart : i < parts.length := hwalked.1.symm ▸ hi
  exact ⟨parts[i], List.getElem_mem hpart, hwalked.2 i hpart hi⟩

theorem SharesOut.exists_leaf {axes : List (Axis k)} {origin : Vector Int k} {part : List Stretch}
    {parts : List (List Stretch)} {leaves : List (Leaf k)}
    (h : SharesOut axes origin part parts leaves) {p : List Stretch} (hp : p ∈ parts) :
    ∃ leaf ∈ leaves, leaf.IsPart axes origin p := by
  have hwalked := List.forall₂_iff_get.mp h.walked
  obtain ⟨i, hi, rfl⟩ := List.mem_iff_getElem.mp hp
  have hleaf : i < leaves.length := hwalked.1 ▸ hi
  exact ⟨leaves[i], List.getElem_mem hleaf, hwalked.2 i hi hleaf⟩

theorem sharesOut_single {axes : List (Axis k)} {part : List Stretch}
    (h : List.Forall₂ Stretch.Fits part axes) (origin : Vector Int k) (slot : Nat) :
    SharesOut axes origin part [part] [⟨partAxes axes part, partOrigin axes origin part, slot⟩] where
  walked := .cons ⟨rfl, rfl⟩ .nil
  fits := by simpa using h
  disjoint := by simp
  covers := by simp

theorem sharesOut_append {axes : List (Axis k)} {origin : Vector Int k} {p q r : List Stretch}
    {ps qs : List (List Stretch)} {left right : List (Leaf k)}
    (hcut : ∀ index, inPart r index = true ↔ inPart p index = true ∨ inPart q index = true)
    (hdisj : ∀ index, ¬(inPart p index = true ∧ inPart q index = true))
    (hl : SharesOut axes origin p ps left) (hr : SharesOut axes origin q qs right) :
    SharesOut axes origin r (ps ++ qs) (left ++ right) where
  walked := List.rel_append hl.walked hr.walked
  fits := by
    intro s hs
    rcases List.mem_append.mp hs with h | h
    · exact hl.fits s h
    · exact hr.fits s h
  disjoint := by
    rw [List.pairwise_append]
    refine ⟨hl.disjoint, hr.disjoint, ?_⟩
    intro s hs t ht index ⟨hsi, hti⟩
    exact hdisj index ⟨(hl.covers index).mpr ⟨s, hs, hsi⟩, (hr.covers index).mpr ⟨t, ht, hti⟩⟩
  covers := by
    intro index
    simp only [hcut, hl.covers, hr.covers, List.mem_append, or_and_right, exists_or]

/-- The leaves of a part of a box share it out, by induction on the workers: the halves of a part
are parts of the same box. -/
theorem sharesOut_leavesOf (minLength workers slot : Nat) (axes : List (Axis k))
    (origin : Vector Int k) (part : List Stretch) (h : List.Forall₂ Stretch.Fits part axes) :
    ∃ parts, SharesOut axes origin part parts
      (leavesOf minLength workers slot (partAxes axes part) (partOrigin axes origin part)) := by
  induction workers using Nat.strongRecOn generalizing slot part with
  | ind workers ih =>
    rw [leavesOf]
    split
    · exact ⟨[part], sharesOut_single h origin slot⟩
    rename_i hworkers
    split
    · exact ⟨[part], sharesOut_single h origin slot⟩
    rename_i c hc
    split
    · exact ⟨[part], sharesOut_single h origin slot⟩
    rename_i hcut
    obtain ⟨outer, a, inner, before, first, after, rfl, rfl, hlen, hsteps, hcost, hresize⟩ :=
      bestCut?_part hc
    obtain ⟨m, hm⟩ : ∃ m, m = c.axis.extent / 2 := ⟨_, rfl⟩
    obtain ⟨l, hl⟩ : ∃ l, c.axis.extent = m + l := ⟨c.axis.extent - m, by omega⟩
    have hrest : m + l - m = l := by omega
    rw [hl] at h hm
    have hfits : ∀ f e : Nat, f + e ≤ first + (m + l) →
        List.Forall₂ Stretch.Fits (before ++ ⟨f, e⟩ :: after) (outer ++ a :: inner) := by
      intro f e hfe
      refine fits_replace hlen h fun hs => ⟨?_, fun h0 => absurd (hcost.trans h0) (by omega)⟩
      have := hs.le
      exact Nat.le_trans hfe this
    obtain ⟨ps, hps⟩ := ih (workers / 2) (by omega) slot _ (hfits first m (by omega))
    obtain ⟨qs, hqs⟩ := ih (workers - workers / 2) (by omega) (slot + workers / 2) _
      (hfits (first + m) l (by omega))
    have hstart : ∀ e, partOrigin (outer ++ a :: inner) origin (before ++ ⟨first, e⟩ :: after) =
        partOrigin (outer ++ a :: inner) origin (before ++ ⟨first, m⟩ :: after) := by
      intro e
      simp [partOrigin]
    simp only [hl, ← hm, hrest, hsteps]
    refine ⟨ps ++ qs, sharesOut_append (fun index => inPart_cut before after first m l index)
      (fun index => not_inPart_both_halves before after first m l index) ?_ ?_⟩
    · rw [hresize first m, hstart (m + l)]
      exact hps
    · rw [hresize (first + m) l, ← partOrigin_cut origin first m l (m + l) hlen]
      exact hqs

theorem leavesOf_parts (minLength workers slot : Nat) (axes : List (Axis k))
    (origin : Vector Int k) :
    ∃ parts, SharesOut axes origin (wholePart axes) parts
      (leavesOf minLength workers slot axes origin) := by
  have h := sharesOut_leavesOf minLength workers slot axes origin _ (fits_wholePart axes)
  rwa [partAxes_wholePart, partOrigin_wholePart] at h

theorem schedule_parts (e : Executor) (axes : List (Axis k)) (origin : Vector Int k) :
    ∃ parts, SharesOut axes origin (wholePart axes) parts (e.schedule axes origin) := by
  unfold Executor.schedule
  split
  · exact leavesOf_parts _ _ _ axes origin
  · have h := sharesOut_single (fits_wholePart axes) origin 1
    rw [partAxes_wholePart, partOrigin_wholePart] at h
    exact ⟨_, h⟩

/-! ## Extents -/

theorem extents_pos {axes : List (Axis k)} (h : 0 < boxVolume axes) : ∀ a ∈ axes, 0 < a.extent := by
  induction axes with
  | nil =>
    intro a ha
    cases ha
  | cons a axes ih =>
    change 0 < a.extent * boxVolume axes at h
    intro b hb
    rcases List.mem_cons.mp hb with rfl | hb
    · exact Nat.pos_of_mul_pos_right h
    · exact ih (Nat.pos_of_mul_pos_left h) b hb

theorem resized_pos {axes : List (Axis k)} (h : ∀ a ∈ axes, 0 < a.extent) {c : Cut k}
    (hc : bestCut? axes = some c) {n : Nat} (hn : 0 < n) : ∀ a ∈ c.resized n, 0 < a.extent := by
  rw [bestCut?_eq hc] at h
  intro a ha
  rcases List.mem_append.mp ha with ha | ha
  · exact h a (List.mem_append_left _ ha)
  · rcases List.mem_cons.mp ha with rfl | ha
    · exact hn
    · exact h a (by simp [ha])

/-- Cuts leave no leaf without indices. -/
theorem extents_pos_leavesOf (minLength workers slot : Nat) {axes : List (Axis k)}
    (origin : Vector Int k) (h : ∀ a ∈ axes, 0 < a.extent) :
    ∀ leaf ∈ leavesOf minLength workers slot axes origin, ∀ a ∈ leaf.axes, 0 < a.extent := by
  induction workers using Nat.strongRecOn generalizing slot axes origin with
  | ind workers ih =>
    rw [leavesOf]
    split
    · simpa using h
    rename_i hworkers
    split
    · simpa using h
    rename_i c hc
    split
    · simpa using h
    rename_i hcut
    intro leaf hleaf
    rcases List.mem_append.mp hleaf with hleaf | hleaf
    · exact ih _ (by omega) _ _ (resized_pos h hc (by omega)) leaf hleaf
    · exact ih _ (by omega) _ _ (resized_pos h hc (by omega)) leaf hleaf

/-! ## Slots -/

theorem Executor.parallelWorkers?_some {e : Executor} {volume workers : Nat}
    (h : e.parallelWorkers? volume = some workers) : 1 < workers ∧ 0 < volume := by
  unfold parallelWorkers? at h
  split at h
  · rename_i hc
    cases h
    omega
  · cases h

/-- The slots of the leaves ascend, and every leaf has one of the slots of its workers. -/
theorem slots_leavesOf (minLength workers slot : Nat) (axes : List (Axis k))
    (origin : Vector Int k) (hw : 0 < workers) :
    (leavesOf minLength workers slot axes origin).Pairwise (fun l m => l.slot < m.slot) ∧
      ∀ leaf ∈ leavesOf minLength workers slot axes origin,
        slot ≤ leaf.slot ∧ leaf.slot < slot + workers := by
  induction workers using Nat.strongRecOn generalizing slot axes origin with
  | ind workers ih =>
    rw [leavesOf]
    split
    · simpa using hw
    rename_i hworkers
    split
    · simpa using hw
    rename_i c _
    split
    · simpa using hw
    obtain ⟨hl, hlslots⟩ := ih (workers / 2) (by omega) slot (c.resized (c.axis.extent / 2)) origin
      (by omega)
    obtain ⟨hr, hrslots⟩ := ih (workers - workers / 2) (by omega) (slot + workers / 2)
      (c.resized (c.axis.extent - c.axis.extent / 2))
      (advance origin c.axis.steps (Int.ofNat (c.axis.extent / 2))) (by omega)
    refine ⟨List.pairwise_append.mpr ⟨hl, hr, ?_⟩, ?_⟩
    · intro l hmem m hmem'
      have := hlslots l hmem
      have := hrslots m hmem'
      omega
    · intro leaf hmem
      rcases List.mem_append.mp hmem with h | h
      · have := hlslots leaf h
        omega
      · have := hrslots leaf h
        omega

end GridFold
