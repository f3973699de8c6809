import GridFold.Proofs.Sharing
import GridFold.Proofs.Layout
import GridFold.Sweep.Executor

/-!
# GridFold.Proofs.Blocks

Leaves of a packed box are consecutive blocks of it.

In general a leaf's indices are scattered over the row-major sequence of the box. In a box that is
`Packed`, as the windows of row-major stores are, the outermost axis with more than one index scores
best at every level of the recursion, and the leaves laid end to end are the box
(`positions_leavesOf`).
-/

namespace GridFold

variable {k : Nat}

/-- No axis is empty or free of cost, and none costs less than the whole length of an axis behind
it. -/
structure Packed (axes : List (Axis k)) : Prop where
  nonempty : ∀ a ∈ axes, 0 < a.extent
  costly : ∀ a ∈ axes, 0 < a.cost
  nested : axes.Pairwise fun a b => b.extent * b.cost ≤ a.cost

namespace Packed

theorem tail {a : Axis k} {axes : List (Axis k)} (h : Packed (a :: axes)) : Packed axes where
  nonempty b hb := h.nonempty b (by simp [hb])
  costly b hb := h.costly b (by simp [hb])
  nested := (List.pairwise_cons.mp h.nested).2

theorem sublist {axes others : List (Axis k)} (h : Packed axes) (hs : others.Sublist axes) :
    Packed others where
  nonempty b hb := h.nonempty b (hs.subset hb)
  costly b hb := h.costly b (hs.subset hb)
  nested := h.nested.sublist hs

/-- An axis with more than one index scores better than every axis behind it. -/
theorem score_lt {a : Axis k} {axes : List (Axis k)} (h : Packed (a :: axes)) (ha : 1 < a.extent) :
    ∀ b ∈ axes, b.score < a.score := by
  intro b hb
  have hnest := (List.pairwise_cons.mp h.nested).1 b hb
  have hlen := h.nonempty b (by simp [hb])
  have hcost := h.costly b (by simp [hb])
  calc b.score
      = (b.extent - 1) * b.cost := rfl
    _ < b.extent * b.cost := Nat.mul_lt_mul_of_pos_right (by omega) hcost
    _ ≤ a.cost := hnest
    _ = 1 * a.cost := (Nat.one_mul _).symm
    _ ≤ (a.extent - 1) * a.cost := Nat.mul_le_mul_right _ (by omega)
    _ = a.score := rfl

/-- An axis that is cut has only axes of a single index in front of it. -/
theorem bestCut?_outermost {axes : List (Axis k)} (h : Packed axes) {c : Cut k}
    (hc : bestCut? axes = some c) (hext : 1 < c.axis.extent) : ∀ a ∈ c.before, a.extent = 1 := by
  induction axes generalizing c with
  | nil => cases hc
  | cons a axes ih =>
    simp only [bestCut?] at hc
    split at hc
    · rename_i d hd
      split at hc
      · rename_i hscore
        cases hc
        have haxes : axes = d.before ++ d.axis :: d.after := bestCut?_eq hd
        have hmem : d.axis ∈ axes := by rw [haxes]; simp
        have ha : a.extent = 1 := by
          have := h.nonempty a (by simp)
          by_contra hne
          have := h.score_lt (by omega) d.axis hmem
          omega
        intro b hb
        rcases List.mem_cons.mp hb with rfl | hb
        · exact ha
        · exact ih h.tail hd hext b hb
      · cases hc
        simp
    · cases hc
      simp

theorem resized {before after : List (Axis k)} {a : Axis k} (h : Packed (before ++ a :: after))
    {n : Nat} (hpos : 0 < n) (hle : n ≤ a.extent) :
    Packed (before ++ { a with extent := n } :: after) where
  nonempty b hb := by
    rcases List.mem_append.mp hb with hb | hb
    · exact h.nonempty b (by simp [hb])
    · rcases List.mem_cons.mp hb with rfl | hb
      · exact hpos
      · exact h.nonempty b (by simp [hb])
  costly b hb := by
    rcases List.mem_append.mp hb with hb | hb
    · exact h.costly b (by simp [hb])
    · rcases List.mem_cons.mp hb with rfl | hb
      · exact h.costly a (by simp)
      · exact h.costly b (by simp [hb])
  nested := by
    have hn := h.nested
    rw [List.pairwise_append, List.pairwise_cons] at hn ⊢
    obtain ⟨hbefore, ⟨ha, hafter⟩, hcross⟩ := hn
    refine ⟨hbefore, ⟨ha, hafter⟩, ?_⟩
    intro b hb d hd
    rcases List.mem_cons.mp hd with rfl | hd
    · exact Nat.le_trans (Nat.mul_le_mul_right _ hle) (hcross b hb a (by simp))
    · exact hcross b hb d (by simp [hd])

end Packed

/-- Cutting an axis that has only axes of a single index in front of it cuts the walk in two. -/
theorem boxPositions_cut {before after : List (Axis k)} {a : Axis k} {m n : Nat}
    (ha : a.extent = m + n) (h : ∀ b ∈ before, b.extent = 1) (origin : Vector Int k) :
    boxPositions (before ++ a :: after) origin =
      boxPositions (before ++ { a with extent := m } :: after) origin ++
        boxPositions (before ++ { a with extent := n } :: after)
          (advance origin a.steps (Int.ofNat m)) := by
  induction before generalizing origin with
  | nil =>
    simp only [List.nil_append, boxPositions, ha, List.range_add, List.flatMap_append,
      List.flatMap_map, advance_advance]
    rfl
  | cons b before ih =>
    have hb : b.extent = 1 := h b (by simp)
    have hone : ∀ f : Nat → List (Vector Int k), (List.range 1).flatMap f = f 0 := by
      intro f
      simp
    simp only [List.cons_append, boxPositions, hb, hone]
    rw [show Int.ofNat 0 = 0 from rfl, advance_zero, advance_zero]
    exact ih (fun d hd => h d (by simp [hd])) origin

/-- Laid end to end, the leaves of a packed box are the box in row-major order: by induction on the
workers, since both halves are packed again. -/
theorem positions_leavesOf (minLength workers slot : Nat) {axes : List (Axis k)}
    (h : Packed axes) (origin : Vector Int k) :
    (leavesOf minLength workers slot axes origin).flatMap Leaf.positions =
      boxPositions axes origin := by
  induction workers using Nat.strongRecOn generalizing slot axes origin with
  | ind workers ih =>
    have hwhole : [(⟨axes, origin, slot⟩ : Leaf k)].flatMap Leaf.positions =
        boxPositions axes origin := by
      rw [List.flatMap_singleton, Leaf.positions_eq]
    rw [leavesOf]
    split
    · exact hwhole
    split
    · exact hwhole
    rename_i c hc
    split
    · exact hwhole
    rename_i hworkers hcut
    have haxes := bestCut?_eq hc
    obtain ⟨m, hm⟩ : ∃ m, m = c.axis.extent / 2 := ⟨_, rfl⟩
    have hext : 1 < c.axis.extent := by omega
    have hbefore := h.bestCut?_outermost hc hext
    rw [haxes] at h
    have hleft : Packed (c.resized m) := h.resized (by omega) (by omega)
    have hright : Packed (c.resized (c.axis.extent - m)) := h.resized (by omega) (by omega)
    have hsum : c.axis.extent = m + (c.axis.extent - m) := by omega
    simp only [← hm, List.flatMap_append]
    rw [ih _ (by omega) slot hleft, ih _ (by omega) _ hright, haxes,
      boxPositions_cut hsum hbefore]
    rfl

/-! ## The windows of a store -/

/-- What it costs to cut an axis along which only the second operand is looked at. -/
def sourceCost (steps : Vector Int 2) : Nat := costOfSteps [source steps]

theorem sourceCost_eq {steps : Vector Int 2} {n : Nat} (h : source steps = Int.ofNat n) (hn : 0 < n) :
    sourceCost steps = 2 * n := by
  obtain ⟨m, rfl⟩ := Nat.exists_eq_succ_of_ne_zero (by omega : n ≠ 0)
  simp only [sourceCost, h, costOfSteps, List.map_cons, List.map_nil]
  rfl

/-- Parts of a row-major array, seen with the strides of the whole, are packed. -/
theorem packed_rowMajor {extents : List Nat} {spans : List Span}
    (h : List.Forall₂ (fun n (s : Span) => 0 < n ∧ n ≤ s.extent) extents spans)
    {strides : Vector (List Int) 2} (hs : source strides = spanStrides spans) :
    Packed (axesOf sourceCost extents strides) ∧ 0 < Rect.spansVolume spans ∧
      ∀ a ∈ axesOf sourceCost extents strides,
        a.extent * a.cost ≤ 2 * Rect.spansVolume spans := by
  induction h generalizing strides with
  | nil => exact ⟨⟨by simp [axesOf], by simp [axesOf], by simp [axesOf]⟩, by simp [Rect.spansVolume],
      by simp [axesOf]⟩
  | @cons n s extents spans hn _ ih =>
    rw [spanStrides_cons] at hs
    have hrest : source (strides.map List.tail) = spanStrides spans := by
      rw [source_map, hs, List.tail_cons]
    obtain ⟨hpacked, hpos, hbound⟩ := ih hrest
    have hcost : sourceCost (strides.map fun s => s.headD 0) = 2 * Rect.spansVolume spans :=
      sourceCost_eq (by rw [source_map, hs, List.headD_cons]) hpos
    have hhead : n * (2 * Rect.spansVolume spans) ≤
        2 * Rect.spansVolume (s :: spans) := by
      rw [Rect.spansVolume, Nat.mul_left_comm]
      exact Nat.mul_le_mul_left 2 (Nat.mul_le_mul_right _ hn.2)
    have htail : 2 * Rect.spansVolume spans ≤ 2 * Rect.spansVolume (s :: spans) := by
      rw [Rect.spansVolume]
      exact Nat.mul_le_mul_left 2 (Nat.le_mul_of_pos_left _ (by omega))
    refine ⟨⟨?_, ?_, ?_⟩, ?_, ?_⟩
    · intro a ha
      rcases List.mem_cons.mp ha with rfl | ha
      · exact hn.1
      · exact hpacked.nonempty a ha
    · intro a ha
      rcases List.mem_cons.mp ha with rfl | ha
      · exact Nat.lt_of_lt_of_eq (by omega) hcost.symm
      · exact hpacked.costly a ha
    · rw [axesOf, List.pairwise_cons]
      refine ⟨?_, hpacked.nested⟩
      intro a ha
      rw [hcost]
      exact hbound a ha
    · rw [Rect.spansVolume]
      exact Nat.mul_pos (by omega) hpos
    · intro a ha
      rcases List.mem_cons.mp ha with rfl | ha
      · rw [hcost]
        exact hhead
      · exact Nat.le_trans (hbound a ha) htail

theorem axesOf_eraseIdx (cost : Vector Int k → Nat) (extents : List Nat)
    (strides : Vector (List Int) k) (n : Nat) :
    axesOf cost (extents.eraseIdx n) (strides.map fun s => s.eraseIdx n) =
      (axesOf cost extents strides).eraseIdx n := by
  induction extents generalizing strides n with
  | nil => rfl
  | cons e extents ih =>
    cases n with
    | zero =>
      have htail : (strides.map fun s => s.eraseIdx 0) = strides.map List.tail := by
        congr 1
        funext s
        cases s <;> rfl
      rw [htail]
      rfl
    | succ n =>
      have hhead : ((strides.map fun s => s.eraseIdx (n + 1)).map fun s => s.headD 0) =
          strides.map fun s => s.headD 0 := by
        rw [Vector.map_map]
        congr 1
        funext s
        cases s <;> rfl
      have htail : ((strides.map fun s => s.eraseIdx (n + 1)).map List.tail) =
          (strides.map List.tail).map fun s => s.eraseIdx n := by
        rw [Vector.map_map, Vector.map_map]
        congr 1
        funext s
        cases s <;> rfl
      simp only [List.eraseIdx_cons_succ, axesOf, hhead, htail, ih]

theorem extents_of_spansCover {outer spans : List Span} (h : Rect.spansCover outer spans = true)
    (hne : ∀ s ∈ spans, s.isEmpty = false) :
    List.Forall₂ (fun n (s : Span) => 0 < n ∧ n ≤ s.extent) (spans.map Span.extent) outer := by
  induction spans generalizing outer with
  | nil =>
    cases outer with
    | nil => exact .nil
    | cons _ _ => cases h
  | cons t spans ih =>
    cases outer with
    | nil => cases h
    | cons s outer =>
      rw [Rect.spansCover, Bool.and_eq_true, Span.covers, Bool.and_eq_true, decide_eq_true_eq,
        decide_eq_true_eq] at h
      have ht : ¬ t.hi < t.lo := by simpa [Span.isEmpty] using hne t (by simp)
      refine .cons ?_ (ih h.2 fun u hu => hne u (by simp [hu]))
      simp only [Span.extent]
      omega

theorem packed_contained {α : Type} {s : Store α} {full : Rect}
    (h : s.bounds.contains full = true) (hne : full.isEmpty = false) :
    Packed (axesOf sourceCost full.extents #v[List.replicate full.rank 0, s.strides]) := by
  rw [Rect.contains, hne, Bool.false_or, Bool.and_eq_true] at h
  have hextents := extents_of_spansCover h.2 (Rect.spans_nonempty hne)
  have hstrides : source #v[List.replicate full.rank 0, s.strides] = spanStrides s.bounds.spans :=
    rfl
  exact (packed_rowMajor hextents hstrides).1

/-- A view that is not empty moves through its store as through a packed box: its slice is the
contained rectangle without an axis. -/
theorem packed_window {α : Type} {s : Store α} {rect : Rect} {slice : Option Slice} {w : Window}
    (h : s.window rect slice = .ok w) (hne : rect.isEmpty = false) :
    Packed (axesOf sourceCost rect.extents #v[List.replicate rect.rank 0, w.strides]) := by
  have hrank := hasRank_of_window h
  obtain ⟨_, hstrides, hinside⟩ := window_inv h
  obtain ⟨_, full, hfull, hcontains⟩ := hinside hne
  obtain ⟨_, hplaced, _, _, hpoints⟩ := placed_ok hrank
  cases hfull.symm.trans hplaced
  have hfullne : full.isEmpty = false :=
    Rect.isEmpty_eq_false ((hpoints _).mpr ⟨rect.lo, rfl, Rect.containsPoint_lo hne⟩)
  have hpacked := packed_contained hcontains hfullne
  rw [hstrides]
  cases slice with
  | none =>
    cases hfull
    exact hpacked
  | some slice =>
    obtain ⟨hr, haxis⟩ := hrank
    have hmax : s.rank ≤ maxStoreRank := s.bounds.rank_le
    have hle : slice.axis ≤ rect.rank := by omega
    obtain ⟨full', hfull', hspans⟩ :=
      Rect.insertAxis_ok hle (by omega) ⟨slice.coord, slice.coord⟩
    obtain rfl : full' = full := Except.ok.inj (hfull'.symm.trans hfull)
    have hextents : full'.extents.eraseIdx slice.axis = rect.extents := by
      rw [Rect.extents, hspans, List.map_insertIdx, List.eraseIdx_insertIdx_self]
      rfl
    have hlen : full'.rank = rect.rank + 1 := by
      rw [Rect.rank, hspans, List.length_insertIdx_of_le_length hle]
      rfl
    have herase := hpacked.sublist
      (List.eraseIdx_sublist (axesOf sourceCost full'.extents _) slice.axis)
    rw [← axesOf_eraseIdx, hextents] at herase
    have hstrides : (#v[List.replicate full'.rank 0, s.strides].map fun l =>
        l.eraseIdx slice.axis) =
          #v[List.replicate rect.rank 0, sliceStrides s.strides (some slice)] := by
      simp [List.eraseIdx_replicate, hlen, sliceStrides, Nat.lt_succ_of_le hle]
    rwa [hstrides] at herase

end GridFold
