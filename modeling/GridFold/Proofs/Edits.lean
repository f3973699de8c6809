import GridFold.Pass.Basic
import GridFold.Proofs.Outcomes
import GridFold.Proofs.Separation

/-!
# GridFold.Proofs.Edits

What a pass does to each element of a store.

* `Edit.Changes` — an edit that succeeds and replaces the element at one position by a function of
  it. `forM_element` says what a list of such edits does to one element: the steps at its position
  are folded over it, in their order, and the others do not count.
* `Edit.ConfinedTo` — an edit that reads and writes nothing but the elements at some positions.
* `Pass.ActsBy` — a pass all of whose steps are such edits, in a box that separates its leaves.
  Its leaves are confined to positions of their own (`confined_runLeaf`), and in whatever order they
  are taken each element ends as the fold of the whole box's steps over it (`runLeaves_element`).
-/

namespace GridFold

variable {α : Type}

theorem Store.ext_element {s t : Store α} (hb : s.bounds = t.bounds)
    (h : ∀ j, s.element j = t.element j) : s = t := by
  obtain ⟨bounds, data⟩ := s
  obtain ⟨_, other⟩ := t
  cases hb
  congr 1
  ext i hi
  have hj := h (Int.ofNat i)
  simp only [element] at hj
  rw [dif_pos ⟨Int.natCast_nonneg i, hi⟩, dif_pos ⟨Int.natCast_nonneg i, hi⟩] at hj
  exact Except.ok.inj hj

theorem Store.element_inside {s : Store α} {i : Int} (h : 0 ≤ i ∧ i.toNat < s.bounds.volume) :
    ∃ v, s.element i = .ok v := ⟨_, by rw [element, dif_pos h]⟩

namespace Edit

/-- On stores with these bounds the edit succeeds, and changes the element at `i` by `f` and no
other. -/
def Changes (m : Edit α Unit) (bounds : Rect) (i : Int) (f : α → α) : Prop :=
  ∀ s : Store α, s.bounds = bounds → ∃ s', m s = .ok () s' ∧ s'.bounds = bounds ∧
    ∀ j, s'.element j = if j = i then (s.element j).map f else s.element j

/-- On stores with these bounds the edit succeeds, what it does to the elements at `cells` is decided
by the elements at `cells`, and it leaves all others alone. -/
def ConfinedTo (m : Edit α Unit) (bounds : Rect) (cells : Int → Prop) : Prop :=
  ∀ s t : Store α, s.bounds = bounds → t.bounds = bounds →
    (∀ j, cells j → s.element j = t.element j) →
    ∃ s' t', m s = .ok () s' ∧ m t = .ok () t' ∧
      (∀ j, cells j → s'.element j = t'.element j) ∧
      ∀ j, ¬ cells j → s'.element j = s.element j ∧ t'.element j = t.element j

theorem changes_writeAt {bounds : Rect} {i : Int} (h : 0 ≤ i ∧ i.toNat < bounds.volume) (v : α) :
    (writeAt i v).Changes bounds i fun _ => v := by
  rintro s rfl
  obtain ⟨s', hrun, hbounds, helement⟩ := writeAt_inside h v
  refine ⟨s', hrun, hbounds, ?_⟩
  intro j
  rw [helement]
  split
  · rename_i hj
    obtain ⟨w, hw⟩ := Store.element_inside h
    rw [hj, hw]
    rfl
  · rfl

/-- What is done with the old element may depend on it. -/
theorem changes_readAt {bounds : Rect} {i : Int} (h : 0 ≤ i ∧ i.toNat < bounds.volume)
    {next : α → Edit α Unit} {f : α → α → α} (hnext : ∀ v, (next v).Changes bounds i (f v)) :
    (readAt i >>= next).Changes bounds i fun v => f v v := by
  rintro s rfl
  obtain ⟨v, hv⟩ := Store.element_inside h
  obtain ⟨s', hrun, hbounds, helement⟩ := hnext v s rfl
  refine ⟨s', ?_, hbounds, ?_⟩
  · simp only [bind, EStateM.bind, readAt, hv]
    exact hrun
  · intro j
    rw [helement]
    split
    · rename_i hj
      rw [hj, hv]
      rfl
    · rfl

theorem ofExcept_bind {β : Type} {x : Except Trap β} {b : β} (h : x = .ok b)
    (next : β → Edit α Unit) : ofExcept x >>= next = next b := by
  rw [h]
  rfl

theorem forM_cons {β : Type} (m : β → Edit α Unit) (x : β) (xs : List β) {s s' : Store α}
    (h : m x s = .ok () s') : (x :: xs).forM m s = xs.forM m s' := by
  change (m x >>= fun _ => xs.forM m) s = _
  simp only [bind, EStateM.bind, h]

/-- By induction on the edits: one that is made elsewhere leaves the element to the others. -/
theorem forM_element {β : Type} {bounds : Rect} {m : β → Edit α Unit} {key : β → Int}
    {f : β → α → α} (xs : List β) (h : ∀ x ∈ xs, (m x).Changes bounds (key x) (f x))
    (s : Store α) (hs : s.bounds = bounds) :
    ∃ s', xs.forM m s = .ok () s' ∧ s'.bounds = bounds ∧ ∀ j, s'.element j =
      (s.element j).map fun v => (xs.filter fun x => key x == j).foldl (fun v x => f x v) v := by
  induction xs generalizing s with
  | nil =>
    refine ⟨s, rfl, hs, ?_⟩
    intro j
    cases s.element j <;> rfl
  | cons x xs ih =>
    obtain ⟨t, hrun, ht, helement⟩ := h x (by simp) s hs
    obtain ⟨s', hrest, hs', hfold⟩ := ih (fun y hy => h y (by simp [hy])) t ht
    refine ⟨s', by rw [forM_cons m x xs hrun, hrest], hs', ?_⟩
    intro j
    rw [hfold, helement]
    by_cases hj : j = key x
    · rw [if_pos hj, List.filter_cons_of_pos (by simp [hj])]
      cases s.element j <;> rfl
    · have hskip : (x :: xs).filter (fun x => key x == j) = xs.filter fun x => key x == j :=
        List.filter_cons_of_neg (by simpa using fun h => hj h.symm)
      rw [if_neg hj, hskip]

end Edit

/-! ## Passes -/

/-- On stores with these bounds each step succeeds, and changes the element under the destination by
`step`; and no two leaves of the box share an element. -/
structure Pass.ActsBy (p : Pass α) (bounds : Rect) (step : Vector Int (p.sources + 1) → α → α) :
    Prop where
  changes : ∀ pos ∈ boxPositions p.axes p.origin,
    (p.body pos).Changes bounds (destination pos) (step pos)
  separates : Separates p.axes p.origin

/-- The steps at position `j`, folded over the element there. -/
def Pass.foldAt {k : Nat} (step : Vector Int (k + 1) → α → α)
    (positions : List (Vector Int (k + 1))) (j : Int) (v : α) : α :=
  (positions.filter fun pos => destination pos == j).foldl (fun v pos => step pos v) v

namespace Pass

variable {p : Pass α} {bounds : Rect} {step : Vector Int (p.sources + 1) → α → α}

theorem runLeaves_eq (p : Pass α) (leaves : List (Leaf (p.sources + 1))) :
    p.runLeaves leaves = (leaves.flatMap Leaf.positions).forM p.body :=
  (forM_flatMap leaves Leaf.positions p.body).symm

theorem mem_positions {e : Executor} {order : List (Leaf (p.sources + 1))}
    (horder : order.Perm (e.schedule p.axes p.origin)) {pos : Vector Int (p.sources + 1)}
    (h : pos ∈ order.flatMap Leaf.positions) : pos ∈ boxPositions p.axes p.origin := by
  obtain ⟨leaf, hleaf, hpos⟩ := List.mem_flatMap.mp h
  obtain ⟨parts, hparts⟩ := schedule_parts e p.axes p.origin
  exact mem_boxPositions hparts (horder.mem_iff.mp hleaf) hpos

theorem mem_flatMap_positions (e : Executor) {pos : Vector Int (p.sources + 1)}
    (h : pos ∈ boxPositions p.axes p.origin) :
    pos ∈ (e.schedule p.axes p.origin).flatMap Leaf.positions := by
  obtain ⟨parts, hparts⟩ := schedule_parts e p.axes p.origin
  exact List.mem_flatMap.mpr (exists_leaf hparts h)

/-- In any order of the leaves each element has the steps of the whole box folded over it. -/
theorem runLeaves_element (h : p.ActsBy bounds step) {e : Executor}
    {order : List (Leaf (p.sources + 1))} (horder : order.Perm (e.schedule p.axes p.origin))
    (s : Store α) (hs : s.bounds = bounds) :
    ∃ s', p.runLeaves order s = .ok () s' ∧ s'.bounds = bounds ∧
      ∀ j, s'.element j = (s.element j).map (foldAt step (boxPositions p.axes p.origin) j) := by
  have hchanges : ∀ pos ∈ order.flatMap Leaf.positions,
      (p.body pos).Changes bounds (destination pos) (step pos) := by
    intro pos hpos
    exact h.changes pos (mem_positions horder hpos)
  obtain ⟨s', hrun, hbounds, helement⟩ := Edit.forM_element _ hchanges s hs
  obtain ⟨parts, hparts⟩ := schedule_parts e p.axes p.origin
  refine ⟨s', by rw [runLeaves_eq, hrun], hbounds, ?_⟩
  intro j
  rw [helement, filter_leaves h.separates hparts horder]
  rfl

theorem run_element (h : p.ActsBy bounds step) (e : Executor) (s : Store α)
    (hs : s.bounds = bounds) :
    ∃ s', p.run e s = .ok () s' ∧ s'.bounds = bounds ∧
      ∀ j, s'.element j = (s.element j).map (foldAt step (boxPositions p.axes p.origin) j) :=
  runLeaves_element h (.refl _) s hs

theorem runLeaves_perm (h : p.ActsBy bounds step) {e : Executor} {order : List (Leaf (p.sources + 1))}
    (horder : order.Perm (e.schedule p.axes p.origin)) (s : Store α) (hs : s.bounds = bounds) :
    p.runLeaves order s = p.run e s := by
  obtain ⟨s₁, hrun₁, hb₁, h₁⟩ := runLeaves_element h horder s hs
  obtain ⟨s₂, hrun₂, hb₂, h₂⟩ := run_element h e s hs
  have : s₁ = s₂ := Store.ext_element (by rw [hb₁, hb₂]) fun j => by rw [h₁, h₂]
  rw [hrun₁, hrun₂, this]

/-- The positions of the destination that a leaf meets. -/
def cells {k : Nat} (leaf : Leaf (k + 1)) (j : Int) : Prop :=
  ∃ pos ∈ leaf.positions, destination pos = j

theorem confined_runLeaf (h : p.ActsBy bounds step) {e : Executor} {leaf : Leaf (p.sources + 1)}
    (hleaf : leaf ∈ e.schedule p.axes p.origin) :
    (p.runLeaf leaf).ConfinedTo bounds (cells leaf) := by
  intro s t hs ht hst
  have hchanges : ∀ pos ∈ leaf.positions,
      (p.body pos).Changes bounds (destination pos) (step pos) := by
    intro pos hpos
    exact h.changes pos (mem_positions (.refl _) (List.mem_flatMap.mpr ⟨leaf, hleaf, hpos⟩))
  obtain ⟨s', hrun₁, _, h₁⟩ := Edit.forM_element _ hchanges s hs
  obtain ⟨t', hrun₂, _, h₂⟩ := Edit.forM_element _ hchanges t ht
  refine ⟨s', t', hrun₁, hrun₂, fun j hj => by rw [h₁, h₂, hst j hj], ?_⟩
  intro j hj
  have hnone : (leaf.positions.filter fun pos => destination pos == j) = [] := by
    rw [List.filter_eq_nil_iff]
    intro pos hpos hd
    exact hj ⟨pos, hpos, eq_of_beq hd⟩
  rw [h₁, h₂, hnone]
  constructor
  · cases s.element j <;> rfl
  · cases t.element j <;> rfl

theorem disjoint_cells (h : p.ActsBy bounds step) (e : Executor) :
    (e.schedule p.axes p.origin).Pairwise fun l m => ∀ j, ¬(cells l j ∧ cells m j) := by
  obtain ⟨parts, hparts⟩ := schedule_parts e p.axes p.origin
  refine (disjoint_leaves h.separates hparts).imp ?_
  rintro l m hlm j ⟨⟨x, hx, hxj⟩, ⟨y, hy, hyj⟩⟩
  exact hlm x hx y hy (by rw [hxj, hyj])

end Pass

end GridFold
