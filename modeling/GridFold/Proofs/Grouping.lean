import GridFold.Proofs.Totals
import Mathlib.Data.List.SplitLengths

/-!
# GridFold.Proofs.Grouping

How a total that is shared out groups its elements, which shows where combining is not associative.

* `blockSizes` — how many elements each slot folds. Neither the elements nor the operator count.
* `slotSizes_leavesOf` — the leaves of a packed box have these sizes, slot by slot.
* `total_by_slots` — each slot folds its block of the row-major sequence from the identity, and the
  total folds the slots in their order.
-/

namespace GridFold

/-! ## The sizes of the blocks -/

/-- The extents of the two halves of an array. The outermost axis with more than one index is halved,
and the half behind is the longer one. -/
def halves? : List Nat → Option (List Nat × List Nat)
  | [] => none
  | n :: extents =>
    if 1 < n then some (n / 2 :: extents, (n - n / 2) :: extents)
    else (halves? extents).map fun h => (n :: h.1, n :: h.2)

/-- How many elements of an array each of `workers` slots gets. A part that is not halved goes to the
first of its slots, and the others get nothing. -/
def blockSizes (minLength workers : Nat) (extents : List Nat) : List Nat :=
  if workers ≤ 1 ∨ extents.prod ≤ minLength then
    extents.prod :: List.replicate (workers - 1) 0
  else
    match halves? extents with
    | none => extents.prod :: List.replicate (workers - 1) 0
    | some h =>
      blockSizes minLength (workers / 2) h.1 ++ blockSizes minLength (workers - workers / 2) h.2
termination_by workers

theorem halves?_of_ones {extents : List Nat} (h : ∀ n ∈ extents, n = 1) : halves? extents = none := by
  induction extents with
  | nil => rfl
  | cons n extents ih =>
    have hn : ¬ 1 < n := by
      have := h n (by simp)
      omega
    rw [halves?, if_neg hn, ih fun m hm => h m (by simp [hm])]
    rfl

theorem halves?_append {before after : List Nat} {n : Nat} (hbefore : ∀ m ∈ before, m = 1)
    (hn : 1 < n) :
    halves? (before ++ n :: after) =
      some (before ++ n / 2 :: after, before ++ (n - n / 2) :: after) := by
  induction before with
  | nil => exact if_pos hn
  | cons m before ih =>
    have hm : ¬ 1 < m := by
      have := hbefore m (by simp)
      omega
    rw [List.cons_append, halves?, if_neg hm, ih fun l hl => hbefore l (by simp [hl])]
    rfl

/-! ## The leaves of each slot -/

section Slots

variable {k : Nat}

theorem boxVolume_eq (axes : List (Axis k)) : boxVolume axes = (axes.map Axis.extent).prod := rfl

theorem length_boxPositions (axes : List (Axis k)) (origin : Vector Int k) :
    (boxPositions axes origin).length = boxVolume axes := by
  induction axes generalizing origin with
  | nil => rfl
  | cons a axes ih =>
    simp only [boxPositions, List.length_flatMap, ih, List.map_const', List.length_range,
      List.sum_replicate, smul_eq_mul]
    rfl

/-- How many indices the leaves in each of the slots from `slot` on have. -/
def slotSizes (leaves : List (Leaf k)) (slot workers : Nat) : List Nat :=
  (List.range' slot workers).map fun i =>
    ((leaves.filter fun l => l.slot = i).map fun l => l.positions.length).sum

theorem slotSizes_single (axes : List (Axis k)) (origin : Vector Int k) (slot : Nat) {workers : Nat}
    (hw : 0 < workers) :
    slotSizes [⟨axes, origin, slot⟩] slot workers =
      boxVolume axes :: List.replicate (workers - 1) 0 := by
  obtain ⟨n, rfl⟩ := Nat.exists_eq_succ_of_ne_zero (by omega : workers ≠ 0)
  have hothers : ∀ i ∈ List.range' (slot + 1) n,
      (([(⟨axes, origin, slot⟩ : Leaf k)].filter fun l => l.slot = i).map fun l =>
        l.positions.length).sum = 0 := by
    intro i hi
    have hne : slot ≠ i := by
      have := (List.mem_range'_1.mp hi).1
      omega
    simp [hne]
  rw [slotSizes, List.range'_succ, List.map_cons, List.map_congr_left hothers]
  simp [Leaf.positions_eq, length_boxPositions]

theorem filter_slot_eq_nil {leaves : List (Leaf k)} {i : Nat} (h : ∀ l ∈ leaves, l.slot ≠ i) :
    leaves.filter (fun l => l.slot = i) = [] := by
  rw [List.filter_eq_nil_iff]
  intro l hl hli
  exact h l hl (of_decide_eq_true hli)

/-- Leaves with slots of their own share the slots out. -/
theorem slotSizes_append {left right : List (Leaf k)} {slot m n : Nat}
    (hleft : ∀ l ∈ left, l.slot < slot + m) (hright : ∀ l ∈ right, slot + m ≤ l.slot) :
    slotSizes (left ++ right) slot (m + n) =
      slotSizes left slot m ++ slotSizes right (slot + m) n := by
  rw [slotSizes, ← List.range'_append_1, List.map_append]
  congr 1
  · apply List.map_congr_left
    intro i hi
    have hin := (List.mem_range'_1.mp hi).2
    have hnone : right.filter (fun l => l.slot = i) = [] := filter_slot_eq_nil fun l hl => by
      have := hright l hl
      omega
    rw [List.filter_append, hnone, List.append_nil]
  · apply List.map_congr_left
    intro i hi
    have hin := (List.mem_range'_1.mp hi).1
    have hnone : left.filter (fun l => l.slot = i) = [] := filter_slot_eq_nil fun l hl => by
      have := hleft l hl
      omega
    rw [List.filter_append, hnone, List.nil_append]

theorem halves?_of_short {axes : List (Axis k)} (h : Packed axes) {c : Cut k}
    (hc : bestCut? axes = some c) (hext : c.axis.extent ≤ 1) :
    halves? (axes.map Axis.extent) = none := by
  refine halves?_of_ones ?_
  intro n hn
  obtain ⟨a, ha, rfl⟩ := List.mem_map.mp hn
  have hscore : (a.extent - 1) * a.cost ≤ (c.axis.extent - 1) * c.axis.cost :=
    bestCut?_score hc a ha
  have hzero : c.axis.extent - 1 = 0 := by omega
  rw [hzero, Nat.zero_mul] at hscore
  have hpos := h.nonempty a ha
  have hcost := h.costly a ha
  rcases Nat.mul_eq_zero.mp (Nat.le_zero.mp hscore) with hone | hfree
  · omega
  · omega

theorem Cut.extents_resized (c : Cut k) (n : Nat) :
    (c.resized n).map Axis.extent =
      c.before.map Axis.extent ++ n :: c.after.map Axis.extent := by
  rw [Cut.resized, List.map_append, List.map_cons]

/-- Otherwise its best axis is the outermost one with more than one index, and it is halved there. -/
theorem halves?_of_cut {axes : List (Axis k)} (h : Packed axes) {c : Cut k}
    (hc : bestCut? axes = some c) (hext : 1 < c.axis.extent) :
    halves? (axes.map Axis.extent) =
      some ((c.resized (c.axis.extent / 2)).map Axis.extent,
        (c.resized (c.axis.extent - c.axis.extent / 2)).map Axis.extent) := by
  have hones : ∀ n ∈ c.before.map Axis.extent, n = 1 := by
    intro n hn
    obtain ⟨a, ha, rfl⟩ := List.mem_map.mp hn
    exact h.bestCut?_outermost hc hext a ha
  have hextents : axes.map Axis.extent =
      c.before.map Axis.extent ++ c.axis.extent :: c.after.map Axis.extent := by
    rw [bestCut?_eq hc, List.map_append, List.map_cons]
  rw [hextents, halves?_append hones hext, c.extents_resized, c.extents_resized]

/-- Whatever the strides, the extents of a packed box decide how many indices its leaves have: by
induction on the workers, since both halves are packed again. -/
theorem slotSizes_leavesOf (minLength : Nat) {workers : Nat} (hw : 0 < workers) (slot : Nat)
    {axes : List (Axis k)} (h : Packed axes) (origin : Vector Int k) :
    slotSizes (leavesOf minLength workers slot axes origin) slot workers =
      blockSizes minLength workers (axes.map Axis.extent) := by
  induction workers using Nat.strongRecOn generalizing slot axes origin with
  | ind workers ih =>
    have hwhole := slotSizes_single axes origin slot hw
    rw [boxVolume_eq] at hwhole
    rw [leavesOf, blockSizes, ← boxVolume_eq]
    split
    · exact hwhole
    rename_i hworkers
    cases hc : bestCut? axes with
    | none =>
      obtain rfl := eq_nil_of_bestCut? hc
      exact hwhole
    | some c =>
      have haxes := bestCut?_eq hc
      have hcost : 0 < c.axis.cost := h.costly _ (by rw [haxes]; simp)
      by_cases hext : c.axis.extent ≤ 1
      · simp only [halves?_of_short h hc hext]
        rw [if_pos (.inr hext)]
        exact hwhole
      · simp only [halves?_of_cut h hc (by omega : 1 < c.axis.extent)]
        rw [if_neg (by omega : ¬(c.axis.cost = 0 ∨ c.axis.extent ≤ 1))]
        rw [haxes] at h
        obtain ⟨m, hm⟩ : ∃ m, m = c.axis.extent / 2 := ⟨_, rfl⟩
        obtain ⟨n, hn⟩ : ∃ n, workers = workers / 2 + n := ⟨workers - workers / 2, by omega⟩
        have hrest : workers - workers / 2 = n := by omega
        simp only [← hm, hrest]
        have hleft : Packed (c.resized m) := h.resized (by omega) (by omega)
        have hright : Packed (c.resized (c.axis.extent - m)) := h.resized (by omega) (by omega)
        have hslots := (slots_leavesOf minLength (workers / 2) slot (c.resized m) origin
          (by omega)).2
        have hslots' := (slots_leavesOf minLength n (slot + workers / 2)
          (c.resized (c.axis.extent - m)) (advance origin c.axis.steps (Int.ofNat m))
          (by omega)).2
        rw [← ih _ (by omega) (by omega) slot hleft origin,
          ← ih _ (by omega) (by omega) (slot + workers / 2) hright
            (advance origin c.axis.steps (Int.ofNat m)),
          ← slotSizes_append (fun l hl => (hslots l hl).2) fun l hl => (hslots' l hl).1, ← hn]

end Slots

/-! ## The blocks of a total -/

namespace Total

variable {α : Type} [Element α] {src : View α} {minLength workers : Nat}

theorem length_blocks (default : α) : (blocks default minLength workers src).length = workers := by
  rw [blocks, List.length_map, List.length_range]

theorem lengths_blocks (hw : 0 < workers) (hv : src.IsCut) (hne : src.rect.isEmpty = false)
    (default : α) :
    (blocks default minLength workers src).map List.length =
      blockSizes minLength workers src.rect.extents := by
  have hpacked : Packed (parallelAxes src) := by
    obtain ⟨slice, hwindow⟩ := hv.window
    exact packed_window hwindow hne
  have hblock : ∀ i, (block minLength workers src i).length =
      (((leavesOf minLength workers 1 (parallelAxes src) #v[0, src.window.base]).filter
        fun l => l.slot = 1 + i).map fun l => l.positions.length).sum := by
    intro i
    rw [block_eq minLength src hw, parallelLeaves, List.filter_map, List.flatMap_map,
      List.length_flatMap, Nat.add_comm 1 i]
    simp only [positions_inSlot, List.length_map]
    rfl
  calc (blocks default minLength workers src).map List.length
      = (List.range workers).map fun i => (block minLength workers src i).length := by
        simp only [blocks, List.map_map, Function.comp_def, List.length_map]
    _ = slotSizes (leavesOf minLength workers 1 (parallelAxes src) #v[0, src.window.base]) 1
          workers := by
        rw [slotSizes, List.range'_eq_map_range, List.map_map]
        exact List.map_congr_left fun i _ => hblock i
    _ = blockSizes minLength workers src.rect.extents := by
        rw [slotSizes_leavesOf minLength hw 1 hpacked, parallelAxes, extents_axesOf]

end Total

theorem splitLengths_flatten {β : Type} (blocks : List (List β)) :
    (blocks.map List.length).splitLengths blocks.flatten = blocks := by
  induction blocks with
  | nil => rfl
  | cons b blocks ih =>
    rw [List.map_cons, List.flatten_cons, List.splitLengths_cons, List.take_left, List.drop_left, ih]

/-- How a total that is shared out is grouped: the row-major sequence falls into one block for each
worker, of sizes that the extents alone decide, each block is folded from the identity, and the
folds of the blocks are folded in their order. -/
theorem total_by_slots {α : Type} [Element α] (op : Operator α) {s : Store α} {rect : Rect}
    {slice : Option Slice} {src : View α} (hsrc : s.view rect slice = .ok src)
    (hrank : src.rank ≤ maxTaskRank) {e : Executor} {workers : Nat}
    (hworkers : e.parallelWorkers? rect.volume = some workers) :
    ∃ xs, src.elements = .ok xs ∧
      let sizes := blockSizes e.policy.minParallelLength workers rect.extents
      let blocks := sizes.splitLengths xs
      blocks.length = workers ∧ blocks.map List.length = sizes ∧ blocks.flatten = xs ∧
        e.total op src =
          .ok ((blocks.map fun b => b.foldl (op.fold .exclusive) op.identity).foldl
            (op.fold .relaxed) op.identity) := by
  obtain ⟨_, rfl, hv⟩ := isCut_of_view hsrc
  have hw : 0 < workers := Nat.lt_of_succ_lt (Executor.parallelWorkers?_some hworkers).1
  have hne := Executor.isEmpty_of_shared hworkers
  obtain ⟨blocks, hblocks⟩ : ∃ blocks,
    blocks = Total.blocks op.identity e.policy.minParallelLength workers src := ⟨_, rfl⟩
  have hlength : blocks.length = workers := by
    rw [hblocks, Total.length_blocks]
  have hsizes : blocks.map List.length =
      blockSizes e.policy.minParallelLength workers src.rect.extents := by
    rw [hblocks, Total.lengths_blocks hw hv hne]
  have helements : src.elements = .ok blocks.flatten := by
    rw [hblocks, ← Total.flatten_blocks hw hv hne]
  have htotal := total_shared hrank hworkers
    (Total.parallel_eq hw hv op e.policy.minParallelLength)
  rw [← hblocks] at htotal
  have hsplit : (blockSizes e.policy.minParallelLength workers src.rect.extents).splitLengths
      blocks.flatten = blocks := by
    rw [← hsizes, splitLengths_flatten]
  refine ⟨blocks.flatten, helements, ?_⟩
  dsimp only
  rw [hsplit]
  exact ⟨hlength, hsizes, rfl, htotal⟩

/-- Two rows of three, taken off one after the other by three workers, which get a row, one element
and two elements. -/
theorem total_by_slots_rows :
    let rows : Rect := ⟨[⟨0, 1⟩, ⟨0, 2⟩], by decide, by decide⟩
    let s : Store Int8 := ⟨rows, ⟨#[1, 2, 3, 4, 5, 6], rfl⟩⟩
    let src : View Int8 := ⟨s, ⟨rows, 0, [3, 1]⟩⟩
    let op : Operator Int8 := ⟨0, fun a b => a - b⟩
    let e : Executor := ⟨⟨.parallel, 0⟩, 3⟩
    s.view rows none = .ok src ∧ e.parallelWorkers? rows.volume = some 3 ∧
      blockSizes 0 3 rows.extents = [3, 1, 2] ∧
      e.total op src = .ok 21 := by
  intro rows s src op e
  have hs : s.view rows none = .ok src := rfl
  have hw : e.parallelWorkers? rows.volume = some 3 := by decide
  have hsizes : blockSizes 0 3 rows.extents = [3, 1, 2] := by
    simp [blockSizes, halves?, rows, Rect.extents, Span.extent]
  obtain ⟨xs, hxs, _, _, _, htotal⟩ := total_by_slots op hs (by decide) hw
  obtain rfl : xs = [1, 2, 3, 4, 5, 6] := by
    have : src.elements = .ok [1, 2, 3, 4, 5, 6] := rfl
    rw [hxs] at this
    exact Except.ok.inj this
  change blockSizes e.policy.minParallelLength 3 rows.extents = _ at hsizes
  rw [hsizes] at htotal
  have hvalue : (([3, 1, 2].splitLengths [1, 2, 3, 4, 5, 6]).map fun b =>
      b.foldl (op.fold .exclusive) op.identity).foldl (op.fold .relaxed) op.identity = 21 := by
    decide
  exact ⟨hs, hw, hsizes, htotal.trans (congrArg _ hvalue)⟩

end GridFold
