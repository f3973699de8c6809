import GridFold.Proofs.Laws
import GridFold.Proofs.Plans
import GridFold.Proofs.Scratch

/-!
# GridFold.Proofs.Totals

What the total of a view is.

* `Total.serial_eq` — walked in one piece, the fold of the elements in row-major order.
* `Total.blocks` — shared out, the elements fall into one block for each slot. The blocks follow each
  other in the order of the slots (`flatten_blocks`), and the total is the fold of the blocks' folds
  (`parallel_eq`).
* `total_cases` — it is always one of the two; for a lawful operator they are the same (`total_eq`).
* `total_exchangeable` — where a view was widened, the blocks have its elements in another order
  (`flatten_blocks_perm`). It does not show if operands may change places.
-/

namespace GridFold

/-! ## Blocks by slot -/

theorem filter_le_succ {ι : Type} {key : ι → Nat} {xs : List ι}
    (h : xs.Pairwise fun x y => key x < key y) (n : Nat) :
    xs.filter (fun x => key x ≤ n + 1) =
      xs.filter (fun x => key x ≤ n) ++ xs.filter (fun x => key x = n + 1) := by
  induction xs with
  | nil => rfl
  | cons x xs ih =>
    obtain ⟨hx, hxs⟩ := List.pairwise_cons.mp h
    simp only [List.filter_cons, decide_eq_true_eq, ih hxs]
    by_cases hle : key x ≤ n
    · have hne : ¬ key x = n + 1 := by omega
      rw [if_pos (by omega), if_pos hle, if_neg hne]
      rfl
    · by_cases heq : key x = n + 1
      · have hnone : xs.filter (fun y => key y ≤ n) = [] := by
          rw [List.filter_eq_nil_iff]
          intro y hy hyn
          have := hx y hy
          rw [decide_eq_true_eq] at hyn
          omega
        rw [if_pos (by omega), if_neg hle, if_pos heq, hnone]
        rfl
      · rw [if_neg (by omega), if_neg hle, if_neg heq]

/-- Taken one key after the other, a list sorted by its keys stays as it is. -/
theorem flatMap_range_filter {ι β : Type} {key : ι → Nat} {xs : List ι}
    (h : xs.Pairwise fun x y => key x < key y) {n : Nat} (hkey : ∀ x ∈ xs, 0 < key x ∧ key x ≤ n)
    (f : ι → List β) :
    ((List.range n).flatMap fun i => (xs.filter fun x => key x = i + 1).flatMap f) =
      xs.flatMap f := by
  have hupto : ∀ m, ((List.range m).flatMap fun i =>
      (xs.filter fun x => key x = i + 1).flatMap f) =
        (xs.filter fun x => key x ≤ m).flatMap f := by
    intro m
    induction m with
    | zero =>
      have hnone : xs.filter (fun x => key x ≤ 0) = [] := by
        rw [List.filter_eq_nil_iff]
        intro x hx hx0
        have := (hkey x hx).1
        rw [decide_eq_true_eq] at hx0
        omega
      rw [hnone]
      rfl
    | succ m ih =>
      rw [List.range_succ, List.flatMap_append, ih, List.flatMap_singleton, filter_le_succ h,
        List.flatMap_append]
  have hall : xs.filter (fun x => key x ≤ n) = xs := by
    rw [List.filter_eq_self]
    intro x hx
    exact decide_eq_true (hkey x hx).2
  rw [hupto, hall]

variable {α : Type}

theorem View.elements_eq {v : View α} (hv : v.Sound) (default : α) :
    v.elements = .ok (v.rect.points.map fun p => v.elementD default (v.window.at p)) := by
  refine mapM_eq_map ?_
  intro p hp
  have hp := Rect.mem_points.mp hp
  obtain ⟨a, ha⟩ := hv.element hp
  rw [View.get_eq hp, ha, View.elementD_eq ha]
  rfl

namespace Total

variable [Element α] {op : Operator α} {src : View α} {minLength workers : Nat}

theorem foldlM_elements (hv : src.Sound) (ps : List Point)
    (hps : ∀ p ∈ ps, src.rect.containsPoint p = true) (acc : α) :
    ps.foldlM (fun acc p =>
      match src.element (src.window.at p) with
      | .ok value => Except.ok (op.fold .exclusive acc value)
      | .error t => Except.error t) acc =
      .ok ((ps.map fun p => src.elementD op.identity (src.window.at p)).foldl op.combine acc) := by
  induction ps generalizing acc with
  | nil => rfl
  | cons p ps ih =>
    obtain ⟨a, ha⟩ := hv.element (hps p (by simp))
    rw [List.foldlM_cons, ha, List.map_cons, View.elementD_eq ha, List.foldl_cons]
    exact ih (fun q hq => hps q (by simp [hq])) _

/-- In one piece: the fold of the elements in row-major order. -/
theorem serial_eq (hv : src.Sound) :
    serial op src = .ok ((src.rect.points.map fun p =>
      src.elementD op.identity (src.window.at p)).foldl op.combine op.identity) := by
  rw [serial, positions_serial, List.foldlM_map]
  simp only [getElem_standing]
  exact foldlM_elements hv _ (fun p hp => Rect.mem_points.mp hp) op.identity

/-- The positions of the source that the leaf in slot `i + 1` folds. -/
def block (minLength workers : Nat) (src : View α) (i : Nat) : List Int :=
  met ((parallelLeaves minLength workers src).flatMap Leaf.positions) (cell α (i + 1))

theorem block_eq (minLength : Nat) (src : View α) (hw : 0 < workers) (i : Nat) :
    block minLength workers src i =
    ((parallelLeaves minLength workers src).filter fun l => l.slot = i + 1).flatMap
      fun l => l.positions.map fun pos => source pos := by
  have hleaf : ∀ l ∈ parallelLeaves minLength workers src, met l.positions (cell α (i + 1)) =
      if l.slot = i + 1 then l.positions.map fun pos => source pos else [] := by
    intro l hl
    rw [met_leaf hw hl]
    by_cases h : l.slot = i + 1
    · rw [if_pos h, if_pos (by rw [h])]
    · have hne : ¬ cell α (i + 1) = cell α l.slot := fun hc =>
        h (cell_injective (mem_parallelLeaves hw hl).1.1 (by omega) hc.symm)
      rw [if_neg h, if_neg hne]
  rw [block, met_flatMap, List.flatMap_congr hleaf]
  generalize parallelLeaves minLength workers src = leaves
  induction leaves with
  | nil => rfl
  | cons l leaves ih =>
    rw [List.flatMap_cons, List.filter_cons, ih]
    by_cases h : l.slot = i + 1
    · simp [h]
    · simp [h]

theorem flatMap_block_leaves (hw : 0 < workers) :
    (List.range workers).flatMap (block minLength workers src) =
      ((leavesOf minLength workers 1 (parallelAxes src) #v[0, src.window.base]).flatMap
        Leaf.positions).map fun pos => source pos := by
  have hslots : ∀ l ∈ parallelLeaves minLength workers src, 0 < l.slot ∧ l.slot ≤ workers :=
    fun l hl => (mem_parallelLeaves hw hl).1
  calc (List.range workers).flatMap (block minLength workers src)
      = (parallelLeaves minLength workers src).flatMap fun l =>
          l.positions.map fun pos => source pos := by
        rw [funext (block_eq minLength src hw)]
        exact flatMap_range_filter (slots_parallelLeaves hw src) hslots _
    _ = ((leavesOf minLength workers 1 (parallelAxes src) #v[0, src.window.base]).flatMap
          Leaf.positions).map fun pos => source pos := by
        rw [parallelLeaves, List.flatMap_map, List.map_flatMap]
        apply List.flatMap_congr
        intro l _
        rw [positions_inSlot, List.map_map]
        apply List.map_congr_left
        intro pos _
        simp

omit [Element α] in
theorem map_source_parallel (src : View α) :
    (boxPositions (parallelAxes src) #v[0, src.window.base]).map (fun pos => source pos) =
      src.rect.points.map fun p => src.window.at p := by
  rw [boxPositions_parallel, List.map_map]
  rfl

/-- In a view that was cut they follow each other in row-major order. -/
theorem flatMap_block (hw : 0 < workers) (hv : src.IsCut) (hne : src.rect.isEmpty = false) :
    (List.range workers).flatMap (block minLength workers src) =
      src.rect.points.map fun p => src.window.at p := by
  have hpacked : Packed (parallelAxes src) := by
    obtain ⟨slice, hw⟩ := hv.window
    exact packed_window hw hne
  rw [flatMap_block_leaves hw, positions_leavesOf _ _ _ hpacked, map_source_parallel]

/-- In any view they have each point once. -/
theorem flatMap_block_perm (minLength : Nat) (src : View α) (hw : 0 < workers) :
    ((List.range workers).flatMap (block minLength workers src)).Perm
      (src.rect.points.map fun p => src.window.at p) := by
  obtain ⟨parts, hparts⟩ := leavesOf_parts minLength workers 1 (parallelAxes src)
    #v[0, src.window.base]
  rw [flatMap_block_leaves hw, ← map_source_parallel]
  exact (perm_leaves hparts).map _

theorem partials_eq {scratch scratch' : Array α}
    (hscratch : scratch = emptyScratch op workers)
    (hget : ∀ i, scratch'[i]? = scratch[i]?.map fun acc =>
      ((met ((parallelLeaves minLength workers src).flatMap Leaf.positions) i).map
        (src.elementD op.identity)).foldl op.combine acc) :
    partials workers scratch' = (List.range workers).map fun i =>
      ((block minLength workers src i).map (src.elementD op.identity)).foldl op.combine
        op.identity := by
  rw [partials, ← List.filterMap_eq_map]
  apply List.filterMap_congr
  intro i hi
  have hcell : i * spacing α = cell α (i + 1) := Nat.mul_comm _ _
  have hin : cell α (i + 1) < spacing α * workers :=
    cell_lt (by rw [List.mem_range] at hi; omega) (by omega)
  rw [hcell, hget, hscratch, emptyScratch, Array.getElem?_replicate, if_pos hin]
  rfl

/-- The elements that the slots fold, one block for each slot. -/
def blocks (default : α) (minLength workers : Nat) (src : View α) : List (List α) :=
  (List.range workers).map fun i => (block minLength workers src i).map (src.elementD default)

theorem flatten_blocks (hw : 0 < workers) (hv : src.IsCut) (hne : src.rect.isEmpty = false)
    (default : α) (minLength : Nat) :
    src.elements = .ok (blocks default minLength workers src).flatten := by
  rw [View.elements_eq hv.sound default, blocks, ← List.flatMap_def, ← List.map_flatMap,
    flatMap_block hw hv hne, List.map_map]
  rfl

/-- The blocks have the elements, in whatever order. -/
theorem flatten_blocks_perm (hw : 0 < workers) (hv : src.Sound) (default : α) (minLength : Nat) :
    ∃ xs, src.elements = .ok xs ∧ (blocks default minLength workers src).flatten.Perm xs := by
  refine ⟨_, View.elements_eq hv default, ?_⟩
  have hperm := (flatMap_block_perm minLength src hw).map (src.elementD default)
  rwa [List.map_flatMap, List.map_map] at hperm

/-- Shared out: the fold of the blocks' folds, in the order of the slots. -/
theorem parallel_sound (hw : 0 < workers) (hv : src.Sound) (op : Operator α) (minLength : Nat) :
    parallel op src minLength workers =
      .ok (((blocks op.identity minLength workers src).map fun b =>
        b.foldl op.combine op.identity).foldl (op.fold .relaxed) op.identity) := by
  have hleaves : ∀ leaf ∈ parallelLeaves minLength workers src,
      leaf ∈ parallelLeaves minLength workers src := fun _ h => h
  obtain ⟨scratch', hrun, _, hget⟩ := foldlM_foldAt op _ (emptyScratch op workers)
    (inside_of_mem hw hleaves (size_emptyScratch op workers)) (readable_of_mem hw hv hleaves)
  rw [parallel, foldLeaves_eq, hrun]
  simp only [merge, partials_eq rfl hget, blocks, List.map_map]
  rfl

theorem parallel_eq (hw : 0 < workers) (hv : src.IsCut) (op : Operator α) (minLength : Nat) :
    parallel op src minLength workers =
      .ok (((blocks op.identity minLength workers src).map fun b =>
        b.foldl op.combine op.identity).foldl (op.fold .relaxed) op.identity) :=
  parallel_sound hw hv.sound op minLength

end Total

/-! ## Any executor -/

section Executors

variable [Element α] {op : Operator α} {src : View α}

theorem Executor.isEmpty_of_shared {e : Executor} {r : Rect} {workers : Nat}
    (h : e.parallelWorkers? r.volume = some workers) : r.isEmpty = false := by
  rw [← Bool.not_eq_true, ← Rect.volume_eq_zero_iff]
  have := (Executor.parallelWorkers?_some h).2
  omega

theorem total_shared {e : Executor} {workers : Nat} (hrank : src.rank ≤ maxTaskRank)
    (hw : e.parallelWorkers? src.rect.volume = some workers) {value : α}
    (h : Total.parallel op src e.policy.minParallelLength workers = .ok value) :
    e.total op src = .ok value := by
  have hcheck : checkTaskRank src.rank 1 = .ok () :=
    checkTaskRank_ok_iff.mpr ⟨src.rect.rank_pos, hrank⟩
  have hne : src.isEmpty = false := Executor.isEmpty_of_shared hw
  simp only [Executor.total, hcheck, hne, hw, h, Bool.false_eq_true, if_false]

/-- The total of a view is the fold of its elements or, where it is shared out, of the folds of its
blocks. -/
theorem total_sound (op : Operator α) (hv : src.Sound) (hrank : src.rank ≤ maxTaskRank)
    (e : Executor) :
    (∃ xs, src.elements = .ok xs ∧ e.total op src = .ok (xs.foldl op.combine op.identity)) ∨
      ∃ workers, 0 < workers ∧ src.rect.isEmpty = false ∧
        e.total op src =
          .ok (((Total.blocks op.identity e.policy.minParallelLength workers src).map fun b =>
            b.foldl op.combine op.identity).foldl (op.fold .relaxed) op.identity) := by
  have hcheck : checkTaskRank src.rank 1 = .ok () :=
    checkTaskRank_ok_iff.mpr ⟨src.rect.rank_pos, hrank⟩
  cases hempty : src.isEmpty with
  | true =>
    have hpoints : src.rect.points = [] := by
      rw [← List.length_eq_zero_iff, Rect.length_points, Rect.volume_eq_zero_iff]
      exact hempty
    refine .inl ⟨[], by rw [View.elements, hpoints]; rfl, ?_⟩
    simp only [Executor.total, hcheck, hempty, if_true]
    rfl
  | false =>
    cases hworkers : e.parallelWorkers? src.rect.volume with
    | none =>
      refine .inl ⟨_, View.elements_eq hv op.identity, ?_⟩
      simp only [Executor.total, hcheck, hempty, hworkers, Total.serial_eq hv, Bool.false_eq_true,
        if_false]
    | some workers =>
      have hw : 0 < workers := Nat.lt_of_succ_lt (Executor.parallelWorkers?_some hworkers).1
      exact .inr ⟨workers, hw, hempty,
        total_shared hrank hworkers (Total.parallel_sound hw hv op _)⟩

/-- In a view that was cut the blocks are laid end to end. -/
theorem total_cases (op : Operator α) (hv : src.IsCut) (hrank : src.rank ≤ maxTaskRank)
    (e : Executor) :
    ∃ blocks : List (List α), src.elements = .ok blocks.flatten ∧
      (e.total op src = .ok (blocks.flatten.foldl op.combine op.identity) ∨
        e.total op src = .ok ((blocks.map fun b => b.foldl op.combine op.identity).foldl
          (op.fold .relaxed) op.identity)) := by
  obtain ⟨xs, hxs, htotal⟩ | ⟨workers, hw, hne, htotal⟩ := total_sound op hv.sound hrank e
  · exact ⟨[xs], by rw [List.flatten_singleton]; exact hxs,
      .inl (by rw [List.flatten_singleton]; exact htotal)⟩
  · exact ⟨_, Total.flatten_blocks hw hv hne op.identity e.policy.minParallelLength, .inr htotal⟩

theorem total_ok (op : Operator α) (hv : src.IsCut) (hrank : src.rank ≤ maxTaskRank)
    (e : Executor) : ∃ value, e.total op src = .ok value := by
  obtain ⟨_, _, h | h⟩ := total_cases op hv hrank e
  · exact ⟨_, h⟩
  · exact ⟨_, h⟩

/-- For a lawful operator it does not show who has worked it out. -/
theorem total_eq (h : op.Lawful) (hv : src.IsCut) (hrank : src.rank ≤ maxTaskRank) (e : Executor) :
    ∃ xs, src.elements = .ok xs ∧ e.total op src = .ok (xs.foldl op.combine op.identity) := by
  obtain ⟨blocks, helements, hserial | hparallel⟩ := total_cases op hv hrank e
  · exact ⟨blocks.flatten, helements, hserial⟩
  · rw [h.foldl_blocks] at hparallel
    exact ⟨blocks.flatten, helements, hparallel⟩

/-- If operands may change places, nor does it show that a view was not cut. -/
theorem total_exchangeable (h : op.Exchangeable) (hv : src.Sound) (hrank : src.rank ≤ maxTaskRank)
    (e : Executor) :
    ∃ xs, src.elements = .ok xs ∧ e.total op src = .ok (xs.foldl op.combine op.identity) := by
  obtain hserial | ⟨workers, hw, _, htotal⟩ := total_sound op hv hrank e
  · exact hserial
  · obtain ⟨xs, hxs, hperm⟩ :=
      Total.flatten_blocks_perm hw hv op.identity e.policy.minParallelLength
    rw [h.toLawful.foldl_blocks, h.monoidal.foldl_perm h.comm hperm] at htotal
    exact ⟨xs, hxs, htotal⟩

end Executors

end GridFold
