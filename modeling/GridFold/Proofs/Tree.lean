import GridFold.Proofs.Pieces

/-!
# GridFold.Proofs.Tree

A tree of fan-ins. Values are stacked as the rows of a store; on each level every node folds the rows of
its own candidates into one row of the next level, until a single row is left.

* `column` — the store with given rows. `Tree.level` — one level of fan-ins, `Tree.Climbs` — levels until
  one row is left.
* `Tree.level_eq` — a level leaves the folds of consecutive chunks of its rows.
* `Tree.climbs_iff` — climbing ends, and always with the fold of all rows.
* `climbs_of_tiles` — the main result: the scalars of the tiles of a rectangle climb to the scalar of the
  rectangle.
-/

namespace GridFold

open Wire

variable {α : Type}

/-! ## Columns -/

/-- The rectangle of one row, without the axis that numbers the rows. -/
def rowRect : Rect := ⟨[⟨0, 0⟩], by decide, by decide⟩

/-- The bounds of `n` rows. -/
def columnBounds (n : Nat) : Rect :=
  ⟨[⟨0, Int.ofNat n - 1⟩, ⟨0, 0⟩], Nat.zero_lt_succ _, Nat.le_of_ble_eq_true rfl⟩

theorem volume_columnBounds (n : Nat) : (columnBounds n).volume = n := by
  simp [columnBounds, Rect.volume, Rect.spansVolume, Span.extent]

def column (rows : List α) : Store α :=
  ⟨columnBounds rows.length, ⟨rows.toArray, by simp [volume_columnBounds]⟩⟩

theorem toList_column (rows : List α) : (column rows).toList = rows := rfl

theorem rowRect_contains {p : Point} : rowRect.containsPoint p = true ↔ p = [0] := by
  constructor
  · intro h
    obtain ⟨c, rfl⟩ := List.length_eq_one_iff.mp (Rect.length_of_spansContain h)
    have hc := Span.contains_iff.mp (Rect.spansContain_cons.mp h).1
    simp only at hc
    rw [show c = 0 by omega]
  · rintro rfl
    rfl

theorem columnBounds_contains {n : Nat} {q : Point} :
    (columnBounds n).containsPoint q = true ↔ ∃ i < n, q = [Int.ofNat i, 0] := by
  have hrow : ∀ c p, (columnBounds n).containsPoint (c :: p) = true ↔
      (0 ≤ c ∧ c ≤ Int.ofNat n - 1) ∧ p = [0] := by
    intro c p
    rw [← rowRect_contains]
    exact Rect.spansContain_cons.trans (and_congr_left' Span.contains_iff)
  cases q with
  | nil =>
    constructor
    · intro h
      cases h
    · rintro ⟨_, _, h⟩
      cases h
  | cons c p =>
    rw [hrow]
    simp only [List.cons.injEq, Int.ofNat_eq_natCast]
    constructor
    · rintro ⟨hc, hp⟩
      exact ⟨c.toNat, by omega, by omega, hp⟩
    · rintro ⟨i, hi, rfl, hp⟩
      exact ⟨by omega, hp⟩

theorem get_column {rows : List α} {i : Nat} (h : i < rows.length) :
    (column rows).get [Int.ofNat i, 0] = .ok rows[i] := by
  have hin : (columnBounds rows.length).containsPoint [Int.ofNat i, 0] = true :=
    columnBounds_contains.mpr ⟨i, h, rfl⟩
  have hoffset : (columnBounds rows.length).offset [Int.ofNat i, 0] = Int.ofNat i := by
    simp [Rect.offset, columnBounds, spanStrides, offsetFrom, rowMajorStrides, Span.extent]
  have hi : 0 ≤ Int.ofNat i ∧ (Int.ofNat i).toNat < (column rows).bounds.volume :=
    ⟨Int.natCast_nonneg i, (volume_columnBounds rows.length).symm ▸ h⟩
  have helement : (column rows).element (Int.ofNat i) = .ok rows[i] := by
    rw [Store.element, dif_pos hi]
    rfl
  rw [Store.get_inside hin, ← helement]
  exact congrArg _ hoffset

theorem eq_column {s : Store α} {rows : List α} (hb : s.bounds = columnBounds rows.length)
    (h : ∀ (i : Nat) (hi : i < rows.length), s.get [Int.ofNat i, 0] = .ok rows[i]) :
    s = column rows := by
  refine Store.ext_get hb ?_
  intro q
  by_cases hq : (columnBounds rows.length).containsPoint q = true
  · obtain ⟨i, hi, rfl⟩ := columnBounds_contains.mp hq
    rw [h i hi, get_column hi]
  · rw [Store.get_outside (by rw [hb]; exact hq), Store.get_outside hq, hb]
    rfl

theorem admits_row {s : Store α} {n : Nat} (hb : s.bounds = columnBounds n) {i : Nat} (hi : i < n) :
    s.Admits rowRect (some ⟨0, Int.ofNat i⟩) := by
  have hrank : s.rank = 2 := by
    rw [Store.rank, hb]
    rfl
  refine ⟨⟨hrank, by rw [hrank]; exact Nat.zero_lt_two⟩, ?_⟩
  intro p hp
  rw [rowRect_contains.mp hp, hb]
  exact columnBounds_contains.mpr ⟨i, hi, rfl⟩

/-! ## Levels -/

/-- A tree of fan-ins: how many candidates a node has, what the launches are given, which stores the
levels are written to, and who works the nodes out. -/
structure Tree (α : Type) where
  radix : Nat
  args : List UInt8
  /-- The store that a level with a number of nodes is written to, as it was before. -/
  fresh : Nat → Nat → Store α
  executor : Nat → Nat → Executor
  two_le : 2 ≤ radix
  radix_le : radix ≤ maxFanIn
  decodes : RadixArgs.decode args = .ok ⟨Int32.ofNat radix, some 0, some 0, rowRect⟩
  fresh_bounds : ∀ level nodes, (fresh level nodes).bounds = columnBounds nodes

/-- The region of row `i`, absent behind the last row. -/
def rowRegion (rows : List α) (i : Nat) : Region α :=
  if i < rows.length then .readOnly (column rows) else .absent

theorem rowRegion_reads {rows : List α} {i : Nat} (h : (rowRegion rows i).isAbsent = false) :
    (rowRegion rows i).Reads rowRect (some ⟨0, Int.ofNat i⟩) := by
  by_cases hi : i < rows.length
  · rw [rowRegion, if_pos hi]
    exact admits_row rfl hi
  · rw [rowRegion, if_neg hi] at h
    cases h

namespace Tree

def nodes (t : Tree α) (rows : Nat) : Nat := (rows + t.radix - 1) / t.radix

/-- Node `j` writes row `j` of the next level. -/
def context (t : Tree α) (rows : List α) (next : Store α) (j : Nat) : TaskContext α :=
  ⟨t.args, .writeDiscard next :: (List.range' (j * t.radix) t.radix).map (rowRegion rows), [],
    [Int.ofNat j]⟩

variable [Element α]

def level (t : Tree α) (op : Operator α) (n : Nat) (rows : List α) : Option (Store α) :=
  (List.range (t.nodes rows.length)).foldlM (fun next j =>
    (Launch.body op (t.executor n j) .radixFanIn).output? (t.context rows next j))
    (t.fresh n (t.nodes rows.length))

/-- From level `n` on, the rows are folded level by level until a single one, `v`, is left. -/
inductive Climbs (t : Tree α) (op : Operator α) : Nat → List α → α → Prop where
  | root {n : Nat} {v : α} : Climbs t op n [v] v
  | level {n : Nat} {rows : List α} {next : Store α} {v : α} : 1 < rows.length →
      t.level op n rows = some next → Climbs t op (n + 1) next.toList v → Climbs t op n rows v

end Tree

/-! ## Chunks -/

/-- The rows of node `j`. -/
def chunk (rows : List α) (radix j : Nat) : List α := (rows.drop (j * radix)).take radix

theorem shown_rowRegions (default : α) (rows : List α) (first n : Nat)
    {f : Nat → Option Slice} {slot : Nat} (hf : ∀ i, f (slot + i) = some ⟨0, Int.ofNat (first + i)⟩) :
    shown default f [0] slot ((List.range' first n).map (rowRegion rows)) =
      (rows.drop first).take n := by
  induction n generalizing first slot with
  | zero => rfl
  | succ n ih =>
    have hnext : ∀ i, f (slot + 1 + i) = some ⟨0, Int.ofNat (first + 1 + i)⟩ := by
      intro i
      rw [Nat.add_assoc, hf, Nat.add_assoc]
    have hslot : f slot = some ⟨0, Int.ofNat first⟩ := hf 0
    rw [List.range'_succ, List.map_cons, shown, hslot, ih (first + 1) hnext]
    by_cases h : first < rows.length
    · rw [rowRegion, if_pos h, List.drop_eq_getElem_cons h, List.take_succ_cons]
      exact congrArg (· :: _) (Store.getD_eq (get_column h) default)
    · rw [rowRegion, if_neg h, List.drop_eq_nil_of_le (by omega), List.drop_eq_nil_of_le (by omega),
        List.take_nil, List.take_nil]
      rfl

theorem flatMap_chunk (rows : List α) (radix n : Nat) :
    (List.range n).flatMap (chunk rows radix) = rows.take (n * radix) := by
  induction n with
  | zero => simp
  | succ n ih =>
    rw [List.range_succ, List.flatMap_append, ih, List.flatMap_singleton, chunk, Nat.succ_mul,
      List.take_add]

/-- The folds of the rows of each node. -/
def chunkFolds (op : Operator α) (radix nodes : Nat) (rows : List α) : List α :=
  (List.range nodes).map fun j => op.foldFirst (chunk rows radix j)

theorem foldl_chunkFolds {op : Operator α} (hop : op.Monoidal) {radix nodes : Nat} {rows : List α}
    (h : rows.length ≤ nodes * radix) :
    (chunkFolds op radix nodes rows).foldl op.combine op.identity =
      rows.foldl op.combine op.identity := by
  have hfirst : (fun j => op.foldFirst (chunk rows radix j)) =
      (fun b => b.foldl op.combine op.identity) ∘ chunk rows radix :=
    funext fun j => hop.foldFirst_eq _
  rw [chunkFolds, hfirst, ← List.map_map, hop.foldl_blocks, ← List.flatMap_def, flatMap_chunk,
    List.take_of_length_le h]

/-! ## Climbing -/

namespace Tree

variable {t : Tree α} {rows : List α}

/-- The nodes have room for all rows, and the last node has at least one. -/
theorem nodes_bounds (t : Tree α) (h : 0 < rows.length) :
    rows.length ≤ t.nodes rows.length * t.radix ∧ 0 < t.nodes rows.length ∧
      (∀ j < t.nodes rows.length, j * t.radix < rows.length) ∧
        (1 < rows.length → t.nodes rows.length < rows.length) := by
  have hradix : 0 < t.radix := lt_of_lt_of_le Nat.zero_lt_two t.two_le
  have hlt : ∀ j, j < t.nodes rows.length ↔ j * t.radix < rows.length := by
    intro j
    rw [nodes, Nat.lt_div_iff_mul_lt hradix]
    omega
  refine ⟨?_, (hlt 0).mpr (by omega), fun j => (hlt j).mp, ?_⟩
  · exact Nat.le_of_not_lt fun hover => lt_irrefl _ ((hlt _).mpr hover)
  · intro hmore
    by_contra hge
    -- otherwise the node in the last row's place would have rows, yet twice as many lie before them
    have hlast := (hlt (rows.length - 1)).mp (by omega)
    have := Nat.mul_le_mul_left (rows.length - 1) t.two_le
    omega

variable [Element α] {op : Operator α}

theorem context_overwrites {next : Store α} {j : Nat} (hpresent : j * t.radix < rows.length)
    {n : Nat} (hb : next.bounds = columnBounds n) (hj : j < n) (op : Operator α) (e : Executor) :
    ∃ next', (Launch.body op e .radixFanIn).output? (t.context rows next j) = some next' ∧
      next.Overwritten next' rowRect (some ⟨0, Int.ofNat j⟩) fun _ =>
        op.foldFirst (chunk rows t.radix j) := by
  have hle := t.radix_le
  have hpos := t.two_le
  have hradix : (Int32.ofNat t.radix).toInt = t.radix :=
    Int32.toInt_ofNat_of_lt (lt_of_le_of_lt hle (by decide))
  have hslots : ((List.range' (j * t.radix) t.radix).map (rowRegion rows)).length ≤ t.radix := by
    simp
  have hreads : CandidatesRead rowRect t.radix (some ⟨0, Int.ofNat j⟩)
      ((List.range' (j * t.radix) t.radix).map (rowRegion rows)) := by
    intro i r hr hthere
    rw [List.getElem?_map, Option.map_eq_some_iff] at hr
    obtain ⟨k, hk, rfl⟩ := hr
    obtain ⟨_, rfl⟩ := List.getElem?_eq_some_iff.mp hk
    rw [List.getElem_range', Nat.one_mul] at hthere ⊢
    have hcoord : Int.ofNat j * Int.ofNat t.radix + Int.ofNat i = Int.ofNat (j * t.radix + i) := by
      simp
    simp only [Option.map_some, hcoord]
    exact rowRegion_reads hthere
  have hfirst : ∃ r ∈ (List.range' (j * t.radix) t.radix).map (rowRegion rows),
      r.isAbsent = false := by
    refine ⟨_, List.mem_map_of_mem (List.mem_range'_1.mpr ⟨le_refl _, by omega⟩), ?_⟩
    rw [rowRegion, if_pos hpresent]
    rfl
  obtain ⟨next', houtput, hover⟩ := radixFanIn_overwrites (t.context rows next j) t.decodes rfl rfl
    rfl hradix hle hslots rfl ⟨_, rfl, rfl⟩ ⟨_, rfl, rfl⟩ hreads (admits_row hb hj) hfirst op e
  refine ⟨next', houtput, hover.congr ?_⟩
  intro p hp
  rw [rowRect_contains.mp hp]
  refine congrArg op.foldFirst (shown_rowRegions op.identity rows (j * t.radix) t.radix fun i => ?_)
  rw [slotSlice_succ]
  simp

theorem level_eq (t : Tree α) (op : Operator α) (n : Nat) (h : 0 < rows.length) :
    t.level op n rows = some (column (chunkFolds op t.radix (t.nodes rows.length) rows)) := by
  obtain ⟨_, _, hpresent, _⟩ := t.nodes_bounds h
  have hstep : ∀ j ∈ List.range (t.nodes rows.length), ∀ s : Store α,
      s.bounds = columnBounds (t.nodes rows.length) → ∃ s',
        (Launch.body op (t.executor n j) .radixFanIn).output? (t.context rows s j) = some s' ∧
          s.Overwritten s' rowRect (some ⟨0, Int.ofNat j⟩) fun _ =>
            op.foldFirst (chunk rows t.radix j) := by
    intro j hj s hs
    have hj := List.mem_range.mp hj
    exact context_overwrites (hpresent j hj) hs hj op _
  obtain ⟨next, hnext, hb, hget, _⟩ := Store.foldlM_slices (Nat.zero_le _) List.nodup_range hstep
    (t.fresh_bounds n (t.nodes rows.length))
  refine hnext.trans (congrArg some (eq_column ?_ ?_))
  · rw [hb, chunkFolds, List.length_map, List.length_range]
  · intro i hi
    have hlt : i < t.nodes rows.length := by
      simpa [chunkFolds] using hi
    simp only [chunkFolds, List.getElem_map, List.getElem_range]
    exact hget i (List.mem_range.mpr hlt) [0] rfl

/-- Some rows climb to the fold of all of them, and to nothing else. -/
theorem climbs_iff (hop : op.Monoidal) (h : 0 < rows.length) {n : Nat} {v : α} :
    t.Climbs op n rows v ↔ v = rows.foldl op.combine op.identity := by
  constructor
  · intro hclimbs
    induction hclimbs with
    | root => exact (hop.identity_left _).symm
    | level hlength hlevel _ ih =>
      obtain ⟨hroom, hpos, _, _⟩ := t.nodes_bounds h
      rw [level_eq t op _ h] at hlevel
      cases hlevel
      rw [toList_column] at ih
      rw [ih (by simpa [chunkFolds] using hpos), foldl_chunkFolds hop hroom]
  · rintro rfl
    -- by induction on the number of rows, which every level lowers
    induction hlength : rows.length using Nat.strong_induction_on generalizing rows n with
    | _ k ih =>
      subst hlength
      obtain ⟨hroom, hpos, _, hlt⟩ := t.nodes_bounds h
      have hnodes : (chunkFolds op t.radix (t.nodes rows.length) rows).length =
          t.nodes rows.length := by
        simp [chunkFolds]
      by_cases hone : 1 < rows.length
      · refine .level hone (level_eq t op n h) ?_
        rw [toList_column, ← foldl_chunkFolds hop hroom]
        exact ih _ (hlt hone) (by omega) hnodes
      · obtain ⟨v, rfl⟩ := List.length_eq_one_iff.mp (show rows.length = 1 by omega)
        rw [List.foldl_cons, hop.identity_left]
        exact .root

end Tree

/-- The scalars of the tiles of a rectangle climb to the scalar of the rectangle, however it is tiled, for
every operator that is lawful and commutes; the reductions of the integers and of `Bool` are. -/
theorem climbs_of_tiles :
    (∀ (α : Type) [Element α] (op : Operator α), op.Exchangeable →
      ∀ (w : Tiling α) (t : Tree α) (tile : Rect → Executor) (whole : Executor),
        ∃ scalars v, w.scalars? op tile = some scalars ∧
          (∀ v', t.Climbs op 0 scalars v' ↔ v' = v) ∧ w.scalar? op whole w.rect = some v) ∧
    ∀ r : Reduction, (r.operator : Operator Bool).Exchangeable ∧
      (r.operator : Operator Int8).Exchangeable ∧ (r.operator : Operator Int16).Exchangeable ∧
      (r.operator : Operator Int32).Exchangeable ∧ (r.operator : Operator Int64).Exchangeable ∧
      (r.operator : Operator UInt8).Exchangeable ∧ (r.operator : Operator UInt16).Exchangeable ∧
      (r.operator : Operator UInt32).Exchangeable ∧ (r.operator : Operator UInt64).Exchangeable := by
  refine ⟨?_, fun r => ⟨exchangeable_bool r, exchangeable_int8 r, exchangeable_int16 r,
    exchangeable_int32 r, exchangeable_int64 r, exchangeable_uint8 r, exchangeable_uint16 r,
    exchangeable_uint32 r, exchangeable_uint64 r⟩⟩
  intro α _ op hop w t tile whole
  obtain ⟨s, privilege, hbinding, _⟩ := w.reads.binding
  have hpos : 0 < (w.tiles.map (rectFold op s)).length := by
    rw [List.length_map]
    exact List.length_pos_iff.mpr (w.tiled.ne_nil w.nonempty)
  refine ⟨_, _, Tiling.scalars_eq hop.toLawful hbinding tile, ?_,
    Tiling.scalar_eq hop.toLawful hbinding (by simp) whole⟩
  intro v
  rw [Tree.climbs_iff hop.monoidal hpos, foldl_rectFold hop.monoidal hop.comm w.tiled s]

/-! A pinwheel: four dominoes around the middle cell of three rows of three, and a binary tree of their
five scalars. -/

namespace Pinwheel

def square : Rect := ⟨[⟨0, 2⟩, ⟨0, 2⟩], by decide, by decide⟩

def tiles : List Rect :=
  [⟨[⟨0, 0⟩, ⟨0, 1⟩], by decide, by decide⟩, ⟨[⟨2, 2⟩, ⟨1, 2⟩], by decide, by decide⟩,
    ⟨[⟨1, 1⟩, ⟨1, 1⟩], by decide, by decide⟩, ⟨[⟨0, 1⟩, ⟨2, 2⟩], by decide, by decide⟩,
    ⟨[⟨1, 2⟩, ⟨0, 0⟩], by decide, by decide⟩]

def tiling : Tiling UInt8 where
  source := .readOnly ⟨square, ⟨#[1, 2, 3, 4, 5, 6, 7, 8, 9], rfl⟩⟩
  rect := square
  tiles := tiles
  args r := ShapeArgs.encode ⟨r⟩
  point _ := []
  reads := ⟨rfl, fun _ h => h⟩
  nonempty := by decide
  tiled := by decide +kernel
  decodes := by decide +kernel

def tree : Tree UInt8 where
  radix := 2
  args := RadixArgs.encode ⟨2, some 0, some 0, rowRect⟩
  fresh _ n := .filled (columnBounds n) 0
  executor n j := ⟨⟨.parallel, n⟩, j⟩
  two_le := le_refl 2
  radix_le := by decide
  decodes := by decide +kernel
  fresh_bounds _ _ := rfl

/-- The tiles are summed up by two workers each, the square in one piece. -/
theorem climbs_of_tiles_summed :
    (Reduction.sum.operator : Operator UInt8).Exchangeable ∧
      tiling.scalars? (Reduction.sum.operator) (fun _ => ⟨⟨.parallel, 0⟩, 2⟩) =
        some [3, 17, 5, 9, 11] ∧
      tree.Climbs (Reduction.sum.operator) 0 [3, 17, 5, 9, 11] 45 ∧
      tiling.scalar? (Reduction.sum.operator) ⟨.standard, 1⟩ square = some 45 := by
  have hop : (Reduction.sum.operator : Operator UInt8).Exchangeable :=
    (climbs_of_tiles.2 .sum).2.2.2.2.2.1
  obtain ⟨scalars, v, hscalars, hclimbs, hwhole⟩ := climbs_of_tiles.1 UInt8 _ hop tiling tree
    (fun _ => ⟨⟨.parallel, 0⟩, 2⟩) ⟨.standard, 1⟩
  have hlist : tiling.scalars? (Reduction.sum.operator) (fun _ => ⟨⟨.parallel, 0⟩, 2⟩) =
      some [3, 17, 5, 9, 11] := by
    decide +kernel
  have hsum : tiling.scalar? (Reduction.sum.operator) ⟨.standard, 1⟩ square = some 45 := by
    decide +kernel
  cases hscalars.symm.trans hlist
  cases hwhole.symm.trans hsum
  exact ⟨hop, hlist, (hclimbs 45).mpr rfl, hsum⟩

end Pinwheel

end GridFold
