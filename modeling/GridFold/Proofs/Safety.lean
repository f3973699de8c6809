import GridFold.Proofs.Endings
import GridFold.Proofs.Scratch

/-!
# GridFold.Proofs.Safety

No launch traps, whatever bytes, regions, futures and points it is given, and no operand of a kernel ever
stands outside the data of its store.

* `Total.inside_parallel`, `Total.inside_serial` — where the steps of a total stand; `Call.within` says it
  for the kernels that write a destination.
* `launch_safe` — the main result.
-/

namespace GridFold

variable {α : Type}

/-! ## The steps of a total -/

namespace Total

variable {src : View α}

/-- Walked in one piece, the source stands on its elements. -/
theorem inside_serial (hv : src.IsCut) :
    ∀ pos ∈ (Leaf.mk (serialAxes src) #v[src.window.base] 1).positions,
      0 ≤ pos[0] ∧ pos[0].toNat < src.store.length := by
  intro pos hpos
  rw [positions_serial] at hpos
  obtain ⟨p, hp, rfl⟩ := List.mem_map.mp hpos
  rw [getElem_standing]
  exact hv.sound p (Rect.mem_points.mp hp)

variable [Element α]

/-- Shared out, each step stands on a scratch element and on an element of the source. -/
theorem inside_parallel (hv : src.IsCut) (op : Operator α) {minLength workers : Nat}
    (hw : 0 < workers) :
    ∀ leaf ∈ parallelLeaves minLength workers src, ∀ pos ∈ leaf.positions,
      (0 ≤ destination pos ∧ (destination pos).toNat < (emptyScratch op workers).size) ∧
        0 ≤ source pos ∧ (source pos).toNat < src.store.length := by
  intro leaf hleaf pos hpos
  obtain ⟨⟨hslot, hle⟩, hmeet⟩ := mem_parallelLeaves hw hleaf
  obtain ⟨hcell, p, hp, hat⟩ := hmeet pos hpos
  rw [hcell, hat, size_emptyScratch]
  exact ⟨⟨Int.natCast_nonneg _, cell_lt hle hslot⟩, hv.sound p hp⟩

end Total

/-! ## No traps -/

/-- No launch traps. The guards that its steps rely on never fail either: cutting a window, widening one
and collapsing an axis are the same as with the guards made again, and every window has one stride for
each axis. And at each step of a kernel or of a total, in each leaf, each operand stands on an element of
the store that it was cut from; an element looked for anywhere else would be a trap. -/
theorem launch_safe :
    (∀ (α : Type) [Element α] (r : Registry) (workers : Nat) (id : TaskId) (ctx : TaskContext α)
      (t : Trap) (ctx' : TaskContext α), r.launch workers id ctx ≠ .error (.trapped t) ctx') ∧
    (∀ (α : Type) (s : Store α) (rect : Rect) (slice : Option Slice),
      s.checkedWindow rect slice = (s.window rect slice).mapError .refused ∧
      ∀ w, s.window rect slice = .ok w → w.strides.length = w.rect.rank ∧
        ∀ (axis : Nat) (span : Span),
          w.checkedBroadcastAxis axis span = (w.broadcastAxis axis span).mapError .refused ∧
          ∀ w', w.broadcastAxis axis span = .ok w' → w'.strides.length = w'.rect.rank) ∧
    (∀ (α : Type) (s : Store α) (rect : Rect) (slice : Option Slice) (privilege : Privilege)
      (dest : Target) (e : Executor), s.target rect slice privilege = .ok dest →
        (∀ [Element α] (op : Operator α) (src : View α) (axis : Nat) (seed : Option α),
          e.collapseInSteps op dest src axis seed =
            e.perform ((Call.collapse op src axis seed).plan dest)) ∧
        ∀ (c : Call α) (passes : Plan α), c.SourcesMade → c.plan dest = .ok passes →
          ∀ p ∈ passes, ∀ leaf ∈ e.schedule p.axes p.origin, ∀ pos ∈ leaf.positions,
            ∀ (i : Nat) (h : i < p.sources + 1),
              ∃ n, (s.length :: c.lengths)[i]? = some n ∧ 0 ≤ pos[i] ∧ pos[i].toNat < n) ∧
    ∀ (α : Type) (s : Store α) (rect : Rect) (slice : Option Slice) (src : View α),
      s.view rect slice = .ok src →
        (∀ pos ∈ (Leaf.mk (Total.serialAxes src) #v[src.window.base] 1).positions,
          0 ≤ pos[0] ∧ pos[0].toNat < s.length) ∧
        ∀ [Element α] (e : Executor) (op : Operator α) (workers : Nat),
          e.parallelWorkers? src.rect.volume = some workers →
            ∀ leaf ∈ Total.parallelLeaves e.policy.minParallelLength workers src,
              ∀ pos ∈ leaf.positions,
                (0 ≤ destination pos ∧
                  (destination pos).toNat < (Total.emptyScratch op workers).size) ∧
                0 ≤ source pos ∧ (source pos).toNat < s.length := by
  refine ⟨?_, ?_, ?_, ?_⟩
  · intro α _ r workers id ctx t ctx' hrun
    have hends := Launch.ends_launch r workers id ctx
    unfold Launch.Ends at hends
    rw [hrun] at hends
    exact hends
  · intro α s rect slice
    refine ⟨checkedWindow_eq s rect slice, ?_⟩
    intro w hw
    have hlength := length_window hw
    exact ⟨hlength, fun axis span => ⟨checkedBroadcastAxis_eq hlength axis span,
      fun w' hw' => length_broadcastAxis hlength hw'⟩⟩
  · intro α s rect slice privilege dest e hd
    have hcut := (isCut_of_target hd).2.2
    refine ⟨fun op src axis seed => collapseInSteps_eq hcut e op src axis seed, ?_⟩
    intro c passes hc hplan p hp leaf hleaf pos hpos
    have hbox := Pass.mem_positions (.refl _) (List.mem_flatMap.mpr ⟨leaf, hleaf, hpos⟩)
    exact (Call.within hc hcut hplan p hp).inside pos hbox
  · intro α s rect slice src hsrc
    obtain ⟨rfl, _, hcut⟩ := isCut_of_view hsrc
    refine ⟨Total.inside_serial hcut, ?_⟩
    intro _ e op workers hworkers
    exact Total.inside_parallel hcut op (Nat.lt_of_succ_lt (Executor.parallelWorkers?_some hworkers).1)

/-- A launch asked to fold the tenth axis of two rows into a slice of a line, and the same rows folded and
summed up by two workers. -/
theorem launch_safe_rows :
    let line : Rect := ⟨[⟨0, 1⟩], by decide, by decide⟩
    let rows : Rect := ⟨[⟨0, 1⟩, ⟨0, 2⟩], by decide, by decide⟩
    let s : Store UInt8 := .filled line 0
    let t : Store UInt8 := ⟨rows, ⟨#[1, 2, 3, 4, 5, 6], rfl⟩⟩
    let dest : Target := ⟨⟨line, 0, [1]⟩, .readWrite⟩
    let src : View UInt8 := ⟨t, ⟨rows, 0, [3, 1]⟩⟩
    let c : Call UInt8 := .collapse .sum src 1 none
    let e : Executor := ⟨⟨.parallel, 0⟩, 2⟩
    let r : Registry := ⟨[.of .sum .axisCollapse .uint8], e.policy⟩
    let ctx : TaskContext UInt8 :=
      ⟨Wire.CollapseArgs.encode ⟨9, some 0, line, rows⟩, [.readWrite s, .readOnly t], [], [5]⟩
    (∀ (trap : Trap) (ctx' : TaskContext UInt8),
      r.launch 2 (.of .sum .axisCollapse .uint8) ctx ≠ .error (.trapped trap) ctx') ∧
    s.target line none .readWrite = .ok dest ∧ t.view rows none = .ok src ∧
    (∃ passes, c.plan dest = .ok passes ∧
      ∀ p ∈ passes, ∀ leaf ∈ e.schedule p.axes p.origin, ∀ pos ∈ leaf.positions,
        ∀ (i : Nat) (h : i < p.sources + 1),
          ∃ n, [2, 6][i]? = some n ∧ 0 ≤ pos[i] ∧ pos[i].toNat < n) ∧
    e.parallelWorkers? src.rect.volume = some 2 ∧
    ∀ leaf ∈ Total.parallelLeaves 0 2 src, ∀ pos ∈ leaf.positions,
      (0 ≤ destination pos ∧ (destination pos).toNat < 128) ∧
        0 ≤ source pos ∧ (source pos).toNat < 6 := by
  intro line rows s t dest src c e r ctx
  obtain ⟨hlaunch, _, hkernel, htotal⟩ := launch_safe
  have hd : s.target line none .readWrite = .ok dest := rfl
  have hs : t.view rows none = .ok src := rfl
  have hw : e.parallelWorkers? src.rect.volume = some 2 := by decide
  obtain ⟨passes, hplan⟩ : ∃ passes, c.plan dest = .ok passes := ⟨_, rfl⟩
  have hmade : c.SourcesMade := View.Made.cut hs
  exact ⟨hlaunch UInt8 r 2 _ ctx, hd, hs,
    ⟨passes, hplan, (hkernel UInt8 s line none .readWrite dest e hd).2 c passes hmade hplan⟩, hw,
    (htotal UInt8 t rows none src hs).2 e .sum 2 hw⟩

end GridFold
