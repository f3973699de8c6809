import GridFold.Proofs.Plans

/-!
# GridFold.Proofs.Checked

The steps that rely on a guard made elsewhere, with the guard made again: where it fails they trap.

* `Store.checkedWindow` — a window is cut by taking an axis out of the strides, and by looking up where
  the lowest corner lies.
* `Window.checkedBroadcastAxis` — a window gets an axis by putting a stride in.
* `Executor.collapseInSteps` — an axis is folded by writing the seed first, and only then looking up the
  folded axis and widening the destination, which could both fail.

None of the guards ever fails, so the operations are those without them (`checkedWindow_eq`,
`checkedBroadcastAxis_eq`, `collapseInSteps_eq`).
-/

namespace GridFold

/-- The entries without the one of an axis. -/
def checkedErase {β : Type} (entries : List β) (axis : Nat) : Except Trap (List β) :=
  if axis < entries.length then .ok (entries.eraseIdx axis)
  else .error (.axisOutside axis entries.length)

/-- The entries with one more, in front of the entry of an axis or behind all. -/
def checkedInsert {β : Type} (entries : List β) (axis : Nat) (entry : β) : Except Trap (List β) :=
  if axis ≤ entries.length then .ok (entries.insertIdx axis entry)
  else .error (.axisOutside axis entries.length)

theorem checkedErase_eq {β : Type} {entries : List β} {axis : Nat} (h : axis < entries.length) :
    checkedErase entries axis = .ok (entries.eraseIdx axis) := if_pos h

theorem checkedInsert_eq {β : Type} {entries : List β} {axis : Nat} (h : axis ≤ entries.length)
    (entry : β) : checkedInsert entries axis entry = .ok (entries.insertIdx axis entry) := if_pos h

/-! ## Windows -/

section Windows

variable {α : Type}

def checkedSliceStrides (strides : List Int) : Option Slice → Except Trap (List Int)
  | some slice => checkedErase strides slice.axis
  | none => .ok strides

def Store.checkedWindow (s : Store α) (rect : Rect) (slice : Option Slice) :
    Except (Failure GridError) Window := do
  (s.checkPlace rect slice).mapError .refused
  let full ← (rect.placed slice).mapError .refused
  let strides ← (checkedSliceStrides s.strides slice).mapError .trapped
  if rect.isEmpty then
    return ⟨rect, 0, strides⟩
  if s.bounds.contains full then
    let base ← (s.linearIndex full.lo).mapError .trapped
    return ⟨rect, base, strides⟩
  throw (.refused (.outOfBounds full s.bounds))

theorem checkedSliceStrides_eq {s : Store α} {rect : Rect} {slice : Option Slice}
    (h : s.HasRank rect slice) :
    checkedSliceStrides s.strides slice = .ok (sliceStrides s.strides slice) := by
  cases slice with
  | none => rfl
  | some slice => exact checkedErase_eq (by rw [length_strides]; exact h.2)

/-- The lowest corner of a rectangle that is not empty lies in every store that contains it. -/
theorem linearIndex_lo {s : Store α} {full : Rect} (hne : full.isEmpty = false)
    (hin : s.bounds.contains full = true) :
    s.linearIndex full.lo = .ok (offsetFrom s.bounds.lo s.strides full.lo) :=
  if_pos ((Rect.contains_iff.mp hin).2 _ (Rect.containsPoint_lo hne))

theorem checkedWindow_eq (s : Store α) (rect : Rect) (slice : Option Slice) :
    s.checkedWindow rect slice = (s.window rect slice).mapError .refused := by
  cases hplace : s.checkPlace rect slice with
  | error cause => simp only [Store.checkedWindow, Store.window, hplace]; rfl
  | ok =>
    have hrank : s.HasRank rect slice := checkPlace_ok_iff.mp hplace
    obtain ⟨full, hfull, _, _, hpoints⟩ := placed_ok hrank
    rw [window_of_placed hrank hfull]
    simp only [Store.checkedWindow, hplace, hfull, checkedSliceStrides_eq hrank, Except.mapError,
      bind, Except.bind]
    split
    · rfl
    · rename_i hne
      split
      · rename_i hin
        have hne : full.isEmpty = false := Rect.isEmpty_eq_false
          ((hpoints _).mpr ⟨rect.lo, rfl, Rect.containsPoint_lo (by simpa using hne)⟩)
        rw [linearIndex_lo hne hin]
        rfl
      · rfl

def Window.checkedBroadcastAxis (w : Window) (axis : Nat) (span : Span) :
    Except (Failure GridError) Window := do
  let rect ← (w.rect.insertAxis axis span).mapError .refused
  let strides ← (checkedInsert w.strides axis 0).mapError .trapped
  return ⟨rect, w.base, strides⟩

theorem checkedBroadcastAxis_eq {w : Window} (hw : w.strides.length = w.rect.rank) (axis : Nat)
    (span : Span) :
    w.checkedBroadcastAxis axis span = (w.broadcastAxis axis span).mapError .refused := by
  unfold Window.checkedBroadcastAxis Window.broadcastAxis
  by_cases haxis : axis ≤ w.rect.rank
  · rw [checkedInsert_eq (by omega)]
    cases w.rect.insertAxis axis span <;> rfl
  · have : w.rect.insertAxis axis span = .error (.invalidAxis axis w.rect.rank) := if_neg haxis
    rw [this]
    rfl

end Windows

/-! ## The collapse, step by step -/

section Steps

variable {α β γ : Type}

/-- A check before or between the writes of a kernel. -/
def Kernel.ofExcept : Except (Failure GridError) β → EStateM (Failure GridError) (Store α) β
  | .ok b => fun s => .ok b s
  | .error f => fun s => .error f s

/-- A write of a kernel; what has been written stays where it traps. -/
def Kernel.ofEdit (m : Edit α Unit) : Kernel α Unit := fun s =>
  match m s with
  | .ok () s => .ok () s
  | .error t s => .error (.trapped t) s

def Executor.collapseInSteps [Element α] (e : Executor) (op : Operator α) (dest : Target) (src : View α)
    (axis : Nat) (seed : Option α) : Kernel α Unit := do
  if dest.isEmpty then
    return ()
  Kernel.ofExcept ((checkTaskRank src.rank 2).mapError .refused)
  if src.rank ≤ axis then
    throw (.refused (.invalidAxis axis src.rank))
  if dest.rank + 1 ≠ src.rank then
    throw (.refused (.rankMismatch (dest.rank + 1) src.rank))
  Kernel.ofExcept ((dest.require .readWrite).mapError .refused)
  Kernel.ofExcept ((checkProjection dest.rect src.rect axis).mapError .refused)
  Kernel.ofEdit ((Pass.fill dest (seed.getD op.identity)).run e)
  if src.isEmpty then
    return ()
  let some span := src.rect.spans[axis]? | throw (.trapped (.axisOutside axis src.rank))
  let w ← Kernel.ofExcept (dest.window.checkedBroadcastAxis axis span)
  Kernel.ofEdit
    ((Pass.foldInto op { w with base := w.base + w.offsetOf src.rect.lo } src).run e)

theorem perform_eq (e : Executor) (passes : Plan α) :
    e.perform (.ok passes) = Kernel.ofEdit (passes.forM (Pass.run e)) := rfl

theorem ofEdit_cons (m : β → Edit α Unit) (x : β) (xs : List β) :
    Kernel.ofEdit ((x :: xs).forM m) =
      Kernel.ofEdit (m x) >>= fun _ => Kernel.ofEdit (xs.forM m) := by
  funext s
  change Kernel.ofEdit (m x >>= fun _ => xs.forM m) s = _
  simp only [Kernel.ofEdit, bind, EStateM.bind]
  cases m x s <;> rfl

theorem ofEdit_singleton (m : β → Edit α Unit) (x : β) :
    Kernel.ofEdit ([x].forM m) = Kernel.ofEdit (m x) := by
  rw [ofEdit_cons]
  exact bind_pure_unit

/-- A check that a plan starts with may as well be made by the kernel. -/
theorem perform_bind (e : Executor) (x : Except GridError β) (f : β → Except GridError (Plan α)) :
    e.perform (x >>= f) = Kernel.ofExcept (x.mapError .refused) >>= fun b => e.perform (f b) := by
  cases x <;> rfl

theorem broadcastAxis_ok {dest : Target} {src : Rect} {axis : Nat} (hrank : dest.rank + 1 = src.rank)
    (haxis : axis < src.rank) (span : Span) :
    ∃ w, dest.window.broadcastAxis axis span = .ok w ∧
      dest.alongSource src axis span = .ok { w with base := w.base + w.offsetOf src.lo } := by
  obtain ⟨_, hfull⟩ := alongSource_ok hrank haxis span
  unfold Target.alongSource at hfull ⊢
  cases hw : dest.window.broadcastAxis axis span with
  | ok w => exact ⟨w, rfl, rfl⟩
  | error cause =>
    rw [hw] at hfull
    cases hfull

/-- Nothing fails behind the first write, so the kernel that checks everything first is the same. -/
theorem collapseInSteps_eq [Element α] {s : Store α} {dest : Target} (hd : dest.IsCut s)
    (e : Executor) (op : Operator α) (src : View α) (axis : Nat) (seed : Option α) :
    e.collapseInSteps op dest src axis seed =
      e.perform (Plan.collapse op dest src axis seed) := by
  unfold Executor.collapseInSteps Plan.collapse
  by_cases hempty : dest.isEmpty = true
  · rw [if_pos hempty, if_pos hempty]
    rfl
  rw [if_neg hempty, if_neg hempty, perform_bind]
  congr 1
  funext _
  by_cases haxis : axis < src.rank
  · have hspan : src.rect.spans[axis]? = some src.rect.spans[axis] := List.getElem?_eq_getElem haxis
    by_cases hrank : dest.rank + 1 = src.rank
    · simp only [hspan, Nat.not_le.mpr haxis, hrank, ne_eq, not_true_eq_false, if_false]
      rw [perform_bind]
      congr 1
      funext _
      rw [perform_bind]
      congr 1
      funext _
      by_cases hsrc : src.isEmpty = true
      · rw [if_pos hsrc, if_pos hsrc]
        change _ = e.perform (.ok [_])
        rw [perform_eq, ofEdit_singleton]
        exact bind_pure_unit
      · obtain ⟨w, hw, hfolded⟩ := broadcastAxis_ok hrank haxis src.rect.spans[axis]
        rw [if_neg hsrc, if_neg hsrc, checkedBroadcastAxis_eq hd.length_strides, hw, hfolded]
        change _ = e.perform (.ok [_, _])
        rw [perform_eq, ofEdit_cons, ofEdit_singleton]
        rfl
    · simp only [hspan, Nat.not_le.mpr haxis, hrank, ne_eq, not_false_eq_true, if_true, if_false]
      rfl
  · have hspan : src.rect.spans[axis]? = none := List.getElem?_eq_none (Nat.not_lt.mp haxis)
    simp only [hspan, Nat.not_lt.mp haxis, if_true]
    rfl

end Steps

end GridFold
