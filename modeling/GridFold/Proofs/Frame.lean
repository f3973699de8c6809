import GridFold.Proofs.Calls
import GridFold.Proofs.Checked

/-!
# GridFold.Proofs.Frame

What a kernel leaves alone: every element outside the destination, and everything if it is refused.

* `Store.SameBut` — the store holds the same elements except perhaps at some points.
* `run_frame` — a pass changes nothing outside its destination; `forM_frame` — nor does a plan.
* `Call.frame` — nor does a kernel, and it never traps.
-/

namespace GridFold

variable {α : Type}

/-! ## Stores that agree outside some points -/

/-- Where the element of a point lies in a store with these bounds. -/
def Rect.offset (bounds : Rect) (q : Point) : Int :=
  offsetFrom (bounds.spans.map Span.lo) (spanStrides bounds.spans) q

theorem Rect.offset_injective {bounds : Rect} {p q : Point} (hp : bounds.containsPoint p = true)
    (hq : bounds.containsPoint q = true) (h : bounds.offset p = bounds.offset q) : p = q :=
  spanOffset_injective hp hq h

namespace Store

theorem get_inside {s : Store α} {q : Point} (h : s.bounds.containsPoint q = true) :
    s.get q = s.element (s.bounds.offset q) := by
  simp only [get, linearIndex, h, if_true]
  rfl

theorem get_outside {s : Store α} {q : Point} (h : ¬ s.bounds.containsPoint q = true) :
    s.get q = .error (.pointOutside q s.bounds) := by
  simp only [get, linearIndex, if_neg h]

/-- The second store has the bounds of the first, and the same elements except perhaps at the points in
`cells`. -/
structure SameBut (s s' : Store α) (cells : Point → Prop) : Prop where
  bounds : s'.bounds = s.bounds
  get : ∀ q, ¬ cells q → s'.get q = s.get q

end Store

/-- The rectangle, placed in its slice, has the point. -/
def Rect.Places (rect : Rect) (slice : Option Slice) (q : Point) : Prop :=
  ∃ p : Point, rect.containsPoint p = true ∧ q = p.placed slice

/-- The element at the position is none of those that the target shows. -/
def Target.Misses (dest : Target) (j : Int) : Prop :=
  ∀ p, dest.rect.containsPoint p = true → j ≠ dest.window.at p

/-- Elements that the target does not show are elements of points that the rectangle does not place. -/
theorem sameBut_of_element {s s' : Store α} {rect : Rect} {slice : Option Slice}
    {privilege : Privilege} {dest : Target} (hd : s.target rect slice privilege = .ok dest)
    (hb : s'.bounds = s.bounds) (h : ∀ j, dest.Misses j → s'.element j = s.element j) :
    s.SameBut s' (rect.Places slice) := by
  obtain ⟨_, _, hwindow⟩ := target_ok_iff.mp hd
  have hadmits := (window_ok_iff.mp ⟨_, hwindow⟩).2
  refine ⟨hb, ?_⟩
  intro q hq
  by_cases hin : s.bounds.containsPoint q = true
  · have hin' : s'.bounds.containsPoint q = true := by rw [hb]; exact hin
    rw [Store.get_inside hin, Store.get_inside hin', hb]
    apply h
    intro p hp hat
    rw [Target.rect, window_rect hwindow] at hp
    rw [offset_placed hwindow hp] at hat
    exact hq ⟨p, hp, Rect.offset_injective hin (hadmits p hp) hat⟩
  · have hin' : ¬ s'.bounds.containsPoint q = true := by rw [hb]; exact hin
    rw [Store.get_outside hin, Store.get_outside hin', hb]

/-! ## Passes and plans -/

section Passes

variable {dest : Target} {lengths : List Nat} {bounds : Rect}

theorem run_frame {p : Pass α} {step : Vector Int (p.sources + 1) → α → α}
    (hacts : p.ActsBy bounds step) (hwithin : p.Within dest lengths) (e : Executor) (s : Store α)
    (hs : s.bounds = bounds) :
    ∃ s', p.run e s = .ok () s' ∧ s'.bounds = bounds ∧
      ∀ j, dest.Misses j → s'.element j = s.element j := by
  obtain ⟨s', hrun, hbounds, helement⟩ := Pass.run_element hacts e s hs
  refine ⟨s', hrun, hbounds, ?_⟩
  intro j hj
  have hnone : (boxPositions p.axes p.origin).filter (fun pos => destination pos == j) = [] := by
    rw [List.filter_eq_nil_iff]
    intro pos hpos hd
    obtain ⟨q, hq, hat⟩ := hwithin.meets pos hpos
    exact hj q hq ((eq_of_beq hd).symm.trans hat)
  have hid : ∀ v, Pass.foldAt step (boxPositions p.axes p.origin) j v = v := by
    intro v
    rw [Pass.foldAt, hnone]
    rfl
  rw [helement]
  cases s.element j with
  | error t => rfl
  | ok v => exact congrArg Except.ok (hid v)

theorem forM_frame {passes : Plan α} (hacts : ∀ p ∈ passes, ∃ step, p.ActsBy bounds step)
    (hwithin : ∀ p ∈ passes, p.Within dest lengths) (e : Executor) (s : Store α)
    (hs : s.bounds = bounds) :
    ∃ s', passes.forM (Pass.run e) s = .ok () s' ∧ s'.bounds = bounds ∧
      ∀ j, dest.Misses j → s'.element j = s.element j := by
  induction passes generalizing s with
  | nil => exact ⟨s, rfl, hs, fun _ _ => rfl⟩
  | cons p passes ih =>
    obtain ⟨step, hp⟩ := hacts p (by simp)
    obtain ⟨t, hrun, ht, hframe⟩ := run_frame hp (hwithin p (by simp)) e s hs
    obtain ⟨s', hrest, hs', hframe'⟩ := ih (fun q hq => hacts q (by simp [hq]))
      (fun q hq => hwithin q (by simp [hq])) t ht
    refine ⟨s', by rw [Edit.forM_cons _ p passes hrun, hrest], hs', ?_⟩
    intro j hj
    rw [hframe' j hj, hframe j hj]

end Passes

/-! ## Kernels -/

section Kernels

variable {s : Store α} {dest : Target} {c : Call α}

theorem Call.plan_empty (c : Call α) (h : dest.isEmpty = true) : c.plan dest = .ok [] := by
  cases c <;> exact if_pos h

theorem Call.frame {rect : Rect} {slice : Option Slice} {privilege : Privilege}
    (hd : s.target rect slice privilege = .ok dest) (hc : c.SourcesMade) (e : Executor) :
    match e.perform (c.plan dest) s with
    | .ok () s' => s.SameBut s' (rect.Places slice) ∧ (rect.isEmpty = true → s' = s)
    | .error (.refused _) s' => s' = s
    | .error (.trapped _) _ => False := by
  obtain ⟨_, hrect, hcut⟩ := isCut_of_target hd
  cases hplan : c.plan dest with
  | error cause => rfl
  | ok passes =>
    have hacts := Call.actsBy hc hcut hplan
    obtain ⟨s', hrun, hb, hframe⟩ := forM_frame hacts (Call.within hc hcut hplan) e s rfl
    rw [perform_ok.mpr hrun]
    refine ⟨sameBut_of_element hd hb hframe, ?_⟩
    intro hempty
    have hnil : c.plan dest = .ok [] := c.plan_empty (by rw [Target.isEmpty, hrect, hempty])
    obtain rfl : passes = [] := Except.ok.inj (hplan.symm.trans hnil)
    cases hrun
    rfl

end Kernels

end GridFold
