import GridFold.Proofs.Plans

/-!
# GridFold.Proofs.Calls

The kernels that write a destination, as data, and where they look.

* `View.Made` — how sources come about: by cutting a store, or by looking through a target that was cut
  out of it and perhaps widened. Either way their points show elements of that store (`View.Made.sound`).
* `Call` — a kernel with all that it is given besides the destination; `Call.plan` is the plan it makes.
* `Call.within` — whatever the plan, each step meets a point of the destination, and each operand
  stands on an element of its store.
-/

namespace GridFold

/-! ## Where views come from -/

section Made

variable {α : Type}

/-- Targets of a store: cut out of it, and widened. -/
inductive Target.Made (s : Store α) : Target → Prop where
  | cut {rect : Rect} {slice : Option Slice} {privilege : Privilege} {t : Target}
      (h : s.target rect slice privilege = .ok t) : Made s t
  | widened {t t' : Target} {axis : Nat} {span : Span} (ht : Made s t)
      (h : t.broadcastAxis axis span = .ok t') : Made s t'

/-- Views of a store: cut out of it, or looking through a target. -/
inductive View.Made : View α → Prop where
  | cut {s : Store α} {rect : Rect} {slice : Option Slice} {v : View α}
      (h : s.view rect slice = .ok v) : Made v
  | through {s : Store α} {t : Target} {v : View α} (ht : t.Made s) (h : t.asView s = .ok v) : Made v

theorem View.IsCut.made {v : View α} (h : v.IsCut) : v.Made := by
  obtain ⟨_, _, h⟩ := h
  exact .cut h

theorem Target.Made.shows {s : Store α} {t : Target} (h : t.Made s) :
    t.window.strides.length = t.rect.rank ∧ t.window.Shows t.rect s.length := by
  induction h with
  | cut h =>
    have hcut := (isCut_of_target h).2.2
    exact ⟨hcut.length_strides, hcut.faithful.inside⟩
  | widened _ h ih =>
    unfold Target.broadcastAxis at h
    split at h
    · rename_i w hw
      cases h
      exact ⟨length_broadcastAxis ih.1 hw, shows_broadcastAxis ih.1 hw ih.2⟩
    · cases h

theorem View.Made.sound {v : View α} (h : v.Made) : v.Sound := by
  cases h with
  | cut h => exact (isCut_of_view h).2.2.sound
  | through ht h =>
    unfold Target.asView at h
    split at h
    · cases h
      exact ht.shows.2
    · cases h

end Made

/-- A kernel that writes a destination, with its other operands. -/
inductive Call (α : Type) : Type 1 where
  | fill (value : α)
  | modify (f : α → α)
  | map {β : Type} (src : View β) (f : β → α)
  | modifyWith {β : Type} (src : View β) (f : α → β → α)
  | zip {β γ : Type} (a : View β) (b : View γ) (f : β → γ → α)
  | combine [Element α] (op : Operator α) (lhs rhs : View α)
  | combineInPlace [Element α] (op : Operator α) (rhs : View α)
  | combineScalar [Element α] (op : Operator α) (lhs : View α) (scalar : α)
  | combineScalarInPlace [Element α] (op : Operator α) (scalar : α)
  | collapse [Element α] (op : Operator α) (src : View α) (axis : Nat) (seed : Option α)
  | fanIn [Element α] (op : Operator α) (inputs : List (View α))

namespace Call

variable {α : Type}

def plan (dest : Target) : Call α → Except GridError (Plan α)
  | fill value => Plan.fill dest value
  | modify f => Plan.modify dest f
  | map src f => Plan.map dest src f
  | modifyWith src f => Plan.modifyWith dest src f
  | zip a b f => Plan.zip dest a b f
  | combine op lhs rhs => Plan.combine op dest lhs rhs
  | combineInPlace op rhs => Plan.combineInPlace op dest rhs
  | combineScalar op lhs scalar => Plan.combineScalar op dest lhs scalar
  | combineScalarInPlace op scalar => Plan.combineScalarInPlace op dest scalar
  | collapse op src axis seed => Plan.collapse op dest src axis seed
  | fanIn op inputs => Plan.fanIn op dest inputs

def SourcesMade : Call α → Prop
  | fill _ | modify _ | combineScalarInPlace _ _ => True
  | map src _ | modifyWith src _ => src.Made
  | zip a b _ => a.Made ∧ b.Made
  | combine _ lhs rhs => lhs.Made ∧ rhs.Made
  | combineInPlace _ src | combineScalar _ src _ | collapse _ src _ _ => src.Made
  | fanIn _ inputs => ∀ v ∈ inputs, View.Made v

/-- The number of elements of each source's store, in the order of the operands. -/
def lengths : Call α → List Nat
  | fill _ | modify _ | combineScalarInPlace _ _ => []
  | map src _ | modifyWith src _ => [src.store.length]
  | zip a b _ => [a.store.length, b.store.length]
  | combine _ lhs rhs => [lhs.store.length, rhs.store.length]
  | combineInPlace _ src | combineScalar _ src _ | collapse _ src _ _ => [src.store.length]
  | fanIn _ inputs => inputs.map fun v => v.store.length

theorem actsBy {c : Call α} {dest : Target} {s : Store α} {passes : Plan α} (hc : c.SourcesMade)
    (hd : dest.IsCut s) (h : c.plan dest = .ok passes) :
    ∀ p ∈ passes, ∃ step, p.ActsBy s.bounds step := by
  cases c with
  | fill value => exact acts_of_fill hd h
  | modify f => exact acts_of_modify hd h
  | map src f => exact acts_of_map hd hc.sound h
  | modifyWith src f => exact acts_of_modifyWith hd hc.sound h
  | zip a b f => exact acts_of_zip hd hc.1.sound hc.2.sound h
  | combine op lhs rhs => exact acts_of_zip hd hc.1.sound hc.2.sound h
  | combineInPlace op rhs => exact acts_of_modifyWith hd hc.sound h
  | combineScalar op lhs scalar => exact acts_of_map hd hc.sound h
  | combineScalarInPlace op scalar => exact acts_of_modify hd h
  | collapse op src axis seed => exact acts_of_collapse hd hc.sound h
  | fanIn op inputs => exact acts_of_fanIn hd (fun v hv => (hc v hv).sound) h

end Call

/-! ## Where the steps stand -/

variable {α β γ δ : Type} {s : Store δ} {dest : Target}

theorem View.Sound.shows {v : View α} (h : v.Sound) {r : Rect} (hr : v.rect = r) :
    v.window.Shows r v.store.length := by
  subst hr
  exact h

theorem Target.IsCut.shows (h : dest.IsCut s) : dest.window.Shows dest.rect s.length :=
  h.faithful.inside

/-- Each step meets a point of the destination, and each of its operands stands on an element of a
store with as many elements as the list says. -/
structure Pass.Within (p : Pass δ) (dest : Target) (lengths : List Nat) : Prop where
  meets : ∀ pos ∈ boxPositions p.axes p.origin,
    ∃ q, dest.rect.containsPoint q = true ∧ destination pos = dest.window.at q
  inside : ∀ pos ∈ boxPositions p.axes p.origin, ∀ (i : Nat) (h : i < p.sources + 1),
    ∃ n, lengths[i]? = some n ∧ 0 ≤ pos[i] ∧ pos[i].toNat < n

theorem within_through {k : Nat} {r : Rect} {windows : Vector Window (k + 1)}
    {cost : Vector Int (k + 1) → Nat} {body : Vector Int (k + 1) → Edit δ Unit} {lengths : List Nat}
    (hrect : ∀ w ∈ windows, w.rect = r)
    (hdest : ∀ p, r.containsPoint p = true →
      ∃ q, dest.rect.containsPoint q = true ∧ (destination windows).at p = dest.window.at q)
    (hshows : ∀ (i : Nat) (h : i < k + 1), ∃ n, lengths[i]? = some n ∧ windows[i].Shows r n) :
    (Pass.through cost r.extents windows body).Within dest lengths := by
  have hstanding : ∀ pos ∈ boxPositions (axesOf cost r.extents (windows.map Window.strides))
      (windows.map Window.base), ∃ p, r.containsPoint p = true ∧ pos = standing windows p := by
    intro pos hpos
    rw [boxPositions_windows cost hrect] at hpos
    obtain ⟨p, hp, rfl⟩ := List.mem_map.mp hpos
    exact ⟨p, Rect.mem_points.mp hp, rfl⟩
  constructor
  · intro pos hpos
    obtain ⟨p, hp, rfl⟩ := hstanding pos hpos
    obtain ⟨q, hq, hat⟩ := hdest p hp
    exact ⟨q, hq, (destination_standing windows p).trans hat⟩
  · intro pos hpos i hi
    obtain ⟨p, hp, rfl⟩ := hstanding pos hpos
    obtain ⟨n, hn, hin⟩ := hshows i hi
    obtain ⟨hlo, hhi⟩ := hin p hp
    rw [← getElem_standing windows p i hi] at hlo hhi
    exact ⟨n, hn, hlo, hhi⟩

theorem within_dest {k : Nat} {windows : Vector Window (k + 1)}
    {cost : Vector Int (k + 1) → Nat} {body : Vector Int (k + 1) → Edit δ Unit} {lengths : List Nat}
    (hd : destination windows = dest.window) (hrect : ∀ w ∈ windows, w.rect = dest.rect)
    (hshows : ∀ (i : Nat) (h : i < k + 1),
      ∃ n, lengths[i]? = some n ∧ windows[i].Shows dest.rect n) :
    (Pass.through cost dest.rect.extents windows body).Within dest lengths := by
  refine within_through hrect ?_ hshows
  intro p hp
  exact ⟨p, hp, by rw [hd]⟩

theorem within_fill (hd : dest.IsCut s) (value : δ) (lengths : List Nat) :
    (Pass.fill dest value).Within dest (s.length :: lengths) := by
  refine within_dest rfl (by simp [Target.rect]) ?_
  intro i hi
  obtain rfl : i = 0 := by omega
  exact ⟨s.length, rfl, hd.shows⟩

theorem within_modify (hd : dest.IsCut s) (f : δ → δ) :
    (Pass.modify dest f).Within dest [s.length] := by
  refine within_dest rfl (by simp [Target.rect]) ?_
  intro i hi
  obtain rfl : i = 0 := by omega
  exact ⟨s.length, rfl, hd.shows⟩

variable {src : View α} {other : View β}

theorem within_map (hd : dest.IsCut s) (hs : src.Sound) (hrect : src.rect = dest.rect) (f : α → δ) :
    (Pass.map dest src f).Within dest [s.length, src.store.length] := by
  refine within_dest rfl (by simpa [View.rect, Target.rect] using hrect) ?_
  intro i hi
  obtain rfl | rfl : i = 0 ∨ i = 1 := by omega
  · exact ⟨s.length, rfl, hd.shows⟩
  · exact ⟨src.store.length, rfl, hs.shows hrect⟩

theorem within_modifyWith (hd : dest.IsCut s) (hs : src.Sound) (hrect : src.rect = dest.rect)
    (f : δ → α → δ) : (Pass.modifyWith dest src f).Within dest [s.length, src.store.length] := by
  refine within_dest rfl (by simpa [View.rect, Target.rect] using hrect) ?_
  intro i hi
  obtain rfl | rfl : i = 0 ∨ i = 1 := by omega
  · exact ⟨s.length, rfl, hd.shows⟩
  · exact ⟨src.store.length, rfl, hs.shows hrect⟩

theorem within_zip (hd : dest.IsCut s) (hs : src.Sound) (ho : other.Sound)
    (hrect : src.rect = dest.rect) (horect : other.rect = dest.rect) (f : α → β → δ) :
    (Pass.zip dest src other f).Within dest
      [s.length, src.store.length, other.store.length] := by
  refine within_dest rfl (by simpa [View.rect, Target.rect] using ⟨hrect, horect⟩) ?_
  intro i hi
  obtain rfl | rfl | rfl : i = 0 ∨ i = 1 ∨ i = 2 := by omega
  · exact ⟨s.length, rfl, hd.shows⟩
  · exact ⟨src.store.length, rfl, hs.shows hrect⟩
  · exact ⟨other.store.length, rfl, ho.shows horect⟩

theorem within_fanIn [Element δ] {first : View δ} {others : List (View δ)} (hd : dest.IsCut s)
    (hs : ∀ v ∈ first :: others, View.Sound v)
    (hrect : ∀ v ∈ first :: others, v.rect = dest.rect) (op : Operator δ) :
    (Pass.fanIn op dest first others).Within dest
      (s.length :: (first :: others).map fun v => v.store.length) := by
  change (Pass.through sharedCost dest.rect.extents (fanInWindows dest first others) _).Within _ _
  refine within_dest rfl (rect_fanInWindows hrect) ?_
  intro i hi
  cases i with
  | zero => exact ⟨s.length, rfl, hd.shows⟩
  | succ i =>
    have hlt : i < (first :: others).length := by
      rw [List.length_cons]
      omega
    have hmem : (first :: others)[i] ∈ first :: others := List.getElem_mem hlt
    have hwindow : (fanInWindows dest first others)[i + 1] = (first :: others)[i].window := by
      simp [fanInWindows, ← List.map_cons]
    refine ⟨(first :: others)[i].store.length, ?_, ?_⟩
    · rw [List.getElem?_cons_succ, List.getElem?_map, List.getElem?_eq_getElem hlt]
      rfl
    · rw [hwindow]
      exact (hs _ hmem).shows (hrect _ hmem)

theorem within_foldInto [Element δ] {src : View δ} {axis : Nat} (hd : dest.IsCut s) (hs : src.Sound)
    (hrank : dest.rank + 1 = src.rank) (haxis : axis < src.rank)
    (hproj : ∀ (p : Point) (c : Int),
      src.rect.containsPoint (p.insertIdx axis c) = true → dest.rect.containsPoint p = true)
    (op : Operator δ) (lo : Int) :
    (Pass.foldInto op (dest.over src.rect axis lo) src).Within dest
      [s.length, src.store.length] := by
  have hunder := fun q hq => exists_under hd hrank haxis hproj lo (q := q) hq
  refine within_through (r := src.rect) (by simp [Target.over, View.rect]) ?_ ?_
  · intro q hq
    exact ⟨q.eraseIdx axis, hunder q hq⟩
  · intro i hi
    obtain rfl | rfl : i = 0 ∨ i = 1 := by omega
    · refine ⟨s.length, rfl, ?_⟩
      intro q hq
      obtain ⟨hp, hat⟩ := hunder q hq
      change 0 ≤ (dest.over src.rect axis lo).at q ∧
        ((dest.over src.rect axis lo).at q).toNat < s.length
      rw [hat]
      exact hd.shows _ hp
    · exact ⟨src.store.length, rfl, hs.shows rfl⟩

theorem Call.within {c : Call δ} {passes : Plan δ} (hc : c.SourcesMade) (hd : dest.IsCut s)
    (h : c.plan dest = .ok passes) : ∀ p ∈ passes, p.Within dest (s.length :: c.lengths) := by
  cases c with
  | fill value => exact (fill_ok_iff.mp h).forall_mem fun _ => within_fill hd value []
  | modify f => exact (modify_ok_iff.mp h).forall_mem fun _ => within_modify hd f
  | map src f => exact (map_ok_iff.mp h).forall_mem fun hrect => within_map hd hc.sound hrect f
  | modifyWith src f =>
    exact (modifyWith_ok_iff.mp h).forall_mem fun ⟨_, hrect⟩ => within_modifyWith hd hc.sound hrect f
  | zip a b f =>
    exact (zip_ok_iff.mp h).forall_mem fun ⟨hrecta, hrectb⟩ =>
      within_zip hd hc.1.sound hc.2.sound hrecta hrectb f
  | combine op lhs rhs =>
    exact (zip_ok_iff.mp h).forall_mem fun ⟨hrecta, hrectb⟩ =>
      within_zip hd hc.1.sound hc.2.sound hrecta hrectb _
  | combineInPlace op rhs =>
    exact (modifyWith_ok_iff.mp h).forall_mem fun ⟨_, hrect⟩ => within_modifyWith hd hc.sound hrect _
  | combineScalar op lhs scalar =>
    exact (map_ok_iff.mp h).forall_mem fun hrect => within_map hd hc.sound hrect _
  | combineScalarInPlace op scalar =>
    exact (modify_ok_iff.mp h).forall_mem fun _ => within_modify hd _
  | collapse op src axis seed =>
    exact collapse_forall_mem h (within_fill hd _ _) fun lo hrank haxis hproj =>
      within_foldInto hd hc.sound hrank haxis hproj op lo
  | fanIn op inputs =>
    refine fanIn_forall_mem h ?_
    rintro first others rfl hrect
    exact within_fanIn hd (fun v hv => (hc v hv).sound) hrect op

end GridFold
