import GridFold.Proofs.Collapse
import GridFold.Proofs.Outcomes

/-!
# GridFold.Proofs.Plans

Which operands the kernels take, and what becomes of the plans they make.

* `fill_ok_iff`, `modify_ok_iff`, … , `collapse_ok_iff` — the conditions under which each kernel has a
  plan, and the plan.
* `KernelPlan` — the plans of all kernels for one destination store. Every pass of such a plan acts
  element by element (`KernelPlan.actsBy`), so no plan ever traps, and what it leaves in the store
  depends neither on the executor nor on the order of the leaves (`forM_runLeaves`).
-/

namespace GridFold

/-! ## Guards -/

theorem require_ok_iff {t : Target} {required : Privilege} :
    t.require required = .ok () ↔ t.privilege.grants required = true := by
  unfold Target.require
  split <;> simp_all

theorem checkSameRect_ok_iff {a b : Rect} : checkSameRect a b = .ok () ↔ b = a := by
  unfold checkSameRect
  split
  · rename_i h
    constructor
    · intro h'
      cases h'
    · rintro rfl
      exact absurd rfl h
  · split
    · rename_i h
      constructor
      · intro h'
        cases h'
      · intro h'
        exact absurd h'.symm h
    · rename_i h
      exact ⟨fun _ => (not_not.mp h).symm, fun _ => rfl⟩

theorem checkTaskRank_ok_iff {rank min : Nat} :
    checkTaskRank rank min = .ok () ↔ min ≤ rank ∧ rank ≤ maxTaskRank := by
  unfold checkTaskRank
  split
  · rename_i h
    constructor
    · intro h'
      cases h'
    · intro h'
      omega
  · rename_i h
    exact ⟨fun _ => by omega, fun _ => rfl⟩

theorem checkFanIn_ok_iff {inputs : Nat} : checkFanIn inputs = .ok () ↔ inputs ≤ maxFanIn := by
  unfold checkFanIn
  split
  · rename_i h
    constructor
    · intro h'
      cases h'
    · intro h'
      omega
  · rename_i h
    exact ⟨fun _ => by omega, fun _ => rfl⟩

theorem forM_checkSameRect {α : Type} {rect : Rect} {views : List (View α)} :
    (views.forM fun v => checkSameRect rect v.rect) = .ok () ↔ ∀ v ∈ views, v.rect = rect := by
  induction views with
  | nil => exact ⟨fun _ _ h => (nomatch h), fun _ => rfl⟩
  | cons v views ih =>
    change (checkSameRect rect v.rect >>= fun _ => views.forM fun v => checkSameRect rect v.rect) =
      .ok () ↔ _
    rw [bind_eq_ok, exists_unit, checkSameRect_ok_iff, ih]
    simp

/-! ## The plans of the kernels -/

section Plans

variable {α β δ : Type} {dest : Target} {plan : List (Pass δ)}

/-- Under these conditions the plan is one pass; for an empty destination there is nothing to do. -/
def SinglePass (dest : Target) (conditions : Prop) (pass : Pass δ) (plan : Plan δ) : Prop :=
  if dest.isEmpty then plan = [] else conditions ∧ plan = [pass]

theorem SinglePass.exists_ok {conditions : Prop} {pass : Pass δ}
    {made : Except GridError (Plan δ)}
    (h : ∀ plan, made = .ok plan ↔ SinglePass dest conditions pass plan) (hc : conditions) :
    ∃ plan, made = .ok plan := by
  by_cases hempty : dest.isEmpty = true
  · exact ⟨[], (h []).mpr (by rw [SinglePass, if_pos hempty])⟩
  · exact ⟨[pass], (h [pass]).mpr (by rw [SinglePass, if_neg hempty]; exact ⟨hc, rfl⟩)⟩

/-- What is true of the pass under the conditions is true of every pass of the plan. -/
theorem SinglePass.forall_mem {conditions : Prop} {pass : Pass δ} {q : Pass δ → Prop}
    (h : SinglePass dest conditions pass plan) (hpass : conditions → q pass) : ∀ p ∈ plan, q p := by
  intro p hp
  unfold SinglePass at h
  split at h
  · rw [h] at hp
    cases hp
  · rw [h.2, List.mem_singleton] at hp
    rw [hp]
    exact hpass h.1

theorem fill_ok_iff {value : δ} : Plan.fill dest value = .ok plan ↔
    SinglePass dest True (.fill dest value) plan := by
  unfold Plan.fill SinglePass
  split <;> simp [eq_comm]

theorem modify_ok_iff {f : δ → δ} : Plan.modify dest f = .ok plan ↔
    SinglePass dest (dest.privilege.grants .readWrite = true) (.modify dest f) plan := by
  unfold Plan.modify SinglePass
  split
  · simp [eq_comm]
  · rw [bind_eq_ok, exists_unit, require_ok_iff, pure_eq_ok, eq_comm (b := plan)]

theorem map_ok_iff {src : View α} {f : α → δ} : Plan.map dest src f = .ok plan ↔
    SinglePass dest (src.rect = dest.rect) (.map dest src f) plan := by
  unfold Plan.map SinglePass
  split
  · simp [eq_comm]
  · rw [bind_eq_ok, exists_unit, checkSameRect_ok_iff, pure_eq_ok, eq_comm (b := plan)]

theorem modifyWith_ok_iff {src : View α} {f : δ → α → δ} :
    Plan.modifyWith dest src f = .ok plan ↔
      SinglePass dest (dest.privilege.grants .readWrite = true ∧ src.rect = dest.rect)
        (.modifyWith dest src f) plan := by
  unfold Plan.modifyWith SinglePass
  split
  · simp [eq_comm]
  · rw [bind_eq_ok, exists_unit, require_ok_iff, bind_eq_ok, exists_unit, checkSameRect_ok_iff,
      pure_eq_ok, eq_comm (b := plan), and_assoc]

theorem zip_ok_iff {a : View α} {b : View β} {f : α → β → δ} : Plan.zip dest a b f = .ok plan ↔
    SinglePass dest (a.rect = dest.rect ∧ b.rect = dest.rect) (.zip dest a b f) plan := by
  unfold Plan.zip SinglePass
  split
  · simp [eq_comm]
  · rw [bind_eq_ok, exists_unit, checkSameRect_ok_iff, bind_eq_ok, exists_unit,
      checkSameRect_ok_iff, pure_eq_ok, eq_comm (b := plan), and_assoc]

variable [Element δ]

theorem fanIn_ok_iff {op : Operator δ} {inputs : List (View δ)} :
    Plan.fanIn op dest inputs = .ok plan ↔
      if dest.isEmpty then plan = []
      else ∃ first others, inputs = first :: others ∧ inputs.length ≤ maxFanIn ∧
        dest.privilege.grants .writeDiscard = true ∧ (∀ v ∈ inputs, v.rect = dest.rect) ∧
        plan = [.fanIn op dest first others] := by
  unfold Plan.fanIn
  split
  · simp [eq_comm]
  · cases inputs with
    | nil =>
      constructor
      · intro h
        cases h
      · rintro ⟨_, _, h, _⟩
        cases h
    | cons first others =>
      simp only [bind_eq_ok, exists_unit, checkFanIn_ok_iff, require_ok_iff, forM_checkSameRect,
        pure_eq_ok]
      constructor
      · rintro ⟨hlen, hgrants, hrect, rfl⟩
        exact ⟨first, others, rfl, hlen, hgrants, hrect, rfl⟩
      · rintro ⟨_, _, hinputs, hlen, hgrants, hrect, rfl⟩
        obtain ⟨rfl, rfl⟩ := List.cons.inj hinputs
        exact ⟨hlen, hgrants, hrect, rfl⟩

theorem fanIn_forall_mem {op : Operator δ} {inputs : List (View δ)} {q : Pass δ → Prop}
    (h : Plan.fanIn op dest inputs = .ok plan)
    (hpass : ∀ first others, inputs = first :: others → (∀ v ∈ inputs, v.rect = dest.rect) →
      q (.fanIn op dest first others)) : ∀ p ∈ plan, q p := by
  intro p hp
  rw [fanIn_ok_iff] at h
  split at h
  · rw [h] at hp
    cases hp
  · obtain ⟨first, others, hinputs, _, _, hrect, rfl⟩ := h
    rw [List.mem_singleton.mp hp]
    exact hpass first others hinputs hrect

/-- The passes that fold an axis, where there is something to write. -/
def collapsePasses (op : Operator δ) (dest : Target) (src : View δ) (axis : Nat) (span : Span)
    (seed : Option δ) : List (Pass δ) :=
  .fill dest (seed.getD op.identity) ::
    if src.isEmpty then [] else [.foldInto op (dest.over src.rect axis span.lo) src]

theorem collapse_ok_iff {op : Operator δ} {src : View δ} {axis : Nat} {seed : Option δ} :
    Plan.collapse op dest src axis seed = .ok plan ↔
      if dest.isEmpty then plan = []
      else 2 ≤ src.rank ∧ src.rank ≤ maxTaskRank ∧ dest.rank + 1 = src.rank ∧
        dest.privilege.grants .readWrite = true ∧
        ∃ span, src.rect.spans[axis]? = some span ∧
          (∀ (p : Point) (c : Int), src.rect.containsPoint (p.insertIdx axis c) = true →
            dest.rect.containsPoint p = true) ∧
          plan = collapsePasses op dest src axis span seed := by
  unfold Plan.collapse
  split
  · simp [eq_comm]
  cases hspan : src.rect.spans[axis]? with
  | none => simp [bind_eq_ok, throw_ne_ok]
  | some span =>
    have haxis : axis < src.rank := (List.getElem?_eq_some_iff.mp hspan).1
    simp only [bind_eq_ok, exists_unit, checkTaskRank_ok_iff, Option.some.injEq, exists_eq_left',
      and_assoc]
    refine and_congr_right fun _ => and_congr_right fun _ => ?_
    by_cases hrank : dest.rank + 1 = src.rank
    · obtain ⟨full, hfull⟩ := alongSource_ok hrank haxis span
      simp only [hrank, ne_eq, not_true_eq_false, if_false, bind_eq_ok, exists_unit, require_ok_iff,
        checkProjection_ok_iff hrank haxis, true_and]
      refine and_congr_right fun _ => and_congr_right fun _ => ?_
      unfold collapsePasses
      split
      · rw [pure_eq_ok, eq_comm]
      · rw [bind_eq_ok]
        simp only [hfull, Except.ok.injEq, exists_eq_left', pure_eq_ok, foldInto_rect]
        exact eq_comm
    · simp only [hrank, ne_eq, not_false_eq_true, if_true, bind_eq_ok, throw_ne_ok, false_and,
        exists_false]

/-- What is true of both passes of a collapse is true of every pass of its plan. -/
theorem collapse_forall_mem {op : Operator δ} {src : View δ} {axis : Nat} {seed : Option δ}
    {q : Pass δ → Prop} (h : Plan.collapse op dest src axis seed = .ok plan)
    (hfill : q (.fill dest (seed.getD op.identity)))
    (hfold : ∀ lo, dest.rank + 1 = src.rank → axis < src.rank →
      (∀ (p : Point) (c : Int), src.rect.containsPoint (p.insertIdx axis c) = true →
        dest.rect.containsPoint p = true) → q (.foldInto op (dest.over src.rect axis lo) src)) :
    ∀ p ∈ plan, q p := by
  intro p hp
  rw [collapse_ok_iff] at h
  split at h
  · rw [h] at hp
    cases hp
  · obtain ⟨_, _, hrank, _, span, hspan, hproj, rfl⟩ := h
    rcases List.mem_cons.mp hp with rfl | hp
    · exact hfill
    · split at hp
      · cases hp
      · rw [List.mem_singleton.mp hp]
        exact hfold span.lo hrank (List.getElem?_eq_some_iff.mp hspan).1 hproj

end Plans

/-! ## Running a plan -/

section Running

variable {α : Type}

/-- A plan that some kernel has made for a destination cut out of the store `s`, from sources that
were each cut out of a store of their own. -/
inductive KernelPlan [Element α] (s : Store α) : Plan α → Prop where
  | fill {dest : Target} {value : α} {plan : Plan α} (hd : dest.IsCut s)
      (hp : Plan.fill dest value = .ok plan) : KernelPlan s plan
  | modify {dest : Target} {f : α → α} {plan : Plan α} (hd : dest.IsCut s)
      (hp : Plan.modify dest f = .ok plan) : KernelPlan s plan
  | map {β : Type} {dest : Target} {src : View β} {f : β → α} {plan : Plan α} (hd : dest.IsCut s)
      (hs : src.IsCut) (hp : Plan.map dest src f = .ok plan) : KernelPlan s plan
  | modifyWith {β : Type} {dest : Target} {src : View β} {f : α → β → α} {plan : Plan α}
      (hd : dest.IsCut s) (hs : src.IsCut) (hp : Plan.modifyWith dest src f = .ok plan) :
      KernelPlan s plan
  | zip {β γ : Type} {dest : Target} {a : View β} {b : View γ} {f : β → γ → α} {plan : Plan α}
      (hd : dest.IsCut s) (ha : a.IsCut) (hb : b.IsCut) (hp : Plan.zip dest a b f = .ok plan) :
      KernelPlan s plan
  | collapse {op : Operator α} {dest : Target} {src : View α} {axis : Nat} {seed : Option α}
      {plan : Plan α} (hd : dest.IsCut s) (hs : src.IsCut)
      (hp : Plan.collapse op dest src axis seed = .ok plan) : KernelPlan s plan
  | fanIn {op : Operator α} {dest : Target} {inputs : List (View α)} {plan : Plan α}
      (hd : dest.IsCut s) (hs : ∀ v ∈ inputs, View.IsCut v)
      (hp : Plan.fanIn op dest inputs = .ok plan) : KernelPlan s plan

/-! Every pass of a kernel acts element by element. -/

section Acts

variable {β γ : Type} {s : Store α} {dest : Target} {plan : Plan α} {src : View β} {other : View γ}

theorem acts_of_fill {value : α} (hd : dest.IsCut s) (h : Plan.fill dest value = .ok plan) :
    ∀ p ∈ plan, ∃ step, p.ActsBy s.bounds step :=
  (fill_ok_iff.mp h).forall_mem fun _ => ⟨_, actsBy_fill hd value⟩

theorem acts_of_modify {f : α → α} (hd : dest.IsCut s) (h : Plan.modify dest f = .ok plan) :
    ∀ p ∈ plan, ∃ step, p.ActsBy s.bounds step :=
  (modify_ok_iff.mp h).forall_mem fun _ => ⟨_, actsBy_modify hd f⟩

theorem acts_of_map {f : β → α} (hd : dest.IsCut s) (hs : src.Sound)
    (h : Plan.map dest src f = .ok plan) : ∀ p ∈ plan, ∃ step, p.ActsBy s.bounds step :=
  (map_ok_iff.mp h).forall_mem fun hrect => ⟨_, actsBy_map hd hs hrect f⟩

theorem acts_of_modifyWith {f : α → β → α} (hd : dest.IsCut s) (hs : src.Sound)
    (h : Plan.modifyWith dest src f = .ok plan) : ∀ p ∈ plan, ∃ step, p.ActsBy s.bounds step :=
  (modifyWith_ok_iff.mp h).forall_mem fun ⟨_, hrect⟩ => ⟨_, actsBy_modifyWith hd hs hrect f⟩

theorem acts_of_zip {f : β → γ → α} (hd : dest.IsCut s) (hs : src.Sound) (ho : other.Sound)
    (h : Plan.zip dest src other f = .ok plan) : ∀ p ∈ plan, ∃ step, p.ActsBy s.bounds step :=
  (zip_ok_iff.mp h).forall_mem fun ⟨hrect, horect⟩ => ⟨_, actsBy_zip hd hs ho hrect horect f⟩

theorem acts_of_collapse [Element α] {op : Operator α} {src : View α} {axis : Nat} {seed : Option α}
    (hd : dest.IsCut s) (hs : src.Sound) (h : Plan.collapse op dest src axis seed = .ok plan) :
    ∀ p ∈ plan, ∃ step, p.ActsBy s.bounds step :=
  collapse_forall_mem h ⟨_, actsBy_fill hd _⟩ fun lo hrank haxis hproj =>
    ⟨_, actsBy_foldInto hd hs hrank haxis hproj op lo⟩

theorem acts_of_fanIn [Element α] {op : Operator α} {inputs : List (View α)} (hd : dest.IsCut s)
    (hs : ∀ v ∈ inputs, View.Sound v) (h : Plan.fanIn op dest inputs = .ok plan) :
    ∀ p ∈ plan, ∃ step, p.ActsBy s.bounds step := by
  refine fanIn_forall_mem h ?_
  rintro first others rfl hrect
  exact ⟨_, actsBy_fanIn hd hs hrect op⟩

end Acts

theorem KernelPlan.actsBy [Element α] {s : Store α} {plan : Plan α} (h : KernelPlan s plan) :
    ∀ p ∈ plan, ∃ step, p.ActsBy s.bounds step := by
  cases h with
  | fill hd hp => exact acts_of_fill hd hp
  | modify hd hp => exact acts_of_modify hd hp
  | map hd hs hp => exact acts_of_map hd hs.sound hp
  | modifyWith hd hs hp => exact acts_of_modifyWith hd hs.sound hp
  | zip hd ha hb hp => exact acts_of_zip hd ha.sound hb.sound hp
  | collapse hd hs hp => exact acts_of_collapse hd hs.sound hp
  | fanIn hd hs hp => exact acts_of_fanIn hd (fun v hv => (hs v hv).sound) hp

/-- Passes that act element by element run to their end, and the leaves of each may be taken in any
order, by any executor. -/
theorem forM_runLeaves {bounds : Rect} {plan : Plan α}
    (h : ∀ p ∈ plan, ∃ step, p.ActsBy bounds step) (s : Store α) (hs : s.bounds = bounds) :
    ∃ s', s'.bounds = bounds ∧
      ∀ (e : Executor) (order : (p : Pass α) → List (Leaf (p.sources + 1))),
        (∀ p ∈ plan, (order p).Perm (e.schedule p.axes p.origin)) →
          plan.forM (fun p => p.runLeaves (order p)) s = .ok () s' := by
  induction plan generalizing s with
  | nil => exact ⟨s, hs, fun _ _ _ => rfl⟩
  | cons p plan ih =>
    obtain ⟨step, hp⟩ := h p (by simp)
    obtain ⟨t, _, ht, helement⟩ := Pass.run_element hp ⟨.serial, 0⟩ s hs
    obtain ⟨s', hs', hrest⟩ := ih (fun q hq => h q (by simp [hq])) t ht
    refine ⟨s', hs', ?_⟩
    intro e order horder
    obtain ⟨t', hrun, ht', helement'⟩ := Pass.runLeaves_element hp (horder p (by simp)) s hs
    have htt : t' = t := Store.ext_element (by rw [ht, ht']) fun j => by rw [helement, helement']
    rw [Edit.forM_cons _ p plan hrun, htt]
    exact hrest e order fun q hq => horder q (by simp [hq])

theorem perform_ok {e : Executor} {plan : Plan α} {s s' : Store α} :
    e.perform (.ok plan) s = .ok () s' ↔ plan.forM (Pass.run e) s = .ok () s' := by
  simp only [Executor.perform]
  constructor
  · intro h
    split at h
    · rename_i t ht
      rw [ht]
      cases h
      rfl
    · cases h
  · intro h
    rw [h]

theorem KernelPlan.perform [Element α] {s : Store α} {plan : Plan α} (h : KernelPlan s plan) :
    ∃ s', s'.bounds = s.bounds ∧ ∀ e : Executor, e.perform (.ok plan) s = .ok () s' := by
  obtain ⟨s', hs', hrun⟩ := forM_runLeaves h.actsBy s rfl
  exact ⟨s', hs', fun e => perform_ok.mpr
    (hrun e (fun p => e.schedule p.axes p.origin) fun _ _ => .refl _)⟩

end Running

end GridFold
