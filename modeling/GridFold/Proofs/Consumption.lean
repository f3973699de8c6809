import GridFold.Proofs.Endings

/-!
# GridFold.Proofs.Consumption

Which launches read their futures.

* `Launch.after` — what a launch leaves, whether or not it fails.
* `Launch.Keeps` — a step that reads no future, and `Launch.Consumes` — a launch that reads the futures
  exactly under a condition. Bodies are worked out step by step: `consumes_step` adds to the condition
  that the step gets through.
* `consumes_body` — the condition of each task kind.
* `consumed_iff` — the same of launches.
-/

namespace GridFold

open Wire

variable {α β γ : Type}

/-- When the futures are read. Where the arguments and the numbers of futures and regions are right, the
destination is not empty and its slice can be picked, an axis collapse reads its future even if it fails
later. -/
def TaskContext.ReadsFutures (ctx : TaskContext α) (succeeds : Prop) : TaskKind → Prop
  | .reductionScalar | .combineScalar => succeeds
  | .combineBroadcast =>
    succeeds ∧ ∃ args, ShapeArgs.decode ctx.args = .ok args ∧ args.rect.isEmpty = false
  | .axisCollapse =>
    ∃ args, CollapseArgs.decode ctx.args = .ok args ∧ ctx.futures.length = 1 ∧ ctx.regions.length = 2 ∧
      args.initRect.isEmpty = false ∧ ∀ axis ∈ args.collapseDim, axis < ctx.indexPoint.length
  | .wholePartition | .combine | .radixFanIn => False

theorem TaskContext.not_readsFutures_of_empty (ctx : TaskContext α) {succeeds : Prop} {kind : TaskKind}
    {rect : Rect} {axis : Option Nat} (h : ctx.destination? kind = some (rect, axis))
    (hempty : rect.isEmpty = true) : ¬ctx.ReadsFutures succeeds kind := by
  cases kind with
  | axisCollapse =>
    rintro ⟨args, hargs, _, _, hne, _⟩
    simp only [destination?, hargs, Except.toOption, Option.map_some, Option.some.injEq,
      Prod.mk.injEq] at h
    rw [h.1, hempty] at hne
    cases hne
  | combineBroadcast =>
    rintro ⟨_, args, hargs, hne⟩
    simp only [destination?, hargs, Except.toOption, Option.map_some, Option.some.injEq,
      Prod.mk.injEq] at h
    rw [h.1, hempty] at hne
    cases hne
  | wholePartition => exact id
  | combine => exact id
  | radixFanIn => exact id
  | reductionScalar => cases h
  | combineScalar => cases h

namespace Launch

/-- The context that the launch leaves, whether or not it fails. -/
def after (x : Launch α β) (ctx : TaskContext α) : TaskContext α :=
  match x ctx with
  | .ok _ ctx' | .error _ ctx' => ctx'

def Succeeds (x : Launch α β) (ctx : TaskContext α) : Prop := ∃ b ctx', x ctx = .ok b ctx'

def Keeps (x : Launch α β) : Prop := ∀ ctx, (x.after ctx).futures = ctx.futures

/-- Behind the launch the futures have been read if `p` holds, and are as they were if not. -/
structure Consumes (x : Launch α β) (ctx : TaskContext α) (p : Prop) : Prop where
  read : p → (x.after ctx).futures = ctx.consumed.futures
  unread : ¬p → (x.after ctx).futures = ctx.futures

section Rules

variable {x : Launch α β} {f : β → Launch α γ} {ctx : TaskContext α} {p q : Prop}

theorem after_ok {b : β} {ctx' : TaskContext α} (h : x ctx = .ok b ctx') : x.after ctx = ctx' := by
  rw [after, h]

theorem after_bind {b : β} {ctx' : TaskContext α} (h : x ctx = .ok b ctx') :
    (x >>= f).after ctx = (f b).after ctx' := by
  simp only [after, bind, EStateM.bind, h]

theorem after_bind_error {cause : Failure TaskError} {ctx' : TaskContext α}
    (h : x ctx = .error cause ctx') : (x >>= f).after ctx = x.after ctx := by
  simp only [after, bind, EStateM.bind, h]

/-! Steps that read no future. -/

theorem Still.keeps (hx : x.Still) : x.Keeps := by
  intro ctx
  unfold after
  obtain ⟨b, h⟩ | ⟨cause, h⟩ := hx ctx <;> rw [h]

theorem Keeps.bind (hx : x.Keeps) (hf : ∀ b, (f b).Keeps) : (x >>= f).Keeps := by
  intro ctx
  cases h : x ctx with
  | ok b ctx' =>
    have hfirst := hx ctx
    rw [after_ok h] at hfirst
    rw [after_bind h, hf b ctx', hfirst]
  | error cause ctx' => rw [after_bind_error h, hx ctx]

theorem keeps_ofFailing (y : Except (Failure TaskError) β) : (ofFailing y : Launch α β).Keeps := by
  intro ctx
  cases y <;> rfl

theorem keeps_onOutput (kernel : Kernel α Unit) : (onOutput kernel).Keeps := by
  intro ctx
  unfold after onOutput
  cases ctx.regions with
  | nil => rfl
  | cons out inputs =>
    simp only
    cases out.binding? with
    | none => rfl
    | some binding =>
      simp only
      cases kernel binding.1 <;> rfl

/-! Launches that read the futures under a condition. -/

theorem Keeps.consumes (hx : x.Keeps) (h : ¬p) : x.Consumes ctx p :=
  ⟨fun hp => absurd hp h, fun _ => hx ctx⟩

theorem Still.consumes (hx : x.Still) (h : ¬p) : x.Consumes ctx p := hx.keeps.consumes h

theorem Consumes.congr (hx : x.Consumes ctx p) (h : ctx.futures ≠ [] → (p ↔ q)) : x.Consumes ctx q := by
  by_cases hnil : ctx.futures = []
  · have hsame : ctx.consumed.futures = ctx.futures := by
      rw [TaskContext.consumed, hnil, List.map_nil]
    have hfutures : (x.after ctx).futures = ctx.futures := by
      by_cases hp : p
      · rw [hx.read hp, hsame]
      · exact hx.unread hp
    exact ⟨fun _ => hfutures.trans hsame.symm, fun _ => hfutures⟩
  · rwa [← h hnil]

/-- A step that only looks at the context, and what follows it if the step gets through. -/
theorem consumes_step {r : β → Prop} {p : β → Prop} (hx : x.Still)
    (hok : ∀ {b ctx'}, x ctx = .ok b ctx' ↔ r b ∧ ctx = ctx')
    (hf : ∀ b, r b → (f b).Consumes ctx (p b)) : (x >>= f).Consumes ctx (∃ b, r b ∧ p b) := by
  obtain ⟨b, h⟩ | ⟨cause, h⟩ := hx ctx
  · have hr : r b := (hok.mp h).1
    have hp : (∃ b, r b ∧ p b) ↔ p b := by
      constructor
      · rintro ⟨b', hr', hp'⟩
        cases h.symm.trans (hok.mpr ⟨hr', rfl⟩)
        exact hp'
      · intro hp
        exact ⟨b, hr, hp⟩
    have hafter : (x >>= f).after ctx = (f b).after ctx := after_bind h
    rw [hp]
    exact ⟨fun hp => hafter ▸ (hf b hr).read hp, fun hp => hafter ▸ (hf b hr).unread hp⟩
  · have hafter : (x >>= f).after ctx = ctx := by
      rw [after_bind_error h, after, h]
    refine ⟨?_, fun _ => by rw [hafter]⟩
    rintro ⟨b, hr, _⟩
    cases h.symm.trans (hok.mpr ⟨hr, rfl⟩)

theorem consumes_get {f : TaskContext α → Launch α γ} (h : (f ctx).Consumes ctx p) :
    ((get : Launch α (TaskContext α)) >>= f).Consumes ctx p :=
  ⟨h.read, h.unread⟩

theorem consumes_futures {f : Unit → Launch α γ} (hf : (f ()).Keeps) :
    (consumeFutures >>= f).Consumes ctx True :=
  ⟨fun _ => hf ctx.consumed, fun h => absurd trivial h⟩

theorem Consumes.map (hx : x.Consumes ctx p) (g : β → γ) :
    (x >>= fun b => pure (g b)).Consumes ctx p := by
  have hafter : (x >>= fun b => pure (g b)).after ctx = x.after ctx := by
    cases h : x ctx with
    | ok b ctx' =>
      rw [after_bind h, after_ok h]
      rfl
    | error cause ctx' => exact after_bind_error h
  exact ⟨fun hp => hafter ▸ hx.read hp, fun hp => hafter ▸ hx.unread hp⟩

end Rules

/-! ## The bodies -/

section Bodies

variable [Element α] {ctx : TaskContext α}

theorem exists_picks {point : Point} {axis : Option Nat} :
    (∃ slice, Picks point axis slice) ↔ ∀ a ∈ axis, a < point.length := by
  cases axis with
  | none => simp [Picks]
  | some a =>
    constructor
    · rintro ⟨_, c, hc, rfl⟩ _ ⟨⟩
      exact (List.getElem?_eq_some_iff.mp hc).1
    · intro h
      exact ⟨_, _, List.getElem?_eq_getElem (h a rfl), rfl⟩

theorem consumes_axisCollapse (op : Operator α) (e : Executor) (succeeds : Prop) :
    (axisCollapse op e).Consumes ctx (ctx.ReadsFutures succeeds .axisCollapse) := by
  have hsteps : (axisCollapse op e).Consumes ctx (∃ args, CollapseArgs.decode ctx.args = .ok args ∧
      ∃ _ : Unit, ctx.futures.length ∈ [0, 1] ∧ ctx.regions.length = 2 ∧ args.initRect.isEmpty = false ∧
        ∀ axis ∈ args.collapseDim, axis < ctx.indexPoint.length) := by
    unfold axisCollapse
    refine consumes_step (still_arguments _) arguments_ok_iff fun args _ => ?_
    refine consumes_step (still_expectFutures _ _) expectFutures_ok_iff fun _ _ => ?_
    refine consumes_get ?_
    split
    · rename_i out source hregions
      split
      · rename_i hempty
        refine (still_pure ()).consumes ?_
        rintro ⟨_, hne, _⟩
        rw [hempty] at hne
        cases hne
      · rename_i hempty
        refine .congr (consumes_step (p := fun _ => True) (still_indexSlice _) indexSlice_ok_iff
          fun slice _ => consumes_futures ?_) fun _ => ?_
        · exact .bind (still_ofExcept _).keeps fun _ => .bind (still_ofExcept _).keeps fun _ =>
            keeps_onOutput _
        · simp only [and_true, exists_picks, hregions, List.length_cons, List.length_nil, true_and,
            Bool.eq_false_iff.mpr hempty]
    · rename_i hregions
      refine (still_refuse _).consumes ?_
      rintro ⟨htwo, _⟩
      obtain ⟨out, source, htwo⟩ := List.length_eq_two.mp htwo
      exact hregions out source htwo
  refine hsteps.congr fun hne => ?_
  have hpos : 0 < ctx.futures.length := List.length_pos_iff.mpr hne
  simp only [TaskContext.ReadsFutures, List.mem_cons, List.not_mem_nil, or_false, exists_const]
  refine exists_congr fun args => and_congr_right fun _ => and_congr ?_ Iff.rfl
  omega

/-- Behind the last read nothing can fail, so the future has been read exactly if the launch succeeds with
something to write. -/
theorem consumes_combineBroadcast (op : Operator α) (e : Executor) :
    (combineBroadcast op e).Consumes ctx
      (ctx.ReadsFutures (ctx.Accepts .combineBroadcast) .combineBroadcast) := by
  have hsteps : (combineBroadcast op e).Consumes ctx (∃ args, ShapeArgs.decode ctx.args = .ok args ∧
      (∃ scalar, ctx.futures = [scalar]) ∧ args.rect.isEmpty = false ∧
        ((∃ out, ctx.regions = [out] ∧ out.Updates args.rect none) ∨
          ∃ out lhs, ctx.regions = [out, lhs] ∧ out.Overwrites args.rect none ∧
            lhs.Reads args.rect none)) := by
    unfold combineBroadcast
    refine consumes_step (still_arguments _) arguments_ok_iff fun args _ => ?_
    refine consumes_get ?_
    split
    · rename_i scalar hfutures
      split
      · rename_i out hregions
        split
        · rename_i hempty
          exact (still_pure ()).consumes (by simp [hempty])
        · rename_i hempty
          refine .congr (consumes_step (p := fun _ => True) (still_ofExcept _) ofExcept_ok_iff
            fun dest _ => consumes_futures (keeps_onOutput _)) fun _ => ?_
          simp [Region.exists_update, hregions, hfutures, hempty]
      · rename_i out lhs hregions
        split
        · rename_i hempty
          exact (still_pure ()).consumes (by simp [hempty])
        · rename_i hempty
          refine .congr (consumes_step (still_ofExcept _) ofExcept_ok_iff fun dest _ =>
            consumes_step (p := fun _ => True) (still_ofExcept _) ofExcept_ok_iff
              fun a _ => consumes_futures (keeps_onOutput _)) fun _ => ?_
          simp [Region.exists_overwrite, Region.exists_input, hregions, hfutures, hempty]
      · rename_i hone htwo
        refine (still_refuse _).consumes ?_
        rintro ⟨_, _, ⟨out, hregions, _⟩ | ⟨out, lhs, hregions, _⟩⟩
        · exact hone out hregions
        · exact htwo out lhs hregions
    · rename_i hfutures
      refine (still_refuse _).consumes ?_
      rintro ⟨⟨scalar, hscalar⟩, _⟩
      exact hfutures scalar hscalar
  refine hsteps.congr fun _ => ?_
  constructor
  · rintro ⟨args, hargs, hscalar, hne, ⟨out, hregions, hout⟩ | ⟨out, lhs, hregions, hout, hlhs⟩⟩
    · exact ⟨⟨args, hargs, hscalar, .inl ⟨out, hregions, .inr hout⟩⟩, args, hargs, hne⟩
    · exact ⟨⟨args, hargs, hscalar, .inr ⟨out, lhs, hregions, .inr ⟨hout, hlhs⟩⟩⟩, args, hargs, hne⟩
  · rintro ⟨⟨args, hargs, hscalar, haccepts⟩, args', hargs', hne⟩
    cases hargs.symm.trans hargs'
    refine ⟨args, hargs, hscalar, hne, haccepts.imp ?_ ?_⟩
    · rintro ⟨out, hregions, hempty | hout⟩
      · simp [hempty] at hne
      · exact ⟨out, hregions, hout⟩
    · rintro ⟨out, lhs, hregions, hempty | hboth⟩
      · simp [hempty] at hne
      · exact ⟨out, lhs, hregions, hboth⟩

omit [Element α] in
theorem consumes_scalarPair :
    (scalarPair : Launch α (α × α)).Consumes ctx (ctx.regions = [] ∧ ctx.futures.length = 2) := by
  unfold scalarPair
  refine consumes_get ?_
  split
  · rename_i hregions
    split
    · rename_i a b hfutures
      refine (consumes_futures (still_pure (a.value, b.value)).keeps).congr fun _ => ?_
      simp [hregions, hfutures]
    · rename_i hfutures
      refine (still_refuse _).consumes ?_
      rintro ⟨_, htwo⟩
      obtain ⟨a, b, htwo⟩ := List.length_eq_two.mp htwo
      exact hfutures a b htwo
  · rename_i hregions
    exact (still_refuse _).consumes fun h => hregions h.1

theorem keeps_wholePartition (op : Operator α) (e : Executor) : (wholePartition op e).Keeps := by
  unfold wholePartition
  refine .bind (still_arguments _).keeps fun args => .bind (still_expectFutures _ _).keeps fun _ =>
    .bind still_get.keeps fun ctx => ?_
  split
  · refine .bind (still_ofExcept _).keeps fun src => ?_
    cases e.total op src with
    | ok value => exact (still_pure value).keeps
    | error f => exact fun _ => rfl
  · exact (still_refuse _).keeps

theorem keeps_combine (op : Operator α) (e : Executor) : (combine op e).Keeps := by
  unfold combine
  refine .bind (still_arguments _).keeps fun args => .bind (still_expectFutures _ _).keeps fun _ =>
    .bind still_get.keeps fun ctx => ?_
  split
  · split
    · exact (still_pure ()).keeps
    · exact .bind (still_ofExcept _).keeps fun _ => .bind (still_ofExcept _).keeps fun _ =>
        keeps_onOutput _
  · split
    · exact (still_pure ()).keeps
    · exact .bind (still_ofExcept _).keeps fun _ => .bind (still_ofExcept _).keeps fun _ =>
        .bind (still_ofExcept _).keeps fun _ => keeps_onOutput _
  · exact (still_refuse _).keeps

theorem keeps_radixFanIn (a : Arithmetic) (op : Operator α) (e : Executor) :
    (radixFanIn a op e).Keeps := by
  unfold radixFanIn
  refine .bind (still_arguments _).keeps fun args => .bind (still_expectFutures _ _).keeps fun _ =>
    .bind still_get.keeps fun ctx => ?_
  split
  · exact (still_refuse _).keeps
  · refine .bind (still_ofExcept _).keeps fun radix => ?_
    split
    · exact (still_pure ()).keeps
    · exact .bind (still_indexSlice _).keeps fun _ => .bind (keeps_ofFailing _) fun _ =>
        .bind (still_indexSlice _).keeps fun _ => .bind (keeps_ofFailing _) fun _ =>
          .bind (still_ofExcept _).keeps fun _ => keeps_onOutput _

theorem consumes_body (op : Operator α) (e : Executor) (kind : TaskKind) :
    (body op e kind).Consumes ctx (ctx.ReadsFutures (ctx.Accepts kind) kind) := by
  cases kind with
  | axisCollapse => exact (consumes_axisCollapse op e _).map _
  | wholePartition => exact ((keeps_wholePartition op e).consumes id).map _
  | reductionScalar =>
    exact consumes_scalarPair.map fun p => TaskOutput.scalar (op.fold .exclusive p.1 p.2)
  | combine => exact ((keeps_combine op e).consumes id).map _
  | combineBroadcast => exact (consumes_combineBroadcast op e).map _
  | combineScalar => exact consumes_scalarPair.map fun p => TaskOutput.scalar (op.combine p.1 p.2)
  | radixFanIn => exact ((keeps_radixFanIn .exact op e).consumes id).map _

theorem consumes_launch (r : Registry) (workers : Nat) (id : TaskId) :
    (r.launch workers id : Launch α (TaskOutput α)).Consumes ctx
      (∃ d, r.get? id = some d ∧ d.elementType = Element.elementType α ∧
        ctx.ReadsFutures ((r.launch workers id : Launch α (TaskOutput α)).Succeeds ctx) d.kind) := by
  have hsucceeds := launch_ok_iff r workers id ctx
  unfold Succeeds
  rw [hsucceeds]
  rw [Registry.launch_eq]
  cases r.get? id with
  | none =>
    refine (still_refuse _).consumes ?_
    rintro ⟨_, ⟨⟩, _⟩
  | some d =>
    simp only [Option.some.injEq, exists_eq_left']
    split
    · rename_i ht
      simp only [ht, true_and]
      exact consumes_body _ _ _
    · rename_i ht
      exact (still_refuse _).consumes fun h => ht h.1

end Bodies

end Launch

end GridFold
