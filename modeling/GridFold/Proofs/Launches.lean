import GridFold.Proofs.Plans
import GridFold.Task.Registry

/-!
# GridFold.Proofs.Launches

When a task body succeeds, and what context it leaves.

* `arguments_ok_iff`, … , `onOutput_ok_iff` — the steps that bodies are made of.
* `axisCollapse_ok_iff`, … , `radixFanIn_ok_iff` — the bodies. None of them changes a store before its
  kernel does.
* `slotSlice` — where the candidate of a slot is read, `eq_slotSlice`.
-/

namespace GridFold

/-- The context after its futures have been read. -/
def TaskContext.consumed {α : Type} (ctx : TaskContext α) : TaskContext α :=
  { ctx with futures := ctx.futures.map fun f => { f with consumed := true } }

namespace Launch

open Wire

/-- The launch point has a coordinate on the axis, if one is given, and the slice lies there. -/
def Picks (point : Point) : Option Nat → Option Slice → Prop
  | some axis, slice => ∃ c, point[axis]? = some c ∧ slice = some ⟨axis, c⟩
  | none, slice => slice = none

/-- The slice that belongs to a slot: `radix` coordinates belong to each node, and the first of them
to slot one. -/
def slotSlice (a : Arithmetic) (node : Option Slice) (radix : Int) (slot : Nat) : Option Slice :=
  node.map fun n => ⟨n.axis, a.reduced (n.coord * radix + Int.ofNat slot - 1)⟩

/-! ## Steps -/

section Steps

variable {α β γ : Type} {ctx ctx' : TaskContext α}

@[simp]
theorem get_ok_iff {c : TaskContext α} :
    (get : Launch α (TaskContext α)) ctx = .ok c ctx' ↔ ctx = c ∧ ctx = ctx' := by
  change EStateM.Result.ok ctx ctx = .ok c ctx' ↔ _
  simp

@[simp]
theorem refuse_ok_iff {cause : TaskError} {b : β} :
    (refuse cause : Launch α β) ctx = .ok b ctx' ↔ False := by
  simp [refuse]

@[simp]
theorem ofExcept_ok_iff {x : Except TaskError β} {b : β} :
    (ofExcept x : Launch α β) ctx = .ok b ctx' ↔ x = .ok b ∧ ctx = ctx' := by
  cases x <;> simp [ofExcept, refuse]

@[simp]
theorem ofFailing_ok_iff {x : Except (Failure TaskError) β} {b : β} :
    (ofFailing x : Launch α β) ctx = .ok b ctx' ↔ x = .ok b ∧ ctx = ctx' := by
  cases x <;> simp [ofFailing]

@[simp]
theorem arguments_ok_iff {decode : List UInt8 → Except WireError β} {b : β} :
    (arguments decode : Launch α β) ctx = .ok b ctx' ↔ decode ctx.args = .ok b ∧ ctx = ctx' := by
  unfold arguments
  cases decode ctx.args <;> simp

@[simp]
theorem expectFutures_ok_iff {allowed : List Nat} {expected : String} {u : Unit} :
    (expectFutures allowed expected : Launch α Unit) ctx = .ok u ctx' ↔
      ctx.futures.length ∈ allowed ∧ ctx = ctx' := by
  unfold expectFutures
  split <;> simp_all

@[simp]
theorem indexSlice_ok_iff {axis : Option Nat} {slice : Option Slice} :
    (indexSlice axis : Launch α (Option Slice)) ctx = .ok slice ctx' ↔
      Picks ctx.indexPoint axis slice ∧ ctx = ctx' := by
  cases axis with
  | none => simp [indexSlice, run_pure_eq_ok, Picks, eq_comm]
  | some axis =>
    simp only [indexSlice, run_bind_eq_ok, run_pure_eq_ok, Picks]
    unfold indexCoord
    constructor
    · rintro ⟨c, ctx₁, h, rfl, rfl⟩
      split at h
      · rename_i c' hc
        cases h
        exact ⟨⟨_, hc, rfl⟩, rfl⟩
      · cases h
    · rintro ⟨⟨c, hc, rfl⟩, rfl⟩
      exact ⟨c, ctx, by rw [hc], rfl, rfl⟩

@[simp]
theorem consumeFutures_ok_iff {u : Unit} :
    (consumeFutures : Launch α Unit) ctx = .ok u ctx' ↔ ctx.consumed = ctx' := by
  simp [consumeFutures, TaskContext.consumed]

theorem onOutput_ok_iff {kernel : Kernel α Unit} {u : Unit} :
    onOutput kernel ctx = .ok u ctx' ↔
      ∃ out inputs s privilege s', ctx.regions = out :: inputs ∧
        out.binding? = some (s, privilege) ∧ kernel s = .ok () s' ∧
        { ctx with regions := out.withStore s' :: inputs } = ctx' := by
  unfold onOutput
  constructor
  · intro h
    split at h
    · cases h
    · rename_i out inputs hregions
      split at h
      · cases h
      · rename_i s privilege hbinding
        split at h
        · rename_i s' hkernel
          cases h
          exact ⟨out, inputs, s, privilege, s', hregions, hbinding, hkernel, rfl⟩
        · cases h
  · rintro ⟨out, inputs, s, privilege, s', hregions, hbinding, hkernel, rfl⟩
    simp only [hregions, hbinding, hkernel]

theorem scalarPair_ok_iff {pair : α × α} : scalarPair ctx = .ok pair ctx' ↔
    ctx.regions = [] ∧ ∃ a b, ctx.futures = [a, b] ∧ pair = (a.value, b.value) ∧
      ctx.consumed = ctx' := by
  simp only [scalarPair, run_bind_eq_ok, get_ok_iff, and_assoc, exists_and_left, exists_eq_left']
  generalize ctx.regions = regions
  generalize hfutures : ctx.futures = futures
  rcases regions with _ | ⟨_, _⟩
  · rcases futures with _ | ⟨a, _ | ⟨b, _ | ⟨_, _⟩⟩⟩
    · simp
    · simp
    · simp only [run_bind_eq_ok, consumeFutures_ok_iff, run_pure_eq_ok, exists_unit]
      constructor
      · rintro ⟨ctx₁, rfl, rfl, rfl⟩
        exact ⟨trivial, a, b, rfl, rfl, rfl⟩
      · rintro ⟨_, _, _, h, rfl, rfl⟩
        cases h
        exact ⟨_, rfl, rfl, rfl⟩
    · simp
  · simp

end Steps

/-! ## Bodies -/

section Bodies

variable {α : Type} [Element α] {op : Operator α} {e : Executor} {ctx ctx' : TaskContext α}

theorem axisCollapse_ok_iff {u : Unit} : axisCollapse op e ctx = .ok u ctx' ↔
    ∃ args, CollapseArgs.decode ctx.args = .ok args ∧ ctx.futures.length ∈ [0, 1] ∧
      ∃ out source, ctx.regions = [out, source] ∧
        if args.initRect.isEmpty then ctx = ctx'
        else ∃ slice, Picks ctx.indexPoint args.collapseDim slice ∧
          ∃ dest, out.output 0 args.initRect slice .readWrite = .ok dest ∧
          ∃ src, source.input 1 args.inRect none = .ok src ∧
            onOutput (e.perform (Plan.collapse op dest src args.axis
              (ctx.futures.head?.map Future.value))) ctx.consumed = .ok u ctx' := by
  simp only [axisCollapse, run_bind_eq_ok, arguments_ok_iff, expectFutures_ok_iff, get_ok_iff,
    exists_unit, and_assoc, exists_and_left, exists_eq_left']
  refine exists_congr fun args => and_congr_right fun _ => and_congr_right fun _ => ?_
  generalize ctx.regions = regions
  rcases regions with _ | ⟨out, _ | ⟨source, _ | ⟨_, _⟩⟩⟩
  · simp
  · simp
  · split
    · simp_all
    · simp_all [run_bind_eq_ok]
  · simp

theorem wholePartition_ok_iff {value : α} : wholePartition op e ctx = .ok value ctx' ↔
    ∃ args, ShapeArgs.decode ctx.args = .ok args ∧ ctx.futures = [] ∧
      ∃ source, ctx.regions = [source] ∧
        ∃ src, source.input 0 args.rect none = .ok src ∧ e.total op src = .ok value ∧
          ctx = ctx' := by
  simp only [wholePartition, run_bind_eq_ok, arguments_ok_iff, expectFutures_ok_iff, get_ok_iff,
    exists_unit, and_assoc, exists_and_left, exists_eq_left']
  refine exists_congr fun args => and_congr_right fun _ => and_congr (by simp) ?_
  generalize ctx.regions = regions
  rcases regions with _ | ⟨source, _ | ⟨_, _⟩⟩
  · simp
  · simp only [run_bind_eq_ok, ofExcept_ok_iff, and_assoc, exists_and_left, exists_eq_left',
      List.cons.injEq, and_true]
    refine exists_congr fun src => and_congr_right fun _ => ?_
    cases e.total op src with
    | ok value => simp
    | error f => simp
  · simp

theorem combine_ok_iff {u : Unit} : combine op e ctx = .ok u ctx' ↔
    ∃ args, ShapeArgs.decode ctx.args = .ok args ∧ ctx.futures = [] ∧
      ((∃ out rhs, ctx.regions = [out, rhs] ∧
        if args.rect.isEmpty then ctx = ctx'
        else ∃ dest, out.output 0 args.rect none .readWrite = .ok dest ∧
          ∃ b, rhs.input 1 args.rect none = .ok b ∧
            onOutput (e.perform (Plan.combineInPlace op dest b)) ctx = .ok u ctx') ∨
      ∃ out lhs rhs, ctx.regions = [out, lhs, rhs] ∧
        if args.rect.isEmpty then ctx = ctx'
        else ∃ dest, out.output 0 args.rect none .writeDiscard = .ok dest ∧
          ∃ a, lhs.input 1 args.rect none = .ok a ∧
          ∃ b, rhs.input 2 args.rect none = .ok b ∧
            onOutput (e.perform (Plan.combine op dest a b)) ctx = .ok u ctx') := by
  simp only [combine, run_bind_eq_ok, arguments_ok_iff, expectFutures_ok_iff, get_ok_iff,
    exists_unit, and_assoc, exists_and_left, exists_eq_left']
  refine exists_congr fun args => and_congr_right fun _ => and_congr (by simp) ?_
  generalize ctx.regions = regions
  rcases regions with _ | ⟨out, _ | ⟨lhs, _ | ⟨rhs, _ | ⟨_, _⟩⟩⟩⟩
  · simp
  · simp
  · split
    · simp_all
    · simp_all [run_bind_eq_ok]
  · split
    · simp_all
    · simp_all [run_bind_eq_ok]
  · simp

theorem combineBroadcast_ok_iff {u : Unit} : combineBroadcast op e ctx = .ok u ctx' ↔
    ∃ args, ShapeArgs.decode ctx.args = .ok args ∧ ∃ scalar, ctx.futures = [scalar] ∧
      ((∃ out, ctx.regions = [out] ∧
        if args.rect.isEmpty then ctx = ctx'
        else ∃ dest, out.output 0 args.rect none .readWrite = .ok dest ∧
          onOutput (e.perform (Plan.combineScalarInPlace op dest scalar.value)) ctx.consumed =
            .ok u ctx') ∨
      ∃ out lhs, ctx.regions = [out, lhs] ∧
        if args.rect.isEmpty then ctx = ctx'
        else ∃ dest, out.output 0 args.rect none .writeDiscard = .ok dest ∧
          ∃ a, lhs.input 1 args.rect none = .ok a ∧
            onOutput (e.perform (Plan.combineScalar op dest a scalar.value)) ctx.consumed =
              .ok u ctx') := by
  simp only [combineBroadcast, run_bind_eq_ok, arguments_ok_iff, get_ok_iff, and_assoc,
    exists_and_left, exists_eq_left']
  refine exists_congr fun args => and_congr_right fun _ => ?_
  generalize hregions : ctx.regions = regions
  generalize hfutures : ctx.futures = futures
  rcases futures with _ | ⟨scalar, _ | ⟨_, _⟩⟩
  · simp
  · rcases regions with _ | ⟨out, _ | ⟨lhs, _ | ⟨_, _⟩⟩⟩
    · simp
    · by_cases hempty : args.rect.isEmpty = true
      · simp [hempty]
      · simp [hempty, run_bind_eq_ok]
    · by_cases hempty : args.rect.isEmpty = true
      · simp [hempty]
      · simp [hempty, run_bind_eq_ok]
    · simp
  · simp

theorem radixFanIn_ok_iff {a : Arithmetic} {u : Unit} : radixFanIn a op e ctx = .ok u ctx' ↔
    ∃ args, RadixArgs.decode ctx.args = .ok args ∧ ctx.futures = [] ∧
      ∃ out candidates, ctx.regions = out :: candidates ∧
      ∃ radix, fanInWidth args candidates.length = .ok radix ∧
        if args.rect.isEmpty then ctx = ctx'
        else ∃ node, Picks ctx.indexPoint args.extraDimIn node ∧
          ∃ offset, nodeOffset a radix node = .ok offset ∧
          ∃ slice, Picks ctx.indexPoint args.extraDimOut slice ∧
          ∃ inputs, presentInputs args.rect (candidateSlice a args.extraDimIn offset) 1 candidates =
            .ok inputs ∧
          ∃ dest, out.output 0 args.rect slice .writeDiscard = .ok dest ∧
            onOutput (e.perform (Plan.fanIn op dest inputs)) ctx = .ok u ctx' := by
  simp only [radixFanIn, run_bind_eq_ok, arguments_ok_iff, expectFutures_ok_iff, get_ok_iff,
    exists_unit, and_assoc, exists_and_left, exists_eq_left']
  refine exists_congr fun args => and_congr_right fun _ => and_congr (by simp) ?_
  generalize ctx.regions = regions
  cases regions with
  | nil => simp
  | cons out candidates =>
    simp only [run_bind_eq_ok, ofExcept_ok_iff, and_assoc, exists_and_left, exists_eq_left',
      List.cons.injEq]
    split
    · simp_all
    · simp_all [run_bind_eq_ok, mapError_eq_ok]

end Bodies

end Launch

theorem Registry.launch_eq {α : Type} [Element α] (r : Registry) (workers : Nat) (id : TaskId) :
    (r.launch workers id : Launch α (TaskOutput α)) =
      match r.get? id with
      | none => .refuse (.unknownTask id)
      | some d =>
        if d.elementType = Element.elementType α then
          .body d.reduction.operator ⟨r.policy, workers⟩ d.kind
        else .refuse (.elementMismatch id d.elementType (Element.elementType α)) := rfl

/-! ## Slots -/

section Slots

open Launch

variable {a : Arithmetic} {point : Point} {axis : Option Nat} {node : Option Slice} {radix : Nat}
  {offset : Int}

/-- Whatever is reduced on the way, the slice is the one that belongs to the slot. -/
theorem eq_slotSlice (hnode : Picks point axis node) (hoffset : nodeOffset a radix node = .ok offset)
    {slot : Nat} {slice : Option Slice} (h : candidateSlice a axis offset slot = .ok slice) :
    slice = slotSlice a node radix slot := by
  cases axis with
  | none =>
    obtain rfl : node = none := hnode
    exact (Except.ok.inj h).symm
  | some axis =>
    obtain ⟨c, _, rfl⟩ := hnode
    obtain ⟨next, hnext, h⟩ := bind_eq_ok.mp h
    obtain ⟨coord, hcoord, h⟩ := bind_eq_ok.mp h
    obtain ⟨_, rfl⟩ := Arithmetic.signed_ok_iff.mp hoffset
    obtain ⟨_, rfl⟩ := Arithmetic.signed_ok_iff.mp hnext
    obtain ⟨_, rfl⟩ := Arithmetic.signed_ok_iff.mp hcoord
    rw [← pure_eq_ok.mp h, Arithmetic.reduced_add_reduced, Int.sub_eq_add_neg,
      Arithmetic.reduced_add_reduced]
    rfl

/-- Where nothing overflows, every slot has a slice. -/
theorem exists_nodeOffset (a : Arithmetic) (radix : Nat) (hnode : Picks point axis node)
    (hfits : ∀ n, node = some n → ∀ slot ≤ radix, a.signed (n.coord * radix + Int.ofNat slot) =
      .ok (n.coord * radix + Int.ofNat slot)) :
    ∃ offset, nodeOffset a radix node = .ok offset ∧
      ∀ slot, 0 < slot → slot ≤ radix →
        candidateSlice a axis offset slot = .ok (slotSlice .exact node radix slot) := by
  cases axis with
  | none =>
    obtain rfl : node = none := hnode
    exact ⟨0, rfl, fun _ _ _ => rfl⟩
  | some axis =>
    obtain ⟨c, _, rfl⟩ := hnode
    have hfits : ∀ slot ≤ radix, a.signed (c * radix + Int.ofNat slot) =
      .ok (c * radix + Int.ofNat slot) := hfits _ rfl
    have hoffset : a.signed (c * radix) = .ok (c * radix) := by simpa using hfits 0 (Nat.zero_le _)
    refine ⟨c * radix, hoffset, ?_⟩
    intro slot hpos hslot
    obtain ⟨i, rfl⟩ := Nat.exists_eq_add_one_of_ne_zero (Nat.ne_of_gt hpos)
    have hprevious := hfits i (by omega)
    have hsub : c * (radix : Int) + Int.ofNat (i + 1) - 1 = c * radix + Int.ofNat i := by
      simp only [Int.ofNat_eq_natCast]
      omega
    simp only [candidateSlice, hfits (i + 1) hslot, bind, Except.bind, hsub, hprevious, slotSlice,
      Option.map_some, Arithmetic.reduced]
    rfl

end Slots

/-! ## Regions and kernels -/

section Regions

variable {α : Type}

theorem Region.input_ok_iff {r : Region α} {index : Nat} {rect : Rect} {slice : Option Slice}
    {v : View α} : r.input index rect slice = .ok v ↔
      ∃ s privilege, r.binding? = some (s, privilege) ∧ privilege.grants .readOnly = true ∧
        s.view rect slice = .ok v := by
  unfold Region.input
  cases r.binding? with
  | none => simp
  | some binding =>
    obtain ⟨s, privilege⟩ := binding
    simp only [Option.some.injEq, Prod.mk.injEq]
    constructor
    · intro h
      split at h
      · rename_i hgrants
        split at h
        · rename_i v' hv
          cases h
          exact ⟨s, privilege, ⟨rfl, rfl⟩, hgrants, hv⟩
        · cases h
      · cases h
    · rintro ⟨_, _, ⟨rfl, rfl⟩, hgrants, hv⟩
      rw [if_pos hgrants, hv]

theorem Region.output_ok_iff {r : Region α} {index : Nat} {rect : Rect} {slice : Option Slice}
    {required : Privilege} {t : Target} : r.output index rect slice required = .ok t ↔
      ∃ s privilege, r.binding? = some (s, privilege) ∧ privilege.grants required = true ∧
        s.target rect slice privilege = .ok t := by
  unfold Region.output
  cases r.binding? with
  | none => simp
  | some binding =>
    obtain ⟨s, privilege⟩ := binding
    simp only [Option.some.injEq, Prod.mk.injEq]
    constructor
    · intro h
      split at h
      · rename_i hgrants
        split at h
        · rename_i t' ht
          cases h
          exact ⟨s, privilege, ⟨rfl, rfl⟩, (Bool.and_eq_true_iff.mp hgrants).2, ht⟩
        · cases h
      · cases h
    · rintro ⟨_, _, ⟨rfl, rfl⟩, hgrants, ht⟩
      rw [if_pos (Bool.and_eq_true_iff.mpr ⟨(target_ok_iff.mp ht).1, hgrants⟩), ht]

theorem Region.input_cut {r : Region α} {index : Nat} {rect : Rect} {slice : Option Slice}
    {v : View α} (h : r.input index rect slice = .ok v) : v.rect = rect ∧ v.IsCut := by
  obtain ⟨s, _, _, _, hv⟩ := input_ok_iff.mp h
  exact (isCut_of_view hv).2

theorem Region.output_cut {r : Region α} {index : Nat} {rect : Rect} {slice : Option Slice}
    {required : Privilege} {t : Target} (h : r.output index rect slice required = .ok t) :
    ∃ s, r.binding? = some (s, t.privilege) ∧ t.privilege.grants required = true ∧
      t.rect = rect ∧ t.IsCut s := by
  obtain ⟨s, privilege, hbinding, hgrants, ht⟩ := output_ok_iff.mp h
  obtain ⟨rfl, hrect, hcut⟩ := isCut_of_target ht
  exact ⟨s, hbinding, hgrants, hrect, hcut⟩

theorem Launch.onOutput_perform [Element α] {e : Executor} {ctx : TaskContext α} {out : Region α}
    {inputs : List (Region α)} {index : Nat} {rect : Rect} {slice : Option Slice}
    {required : Privilege} {dest : Target} {plan : Except GridError (Plan α)}
    (hregions : ctx.regions = out :: inputs)
    (hdest : out.output index rect slice required = .ok dest)
    (hplan : ∀ s passes, dest.IsCut s → plan = .ok passes → KernelPlan s passes) :
    (∃ ctx', onOutput (e.perform plan) ctx = .ok () ctx') ↔ ∃ passes, plan = .ok passes := by
  constructor
  · rintro ⟨ctx', h⟩
    obtain ⟨_, _, s', _, s'', _, _, hrun, _⟩ := onOutput_ok_iff.mp h
    cases plan with
    | ok passes => exact ⟨passes, rfl⟩
    | error cause => cases hrun
  · rintro ⟨passes, rfl⟩
    obtain ⟨s, hbinding, _, _, hcut⟩ := Region.output_cut hdest
    obtain ⟨s', _, hrun⟩ := (hplan s passes hcut rfl).perform
    exact ⟨_, onOutput_ok_iff.mpr ⟨out, inputs, s, _, s', hregions, hbinding, hrun e, rfl⟩⟩

end Regions

end GridFold
