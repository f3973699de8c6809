import GridFold.Proofs.Decoding
import GridFold.Proofs.Launches
import GridFold.Proofs.Totals

/-!
# GridFold.Proofs.Acceptance

Which contexts a launch accepts. `TaskContext.Accepts` says it for each task kind without a word about
views, plans or kernels, and `launch_ok_iff` says that nothing else is asked for.
-/

namespace GridFold

open Wire

/-! ## What each task kind accepts -/

section Accepts

variable {α : Type}

namespace Region

/-- Bound for reading, and the store admits the rectangle. -/
def Reads (rect : Rect) (slice : Option Slice) : Region α → Prop
  | readOnly s | readWrite s => s.Admits rect slice
  | writeDiscard _ | absent => False

def Updates (rect : Rect) (slice : Option Slice) : Region α → Prop
  | readWrite s => s.Admits rect slice
  | readOnly _ | writeDiscard _ | absent => False

def Overwrites (rect : Rect) (slice : Option Slice) : Region α → Prop
  | writeDiscard s | readWrite s => s.Admits rect slice
  | readOnly _ | absent => False

theorem Reads.binding {r : Region α} {rect : Rect} {slice : Option Slice} (h : r.Reads rect slice) :
    ∃ s privilege, r.binding? = some (s, privilege) ∧ s.Admits rect slice := by
  cases r with
  | readOnly s => exact ⟨s, _, rfl, h⟩
  | readWrite s => exact ⟨s, _, rfl, h⟩
  | writeDiscard s => exact h.elim
  | absent => exact h.elim

/-- What can be read of a rectangle can be read of its parts. -/
theorem Reads.mono {r : Region α} {rect rect' : Rect} (h : r.Reads rect none)
    (hrank : rect'.rank = rect.rank)
    (hsub : ∀ p, rect'.containsPoint p = true → rect.containsPoint p = true) :
    r.Reads rect' none := by
  have hadmits : ∀ s : Store α, s.Admits rect none → s.Admits rect' none := by
    intro s hs
    have hsrank : s.rank = rect.rank := hs.1
    exact ⟨hsrank.trans hrank.symm, fun p hp => hs.2 p (hsub p hp)⟩
  cases r with
  | readOnly s => exact hadmits s h
  | readWrite s => exact hadmits s h
  | writeDiscard s => exact h.elim
  | absent => exact h.elim

theorem exists_input {r : Region α} {index : Nat} {rect : Rect} {slice : Option Slice} :
    (∃ v, r.input index rect slice = .ok v) ↔ r.Reads rect slice := by
  cases r <;> simp [input_ok_iff, binding?, Privilege.grants, Privilege.canRead, Reads, exists_view]

theorem exists_update {r : Region α} {index : Nat} {rect : Rect} {slice : Option Slice} :
    (∃ t, r.output index rect slice .readWrite = .ok t) ↔ r.Updates rect slice := by
  cases r <;> simp [output_ok_iff, binding?, Privilege.grants, Privilege.canRead,
    Privilege.canWrite, Updates, exists_target]

theorem exists_overwrite {r : Region α} {index : Nat} {rect : Rect} {slice : Option Slice} :
    (∃ t, r.output index rect slice .writeDiscard = .ok t) ↔ r.Overwrites rect slice := by
  cases r <;> simp [output_ok_iff, binding?, Privilege.grants, Privilege.canWrite, Overwrites,
    exists_target]

end Region

open Launch (Picks)

/-- The source has the folded axis and otherwise the rank of the destination, and its points, without
that axis, lie in the destination. -/
def Folds (args : CollapseArgs) : Prop :=
  args.axis < args.inRect.rank ∧ args.initRect.rank + 1 = args.inRect.rank ∧
    ∀ (p : Point) (c : Int), args.inRect.containsPoint (p.insertIdx args.axis c) = true →
      args.initRect.containsPoint p = true

/-- The candidates that are there can be read, each at the coordinate of its number. -/
def CandidatesRead (rect : Rect) (radix : Nat) (node : Option Slice)
    (candidates : List (Region α)) : Prop :=
  ∀ (i : Nat) (r : Region α), candidates[i]? = some r → r.isAbsent = false →
    r.Reads rect (node.map fun n => ⟨n.axis, n.coord * Int.ofNat radix + Int.ofNat i⟩)

namespace TaskContext

def Accepts (ctx : TaskContext α) : TaskKind → Prop
  | .reductionScalar | .combineScalar => ctx.regions = [] ∧ ctx.futures.length = 2
  | .wholePartition =>
    ∃ args, ShapeArgs.decode ctx.args = .ok args ∧ ctx.futures = [] ∧
      ∃ source, ctx.regions = [source] ∧ source.Reads args.rect none
  | .combine =>
    ∃ args, ShapeArgs.decode ctx.args = .ok args ∧ ctx.futures = [] ∧
      ((∃ out rhs, ctx.regions = [out, rhs] ∧
        (args.rect.isEmpty = true ∨ out.Updates args.rect none ∧ rhs.Reads args.rect none)) ∨
      ∃ out lhs rhs, ctx.regions = [out, lhs, rhs] ∧
        (args.rect.isEmpty = true ∨ out.Overwrites args.rect none ∧ lhs.Reads args.rect none ∧
          rhs.Reads args.rect none))
  | .combineBroadcast =>
    ∃ args, ShapeArgs.decode ctx.args = .ok args ∧ (∃ scalar, ctx.futures = [scalar]) ∧
      ((∃ out, ctx.regions = [out] ∧
        (args.rect.isEmpty = true ∨ out.Updates args.rect none)) ∨
      ∃ out lhs, ctx.regions = [out, lhs] ∧
        (args.rect.isEmpty = true ∨ out.Overwrites args.rect none ∧ lhs.Reads args.rect none))
  | .axisCollapse =>
    ∃ args, CollapseArgs.decode ctx.args = .ok args ∧ ctx.futures.length ≤ 1 ∧
      ∃ out source, ctx.regions = [out, source] ∧
        (args.initRect.isEmpty = true ∨ ∃ slice, Picks ctx.indexPoint args.collapseDim slice ∧
          out.Updates args.initRect slice ∧ source.Reads args.inRect none ∧ Folds args)
  | .radixFanIn =>
    ∃ args, RadixArgs.decode ctx.args = .ok args ∧ ctx.futures = [] ∧
      ∃ out candidates, ctx.regions = out :: candidates ∧
      ∃ radix : Nat, args.radix.toInt = radix ∧ 0 < radix ∧ radix ≤ maxFanIn ∧
        candidates.length ≤ radix ∧
        (args.rect.isEmpty = true ∨ ∃ node, Picks ctx.indexPoint args.extraDimIn node ∧
          ∃ slice, Picks ctx.indexPoint args.extraDimOut slice ∧
            CandidatesRead args.rect radix node candidates ∧ out.Overwrites args.rect slice ∧
              ∃ r ∈ candidates, r.isAbsent = false)

end TaskContext

/-! ## The bodies -/

section Steps

variable {ctx : TaskContext α}

theorem exists_unless_empty {rect : Rect} {p : TaskContext α → Prop} {q : Prop}
    (h : rect.isEmpty = false → ((∃ ctx', p ctx') ↔ q)) :
    (∃ ctx', if rect.isEmpty then ctx = ctx' else p ctx') ↔ rect.isEmpty = true ∨ q := by
  cases hempty : rect.isEmpty with
  | true => simp
  | false => simp [h hempty]

theorem exists_return {β γ : Type} {x : Launch α β} {f : β → Launch α γ}
    (hf : ∀ b ctx, ∃ c, f b ctx = .ok c ctx) :
    (∃ out ctx', (x >>= f) ctx = .ok out ctx') ↔ ∃ b ctx', x ctx = .ok b ctx' := by
  simp only [run_bind_eq_ok]
  constructor
  · rintro ⟨_, _, b, ctx₁, hx, _⟩
    exact ⟨b, ctx₁, hx⟩
  · rintro ⟨b, ctx₁, hx⟩
    obtain ⟨c, hc⟩ := hf b ctx₁
    exact ⟨c, ctx₁, b, ctx₁, hx, hc⟩

variable {β ε : Type} {x : Except ε β} {p : β → TaskContext α → Prop} {q r : Prop}

theorem exists_after (hx : (∃ b, x = .ok b) ↔ r)
    (h : ∀ b, x = .ok b → ((∃ ctx', p b ctx') ↔ q)) :
    (∃ ctx' b, x = .ok b ∧ p b ctx') ↔ r ∧ q := by
  rw [← hx]
  constructor
  · rintro ⟨ctx', b, hb, hp⟩
    exact ⟨⟨b, hb⟩, (h b hb).mp ⟨ctx', hp⟩⟩
  · rintro ⟨⟨b, hb⟩, hq⟩
    obtain ⟨ctx', hp⟩ := (h b hb).mpr hq
    exact ⟨ctx', b, hb, hp⟩

theorem exists_last (hx : (∃ b, x = .ok b) ↔ r) (h : ∀ b, x = .ok b → ∃ ctx', p b ctx') :
    (∃ ctx' b, x = .ok b ∧ p b ctx') ↔ r := by
  rw [exists_after hx fun b hb => iff_true_intro (h b hb), and_true]

theorem scalarPair_accepts :
    (∃ pair ctx', Launch.scalarPair ctx = .ok pair ctx') ↔
      ctx.regions = [] ∧ ctx.futures.length = 2 := by
  simp only [Launch.scalarPair_ok_iff]
  constructor
  · rintro ⟨_, _, hregions, a, b, hfutures, _⟩
    exact ⟨hregions, by rw [hfutures]; rfl⟩
  · rintro ⟨hregions, hfutures⟩
    obtain ⟨a, b, hfutures⟩ := List.length_eq_two.mp hfutures
    exact ⟨_, _, hregions, a, b, hfutures, rfl, rfl⟩

end Steps

section Bodies

variable [Element α] {ctx : TaskContext α}

theorem wholePartition_accepts (op : Operator α) (e : Executor) :
    (∃ value ctx', Launch.wholePartition op e ctx = .ok value ctx') ↔
      ctx.Accepts .wholePartition := by
  constructor
  · rintro ⟨value, ctx', h⟩
    obtain ⟨args, hargs, hfutures, source, hregions, src, hsrc, _⟩ :=
      Launch.wholePartition_ok_iff.mp h
    exact ⟨args, hargs, hfutures, source, hregions, Region.exists_input.mp ⟨src, hsrc⟩⟩
  · rintro ⟨args, hargs, hfutures, source, hregions, hreads⟩
    obtain ⟨src, hsrc⟩ : ∃ src, source.input 0 args.rect none = .ok src :=
      Region.exists_input.mpr hreads
    obtain ⟨hrect, hcut⟩ := Region.input_cut hsrc
    have hrank : src.rank ≤ maxTaskRank := by
      rw [View.rank, hrect]
      exact ShapeArgs.rank_le hargs
    obtain ⟨value, hvalue⟩ := total_ok op hcut hrank e
    exact ⟨value, ctx, Launch.wholePartition_ok_iff.mpr
      ⟨args, hargs, hfutures, source, hregions, src, hsrc, hvalue, rfl⟩⟩

theorem combine_accepts (op : Operator α) (e : Executor) :
    (∃ ctx', Launch.combine op e ctx = .ok () ctx') ↔ ctx.Accepts .combine := by
  simp only [Launch.combine_ok_iff, @exists_comm (TaskContext α), exists_and_left, exists_or]
  refine exists_congr fun args => and_congr_right fun _ => and_congr_right fun _ => or_congr ?_ ?_
  · refine exists_congr fun out => exists_congr fun rhs => and_congr_right fun hregions => ?_
    refine exists_unless_empty fun _ => exists_after Region.exists_update fun dest hdest =>
      exists_last Region.exists_input fun b hb => ?_
    obtain ⟨_, _, hgrants, hrect, _⟩ := Region.output_cut hdest
    obtain ⟨hrectb, hcutb⟩ := Region.input_cut hb
    refine (Launch.onOutput_perform hregions hdest fun _ _ hcut => .modifyWith hcut hcutb).mpr ?_
    exact SinglePass.exists_ok (fun _ => modifyWith_ok_iff) ⟨hgrants, hrectb.trans hrect.symm⟩
  · refine exists_congr fun out => exists_congr fun lhs => exists_congr fun rhs =>
      and_congr_right fun hregions => ?_
    refine exists_unless_empty fun _ => exists_after Region.exists_overwrite fun dest hdest =>
      exists_after Region.exists_input fun a ha => exists_last Region.exists_input fun b hb => ?_
    obtain ⟨_, _, _, hrect, _⟩ := Region.output_cut hdest
    obtain ⟨hrecta, hcuta⟩ := Region.input_cut ha
    obtain ⟨hrectb, hcutb⟩ := Region.input_cut hb
    refine (Launch.onOutput_perform hregions hdest fun _ _ hcut => .zip hcut hcuta hcutb).mpr ?_
    exact SinglePass.exists_ok (fun _ => zip_ok_iff)
      ⟨hrecta.trans hrect.symm, hrectb.trans hrect.symm⟩

theorem combineBroadcast_accepts (op : Operator α) (e : Executor) :
    (∃ ctx', Launch.combineBroadcast op e ctx = .ok () ctx') ↔
      ctx.Accepts .combineBroadcast := by
  simp only [Launch.combineBroadcast_ok_iff, @exists_comm (TaskContext α), exists_and_left,
    exists_or]
  refine exists_congr fun args => and_congr_right fun _ => ?_
  rw [← exists_and_right]
  refine exists_congr fun scalar => and_congr_right fun _ => or_congr ?_ ?_
  · refine exists_congr fun out => and_congr_right fun hregions => ?_
    refine exists_unless_empty fun _ => exists_last Region.exists_update fun dest hdest => ?_
    obtain ⟨_, _, hgrants, _⟩ := Region.output_cut hdest
    have hconsumed : ctx.consumed.regions = [out] := hregions
    refine (Launch.onOutput_perform hconsumed hdest fun _ _ hcut => .modify hcut).mpr ?_
    exact SinglePass.exists_ok (fun _ => modify_ok_iff) hgrants
  · refine exists_congr fun out => exists_congr fun lhs => and_congr_right fun hregions => ?_
    refine exists_unless_empty fun _ => exists_after Region.exists_overwrite fun dest hdest =>
      exists_last Region.exists_input fun a ha => ?_
    obtain ⟨_, _, _, hrect, _⟩ := Region.output_cut hdest
    obtain ⟨hrecta, hcuta⟩ := Region.input_cut ha
    have hconsumed : ctx.consumed.regions = [out, lhs] := hregions
    refine (Launch.onOutput_perform hconsumed hdest fun _ _ hcut => .map hcut hcuta).mpr ?_
    exact SinglePass.exists_ok (fun _ => map_ok_iff) (hrecta.trans hrect.symm)

theorem exists_collapse {op : Operator α} {dest : Target} {src : View α} {axis : Nat} {seed : Option α}
    (hne : dest.rect.isEmpty = false) (hgrants : dest.privilege.grants .readWrite = true)
    (hmax : src.rank ≤ maxTaskRank) :
    (∃ passes, Plan.collapse op dest src axis seed = .ok passes) ↔
      axis < src.rank ∧ dest.rank + 1 = src.rank ∧
        ∀ (p : Point) (c : Int), src.rect.containsPoint (p.insertIdx axis c) = true →
          dest.rect.containsPoint p = true := by
  have hdest : ¬ dest.isEmpty = true := by simp [Target.isEmpty, hne]
  have hpos : 0 < dest.rank := dest.rect.rank_pos
  simp only [collapse_ok_iff, if_neg hdest]
  constructor
  · rintro ⟨_, _, _, hrank, _, span, hspan, hproj, _⟩
    exact ⟨(List.getElem?_eq_some_iff.mp hspan).1, hrank, hproj⟩
  · rintro ⟨haxis, hrank, hproj⟩
    exact ⟨_, by omega, hmax, hrank, hgrants, _, List.getElem?_eq_getElem haxis, hproj, rfl⟩

theorem axisCollapse_accepts (op : Operator α) (e : Executor) :
    (∃ ctx', Launch.axisCollapse op e ctx = .ok () ctx') ↔ ctx.Accepts .axisCollapse := by
  simp only [Launch.axisCollapse_ok_iff, @exists_comm (TaskContext α), exists_and_left]
  refine exists_congr fun args => and_congr_right fun hargs => and_congr ?_ ?_
  · simp only [List.mem_cons, List.not_mem_nil, or_false]
    omega
  · refine exists_congr fun out => exists_congr fun source => and_congr_right fun hregions => ?_
    refine exists_unless_empty fun hne => ?_
    rw [exists_comm]
    simp only [exists_and_left]
    refine exists_congr fun slice => and_congr_right fun _ => ?_
    refine exists_after Region.exists_update fun dest hdest =>
      exists_after Region.exists_input fun src hsrc => ?_
    obtain ⟨_, _, hgrants, hrect, _⟩ := Region.output_cut hdest
    obtain ⟨hrects, hcuts⟩ := Region.input_cut hsrc
    have hconsumed : ctx.consumed.regions = [out, source] := hregions
    have hmax : src.rank ≤ maxTaskRank := by
      rw [View.rank, hrects]
      exact CollapseArgs.rank_le hargs
    refine (Launch.onOutput_perform hconsumed hdest fun _ _ hcut => .collapse hcut hcuts).trans ?_
    rw [exists_collapse (by rw [hrect, hne]) hgrants hmax, Folds, Target.rank, View.rank, hrect,
      hrects]

end Bodies

/-! ## The fan-in -/

section FanIn

theorem fanInWidth_ok_iff {args : RadixArgs} {slots radix : Nat} :
    Launch.fanInWidth args slots = .ok radix ↔
      args.radix.toInt = radix ∧ 0 < radix ∧ radix ≤ maxFanIn ∧ slots ≤ radix := by
  unfold Launch.fanInWidth Reader.natOf?
  by_cases hneg : args.radix.toInt < 0
  · rw [if_pos hneg]
    constructor
    · intro h
      cases h
    · rintro ⟨h, _⟩
      omega
  · rw [if_neg hneg]
    simp only
    split
    · constructor
      · intro h
        cases h
      · rintro ⟨h, h0, hmax, hslots⟩
        omega
    · simp only [Except.ok.injEq]
      omega

theorem forall_getElem?_cons {β : Type} {x : β} {xs : List β} {p : Nat → β → Prop} :
    (∀ i y, (x :: xs)[i]? = some y → p i y) ↔ p 0 x ∧ ∀ i y, xs[i]? = some y → p (i + 1) y := by
  constructor
  · intro h
    exact ⟨h 0 x rfl, fun i y hy => h (i + 1) y hy⟩
  · rintro ⟨h0, hsucc⟩ i y hy
    cases i with
    | zero =>
      cases hy
      exact h0
    | succ i => exact hsucc i y hy

section Inputs

variable {rect : Rect} {sliceOf : Nat → Except Trap (Option Slice)} {slot : Nat}
  {regions : List (Region α)} {inputs : List (View α)}

theorem presentInputs_cons {region : Region α} :
    Launch.presentInputs rect sliceOf slot (region :: regions) = .ok inputs ↔
      if region.isAbsent then Launch.presentInputs rect sliceOf (slot + 1) regions = .ok inputs
      else ∃ slice, sliceOf slot = .ok slice ∧ ∃ v, region.input slot rect slice = .ok v ∧
        ∃ others, Launch.presentInputs rect sliceOf (slot + 1) regions = .ok others ∧
          v :: others = inputs := by
  rw [Launch.presentInputs]
  split
  · rfl
  · simp only [bind_eq_ok, pure_eq_ok, mapError_eq_ok]

theorem exists_presentInputs {f : Nat → Option Slice}
    (hf : ∀ i < regions.length, sliceOf (slot + i) = .ok (f i)) :
    (∃ inputs, Launch.presentInputs rect sliceOf slot regions = .ok inputs) ↔
      ∀ (i : Nat) (r : Region α), regions[i]? = some r → r.isAbsent = false →
        r.Reads rect (f i) := by
  induction regions generalizing slot f with
  | nil => exact ⟨fun _ _ _ h => (nomatch h), fun _ => ⟨[], rfl⟩⟩
  | cons region regions ih =>
    have hnext : ∀ i < regions.length, sliceOf (slot + 1 + i) = .ok (f (i + 1)) := by
      intro i hi
      rw [Nat.add_right_comm]
      exact hf (i + 1) (by simpa using hi)
    rw [forall_getElem?_cons, ← ih hnext]
    simp only [presentInputs_cons]
    cases habsent : region.isAbsent with
    | true => simp
    | false =>
      have hslice : sliceOf slot = .ok (f 0) := hf 0 (by simp)
      have hhead : (∃ v, region.input slot rect (f 0) = .ok v) ↔ region.Reads rect (f 0) :=
        Region.exists_input
      rw [← hhead]
      constructor
      · rintro ⟨_, slice, hslice', v, hv, others, hothers, _⟩
        cases hslice.symm.trans hslice'
        exact ⟨fun _ => ⟨v, hv⟩, others, hothers⟩
      · rintro ⟨hv, others, hothers⟩
        obtain ⟨v, hv⟩ := hv rfl
        exact ⟨v :: others, f 0, hslice, v, hv, others, hothers, rfl⟩

theorem presentInputs_cut (h : Launch.presentInputs rect sliceOf slot regions = .ok inputs) :
    inputs.length = (regions.filter fun r => !r.isAbsent).length ∧
      ∀ v ∈ inputs, v.rect = rect ∧ View.IsCut v := by
  induction regions generalizing slot inputs with
  | nil =>
    cases h
    exact ⟨rfl, fun _ hv => (nomatch hv)⟩
  | cons region regions ih =>
    rw [presentInputs_cons] at h
    cases habsent : region.isAbsent with
    | true =>
      rw [if_pos habsent] at h
      rw [List.filter_cons_of_neg (by simp [habsent])]
      exact ih h
    | false =>
      rw [if_neg (by simp [habsent])] at h
      obtain ⟨_, _, v, hv, others, hothers, rfl⟩ := h
      obtain ⟨hlength, hcut⟩ := ih hothers
      rw [List.filter_cons_of_pos (by simp [habsent]), List.length_cons, List.length_cons, hlength]
      refine ⟨rfl, ?_⟩
      intro w hw
      rcases List.mem_cons.mp hw with rfl | hw
      · exact Region.input_cut hv
      · exact hcut w hw

end Inputs

/-- Counted from zero, the slots of a node lie at ascending coordinates. -/
theorem slotSlice_succ (node : Option Slice) (radix i : Nat) :
    Launch.slotSlice .exact node radix (1 + i) =
      node.map fun n => ⟨n.axis, n.coord * Int.ofNat radix + Int.ofNat i⟩ := by
  cases node with
  | none => rfl
  | some n =>
    simp only [Launch.slotSlice, Option.map_some, Arithmetic.reduced, Int.ofNat_eq_natCast]
    congr 2
    omega

/-- In exact arithmetic a fan-in finds its candidates where they can be read. -/
theorem exists_candidates (rect : Rect) {radix : Nat} {axis : Option Nat} {node : Option Slice}
    {point : Point} (h : Picks point axis node) {candidates : List (Region α)}
    (hslots : candidates.length ≤ radix) :
    ∃ offset, Launch.nodeOffset .exact radix node = .ok offset ∧
      ((∃ inputs, Launch.presentInputs rect (Launch.candidateSlice .exact axis offset) 1 candidates =
        .ok inputs) ↔ CandidatesRead rect radix node candidates) := by
  obtain ⟨offset, hoffset, hslice⟩ := exists_nodeOffset .exact radix h
    fun _ _ _ _ => Arithmetic.signed_exact _
  refine ⟨offset, hoffset, exists_presentInputs fun i hi => ?_⟩
  rw [hslice (1 + i) (by omega) (by omega), slotSlice_succ]

end FanIn

section Launches

variable [Element α] {ctx : TaskContext α}

theorem exists_fanIn {op : Operator α} {dest : Target} {inputs : List (View α)}
    (hne : dest.rect.isEmpty = false)
    (hgrants : dest.privilege.grants .writeDiscard = true) (hlength : inputs.length ≤ maxFanIn)
    (hrect : ∀ v ∈ inputs, v.rect = dest.rect) :
    (∃ passes, Plan.fanIn op dest inputs = .ok passes) ↔ inputs ≠ [] := by
  have hdest : ¬ dest.isEmpty = true := by simp [Target.isEmpty, hne]
  simp only [fanIn_ok_iff, if_neg hdest]
  constructor
  · rintro ⟨_, first, others, rfl, _⟩
    exact List.cons_ne_nil first others
  · intro hinputs
    obtain ⟨first, others, rfl⟩ := List.exists_cons_of_ne_nil hinputs
    exact ⟨_, first, others, rfl, hlength, hgrants, hrect, rfl⟩

theorem radixFanIn_accepts (op : Operator α) (e : Executor) :
    (∃ ctx', Launch.radixFanIn .exact op e ctx = .ok () ctx') ↔ ctx.Accepts .radixFanIn := by
  simp only [Launch.radixFanIn_ok_iff, @exists_comm (TaskContext α), exists_and_left,
    fanInWidth_ok_iff, and_assoc]
  refine exists_congr fun args => and_congr_right fun _ => and_congr_right fun _ => ?_
  refine exists_congr fun out => exists_congr fun candidates => and_congr_right fun hregions => ?_
  refine exists_congr fun radix => and_congr_right fun _ => and_congr_right fun _ =>
    and_congr_right fun hradix => and_congr_right fun hslots => ?_
  refine exists_unless_empty fun hne => ?_
  rw [exists_comm]
  simp only [exists_and_left]
  refine exists_congr fun node => and_congr_right fun hnode => ?_
  obtain ⟨offset, hoffset, hcandidates⟩ := exists_candidates args.rect hnode hslots
  simp only [hoffset, Except.ok.injEq, exists_eq_left']
  rw [exists_comm]
  simp only [exists_and_left]
  refine exists_congr fun slice => and_congr_right fun _ => ?_
  refine exists_after hcandidates fun inputs hinputs =>
    exists_after Region.exists_overwrite fun dest hdest => ?_
  obtain ⟨hlength, hcut⟩ := presentInputs_cut hinputs
  obtain ⟨_, _, hgrants, hrect, _⟩ := Region.output_cut hdest
  have hpresent := List.length_filter_le (fun r : Region α => !r.isAbsent) candidates
  refine (Launch.onOutput_perform hregions hdest fun _ _ hd =>
    .fanIn hd fun v hv => (hcut v hv).2).trans ?_
  rw [exists_fanIn (by rw [hrect, hne]) hgrants (by omega) fun v hv => (hcut v hv).1.trans hrect.symm,
    ← List.length_pos_iff, hlength, List.length_pos_iff, ne_eq, List.filter_eq_nil_iff]
  simp

theorem body_accepts (op : Operator α) (e : Executor) (kind : TaskKind) :
    (∃ out ctx', Launch.body op e kind ctx = .ok out ctx') ↔ ctx.Accepts kind := by
  have hreturn : ∀ (c : TaskOutput α) (ctx : TaskContext α),
      ∃ c', (pure c : Launch α (TaskOutput α)) ctx = .ok c' ctx := fun c _ => ⟨c, rfl⟩
  cases kind with
  | axisCollapse =>
    exact (exists_return fun _ => hreturn _).trans (exists_unit.trans (axisCollapse_accepts op e))
  | wholePartition => exact (exists_return fun _ => hreturn _).trans (wholePartition_accepts op e)
  | reductionScalar => exact (exists_return fun _ => hreturn _).trans scalarPair_accepts
  | combine =>
    exact (exists_return fun _ => hreturn _).trans (exists_unit.trans (combine_accepts op e))
  | combineBroadcast =>
    exact (exists_return fun _ => hreturn _).trans
      (exists_unit.trans (combineBroadcast_accepts op e))
  | combineScalar => exact (exists_return fun _ => hreturn _).trans scalarPair_accepts
  | radixFanIn =>
    exact (exists_return fun _ => hreturn _).trans (exists_unit.trans (radixFanIn_accepts op e))

/-- A launch succeeds if and only if its id is registered for the element type and the task kind
accepts the context. -/
theorem launch_ok_iff (r : Registry) (workers : Nat) (id : TaskId) (ctx : TaskContext α) :
    (∃ out ctx', r.launch workers id ctx = .ok out ctx') ↔
      ∃ d, r.get? id = some d ∧ d.elementType = Element.elementType α ∧ ctx.Accepts d.kind := by
  rw [Registry.launch_eq]
  cases r.get? id with
  | none => simp
  | some d =>
    simp only [Option.some.injEq, exists_eq_left']
    split
    · rename_i ht
      rw [body_accepts]
      simp [ht]
    · rename_i ht
      simp [ht]

end Launches

end Accepts

end GridFold
