import GridFold.Proofs.Contents

/-!
# GridFold.Proofs.Siblings

Which elements a fan-in folds, by the slots of its candidates.

* `presentSlots` — the candidates that are there, each with the number of its slot. An absent candidate
  keeps its number and is not among them.
* `mapM_presentSlots` — the inputs of a node show what the stores in these slots hold there.
* `TaskContext.FansIn` — what a launch has to leave, and `fanIn_by_slots`, that it does.
* `TaskContext.SlotsFit` — where no slot number overflows, the arithmetic does not matter,
  `bodyIn_of_slotsFit`. `slots_wrap` is a launch where it does.
-/

namespace GridFold

open Wire

variable {α : Type}

/-- The stores of the candidates that are there, each with its slot. Slots are numbered from `first`
on. -/
def presentSlots (first : Nat) (candidates : List (Region α)) : List (Nat × Store α) :=
  (candidates.zipIdx first).filterMap fun c => c.1.binding?.map fun b => (c.2, b.1)

def slotElement (a : Arithmetic) (node : Option Slice) (radix : Int) (p : Point) (c : Nat × Store α) :
    Except Trap α :=
  c.2.get (p.placed (Launch.slotSlice a node radix c.1))

/-- By induction on the candidates: an absent one counts on, and shows nothing. -/
theorem mapM_presentSlots {rect : Rect} {a : Arithmetic} {node : Option Slice} {radix : Int}
    {sliceOf : Nat → Except Trap (Option Slice)}
    (hf : ∀ slot slice, sliceOf slot = .ok slice → slice = Launch.slotSlice a node radix slot)
    {slot : Nat} {candidates : List (Region α)} {inputs : List (View α)}
    (h : Launch.presentInputs rect sliceOf slot candidates = .ok inputs) {p : Point}
    (hp : rect.containsPoint p = true) :
    (presentSlots slot candidates).mapM (slotElement a node radix p) =
      inputs.mapM fun v => v.get p := by
  induction candidates generalizing slot inputs with
  | nil =>
    cases h
    rfl
  | cons r candidates ih =>
    rw [presentInputs_cons] at h
    split at h
    · rename_i habsent
      have hnone : r.binding? = none := by cases r <;> first | rfl | cases habsent
      rw [presentSlots, List.zipIdx_cons, List.filterMap_cons]
      simp only [hnone, Option.map_none]
      exact ih h
    · obtain ⟨slice, hslice, v, hv, others, hothers, rfl⟩ := h
      obtain rfl := hf slot slice hslice
      obtain ⟨s, privilege, hbinding, _, hview⟩ := Region.input_ok_iff.mp hv
      obtain ⟨hw, rfl⟩ := view_ok_iff.mp hview
      have hshown : slotElement a node radix p (slot, v.store) = v.get p :=
        (get_placed hw rfl hp).symm
      rw [presentSlots, List.zipIdx_cons, List.filterMap_cons]
      simp only [hbinding, Option.map_some]
      rw [List.mapM_cons, List.mapM_cons, hshown]
      have hrest := ih hothers
      rw [presentSlots] at hrest
      rw [hrest]

/-- The launch leaves in the output slice, at every point of the rectangle, the element of the first
candidate that is there with those of the later ones folded in, in the order of their slots. -/
def TaskContext.FansIn (a : Arithmetic) (op : Operator α) (args : RadixArgs)
    (ctx ctx' : TaskContext α) : Prop :=
  ∃ node slice out candidates s privilege s',
    Launch.Picks ctx.indexPoint args.extraDimIn node ∧
    Launch.Picks ctx.indexPoint args.extraDimOut slice ∧
    ctx.regions = out :: candidates ∧ out.binding? = some (s, privilege) ∧
    ctx'.regions = out.withStore s' :: candidates ∧
    ∀ p, args.rect.containsPoint p = true → ∃ first later,
      (presentSlots 1 candidates).mapM (slotElement a node args.radix.toInt p) = .ok (first :: later) ∧
      s'.get (p.placed slice) = .ok (later.foldl op.combine first)

/-- The numbers that the slots of the launch point are found with are words. -/
def TaskContext.SlotsFit (args : RadixArgs) (ctx : TaskContext α) : Prop :=
  ∀ axis c, args.extraDimIn = some axis → ctx.indexPoint[axis]? = some c →
    ∀ slot : Nat, slot ≤ args.radix.toInt → IsSigned (c * args.radix.toInt + Int.ofNat slot)

theorem presentInputs_congr {rect : Rect} {sliceOf sliceOf' : Nat → Except Trap (Option Slice)}
    {slot : Nat} {regions : List (Region α)}
    (h : ∀ i < regions.length, sliceOf (slot + i) = sliceOf' (slot + i)) :
    Launch.presentInputs rect sliceOf slot regions =
      Launch.presentInputs rect sliceOf' slot regions := by
  induction regions generalizing slot with
  | nil => rfl
  | cons region regions ih =>
    have hslot : sliceOf slot = sliceOf' slot := h 0 (Nat.zero_lt_succ _)
    have hnext : ∀ i < regions.length, sliceOf (slot + 1 + i) = sliceOf' (slot + 1 + i) := by
      intro i hi
      rw [Nat.add_right_comm]
      exact h (i + 1) (Nat.succ_lt_succ hi)
    rw [Launch.presentInputs, Launch.presentInputs, hslot, ih hnext]

theorem Launch.bind_congr {β γ : Type} {x : Launch α β} {f g : β → Launch α γ} {ctx : TaskContext α}
    (h : ∀ b ctx', x ctx = .ok b ctx' → f b ctx' = g b ctx') : (x >>= f) ctx = (x >>= g) ctx := by
  simp only [bind, EStateM.bind]
  cases hx : x ctx with
  | ok b ctx' => exact h b ctx' hx
  | error failure ctx' => rfl

section Launches

variable [Element α] {op : Operator α} {ctx ctx' : TaskContext α} {args : RadixArgs} {a : Arithmetic}

/-- Up to the slots nothing is computed, and the slots are the same. -/
theorem radixFanIn_of_slotsFit {e : Executor}
    (h : ∀ args, RadixArgs.decode ctx.args = .ok args → ctx.SlotsFit args) :
    Launch.radixFanIn a op e ctx = Launch.radixFanIn .exact op e ctx := by
  unfold Launch.radixFanIn
  refine Launch.bind_congr fun args _ hargs => ?_
  obtain ⟨hdecode, rfl⟩ := Launch.arguments_ok_iff.mp hargs
  refine Launch.bind_congr fun _ _ hfutures => ?_
  obtain ⟨_, rfl⟩ := Launch.expectFutures_ok_iff.mp hfutures
  refine Launch.bind_congr fun _ _ hget => ?_
  obtain ⟨rfl, rfl⟩ := Launch.get_ok_iff.mp hget
  cases ctx.regions with
  | nil => rfl
  | cons out candidates =>
    refine Launch.bind_congr fun radix _ hradix => ?_
    obtain ⟨hwidth, rfl⟩ := Launch.ofExcept_ok_iff.mp hradix
    obtain ⟨hvalue, _, _, hslots⟩ := fanInWidth_ok_iff.mp hwidth
    split
    · rfl
    · refine Launch.bind_congr fun node _ hslice => ?_
      obtain ⟨hnode, rfl⟩ := Launch.indexSlice_ok_iff.mp hslice
      have hfits : ∀ n, node = some n → ∀ slot ≤ radix,
          IsSigned (n.coord * radix + Int.ofNat slot) := by
        rintro n rfl slot hslot
        rw [← hvalue]
        cases haxis : args.extraDimIn with
        | none =>
          rw [haxis] at hnode
          cases hnode
        | some axis =>
          rw [haxis] at hnode
          obtain ⟨c, hc, hn⟩ := hnode
          cases hn
          exact h args hdecode axis c haxis hc slot (by omega)
      obtain ⟨offset, hoffset, hslice⟩ := exists_nodeOffset a radix hnode
        fun n hn slot hslot => Arithmetic.signed_of_isSigned (hfits n hn slot hslot)
      obtain ⟨offset', hoffset', hslice'⟩ := exists_nodeOffset .exact radix hnode
        fun _ _ _ _ => Arithmetic.signed_exact _
      have hinputs : Launch.presentInputs args.rect (Launch.candidateSlice a args.extraDimIn offset) 1
          candidates = Launch.presentInputs args.rect
            (Launch.candidateSlice .exact args.extraDimIn offset') 1 candidates :=
        presentInputs_congr fun i hi =>
          (hslice (1 + i) (by omega) (by omega)).trans (hslice' (1 + i) (by omega) (by omega)).symm
      rw [hoffset, hoffset']
      change (Launch.indexSlice args.extraDimOut >>= _) _ = (Launch.indexSlice args.extraDimOut >>= _) _
      rw [hinputs]

theorem bodyIn_of_slotsFit (e : Executor) (kind : TaskKind)
    (h : ∀ args, RadixArgs.decode ctx.args = .ok args → ctx.SlotsFit args) :
    Launch.bodyIn a op e kind ctx = Launch.body op e kind ctx := by
  cases kind with
  | radixFanIn =>
    change (Launch.radixFanIn a op e >>= _) ctx = (Launch.radixFanIn .exact op e >>= _) ctx
    simp only [bind, EStateM.bind, radixFanIn_of_slotsFit h]
  | axisCollapse | wholePartition | reductionScalar | combine | combineBroadcast | combineScalar => rfl

theorem fansIn_radixFanIn {e : Executor} {u : Unit} (hargs : RadixArgs.decode ctx.args = .ok args)
    (hne : args.rect.isEmpty = false) (hrun : Launch.radixFanIn a op e ctx = .ok u ctx') :
    ctx.FansIn a op args ctx' := by
  obtain ⟨args', hargs', _, out, candidates, hregions, radix, hradix, hrest⟩ :=
    Launch.radixFanIn_ok_iff.mp hrun
  cases hargs.symm.trans hargs'
  rw [if_neg (by simp [hne])] at hrest
  obtain ⟨node, hnode, offset, hoffset, slice, hslice, inputs, hinputs, dest, hdest, houtput⟩ := hrest
  obtain ⟨s, privilege, hbinding, _, htarget⟩ := Region.output_ok_iff.mp hdest
  obtain ⟨s', hkernel, hctx'⟩ := Launch.onOutput_inv houtput hregions hbinding
  have hf : ∀ slot slice, Launch.candidateSlice a args.extraDimIn offset slot = .ok slice →
      slice = Launch.slotSlice a node radix slot := fun _ _ => eq_slotSlice hnode hoffset
  have hover := fanIn_overwrites htarget hf hinputs hne hkernel
  refine ⟨node, slice, out, candidates, s, privilege, s', hnode, hslice, hregions, hbinding, hctx', ?_⟩
  intro p hp
  have hshown := mapM_get_presentInputs hf hinputs op.identity hp
  have hslots : (presentSlots 1 candidates).mapM (slotElement a node args.radix.toInt p) =
      .ok (shown op.identity (Launch.slotSlice a node radix) p 1 candidates) := by
    rw [(fanInWidth_ok_iff.mp hradix).1, ← hshown]
    exact mapM_presentSlots hf hinputs hp
  obtain ⟨first, others, rfl⟩ : ∃ first others, inputs = first :: others := by
    cases inputs with
    | cons first others => exact ⟨first, others, rfl⟩
    | nil =>
      obtain ⟨_, hrect, _⟩ := isCut_of_target htarget
      have hplan : Plan.fanIn op dest [] = .error .noFanInInputs :=
        if_neg (by simp [Target.isEmpty, hrect, hne])
      rw [hplan] at hkernel
      cases hkernel
  rw [List.mapM_cons] at hshown
  obtain ⟨value, _, hshown⟩ := bind_eq_ok.mp hshown
  obtain ⟨values, _, hshown⟩ := bind_eq_ok.mp hshown
  have hvalues := pure_eq_ok.mp hshown
  refine ⟨value, values, by rw [hslots, hvalues], ?_⟩
  have hget := hover.get p hp
  rw [← hvalues] at hget
  exact hget

omit [Element α] in
theorem TaskContext.FansIn.exact (h : ctx.FansIn a op args ctx') (ha : a ≠ .wrapping) :
    ctx.FansIn .exact op args ctx' := by
  have hslice : Launch.slotSlice a = Launch.slotSlice .exact := by
    funext node radix slot
    simp only [Launch.slotSlice, Arithmetic.reduced_of_ne ha]
    rfl
  have helement : slotElement (α := α) a = slotElement .exact := by
    funext node radix p c
    rw [slotElement, slotElement, hslice]
  unfold FansIn at h ⊢
  rwa [helement] at h

theorem fansIn_bodyIn {e : Executor} {result : TaskOutput α}
    (hargs : RadixArgs.decode ctx.args = .ok args) (hne : args.rect.isEmpty = false)
    (hrun : Launch.bodyIn a op e .radixFanIn ctx = .ok result ctx') :
    ctx.FansIn a op args ctx' ∧
      ((a = .wrapping → ctx.SlotsFit args) → ctx.FansIn .exact op args ctx') := by
  have hfans : ∀ {a'}, Launch.bodyIn a' op e .radixFanIn ctx = .ok result ctx' →
      ctx.FansIn a' op args ctx' := by
    intro a' hbody
    simp only [Launch.bodyIn, run_bind_eq_ok, run_pure_eq_ok] at hbody
    obtain ⟨u, ctx₁, hlaunch, _, rfl⟩ := hbody
    exact fansIn_radixFanIn hargs hne hlaunch
  refine ⟨hfans hrun, fun hfits => ?_⟩
  by_cases ha : a = .wrapping
  · have hdecoded : ∀ args', RadixArgs.decode ctx.args = .ok args' → ctx.SlotsFit args' := by
      intro args' hargs'
      cases hargs.symm.trans hargs'
      exact hfits ha
    rw [bodyIn_of_slotsFit e .radixFanIn hdecoded] at hrun
    exact hfans hrun
  · exact (hfans hrun).exact ha

end Launches

end GridFold
