import GridFold.Proofs.Contents

/-!
# GridFold.Proofs.Discarding

What is promised by `writeDiscard`: no result depends on what was there before.

The statements are about two runs that start from stores which differ at most where the destination
shows them.

* `Alike` — the runs end with the same result in the same state, or with the same failure.
* `Pass.Overwrites` — the pass writes every element of the destination and reads none. By induction on its
  steps, the stores agree everywhere except at elements that are still to be written
  (`Edit.forM_overwrites`).
* `Call.alike` — kernels. What reads its destination is refused one that is bound `writeDiscard`. On a
  target that has not been widened the runs need not be scheduled alike (`Call.alike_apart`).
* `looksAlike_arguments`, … , `alike_onOutput` — a rule for each step of a launch; the bodies are worked
  out by them.
* `discarded_unseen` — kernels and launches.
-/

namespace GridFold

variable {α β γ : Type}

/-- The runs end with the same result in the same state, or with the same failure. -/
def Alike {ε σ β : Type} : EStateM.Result ε σ β → EStateM.Result ε σ β → Prop
  | .ok b s, .ok b' s' => b = b' ∧ s = s'
  | .error failure _, .error failure' _ => failure = failure'
  | _, _ => False

theorem Alike.refl {ε σ β : Type} (x : EStateM.Result ε σ β) : Alike x x := by
  cases x with
  | ok b s => exact ⟨rfl, rfl⟩
  | error failure s => exact (rfl : failure = failure)

theorem Alike.cases {ε σ β : Type} {x y : EStateM.Result ε σ β} (h : Alike x y) :
    (∃ b s, x = .ok b s ∧ y = .ok b s) ∨ ∃ failure s t, x = .error failure s ∧ y = .error failure t := by
  cases x with
  | ok b s =>
    cases y with
    | ok _ _ =>
      obtain ⟨rfl, rfl⟩ := h
      exact .inl ⟨b, s, rfl, rfl⟩
    | error _ _ => exact h.elim
  | error failure s =>
    cases y with
    | ok _ _ => exact h.elim
    | error _ t =>
      obtain rfl := h
      exact .inr ⟨_, s, t, rfl, rfl⟩

theorem Alike.of_ok {ε σ β : Type} {x y : EStateM.Result ε σ β} (h : Alike x y) {b : β} {s : σ}
    (hx : x = .ok b s) : y = .ok b s := by
  obtain ⟨_, _, hx', hy⟩ | ⟨_, _, _, hx', _⟩ := h.cases
  · cases hx.symm.trans hx'
    exact hy
  · cases hx.symm.trans hx'

/-! ## Stores that differ under a target -/

/-- The second store has the bounds of the first, and the same elements except perhaps those that the
target shows. -/
structure Store.SameAround (s t : Store α) (dest : Target) : Prop where
  bounds : t.bounds = s.bounds
  element : ∀ j, dest.Misses j → t.element j = s.element j

namespace Store

variable {s t : Store α}

theorem element_outside (hb : t.bounds = s.bounds) {j : Int}
    (h : ¬(0 ≤ j ∧ j.toNat < s.bounds.volume)) : t.element j = s.element j := by
  have h' : ¬(0 ≤ j ∧ j.toNat < t.bounds.volume) := by rw [hb]; exact h
  rw [Store.element, Store.element, dif_neg h, dif_neg h', length, length, hb]

theorem element_map_const (hb : t.bounds = s.bounds) (j : Int) (v : α) :
    (t.element j).map (fun _ => v) = (s.element j).map fun _ => v := by
  by_cases h : 0 ≤ j ∧ j.toNat < s.bounds.volume
  · obtain ⟨a, ha⟩ := element_inside h
    obtain ⟨b, hb'⟩ := element_inside (s := t) (i := j) (by rw [hb]; exact h)
    rw [ha, hb']
    rfl
  · rw [element_outside hb h]

/-- What lies at a position that belongs to none of the points is the same in both stores. -/
theorem SameBut.element {cells : Point → Prop} (h : s.SameBut t cells) {j : Int}
    (hj : ∀ q, s.bounds.containsPoint q = true → s.bounds.offset q = j → ¬cells q) :
    t.element j = s.element j := by
  by_cases hin : 0 ≤ j ∧ j.toNat < s.bounds.volume
  · obtain ⟨q, hq, hqj⟩ := Rect.exists_offset hin
    have hq' : t.bounds.containsPoint q = true := by rw [h.bounds]; exact hq
    have hget := h.get q (hj q hq hqj)
    rwa [get_inside hq, get_inside hq', h.bounds, hqj] at hget
  · exact element_outside h.bounds hin

theorem SameBut.eq_of_none {cells : Point → Prop} (h : s.SameBut t cells) (hnone : ∀ q, ¬cells q) :
    t = s :=
  ext_element h.bounds fun _ => h.element fun q _ _ => hnone q

theorem SameBut.around {rect : Rect} {slice : Option Slice} {privilege : Privilege} {dest : Target}
    (h : s.SameBut t (rect.Places slice)) (hd : s.target rect slice privilege = .ok dest) :
    s.SameAround t dest := by
  obtain ⟨_, _, hwindow⟩ := target_ok_iff.mp hd
  refine ⟨h.bounds, ?_⟩
  intro j hj
  refine h.element ?_
  rintro _ _ hoffset ⟨p, hp, rfl⟩
  refine hj p ?_ ?_
  · rw [Target.rect, window_rect hwindow]
    exact hp
  · rw [offset_placed hwindow hp]
    exact hoffset.symm

theorem SameAround.eq_of_empty {dest : Target} (h : s.SameAround t dest)
    (hempty : dest.isEmpty = true) : t = s := by
  refine ext_element h.bounds fun j => h.element j ?_
  intro p hp
  rw [Rect.isEmpty_iff.mp hempty] at hp
  cases hp

end Store

/-! ## Passes -/

/-- By induction on the edits: the stores agree except at the elements that are still to be written, and
in the end there are none. -/
theorem Edit.forM_overwrites {bounds : Rect} {m : β → Edit α Unit} {key : β → Int} (xs : List β)
    (h : ∀ x ∈ xs, ∃ v, (m x).Changes bounds (key x) fun _ => v) {s t : Store α}
    (hs : s.bounds = bounds) (ht : t.bounds = bounds)
    (hst : ∀ j, (∀ x ∈ xs, key x ≠ j) → t.element j = s.element j) :
    ∃ s', xs.forM m s = .ok () s' ∧ xs.forM m t = .ok () s' := by
  induction xs generalizing s t with
  | nil =>
    obtain rfl : t = s := Store.ext_element (ht.trans hs.symm) fun j => hst j fun _ hx => nomatch hx
    exact ⟨t, rfl, rfl⟩
  | cons x xs ih =>
    obtain ⟨v, hx⟩ := h x (by simp)
    obtain ⟨s₁, hrun, hs₁, helement⟩ := hx s hs
    obtain ⟨t₁, hrun', ht₁, helement'⟩ := hx t ht
    have hnext : ∀ j, (∀ y ∈ xs, key y ≠ j) → t₁.element j = s₁.element j := by
      intro j hj
      rw [helement, helement']
      by_cases hjx : j = key x
      · rw [if_pos hjx, if_pos hjx]
        exact Store.element_map_const (ht.trans hs.symm) j v
      · rw [if_neg hjx, if_neg hjx]
        exact hst j (List.forall_mem_cons.mpr ⟨fun hxj => hjx hxj.symm, hj⟩)
    obtain ⟨s', hs', ht'⟩ := ih (fun y hy => h y (by simp [hy])) hs₁ ht₁ hnext
    exact ⟨s', by rw [forM_cons m x xs hrun, hs'], by rw [forM_cons m x xs hrun', ht']⟩

/-- On stores with these bounds each step writes an element, whatever the old one was, and every element
that the target shows is written. -/
structure Pass.Overwrites (p : Pass α) (dest : Target) (bounds : Rect) : Prop where
  writes : ∀ pos ∈ boxPositions p.axes p.origin,
    ∃ v, (p.body pos).Changes bounds (destination pos) fun _ => v
  covers : ∀ q, dest.rect.containsPoint q = true →
    ∃ pos ∈ boxPositions p.axes p.origin, destination pos = dest.window.at q

/-- The leaves of both runs may be taken in any order, the same for both. -/
theorem Pass.Overwrites.runLeaves_eq {p : Pass α} {dest : Target} {s t : Store α}
    (h : p.Overwrites dest s.bounds) (hst : s.SameAround t dest) {e : Executor}
    {order : List (Leaf (p.sources + 1))} (horder : order.Perm (e.schedule p.axes p.origin)) :
    ∃ s', p.runLeaves order s = .ok () s' ∧ p.runLeaves order t = .ok () s' := by
  have hwrites : ∀ pos ∈ order.flatMap Leaf.positions,
      ∃ v, (p.body pos).Changes s.bounds (destination pos) fun _ => v :=
    fun pos hpos => h.writes pos (mem_positions horder hpos)
  rw [Pass.runLeaves_eq]
  refine Edit.forM_overwrites _ hwrites rfl hst.bounds ?_
  intro j hj
  refine hst.element j ?_
  rintro q hq rfl
  obtain ⟨pos, hpos, hat⟩ := h.covers q hq
  exact hj pos ((horder.flatMap_right _).mem_iff.mpr (mem_flatMap_positions e hpos)) hat

section Passes

variable {dest : Target} {bounds : Rect} {src : View α} {other : View β}

theorem overwrites_through {k : Nat} {windows : Vector Window (k + 1)}
    {cost : Vector Int (k + 1) → Nat} {body : Vector Int (k + 1) → Edit γ Unit}
    (hd : destination windows = dest.window) (hrect : ∀ w ∈ windows, w.rect = dest.rect)
    (hbody : ∀ p, dest.rect.containsPoint p = true →
      ∃ v, (body (standing windows p)).Changes bounds (dest.window.at p) fun _ => v) :
    (Pass.through cost dest.rect.extents windows body).Overwrites dest bounds := by
  have hat : ∀ p, destination (standing windows p) = dest.window.at p := by
    intro p
    rw [destination_standing, hd]
  have hwrites : ∀ pos ∈ boxPositions (axesOf cost dest.rect.extents (windows.map Window.strides))
      (windows.map Window.base),
        ∃ v, (body pos).Changes bounds (destination pos) fun _ => v := by
    intro pos hpos
    rw [boxPositions_windows cost hrect] at hpos
    obtain ⟨p, hp, rfl⟩ := List.mem_map.mp hpos
    rw [hat]
    exact hbody p (Rect.mem_points.mp hp)
  have hcovers : ∀ q, dest.rect.containsPoint q = true →
      ∃ pos ∈ boxPositions (axesOf cost dest.rect.extents (windows.map Window.strides))
        (windows.map Window.base), destination pos = dest.window.at q := by
    intro q hq
    rw [boxPositions_windows cost hrect]
    exact ⟨standing windows q, List.mem_map_of_mem (Rect.mem_points.mpr hq), hat q⟩
  exact ⟨hwrites, hcovers⟩

theorem overwrites_fill (hd : dest.window.Shows dest.rect bounds.volume) (value : γ) :
    (Pass.fill dest value).Overwrites dest bounds := by
  refine overwrites_through rfl (by simp [Target.rect]) ?_
  intro p hp
  exact ⟨value, changes_fill (hd p hp) value⟩

theorem overwrites_map (hd : dest.window.Shows dest.rect bounds.volume) (hs : src.Sound)
    (hrect : src.rect = dest.rect) (f : α → γ) : (Pass.map dest src f).Overwrites dest bounds := by
  refine overwrites_through rfl (by simpa [View.rect, Target.rect] using hrect) ?_
  intro p hp
  obtain ⟨a, ha⟩ := hs.element (hrect ▸ hp)
  exact ⟨f a, changes_map (hd p hp) ha f⟩

theorem overwrites_zip (hd : dest.window.Shows dest.rect bounds.volume) (hs : src.Sound)
    (ho : other.Sound) (hrect : src.rect = dest.rect) (horect : other.rect = dest.rect)
    (f : α → β → γ) : (Pass.zip dest src other f).Overwrites dest bounds := by
  refine overwrites_through rfl (by simpa [View.rect, Target.rect] using ⟨hrect, horect⟩) ?_
  intro p hp
  obtain ⟨a, ha⟩ := hs.element (hrect ▸ hp)
  obtain ⟨b, hb⟩ := ho.element (horect ▸ hp)
  exact ⟨f a b, changes_zip (hd p hp) ha hb f⟩

theorem overwrites_fanIn [Element α] {first : View α} {others : List (View α)}
    (hd : dest.window.Shows dest.rect bounds.volume) (hs : ∀ v ∈ first :: others, View.Sound v)
    (hrect : ∀ v ∈ first :: others, v.rect = dest.rect) (op : Operator α) :
    (Pass.fanIn op dest first others).Overwrites dest bounds := by
  change (Pass.through sharedCost dest.rect.extents (fanInWindows dest first others) _).Overwrites _ _
  refine overwrites_through rfl (rect_fanInWindows hrect) ?_
  intro p hp
  have hpoint : ∀ v ∈ first :: others, v.rect.containsPoint p = true := by
    intro v hv
    rw [hrect v hv]
    exact hp
  obtain ⟨a, ha⟩ := (hs first (by simp)).element (hpoint first (by simp))
  obtain ⟨values, hvalues⟩ := exists_mapM_get (fun v hv => hs v (List.mem_cons_of_mem _ hv))
    fun v hv => hpoint v (List.mem_cons_of_mem _ hv)
  rw [← View.get_eq (hpoint first (by simp))] at ha
  exact ⟨_, changes_fanIn (hd p hp) hpoint ha hvalues op⟩

end Passes

/-! ## Kernels -/

/-- The plan is a single pass that overwrites the destination; for an empty one there is nothing to do. -/
def Plan.Overwrites (plan : Plan α) (dest : Target) (bounds : Rect) : Prop :=
  (dest.isEmpty = true ∧ plan = []) ∨ ∃ p, plan = [p] ∧ p.Overwrites dest bounds

theorem SinglePass.overwrites {dest : Target} {bounds : Rect} {conditions : Prop} {pass : Pass α}
    {plan : Plan α} (h : SinglePass dest conditions pass plan)
    (hpass : conditions → pass.Overwrites dest bounds) : plan.Overwrites dest bounds := by
  unfold SinglePass at h
  split at h
  · rename_i hempty
    exact .inl ⟨hempty, h⟩
  · exact .inr ⟨pass, h.2, hpass h.1⟩

namespace Call

variable {c : Call α} {dest : Target} {s t : Store α}

/-- A kernel that may only write has a plan only if it does not read. -/
theorem overwrites {plan : Plan α} (hd : dest.Made s) (hprivilege : dest.privilege = .writeDiscard)
    (hc : c.SourcesMade) (h : c.plan dest = .ok plan) : plan.Overwrites dest s.bounds := by
  have hshows : dest.window.Shows dest.rect s.bounds.volume := hd.shows.2
  have hunread : ¬dest.privilege.grants .readWrite = true := by
    rw [hprivilege]
    decide
  cases c with
  | fill value => exact (fill_ok_iff.mp h).overwrites fun _ => overwrites_fill hshows value
  | modify f => exact (modify_ok_iff.mp h).overwrites fun hread => absurd hread hunread
  | map src f =>
    exact (map_ok_iff.mp h).overwrites fun hrect => overwrites_map hshows hc.sound hrect f
  | modifyWith src f => exact (modifyWith_ok_iff.mp h).overwrites fun hread => absurd hread.1 hunread
  | zip a b f =>
    exact (zip_ok_iff.mp h).overwrites fun ⟨hrecta, hrectb⟩ =>
      overwrites_zip hshows hc.1.sound hc.2.sound hrecta hrectb f
  | combine op lhs rhs =>
    exact (zip_ok_iff.mp h).overwrites fun ⟨hrecta, hrectb⟩ =>
      overwrites_zip hshows hc.1.sound hc.2.sound hrecta hrectb _
  | combineInPlace op rhs =>
    exact (modifyWith_ok_iff.mp h).overwrites fun hread => absurd hread.1 hunread
  | combineScalar op lhs scalar =>
    exact (map_ok_iff.mp h).overwrites fun hrect => overwrites_map hshows hc.sound hrect _
  | combineScalarInPlace op scalar =>
    exact (modify_ok_iff.mp h).overwrites fun hread => absurd hread hunread
  | collapse op src axis seed =>
    have hplan := collapse_ok_iff.mp h
    split at hplan
    · rename_i hempty
      exact .inl ⟨hempty, hplan⟩
    · exact absurd hplan.2.2.2.1 hunread
  | fanIn op inputs =>
    have hplan := fanIn_ok_iff.mp h
    split at hplan
    · rename_i hempty
      exact .inl ⟨hempty, hplan⟩
    · obtain ⟨first, others, rfl, _, _, hrect, hplan⟩ := hplan
      exact .inr ⟨_, hplan, overwrites_fanIn hshows (fun v hv => (hc v hv).sound) hrect op⟩

theorem alike_runLeaves {plan : Plan α} (hd : dest.Made s) (hprivilege : dest.privilege = .writeDiscard)
    (hc : c.SourcesMade) (hst : s.SameAround t dest) (h : c.plan dest = .ok plan) {e : Executor}
    {order : (p : Pass α) → List (Leaf (p.sources + 1))}
    (horder : ∀ p ∈ plan, (order p).Perm (e.schedule p.axes p.origin)) :
    Alike (plan.forM (fun p => p.runLeaves (order p)) s)
      (plan.forM (fun p => p.runLeaves (order p)) t) := by
  rcases overwrites hd hprivilege hc h with ⟨hempty, rfl⟩ | ⟨p, rfl, hp⟩
  · rw [hst.eq_of_empty hempty]
    exact .refl _
  · obtain ⟨s', hs', ht'⟩ := hp.runLeaves_eq hst (horder p (by simp))
    rw [Edit.forM_cons (fun p => p.runLeaves (order p)) p [] hs',
      Edit.forM_cons (fun p => p.runLeaves (order p)) p [] ht']
    exact .refl _

theorem alike (hd : dest.Made s) (hprivilege : dest.privilege = .writeDiscard) (hc : c.SourcesMade)
    (hst : s.SameAround t dest) (e : Executor) :
    Alike (e.perform (c.plan dest) s) (e.perform (c.plan dest) t) := by
  cases hplan : c.plan dest with
  | error cause => exact (rfl : Failure.refused cause = .refused cause)
  | ok plan =>
    have hruns : Alike (plan.forM (Pass.run e) s) (plan.forM (Pass.run e) t) :=
      alike_runLeaves hd hprivilege hc hst hplan fun _ _ => .refl _
    simp only [Executor.perform]
    obtain ⟨_, _, hs, ht⟩ | ⟨trap, _, _, hs, ht⟩ := hruns.cases
    · rw [hs, ht]
      exact .refl _
    · rw [hs, ht]
      exact (rfl : Failure.trapped trap = .trapped trap)

/-- Where no two points of the target share an element, both runs end in one store, each with its own
executor and its own order of the leaves. -/
theorem runLeaves_apart {plan : Plan α} (hd : dest.IsCut s)
    (hprivilege : dest.privilege = .writeDiscard) (hc : c.SourcesMade) (hst : s.SameAround t dest)
    (h : c.plan dest = .ok plan) :
    ∃ u, ∀ (e : Executor) (order : (p : Pass α) → List (Leaf (p.sources + 1))),
      (∀ p ∈ plan, (order p).Perm (e.schedule p.axes p.origin)) →
        plan.forM (fun p => p.runLeaves (order p)) s = .ok () u ∧
        plan.forM (fun p => p.runLeaves (order p)) t = .ok () u := by
  obtain ⟨u, _, hs⟩ := forM_runLeaves (actsBy hc hd h) s rfl
  obtain ⟨_, _, htarget⟩ := hd
  refine ⟨u, fun e order horder => ⟨hs e order horder, ?_⟩⟩
  exact (alike_runLeaves (.cut htarget) hprivilege hc hst h horder).of_ok (hs e order horder)

theorem alike_apart (hd : dest.IsCut s) (hprivilege : dest.privilege = .writeDiscard)
    (hc : c.SourcesMade) (hst : s.SameAround t dest) (e e' : Executor) :
    Alike (e.perform (c.plan dest) s) (e'.perform (c.plan dest) t) := by
  cases hplan : c.plan dest with
  | error cause => exact (rfl : Failure.refused cause = .refused cause)
  | ok plan =>
    obtain ⟨u, hu⟩ := runLeaves_apart hd hprivilege hc hst hplan
    have hruns : ∀ e : Executor, e.perform (.ok plan) s = .ok () u ∧
        e.perform (.ok plan) t = .ok () u := by
      intro e
      obtain ⟨hs, ht⟩ := hu e (fun p => e.schedule p.axes p.origin) fun _ _ => .refl _
      exact ⟨perform_ok.mpr hs, perform_ok.mpr ht⟩
    rw [(hruns e).1, (hruns e').2]
    exact .refl _

end Call

/-! ## Launches -/

/-- The launch, with its output bound `writeDiscard` in front of these inputs. -/
def TaskContext.discarding (ctx : TaskContext α) (inputs : List (Region α)) (s : Store α) :
    TaskContext α := { ctx with regions := .writeDiscard s :: inputs }

section Discarding

variable (ctx : TaskContext α) (inputs : List (Region α)) (s : Store α)

@[simp]
theorem TaskContext.regions_discarding :
    (ctx.discarding inputs s).regions = .writeDiscard s :: inputs := rfl

@[simp]
theorem TaskContext.futures_discarding : (ctx.discarding inputs s).futures = ctx.futures := rfl

end Discarding

namespace Launch

open Wire

section Rules

variable {x : Launch α β} {c c' : TaskContext α}

/-- The step looks at both contexts and finds the same. -/
def LooksAlike (x : Launch α β) (c c' : TaskContext α) : Prop :=
  (∃ b, x c = .ok b c ∧ x c' = .ok b c') ∨
    ∃ failure, x c = .error failure c ∧ x c' = .error failure c'

theorem LooksAlike.bind {f f' : β → Launch α γ} (hx : LooksAlike x c c')
    (hf : ∀ b, x c = .ok b c → Alike (f b c) (f' b c')) : Alike ((x >>= f) c) ((x >>= f') c') := by
  simp only [Bind.bind, EStateM.bind]
  obtain ⟨b, h, h'⟩ | ⟨failure, h, h'⟩ := hx
  · rw [h, h']
    exact hf b h
  · rw [h, h']
    exact (rfl : failure = failure)

theorem alike_get {f f' : TaskContext α → Launch α γ} (h : Alike (f c c) (f' c' c')) :
    Alike (((get : Launch α (TaskContext α)) >>= f) c) (((get : Launch α (TaskContext α)) >>= f') c') :=
  h

theorem alike_refuse (cause : TaskError) :
    Alike ((refuse cause : Launch α β) c) ((refuse cause : Launch α β) c') :=
  (rfl : Failure.refused cause = .refused cause)

theorem alike_map (h : Alike (x c) (x c')) (g : β → γ) :
    Alike ((x >>= fun b => pure (g b)) c) ((x >>= fun b => pure (g b)) c') := by
  simp only [Bind.bind, EStateM.bind]
  obtain ⟨_, _, hx, hx'⟩ | ⟨failure, _, _, hx, hx'⟩ := h.cases
  · rw [hx, hx']
    exact .refl _
  · rw [hx, hx']
    exact (rfl : failure = failure)

end Rules

section Bodies

variable {ctx : TaskContext α} {inputs : List (Region α)} {s t : Store α} {kind : TaskKind}

/-! A step of a body looks at the arguments, the futures and the launch point, which both launches have. -/

theorem looksAlike_ofExcept (y : Except TaskError β) :
    LooksAlike (ofExcept y) (ctx.discarding inputs s) (ctx.discarding inputs t) := by
  cases y with
  | ok b => exact .inl ⟨b, rfl, rfl⟩
  | error cause => exact .inr ⟨_, rfl, rfl⟩

theorem looksAlike_ofFailing (y : Except (Failure TaskError) β) :
    LooksAlike (ofFailing y) (ctx.discarding inputs s) (ctx.discarding inputs t) := by
  cases y with
  | ok b => exact .inl ⟨b, rfl, rfl⟩
  | error failure => exact .inr ⟨_, rfl, rfl⟩

theorem looksAlike_arguments (decode : List UInt8 → Except WireError β) :
    LooksAlike (arguments decode) (ctx.discarding inputs s) (ctx.discarding inputs t) := by
  unfold LooksAlike arguments
  simp only [TaskContext.discarding]
  cases decode ctx.args with
  | ok args => exact .inl ⟨args, rfl, rfl⟩
  | error cause => exact .inr ⟨_, rfl, rfl⟩

theorem looksAlike_expectFutures (allowed : List Nat) (expected : String) :
    LooksAlike (expectFutures allowed expected) (ctx.discarding inputs s)
      (ctx.discarding inputs t) := by
  unfold LooksAlike expectFutures
  simp only [TaskContext.discarding]
  by_cases h : allowed.contains ctx.futures.length = true
  · exact .inl ⟨(), if_pos h, if_pos h⟩
  · exact .inr ⟨_, if_neg h, if_neg h⟩

theorem looksAlike_indexSlice (axis : Option Nat) :
    LooksAlike (indexSlice axis) (ctx.discarding inputs s) (ctx.discarding inputs t) := by
  cases axis with
  | none => exact .inl ⟨none, rfl, rfl⟩
  | some axis =>
    unfold LooksAlike
    simp only [indexSlice, indexCoord, TaskContext.discarding, bind, EStateM.bind]
    cases ctx.indexPoint[axis]? with
    | some coord => exact .inl ⟨_, rfl, rfl⟩
    | none => exact .inr ⟨_, rfl, rfl⟩

theorem alike_consumeFutures {f f' : Unit → Launch α γ}
    (h : Alike (f () (ctx.consumed.discarding inputs s)) (f' () (ctx.consumed.discarding inputs t))) :
    Alike ((consumeFutures >>= f) (ctx.discarding inputs s))
      ((consumeFutures >>= f') (ctx.discarding inputs t)) := h

theorem output_discard (hb : t.bounds = s.bounds) (index : Nat) (rect : Rect) (slice : Option Slice)
    (required : Privilege) : (Region.writeDiscard t).output index rect slice required =
      (Region.writeDiscard s).output index rect slice required := by
  obtain ⟨_, _⟩ := s
  obtain ⟨_, _⟩ := t
  cases hb
  rfl

theorem output_readWrite_discard {index : Nat} {rect : Rect} {slice : Option Slice} {dest : Target} :
    (Region.writeDiscard s).output index rect slice .readWrite ≠ .ok dest := by
  intro h
  obtain ⟨_, _, hbinding, hgrants, _⟩ := Region.output_ok_iff.mp h
  cases hbinding
  cases hgrants

theorem alike_readWrite (hb : t.bounds = s.bounds) {index : Nat} {rect : Rect} {slice : Option Slice}
    {f f' : Target → Launch α β} :
    Alike ((ofExcept ((Region.writeDiscard s).output index rect slice .readWrite) >>= f)
        (ctx.discarding inputs s))
      ((ofExcept ((Region.writeDiscard t).output index rect slice .readWrite) >>= f')
        (ctx.discarding inputs t)) := by
  rw [output_discard hb]
  refine (looksAlike_ofExcept _).bind fun dest hdest => ?_
  exact absurd (ofExcept_ok_iff.mp hdest).1 output_readWrite_discard

theorem alike_unlessEmpty (h : s.SameBut t (ctx.Writes kind)) {rect : Rect} {axis : Option Nat}
    (hkind : ctx.destination? kind = some (rect, axis)) {x x' : Launch α Unit}
    (hx : rect.isEmpty = false → Alike (x (ctx.discarding inputs s)) (x' (ctx.discarding inputs t))) :
    Alike ((if rect.isEmpty then pure () else x) (ctx.discarding inputs s))
      ((if rect.isEmpty then pure () else x') (ctx.discarding inputs t)) := by
  cases hempty : rect.isEmpty with
  | false => exact hx hempty
  | true =>
    obtain rfl : t = s := by
      refine h.eq_of_none ?_
      rintro _ ⟨rect', axis', slice, hkind', _, p, hp, _⟩
      cases hkind.symm.trans hkind'
      rw [Rect.isEmpty_iff.mp hempty] at hp
      cases hp
    exact .refl _

theorem alike_onOutput {ctx₀ : TaskContext α} (h : s.SameBut t (ctx₀.Writes kind)) {rect : Rect}
    {axis : Option Nat} {slice : Option Slice} (hkind : ctx₀.destination? kind = some (rect, axis))
    (hslice : Picks ctx₀.indexPoint axis slice) {index : Nat} {required : Privilege} {dest : Target}
    (hdest : (Region.writeDiscard s).output index rect slice required = .ok dest) {c : Call α}
    (hc : c.SourcesMade) (e : Executor) :
    Alike (onOutput (e.perform (c.plan dest)) (ctx.discarding inputs s))
      (onOutput (e.perform (c.plan dest)) (ctx.discarding inputs t)) := by
  obtain ⟨_, _, hbinding, _, htarget⟩ := Region.output_ok_iff.mp hdest
  cases hbinding
  have hplaced : s.SameBut t (rect.Places slice) := by
    refine ⟨h.bounds, fun q hq => h.get q ?_⟩
    rintro ⟨rect', axis', slice', hkind', hslice', hplaces⟩
    cases hkind.symm.trans hkind'
    cases hslice.unique hslice'
    exact hq hplaces
  have halike := Call.alike (.cut htarget) (target_ok_iff.mp htarget).2.1 hc (hplaced.around htarget) e
  simp only [onOutput, TaskContext.discarding, Region.binding?, Region.withStore]
  obtain ⟨_, _, hs, ht⟩ | ⟨failure, _, _, hs, ht⟩ := halike.cases
  · rw [hs, ht]
    exact .refl _
  · rw [hs, ht]
    exact (rfl : failure.map TaskError.grid = failure.map TaskError.grid)

variable [Element α]

theorem alike_axisCollapse (h : s.SameBut t (ctx.Writes .axisCollapse)) (op : Operator α)
    (e : Executor) : Alike (axisCollapse op e (ctx.discarding inputs s))
      (axisCollapse op e (ctx.discarding inputs t)) := by
  unfold axisCollapse
  refine (looksAlike_arguments _).bind fun args hargs => ?_
  have hdecode : CollapseArgs.decode ctx.args = .ok args := (arguments_ok_iff.mp hargs).1
  have hkind : ctx.destination? .axisCollapse = some (args.initRect, args.collapseDim) := by
    simp only [TaskContext.destination?, hdecode]
    rfl
  refine (looksAlike_expectFutures _ _).bind fun _ _ => ?_
  refine alike_get ?_
  simp only [TaskContext.regions_discarding, TaskContext.futures_discarding]
  rcases inputs with _ | ⟨source, _ | ⟨_, _⟩⟩
  · exact alike_refuse _
  · refine alike_unlessEmpty h hkind fun _ => ?_
    refine (looksAlike_indexSlice _).bind fun slice _ => ?_
    refine alike_consumeFutures ?_
    exact alike_readWrite h.bounds
  · exact alike_refuse _

theorem alike_combine (h : s.SameBut t (ctx.Writes .combine)) (op : Operator α)
    (e : Executor) : Alike (combine op e (ctx.discarding inputs s))
      (combine op e (ctx.discarding inputs t)) := by
  unfold combine
  refine (looksAlike_arguments _).bind fun args hargs => ?_
  have hdecode : ShapeArgs.decode ctx.args = .ok args := (arguments_ok_iff.mp hargs).1
  have hkind : ctx.destination? .combine = some (args.rect, none) := by
    simp only [TaskContext.destination?, hdecode]
    rfl
  refine (looksAlike_expectFutures _ _).bind fun _ _ => ?_
  refine alike_get ?_
  simp only [TaskContext.regions_discarding]
  rcases inputs with _ | ⟨lhs, _ | ⟨rhs, _ | ⟨_, _⟩⟩⟩
  · exact alike_refuse _
  · exact alike_unlessEmpty h hkind fun _ => alike_readWrite h.bounds
  · refine alike_unlessEmpty h hkind fun _ => ?_
    rw [output_discard h.bounds]
    refine (looksAlike_ofExcept _).bind fun dest hdest => ?_
    refine (looksAlike_ofExcept _).bind fun a ha => ?_
    refine (looksAlike_ofExcept _).bind fun b hb => ?_
    have hmade : (Call.combine op a b).SourcesMade :=
      ⟨(Region.input_cut (ofExcept_ok_iff.mp ha).1).2.made,
        (Region.input_cut (ofExcept_ok_iff.mp hb).1).2.made⟩
    exact alike_onOutput h hkind rfl (ofExcept_ok_iff.mp hdest).1 hmade e
  · exact alike_refuse _

theorem alike_combineBroadcast (h : s.SameBut t (ctx.Writes .combineBroadcast)) (op : Operator α)
    (e : Executor) : Alike (combineBroadcast op e (ctx.discarding inputs s))
      (combineBroadcast op e (ctx.discarding inputs t)) := by
  unfold combineBroadcast
  refine (looksAlike_arguments _).bind fun args hargs => ?_
  have hdecode : ShapeArgs.decode ctx.args = .ok args := (arguments_ok_iff.mp hargs).1
  have hkind : ctx.destination? .combineBroadcast = some (args.rect, none) := by
    simp only [TaskContext.destination?, hdecode]
    rfl
  refine alike_get ?_
  simp only [TaskContext.regions_discarding, TaskContext.futures_discarding]
  rcases hfutures : ctx.futures with _ | ⟨scalar, _ | ⟨_, _⟩⟩
  · exact alike_refuse _
  · rcases inputs with _ | ⟨lhs, _ | ⟨_, _⟩⟩
    · exact alike_unlessEmpty h hkind fun _ => alike_readWrite h.bounds
    · refine alike_unlessEmpty h hkind fun _ => ?_
      rw [output_discard h.bounds]
      refine (looksAlike_ofExcept _).bind fun dest hdest => ?_
      refine (looksAlike_ofExcept _).bind fun a ha => ?_
      refine alike_consumeFutures ?_
      have hmade : (Call.combineScalar op a scalar.value).SourcesMade :=
        (Region.input_cut (ofExcept_ok_iff.mp ha).1).2.made
      exact alike_onOutput h hkind rfl (ofExcept_ok_iff.mp hdest).1 hmade e
    · exact alike_refuse _
  · exact alike_refuse _

theorem alike_radixFanIn (h : s.SameBut t (ctx.Writes .radixFanIn)) (a : Arithmetic) (op : Operator α)
    (e : Executor) : Alike (radixFanIn a op e (ctx.discarding inputs s))
      (radixFanIn a op e (ctx.discarding inputs t)) := by
  unfold radixFanIn
  refine (looksAlike_arguments _).bind fun args hargs => ?_
  have hdecode : RadixArgs.decode ctx.args = .ok args := (arguments_ok_iff.mp hargs).1
  have hkind : ctx.destination? .radixFanIn = some (args.rect, args.extraDimOut) := by
    simp only [TaskContext.destination?, hdecode]
    rfl
  refine (looksAlike_expectFutures _ _).bind fun _ _ => ?_
  refine alike_get ?_
  simp only [TaskContext.regions_discarding]
  refine (looksAlike_ofExcept _).bind fun radix _ => ?_
  refine alike_unlessEmpty h hkind fun _ => ?_
  refine (looksAlike_indexSlice _).bind fun node _ => ?_
  refine (looksAlike_ofFailing _).bind fun offset _ => ?_
  refine (looksAlike_indexSlice _).bind fun slice hslice => ?_
  refine (looksAlike_ofFailing _).bind fun views hviews => ?_
  rw [output_discard h.bounds]
  refine (looksAlike_ofExcept _).bind fun dest hdest => ?_
  have hmade : (Call.fanIn op views).SourcesMade := fun v hv =>
    ((presentInputs_cut (ofFailing_ok_iff.mp hviews).1).2 v hv).2.made
  exact alike_onOutput h hkind (indexSlice_ok_iff.mp hslice).1 (ofExcept_ok_iff.mp hdest).1 hmade e

/-- Whatever a body does with its output, it does not see what was there before. -/
theorem alike_body (h : s.SameBut t (ctx.Writes kind)) (op : Operator α) (e : Executor) :
    Alike (body op e kind (ctx.discarding inputs s)) (body op e kind (ctx.discarding inputs t)) := by
  have hnothing : ctx.destination? kind = none →
      Alike (body op e kind (ctx.discarding inputs s)) (body op e kind (ctx.discarding inputs t)) := by
    intro hkind
    obtain rfl : t = s := by
      refine h.eq_of_none ?_
      rintro _ ⟨rect, axis, slice, hkind', _⟩
      cases hkind.symm.trans hkind'
    exact .refl _
  cases kind with
  | axisCollapse => exact alike_map (alike_axisCollapse h op e) _
  | wholePartition => exact hnothing rfl
  | reductionScalar => exact hnothing rfl
  | combine => exact alike_map (alike_combine h op e) _
  | combineBroadcast => exact alike_map (alike_combineBroadcast h op e) _
  | combineScalar => exact hnothing rfl
  | radixFanIn => exact alike_map (alike_radixFanIn h .exact op e) _

end Bodies

theorem alike_launch [Element α] (r : Registry) (workers : Nat) (id : TaskId) (ctx : TaskContext α)
    (inputs : List (Region α)) {s t : Store α}
    (h : s.SameBut t fun q => ∃ d, r.get? id = some d ∧ ctx.Writes d.kind q) :
    Alike (r.launch workers id (ctx.discarding inputs s))
      (r.launch workers id (ctx.discarding inputs t)) := by
  rw [Registry.launch_eq]
  cases hget : r.get? id with
  | none => exact alike_refuse _
  | some d =>
    have hd : s.SameBut t (ctx.Writes d.kind) := by
      refine ⟨h.bounds, fun q hq => h.get q ?_⟩
      rintro ⟨d', hget', hwrites⟩
      cases hget.symm.trans hget'
      exact hq hwrites
    simp only
    split
    · exact alike_body hd _ _
    · exact alike_refuse _

end Launch

/-! ## Main result -/

end GridFold
