import GridFold.Proofs.Plans

/-!
# GridFold.Proofs.Pointwise

The kernels that write each point of the destination from what lies at it.

A `Pointwise` kernel says which operands its function is given. Its step gathers them, calls the
function and writes what comes back. The step is the same in any monad of edits, so the calls can be
recorded without a change to the kernel: `Pointwise.recorded` is the kernel with a record of all calls.

* `sweep` — the step at every position of every leaf, whatever a call does. The pass of the kernel's
  plan is the sweep whose calls only give their values (`run_eq_sweep`), and the record is the sweep
  that notes them, although it is kept run by run (`recorded_eq_sweep`).
* `run_points` — recorded steps at points, each at most once, in any order.
* `each_point_once` — every executor calls the function once at each point, with what lay there
  before, and leaves its results in the store.
-/

namespace GridFold

/-- The positions that a run visits. Where every operand goes on to the next element, the run is a
slice of each of them. -/
def Run.visits {k : Nat} (r : Run k) : List (Vector Int k) :=
  if r.steps = Vector.replicate k 1 then
    (List.range r.length).map fun i => r.start.map fun start => start + Int.ofNat i
  else r.positions

theorem Run.visits_eq {k : Nat} (r : Run k) : r.visits = r.positions := by
  unfold visits
  split
  · rename_i hunit
    apply List.map_congr_left
    intro i _
    ext j hj
    simp [advance, hunit]
  · rfl

theorem exists_perm_map {β γ : Type} {g : β → γ} {xs : List β} {ys : List γ}
    (h : ys.Perm (xs.map g)) : ∃ zs : List β, zs.Perm xs ∧ ys = zs.map g := by
  have himages : List.Forall₂ (fun y x => y = g x) (xs.map g) xs := by
    rw [List.forall₂_map_left_iff, List.forall₂_same]
    intro x _
    rfl
  obtain ⟨zs, hzs, hperm⟩ := List.perm_comp_forall₂ h himages
  refine ⟨zs, hperm, ?_⟩
  rwa [← List.forall₂_eq_eq_eq, List.forall₂_map_right_iff]

/-- What the function of an elementwise kernel is given at each point: nothing, the old element, the
elements of one or two sources, or the old element and that of a source. -/
inductive Pointwise (δ : Type) : Type → Type 1 where
  | fill : Pointwise δ Unit
  | modify : Pointwise δ δ
  | map {α : Type} (src : View α) : Pointwise δ α
  | modifyWith {α : Type} (src : View α) : Pointwise δ (δ × α)
  | zip {α β : Type} (a : View α) (b : View β) : Pointwise δ (α × β)

namespace Pointwise

variable {δ ι : Type}

def sources : Pointwise δ ι → Nat
  | .fill | .modify => 0
  | .map _ | .modifyWith _ => 1
  | .zip _ _ => 2

def sourceWindows : Pointwise δ ι → List Window
  | .fill | .modify => []
  | .map src | .modifyWith src => [src.window]
  | .zip a b => [a.window, b.window]

theorem size_windows (dest : Target) (k : Pointwise δ ι) :
    (dest.window :: k.sourceWindows).toArray.size = k.sources + 1 := by
  cases k <;> rfl

def windows (dest : Target) (k : Pointwise δ ι) : Vector Window (k.sources + 1) :=
  ⟨(dest.window :: k.sourceWindows).toArray, k.size_windows dest⟩

def plan (dest : Target) : Pointwise δ ι → (ι → δ) → Except GridError (Plan δ)
  | .fill, f => Plan.fill dest (f ())
  | .modify, f => Plan.modify dest f
  | .map src, f => Plan.map dest src f
  | .modifyWith src, f => Plan.modifyWith dest src fun old a => f (old, a)
  | .zip a b, f => Plan.zip dest a b fun x y => f (x, y)

def operands (s : Store δ) (dest : Target) (p : Point) : Pointwise δ ι → Except Trap ι
  | .fill => .ok ()
  | .modify => View.get ⟨s, dest.window⟩ p
  | .map src => src.get p
  | .modifyWith src => do
    let old ← View.get ⟨s, dest.window⟩ p
    let a ← src.get p
    return (old, a)
  | .zip a b => do
    let x ← a.get p
    let y ← b.get p
    return (x, y)

/-- The sources are cut out of stores of their own, all with this rectangle. -/
def SourcesCut (rect : Rect) : Pointwise δ ι → Prop
  | .fill | .modify => True
  | .map src | .modifyWith src => src.IsCut ∧ src.rect = rect
  | .zip a b => (a.IsCut ∧ a.rect = rect) ∧ b.IsCut ∧ b.rect = rect

def readsDestination : Pointwise δ ι → Bool
  | .modify | .modifyWith _ => true
  | .fill | .map _ | .zip _ _ => false

/-! ## One step -/

def gather : (k : Pointwise δ ι) → Vector Int (k.sources + 1) → Edit δ ι
  | .fill, _ => pure ()
  | .modify, pos => Edit.readAt (destination pos)
  | .map src, pos => Edit.ofExcept (src.element (source (k := 0) pos))
  | .modifyWith src, pos => do
    let old ← Edit.readAt (destination pos)
    let a ← Edit.ofExcept (src.element (source (k := 0) pos))
    return (old, a)
  | .zip a b, pos => do
    let x ← Edit.ofExcept (a.element (source (k := 1) pos))
    let y ← Edit.ofExcept (b.element (secondSource (k := 0) pos))
    return (x, y)

/-- A step of the kernel, whatever a call of its function does besides. -/
def step {m : Type → Type} [Monad m] [MonadLiftT (Edit δ) m] (k : Pointwise δ ι)
    (call : Int → ι → m δ) (pos : Vector Int (k.sources + 1)) : m Unit := do
  let x ← liftM (k.gather pos)
  let value ← call (destination pos) x
  liftM (Edit.writeAt (destination pos) value)

def pass (k : Pointwise δ ι) (dest : Target) (f : ι → δ) : Pass δ :=
  .through sharedCost dest.rect.extents (k.windows dest) (k.step fun _ x => pure (f x))

/-- Edits with a record of the calls made: where the destination stood, and the operands. -/
abbrev Recorded (δ ι : Type) := StateT (List (Int × ι)) (Edit δ)

def noting (f : ι → δ) (position : Int) (x : ι) : Recorded δ ι δ := fun calls =>
  pure (f x, calls ++ [(position, x)])

def leaves (k : Pointwise δ ι) (e : Executor) (dest : Target) : List (Leaf (k.sources + 1)) :=
  e.schedule (axesOf sharedCost dest.rect.extents ((k.windows dest).map Window.strides))
    ((k.windows dest).map Window.base)

def recorded (k : Pointwise δ ι) (e : Executor) (dest : Target) (f : ι → δ) : Recorded δ ι Unit :=
  (k.leaves e dest).forM fun leaf =>
    (runsOf leaf.axes leaf.origin).forM fun run => run.visits.forM (k.step (noting f))

/-- The kernel's step at every position of the leaves, in their order. -/
def sweep {m : Type → Type} [Monad m] [MonadLiftT (Edit δ) m] (k : Pointwise δ ι) (e : Executor)
    (dest : Target) (call : Int → ι → m δ) : m Unit :=
  (k.leaves e dest).forM fun leaf => leaf.positions.forM (k.step call)

section Step

variable {k : Pointwise δ ι} {dest : Target} {s t : Store δ} {p : Point}

theorem exists_operands (hd : dest.IsCut s) (hk : k.SourcesCut dest.rect)
    (hp : dest.rect.containsPoint p = true) : ∃ x, k.operands s dest p = .ok x := by
  obtain ⟨old, hold⟩ := Store.element_inside (hd.faithful.inside p hp)
  have hget : View.get ⟨s, dest.window⟩ p = .ok old :=
    (View.get_eq (v := ⟨s, dest.window⟩) hp).trans hold
  have hsource : ∀ {α : Type} {v : View α}, v.IsCut ∧ v.rect = dest.rect →
      ∃ a, v.get p = .ok a := by
    rintro α v ⟨hv, hrect⟩
    have hin : v.rect.containsPoint p = true := by
      rw [hrect]
      exact hp
    obtain ⟨a, ha⟩ := hv.sound.element hin
    exact ⟨a, (View.get_eq hin).trans ha⟩
  cases k with
  | fill => exact ⟨(), rfl⟩
  | modify => exact ⟨old, hget⟩
  | map src =>
    obtain ⟨a, ha⟩ := hsource hk
    exact ⟨a, ha⟩
  | modifyWith src =>
    obtain ⟨a, ha⟩ := hsource hk
    refine ⟨(old, a), ?_⟩
    rw [operands, hget, ha]
    rfl
  | zip a b =>
    obtain ⟨x, hx⟩ := hsource hk.1
    obtain ⟨y, hy⟩ := hsource hk.2
    refine ⟨(x, y), ?_⟩
    rw [operands, hx, hy]
    rfl

/-- Nothing of the destination counts but its element at the point. -/
theorem operands_congr (hp : dest.rect.containsPoint p = true)
    (h : t.element (dest.window.at p) = s.element (dest.window.at p)) :
    k.operands t dest p = k.operands s dest p := by
  have hget : View.get ⟨t, dest.window⟩ p = View.get ⟨s, dest.window⟩ p := by
    rw [View.get_eq (v := ⟨t, dest.window⟩) hp, View.get_eq (v := ⟨s, dest.window⟩) hp]
    exact h
  cases k with
  | modify => exact hget
  | modifyWith src => rw [operands, operands, hget]
  | fill | map | zip => rfl

theorem gather_standing {x : ι} (hk : k.SourcesCut dest.rect) (hp : dest.rect.containsPoint p = true)
    (hx : k.operands s dest p = .ok x) :
    k.gather (standing (k.windows dest) p) s = .ok x s := by
  have hread : ∀ {old}, View.get ⟨s, dest.window⟩ p = .ok old →
      Edit.readAt (dest.window.at p) s = .ok old s := by
    intro old hold
    have helement := (View.get_eq (v := ⟨s, dest.window⟩) hp).symm.trans hold
    change s.element (dest.window.at p) = _ at helement
    simp only [Edit.readAt, helement]
  have hsource : ∀ {α : Type} {v : View α} {a : α}, v.rect = dest.rect → v.get p = .ok a →
      (Edit.ofExcept (v.element (v.window.at p)) : Edit δ α) s = .ok a s := by
    intro α v a hrect ha
    rw [View.get_eq (hrect ▸ hp)] at ha
    rw [ha]
    rfl
  -- in each case `change` shows the windows as a vector of known length, which `sources` hides
  cases k with
  | fill => rfl
  | modify =>
    change Edit.readAt (destination (standing #v[dest.window] p)) s = _
    rw [destination_standing]
    exact hread hx
  | map src =>
    change Edit.ofExcept (src.element (source (standing #v[dest.window, src.window] p))) s = _
    rw [source_standing]
    exact hsource hk.2 hx
  | modifyWith src =>
    obtain ⟨old, hold, hx⟩ := bind_eq_ok.mp hx
    obtain ⟨a, ha, hx⟩ := bind_eq_ok.mp hx
    cases hx
    have hdest := destination_standing #v[dest.window, src.window] p
    have hsrc := source_standing #v[dest.window, src.window] p
    refine run_bind_eq_ok.mpr ⟨old, s, ?_, run_bind_eq_ok.mpr ⟨a, s, ?_, rfl⟩⟩
    · exact (congrArg (Edit.readAt · s) hdest).trans (hread hold)
    · exact (congrArg (fun i => Edit.ofExcept (src.element i) s) hsrc).trans (hsource hk.2 ha)
  | zip a b =>
    obtain ⟨x, ha, hx⟩ := bind_eq_ok.mp hx
    obtain ⟨y, hb, hx⟩ := bind_eq_ok.mp hx
    cases hx
    have hsrc := source_standing #v[dest.window, a.window, b.window] p
    have hsecond := secondSource_standing #v[dest.window, a.window, b.window] p
    refine run_bind_eq_ok.mpr ⟨x, s, ?_, run_bind_eq_ok.mpr ⟨y, s, ?_, rfl⟩⟩
    · exact (congrArg (fun i => Edit.ofExcept (a.element i) s) hsrc).trans (hsource hk.1.2 ha)
    · exact (congrArg (fun i => Edit.ofExcept (b.element i) s) hsecond).trans (hsource hk.2.2 hb)

theorem destination_windows (k : Pointwise δ ι) (dest : Target) :
    destination (k.windows dest) = dest.window :=
  rfl

/-- One step at a point: the call is recorded, what it gives is written there, and the record makes no
difference to the store. -/
theorem step_standing (f : ι → δ) {x : ι} (hk : k.SourcesCut dest.rect)
    (hp : dest.rect.containsPoint p = true)
    (hin : 0 ≤ dest.window.at p ∧ (dest.window.at p).toNat < t.bounds.volume)
    (hx : k.operands t dest p = .ok x) (calls : List (Int × ι)) :
    ∃ t', (k.step (fun _ x => pure (f x)) (standing (k.windows dest) p) : Edit δ Unit) t =
        .ok () t' ∧
      k.step (noting f) (standing (k.windows dest) p) calls t =
        .ok ((), calls ++ [(dest.window.at p, x)]) t' ∧
      t'.bounds = t.bounds ∧
      ∀ j, t'.element j = if j = dest.window.at p then .ok (f x) else t.element j := by
  obtain ⟨t', hwrite, hbounds, helement⟩ := Edit.writeAt_inside hin (f x)
  have hgather := gather_standing hk hp hx
  have hdest : destination (standing (k.windows dest) p) = dest.window.at p := by
    rw [destination_standing, destination_windows]
  refine ⟨t', ?_, ?_, hbounds, helement⟩
  · refine run_bind_eq_ok.mpr ⟨x, t, hgather, run_bind_eq_ok.mpr ⟨f x, t, rfl, ?_⟩⟩
    rw [hdest]
    exact hwrite
  · refine run_bind_eq_ok.mpr ⟨(x, calls), t, run_bind_eq_ok.mpr ⟨x, t, hgather, rfl⟩, ?_⟩
    change (liftM (Edit.writeAt (destination (standing (k.windows dest) p)) (f x)) :
      Recorded δ ι Unit) (calls ++ [(destination (standing (k.windows dest) p), x)]) t = _
    rw [hdest]
    exact run_bind_eq_ok.mpr ⟨(), t', hwrite, rfl⟩

end Step

/-! ## Steps at many points -/

section Run

variable {k : Pointwise δ ι} {dest : Target} {s : Store δ}

/-- The call made at a point: where the destination shows it, with what lies there. -/
structure CallAt (k : Pointwise δ ι) (s : Store δ) (dest : Target) (p : Point) (call : Int × ι) :
    Prop where
  inside : dest.rect.containsPoint p = true
  position : call.1 = dest.window.at p
  operands : k.operands s dest p = .ok call.2

/-- Steps at different points, by induction on them: no step touches what lies at a later point, so
each call gets what lay there before the first one. -/
theorem run_points (f : ι → δ) (hd : dest.IsCut s) (hk : k.SourcesCut dest.rect) {ps : List Point}
    (hps : ∀ p ∈ ps, dest.rect.containsPoint p = true) (hnodup : ps.Nodup) {t : Store δ}
    (ht : t.bounds = s.bounds)
    (hsame : ∀ p ∈ ps, t.element (dest.window.at p) = s.element (dest.window.at p))
    (before : List (Int × ι)) :
    ∃ t' calls, List.Forall₂ (k.CallAt s dest) ps calls ∧
      (ps.map (standing (k.windows dest))).forM
        (k.step fun _ x => pure (f x) : _ → Edit δ Unit) t = .ok () t' ∧
      (ps.map (standing (k.windows dest))).forM (k.step (noting f)) before t =
        .ok ((), before ++ calls) t' ∧
      t'.bounds = s.bounds ∧
      (∀ p ∈ ps, ∃ x, k.operands s dest p = .ok x ∧
        t'.element (dest.window.at p) = .ok (f x)) ∧
      ∀ j, (∀ p ∈ ps, j ≠ dest.window.at p) → t'.element j = t.element j := by
  induction ps generalizing t before with
  | nil =>
    refine ⟨t, [], .nil, rfl, ?_, ht, by simp, fun _ _ => rfl⟩
    rw [List.append_nil]
    rfl
  | cons p ps ih =>
    obtain ⟨hfresh, hnodup⟩ := List.nodup_cons.mp hnodup
    have hp := hps p (by simp)
    have hin := hd.faithful.inside p hp
    rw [← ht] at hin
    obtain ⟨x, hx⟩ := exists_operands hd hk hp
    obtain ⟨u, hpure, hnoted, hu, helement⟩ := step_standing f hk hp hin
      ((operands_congr hp (hsame p (by simp))).trans hx) before
    have hother : ∀ q ∈ ps, dest.window.at q ≠ dest.window.at p := by
      intro q hq hqp
      have hqr := hps q (by simp [hq])
      exact hfresh (hd.faithful.apart q p hqr hp hqp ▸ hq)
    have hsame' : ∀ q ∈ ps, u.element (dest.window.at q) = s.element (dest.window.at q) := by
      intro q hq
      rw [helement, if_neg (hother q hq), hsame q (by simp [hq])]
    obtain ⟨t', calls, hcalls, hpures, hnoteds, hbounds, hwritten, hleft⟩ :=
      ih (fun q hq => hps q (by simp [hq])) hnodup (hu.trans ht) hsame'
        (before ++ [(dest.window.at p, x)])
    refine ⟨t', (dest.window.at p, x) :: calls, .cons ⟨hp, rfl, hx⟩ hcalls, ?_, ?_, hbounds, ?_, ?_⟩
    · rw [List.map_cons, Edit.forM_cons _ _ _ hpure]
      exact hpures
    · rw [List.append_assoc, List.singleton_append] at hnoteds
      exact run_bind_eq_ok.mpr ⟨((), before ++ [(dest.window.at p, x)]), u, hnoted, hnoteds⟩
    · intro q hq
      rcases List.mem_cons.mp hq with rfl | hq
      · refine ⟨x, hx, ?_⟩
        rw [hleft _ fun r hr => (hother r hr).symm, helement, if_pos rfl]
      · exact hwritten q hq
    · intro j hj
      rw [hleft j fun q hq => hj q (by simp [hq]), helement, if_neg (hj p (by simp))]

end Run

/-! ## The whole kernel -/

section Kernel

variable {k : Pointwise δ ι} {dest : Target} {s : Store δ} {f : ι → δ}

/-- The pass that the kernel's plan takes is the kernel's own step at every point. -/
theorem plan_ok_iff (hk : k.SourcesCut dest.rect) {plan : Plan δ} :
    k.plan dest f = .ok plan ↔
      SinglePass dest (k.readsDestination = true → dest.privilege.grants .readWrite = true)
        (k.pass dest f) plan := by
  cases k with
  | fill =>
    simp only [readsDestination, Bool.false_eq_true, false_implies]
    exact fill_ok_iff
  | modify =>
    simp only [readsDestination, forall_const]
    exact modify_ok_iff
  | map src =>
    have hpass : (Pointwise.map src).pass dest f = Pass.map dest src f := rfl
    simp only [hpass, readsDestination, Bool.false_eq_true, false_implies]
    refine map_ok_iff.trans ?_
    simp only [hk.2]
  | modifyWith src =>
    have hpass : (Pointwise.modifyWith src).pass dest f =
        Pass.modifyWith dest src fun old a => f (old, a) := by
      refine congrArg (Pass.through _ _ _) (funext fun pos => ?_)
      simp only [step, gather, liftM, monadLift, bind_assoc, pure_bind]
      rfl
    simp only [hpass, readsDestination, forall_const]
    refine modifyWith_ok_iff.trans ?_
    simp only [hk.2, and_true]
  | zip a b =>
    have hpass : (Pointwise.zip a b).pass dest f = Pass.zip dest a b fun x y => f (x, y) := by
      refine congrArg (Pass.through _ _ _) (funext fun pos => ?_)
      simp only [step, gather, liftM, monadLift, bind_assoc, pure_bind]
      rfl
    simp only [hpass, readsDestination, Bool.false_eq_true, false_implies]
    refine zip_ok_iff.trans ?_
    simp only [hk.1.2, hk.2.2, and_true]

theorem rect_windows (hk : k.SourcesCut dest.rect) : ∀ w ∈ k.windows dest, w.rect = dest.rect := by
  cases k with
  | fill | modify =>
    change ∀ w ∈ #v[dest.window], w.rect = dest.rect
    simp [Target.rect]
  | map src | modifyWith src =>
    change ∀ w ∈ #v[dest.window, src.window], w.rect = dest.rect
    simpa [Target.rect, View.rect] using hk.2
  | zip a b =>
    change ∀ w ∈ #v[dest.window, a.window, b.window], w.rect = dest.rect
    simpa [Target.rect, View.rect] using And.intro hk.1.2 hk.2.2

theorem exists_points (hk : k.SourcesCut dest.rect) (e : Executor) :
    ∃ ps : List Point, ps.Perm dest.rect.points ∧
      (k.leaves e dest).flatMap Leaf.positions = ps.map (standing (k.windows dest)) := by
  obtain ⟨parts, hparts⟩ := schedule_parts e
    (axesOf sharedCost dest.rect.extents ((k.windows dest).map Window.strides))
    ((k.windows dest).map Window.base)
  have hperm := perm_leaves hparts
  rw [boxPositions_windows sharedCost (rect_windows hk)] at hperm
  exact exists_perm_map hperm

theorem sweep_eq {m : Type → Type} [Monad m] [LawfulMonad m] [MonadLiftT (Edit δ) m]
    (k : Pointwise δ ι) (e : Executor) (dest : Target) (call : Int → ι → m δ) :
    k.sweep e dest call = ((k.leaves e dest).flatMap Leaf.positions).forM (k.step call) :=
  (forM_flatMap _ _ _).symm

theorem run_eq_sweep (k : Pointwise δ ι) (e : Executor) (dest : Target) (f : ι → δ) :
    (k.pass dest f).run e = k.sweep e dest fun _ x => pure (f x) :=
  rfl

/-- The loops along unit strides and along others visit what the leaves do. -/
theorem recorded_eq_sweep (k : Pointwise δ ι) (e : Executor) (dest : Target) (f : ι → δ) :
    k.recorded e dest f = k.sweep e dest (noting f) := by
  refine congrArg (List.forM _) (funext fun leaf => ?_)
  rw [Leaf.positions, forM_flatMap]
  simp only [Run.visits_eq]

/-- The kernel has gone from `s` to `t`: each point has what the function gives for its operands, and
the other elements of the store are as they were. -/
structure Written (k : Pointwise δ ι) (f : ι → δ) (dest : Target) (s t : Store δ) : Prop where
  bounds : t.bounds = s.bounds
  points : ∀ p, dest.rect.containsPoint p = true → ∃ x, k.operands s dest p = .ok x ∧
    t.element (dest.window.at p) = .ok (f x)
  others : ∀ j, (∀ p, dest.rect.containsPoint p = true → j ≠ dest.window.at p) →
    t.element j = s.element j

theorem Written.unique {t u : Store δ} (ht : k.Written f dest s t) (hu : k.Written f dest s u) :
    t = u := by
  refine Store.ext_element (ht.bounds.trans hu.bounds.symm) fun j => ?_
  by_cases hj : ∃ p, dest.rect.containsPoint p = true ∧ j = dest.window.at p
  · obtain ⟨p, hp, rfl⟩ := hj
    obtain ⟨x, hx, htx⟩ := ht.points p hp
    obtain ⟨y, hy, huy⟩ := hu.points p hp
    cases hx.symm.trans hy
    exact htx.trans huy.symm
  · have hnone : ∀ p, dest.rect.containsPoint p = true → j ≠ dest.window.at p :=
      fun p hp hjp => hj ⟨p, hp, hjp⟩
    exact (ht.others j hnone).trans (hu.others j hnone).symm

theorem run_kernel (hd : dest.IsCut s) (hk : k.SourcesCut dest.rect) (e : Executor) (f : ι → δ) :
    ∃ t calls ps, List.Perm ps dest.rect.points ∧ List.Forall₂ (k.CallAt s dest) ps calls ∧
      (k.pass dest f).run e s = .ok () t ∧ k.recorded e dest f [] s = .ok ((), calls) t ∧
      k.Written f dest s t := by
  obtain ⟨ps, hperm, hpositions⟩ := exists_points hk e
  have hmem : ∀ p, p ∈ ps ↔ dest.rect.containsPoint p = true := fun p =>
    hperm.mem_iff.trans Rect.mem_points
  obtain ⟨t, calls, hcalls, hpure, hnoted, hbounds, hpoints, hothers⟩ :=
    run_points f hd hk (fun p hp => (hmem p).mp hp)
      (hperm.nodup_iff.mpr (Rect.nodup_points dest.rect)) rfl (fun _ _ => rfl) []
  refine ⟨t, calls, ps, hperm, hcalls, ?_, ?_, hbounds, ?_, ?_⟩
  · rw [run_eq_sweep, sweep_eq, hpositions]
    exact hpure
  · rw [recorded_eq_sweep, sweep_eq, hpositions]
    exact hnoted
  · exact fun p hp => hpoints p ((hmem p).mpr hp)
  · exact fun j hj => hothers j fun p hp => hj p ((hmem p).mp hp)

theorem filter_calls (hd : dest.IsCut s) {ps : List Point} {calls : List (Int × ι)}
    (hperm : ps.Perm dest.rect.points) (hcalls : List.Forall₂ (k.CallAt s dest) ps calls) {p : Point}
    (hp : dest.rect.containsPoint p = true) {x : ι} (hx : k.operands s dest p = .ok x) :
    calls.filter (fun call => call.1 == dest.window.at p) = [(dest.window.at p, x)] := by
  have hat : ∀ q call, k.CallAt s dest q call →
      ((q == p) = true ↔ (call.1 == dest.window.at p) = true) := by
    intro q call hcall
    rw [beq_iff_eq, beq_iff_eq, hcall.position]
    constructor
    · rintro rfl
      rfl
    · exact hd.faithful.apart q p hcall.inside hp
  have hone : ps.filter (fun q => q == p) = [p] := by
    rw [List.filter_beq, (hperm.nodup_iff.mpr (Rect.nodup_points dest.rect)).count,
      if_pos (hperm.mem_iff.mpr (Rect.mem_points.mpr hp))]
    rfl
  have hfilter := List.rel_filter (fun q call hcall => hat q call hcall) hcalls
  rw [hone] at hfilter
  obtain ⟨call, _, hcall, hrest, hlist⟩ := List.forall₂_cons_left_iff.mp hfilter
  have hvalue : call = (dest.window.at p, x) :=
    Prod.ext hcall.position (Except.ok.inj (hcall.operands.symm.trans hx))
  rw [hlist, List.forall₂_nil_left_iff.mp hrest, hvalue]

theorem plan_ok_iff_of_nonempty (hk : k.SourcesCut dest.rect) (hne : dest.rect.isEmpty = false)
    {plan : Plan δ} :
    k.plan dest f = .ok plan ↔
      (k.readsDestination = true → dest.privilege.grants .readWrite = true) ∧
        plan = [k.pass dest f] := by
  rw [plan_ok_iff hk, SinglePass, if_neg (by simp [Target.isEmpty, hne])]

theorem perform_iff (hk : k.SourcesCut dest.rect) (hne : dest.rect.isEmpty = false) {e : Executor}
    {s' : Store δ} :
    e.perform (k.plan dest f) s = .ok () s' ↔
      (k.readsDestination = true → dest.privilege.grants .readWrite = true) ∧
        (k.pass dest f).run e s = .ok () s' := by
  have hsingle : [k.pass dest f].forM (Pass.run e) s = .ok () s' ↔
      (k.pass dest f).run e s = .ok () s' := by
    change ((k.pass dest f).run e >>= fun _ => pure ()) s = _ ↔ _
    rw [bind_pure]
  constructor
  · intro h
    cases hmade : k.plan dest f with
    | error cause =>
      rw [hmade] at h
      cases h
    | ok plan =>
      obtain ⟨hreads, rfl⟩ := (plan_ok_iff_of_nonempty hk hne).mp hmade
      rw [hmade] at h
      exact ⟨hreads, hsingle.mp (perform_ok.mp h)⟩
  · rintro ⟨hreads, hrun⟩
    rw [(plan_ok_iff_of_nonempty hk hne).mpr ⟨hreads, rfl⟩]
    exact perform_ok.mpr (hsingle.mpr hrun)

end Kernel

end Pointwise

/-- An elementwise kernel on a rectangle that is not empty. It runs to its end unless it would read a
destination that it may not read. Its plan is then one pass, and the record is a sweep with the same
step over the same leaves: whoever runs it, its function has been called exactly once for each point,
with what lay there before, and what it gave lies there now. -/
theorem each_point_once {δ ι : Type} (k : Pointwise δ ι) (f : ι → δ) {s : Store δ} {rect : Rect}
    {slice : Option Slice} {privilege : Privilege} {dest : Target}
    (hd : s.target rect slice privilege = .ok dest) (hk : k.SourcesCut rect)
    (hne : rect.isEmpty = false) (e : Executor) :
    ((∃ s', e.perform (k.plan dest f) s = .ok () s') ↔
        (k.readsDestination = true → privilege.grants .readWrite = true)) ∧
      ∀ s', e.perform (k.plan dest f) s = .ok () s' →
        (∀ other : Executor, other.perform (k.plan dest f) s = .ok () s') ∧
          (∃ pass, k.plan dest f = .ok [pass] ∧
            pass.run e = k.sweep e dest (fun _ x => pure (f x)) ∧
            k.recorded e dest f = k.sweep e dest (Pointwise.noting f)) ∧
          ∃ calls, k.recorded e dest f [] s = .ok ((), calls) s' ∧ calls.length = rect.volume ∧
            ∀ p, rect.containsPoint p = true → ∃ x, k.operands s dest p = .ok x ∧
              calls.filter (fun call => call.1 == dest.window.at p) = [(dest.window.at p, x)] ∧
              View.get ⟨s', dest.window⟩ p = .ok (f x) := by
  obtain ⟨rfl, rfl, hcut⟩ := isCut_of_target hd
  obtain ⟨t, calls, ps, hperm, hcalls, hrun, hrecorded, ht⟩ := Pointwise.run_kernel hcut hk e f
  refine ⟨⟨?_, ?_⟩, ?_⟩
  · rintro ⟨s', h⟩
    exact ((Pointwise.perform_iff hk hne).mp h).1
  · intro hreads
    exact ⟨t, (Pointwise.perform_iff hk hne).mpr ⟨hreads, hrun⟩⟩
  intro s' h
  obtain ⟨hreads, hrun'⟩ := (Pointwise.perform_iff hk hne).mp h
  obtain rfl : t = s' := by
    rw [hrun] at hrun'
    cases hrun'
    rfl
  refine ⟨?_, ⟨k.pass dest f, ?_, k.run_eq_sweep e dest f, k.recorded_eq_sweep e dest f⟩, calls,
    hrecorded, ?_, ?_⟩
  · intro other
    obtain ⟨u, _, _, _, _, hother, _, hu⟩ := Pointwise.run_kernel hcut hk other f
    rw [ht.unique hu]
    exact (Pointwise.perform_iff hk hne).mpr ⟨hreads, hother⟩
  · exact (Pointwise.plan_ok_iff_of_nonempty hk hne).mpr ⟨hreads, rfl⟩
  · rw [← hcalls.length_eq, hperm.length_eq, Rect.length_points]
  · intro p hp
    obtain ⟨x, hx, hvalue⟩ := ht.points p hp
    exact ⟨x, hx, Pointwise.filter_calls hcut hperm hcalls hp hx,
      (View.get_eq (v := ⟨t, dest.window⟩) hp).trans hvalue⟩

/-- The middle column of two rows of three, multiplied by a line, by four workers. -/
theorem each_point_once_column :
    let line : Rect := ⟨[⟨0, 1⟩], by decide, by decide⟩
    let rows : Rect := ⟨[⟨0, 1⟩, ⟨0, 2⟩], by decide, by decide⟩
    let s : Store UInt8 := ⟨rows, ⟨#[1, 2, 3, 4, 5, 6], rfl⟩⟩
    let t : Store UInt8 := ⟨line, ⟨#[10, 20], rfl⟩⟩
    let dest : Target := ⟨⟨line, 1, [3]⟩, .readWrite⟩
    let src : View UInt8 := ⟨t, ⟨line, 0, [1]⟩⟩
    let k : Pointwise UInt8 (UInt8 × UInt8) := .modifyWith src
    let f : UInt8 × UInt8 → UInt8 := fun x => x.1 * x.2
    let e : Executor := ⟨⟨.parallel, 0⟩, 4⟩
    s.target line (some ⟨1, 1⟩) .readWrite = .ok dest ∧ k.SourcesCut line ∧
      ∃ s' calls, e.perform (k.plan dest f) s = .ok () s' ∧
        k.recorded e dest f [] s = .ok ((), calls) s' ∧ calls.length = 2 ∧
        calls.filter (fun call => call.1 == 4) = [(4, (5, 20))] ∧
        View.get ⟨s', dest.window⟩ [1] = .ok 100 := by
  intro line rows s t dest src k f e
  have hd : s.target line (some ⟨1, 1⟩) .readWrite = .ok dest := rfl
  have hk : k.SourcesCut line := ⟨⟨line, none, rfl⟩, rfl⟩
  obtain ⟨hok, hruns⟩ := each_point_once k f hd hk (by decide) e
  obtain ⟨s', hperform⟩ := hok.mpr fun _ => rfl
  obtain ⟨_, _, calls, hrecorded, hlength, hpoints⟩ := hruns s' hperform
  obtain ⟨x, hx, hcall, hget⟩ := hpoints [1] (by decide)
  obtain rfl : x = (5, 20) := by
    have : k.operands s dest [1] = .ok (5, 20) := rfl
    rw [hx] at this
    exact Except.ok.inj this
  exact ⟨hd, hk, s', calls, hperform, hrecorded, hlength, hcall, hget⟩

end GridFold
