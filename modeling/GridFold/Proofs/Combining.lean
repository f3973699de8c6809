import GridFold.Proofs.Contents
import GridFold.Proofs.Pieces
import GridFold.Proofs.Pointwise

/-!
# GridFold.Proofs.Combining

The ways to combine two arrays: in place, into a fresh output, element by element as futures, and with
a scalar where one of them is the same everywhere.

* `Pointwise.exists_performed` — what an elementwise kernel leaves in the store, whoever runs it.
* `Operands` — two arrays, a fresh output and the arguments that name their rectangle.
* `Operands.Combined` — a store holds the combined elements, the left one as the left operand.
  `exists_inPlace`, … , `exists_scalarFresh` show it for each launch.
* `combinings_agree` — the main result.
-/

namespace GridFold

open Wire

variable {α : Type}

/-! ## Elementwise kernels on a store -/

/-- Every executor leaves the same store, with the function of what lay at a point at that point. An
empty rectangle is left alone. -/
theorem Pointwise.exists_performed {ι : Type} (k : Pointwise α ι) (f : ι → α) {s : Store α}
    {rect : Rect} {slice : Option Slice} {privilege : Privilege} {dest : Target}
    (hd : s.target rect slice privilege = .ok dest) (hk : k.SourcesCut rect)
    (hreads : k.readsDestination = true → privilege.grants .readWrite = true) :
    ∃ s', (∀ e : Executor, e.perform (k.plan dest f) s = .ok () s') ∧
      (rect.isEmpty = true → s' = s) ∧
      ∀ p, rect.containsPoint p = true → ∃ x, k.operands s dest p = .ok x ∧
        s'.get (p.placed slice) = .ok (f x) := by
  obtain ⟨rfl, rfl, hcut⟩ := isCut_of_target hd
  cases hempty : dest.rect.isEmpty with
  | true =>
    have hplan : k.plan dest f = .ok [] :=
      (plan_ok_iff hk).mpr (by rw [SinglePass, if_pos (by exact hempty)])
    refine ⟨s, fun e => by rw [hplan]; exact perform_ok.mpr rfl, fun _ => rfl, ?_⟩
    intro p hp
    rw [Rect.isEmpty_iff.mp hempty] at hp
    cases hp
  | false =>
    -- One executor's store will do: what is written does not depend on who writes it.
    obtain ⟨t, _, _, _, _, _, _, ht⟩ := run_kernel hcut hk ⟨⟨.serial, 0⟩, 1⟩ f
    refine ⟨t, ?_, Bool.noConfusion, ?_⟩
    · intro e
      obtain ⟨u, _, _, _, _, hrun, _, hu⟩ := run_kernel hcut hk e f
      rw [ht.unique hu]
      exact (perform_iff hk hempty).mpr ⟨hreads, hrun⟩
    · intro p hp
      obtain ⟨x, hx, hvalue⟩ := ht.points p hp
      refine ⟨x, hx, ?_⟩
      rw [← get_placed (target_ok_iff.mp hd).2.2 ht.bounds hp]
      exact (View.get_eq (v := ⟨t, dest.window⟩) hp).trans hvalue

/-! ## Operands -/

namespace Region

def LetsRead (s : Store α) : Region α → Prop
  | readOnly t | readWrite t => t = s
  | writeDiscard _ | absent => False

def LetsWrite (s : Store α) : Region α → Prop
  | writeDiscard t | readWrite t => t = s
  | readOnly _ | absent => False

variable {r : Region α} {s : Store α} {rect : Rect} {slice : Option Slice}

theorem LetsRead.exists_input (h : r.LetsRead s) (hadmits : s.Admits rect slice) (index : Nat) :
    ∃ v, r.input index rect slice = .ok v ∧ s.view rect slice = .ok v := by
  cases r with
  | readOnly t | readWrite t =>
    obtain rfl : t = s := h
    obtain ⟨v, hv⟩ := exists_view.mpr hadmits
    exact ⟨v, input_ok_iff.mpr ⟨t, _, rfl, rfl, hv⟩, hv⟩
  | writeDiscard _ | absent => exact h.elim

theorem LetsWrite.exists_output (h : r.LetsWrite s) (hadmits : s.Admits rect slice) (index : Nat) :
    ∃ privilege dest, r.binding? = some (s, privilege) ∧
      r.output index rect slice .writeDiscard = .ok dest ∧
      s.target rect slice privilege = .ok dest := by
  have hbound : ∀ privilege : Privilege, privilege.canWrite = true →
      r.binding? = some (s, privilege) →
        ∃ dest, r.output index rect slice .writeDiscard = .ok dest ∧
          s.target rect slice privilege = .ok dest := by
    intro privilege hwrite hbinding
    obtain ⟨dest, hdest⟩ := exists_target.mpr ⟨hwrite, hadmits⟩
    exact ⟨dest, output_ok_iff.mpr ⟨s, privilege, hbinding, hwrite, hdest⟩, hdest⟩
  cases r with
  | writeDiscard t | readWrite t =>
    obtain rfl : t = s := h
    obtain ⟨dest, hdest⟩ := hbound _ rfl rfl
    exact ⟨_, dest, rfl, hdest⟩
  | readOnly _ | absent => exact h.elim

end Region

theorem Store.admits_of_contains {s : Store α} {rect : Rect} (h : s.bounds.contains rect = true) :
    s.Admits rect none := by
  obtain ⟨hrank, hin⟩ := Rect.contains_iff.mp h
  exact ⟨hrank.symm, hin⟩

theorem View.get_cut {s : Store α} {rect : Rect} {slice : Option Slice} {v : View α}
    (h : s.view rect slice = .ok v) {p : Point} (hp : rect.containsPoint p = true) :
    v.get p = s.get (p.placed slice) := by
  obtain ⟨hw, rfl⟩ := view_ok_iff.mp h
  exact get_placed hw rfl hp

/-- Two arrays whose bounds contain a rectangle, a fresh output whose bounds do, and argument bytes
that name the rectangle. Each array is bound for reading, and the output for writing. -/
structure Operands (α : Type) where
  args : List UInt8
  rect : Rect
  decodes : ShapeArgs.decode args = .ok ⟨rect⟩
  lhs : Store α
  rhs : Store α
  fresh : Store α
  lhs_contains : lhs.bounds.contains rect = true
  rhs_contains : rhs.bounds.contains rect = true
  fresh_contains : fresh.bounds.contains rect = true
  left : Region α
  right : Region α
  out : Region α
  left_reads : left.LetsRead lhs
  right_reads : right.LetsRead rhs
  out_writes : out.LetsWrite fresh

/-- A launch without regions returns `c` for futures with these values, whatever the argument bytes and
the launch point, and whoever runs it. -/
def Launch.Returns [Element α] (op : Operator α) (kind : TaskKind) (values : List α) (c : α) : Prop :=
  ∀ (e : Executor) (ctx : TaskContext α), ctx.regions = [] → ctx.futures.map Future.value = values →
    (Launch.body op e kind).scalar? ctx = some c

namespace Operands

variable [Element α] {w : Operands α} {op : Operator α}

/-- A launch on the rectangle, with these regions and futures with these values, leaves `s` in region 0,
whatever the launch point and whoever runs it. -/
def Leaves (w : Operands α) (op : Operator α) (kind : TaskKind) (regions : List (Region α))
    (values : List α) (s : Store α) : Prop :=
  ∀ (e : Executor) (ctx : TaskContext α), ctx.args = w.args → ctx.regions = regions →
    ctx.futures.map Future.value = values → (Launch.body op e kind).output? ctx = some s

omit [Element α] in
def Combined (w : Operands α) (op : Operator α) (s : Store α) : Prop :=
  ∀ p, w.rect.containsPoint p = true → ∃ a b, w.lhs.get p = .ok a ∧ w.rhs.get p = .ok b ∧
    s.get p = .ok (op.combine a b)

omit [Element α] in
theorem Combined.eq {s t : Store α} (hs : w.Combined op s) (ht : w.Combined op t) {p : Point}
    (hp : w.rect.containsPoint p = true) : s.get p = t.get p := by
  obtain ⟨a, b, ha, hb, hsp⟩ := hs p hp
  obtain ⟨a', b', ha', hb', htp⟩ := ht p hp
  cases ha.symm.trans ha'
  cases hb.symm.trans hb'
  exact hsp.trans htp.symm

/-! ## The launches -/

/-- A launch that runs a plan on region 0, after its futures have been read and unless the rectangle is
empty, leaves what the plan leaves there. -/
theorem leaves_of_plan {kind : TaskKind} (x : Executor → Launch α Unit)
    (hbody : ∀ e, Launch.body op e kind = x e >>= fun _ => pure .done)
    (read : TaskContext α → TaskContext α) (hread : ∀ ctx, (read ctx).regions = ctx.regions)
    {out : Region α} {inputs : List (Region α)} {values : List α} {s s' : Store α}
    {privilege : Privilege} (hbinding : out.binding? = some (s, privilege))
    {plan : Except GridError (Plan α)} (hplan : ∀ e : Executor, e.perform plan s = .ok () s')
    (hempty : w.rect.isEmpty = true → s' = s)
    (hruns : ∀ (e : Executor) (ctx ctx' : TaskContext α), ctx.args = w.args →
      ctx.regions = out :: inputs → ctx.futures.map Future.value = values →
        (w.rect.isEmpty = true → ctx = ctx') →
        (¬ w.rect.isEmpty = true → Launch.onOutput (e.perform plan) (read ctx) = .ok () ctx') →
          x e ctx = .ok () ctx') :
    w.Leaves op kind (out :: inputs) values s' := by
  intro e ctx hargs hregions hvalues
  -- On an empty rectangle the launch returns before it looks at a region, and the plan would change
  -- nothing.
  obtain ⟨ctx', hregions', hsame, hkernel⟩ : ∃ ctx' : TaskContext α,
      ctx'.regions = out.withStore s' :: inputs ∧ (w.rect.isEmpty = true → ctx = ctx') ∧
        (¬ w.rect.isEmpty = true →
          Launch.onOutput (e.perform plan) (read ctx) = .ok () ctx') := by
    by_cases h : w.rect.isEmpty = true
    · refine ⟨ctx, ?_, fun _ => rfl, fun hne => absurd h hne⟩
      rw [hregions, hempty h, Region.withStore_self hbinding]
    · exact ⟨_, rfl, fun h' => absurd h' h, fun _ => Launch.onOutput_ok_iff.mpr
        ⟨out, inputs, s, privilege, s', (hread ctx).trans hregions, hbinding, hplan e, rfl⟩⟩
  refine Launch.output?_eq (b := .done) ?_ hregions' hbinding
  rw [hbody, run_bind_eq_ok]
  exact ⟨(), ctx', hruns e ctx ctx' hargs hregions hvalues hsame hkernel, rfl⟩

section Operands

omit [Element α]

theorem exists_copy (w : Operands α) :
    ∃ dest, (Region.readWrite w.lhs).output 0 w.rect none .readWrite = .ok dest ∧
      w.lhs.target w.rect none .readWrite = .ok dest := by
  obtain ⟨dest, hdest⟩ : ∃ dest, w.lhs.target w.rect none .readWrite = .ok dest :=
    exists_target.mpr ⟨rfl, Store.admits_of_contains w.lhs_contains⟩
  exact ⟨dest, Region.output_ok_iff.mpr ⟨w.lhs, _, rfl, rfl, hdest⟩, hdest⟩

theorem exists_output (w : Operands α) :
    ∃ privilege dest, w.out.binding? = some (w.fresh, privilege) ∧
      w.out.output 0 w.rect none .writeDiscard = .ok dest ∧
      w.fresh.target w.rect none privilege = .ok dest :=
  w.out_writes.exists_output (Store.admits_of_contains w.fresh_contains) 0

theorem exists_left (w : Operands α) (index : Nat) :
    ∃ a, w.left.input index w.rect none = .ok a ∧ w.lhs.view w.rect none = .ok a :=
  w.left_reads.exists_input (Store.admits_of_contains w.lhs_contains) index

theorem exists_right (w : Operands α) (index : Nat) :
    ∃ b, w.right.input index w.rect none = .ok b ∧ w.rhs.view w.rect none = .ok b :=
  w.right_reads.exists_input (Store.admits_of_contains w.rhs_contains) index

end Operands

theorem exists_inPlace (w : Operands α) (op : Operator α) :
    ∃ s, w.Leaves op .combine [.readWrite w.lhs, w.right] [] s ∧ w.Combined op s := by
  obtain ⟨dest, hout, hdest⟩ := w.exists_copy
  obtain ⟨b, hb, hbview⟩ := w.exists_right 1
  obtain ⟨s, hperform, hempty, hpoints⟩ := Pointwise.exists_performed (.modifyWith b)
    (fun x => op.fold .exclusive x.1 x.2) hdest (isCut_of_view hbview).2.symm fun _ => rfl
  refine ⟨s, leaves_of_plan (Launch.combine op) (fun _ => rfl) id (fun _ => rfl) rfl hperform hempty
    ?_, ?_⟩
  · intro e ctx ctx' hargs hregions hvalues hsame hkernel
    refine Launch.combine_ok_iff.mpr ⟨⟨w.rect⟩, by rw [hargs]; exact w.decodes,
      List.map_eq_nil_iff.mp hvalues, .inl ⟨_, _, hregions, ?_⟩⟩
    split
    · exact hsame ‹_›
    · exact ⟨dest, hout, b, hb, hkernel ‹_›⟩
  · intro p hp
    obtain ⟨x, hx, hget⟩ := hpoints p hp
    obtain ⟨old, hold, hx⟩ := bind_eq_ok.mp hx
    obtain ⟨value, hvalue, hx⟩ := bind_eq_ok.mp hx
    cases hx
    rw [get_placed (target_ok_iff.mp hdest).2.2 rfl hp] at hold
    rw [View.get_cut hbview hp] at hvalue
    exact ⟨old, value, hold, hvalue, hget⟩

theorem exists_fresh (w : Operands α) (op : Operator α) :
    ∃ s, w.Leaves op .combine [w.out, w.left, w.right] [] s ∧ w.Combined op s := by
  obtain ⟨privilege, dest, hbinding, hout, hdest⟩ := w.exists_output
  obtain ⟨a, ha, haview⟩ := w.exists_left 1
  obtain ⟨b, hb, hbview⟩ := w.exists_right 2
  obtain ⟨s, hperform, hempty, hpoints⟩ := Pointwise.exists_performed (.zip a b)
    (fun x => op.combine x.1 x.2) hdest
    ⟨(isCut_of_view haview).2.symm, (isCut_of_view hbview).2.symm⟩ nofun
  refine ⟨s, leaves_of_plan (Launch.combine op) (fun _ => rfl) id (fun _ => rfl) hbinding hperform
    hempty ?_, ?_⟩
  · intro e ctx ctx' hargs hregions hvalues hsame hkernel
    refine Launch.combine_ok_iff.mpr ⟨⟨w.rect⟩, by rw [hargs]; exact w.decodes,
      List.map_eq_nil_iff.mp hvalues, .inr ⟨_, _, _, hregions, ?_⟩⟩
    split
    · exact hsame ‹_›
    · exact ⟨dest, hout, a, ha, b, hb, hkernel ‹_›⟩
  · intro p hp
    obtain ⟨x, hx, hget⟩ := hpoints p hp
    obtain ⟨left, hleft, hx⟩ := bind_eq_ok.mp hx
    obtain ⟨right, hright, hx⟩ := bind_eq_ok.mp hx
    cases hx
    rw [View.get_cut haview hp] at hleft
    rw [View.get_cut hbview hp] at hright
    exact ⟨left, right, hleft, hright, hget⟩

/-- The right array holds the scalar on the whole rectangle. -/
def Uniform (w : Operands α) (scalar : α) : Prop :=
  ∀ p, w.rect.containsPoint p = true → w.rhs.get p = .ok scalar

theorem exists_scalarInPlace (w : Operands α) (op : Operator α) {scalar : α}
    (hscalar : w.Uniform scalar) :
    ∃ s, w.Leaves op .combineBroadcast [.readWrite w.lhs] [scalar] s ∧ w.Combined op s := by
  obtain ⟨dest, hout, hdest⟩ := w.exists_copy
  obtain ⟨s, hperform, hempty, hpoints⟩ := Pointwise.exists_performed .modify
    (fun old => op.fold .exclusive old scalar) hdest trivial fun _ => rfl
  refine ⟨s, leaves_of_plan (Launch.combineBroadcast op) (fun _ => rfl) TaskContext.consumed
    (fun _ => rfl) rfl hperform hempty ?_, ?_⟩
  · intro e ctx ctx' hargs hregions hvalues hsame hkernel
    obtain ⟨future, hfutures, rfl⟩ := List.map_eq_singleton_iff.mp hvalues
    refine Launch.combineBroadcast_ok_iff.mpr ⟨⟨w.rect⟩, by rw [hargs]; exact w.decodes,
      future, hfutures, .inl ⟨_, hregions, ?_⟩⟩
    split
    · exact hsame ‹_›
    · exact ⟨dest, hout, hkernel ‹_›⟩
  · intro p hp
    obtain ⟨old, hold, hget⟩ := hpoints p hp
    rw [Pointwise.operands, get_placed (target_ok_iff.mp hdest).2.2 rfl hp] at hold
    exact ⟨old, scalar, hold, hscalar p hp, hget⟩

theorem exists_scalarFresh (w : Operands α) (op : Operator α) {scalar : α}
    (hscalar : w.Uniform scalar) :
    ∃ s, w.Leaves op .combineBroadcast [w.out, w.left] [scalar] s ∧ w.Combined op s := by
  obtain ⟨privilege, dest, hbinding, hout, hdest⟩ := w.exists_output
  obtain ⟨a, ha, haview⟩ := w.exists_left 1
  obtain ⟨s, hperform, hempty, hpoints⟩ := Pointwise.exists_performed (.map a)
    (fun x => op.combine x scalar) hdest (isCut_of_view haview).2.symm nofun
  refine ⟨s, leaves_of_plan (Launch.combineBroadcast op) (fun _ => rfl) TaskContext.consumed
    (fun _ => rfl) hbinding hperform hempty ?_, ?_⟩
  · intro e ctx ctx' hargs hregions hvalues hsame hkernel
    obtain ⟨future, hfutures, rfl⟩ := List.map_eq_singleton_iff.mp hvalues
    refine Launch.combineBroadcast_ok_iff.mpr ⟨⟨w.rect⟩, by rw [hargs]; exact w.decodes,
      future, hfutures, .inr ⟨_, _, hregions, ?_⟩⟩
    split
    · exact hsame ‹_›
    · exact ⟨dest, hout, a, ha, hkernel ‹_›⟩
  · intro p hp
    obtain ⟨left, hleft, hget⟩ := hpoints p hp
    rw [Pointwise.operands, View.get_cut haview hp] at hleft
    exact ⟨left, scalar, hleft, hscalar p hp, hget⟩

end Operands

theorem Launch.scalarPair_run {ctx : TaskContext α} {a b : α} (hregions : ctx.regions = [])
    (hvalues : ctx.futures.map Future.value = [a, b]) :
    Launch.scalarPair ctx = .ok (a, b) ctx.consumed := by
  obtain ⟨first, second, hfutures⟩ := List.length_eq_two.mp
    (show ctx.futures.length = 2 by rw [← List.length_map Future.value, hvalues]; rfl)
  rw [hfutures] at hvalues
  cases hvalues
  exact Launch.scalarPair_ok_iff.mpr ⟨hregions, first, second, hfutures, rfl, rfl⟩

variable [Element α]

theorem Launch.returns_of_pair {op : Operator α} {kind : TaskKind} {f : α → α → α}
    (hbody : ∀ e : Executor, Launch.body op e kind =
      Launch.scalarPair >>= fun x => pure (.scalar (f x.1 x.2))) (a b : α) :
    Launch.Returns op kind [a, b] (f a b) := by
  intro e ctx hregions hvalues
  have hrun : Launch.body op e kind ctx = .ok (.scalar (f a b)) ctx.consumed := by
    rw [hbody]
    exact run_bind_eq_ok.mpr ⟨(a, b), _, Launch.scalarPair_run hregions hvalues, rfl⟩
  rw [Launch.scalar?, hrun]

/-! ## Main result -/

/-- Folding the right array into a copy of the left one leaves the elements that combining both into a
fresh output leaves. At each point it is the scalar that both scalar launches return for the two
elements, as futures in this order. Where the right array is the same scalar everywhere, it is also
what the launches leave that get the scalar as a future. -/
theorem combinings_agree (op : Operator α) (w : Operands α) :
    ∃ s t, w.Leaves op .combine [.readWrite w.lhs, w.right] [] s ∧
      w.Leaves op .combine [w.out, w.left, w.right] [] t ∧
      (∀ p, w.rect.containsPoint p = true → ∃ a b c, w.lhs.get p = .ok a ∧ w.rhs.get p = .ok b ∧
        s.get p = .ok c ∧ t.get p = .ok c ∧ Launch.Returns op .combineScalar [a, b] c ∧
          Launch.Returns op .reductionScalar [a, b] c) ∧
      ∀ scalar, w.Uniform scalar →
        ∃ u v, w.Leaves op .combineBroadcast [.readWrite w.lhs] [scalar] u ∧
          w.Leaves op .combineBroadcast [w.out, w.left] [scalar] v ∧
          ∀ p, w.rect.containsPoint p = true → u.get p = s.get p ∧ v.get p = s.get p := by
  obtain ⟨s, hs, hscombined⟩ := w.exists_inPlace op
  obtain ⟨t, ht, htcombined⟩ := w.exists_fresh op
  refine ⟨s, t, hs, ht, ?_, ?_⟩
  · intro p hp
    obtain ⟨a, b, ha, hb, hsp⟩ := hscombined p hp
    exact ⟨a, b, op.combine a b, ha, hb, hsp, (htcombined.eq hscombined hp).trans hsp,
      Launch.returns_of_pair (f := op.combine) (fun _ => rfl) a b,
      Launch.returns_of_pair (f := op.fold .exclusive) (fun _ => rfl) a b⟩
  · intro scalar hscalar
    obtain ⟨u, hu, hucombined⟩ := w.exists_scalarInPlace op hscalar
    obtain ⟨v, hv, hvcombined⟩ := w.exists_scalarFresh op hscalar
    exact ⟨u, v, hu, hv, fun p hp =>
      ⟨hucombined.eq hscombined hp, hvcombined.eq hscombined hp⟩⟩

/-- Two rows of a larger array, added to a right array that holds 200 on them and 1 around them; the
sums wrap. -/
theorem combinings_agree_rows :
    let rows : Rect := ⟨[⟨0, 1⟩, ⟨-1, 0⟩], by decide, by decide⟩
    let tall : Rect := ⟨[⟨-1, 1⟩, ⟨-1, 0⟩], by decide, by decide⟩
    let lhs : Store UInt8 := ⟨tall, ⟨#[0, 0, 10, 20, 60, 70], rfl⟩⟩
    let rhs : Store UInt8 := ⟨tall, ⟨#[1, 1, 200, 200, 200, 200], rfl⟩⟩
    ∃ w : Operands UInt8, w.rect = rows ∧ w.lhs = lhs ∧ w.rhs = rhs ∧ w.Uniform 200 ∧
      ∃ s t u v, w.Leaves .sum .combine [.readWrite lhs, .readOnly rhs] [] s ∧
        w.Leaves .sum .combine [w.out, .readOnly lhs, .readOnly rhs] [] t ∧
        w.Leaves .sum .combineBroadcast [.readWrite lhs] [200] u ∧
        w.Leaves .sum .combineBroadcast [w.out, .readOnly lhs] [200] v ∧
        s.get [1, -1] = .ok 4 ∧ t.get [1, -1] = .ok 4 ∧ u.get [1, -1] = .ok 4 ∧
        v.get [1, -1] = .ok 4 ∧ Launch.Returns .sum .combineScalar [(60 : UInt8), 200] 4 ∧
        Launch.Returns .sum .reductionScalar [(60 : UInt8), 200] 4 := by
  intro rows tall lhs rhs
  let w : Operands UInt8 :=
    { args := ShapeArgs.encode ⟨rows⟩, rect := rows, decodes := by decide +kernel
      lhs := lhs, rhs := rhs, fresh := .filled rows 9
      lhs_contains := by decide, rhs_contains := by decide, fresh_contains := by decide
      left := .readOnly lhs, right := .readOnly rhs, out := .writeDiscard (.filled rows 9)
      left_reads := rfl, right_reads := rfl, out_writes := rfl }
  have huniform : w.Uniform 200 := by
    intro p hp
    have hmem : p ∈ rows.points := Rect.mem_points.mpr hp
    have hpoints : rows.points = [[0, -1], [0, 0], [1, -1], [1, 0]] := rfl
    rw [hpoints] at hmem
    fin_cases hmem <;> rfl
  obtain ⟨s, t, hs, ht, hcells, hscalar⟩ := combinings_agree .sum w
  obtain ⟨u, v, hu, hv, hagree⟩ := hscalar 200 huniform
  obtain ⟨a, b, c, ha, hb, hsp, htp, hcombine, hreduction⟩ := hcells [1, -1] rfl
  obtain ⟨hup, hvp⟩ := hagree [1, -1] rfl
  obtain rfl : a = 60 := (Except.ok.inj ha).symm
  obtain rfl : b = 200 := (Except.ok.inj hb).symm
  have hreturned : (Launch.body .sum ⟨⟨.serial, 0⟩, 1⟩ .combineScalar).scalar?
      (⟨[], [], [⟨(60 : UInt8), false⟩, ⟨200, false⟩], []⟩ : TaskContext UInt8) = some c :=
    hcombine _ _ rfl rfl
  obtain rfl : c = 4 := (Option.some.inj hreturned).symm
  exact ⟨w, rfl, rfl, rfl, huniform, s, t, u, v, hs, ht, hu, hv, hsp, htp, hup.trans hsp,
    hvp.trans hsp, hcombine, hreduction⟩

end GridFold
