import GridFold.Proofs.AxisFold
import GridFold.Proofs.Totals

/-!
# GridFold.Proofs.Orders

The leaves of a kernel may be taken in any order: no two of them share an element of the destination
or of the scratch, so the stores and the scalar come out as if they were taken from left to right.
-/

namespace GridFold

variable {α : Type}

/-- On scratches of this size the fold succeeds, what it does to the element at `i` is decided by that
element, and it leaves all others alone. -/
def Total.ConfinedTo (fold : Array α → Except Trap (Array α)) (size i : Nat) : Prop :=
  ∀ a b : Array α, a.size = size → b.size = size → a[i]? = b[i]? →
    ∃ a' b', fold a = .ok a' ∧ fold b = .ok b' ∧ a'[i]? = b'[i]? ∧
      ∀ j, j ≠ i → a'[j]? = a[j]? ∧ b'[j]? = b[j]?

variable [Element α]

theorem Total.confined_foldLeaf {op : Operator α} {src : View α} {minLength workers : Nat}
    (hw : 0 < workers) (hv : src.IsCut) {leaf : Leaf 2}
    (hleaf : leaf ∈ parallelLeaves minLength workers src) :
    ConfinedTo (foldLeaf op src · leaf) (spacing α * workers) (cell α leaf.slot) := by
  intro a b ha hb hab
  obtain ⟨a', hruna, _, hgeta⟩ := foldLeaf_cell op hw hv hleaf ha
  obtain ⟨b', hrunb, _, hgetb⟩ := foldLeaf_cell op hw hv hleaf hb
  refine ⟨a', b', hruna, hrunb, ?_, ?_⟩
  · rw [hgeta, hgetb, if_pos rfl, if_pos rfl, hab]
  · intro j hj
    rw [hgeta, hgetb, if_neg hj, if_neg hj]
    exact ⟨rfl, rfl⟩

/-- Every leaf of a kernel's pass is confined to elements that no other leaf meets, and every leaf of
a total to a scratch element of its own; so whatever the order of the leaves, the store and the
scalar are those of the run from left to right. -/
theorem leaves_any_order {s : Store α} {plan : Plan α} (hplan : KernelPlan s plan) (e : Executor)
    (op : Operator α) {src : View α} (hv : src.IsCut) :
    (∀ p ∈ plan,
      ((e.schedule p.axes p.origin).Pairwise fun l m => ∀ j, ¬(Pass.cells l j ∧ Pass.cells m j)) ∧
      (∀ leaf ∈ e.schedule p.axes p.origin,
        (p.runLeaf leaf).ConfinedTo s.bounds (Pass.cells leaf)) ∧
      ∀ (t : Store α) (order : List (Leaf (p.sources + 1))), t.bounds = s.bounds →
        order.Perm (e.schedule p.axes p.origin) → p.runLeaves order t = p.run e t) ∧
    (∃ s', e.perform (.ok plan) s = .ok () s' ∧
      ∀ order : (p : Pass α) → List (Leaf (p.sources + 1)),
        (∀ p ∈ plan, (order p).Perm (e.schedule p.axes p.origin)) →
          plan.forM (fun p => p.runLeaves (order p)) s = .ok () s') ∧
    ∀ workers leaves, e.parallelWorkers? src.rect.volume = some workers →
      leaves = Total.parallelLeaves e.policy.minParallelLength workers src →
        (leaves.Pairwise fun l m => Total.cell α l.slot ≠ Total.cell α m.slot) ∧
        (∀ leaf ∈ leaves, Total.cell α leaf.slot < (Total.emptyScratch op workers).size ∧
          Total.ConfinedTo (Total.foldLeaf op src · leaf) (Total.emptyScratch op workers).size
            (Total.cell α leaf.slot)) ∧
        ∃ value, (src.rank ≤ maxTaskRank → e.total op src = .ok value) ∧
          ∀ order : List (Leaf 2), order.Perm leaves →
            (Total.foldLeaves op src order (Total.emptyScratch op workers)).map
              (Total.merge op workers) = .ok value := by
  refine ⟨?_, ?_, ?_⟩
  · intro p hp
    obtain ⟨step, hacts⟩ := hplan.actsBy p hp
    exact ⟨Pass.disjoint_cells hacts e, fun leaf hleaf => Pass.confined_runLeaf hacts hleaf,
      fun t order ht horder => Pass.runLeaves_perm hacts horder t ht⟩
  · obtain ⟨s', _, hrun⟩ := forM_runLeaves hplan.actsBy s rfl
    exact ⟨s', perform_ok.mpr (hrun e (fun p => e.schedule p.axes p.origin) fun _ _ => .refl _),
      hrun e⟩
  · rintro workers leaves hw rfl
    have hpos : 0 < workers := by
      have := (Executor.parallelWorkers?_some hw).1
      omega
    have hsize := Total.size_emptyScratch op workers
    rw [hsize]
    refine ⟨Total.cells_parallelLeaves hpos src, ?_, ?_⟩
    · intro leaf hleaf
      obtain ⟨hslot, hle⟩ := (Total.mem_parallelLeaves hpos hleaf).1
      exact ⟨Total.cell_lt hle hslot, Total.confined_foldLeaf hpos hv hleaf⟩
    · obtain ⟨scratch, hrun, _⟩ := Total.foldLeaves_element op hpos hv (.refl _) hsize
      refine ⟨Total.merge op workers scratch, ?_, ?_⟩
      · intro hrank
        refine total_shared hrank hw ?_
        rw [Total.parallel, hrun]
      · intro order horder
        rw [Total.foldLeaves_perm hpos hv horder hsize, hrun]
        rfl

/-- Two rows of three, summed up by two workers that finish in the wrong order. -/
theorem leaves_any_order_rows :
    let line : Rect := ⟨[⟨0, 1⟩], by decide, by decide⟩
    let rows : Rect := ⟨[⟨0, 1⟩, ⟨0, 2⟩], by decide, by decide⟩
    let s : Store UInt8 := .filled line 0
    let t : Store UInt8 := ⟨rows, ⟨#[1, 2, 3, 4, 5, 6], rfl⟩⟩
    let dest : Target := ⟨⟨line, 0, [1]⟩, .readWrite⟩
    let src : View UInt8 := ⟨t, ⟨rows, 0, [3, 1]⟩⟩
    let e : Executor := ⟨⟨.parallel, 0⟩, 2⟩
    s.target line none .readWrite = .ok dest ∧ t.view rows none = .ok src ∧
      e.parallelWorkers? src.rect.volume = some 2 ∧
      ∃ plan s' value, Plan.collapse .sum dest src 1 none = .ok plan ∧
        e.perform (.ok plan) s = .ok () s' ∧
        plan.forM (fun p => p.runLeaves (e.schedule p.axes p.origin).reverse) s = .ok () s' ∧
        e.total .sum src = .ok value ∧
        (Total.foldLeaves .sum src (Total.parallelLeaves 0 2 src).reverse
          (Total.emptyScratch .sum 2)).map (Total.merge .sum 2) = .ok value := by
  intro line rows s t dest src e
  have hd : s.target line none .readWrite = .ok dest := rfl
  have hs : t.view rows none = .ok src := rfl
  have hw : e.parallelWorkers? src.rect.volume = some 2 := by decide
  obtain ⟨plan, hplan⟩ : ∃ plan, Plan.collapse (.sum : Operator UInt8) dest src 1 none = .ok plan :=
    ⟨_, rfl⟩
  have hcut := (isCut_of_view hs).2.2
  obtain ⟨_, ⟨s', hperform, horder⟩, htotal⟩ := leaves_any_order
    (.collapse (isCut_of_target hd).2.2 hcut hplan) e (.sum : Operator UInt8) hcut
  obtain ⟨_, _, value, hvalue, hany⟩ := htotal 2 _ hw rfl
  exact ⟨hd, hs, hw, plan, s', value, hplan, hperform,
    horder _ fun p _ => List.reverse_perm _, hvalue (by decide), hany _ (List.reverse_perm _)⟩

end GridFold
