import GridFold.Proofs.FloatOrder
import GridFold.Proofs.Totals

/-!
# GridFold.Proofs.RowMajor

The total of a view is the fold of its elements in row-major order, for every lawful operator, however
the view is shared out and even if combining does not commute.
-/

namespace GridFold

/-- Every reduction of the integers and of `Bool` is lawful, and so are `max` and `min` where values
are compared as IEEE numbers are, whatever the payload of a NaN. -/
theorem total_rowMajor :
    (∀ (α : Type) [Element α] (op : Operator α), op.Lawful →
      ∀ (s : Store α) (rect : Rect) (slice : Option Slice) (src : View α),
        s.view rect slice = .ok src → src.rank ≤ maxTaskRank → ∀ e : Executor,
          ∃ xs, src.elements = .ok xs ∧
            e.total op src = .ok (xs.foldl op.combine op.identity)) ∧
    (∀ r : Reduction, (r.operator : Operator Bool).Lawful ∧
      (r.operator : Operator Int8).Lawful ∧ (r.operator : Operator Int16).Lawful ∧
      (r.operator : Operator Int32).Lawful ∧ (r.operator : Operator Int64).Lawful ∧
      (r.operator : Operator UInt8).Lawful ∧ (r.operator : Operator UInt16).Lawful ∧
      (r.operator : Operator UInt32).Lawful ∧ (r.operator : Operator UInt64).Lawful) ∧
    (∀ (α : Type) [Element α], Comparison α →
      (Operator.max : Operator α).Lawful ∧ (Operator.min : Operator α).Lawful) ∧
    Comparison Float ∧ Comparison Float32 ∧
    ∀ (spec : Float.Model.Format) (elementType : ElementType) (zero one : BitVec spec.numBits)
      (add mul : BitVec spec.numBits → BitVec spec.numBits → BitVec spec.numBits),
        @Comparison _ (.ofFormat spec elementType zero one add mul) := by
  refine ⟨?_, fun r => ⟨lawful_bool r, lawful_int8 r, lawful_int16 r, lawful_int32 r,
    lawful_int64 r, lawful_uint8 r, lawful_uint16 r, lawful_uint32 r, lawful_uint64 r⟩,
    fun _ _ h => ⟨lawful_max h, lawful_min h⟩, comparison_float, comparison_float32,
    comparison_ofFormat⟩
  intro α _ op hop s rect slice src hsrc hrank e
  exact total_eq hop (isCut_of_view hsrc).2.2 hrank e

/-- Two rows of three, summed up by two workers. -/
theorem total_rowMajor_rows :
    let rows : Rect := ⟨[⟨0, 1⟩, ⟨0, 2⟩], by decide, by decide⟩
    let s : Store UInt8 := ⟨rows, ⟨#[1, 2, 3, 4, 5, 6], rfl⟩⟩
    let src : View UInt8 := ⟨s, ⟨rows, 0, [3, 1]⟩⟩
    let e : Executor := ⟨⟨.parallel, 0⟩, 2⟩
    (Operator.sum : Operator UInt8).Lawful ∧ s.view rows none = .ok src ∧
      src.rank ≤ maxTaskRank ∧ e.parallelWorkers? src.rect.volume = some 2 ∧
      e.total .sum src = .ok 21 := by
  intro rows s src e
  have hop : (Operator.sum : Operator UInt8).Lawful := (total_rowMajor.2.1 .sum).2.2.2.2.2.1
  have hs : s.view rows none = .ok src := rfl
  have hrank : src.rank ≤ maxTaskRank := by decide
  obtain ⟨xs, hxs, htotal⟩ := total_rowMajor.1 UInt8 _ hop s rows none src hs hrank e
  have helements : src.elements = .ok [1, 2, 3, 4, 5, 6] := rfl
  obtain rfl : xs = [1, 2, 3, 4, 5, 6] := Except.ok.inj (hxs.symm.trans helements)
  exact ⟨hop, hs, hrank, by decide, htotal⟩

end GridFold
