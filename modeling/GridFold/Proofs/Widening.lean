import GridFold.Proofs.Frame

/-!
# GridFold.Proofs.Widening

Getting and setting through windows, plain, sliced and widened.

* `Widens` — the chains of axes that can be put into a rectangle; `exists_broadcastAxes` says that a
  target can be widened along exactly these.
* `Point.narrowed` — a point of a widened rectangle without the coordinates put in.
* `Window.StandsOn` — the window shows at each point the element that the store has at the place of the
  point. Cutting a window brings it about, and widening keeps it (`StandsOn.broadcastAxis`).
* `Target.ActsOn` — so getting and setting through the target is getting and setting in the store.
* `windows_act_on_store` — the main result.
-/

namespace GridFold

variable {α : Type}

/-! ## Chains of axes -/

/-- The target after the axes have been put in, in their order. -/
def Target.broadcastAxes (t : Target) (axes : List (Nat × Span)) : Except GridError Target :=
  axes.foldlM (fun t a => t.broadcastAxis a.1 a.2) t

/-- Each axis goes in front of an axis there is, or behind all of them, and no rectangle on the way has
more axes than a store may have. -/
def Widens : Nat → List (Nat × Span) → Prop
  | _, [] => True
  | rank, (axis, _) :: axes => axis ≤ rank ∧ rank < maxStoreRank ∧ Widens (rank + 1) axes

/-- The point without its coordinates on the axes, the one put in last first. -/
def Point.narrowed (q : Point) (axes : List (Nat × Span)) : Point :=
  axes.foldr (fun a q => q.eraseIdx a.1) q

/-- The coordinates on the axes lie in their spans. -/
def Point.LiesAlong (q : Point) : List (Nat × Span) → Prop
  | [] => True
  | (axis, span) :: axes =>
    (∃ c, (q.narrowed axes)[axis]? = some c ∧ span.contains c = true) ∧ q.LiesAlong axes

theorem target_broadcastAxis_ok_iff {t t' : Target} {axis : Nat} {span : Span} :
    t.broadcastAxis axis span = .ok t' ↔
      t.window.broadcastAxis axis span = .ok t'.window ∧ t'.privilege = t.privilege := by
  unfold Target.broadcastAxis
  cases t.window.broadcastAxis axis span with
  | error cause => simp
  | ok w =>
    simp only [Except.ok.injEq]
    constructor
    · rintro rfl
      exact ⟨rfl, rfl⟩
    · rintro ⟨rfl, hp⟩
      rw [← hp]

theorem broadcastAxes_cons {t t' : Target} {axis : Nat} {span : Span} {axes : List (Nat × Span)} :
    t.broadcastAxes ((axis, span) :: axes) = .ok t' ↔
      ∃ u, t.broadcastAxis axis span = .ok u ∧ u.broadcastAxes axes = .ok t' := by
  simp only [Target.broadcastAxes, List.foldlM_cons, bind_eq_ok]

theorem rank_broadcastAxis {t t' : Target} {axis : Nat} {span : Span}
    (h : t.broadcastAxis axis span = .ok t') : t'.rank = t.rank + 1 := by
  obtain ⟨hw, _⟩ := target_broadcastAxis_ok_iff.mp h
  obtain ⟨haxis, hspans, _⟩ := Window.broadcastAxis_inv hw
  rw [Target.rank, Target.rect, Rect.rank, hspans]
  exact List.length_insertIdx_of_le_length haxis _

theorem exists_broadcastAxis {t : Target} {axis : Nat} {span : Span} :
    (∃ t', t.broadcastAxis axis span = .ok t') ↔ axis ≤ t.rank ∧ t.rank < maxStoreRank := by
  constructor
  · rintro ⟨t', h⟩
    obtain ⟨hw, _⟩ := target_broadcastAxis_ok_iff.mp h
    obtain ⟨haxis, _⟩ := Window.broadcastAxis_inv hw
    have hrank := rank_broadcastAxis h
    have hmax : t'.rank ≤ maxStoreRank := t'.rect.rank_le
    exact ⟨haxis, by omega⟩
  · rintro ⟨haxis, hrank⟩
    obtain ⟨full, hfull, _⟩ := Rect.insertAxis_ok (r := t.rect) haxis hrank span
    have hw : t.window.broadcastAxis axis span =
        .ok ⟨full, t.window.base, t.window.strides.insertIdx axis 0⟩ := by
      rw [Window.broadcastAxis, show t.window.rect = t.rect from rfl, hfull]
    exact ⟨⟨_, t.privilege⟩, target_broadcastAxis_ok_iff.mpr ⟨hw, rfl⟩⟩

theorem exists_broadcastAxes {t : Target} {axes : List (Nat × Span)} :
    (∃ t', t.broadcastAxes axes = .ok t') ↔ Widens t.rank axes := by
  induction axes generalizing t with
  | nil => exact ⟨fun _ => trivial, fun _ => ⟨t, rfl⟩⟩
  | cons a axes ih =>
    obtain ⟨axis, span⟩ := a
    have hstep : (∃ u, t.broadcastAxis axis span = .ok u) ∧ Widens (t.rank + 1) axes ↔
        Widens t.rank ((axis, span) :: axes) := by
      rw [exists_broadcastAxis, and_assoc]
      rfl
    rw [← hstep]
    constructor
    · rintro ⟨t', h⟩
      obtain ⟨u, hu, hrest⟩ := broadcastAxes_cons.mp h
      rw [← rank_broadcastAxis hu]
      exact ⟨⟨u, hu⟩, ih.mp ⟨t', hrest⟩⟩
    · rintro ⟨⟨u, hu⟩, hrest⟩
      rw [← rank_broadcastAxis hu] at hrest
      obtain ⟨t', ht'⟩ := ih.mpr hrest
      exact ⟨t', broadcastAxes_cons.mpr ⟨u, hu, ht'⟩⟩

theorem privilege_broadcastAxes {t t' : Target} {axes : List (Nat × Span)}
    (h : t.broadcastAxes axes = .ok t') : t'.privilege = t.privilege := by
  induction axes generalizing t with
  | nil =>
    cases h
    rfl
  | cons a axes ih =>
    obtain ⟨u, hu, hrest⟩ := broadcastAxes_cons.mp h
    rw [ih hrest, (target_broadcastAxis_ok_iff.mp hu).2]

/-- A point lies in a widened rectangle where its new coordinate does, and the others did before. -/
theorem containsPoint_broadcastAxis {w w' : Window} {axis : Nat} {span : Span}
    (h : w.broadcastAxis axis span = .ok w') {q : Point} :
    w'.rect.containsPoint q = true ↔ (∃ c, q[axis]? = some c ∧ span.contains c = true) ∧
      w.rect.containsPoint (q.eraseIdx axis) = true := by
  obtain ⟨haxis, hspans, _⟩ := Window.broadcastAxis_inv h
  have hsplit : ∀ (p : Point) (c : Int), w'.rect.containsPoint (p.insertIdx axis c) = true ↔
      span.contains c = true ∧ w.rect.containsPoint p = true := by
    intro p c
    rw [Rect.containsPoint, hspans]
    exact Rect.spansContain_insertIdx haxis span p c
  constructor
  · intro hq
    have hin := hq
    rw [Rect.containsPoint, hspans] at hq
    obtain ⟨c, p, rfl, hc, hp⟩ := Rect.exists_of_spansContain_insertIdx haxis hq
    have hle : axis ≤ p.length := by
      rw [Rect.length_of_spansContain hp]
      exact haxis
    rw [List.eraseIdx_insertIdx_self, List.getElem?_insertIdx_self, if_pos hle]
    exact ⟨⟨c, rfl, hc⟩, hp⟩
  · rintro ⟨⟨c, hget, hc⟩, hp⟩
    obtain ⟨hlt, rfl⟩ := List.getElem?_eq_some_iff.mp hget
    rw [← List.insertIdx_eraseIdx_getElem hlt]
    exact (hsplit _ _).mpr ⟨hc, hp⟩

theorem containsPoint_broadcastAxes {t t' : Target} {axes : List (Nat × Span)}
    (h : t.broadcastAxes axes = .ok t') {q : Point} :
    t'.rect.containsPoint q = true ↔
      q.LiesAlong axes ∧ t.rect.containsPoint (q.narrowed axes) = true := by
  induction axes generalizing t with
  | nil =>
    cases h
    simp [Point.LiesAlong, Point.narrowed]
  | cons a axes ih =>
    obtain ⟨axis, span⟩ := a
    obtain ⟨u, hu, hrest⟩ := broadcastAxes_cons.mp h
    have hstep := containsPoint_broadcastAxis (target_broadcastAxis_ok_iff.mp hu).1
      (q := q.narrowed axes)
    rw [ih hrest, Target.rect, hstep, Point.LiesAlong, and_assoc, and_left_comm]
    rfl

/-! ## What windows show -/

/-- The window shows at each point the element that a store with these bounds has at the place of the
point. -/
structure Window.StandsOn (w : Window) (bounds : Rect) (place : Point → Point) : Prop where
  strides : w.strides.length = w.rect.rank
  inside : ∀ q, w.rect.containsPoint q = true → bounds.containsPoint (place q) = true
  at_eq : ∀ q, w.rect.containsPoint q = true → w.at q = bounds.offset (place q)

theorem standsOn_window {s : Store α} {rect : Rect} {slice : Option Slice} {w : Window}
    (h : s.window rect slice = .ok w) : w.StandsOn s.bounds (·.placed slice) := by
  have hrect := window_rect h
  refine ⟨length_window h, ?_, ?_⟩
  · intro q hq
    rw [hrect] at hq
    exact (window_ok_iff.mp ⟨w, h⟩).2 q hq
  · intro q hq
    rw [hrect] at hq
    exact offset_placed h hq

theorem Window.StandsOn.broadcastAxis {w w' : Window} {bounds : Rect} {place : Point → Point}
    (hw : w.StandsOn bounds place) {axis : Nat} {span : Span}
    (h : w.broadcastAxis axis span = .ok w') :
    w'.StandsOn bounds fun q => place (q.eraseIdx axis) := by
  refine ⟨length_broadcastAxis hw.strides h, ?_, ?_⟩
  · intro q hq
    exact hw.inside _ ((containsPoint_broadcastAxis h).mp hq).2
  · intro q hq
    obtain ⟨⟨c, hget, _⟩, hp⟩ := (containsPoint_broadcastAxis h).mp hq
    obtain ⟨hlt, rfl⟩ := List.getElem?_eq_some_iff.mp hget
    rw [← hw.at_eq _ hp, ← at_broadcastAxis hw.strides h hp q[axis],
      List.insertIdx_eraseIdx_getElem hlt]

theorem Window.StandsOn.broadcastAxes {t t' : Target} {axes : List (Nat × Span)} {bounds : Rect}
    {place : Point → Point} (ht : t.window.StandsOn bounds place)
    (h : t.broadcastAxes axes = .ok t') :
    t'.window.StandsOn bounds fun q => place (q.narrowed axes) := by
  induction axes generalizing t place with
  | nil =>
    cases h
    exact ht
  | cons a axes ih =>
    obtain ⟨u, hu, hrest⟩ := broadcastAxes_cons.mp h
    exact ih (ht.broadcastAxis (target_broadcastAxis_ok_iff.mp hu).1) hrest

/-! ## Getting and setting -/

/-- Writing where the element of a point lies changes the element of that point alone. -/
theorem writeAt_offset {s : Store α} {p : Point} (h : s.bounds.containsPoint p = true) (value : α) :
    ∃ s', Edit.writeAt (s.bounds.offset p) value s = .ok () s' ∧ s'.get p = .ok value ∧
      s.SameBut s' (· = p) := by
  have hpos : 0 ≤ s.bounds.offset p ∧ s.bounds.offset p < Int.ofNat s.bounds.volume :=
    spanOffset_bounds h
  simp only [Int.ofNat_eq_natCast] at hpos
  obtain ⟨s', hrun, hbounds, helement⟩ := Edit.writeAt_inside (s := s) (i := s.bounds.offset p)
    ⟨hpos.1, by omega⟩ value
  refine ⟨s', hrun, ?_, hbounds, ?_⟩
  · rw [Store.get_inside (by rw [hbounds]; exact h), hbounds, helement, if_pos rfl]
  · intro q hq
    by_cases hin : s.bounds.containsPoint q = true
    · have hne : s.bounds.offset q ≠ s.bounds.offset p := fun heq => hq (Rect.offset_injective hin h heq)
      rw [Store.get_inside (by rw [hbounds]; exact hin), Store.get_inside hin, hbounds, helement,
        if_neg hne]
    · rw [Store.get_outside (by rw [hbounds]; exact hin), Store.get_outside hin, hbounds]

theorem exists_get {s : Store α} {p : Point} (h : s.bounds.containsPoint p = true) :
    ∃ a, s.get p = .ok a := by
  have hpos : 0 ≤ s.bounds.offset p ∧ s.bounds.offset p < Int.ofNat s.bounds.volume :=
    spanOffset_bounds h
  simp only [Int.ofNat_eq_natCast] at hpos
  rw [Store.get_inside h]
  exact Store.element_inside ⟨hpos.1, by omega⟩

theorem View.get_of_standsOn {v : View α} {place : Point → Point}
    (h : v.window.StandsOn v.store.bounds place) {q : Point} (hq : v.rect.containsPoint q = true) :
    v.get q = v.store.get (place q) := by
  rw [View.get_eq hq, Store.get_inside (h.inside q hq), h.at_eq q hq]
  rfl

theorem View.get_outside {v : View α} {q : Point} (hq : v.rect.containsPoint q = false) :
    v.get q = .error (.pointOutside q v.rect) := by
  have hw : v.window.rect.containsPoint q = false := hq
  simp only [View.get, Window.position, hw]
  rfl

/-- Where a point lies outside, neither getting nor setting goes through, and the store stays as it is. -/
def Target.Refuses (t : Target) (s : Store α) (q : Point) : Prop :=
  (∀ value, t.set q value s = .error (.pointOutside q t.rect) s) ∧
    t.get q s = .error (if t.privilege.canRead then .pointOutside q t.rect else .unreadable) s

/-- At a point of its rectangle the target gets and sets the element that the store has at the place of
the point, and no other. Outside it traps. -/
structure Target.ActsOn (t : Target) (s : Store α) (place : Point → Point) : Prop where
  get : ∀ q, t.rect.containsPoint q = true → ∃ a, s.get (place q) = .ok a ∧
    t.get q s = if t.privilege.canRead then .ok a s else .error .unreadable s
  view : ∀ v, t.asView s = .ok v → ∀ q, t.rect.containsPoint q = true →
    v.get q = s.get (place q)
  set : ∀ q, t.rect.containsPoint q = true → ∀ value, ∃ s', t.set q value s = .ok () s' ∧
    s'.get (place q) = .ok value ∧ s.SameBut s' (· = place q)
  outside : ∀ q, t.rect.containsPoint q = false → t.Refuses s q

section Steps

variable {t : Target} {q : Point} {s : Store α}

theorem position_inside (hq : t.rect.containsPoint q = true) :
    t.window.position q = .ok (t.window.at q) := if_pos hq

theorem position_outside (hq : t.rect.containsPoint q = false) :
    t.window.position q = .error (.pointOutside q t.rect) := by
  have hw : t.window.rect.containsPoint q = false := hq
  simp only [Window.position, hw]
  rfl

/-- What the privilege forbids is found out before the point is looked at. -/
theorem get_eq (t : Target) (q : Point) (s : Store α) :
    t.get q s = if t.privilege.canRead then
      (Edit.ofExcept (t.window.position q) >>= Edit.readAt) s else .error .unreadable s := by
  unfold Target.get
  cases t.privilege.canRead <;> rfl

theorem refuses_outside (hq : t.rect.containsPoint q = false) (s : Store α) : t.Refuses s q := by
  refine ⟨?_, ?_⟩
  · intro value
    rw [Target.set, position_outside hq]
    rfl
  · rw [get_eq, position_outside hq]
    cases t.privilege.canRead <;> rfl

theorem Window.StandsOn.actsOn {place : Point → Point} (h : t.window.StandsOn s.bounds place) :
    t.ActsOn s place := by
  refine ⟨?_, ?_, ?_, fun q hq => refuses_outside hq s⟩
  · intro q hq
    have hin := h.inside q hq
    obtain ⟨a, ha⟩ := exists_get hin
    refine ⟨a, ha, ?_⟩
    rw [Store.get_inside hin, ← h.at_eq q hq] at ha
    rw [get_eq, position_inside hq, Edit.ofExcept]
    simp only [bind, EStateM.bind, Edit.readAt, ha]
  · intro v hv q hq
    unfold Target.asView at hv
    split at hv
    · cases hv
      exact View.get_of_standsOn h hq
    · cases hv
  · intro q hq value
    obtain ⟨s', hrun, hget, hsame⟩ := writeAt_offset (h.inside q hq) value
    refine ⟨s', ?_, hget, hsame⟩
    rw [← hrun, ← h.at_eq q hq, Target.set, Edit.ofExcept_bind (position_inside hq)]

end Steps

/-- Setting at one point shows at another exactly if both have the same place. -/
theorem Target.ActsOn.get_set {t : Target} {s s' : Store α} {place : Point → Point}
    (h : t.ActsOn s place) (h' : t.ActsOn s' place) (hread : t.privilege.canRead = true)
    {q q' : Point} (hq : t.rect.containsPoint q = true) (hq' : t.rect.containsPoint q' = true)
    {value a : α} (hset : t.set q value s = .ok () s') (hget : t.get q' s = .ok a s) :
    t.get q' s' = .ok (if place q' = place q then value else a) s' := by
  obtain ⟨u, hrun, hvalue, hsame⟩ := h.set q hq value
  cases hrun.symm.trans hset
  obtain ⟨b, hb, hold⟩ := h.get q' hq'
  obtain ⟨c, hc, hnew⟩ := h'.get q' hq'
  rw [hread, if_pos rfl] at hold hnew
  cases hold.symm.trans hget
  rw [hnew]
  by_cases heq : place q' = place q
  · rw [heq, hvalue] at hc
    rw [if_pos heq, Except.ok.inj hc]
  · rw [hsame.get _ heq, hb] at hc
    rw [if_neg heq, Except.ok.inj hc]

/-! ## Main result -/

/-- Views and targets are made of exactly the rectangles that the store admits, targets for every
privilege but the one for reading only. At a point of its rectangle a view shows the element of the
placed point. A target can be widened along any chain of axes within the ranks of a store; widened or
not, it gets and sets the element of the point without the coordinates put in. So two points show the
same element exactly if they agree but for those coordinates. Outside of their rectangles views and
targets trap, and change nothing. -/
theorem windows_act_on_store {α : Type} (s : Store α) (rect : Rect) (slice : Option Slice) :
    ((∃ v, s.view rect slice = .ok v) ↔ s.Admits rect slice) ∧
    (∀ privilege, (∃ t, s.target rect slice privilege = .ok t) ↔
      privilege ≠ .readOnly ∧ s.Admits rect slice) ∧
    (∀ v, s.view rect slice = .ok v →
      (∀ p, rect.containsPoint p = true →
        ∃ a, s.get (p.placed slice) = .ok a ∧ v.get p = .ok a) ∧
      ∀ p, rect.containsPoint p = false → v.get p = .error (.pointOutside p rect)) ∧
    ∀ privilege t axes, s.target rect slice privilege = .ok t →
      ((∃ t', t.broadcastAxes axes = .ok t') ↔ Widens rect.rank axes) ∧
      ∀ t', t.broadcastAxes axes = .ok t' →
        t'.privilege = privilege ∧
        (∀ q, t'.rect.containsPoint q = true ↔
          q.LiesAlong axes ∧ rect.containsPoint (q.narrowed axes) = true) ∧
        ∀ s₁ : Store α, s₁.bounds = s.bounds →
          t'.ActsOn s₁ (fun q => (q.narrowed axes).placed slice) ∧
          ∀ q q' value a s₂, t'.rect.containsPoint q = true → t'.rect.containsPoint q' = true →
            t'.set q value s₁ = .ok () s₂ → t'.get q' s₁ = .ok a s₁ →
            t'.get q' s₂ = .ok (if q'.narrowed axes = q.narrowed axes then value else a) s₂ := by
  refine ⟨exists_view, ?_, ?_, ?_⟩
  · intro privilege
    rw [exists_target]
    cases privilege <;> simp [Privilege.canWrite]
  · intro v hv
    obtain ⟨hw, rfl⟩ := view_ok_iff.mp hv
    have hrect : v.rect = rect := window_rect hw
    have hstands := standsOn_window hw
    refine ⟨?_, ?_⟩
    · intro p hp
      obtain ⟨a, ha⟩ := exists_get (hstands.inside p (by rw [window_rect hw]; exact hp))
      exact ⟨a, ha, by rw [View.get_of_standsOn hstands (by rw [hrect]; exact hp), ha]⟩
    · intro p hp
      rw [View.get_outside (by rw [hrect]; exact hp), hrect]
  · intro privilege t axes ht
    obtain ⟨hprivilege, hrect, _⟩ := isCut_of_target ht
    obtain ⟨_, _, hw⟩ := target_ok_iff.mp ht
    refine ⟨by rw [exists_broadcastAxes, Target.rank, hrect], ?_⟩
    intro t' ht'
    refine ⟨(privilege_broadcastAxes ht').trans hprivilege, ?_, ?_⟩
    · intro q
      rw [containsPoint_broadcastAxes ht', hrect]
    · have hacts : ∀ s₁ : Store α, s₁.bounds = s.bounds →
          t'.ActsOn s₁ fun q => (q.narrowed axes).placed slice := by
        intro s₁ hb
        apply Window.StandsOn.actsOn
        rw [hb]
        exact (standsOn_window hw).broadcastAxes ht'
      intro s₁ hb
      refine ⟨hacts s₁ hb, ?_⟩
      intro q q' value a s₂ hq hq' hset hget
      obtain ⟨u, hrun, _, hsame⟩ := (hacts s₁ hb).set q hq value
      cases hrun.symm.trans hset
      have hread : t'.privilege.canRead = true := by
        obtain ⟨b, _, hb'⟩ := (hacts s₁ hb).get q' hq'
        rw [hget] at hb'
        split at hb'
        · assumption
        · cases hb'
      rw [(hacts s₁ hb).get_set (hacts s₂ (hsame.bounds.trans hb)) hread hq hq' hset hget]
      have hplace : (q'.narrowed axes).placed slice = (q.narrowed axes).placed slice ↔
          q'.narrowed axes = q.narrowed axes := ⟨placed_injective, fun h => by rw [h]⟩
      simp only [hplace]

/-- The end of a row of a store with a negative corner, widened in front of its axis and behind it. -/
theorem windows_act_on_store_row :
    let s : Store UInt8 := ⟨⟨[⟨-1, 0⟩, ⟨0, 2⟩], by decide, by decide⟩, ⟨#[1, 2, 3, 4, 5, 6], rfl⟩⟩
    let rect : Rect := ⟨[⟨1, 2⟩], by decide, by decide⟩
    let slice : Option Slice := some ⟨0, 0⟩
    let axes : List (Nat × Span) := [(0, ⟨-1, 0⟩), (2, ⟨5, 6⟩)]
    let t : Target := ⟨⟨rect, 4, [1]⟩, .readWrite⟩
    let wide : Target :=
      ⟨⟨⟨[⟨-1, 0⟩, ⟨1, 2⟩, ⟨5, 6⟩], by decide, by decide⟩, 4, [0, 1, 0]⟩, .readWrite⟩
    s.view rect slice = .ok ⟨s, t.window⟩ ∧ s.target rect slice .readWrite = .ok t ∧
    (∃ a, s.get [0, 2] = .ok a ∧ View.get ⟨s, t.window⟩ [2] = .ok a) ∧
    t.broadcastAxes axes = .ok wide ∧ Widens 1 axes ∧
    ∃ s', wide.set [-1, 2, 5] 9 s = .ok () s' ∧ wide.get [0, 2, 6] s' = .ok 9 s' ∧
      wide.get [0, 1, 6] s' = .ok 5 s' := by
  intro s rect slice axes t wide
  obtain ⟨_, _, hview, htarget⟩ := windows_act_on_store s rect slice
  have hv : s.view rect slice = .ok ⟨s, t.window⟩ := rfl
  have ht : s.target rect slice .readWrite = .ok t := rfl
  have hwide : t.broadcastAxes axes = .ok wide := rfl
  obtain ⟨hwidens, hacts⟩ := htarget .readWrite t axes ht
  obtain ⟨_, _, hacts⟩ := hacts wide hwide
  obtain ⟨hat, halias⟩ := hacts s rfl
  obtain ⟨s', hset, _⟩ := hat.set [-1, 2, 5] (by decide) 9
  exact ⟨hv, ht, (hview _ hv).1 [2] (by decide), hwide, hwidens.mp ⟨wide, hwide⟩, s', hset,
    halias _ [0, 2, 6] 9 6 s' (by decide) (by decide) hset rfl,
    halias _ [0, 1, 6] 9 5 s' (by decide) (by decide) hset rfl⟩

end GridFold
