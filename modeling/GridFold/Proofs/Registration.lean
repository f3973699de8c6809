import GridFold.Proofs.Outcomes
import GridFold.Task.Registry

/-!
# GridFold.Proofs.Registration

What a registry holds after a row of requests.

* `RegistryRequest.pairs` — the pairs of a reduction and an element type that a request asks for. The
  defaults are every pair in the order of the codes (`defaults_listAll`).
* `FirstRepeat` — the first pair of a list that stands there a second time.
* `Builds` — how the building of a registry has come out so far: it holds the tasks of the pairs, in
  their order, or a pair was asked for again and building has stopped there. One registration keeps
  this (`builds_register`), and so does a whole row of requests (`builds_requests`).
* `registry_of_requests` — the main result.
-/

namespace GridFold

/-! ## What is asked for -/

/-- The pairs that a request asks for, in their order. -/
def RegistryRequest.pairs : RegistryRequest → List (Reduction × ElementType)
  | .policy _ => []
  | .register reduction elementType => [(reduction, elementType)]
  | .registerDefaults => Registry.allPairs

def RegistryRequest.policy? : RegistryRequest → Option Policy
  | .policy asked => some asked
  | .register _ _ | .registerDefaults => none

def pairsOf (requests : List RegistryRequest) : List (Reduction × ElementType) :=
  requests.flatMap RegistryRequest.pairs

/-- The policy that a row of requests asks for last. -/
def policyOf (requests : List RegistryRequest) : Policy :=
  (requests.filterMap RegistryRequest.policy?).getLastD .standard

/-- Each of the 44 pairs once: the reductions in the order of their operation codes, and the element
types of each in the order of theirs. -/
structure ListsAll (ps : List (Reduction × ElementType)) : Prop where
  length : ps.length = 44
  mem : ∀ reduction elementType, (reduction, elementType) ∈ ps
  ordered : ps.Pairwise fun p q =>
    OpCode.base p.1 < OpCode.base q.1 ∨ p.1 = q.1 ∧ p.2.code < q.2.code

theorem defaults_listAll : ListsAll (pairsOf [.registerDefaults]) := by
  refine ⟨by decide, ?_, by decide⟩
  intro reduction elementType
  cases reduction <;> cases elementType <;> decide

def pairTasks (p : Reduction × ElementType) : List TaskDescriptor :=
  TaskKind.all.map fun kind => .of p.1 kind p.2

/-- The pair stands a second time in the list, and up to there no pair does. -/
def FirstRepeat {β : Type} (p : β) (ps : List β) : Prop :=
  ∃ before after, ps = before ++ p :: after ∧ before.Nodup ∧ p ∈ before

section Repeats

variable {β : Type} {p q : β} {ps qs : List β}

theorem FirstRepeat.append (h : FirstRepeat p ps) (qs : List β) : FirstRepeat p (ps ++ qs) := by
  obtain ⟨before, after, rfl, hnodup, hp⟩ := h
  exact ⟨before, after ++ qs, by simp, hnodup, hp⟩

theorem FirstRepeat.not_nodup (h : FirstRepeat p ps) : ¬ ps.Nodup := by
  obtain ⟨before, after, rfl, _, hp⟩ := h
  intro hnodup
  exact (List.nodup_append.mp hnodup).2.2 p hp p (by simp) rfl

/-- What comes before one first repeat cannot hold another. -/
theorem FirstRepeat.unique (hp : FirstRepeat p ps) (hq : FirstRepeat q ps) : p = q := by
  obtain ⟨before, after, rfl, hnodup, hmem⟩ := hp
  obtain ⟨before', after', heq, hnodup', hmem'⟩ := hq
  rcases List.append_eq_append_iff.mp heq with ⟨between, rfl, hrest⟩ | ⟨between, rfl, hrest⟩
  · cases between with
    | nil => exact (List.cons.inj hrest).1
    | cons r between =>
      obtain ⟨rfl, _⟩ := List.cons.inj hrest
      exact absurd hnodup' (FirstRepeat.not_nodup ⟨before, between, rfl, hnodup, hmem⟩)
  · cases between with
    | nil => exact (List.cons.inj hrest).1.symm
    | cons r between =>
      obtain ⟨rfl, _⟩ := List.cons.inj hrest
      exact absurd hnodup (FirstRepeat.not_nodup ⟨before', between, rfl, hnodup', hmem'⟩)

end Repeats

/-! ## Looking up -/

theorem id_of_mem_pairTasks {p : Reduction × ElementType} {d : TaskDescriptor}
    (h : d ∈ pairTasks p) : d.id = .of p.1 d.kind p.2 := by
  obtain ⟨kind, _, rfl⟩ := List.mem_map.mp h
  rfl

theorem mem_pairTasks {p : Reduction × ElementType} {d : TaskDescriptor} :
    d ∈ pairTasks p ↔ d = .of p.1 d.kind p.2 := by
  constructor
  · intro h
    obtain ⟨kind, _, rfl⟩ := List.mem_map.mp h
    rfl
  · intro h
    rw [h]
    refine List.mem_map.mpr ⟨d.kind, ?_, rfl⟩
    cases d.kind <;> simp [TaskKind.all]

/-- Different pairs have different ids, and so have the kinds of one pair. -/
theorem nodup_ids {ps : List (Reduction × ElementType)} (h : ps.Nodup) :
    ((ps.flatMap pairTasks).map TaskDescriptor.id).Nodup := by
  rw [List.map_flatMap, List.nodup_flatMap]
  constructor
  · intro p _
    rw [pairTasks, List.map_map]
    refine List.Nodup.map ?_ (by decide)
    intro kind kind' hid
    exact (TaskId.of_injective hid).2.1
  · refine h.imp ?_
    intro p q hpq id hp hq
    obtain ⟨d, hd, rfl⟩ := List.mem_map.mp hp
    obtain ⟨d', hd', hid⟩ := List.mem_map.mp hq
    rw [id_of_mem_pairTasks hd, id_of_mem_pairTasks hd'] at hid
    obtain ⟨h₁, _, h₂⟩ := TaskId.of_injective hid
    exact hpq (Prod.ext h₁ h₂).symm

namespace Registry

theorem get?_eq_some_iff {r : Registry} (h : (r.tasks.map TaskDescriptor.id).Nodup) {id : TaskId}
    {d : TaskDescriptor} : r.get? id = some d ↔ d ∈ r.tasks ∧ d.id = id := by
  constructor
  · intro hget
    exact ⟨List.mem_of_find?_eq_some hget, by simpa using List.find?_some hget⟩
  · rintro ⟨hmem, rfl⟩
    obtain ⟨d', hd'⟩ : ∃ d', r.get? d.id = some d' := by
      cases hget : r.get? d.id with
      | some d' => exact ⟨d', rfl⟩
      | none =>
        have hne := List.find?_eq_none.mp hget d hmem
        simp at hne
    rw [hd', Option.some.injEq]
    have hid : d'.id = d.id := by simpa using List.find?_some hd'
    exact List.inj_on_of_nodup_map h (List.mem_of_find?_eq_some hd') hmem hid

theorem get?_eq_none_iff {r : Registry} {id : TaskId} :
    r.get? id = none ↔ ∀ d ∈ r.tasks, d.id ≠ id := by
  simp [get?, List.find?_eq_none]

/-! ## Building -/

/-- The building of a registry has come out: with the tasks of the pairs, none of which stands there
twice, or with the refusal of the first one that does. -/
def Builds (ps : List (Reduction × ElementType)) (policy : Policy) :
    Except TaskError Registry → Prop
  | .ok r => ps.Nodup ∧ r.tasks = ps.flatMap pairTasks ∧ r.policy = policy
  | .error cause => ∃ p, FirstRepeat p ps ∧ cause = .duplicateTask (.of p.1 .axisCollapse p.2)

theorem foldlM_add {p : Reduction × ElementType} {kinds : List TaskKind} (hnodup : kinds.Nodup)
    {r : Registry} (hfree : ∀ kind ∈ kinds, r.get? (.of p.1 kind p.2) = none) :
    kinds.foldlM (fun r kind => r.add (.of p.1 kind p.2)) r =
      .ok { r with tasks := r.tasks ++ kinds.map fun kind => .of p.1 kind p.2 } := by
  induction kinds generalizing r with
  | nil => simp [pure, Except.pure]
  | cons kind kinds ih =>
    obtain ⟨hkind, hnodup⟩ := List.nodup_cons.mp hnodup
    have hadd : r.add (.of p.1 kind p.2) =
        .ok { r with tasks := r.tasks ++ [.of p.1 kind p.2] } := by
      have := hfree kind (by simp)
      rw [add, show (TaskDescriptor.of p.1 kind p.2).id = .of p.1 kind p.2 from rfl, this]
    rw [List.foldlM_cons, hadd]
    refine (ih hnodup ?_).trans (by simp)
    intro kind' hmem
    rw [get?_eq_none_iff]
    intro d hd hid
    rcases List.mem_append.mp hd with hd | hd
    · exact get?_eq_none_iff.mp (hfree kind' (by simp [hmem])) d hd hid
    · rw [List.mem_singleton.mp hd] at hid
      exact hkind ((TaskId.of_injective hid).2.1 ▸ hmem)

/-- One registration: a new pair brings its tasks, and a known one is refused at its first task. -/
theorem builds_register {r : Registry} {ps : List (Reduction × ElementType)} {policy : Policy}
    (h : Builds ps policy (.ok r)) (p : Reduction × ElementType) :
    Builds (ps ++ [p]) policy (r.register p.1 p.2) := by
  obtain ⟨hnodup, htasks, hpolicy⟩ := h
  by_cases hp : p ∈ ps
  · have hmem : TaskDescriptor.of p.1 .axisCollapse p.2 ∈ r.tasks := by
      rw [htasks]
      exact List.mem_flatMap.mpr ⟨p, hp, mem_pairTasks.mpr rfl⟩
    have hget : r.get? (.of p.1 .axisCollapse p.2) = some (.of p.1 .axisCollapse p.2) :=
      (get?_eq_some_iff (by rw [htasks]; exact nodup_ids hnodup)).mpr ⟨hmem, rfl⟩
    have hadd : r.add (.of p.1 .axisCollapse p.2) =
        .error (.duplicateTask (.of p.1 .axisCollapse p.2)) := by
      rw [add, show (TaskDescriptor.of p.1 .axisCollapse p.2).id = .of p.1 .axisCollapse p.2 from rfl,
        hget]
    rw [register, TaskKind.all, List.foldlM_cons, hadd]
    exact ⟨p, ⟨ps, [], rfl, hnodup, hp⟩, rfl⟩
  · have hfree : ∀ kind ∈ TaskKind.all, r.get? (.of p.1 kind p.2) = none := by
      intro kind _
      rw [get?_eq_none_iff, htasks]
      intro d hd hid
      obtain ⟨q, hq, hd⟩ := List.mem_flatMap.mp hd
      rw [id_of_mem_pairTasks hd] at hid
      obtain ⟨h₁, _, h₂⟩ := TaskId.of_injective hid
      exact hp (Prod.ext h₁ h₂ ▸ hq)
    rw [register, foldlM_add (by decide) hfree]
    refine ⟨List.nodup_append.mpr ⟨hnodup, by simp, ?_⟩, ?_, hpolicy⟩
    · rintro q hq q' hq' rfl
      rw [List.mem_singleton] at hq'
      exact hp (hq' ▸ hq)
    · simp only [htasks, List.flatMap_append, List.flatMap_singleton]
      rfl

/-- What has stopped stays stopped, whatever else would have been asked for. -/
theorem builds_bind {x : Except TaskError Registry} {f : Registry → Except TaskError Registry}
    {ps qs : List (Reduction × ElementType)} {policy policy' : Policy} (hx : Builds ps policy x)
    (hf : ∀ r, Builds ps policy (.ok r) → Builds (ps ++ qs) policy' (f r)) :
    Builds (ps ++ qs) policy' (x >>= f) := by
  cases x with
  | ok r => exact hf r hx
  | error cause =>
    obtain ⟨p, hp, rfl⟩ := hx
    exact ⟨p, hp.append qs, rfl⟩

theorem builds_pairs {ps qs : List (Reduction × ElementType)} {policy : Policy} {r : Registry}
    (h : Builds ps policy (.ok r)) :
    Builds (ps ++ qs) policy (qs.foldlM (fun r p => r.register p.1 p.2) r) := by
  induction qs generalizing ps r with
  | nil =>
    rw [List.append_nil]
    exact h
  | cons q qs ih =>
    rw [List.foldlM_cons, List.append_cons]
    exact builds_bind (builds_register h q) fun r' hr' => ih hr'

theorem builds_apply {ps : List (Reduction × ElementType)} {policy : Policy} {r : Registry}
    (h : Builds ps policy (.ok r)) (request : RegistryRequest) :
    Builds (ps ++ request.pairs) (request.policy?.getD policy) (r.apply request) := by
  cases request with
  | policy policy' =>
    obtain ⟨hnodup, htasks, _⟩ := h
    exact ⟨by simpa [RegistryRequest.pairs] using hnodup,
      by simpa [RegistryRequest.pairs] using htasks, rfl⟩
  | register reduction elementType => exact builds_register h (reduction, elementType)
  | registerDefaults => exact builds_pairs h

theorem builds_requests {ps : List (Reduction × ElementType)} {policy : Policy} {r : Registry}
    (h : Builds ps policy (.ok r)) (requests : List RegistryRequest) :
    Builds (ps ++ pairsOf requests)
      ((requests.filterMap RegistryRequest.policy?).getLastD policy) (requests.foldlM apply r) := by
  induction requests generalizing ps policy r with
  | nil =>
    rw [pairsOf, List.flatMap_nil, List.append_nil]
    exact h
  | cons request requests ih =>
    rw [List.foldlM_cons, pairsOf, List.flatMap_cons, ← List.append_assoc]
    have hlast : ((request :: requests).filterMap RegistryRequest.policy?).getLastD policy =
        (requests.filterMap RegistryRequest.policy?).getLastD (request.policy?.getD policy) := by
      cases request with
      | policy asked => exact List.getLastD_cons
      | register reduction elementType => rfl
      | registerDefaults => rfl
    rw [hlast]
    exact builds_bind (builds_apply h request) fun r' hr' => ih hr'

theorem builds_build (requests : List RegistryRequest) :
    Builds (pairsOf requests) (policyOf requests) (build requests) := by
  have hempty : Builds [] Policy.standard (.ok empty) := ⟨List.nodup_nil, rfl, rfl⟩
  exact builds_requests hempty requests

/-! ## Main result -/

/-- The registry holds seven tasks of each pair and no others, each under an id of its own, and finds a
task by the parts that its id decodes to. -/
structure Offers (r : Registry) (ps : List (Reduction × ElementType)) : Prop where
  tasks : r.tasks = ps.flatMap pairTasks
  length : r.tasks.length = 7 * ps.length
  ids : (r.tasks.map TaskDescriptor.id).Nodup
  get? : ∀ id d, r.get? id = some d ↔ ∃ op elementType variant kind,
    id.decode? = some (op, elementType, variant) ∧ TaskKind.ofParts? op.role variant = some kind ∧
      (op.reduction, elementType) ∈ ps ∧ d = ⟨id, kind, op.reduction, elementType⟩

theorem offers_of_builds {r : Registry} {ps : List (Reduction × ElementType)} {policy : Policy}
    (h : Builds ps policy (.ok r)) : r.Offers ps := by
  obtain ⟨hnodup, htasks, _⟩ := h
  have hids : (r.tasks.map TaskDescriptor.id).Nodup := by
    rw [htasks]
    exact nodup_ids hnodup
  refine ⟨htasks, ?_, hids, ?_⟩
  · rw [htasks, List.length_flatMap]
    simp [pairTasks, TaskKind.all, Nat.mul_comm]
  · intro id d
    rw [get?_eq_some_iff hids, htasks]
    constructor
    · rintro ⟨hmem, rfl⟩
      obtain ⟨p, hp, hd⟩ := List.mem_flatMap.mp hmem
      refine ⟨⟨p.1, d.kind.role⟩, p.2, d.kind.variant, d.kind, ?_, ?_, hp, ?_⟩
      · exact TaskId.decode?_eq_some_iff.mpr (id_of_mem_pairTasks hd)
      · exact TaskKind.ofParts?_eq_some_iff.mpr ⟨rfl, rfl⟩
      · rw [mem_pairTasks.mp hd]
        rfl
    · rintro ⟨op, t, v, kind, hdecode, hparts, hp, rfl⟩
      obtain ⟨hrole, rfl⟩ := TaskKind.ofParts?_eq_some_iff.mp hparts
      refine ⟨List.mem_flatMap.mpr ⟨_, hp, mem_pairTasks.mpr ?_⟩, rfl⟩
      rw [TaskId.decode?_eq_some_iff.mp hdecode]
      simp only [TaskDescriptor.of, TaskId.of, hrole]

/-- A row of requests builds a registry exactly if it asks for no pair twice, and otherwise is refused
at the first pair that it asks for again, whose axis collapse is there already. The registry offers the
tasks of the pairs under the policy asked for last; which tasks these are does not depend on the order
and the way in which the pairs were asked for. The defaults ask for every pair there is. -/
theorem registry_of_requests (requests : List RegistryRequest) :
    ListsAll (pairsOf [.registerDefaults]) ∧
    ((∃ r, build requests = .ok r) ↔ (pairsOf requests).Nodup) ∧
    (∀ p, FirstRepeat p (pairsOf requests) →
      build requests = .error (.duplicateTask (.of p.1 .axisCollapse p.2))) ∧
    ∀ r, build requests = .ok r →
      r.Offers (pairsOf requests) ∧ r.policy = policyOf requests ∧
      ∀ requests' r', build requests' = .ok r' →
        (∀ p, p ∈ pairsOf requests' ↔ p ∈ pairsOf requests) →
          r'.tasks.Perm r.tasks ∧ ∀ id, r'.get? id = r.get? id := by
  have hbuilds := builds_build requests
  refine ⟨defaults_listAll, ?_, ?_, ?_⟩
  · constructor
    · rintro ⟨r, hr⟩
      rw [hr] at hbuilds
      exact hbuilds.1
    · intro hnodup
      cases hr : build requests with
      | ok r => exact ⟨r, rfl⟩
      | error cause =>
        rw [hr] at hbuilds
        obtain ⟨p, hp, _⟩ := hbuilds
        exact absurd hnodup hp.not_nodup
  · intro p hp
    cases hr : build requests with
    | ok r =>
      rw [hr] at hbuilds
      exact absurd hbuilds.1 hp.not_nodup
    | error cause =>
      rw [hr] at hbuilds
      obtain ⟨q, hq, rfl⟩ := hbuilds
      rw [hp.unique hq]
  · intro r hr
    rw [hr] at hbuilds
    have hoffers := offers_of_builds hbuilds
    refine ⟨hoffers, hbuilds.2.2, ?_⟩
    intro requests' r' hr' hsame
    have hbuilds' := builds_build requests'
    rw [hr'] at hbuilds'
    have hoffers' := offers_of_builds hbuilds'
    refine ⟨?_, ?_⟩
    · rw [hoffers.tasks, hoffers'.tasks]
      exact ((List.perm_ext_iff_of_nodup hbuilds'.1 hbuilds.1).mpr hsame).flatMap_right _
    · intro id
      ext d
      rw [hoffers'.get?, hoffers.get?]
      simp only [hsame]

/-- Two pairs in either order, the policies between them; the second pair asked for again in the middle
of the defaults; and the defaults alone. -/
theorem registry_of_requests_two :
    let requests : List RegistryRequest :=
      [.register .sum .uint8, .policy .serial, .register .max .bool, .policy .parallel]
    let swapped : List RegistryRequest := [.register .max .bool, .register .sum .uint8]
    (∃ r r', build requests = .ok r ∧ build swapped = .ok r' ∧ r.policy = .parallel ∧
      r.tasks.length = 14 ∧ r'.tasks.Perm r.tasks ∧
      r.get? ⟨373⟩ = some ⟨⟨373⟩, .combineScalar, .sum, .uint8⟩ ∧ r.get? ⟨375⟩ = none) ∧
    build (swapped ++ [.registerDefaults]) = .error (.duplicateTask ⟨44⟩) ∧
    ∃ r, build [.registerDefaults] = .ok r ∧ r.tasks.length = 308 := by
  intro requests swapped
  obtain ⟨_, hnodup, _, hbuilt⟩ := registry_of_requests requests
  obtain ⟨_, hnodup', _, _⟩ := registry_of_requests swapped
  obtain ⟨r, hr⟩ := hnodup.mpr (by decide)
  obtain ⟨r', hr'⟩ := hnodup'.mpr (by decide)
  obtain ⟨hoffers, hpolicy, hsame⟩ := hbuilt r hr
  obtain ⟨hperm, _⟩ := hsame swapped r' hr' fun p => List.mem_pair.trans
    (or_comm.trans List.mem_pair.symm)
  have hnone : r.get? ⟨375⟩ = none := by
    rw [Option.eq_none_iff_forall_ne_some]
    intro d hd
    obtain ⟨_, _, _, _, hdecode, hparts, _, _⟩ := (hoffers.get? _ _).mp hd
    cases hdecode
    cases hparts
  refine ⟨⟨r, r', hr, hr', hpolicy, hoffers.length, hperm, ?_, hnone⟩, ?_, ?_⟩
  · exact (hoffers.get? _ _).mpr ⟨_, _, _, .combineScalar, rfl, rfl, by decide, rfl⟩
  · exact (registry_of_requests (swapped ++ [.registerDefaults])).2.2.1 (.max, .bool)
      ⟨pairsOf swapped, _, rfl, by decide, by decide⟩
  · obtain ⟨hall, hdefaults, _, hbuilt⟩ := registry_of_requests [.registerDefaults]
    obtain ⟨r, hr⟩ := hdefaults.mpr (by decide)
    refine ⟨r, hr, ?_⟩
    rw [(hbuilt r hr).1.length, hall.length]

end Registry

end GridFold
