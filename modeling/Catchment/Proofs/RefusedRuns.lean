import Catchment.Proofs.ArgumentChecks
import Catchment.Proofs.BucketRuns
import Catchment.Proofs.ComposedModels

/-!
# Refused runs

A model looks at the arguments of all its parts before it computes the first of them. What it finds
there depends on the names and the settings of the parts, and on neither the values of the inputs
nor the formulas. The first fault that it finds in the order of execution ends the run.
-/
namespace Catchment

variable {K : Type} {n t : Nat} {args : RunArguments K} {s : Settings K}

/-- A parameter without a value is missed before the networks are looked at, the first one in
order. -/
theorem RunArguments.missing?_of_param {sig : Signature} {before after : List String} {k : String}
    (hparams : sig.params = before ++ k :: after)
    (hbefore : ∀ p ∈ before, (args.params.lookup p).isSome) (hk : args.params.lookup k = none) :
    args.missing? sig = some (.missingParameter k []) := by
  have hfind : sig.params.find? (fun v => (args.params.lookup v).isNone) = some k := by
    rw [hparams, List.find?_append, List.find?_eq_none.2, Option.none_or, List.find?_cons_of_pos]
    · simp [hk]
    · intro p hp
      simp [Option.isSome_iff_ne_none.1 (hbefore p hp)]
  rw [missing?]
  simp only [hfind]

theorem RunArguments.missing?_of_network {sig : Signature} {before after : List String}
    {v : String} (hparams : ∀ p ∈ sig.params, (args.params.lookup p).isSome)
    (hnetworks : sig.networks = before ++ v :: after)
    (hbefore : ∀ p ∈ before, (args.params.lookup p).isSome) (hv : args.params.lookup v = none) :
    args.missing? sig = some (.missingWeights v) := by
  have hnone : sig.params.find? (fun v => (args.params.lookup v).isNone) = none :=
    List.find?_eq_none.2 fun p hp => by simp [Option.isSome_iff_ne_none.1 (hparams p hp)]
  have hfind : sig.networks.find? (fun v => (args.params.lookup v).isNone) = some v := by
    rw [hnetworks, List.find?_append, List.find?_eq_none.2, Option.none_or, List.find?_cons_of_pos]
    · simp [hv]
    · intro p hp
      simp [Option.isSome_iff_ne_none.1 (hbefore p hp)]
  rw [missing?]
  simp only [hnone, hfind, Option.map_some]

variable [Scalar K]

/-- What a part asks of the arguments of a run: values for the names of a signature, on the nodes of
a network if there is one, under some settings. -/
structure Demand (K : Type) where
  signature : Signature
  /-- The number of nodes of the network. -/
  network : Option Nat
  settings : Settings K

namespace Demand

/-- The data of a run whose arguments meet a demand. -/
def prepare (q : Demand K) (n t : Nat) (args : RunArguments K) : Except Fault (RunData n t K) :=
  match q.network with
  | none => RunData.prepare q.signature n t args q.settings
  | some size =>
    if size = n then RunData.prepare q.signature n t args q.settings
    else mismatched (.routeNodes q.signature.name size n)

/-- The arguments meet the demand. -/
def Met (q : Demand K) (n t : Nat) (args : RunArguments K) : Prop :=
  ∃ d, q.prepare n t args = .ok d

def refusal? (n t : Nat) (args : RunArguments K) (q : Demand K) : Option Fault :=
  match q.prepare n t args with
  | .ok _ => none
  | .error f => some f

theorem refusal?_eq_none {q : Demand K} : q.refusal? n t args = none ↔ q.Met n t args := by
  unfold refusal? Met
  cases q.prepare n t args <;> simp

theorem refusal?_eq_some {q : Demand K} {f : Fault} :
    q.refusal? n t args = some f ↔ q.prepare n t args = .error f := by
  unfold refusal?
  cases q.prepare n t args <;> simp

end Demand

namespace Component

/-- The number of nodes that a component is bound to. -/
def networkSize? : Component K → Option Nat
  | route r => some r.topology.size
  | _ => none

def demand (c : Component K) (s : Settings K) : Demand K := ⟨c.signature, c.networkSize?, s⟩

theorem prepareFor_eq_demand (c : Component K) :
    c.prepareFor n t args s = (c.demand s).prepare n t args := by
  cases c with
  | route r =>
    rw [prepareFor, Route.nodesFault?, Demand.prepare]
    by_cases hsize : r.topology.size = n
    · rw [if_pos hsize]
      exact (if_pos hsize).symm
    · rw [if_neg hsize]
      exact (if_neg hsize).symm
  | bucket b => rfl
  | hydrograph u => rfl
  | model w parts => rfl

mutual

/-- The buckets, routes and unit hydrographs in the order of execution, each with its settings. -/
def units : Component K → Settings K → List (Component K × Settings K)
  | model w parts, s => unitsOf w parts s
  | c, s => [(c, s)]

def unitsOf (w : Wiring K) : List (Component K) → Settings K → List (Component K × Settings K)
  | [], _ => []
  | c :: rest, s => units c (w.settingsFor c.name s) ++ unitsOf w rest s

end

theorem mem_unitsOf {w : Wiring K} {parts : List (Component K)} {u : Component K × Settings K} :
    u ∈ unitsOf w parts s ↔ ∃ c ∈ parts, u ∈ units c (w.settingsFor c.name s) := by
  induction parts with
  | nil => simp [unitsOf]
  | cons c rest ih => simp [unitsOf, ih]

def refusal? (n t : Nat) (args : RunArguments K) (us : List (Component K × Settings K)) :
    Option Fault := us.findSome? fun u => (u.1.demand u.2).refusal? n t args

theorem refusal?_append (us us' : List (Component K × Settings K)) :
    refusal? n t args (us ++ us') = (refusal? n t args us).or (refusal? n t args us') :=
  List.findSome?_append

theorem refusal?_eq_none {us : List (Component K × Settings K)} :
    refusal? n t args us = none ↔ ∀ u ∈ us, (u.1.demand u.2).Met n t args := by
  rw [refusal?, List.findSome?_eq_none_iff]
  simp only [Demand.refusal?_eq_none]

theorem refusal?_of_first {before after : List (Component K × Settings K)}
    {u : Component K × Settings K} {f : Fault}
    (hbefore : ∀ p ∈ before, (p.1.demand p.2).Met n t args)
    (hu : (u.1.demand u.2).prepare n t args = .error f) :
    refusal? n t args (before ++ u :: after) = some f := by
  rw [refusal?_append, refusal?_eq_none.2 hbefore, Option.none_or, refusal?, List.findSome?_cons,
    Demand.refusal?_eq_some.2 hu]

def verdict : Option Fault → Except Fault Unit
  | none => .ok ()
  | some f => .error f

theorem check_unit {c : Component K} (hunits : units c s = [(c, s)])
    (hcheck : check n t args c s = (do let _ ← c.prepareFor n t args s; return)) :
    check n t args c s = verdict (refusal? n t args (units c s)) := by
  rw [hcheck, hunits, prepareFor_eq_demand]
  simp only [refusal?, List.findSome?_cons, List.findSome?_nil, Demand.refusal?]
  cases (c.demand s).prepare n t args with
  | ok d => rfl
  | error f => rfl

mutual

/-- The check of a component finds the first fault of the parts that compute. -/
theorem check_eq_verdict (c : Component K) (s : Settings K) :
    check n t args c s = verdict (refusal? n t args (units c s)) :=
  match c with
  | bucket _ => check_unit rfl rfl
  | route _ => check_unit rfl rfl
  | hydrograph _ => check_unit rfl rfl
  | model w parts => checkAll_eq_verdict w parts s

theorem checkAll_eq_verdict (w : Wiring K) (parts : List (Component K)) (s : Settings K) :
    checkAll n t args w parts s = verdict (refusal? n t args (unitsOf w parts s)) :=
  match parts with
  | [] => rfl
  | c :: rest => by
    rw [checkAll, check_eq_verdict c, checkAll_eq_verdict w rest, unitsOf, refusal?_append]
    cases refusal? n t args (units c (w.settingsFor c.name s)) with
    | none => rfl
    | some f => rfl

end

theorem check_eq_ok_iff {c : Component K} :
    check n t args c s = .ok () ↔ ∀ u ∈ units c s, (u.1.demand u.2).Met n t args := by
  rw [check_eq_verdict, ← refusal?_eq_none]
  cases refusal? n t args (units c s) <;> simp [verdict]

theorem check_part {w : Wiring K} {parts : List (Component K)}
    (hcheck : check n t args (model w parts) s = .ok ()) {p : Component K} (hp : p ∈ parts) :
    check n t args p (w.settingsFor p.name s) = .ok () :=
  check_eq_ok_iff.2 fun u hu => check_eq_ok_iff.1 hcheck u (mem_unitsOf.2 ⟨p, hp, hu⟩)

mutual

/-- What computes has no parts. -/
theorem ne_model_of_mem_units (c : Component K) (s : Settings K) :
    ∀ u ∈ units c s, ∀ w parts, u.1 ≠ model w parts :=
  match c with
  | bucket _ => List.forall_mem_singleton.2 nofun
  | route _ => List.forall_mem_singleton.2 nofun
  | hydrograph _ => List.forall_mem_singleton.2 nofun
  | model w parts => ne_model_of_mem_unitsOf w parts s

theorem ne_model_of_mem_unitsOf (w : Wiring K) (parts : List (Component K)) (s : Settings K) :
    ∀ u ∈ unitsOf w parts s, ∀ w' parts', u.1 ≠ model w' parts' :=
  match parts with
  | [] => nofun
  | c :: rest => List.forall_mem_append.2
    ⟨ne_model_of_mem_units c _, ne_model_of_mem_unitsOf w rest s⟩

end

/-- A part without parts of its own that refuses arguments computes nothing with them. -/
theorem compute_of_refused {c : Component K} (hc : ∀ w parts, c ≠ model w parts) {f : Fault}
    (h : (c.demand s).prepare n t args = .error f) (rows : List (Grid [n, t] K)) :
    c.compute args s rows = .error f := by
  rw [← prepareFor_eq_demand] at h
  cases c with
  | bucket b => rw [compute, h, error_bind]
  | route r => rw [compute, h, error_bind]
  | hydrograph u => rw [compute, h, error_bind]
  | model w parts => exact absurd rfl (hc w parts)

theorem compute_of_missing {w : Wiring K} {parts : List (Component K)} {cause : Misconfiguration}
    (h : args.missing? w.signature = some cause) (rows : List (Grid [n, t] K)) :
    (model w parts).compute args s rows = misconfigured cause := by
  simp only [compute, h]

theorem compute_of_refusal {w : Wiring K} {parts : List (Component K)} {f : Fault}
    (hmissing : args.missing? w.signature = none)
    (h : refusal? n t args (units (model w parts) s) = some f) (rows : List (Grid [n, t] K)) :
    (model w parts).compute args s rows = .error f := by
  have hcheck : checkAll n t args w parts s = .error f := by
    rw [checkAll_eq_verdict]
    exact congrArg verdict h
  simp only [compute, hmissing, hcheck, error_bind]

theorem run_of_compute_error {c : Component K} {input : Nested K} {given : InputRows K}
    (hreads : given.Reads input) (hcount : given.rows.length = c.signature.inputs.length)
    {f : Fault} (h : c.compute args s given.rows = .error f) : c.run input args s = .error f := by
  obtain ⟨x, hx, hgiven⟩ := hreads
  simp only [run, hx, ok_bind, hgiven, hcount, bne_self_eq_false, Bool.false_eq_true, if_false, h,
    error_bind]

/-- A model refuses a run before it computes any part. It names the first parameter without a value,
or else the first network without weights. Otherwise the run ends with the fault of the first part,
through all nested models and in the order of execution, that does not accept the arguments under
its own settings; it is the fault with which that part would refuse to run alone. Neither the values
of the inputs nor the formulas of the parts matter. -/
theorem refused_before_computing {w : Wiring K} {parts : List (Component K)} {input : Nested K}
    {given : InputRows K} (hreads : given.Reads input)
    (hcount : given.rows.length = w.signature.inputs.length) :
    (∀ before k after, w.signature.params = before ++ k :: after →
      (∀ p ∈ before, (args.params.lookup p).isSome) → args.params.lookup k = none →
        (model w parts).run input args s = misconfigured (.missingParameter k [])) ∧
    ((∀ p ∈ w.signature.params, (args.params.lookup p).isSome) →
      ∀ before v after, w.signature.networks = before ++ v :: after →
        (∀ p ∈ before, (args.params.lookup p).isSome) → args.params.lookup v = none →
          (model w parts).run input args s = misconfigured (.missingWeights v)) ∧
    ((∀ p ∈ w.signature.params ++ w.signature.networks, (args.params.lookup p).isSome) →
      ∀ before u after, units (model w parts) s = before ++ u :: after →
        (∀ p ∈ before, (p.1.demand p.2).Met given.nodes given.times args) →
        ∀ f, (u.1.demand u.2).prepare given.nodes given.times args = .error f →
          (model w parts).run input args s = .error f ∧
          ∀ rows : List (Grid [given.nodes, given.times] K),
            u.1.compute args u.2 rows = .error f) := by
  have hrun {f : Fault} (h : (model w parts).compute args s given.rows = .error f) :
      (model w parts).run input args s = .error f :=
    run_of_compute_error (c := model w parts) hreads hcount h
  refine ⟨fun before k after hparams hbefore hk => ?_,
    fun hparams before v after hnetworks hbefore hv => ?_,
    fun hgiven before u after hunits hbefore f hu => ⟨?_, compute_of_refused ?_ hu⟩⟩
  · exact hrun (compute_of_missing (args.missing?_of_param hparams hbefore hk) _)
  · exact hrun (compute_of_missing (args.missing?_of_network hparams hnetworks hbefore hv) _)
  · refine hrun (compute_of_refusal (RunArguments.missing?_eq_none.2 hgiven) ?_ _)
    rw [hunits]
    exact refusal?_of_first hbefore hu
  · have hmem : u ∈ units (model w parts) s := by simp [hunits]
    exact ne_model_of_mem_units _ s u hmem

end Component

/-- A bucket that fails whenever it is computed: a comparison has no negative. -/
def Bucket.contrary : Bucket Float where
  name := some "contrary"
  fluxes := [.flux ⟨{
    name := "reversal", outputs := ["w"], inputs := ["p"], params := []
    exprs := [.unary .neg (.binary .lt (.var "p") (.const Scalar.zero))], law := none }, by decide⟩]
  rates := []
  sort := true
  noRate := rfl
  ordered := _
  order_eq := rfl
  accepted := BucketDraft.fault?_eq_none.2 (by decide)

namespace Composition

def innerStore : Composition Float where
  name := some "inner"
  parts := [.bucket .linearStore]
  sort := false
  inputs := none
  outputs := none
  settings := []

def contraryFirst : Composition Float where
  name := some "outer"
  parts := [.bucket .contrary, .model (innerStore.wiring innerStore.parts) innerStore.parts]
  sort := false
  inputs := none
  outputs := none
  settings := [("inner", { Settings.standard with times := some (.list
    [.entry (.integer 0), .entry (.integer 1)]) })]

theorem contraryFirst_build :
    innerStore.build = .ok (.model (innerStore.wiring innerStore.parts) innerStore.parts) ∧
      contraryFirst.build =
        .ok (.model (contraryFirst.wiring contraryFirst.parts) contraryFirst.parts) := by
  have hdisjoint : (innerStore.wholeSignature innerStore.parts).stateAndOutput? = none ∧
      (contraryFirst.wholeSignature contraryFirst.parts).stateAndOutput? = none :=
    ⟨Signature.stateAndOutput?_eq_none.2 (by decide),
      Signature.stateAndOutput?_eq_none.2 (by decide)⟩
  exact ⟨build_eq_ok.2 ⟨⟨by simp [innerStore], rfl⟩, _, rfl, fault?_eq_none.2
      ⟨hdisjoint.1, rfl, rfl, rfl, unknownSettings?_eq_none.2 (by decide)⟩, rfl⟩,
    build_eq_ok.2 ⟨⟨by simp [contraryFirst], rfl⟩, _, rfl, fault?_eq_none.2
      ⟨hdisjoint.2, rfl, rfl, rfl, unknownSettings?_eq_none.2 (by decide)⟩, rfl⟩⟩

end Composition

/-- Over a single time the store misses its parameter, and then it refuses the time axis of its own
model. The bucket before it would fail for another reason. -/
theorem Component.contrary_refused :
    let one : Nested Float := .entry (.real Scalar.one)
    ∃ c, Composition.contraryFirst.build = .ok c ∧
      c.run (.list [.list [one]]) ⟨[], []⟩ .standard = misconfigured (.missingParameter "k" []) ∧
      c.run (.list [.list [one]]) ⟨[("k", one)], []⟩ .standard = mismatched (.timeCount 2 1) ∧
      (bucket .contrary).run (.list [.list [one]]) ⟨[("k", one)], []⟩ .standard =
        .error .operand := by
  intro one
  have hreads : InputRows.Reads ⟨1, 1, [⟨#v[Scalar.one]⟩], true⟩ (.list [.list [one]]) :=
    ⟨_, rfl, rfl⟩
  refine ⟨_, Composition.contraryFirst_build.2, ?_, ?_, rfl⟩
  · exact (refused_before_computing hreads rfl).1 [] "k" [] rfl nofun rfl
  · exact ((refused_before_computing hreads rfl).2.2 (by decide) [(.bucket .contrary, .standard)]
      (.bucket .linearStore, _) [] rfl (List.forall_mem_singleton.2 ⟨_, rfl⟩) _ rfl).1

end Catchment
