import Catchment.Proofs.EarlierColumns
import Catchment.Proofs.ReturnedNames

/-!
# Initial columns

A path has one column for every time and starts at the initial states, unless the adaptive solver
fails; then it warns, and no column of any state is left. So a result has the shape of its input but
for the number of rows, and every bucket and route inside of the component starts at the states that
the arguments give, or misses all of them. The number of states that an integrator returns is
checked; that the first of them is the one it was given is assumed where it is used.
-/
namespace Catchment

theorem Inquiry.answer_bind {m : Nat} {K α β : Type}
    (rate : K → Grid [m] K → Except Fault (Grid [m] K)) (x : Inquiry m K α)
    (f : α → Inquiry m K β) :
    (x >>= f).answer rate = x.answer rate >>= fun a => (f a).answer rate := by
  induction x with
  | done a => rfl
  | refused => rfl
  | ask time state next ih =>
    show (rate time state >>= fun r => (next r >>= f).answer rate) = _
    simp only [answer, ih, bind_assoc]

variable {K : Type} [Scalar K] {n t : Nat} {u : Shape} {args : RunArguments K} {s : Settings K}

/-- What is assumed of the integrator: whatever rates it is given over some times, if it reaches the
end, the first state that it returns is the one that it was asked to start from. -/
def Settings.KeepsInitial (s : Settings K) (x : Grid u K) (times : List K) : Prop :=
  s.solver = .adaptive → ∀ first rest, times = first :: rest → ∀ rate found,
    (s.integrator.solve s.method (s.request x first rest)).answer rate = .ok found →
      found.status = 0 → found.columns.head? = some x.flat

omit [Scalar K] in
theorem Grid.unflat_flat (x : Grid u K) : x.flat.unflat = x := by
  simp only [unflat, flat, reshape, Vector.cast_cast, Vector.cast_rfl]

/-- The integrator returns a column for every time, or all columns are missing, with a warning. -/
theorem integrate_returns {rate : Rate u K} {x : Grid u K} {times : List K} {path : Trajectory u K}
    (hs : s.solver = .adaptive) (h : integrate s rate x times = .ok path) :
    (path.columns.length = times.length ∧ path.warnings = [] ∧
      (s.KeepsInitial x times → ∀ first ∈ path.columns.head?, first = x)) ∨
    ∃ reason, path = ⟨times.map fun _ => Grid.replicate Scalar.nan, [failureWarning reason]⟩ := by
  unfold integrate at h
  split at h
  · obtain rfl := Except.ok.inj h
    exact .inl ⟨rfl, rfl, fun _ => nofun⟩
  · obtain rfl := Except.ok.inj h
    exact .inl ⟨rfl, rfl, fun _ first hfirst => (Option.some.inj hfirst).symm⟩
  · obtain ⟨found, hfound, h⟩ := bind_eq_ok.1 h
    split at h
    · obtain rfl := Except.ok.inj h
      exact .inr ⟨found.message, rfl⟩
    · rename_i hreached
      obtain rfl := Except.ok.inj h
      simp only [Bool.or_eq_true, bne_iff_ne, not_or, not_not] at hreached
      refine .inl ⟨(List.length_map ..).trans hreached.2, rfl, fun hkeeps first hfirst => ?_⟩
      have hhead := hkeeps hs _ _ rfl _ _ hfound hreached.1
      rw [List.head?_map, hhead] at hfirst
      exact (Option.some.inj hfirst).symm.trans (Grid.unflat_flat x)

/-- A path is found, or the integrator fails and all columns are missing. -/
theorem advance_returns {rate : Rate u K} {x : Grid u K} {times : List K} {path : Trajectory u K}
    (h : advance s rate x times = .ok path) :
    (path.columns.length = times.length ∧ path.warnings = [] ∧
      (s.KeepsInitial x times → ∀ first ∈ path.columns.head?, first = x)) ∨
    s.solver = .adaptive ∧ ∃ reason,
      path = ⟨times.map fun _ => Grid.replicate Scalar.nan, [failureWarning reason]⟩ := by
  by_cases hs : s.solver = .adaptive
  · unfold advance at h
    rw [hs] at h
    exact (integrate_returns hs h).imp_right fun hmissing => ⟨hs, hmissing⟩
  · obtain ⟨hmarch, hwarnings⟩ := (advance_eq_ok hs).1 h
    exact .inl ⟨hmarch.length, hwarnings, fun _ => hmarch.head⟩

theorem eq_nan_of_mem_stateRows {m : Nat} {times : List K} {g : Grid [n, t] K}
    (h : g ∈ stateRows m t (times.map fun _ => Grid.replicate Scalar.nan)) :
    g = Grid.replicate Scalar.nan := by
  obtain ⟨k, rfl⟩ := List.mem_ofFn.1 h
  refine Grid.ext_get fun i => (Grid.get_ofFn _ i).trans ?_
  rw [Grid.get_replicate]
  show (((times.map fun _ => Grid.replicate Scalar.nan).toArray[i.tail.head.val]?).map
    fun u : Grid [m, n] K => u.get (k, i.head, ())).getD Scalar.nan = Scalar.nan
  rw [List.getElem?_toArray, List.getElem?_map]
  cases times[i.tail.head.val]? with
  | none => rfl
  | some _ => exact Grid.get_replicate _ _

/-- How the rows of some states begin, for the warnings of their solver: as the arguments say, or
everything is missing. -/
inductive StatesBegin (args : RunArguments K) (s : Settings K) (states : List String)
    (y : String → Grid [n, t] K) (assumed : Prop) : List String → Prop
  | initial (h : assumed → ∀ v ∈ states, ∀ ht : 0 < t,
      args.stateRow s n v = .ok ((y v).pick (.atTime ⟨0, ht⟩))) :
    StatesBegin args s states y assumed []
  | missing (hsolver : s.solver = .adaptive) (reason : String)
      (h : ∀ v ∈ states, y v = Grid.replicate Scalar.nan) :
    StatesBegin args s states y assumed [failureWarning reason]

section

variable {d : RunData n t K} {y : String → Grid [n, t] K}

/-- The states along a path begin as the path does. -/
theorem Outcome.Follows.statesBegin {sig : Signature} {outputs warnings : List String}
    (hd : RunData.prepare sig n t args s = .ok d) {path : Trajectory [d.initial.length, n] K}
    (h : Follows ⟨(sig.states ++ outputs).map y, warnings⟩ d path) :
    StatesBegin args s sig.states y (s.KeepsInitial (Grid.stack d.initial) d.times) warnings := by
  obtain ⟨-, rfl, -, -, -, hinitial⟩ := RunData.prepare_eq_ok_iff.1 hd
  obtain ⟨⟨rate, hpath⟩, hstates, hwarnings⟩ := h
  have hlen : (sig.states.map y).length = d.initial.length :=
    (List.length_map _).trans (RunData.prepare_eq_ok hd).2.symm
  have hy : sig.states.map y = stateRows d.initial.length t path.columns := by
    rw [← hstates, List.map_append, List.take_left' hlen]
  obtain rfl : warnings = path.warnings := hwarnings
  obtain ⟨hlen, hnone, hfirst⟩ | ⟨hsolver, reason, rfl⟩ := advance_returns hpath
  · rw [hnone]
    refine .initial fun hkeeps v hv ht => ?_
    have hbegin : (sig.states.map y).map (Grid.pick (.atTime ⟨0, ht⟩)) = d.initial := by
      rw [hy, stateRows_first (hlen.trans d.times_length) (hfirst hkeeps) ht, Grid.rows_stack]
    rw [← hbegin, List.map_map, List.forall₂_map_right_iff, List.forall₂_same] at hinitial
    exact hinitial v hv
  · refine .missing hsolver reason fun v hv => ?_
    have hmem : y v ∈ sig.states.map y := List.mem_map_of_mem hv
    rw [hy] at hmem
    exact eq_nan_of_mem_stateRows hmem

theorem Bucket.statesBegin_of_run {b : Bucket K}
    (hd : RunData.prepare b.signature n t args s = .ok d) {warnings : List String}
    (hrun : b.run d (b.signature.inputs.map y) = .ok ⟨(b.states ++ b.outputs).map y, warnings⟩) :
    StatesBegin args s b.states y (s.KeepsInitial (Grid.stack d.initial) d.times) warnings := by
  obtain ⟨hempty, rfl⟩ | ⟨path, -, hfollows⟩ := b.follows_of_run hrun
  · refine .initial fun _ v hv => ?_
    rw [hempty] at hv
    exact nomatch hv
  · exact hfollows.statesBegin hd

theorem Route.statesBegin_of_run {r : Route K}
    (hd : RunData.prepare r.signature n t args s = .ok d) {warnings : List String}
    (hrun : r.run d (r.signature.inputs.map y) = .ok ⟨(r.states ++ r.outputs).map y, warnings⟩) :
    StatesBegin args s r.states y (s.KeepsInitial (Grid.stack d.initial) d.times) warnings := by
  obtain ⟨-, -, path, -, -, hfollows⟩ := r.follows_of_run hrun
  exact hfollows.statesBegin hd

end

namespace Component

/-- All buckets and routes of a component begin at their initial states, or miss all states, in a
run over rows by name. In a model all parts return their own of the same rows, the hidden ones
included. -/
inductive Begins (args : RunArguments K) :
    Component K → Settings K → (String → Grid [n, t] K) → Prop
  | bucket {b : Bucket K} {s : Settings K} {y : String → Grid [n, t] K} {d : RunData n t K}
      (prepared : (Component.bucket b).prepareFor n t args s = .ok d)
      (states : StatesBegin args s b.states y (s.KeepsInitial (Grid.stack d.initial) d.times)
        ((Component.bucket b).warningsOver args s y)) :
    Begins args (.bucket b) s y
  | route {r : Route K} {s : Settings K} {y : String → Grid [n, t] K} {d : RunData n t K}
      (prepared : (Component.route r).prepareFor n t args s = .ok d)
      (states : StatesBegin args s r.states y (s.KeepsInitial (Grid.stack d.initial) d.times)
        ((Component.route r).warningsOver args s y)) :
    Begins args (.route r) s y
  | hydrograph (u : UnitHydrograph K) (s : Settings K) (y : String → Grid [n, t] K) :
    Begins args (.hydrograph u) s y
  | model {w : Wiring K} {parts : List (Component K)} {s : Settings K}
      {y z : String → Grid [n, t] K} (inputs : ∀ v ∈ w.signature.inputs, z v = y v)
      (rows : ∀ v ∈ w.rowNames, z v = y v)
      (returned : ∀ p ∈ parts, p.Returns args (w.settingsFor p.name s) z)
      (begun : ∀ p ∈ parts, Begins args p (w.settingsFor p.name s) z) :
    Begins args (.model w parts) s y

variable {c : Component K} {y : String → Grid [n, t] K}

/-- A component that returns rows by name begins at the initial states in them. -/
theorem Composed.begins (hc : c.Composed) (h : c.Returns args s y) : c.Begins args s y := by
  induction hc generalizing s y with
  | bucket b =>
    obtain ⟨d, hd, hrun⟩ := bind_eq_ok.1 h
    exact .bucket hd (b.statesBegin_of_run hd hrun)
  | route r =>
    obtain ⟨d, hd, hrun⟩ := bind_eq_ok.1 h
    exact .route hd (r.statesBegin_of_run (prepareFor_route hd).2 hrun)
  | hydrograph u => exact .hydrograph u s y
  | @model d _ hparts built ih =>
    obtain ⟨-, ordered, hordered, hfault, rfl⟩ := Composition.build_eq_ok.1 built
    obtain ⟨hperm, horder⟩ := Composition.order_eq_ok hordered
    have hinputs : (Component.model (d.wiring ordered) ordered).signature.inputs =
        (d.wholeSignature ordered).inputs := Composition.signature_wiring_inputs
    have hcomputed := h
    rw [Returns, hinputs] at hcomputed
    obtain ⟨z, hz, hreturns, hrows⟩ := (Composition.compute_wiring_named
      (fun p hp => hparts p (hperm.mem_iff.1 hp)) horder hfault).1 hcomputed
    obtain ⟨hrows, -⟩ := Outcome.mk.inj hrows
    refine .model (z := z) (fun v hv => hz v (hinputs ▸ hv)) (fun v hv => ?_) hreturns
      fun p hp => ih p (hperm.mem_iff.1 hp) (hreturns p hp)
    exact (List.map_inj_left.1 hrows v hv).symm

end Component

/-- A result has the shape of the input but for the number of rows: an axis of times, under an axis
of nodes if the input has one. -/
theorem InputRows.Reads.shape_result {given : InputRows K} {input : Nested K}
    (h : given.Reads input) (rows : List (Grid [given.nodes, given.times] K))
    (warnings : List String) : ∃ (x : Tensor K) (axes : Shape), input.toTensor = .ok x ∧
      (axes = [given.times] ∨ axes = [given.nodes, given.times]) ∧
      x.shape = given.rows.length :: axes ∧
      (given.result rows warnings).rows.shape = rows.length :: axes := by
  obtain ⟨x, hx, hgiven⟩ := h
  obtain ⟨shape, g⟩ := x
  unfold ofTensor? at hgiven
  split at hgiven
  · rename_i m t g heq
    obtain rfl := Option.some.inj hgiven
    obtain ⟨rfl, -⟩ := Tensor.mk.inj heq
    refine ⟨_, [t], hx, .inl rfl, ?_, ?_⟩
    · simp [Grid.length_rows]
    · simp [result, Outcome.toTensor, Tensor.ofGrid]
  · rename_i m n t g heq
    obtain rfl := Option.some.inj hgiven
    obtain ⟨rfl, -⟩ := Tensor.mk.inj heq
    refine ⟨_, [n, t], hx, .inr rfl, ?_, ?_⟩
    · simp [Grid.length_rows]
    · simp [result, Outcome.toTensor, Tensor.ofGrid]
  · cases hgiven

namespace Component

/-- A run with a result in the declared shape, rows by name of which every bucket and every route
begins at its initial states. -/
structure StartedRun (c : Component K) (input : Nested K) (args : RunArguments K) (s : Settings K)
    (r : RunResult K) (given : InputRows K) (axes : Shape)
    (y : String → Grid [given.nodes, given.times] K) : Prop where
  reads : given.Reads input
  axes_eq : axes = [given.times] ∨ axes = [given.nodes, given.times]
  input_shape : ∃ x, input.toTensor = .ok x ∧ x.shape = c.signature.inputs.length :: axes
  result_shape : r.rows.shape = c.rowNames.length :: axes
  inputs : NamesRows c.signature.inputs given.rows y
  result_eq : r = given.result (c.rowNames.map y) (c.warningsOver args s y)
  begins : c.Begins args s y

/-- Every run that returns has the declared shape and starts at its initial states, an adaptive one
if the integrator keeps the states that it is given or fails. -/
theorem run_starts_as_declared {c : Component K} (hc : c.Composed) {input : Nested K}
    {r : RunResult K} (hrun : c.run input args s = .ok r) :
    ∃ given axes y, c.StartedRun input args s r given axes y := by
  obtain ⟨given, y, hreads, hlen, hinputs, hreturns, rfl⟩ := hc.run_returns hrun
  obtain ⟨x, axes, hx, haxes, hshape, hresult⟩ :=
    hreads.shape_result (c.rowNames.map y) (c.warningsOver args s y)
  rw [hlen] at hshape
  rw [List.length_map] at hresult
  exact ⟨given, axes, y, hreads, haxes, ⟨x, hx, hshape⟩, hresult, hinputs, rfl,
    hc.begins hreturns⟩

def tinySteps : Settings Float :=
  { Settings.standard with
    solver := .adaptive
    times := some (.list [.entry (.real 1), .entry (.real 2)])
    maxStep := Scalar.ratio 1 1000000000000000000000 }

def lines {m : Nat} (y : Grid [m] K) : List K → Inquiry m K (List (Grid [m] K))
  | time :: next :: rest => do
    let rate ← Inquiry.rate time y
    return y :: (← lines (y.zipWith (fun a b => a + (next - time) * b) rate) (next :: rest))
  | _ => return [y]

theorem head_lines {m : Nat} {y : Grid [m] K} {times : List K}
    {rate : K → Grid [m] K → Except Fault (Grid [m] K)} {columns : List (Grid [m] K)}
    (h : (lines y times).answer rate = .ok columns) : columns.head? = some y := by
  unfold lines at h
  split at h
  · rw [Inquiry.answer_bind] at h
    obtain ⟨f, -, h⟩ := bind_eq_ok.1 h
    rw [Inquiry.answer_bind] at h
    obtain ⟨later, -, h⟩ := bind_eq_ok.1 h
    rw [← Except.ok.inj h]
    rfl
  · rw [← Except.ok.inj h]
    rfl

def adaptiveLines : Settings Float :=
  { Settings.standard with
    solver := .adaptive
    method := "LSODA"
    integrator := ⟨fun _ _ q => do
      return ⟨0, RungeKutta.endReached, ← lines q.initial q.times⟩⟩ }

theorem adaptiveLines_keepsInitial (x : Grid u Float) (times : List Float) :
    adaptiveLines.KeepsInitial x times := by
  rintro - first rest - rate found h -
  simp only [adaptiveLines, Inquiry.answer_bind] at h
  obtain ⟨columns, hcolumns, h⟩ := bind_eq_ok.1 h
  rw [← Except.ok.inj h]
  exact head_lines hcolumns

/-- A store that starts with 5 and gains 1 by a fixed step, and one that gains nothing: under an
integrator that finds so, and under one that fails. -/
theorem tank_starts_as_declared :
    (∃ r given axes y, (bucket .tank).run (.list [.list [.entry (.real 1), .entry (.real 0)]])
        ⟨[], [("s", .entry (.real 5))]⟩ .standard = .ok r ∧ r.rows.toList = [5, 6] ∧
      (bucket .tank).StartedRun (.list [.list [.entry (.real 1), .entry (.real 0)]])
        ⟨[], [("s", .entry (.real 5))]⟩ .standard r given axes y) ∧
    (∃ r given axes y, (bucket .tank).run (.list [.list [.entry (.real 0), .entry (.real 0)]])
        ⟨[], [("s", .entry (.real 5))]⟩ adaptiveLines = .ok r ∧ r.rows.toList = [5, 5] ∧
      (bucket .tank).StartedRun (.list [.list [.entry (.real 0), .entry (.real 0)]])
        ⟨[], [("s", .entry (.real 5))]⟩ adaptiveLines r given axes y ∧
      ∀ (x : Grid [1, 1] Float) times, adaptiveLines.KeepsInitial x times) ∧
    ∃ r given axes y, (bucket .tank).run (.list [.list [.entry (.real 0), .entry (.real 0)]])
        ⟨[], [("s", .entry (.real 5))]⟩ tinySteps = .ok r ∧
      r.warnings = [failureWarning RungeKutta.tooSmallStep] ∧
      (bucket .tank).StartedRun (.list [.list [.entry (.real 0), .entry (.real 0)]])
        ⟨[], [("s", .entry (.real 5))]⟩ tinySteps r given axes y := by
  obtain ⟨r, hrun, hrows⟩ : ∃ r, (bucket .tank).run
      (.list [.list [.entry (.real 1), .entry (.real 0)]]) ⟨[], [("s", .entry (.real 5))]⟩
      .standard = .ok r ∧ r.rows.toList = [5, 6] := exists_ok_of_check (by decide +kernel)
  obtain ⟨r', hrun', hrows'⟩ : ∃ r, (bucket .tank).run
      (.list [.list [.entry (.real 0), .entry (.real 0)]]) ⟨[], [("s", .entry (.real 5))]⟩
      adaptiveLines = .ok r ∧ r.rows.toList = [5, 5] := exists_ok_of_check (by decide +kernel)
  obtain ⟨r'', hrun'', hwarnings⟩ : ∃ r, (bucket .tank).run
      (.list [.list [.entry (.real 0), .entry (.real 0)]]) ⟨[], [("s", .entry (.real 5))]⟩
      tinySteps = .ok r ∧ r.warnings = [failureWarning RungeKutta.tooSmallStep] :=
    exists_ok_of_check (by decide +kernel)
  obtain ⟨given, axes, y, h⟩ := run_starts_as_declared (.bucket .tank) hrun
  obtain ⟨given', axes', y', h'⟩ := run_starts_as_declared (.bucket .tank) hrun'
  obtain ⟨given'', axes'', y'', h''⟩ := run_starts_as_declared (.bucket .tank) hrun''
  exact ⟨⟨r, given, axes, y, hrun, hrows, h⟩,
    ⟨r', given', axes', y', hrun', hrows', h', adaptiveLines_keepsInitial⟩,
    r'', given'', axes'', y'', hrun'', hwarnings, h''⟩

end Component

end Catchment
