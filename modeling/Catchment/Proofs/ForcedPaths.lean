import Catchment.Proofs.TimeWindows

/-!
# Forced paths

The states of buckets and routes and the buffers of unit hydrographs are advanced in one way: at any
time their rate reads the state and the value that sampled columns have at that time. What a bucket
or a route returns begins with the states along its path.
-/
namespace Catchment

variable {K : Type} [Scalar K] {n t : Nat}

/-- The states at the times if their rate reads the values that columns have then. -/
def forcedPath {r u : Shape} (s : Settings K) (times : List K) (columns : List (Grid r K))
    (rate : Grid r K → Grid u K → Except Fault (Tensor K)) (x : Grid u K) :
    Except Fault (Trajectory u K) := do
  let forcing ← Forcing.make times columns
  advance s (fun v time => rate (forcing.value s.interpolation time) v) x times

theorem exists_rate_of_forcedPath {r u : Shape} {s : Settings K} {times : List K}
    {columns : List (Grid r K)} {rate : Grid r K → Grid u K → Except Fault (Tensor K)}
    {x : Grid u K} {path : Trajectory u K} (h : forcedPath s times columns rate x = .ok path) :
    ∃ rate : Rate u K, advance s rate x times = .ok path := by
  obtain ⟨forcing, -, h⟩ := bind_eq_ok.1 h
  exact ⟨_, h⟩

/-- Columns that start at given states lead to rows of states that do. -/
theorem stateRows_first {m : Nat} {columns : List (Grid [m, n] K)} {x : Grid [m, n] K}
    (hlen : columns.length = t) (hfirst : ∀ first ∈ columns.head?, first = x) (ht : 0 < t) :
    (stateRows m t columns).map (Grid.pick (.atTime ⟨0, ht⟩)) = x.rows := by
  have hlt : 0 < columns.length := by omega
  have hcolumn : columns[0] = x :=
    hfirst _ (by rw [List.head?_eq_getElem?, List.getElem?_eq_getElem hlt]; rfl)
  rw [stateRows_atTime ⟨0, ht⟩ hlt, hcolumn]

/-- The first rows of an outcome are the states along a path, and it has the warnings of the path. -/
structure Outcome.Follows (out : Outcome n t K) (d : RunData n t K)
    (path : Trajectory [d.initial.length, n] K) : Prop where
  advanced : ∃ rate, advance d.settings rate (Grid.stack d.initial) d.times = .ok path
  states : out.rows.take d.initial.length = stateRows d.initial.length t path.columns
  warnings : out.warnings = path.warnings

namespace Outcome.Follows

variable {d : RunData n t K} {path : Trajectory [d.initial.length, n] K} {out : Outcome n t K}

theorem warnings_eq_nil (h : out.Follows d path) (hsolver : d.settings.solver ≠ .adaptive) :
    out.warnings = [] := by
  obtain ⟨rate, hpath⟩ := h.advanced
  rw [h.warnings, ((advance_eq_ok hsolver).1 hpath).2]

/-- Along a path of fixed steps the first column of the states is the initial one. -/
theorem initial (h : out.Follows d path) (hsolver : d.settings.solver ≠ .adaptive) (ht : 0 < t) :
    d.initial = (out.rows.take d.initial.length).map (Grid.pick (.atTime ⟨0, ht⟩)) := by
  obtain ⟨rate, hpath⟩ := h.advanced
  obtain ⟨hmarch, -⟩ := (advance_eq_ok hsolver).1 hpath
  rw [h.states, stateRows_first (hmarch.length.trans d.times_length) hmarch.head ht,
    Grid.rows_stack]

end Outcome.Follows

namespace Bucket

def rateFrom {r s : Nat} (rates : Program K) (d : RunData n t K) (inputs : Grid [r, n] K)
    (u : Grid [s, n] K) : Except Fault (Tensor K) := do
  let values ← rates.run (inputs.rows ++ u.rows) d.nodeBindings d.networkWeights
  return .ofGrid (Grid.stack values)

/-- The states at the times of a run. -/
def path (b : Bucket K) (d : RunData n t K) (rows : List (Grid [n, t] K)) :
    Except Fault (Trajectory [d.initial.length, n] K) := do
  let rates ← b.rateProgram d.settings.backend
  forcedPath d.settings d.times (timeColumns rows) (rateFrom rates d) (Grid.stack d.initial)

theorem run_eq_path (b : Bucket K) (d : RunData n t K) (rows : List (Grid [n, t] K)) :
    b.run d rows = (do
      let fluxes ← b.fluxProgram d.settings.backend
      if b.states.isEmpty then
        return ⟨← fluxes.run rows d.timeBindings d.networkWeights, []⟩
      let path ← b.path d rows
      let states := stateRows d.initial.length t path.columns
      let outputs ← fluxes.run (rows ++ states) d.timeBindings d.networkWeights
      return ⟨states ++ outputs, path.warnings⟩) := by
  simp only [run, path, forcedPath, bind_assoc]
  rfl

/-- A bucket without states has no path to warn of; the others follow theirs. -/
theorem follows_of_run {b : Bucket K} {d : RunData n t K} {rows : List (Grid [n, t] K)}
    {out : Outcome n t K} (hrun : b.run d rows = .ok out) :
    (b.states = [] ∧ out.warnings = []) ∨ ∃ path, b.path d rows = .ok path ∧ out.Follows d path := by
  rw [run_eq_path] at hrun
  obtain ⟨fluxes, -, hrun⟩ := bind_eq_ok.1 hrun
  split at hrun
  · rename_i hempty
    obtain ⟨outs, -, hrun⟩ := bind_eq_ok.1 hrun
    rw [← Except.ok.inj hrun]
    exact .inl ⟨List.isEmpty_iff.1 hempty, rfl⟩
  · obtain ⟨path, hpath, hrun⟩ := bind_eq_ok.1 hrun
    obtain ⟨outs, -, hrun⟩ := bind_eq_ok.1 hrun
    rw [← Except.ok.inj hrun]
    obtain ⟨rates, -, hforced⟩ := bind_eq_ok.1 hpath
    exact .inr ⟨path, hpath, exists_rate_of_forcedPath hforced,
      List.take_left' (length_stateRows _), rfl⟩

end Bucket

namespace Route

def rateFrom {l s : Nat} (r : Route K) (fluxes rates : Program K) (feeders : Fin n → List (Fin n))
    (d : RunData n t K) (inputs : Grid [l, n] K) (u : Grid [s, n] K) :
    Except Fault (Tensor K) := do
  let known := inputs.rows ++ u.rows
  let local_ ← fluxes.run known d.nodeBindings d.networkWeights
  let inflow ← r.inflowOf feeders local_
  let values ← rates.run (known ++ local_ ++ [inflow]) d.nodeBindings d.networkWeights
  return .ofGrid (Grid.stack values)

/-- The states at the times of a run. -/
def path (r : Route K) (fluxes : Program K) (feeders : Fin n → List (Fin n)) (d : RunData n t K)
    (rows : List (Grid [n, t] K)) : Except Fault (Trajectory [d.initial.length, n] K) := do
  let rates ← r.rateProgram d.settings.backend
  forcedPath d.settings d.times (timeColumns rows) (r.rateFrom fluxes rates feeders d)
    (Grid.stack d.initial)

theorem run_eq_path {r : Route K} (hsize : r.topology.size = n) (d : RunData n t K)
    (rows : List (Grid [n, t] K)) :
    r.run d rows = (do
      let fluxes ← r.fluxProgram d.settings.backend
      let path ← r.path fluxes (r.topology.feedersAt hsize) d rows
      let states := stateRows d.initial.length t path.columns
      let outputs ← fluxes.run (rows ++ states) d.timeBindings d.networkWeights
      let inflow ← r.inflowOf (r.topology.feedersAt hsize) outputs
      return ⟨states ++ outputs ++ [inflow], path.warnings⟩) := by
  simp only [run, dif_pos hsize, path, forcedPath, bind_assoc]
  rfl

theorem follows_of_run {r : Route K} {d : RunData n t K} {rows : List (Grid [n, t] K)}
    {out : Outcome n t K} (hrun : r.run d rows = .ok out) :
    ∃ (hsize : r.topology.size = n) (fluxes : Program K)
      (path : Trajectory [d.initial.length, n] K),
      r.fluxProgram d.settings.backend = .ok fluxes ∧
        r.path fluxes (r.topology.feedersAt hsize) d rows = .ok path ∧ out.Follows d path := by
  obtain ⟨hsize, -⟩ := run_eq_ok.1 hrun
  rw [run_eq_path hsize] at hrun
  obtain ⟨fluxes, hfluxes, hrun⟩ := bind_eq_ok.1 hrun
  obtain ⟨path, hpath, hrun⟩ := bind_eq_ok.1 hrun
  obtain ⟨outs, -, hrun⟩ := bind_eq_ok.1 hrun
  obtain ⟨inflow, -, hrun⟩ := bind_eq_ok.1 hrun
  rw [← Except.ok.inj hrun]
  obtain ⟨rates, -, hforced⟩ := bind_eq_ok.1 hpath
  refine ⟨hsize, fluxes, path, hfluxes, hpath, exists_rate_of_forcedPath hforced, ?_, rfl⟩
  rw [List.append_assoc]
  exact List.take_left' (length_stateRows _)

end Route

namespace UnitHydrograph

variable {w : WeightGrid n K}

/-- The pending outflow at the times of a run. -/
def path (w : WeightGrid n K) (d : RunData n t K) (q : Grid [n, t] K) :
    Except Fault (Trajectory [w.width - 1, n] K) :=
  forcedPath d.settings d.times (q.columns (s := [n]))
    (fun inflow u => bufferRate w (fun _ => inflow) u Scalar.zero) (Grid.replicate Scalar.zero)

theorem buffered_eq_path (h : UnitHydrograph K) (w : WeightGrid n K) (d : RunData n t K)
    (q : Grid [n, t] K) :
    h.buffered w d q =
      if d.settings.solver = .adaptive then misconfigured (.fixedStepOnly h.signature.name)
      else if w.width ≤ 1 then return ⟨[immediate w q], []⟩
      else do
        let path ← path w d q
        let due := (stateRows (w.width - 1) t path.columns).headD (Grid.replicate Scalar.zero)
        return ⟨[(immediate w q).zipWith (· + ·) due], path.warnings⟩ := by
  simp only [buffered, path, forcedPath, bind_assoc]
  rfl

end UnitHydrograph

end Catchment
