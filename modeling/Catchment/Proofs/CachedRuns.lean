import Catchment.Run
import Catchment.Proofs.AcceptedRuns
import Catchment.Proofs.CallTexts
import Catchment.Proofs.PrintedFormulas

/-!
# Cached runs

A run takes its programs from a cache that all runs share and that outlasts a fault. Runs that come
one after the other return what each returns on its own, as long as no declaration names a variable
like a parameter and different texts have different digests.
-/
namespace Catchment

variable {K : Type} [Scalar K] {n t : Nat}

abbrev Cached (K : Type) [Scalar K] (α : Type) := ExceptT Fault (StateM (ProgramCache K)) α

def ProgramCache.From (cache : ProgramCache K) (calls : List (CompileCall K)) : Prop :=
  ∃ before ⊆ calls, cache.Holds before

/-- Whatever some calls left in a cache, the work returns what it returns without one, and leaves
nothing else there. -/
def Transparent (calls : List (CompileCall K)) {α : Type} (work : Cached K α)
    (plain : Except Fault α) : Prop :=
  ∀ cache : ProgramCache K, cache.From calls →
    (work.run.run cache).1 = plain ∧ (work.run.run cache).2.From calls

namespace Transparent

variable {calls : List (CompileCall K)} {α β : Type}

theorem lift (plain : Except Fault α) : Transparent calls (liftM plain : Cached K α) plain :=
  fun _ h => ⟨rfl, h⟩

theorem bind {work : Cached K α} {plain : Except Fault α} {next : α → Cached K β}
    {plainNext : α → Except Fault β} (h : Transparent calls work plain)
    (hnext : ∀ x, plain = .ok x → Transparent calls (next x) (plainNext x)) :
    Transparent calls (work >>= next) (plain >>= plainNext) := by
  intro cache hcache
  obtain ⟨hplain, hfrom⟩ := h cache hcache
  rw [ExceptT.run_bind, StateT.run_bind]
  cases hwork : work.run.run cache with
  | mk result after =>
    rw [hwork] at hplain hfrom
    obtain rfl : result = plain := hplain
    cases result with
    | error e => exact ⟨rfl, hfrom⟩
    | ok x => exact hnext x rfl after hfrom

end Transparent

namespace CompileCall

def cached (c : CompileCall K) : Cached K (Program K) := fun cache => cache.call c

def KeysApart (calls : List (CompileCall K)) : Prop :=
  ∀ a ∈ calls, ∀ b ∈ calls, a.key = b.key → a.fresh = b.fresh

theorem transparent_cached {calls : List (CompileCall K)} (hcalls : KeysApart calls)
    {c : CompileCall K} (hc : c ∈ calls) : Transparent calls c.cached c.fresh := by
  rintro cache ⟨before, hsub, hholds⟩
  obtain ⟨hanswer, hnext⟩ := hholds.call c
  refine ⟨hanswer.trans (served_eq_fresh fun a ha => hcalls a (hsub ha) c hc), _, ?_, hnext⟩
  exact List.append_subset.2 ⟨hsub, List.cons_subset.2 ⟨hc, List.nil_subset _⟩⟩

end CompileCall

open CompileCall

namespace Bucket

def fluxCall (b : Bucket K) (backend : Backend) : CompileCall K :=
  ⟨backend, b.ordered, b.rowsRead, b.outputs⟩

def rateCall (b : Bucket K) (backend : Backend) : CompileCall K :=
  ⟨backend, b.ordered ++ b.rates.map .state, b.rowsRead, b.states.map rateName⟩

def cachedRun (b : Bucket K) (d : RunData n t K) (rows : List (Grid [n, t] K)) :
    Cached K (Outcome n t K) := do
  let fluxes ← (b.fluxCall d.settings.backend).cached
  if b.states.isEmpty then
    return ⟨← fluxes.run rows d.timeBindings d.networkWeights, []⟩
  let rates ← (b.rateCall d.settings.backend).cached
  runStates fluxes rates d rows

theorem transparent_cachedRun {calls : List (CompileCall K)} (hcalls : KeysApart calls) {b : Bucket K}
    {d : RunData n t K} (hflux : b.fluxCall d.settings.backend ∈ calls)
    (hrate : ¬ b.states.isEmpty → b.rateCall d.settings.backend ∈ calls)
    (rows : List (Grid [n, t] K)) : Transparent calls (b.cachedRun d rows) (b.run d rows) := by
  refine .bind (transparent_cached hcalls hflux) fun fluxes _ => ?_
  by_cases hempty : b.states.isEmpty
  · simp only [if_pos hempty]
    exact .bind (.lift _) fun _ _ => .lift (.ok _)
  · simp only [if_neg hempty]
    exact .bind (transparent_cached hcalls (hrate hempty)) fun _ _ => .lift _

end Bucket

namespace Route

def fluxCall (r : Route K) (backend : Backend) : CompileCall K :=
  ⟨backend, r.ordered, r.rowsRead, r.fluxOutputs⟩

def rateCall (r : Route K) (backend : Backend) : CompileCall K :=
  ⟨backend, r.rates.map .state, r.rowsRead ++ r.outputs, r.states.map rateName⟩

def cachedRun (r : Route K) (d : RunData n t K) (rows : List (Grid [n, t] K)) :
    Cached K (Outcome n t K) :=
  if h : r.topology.size = n then do
    let fluxes ← (r.fluxCall d.settings.backend).cached
    let rates ← (r.rateCall d.settings.backend).cached
    let table : Vector (List (Fin n)) n := h ▸ r.topology.feeders
    r.runStates fluxes rates table.get d rows
  else liftM (mismatched (.routeNodes r.signature.name r.topology.size n) :
    Except Fault (Outcome n t K))

theorem transparent_cachedRun {calls : List (CompileCall K)} (hcalls : KeysApart calls) {r : Route K}
    {d : RunData n t K} (hflux : r.fluxCall d.settings.backend ∈ calls)
    (hrate : r.rateCall d.settings.backend ∈ calls) (rows : List (Grid [n, t] K)) :
    Transparent calls (r.cachedRun d rows) (r.run d rows) := by
  rw [cachedRun, run]
  by_cases hsize : r.topology.size = n
  · rw [dif_pos hsize, dif_pos hsize]
    exact .bind (transparent_cached hcalls hflux) fun _ _ =>
      .bind (transparent_cached hcalls hrate) fun _ _ => .lift _
  · rw [dif_neg hsize, dif_neg hsize]
    exact .lift _

end Route

namespace Component

mutual

def calls : Component K → Settings K → List (CompileCall K)
  | bucket b, s =>
    b.fluxCall s.backend :: if b.states.isEmpty then [] else [b.rateCall s.backend]
  | route r, s => [r.fluxCall s.backend, r.rateCall s.backend]
  | hydrograph _, _ => []
  | model w parts, s => callsOf w parts s

def callsOf (w : Wiring K) : List (Component K) → Settings K → List (CompileCall K)
  | [], _ => []
  | c :: rest, s => calls c (w.settingsFor c.name s) ++ callsOf w rest s

end

mutual

def cachedCompute {n t : Nat} (args : RunArguments K) :
    Component K → Settings K → List (Grid [n, t] K) → Cached K (Outcome n t K)
  | bucket b, s, rows => do b.cachedRun (← (bucket b).prepareFor n t args s) rows
  | route r, s, rows => do r.cachedRun (← (route r).prepareFor n t args s) rows
  | hydrograph h, s, rows => do h.run (← (hydrograph h).prepareFor n t args s) rows
  | model w parts, s, rows =>
    match args.missing? w.signature with
    | some cause => liftM (misconfigured cause : Except Fault (Outcome n t K))
    | none => do
      checkAll n t args w parts s
      let (rows, warnings) ← cachedComputeAll args w parts w.inputPlaces s rows
      return ⟨← rowsAt rows w.outputPlaces, warnings⟩

def cachedComputeAll {n t : Nat} (args : RunArguments K) (w : Wiring K) :
    List (Component K) → List (List Nat) → Settings K → List (Grid [n, t] K) →
      Cached K (List (Grid [n, t] K) × List String)
  | c :: rest, places :: more, s, rows => do
    let result ← cachedCompute args c (w.settingsFor c.name s) (← rowsAt rows places)
    let (rows, warnings) ← cachedComputeAll args w rest more s (rows ++ result.rows)
    return (rows, result.warnings ++ warnings)
  | _, _, _, rows => return (rows, [])

end

def cachedRun (c : Component K) (input : Nested K) (args : RunArguments K) (s : Settings K) :
    Cached K (RunResult K) := do
  let x ← input.toTensor
  let sig := c.signature
  match InputRows.ofTensor? x with
  | none => liftM (mismatched (.inputRank sig.owner x.shape) : Except Fault (RunResult K))
  | some given =>
    if given.rows.length != sig.inputs.length then
      liftM (mismatched (.inputCount sig.owner sig.inputs given.rows.length) :
        Except Fault (RunResult K))
    else
      let outcome ← c.cachedCompute args s given.rows
      return ⟨outcome.toTensor given.single, outcome.warnings⟩

variable {served : List (CompileCall K)} {args : RunArguments K}

theorem settings_of_prepareFor {c : Component K} {s : Settings K} {d : RunData n t K}
    (h : c.prepareFor n t args s = .ok d) : d.settings = s := by
  unfold prepareFor at h
  split at h
  · split at h
    · simp [mismatched] at h
    · exact (RunData.prepare_eq_ok h).1
  · exact (RunData.prepare_eq_ok h).1

mutual

theorem transparent_compute (hserved : KeysApart served) (c : Component K) (s : Settings K)
    (h : calls c s ⊆ served) (rows : List (Grid [n, t] K)) :
    Transparent served (cachedCompute args c s rows) (compute args c s rows) :=
  match c with
  | bucket b => by
    refine .bind (.lift _) fun d hd => ?_
    obtain rfl := settings_of_prepareFor hd
    exact Bucket.transparent_cachedRun hserved (h (by simp [calls]))
      (fun hempty => h (by simp [calls, hempty])) rows
  | route r => by
    refine .bind (.lift _) fun d hd => ?_
    obtain rfl := settings_of_prepareFor hd
    exact Route.transparent_cachedRun hserved (h (by simp [calls])) (h (by simp [calls])) rows
  | hydrograph u => .bind (.lift _) fun _ _ => .lift _
  | model w parts => by
    rw [cachedCompute, compute]
    cases args.missing? w.signature with
    | some cause => exact .lift _
    | none =>
      exact .bind (.lift _) fun _ _ =>
        .bind (transparent_computeAll hserved w parts w.inputPlaces s h rows) fun _ _ =>
          .bind (.lift _) fun _ _ => .lift (.ok _)

theorem transparent_computeAll (hserved : KeysApart served) (w : Wiring K)
    (parts : List (Component K)) (places : List (List Nat)) (s : Settings K)
    (h : callsOf w parts s ⊆ served) (rows : List (Grid [n, t] K)) :
    Transparent served (cachedComputeAll args w parts places s rows)
      (computeAll args w parts places s rows) :=
  match parts, places with
  | [], _ => by
    rw [cachedComputeAll, computeAll]
    · exact .lift (.ok _)
    all_goals simp
  | _ :: _, [] => by
    rw [cachedComputeAll, computeAll]
    · exact .lift (.ok _)
    all_goals simp
  | c :: rest, place :: more => by
    obtain ⟨hc, hrest⟩ := List.append_subset.1 h
    refine .bind (.lift _) fun _ _ => .bind (transparent_compute hserved c _ hc _) fun result _ => ?_
    exact .bind (transparent_computeAll hserved w rest more s hrest _) fun _ _ => .lift (.ok _)

end

theorem transparent_run (hserved : KeysApart served) {c : Component K} {s : Settings K}
    (h : calls c s ⊆ served) (input : Nested K) :
    Transparent served (c.cachedRun input args s) (c.run input args s) := by
  refine .bind (.lift _) fun x _ => ?_
  cases InputRows.ofTensor? x with
  | none => exact .lift _
  | some given =>
    dsimp only
    split
    · exact .lift _
    · exact .bind (transparent_compute hserved c s h _) fun _ _ => .lift (.ok _)

end Component

/-- A component with what it is run on. -/
structure Job (K : Type) [Scalar K] where
  component : Component K
  input : Nested K
  args : RunArguments K
  settings : Settings K

namespace Job

def run (j : Job K) : Except Fault (RunResult K) := j.component.run j.input j.args j.settings

def cachedRun (j : Job K) : Cached K (RunResult K) :=
  j.component.cachedRun j.input j.args j.settings

def calls (j : Job K) : List (CompileCall K) := j.component.calls j.settings

theorem transparent_run {served : List (CompileCall K)} (hserved : KeysApart served) (j : Job K)
    (h : j.calls ⊆ served) : Transparent served j.cachedRun j.run :=
  Component.transparent_run hserved h j.input

end Job

namespace ProgramCache

def results (cache : ProgramCache K) : List (Job K) → List (Except Fault (RunResult K))
  | [] => []
  | j :: rest => (j.cachedRun.run.run cache).1 :: results (j.cachedRun.run.run cache).2 rest

theorem results_eq_runs {served : List (CompileCall K)} (hserved : KeysApart served)
    {jobs : List (Job K)} (hjobs : ∀ j ∈ jobs, j.calls ⊆ served) {cache : ProgramCache K}
    (hcache : cache.From served) : cache.results jobs = jobs.map Job.run := by
  induction jobs generalizing cache with
  | nil => rfl
  | cons j rest ih =>
    obtain ⟨hj, hrest⟩ := List.forall_mem_cons.1 hjobs
    obtain ⟨hresult, hnext⟩ := j.transparent_run hserved hj cache hcache
    rw [results, List.map_cons, ← ih hrest hnext]
    exact congrArg (· :: _) hresult

/-- Runs that share a cache return what each returns on its own, if no declaration names a variable
like a parameter and the texts of their calls have different digests. -/
theorem results_eq_runs_of_names {N : String → Prop} {C : K → Prop} (hapart : Apart N C)
    {jobs : List (Job K)}
    (hnames : ∀ c ∈ jobs.flatMap Job.calls, ∀ f ∈ c.fluxes, f.WellNamed N C)
    (hdigests : ∀ a ∈ jobs.flatMap Job.calls, ∀ b ∈ jobs.flatMap Job.calls,
      a.key = b.key → a.text = b.text) :
    (empty : ProgramCache K).results jobs = jobs.map Job.run := by
  have hserved : KeysApart (jobs.flatMap Job.calls) := fun a ha b hb hkey => by
    rw [eq_of_text hapart (hnames a ha) (hnames b hb) (hdigests a ha b hb hkey)]
  exact results_eq_runs hserved (fun j hj c hc => List.mem_flatMap.2 ⟨j, hj, hc⟩)
    ⟨[], List.nil_subset _, empty_holds⟩

/-- In doubles the names are identifiers apart from the words for numbers, and no constant is
missing. -/
theorem results_eq_runs_of_doubles {jobs : List (Job Float)}
    (hnames : ∀ c ∈ jobs.flatMap Job.calls, ∀ f ∈ c.fluxes,
      f.WellNamed (fun v => isFormulaName v = true) fun x => Scalar.isNaN x = false)
    (hdigests : ∀ a ∈ jobs.flatMap Job.calls, ∀ b ∈ jobs.flatMap Job.calls,
      a.key = b.key → a.text = b.text) :
    (empty : ProgramCache Float).results jobs = jobs.map Job.run :=
  results_eq_runs_of_names apart_doubles hnames hdigests

end ProgramCache

end Catchment
