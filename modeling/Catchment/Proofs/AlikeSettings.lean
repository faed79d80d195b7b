import Catchment.Proofs.ForcedPaths

/-!
# Alike settings

A run depends on its solver, its interpolation and its times only along the paths of its states and
buffers. So settings that lead along the same paths and agree otherwise agree in every run, through
all nested models.
-/
namespace Catchment

variable {K : Type} [Scalar K] {n t : Nat}

/-- One column per time leads along the same path, whatever a rate makes of it. -/
def Settings.SamePaths (s : Settings K) (times : List K) (s' : Settings K) (times' : List K) :
    Prop :=
  ∀ (r u : Shape) (columns : List (Grid r K)) (rate : Grid r K → Grid u K → Except Fault (Tensor K))
    (x : Grid u K), columns.length = times.length →
      forcedPath s' times' columns rate x = forcedPath s times columns rate x

theorem Settings.SamePaths.refl (s : Settings K) (times : List K) : s.SamePaths times s times :=
  fun _ _ _ _ _ _ => rfl

/-- The same data, but for settings and times that lead along the same paths. -/
structure RunData.Alike (d d' : RunData n t K) : Prop where
  params : d'.params = d.params
  weights : d'.weights = d.weights
  initial : d'.initial = d.initial
  backend : d'.settings.backend = d.settings.backend
  adaptive : d'.settings.solver = .adaptive ↔ d.settings.solver = .adaptive
  paths : d.settings.SamePaths d.times d'.settings d'.times

namespace RunData.Alike

variable {d d' : RunData n t K} (h : d.Alike d')

include h

theorem run_bucket (b : Bucket K) (rows : List (Grid [n, t] K)) : b.run d' rows = b.run d rows := by
  obtain ⟨times, htimes, params, weights, initial, s⟩ := d
  obtain ⟨times', htimes', params', weights', initial', s'⟩ := d'
  obtain ⟨rfl, rfl, rfl, hbackend, -, hpaths⟩ := h
  dsimp only at hbackend hpaths
  have hpath : b.path ⟨times', htimes', params', weights', initial', s'⟩ rows =
      b.path ⟨times, htimes, params', weights', initial', s⟩ rows := by
    simp only [Bucket.path, hbackend]
    refine bind_congr fun rates => ?_
    exact hpaths _ _ _ _ _ ((length_timeColumns rows).trans htimes.symm)
  rw [Bucket.run_eq_path, Bucket.run_eq_path, hpath, hbackend]
  rfl

theorem run_route (r : Route K) (rows : List (Grid [n, t] K)) : r.run d' rows = r.run d rows := by
  obtain ⟨times, htimes, params, weights, initial, s⟩ := d
  obtain ⟨times', htimes', params', weights', initial', s'⟩ := d'
  obtain ⟨rfl, rfl, rfl, hbackend, -, hpaths⟩ := h
  dsimp only at hbackend hpaths
  by_cases hsize : r.topology.size = n
  · have hpath (fluxes : Program K) :
        r.path fluxes (r.topology.feedersAt hsize)
            ⟨times', htimes', params', weights', initial', s'⟩ rows =
          r.path fluxes (r.topology.feedersAt hsize)
            ⟨times, htimes, params', weights', initial', s⟩ rows := by
      simp only [Route.path, hbackend]
      refine bind_congr fun rates => ?_
      exact hpaths _ _ _ _ _ ((length_timeColumns rows).trans htimes.symm)
    rw [Route.run_eq_path hsize, Route.run_eq_path hsize, hbackend]
    simp only [hpath]
    rfl
  · rw [Route.run, Route.run, dif_neg hsize, dif_neg hsize]

theorem run_hydrograph (u : UnitHydrograph K) (rows : List (Grid [n, t] K)) :
    u.run d' rows = u.run d rows := by
  have hbuffered (w : WeightGrid n K) (q : Grid [n, t] K) :
      u.buffered w d' q = u.buffered w d q := by
    have hcolumns : (q.columns (s := [n])).length = d.times.length := by
      rw [d.times_length]
      exact List.length_ofFn
    have hpath : UnitHydrograph.path w d' q = UnitHydrograph.path w d q :=
      h.paths _ _ _ _ _ hcolumns
    simp only [UnitHydrograph.buffered_eq_path, hpath, h.adaptive]
  simp only [UnitHydrograph.run, hbuffered, h.params]

end RunData.Alike

/-- Settings under which all runs over `t` times are the same. -/
structure Settings.Alike (t : Nat) (s s' : Settings K) : Prop where
  paramIndex : s'.paramIndex = s.paramIndex
  stateIndex : s'.stateIndex = s.stateIndex
  backend : s'.backend = s.backend
  adaptive : s'.solver = .adaptive ↔ s.solver = .adaptive
  refused : ∀ f, s'.timesFor t = .error f ↔ s.timesFor t = .error f
  paths : ∀ times times', s.timesFor t = .ok times → s'.timesFor t = .ok times' →
    s.SamePaths times.val s' times'.val

theorem Settings.Alike.refl (t : Nat) (s : Settings K) : s.Alike t s where
  paramIndex := rfl
  stateIndex := rfl
  backend := rfl
  adaptive := Iff.rfl
  refused _ := Iff.rfl
  paths times times' h h' := by
    obtain rfl := Except.ok.inj (h.symm.trans h')
    exact .refl s times.val

variable {s s' : Settings K} {args : RunArguments K}

/-- What follows the check of the arguments is the same if it is the same over the same data. -/
theorem Settings.Alike.prepare_bind (h : s.Alike t s') (sig : Signature) {α : Type}
    {next : RunData n t K → Except Fault α}
    (hnext : ∀ d d' : RunData n t K, d.Alike d' → next d' = next d) :
    (RunData.prepare sig n t args s' >>= next) = (RunData.prepare sig n t args s >>= next) := by
  simp only [RunData.prepare, h.paramIndex, h.stateIndex, bind_assoc, pure_bind]
  cases htimes : s.timesFor t with
  | error f => rw [(h.refused f).2 htimes, error_bind, error_bind]
  | ok times => cases htimes' : s'.timesFor t with
    | error f => exact absurd (htimes.symm.trans ((h.refused f).1 htimes')) (by simp)
    | ok times' =>
      simp only [ok_bind]
      refine bind_congr fun params => bind_congr fun rows => bind_congr fun weights =>
        bind_congr fun states => bind_congr fun initial => hnext _ _ ?_
      exact ⟨rfl, rfl, rfl, h.backend, h.adaptive, h.paths times times' htimes htimes'⟩

/-- The wiring with other settings for the parts that have settings of their own. -/
def Wiring.mapSettings {K : Type} (w : Wiring K) (f : Settings K → Settings K) : Wiring K :=
  { w with settings := w.settings.map fun p => (p.1, f p.2) }

namespace Component

mutual

/-- The component with other settings for the parts that have settings of their own. -/
def mapSettings (f : Settings K → Settings K) : Component K → Component K
  | model w parts => model (w.mapSettings f) (mapSettingsAll f parts)
  | bucket b => bucket b
  | route r => route r
  | hydrograph u => hydrograph u

def mapSettingsAll (f : Settings K → Settings K) : List (Component K) → List (Component K)
  | [] => []
  | c :: rest => mapSettings f c :: mapSettingsAll f rest

end

variable {f : Settings K → Settings K}

@[simp] theorem signature_mapSettings (c : Component K) :
    (c.mapSettings f).signature = c.signature := by
  cases c <;> rw [mapSettings]
  rfl

@[simp] theorem name_mapSettings (c : Component K) : (c.mapSettings f).name = c.name := by
  rw [name, name, signature_mapSettings]

mutual

theorem mapSettings_id : ∀ c : Component K, c.mapSettings id = c
  | model w parts => by
    have hw : w.mapSettings id = w := by simp [Wiring.mapSettings]
    rw [mapSettings, hw, mapSettingsAll_id parts]
  | bucket b => by rw [mapSettings]
  | route r => by rw [mapSettings]
  | hydrograph u => by rw [mapSettings]

theorem mapSettingsAll_id : ∀ parts : List (Component K), mapSettingsAll id parts = parts
  | [] => by rw [mapSettingsAll]
  | c :: rest => by rw [mapSettingsAll, mapSettings_id c, mapSettingsAll_id rest]

end

theorem settingsFor_mapSettings (hf : ∀ own : Settings K, own.Alike t (f own)) (w : Wiring K)
    (name : String) (h : s.Alike t s') :
    (w.settingsFor name s).Alike t ((w.mapSettings f).settingsFor name s') := by
  rw [Wiring.settingsFor, Wiring.settingsFor, Wiring.mapSettings, lookup_map_snd]
  cases w.settings.lookup name with
  | none => exact h
  | some own => exact hf own

theorem prepareFor_bind (h : s.Alike t s') (c : Component K) {α : Type}
    {next : RunData n t K → Except Fault α}
    (hnext : ∀ d d' : RunData n t K, d.Alike d' → next d' = next d) :
    (c.prepareFor n t args s' >>= next) = (c.prepareFor n t args s >>= next) := by
  cases c with
  | route r =>
    simp only [prepareFor]
    cases r.nodesFault? n with
    | none => exact h.prepare_bind r.signature hnext
    | some cause => rfl
  | bucket b => exact h.prepare_bind b.signature hnext
  | hydrograph u => exact h.prepare_bind u.signature hnext
  | model w parts => exact h.prepare_bind w.signature hnext

mutual

theorem check_mapSettings (hf : ∀ own : Settings K, own.Alike t (f own)) :
    ∀ (c : Component K) {s s' : Settings K}, s.Alike t s' →
      check n t args (c.mapSettings f) s' = check n t args c s
  | model w parts, _, _, h => by
    rw [mapSettings, check, check]
    exact checkAll_mapSettings hf w parts h
  | bucket b, _, _, h => by
    rw [mapSettings]
    exact prepareFor_bind h (bucket b) fun _ _ _ => rfl
  | route r, _, _, h => by
    rw [mapSettings]
    exact prepareFor_bind h (route r) fun _ _ _ => rfl
  | hydrograph u, _, _, h => by
    rw [mapSettings]
    exact prepareFor_bind h (hydrograph u) fun _ _ _ => rfl

theorem checkAll_mapSettings (hf : ∀ own : Settings K, own.Alike t (f own)) (w : Wiring K) :
    ∀ (parts : List (Component K)) {s s' : Settings K}, s.Alike t s' →
      checkAll n t args (w.mapSettings f) (mapSettingsAll f parts) s' = checkAll n t args w parts s
  | [], _, _, _ => by rw [mapSettingsAll, checkAll, checkAll]
  | c :: rest, _, _, h => by
    rw [mapSettingsAll, checkAll, checkAll, name_mapSettings,
      check_mapSettings hf c (settingsFor_mapSettings hf w c.name h)]
    exact bind_congr fun _ => checkAll_mapSettings hf w rest h

end

mutual

theorem compute_mapSettings (hf : ∀ own : Settings K, own.Alike t (f own)) :
    ∀ (c : Component K) {s s' : Settings K}, s.Alike t s' → ∀ rows : List (Grid [n, t] K),
      compute args (c.mapSettings f) s' rows = compute args c s rows
  | model w parts, _, _, h, rows => by
    rw [mapSettings, compute, compute, checkAll_mapSettings hf w parts h]
    show (match args.missing? w.signature with
      | some cause => _
      | none => _) = _
    cases args.missing? w.signature with
    | some cause => rfl
    | none =>
      refine bind_congr fun _ => ?_
      have hall := computeAll_mapSettings hf w parts w.inputPlaces h rows
      rw [← hall]
      rfl
  | bucket b, _, _, h, rows => by
    rw [mapSettings, compute, compute]
    exact prepareFor_bind h (bucket b) fun _ _ hd => hd.run_bucket b rows
  | route r, _, _, h, rows => by
    rw [mapSettings, compute, compute]
    exact prepareFor_bind h (route r) fun _ _ hd => hd.run_route r rows
  | hydrograph u, _, _, h, rows => by
    rw [mapSettings, compute, compute]
    exact prepareFor_bind h (hydrograph u) fun _ _ hd => hd.run_hydrograph u rows

theorem computeAll_mapSettings (hf : ∀ own : Settings K, own.Alike t (f own)) (w : Wiring K) :
    ∀ (parts : List (Component K)) (places : List (List Nat)) {s s' : Settings K}, s.Alike t s' →
      ∀ rows : List (Grid [n, t] K),
      computeAll args (w.mapSettings f) (mapSettingsAll f parts) places s' rows =
        computeAll args w parts places s rows
  | [], _, _, _, _, rows => by
    rw [mapSettingsAll, computeAll, computeAll]
    all_goals simp
  | c :: rest, [], _, _, _, rows => by
    rw [mapSettingsAll, computeAll, computeAll]
    all_goals simp
  | c :: rest, place :: more, _, _, h, rows => by
    rw [mapSettingsAll, computeAll, computeAll, name_mapSettings]
    refine bind_congr fun inputs => ?_
    rw [compute_mapSettings hf c (settingsFor_mapSettings hf w c.name h)]
    refine bind_congr fun result => ?_
    rw [computeAll_mapSettings hf w rest more h]

end

/-- A component returns the same, or ends in the same fault, under alike settings of the run and of
all parts that have settings of their own. -/
theorem run_mapSettings {input : Nested K} (h : ∀ given : InputRows K, given.Reads input →
    s.Alike given.times s' ∧ ∀ own : Settings K, own.Alike given.times (f own))
    (c : Component K) (args : RunArguments K) :
    (c.mapSettings f).run input args s' = c.run input args s := by
  unfold run
  rw [signature_mapSettings]
  cases hx : input.toTensor with
  | error e => rfl
  | ok x =>
    rw [ok_bind, ok_bind]
    cases hgiven : InputRows.ofTensor? x with
    | none => rfl
    | some given =>
      obtain ⟨hs, hf⟩ := h given ⟨x, hx, hgiven⟩
      simp only [compute_mapSettings hf c hs]

/-- The same with parts that keep their settings. -/
theorem run_alike {input : Nested K} (h : ∀ given : InputRows K, given.Reads input →
    s.Alike given.times s') (c : Component K) (args : RunArguments K) :
    c.run input args s' = c.run input args s := by
  have hsame := run_mapSettings (f := id)
    (fun given hgiven => ⟨h given hgiven, .refl given.times⟩) c args
  rwa [mapSettings_id] at hsame

end Component

end Catchment
