import Catchment.Proofs.EarlierColumns
import Catchment.Proofs.ReturnedNames
import Catchment.Proofs.TimeAxes

/-!
# Restarted runs

A run can be cut and restarted. What happens from a time on depends on the past through the states
of that time alone: a run over the later columns of the inputs, started from the states that the
whole run has in the first of them, returns the later columns of the whole run. It takes finite
times that increase: among times of which one is missing, a step may read another column once the
earlier ones are gone.
-/
namespace Catchment

variable {K : Type} [Scalar K] {n t t' o : Nat} {args args' : RunArguments K} {s : Settings K}

def Settings.window (s : Settings K) (o t' : Nat) : Settings K :=
  { s with times := s.times.map fun given =>
      match given.toTensor with
      | .ok ts => .tensor (.line ((ts.toList.drop o).take t'))
      | .error _ => given }

theorem Settings.window_of_times_eq_none (h : s.times = none) (o t' : Nat) : s.window o t' = s := by
  rw [window, h, Option.map_none, ← h]

/-- The times of a window increase with those of the run, also where they start at zero again. -/
theorem Settings.timesFor_window {times : { times : List K // times.length = t }}
    (hs : s.timesFor t = .ok times) (hstrict : StrictTimes times.val) (h : o + t' ≤ t) :
    ∃ times', (s.window o t').timesFor t' = .ok times' ∧ StrictTimes times'.val := by
  cases htimes : s.times with
  | none =>
    rw [window_of_times_eq_none htimes]
    have hfirst := timesFor_upTo hs (Nat.le_of_add_left_le h)
    rw [upTo_of_times_eq_none htimes] at hfirst
    exact ⟨_, hfirst, hstrict.window 0 t'⟩
  | some given =>
    obtain ⟨ts, hts, -, htimes'⟩ := (timesFor_eq_ok htimes).1 hs
    have hcut : (s.window o t').times = some (.tensor (.line ((ts.toList.drop o).take t'))) := by
      simp only [window, htimes, Option.map_some, hts]
    refine ⟨⟨(times.val.drop o).take t', ?_⟩, (timesFor_eq_ok hcut).2 ⟨_, rfl, rfl, ?_⟩,
      hstrict.window o t'⟩
    · rw [List.length_take, List.length_drop, times.property]
      omega
    · show _ = (times.val.drop o).take t'
      rw [← htimes']
      rfl

namespace RunArguments

def startingAt (args : RunArguments K) (states : List String) (x : String → Grid [n] K) :
    RunArguments K :=
  ⟨args.params, states.map fun v => (v, .tensor (.ofGrid (x v)))⟩

def Starts (args : RunArguments K) (v : String) (row : Grid [n] K) : Prop :=
  ∀ s : Settings K, s.stateIndex = none → args.stateRow s n v = .ok row

theorem starts_startingAt {states : List String} {v : String} (hv : v ∈ states)
    (x : String → Grid [n] K) : (args.startingAt states x).Starts v (x v) := by
  intro s hs
  have hvalue : initialValue (args.startingAt states x).states v = .tensor (.ofGrid (x v)) := by
    rw [initialValue, startingAt, lookup_map_self _ hv]
    rfl
  have hexpand : expandOne "Initial state" v n none (.tensor (.ofGrid (x v))) =
      .ok (x v).toList := by
    simp [expandOne, Nested.toTensor, Tensor.ofGrid, Tensor.toList]
  have hrow : RunData.nodeRow n (x v).toList = .ok (x v) := by
    have hlen : (x v).toList.length = Shape.size [n] := Vector.length_toList
    rw [RunData.nodeRow, Grid.ofList?, dif_pos hlen]
    rfl
  rw [stateRow, hs, hvalue]
  exact bind_eq_ok.2 ⟨none, rfl, bind_eq_ok.2 ⟨_, hexpand, hrow⟩⟩

end RunArguments

/-- Arguments that are accepted for a run are accepted for a window of it with other initial states,
and the times are as good as those of the window. -/
theorem RunData.prepare_restarted {sig : Signature} {d : RunData n t K}
    (hd : prepare sig n t args s = .ok d) (hs : s.Stepwise t) (hindex : s.stateIndex = none)
    (hparams : args'.params = args.params) (h : o + t' ≤ t) {rows : List (Grid [n] K)}
    (hrows : List.Forall₂ (fun v g => args'.Starts v g) sig.states rows) :
    ∃ d', prepare sig n t' args' (s.window o t') = .ok d' ∧
      (d.over h (s.window o t') rows).Retimes d' := by
  obtain ⟨htimes, -, hgiven, hweights, -, -⟩ := prepare_eq_ok_iff.1 hd
  have hstrict : StrictTimes d.times := hs.strict _ htimes
  obtain ⟨times', htimes', hstrict'⟩ := Settings.timesFor_window htimes hstrict h
  refine ⟨⟨times'.val, times'.property, d.params, d.weights, rows, s.window o t'⟩,
    prepare_eq_ok_iff.2 ⟨htimes', rfl, ?_, ?_, ?_, hrows.imp fun v g hg => hg _ hindex⟩,
    ⟨rfl, rfl, rfl, rfl, rfl, hs.solver, hs.solver, hstrict.window o t', hstrict'⟩⟩
  · simp only [RunArguments.paramRow, hparams] at hgiven ⊢
    exact hgiven
  · rw [← hweights, weightsFor, weightsFor, hparams]
  · exact ⟨none, by rw [show (s.window o t').stateIndex = none from hindex]; rfl⟩

def windowed (y : String → Grid [n, t] K) (h : o + t' ≤ t) : String → Grid [n, t'] K :=
  fun v => (y v).pick (.window h)

omit [Scalar K] in
theorem map_windowed (y : String → Grid [n, t] K) (h : o + t' ≤ t) (names : List String) :
    names.map (windowed y h) = (names.map y).map (Grid.pick (.window h)) := by
  rw [List.map_map]
  rfl

omit [Scalar K] in
theorem take_states (y : String → Grid [n, t] K) (j : Fin t) (states outputs : List String) :
    states.map (fun v => (y v).pick (.atTime j)) =
      (((states ++ outputs).map y).take states.length).map (Grid.pick (.atTime j)) := by
  rw [List.map_append, List.take_left' (List.length_map _), List.map_map]
  rfl

namespace Component

/-- Over rows by name a component returns the same in a window of a run, if its states start there
with what they are in the run. -/
def RestartsAlong (args args' : RunArguments K) (s : Settings K) (y : String → Grid [n, t] K)
    (h : o + t' ≤ t) (ho : o < t) (c : Component K) : Prop :=
  c.Returns args s y → (∀ v ∈ c.signature.states, args'.Starts v ((y v).pick (.atTime ⟨o, ho⟩))) →
    c.compute args' (s.window o t') (c.signature.inputs.map (windowed y h)) =
      .ok ⟨c.rowNames.map (windowed y h), c.warningsOver args s y⟩

variable [OrderedScalar K] {y : String → Grid [n, t] K} {h : o + t' ≤ t} {ho : o < t}
  (hs : s.Stepwise t) (hindex : s.stateIndex = none) (hparams : args'.params = args.params)
  (hn : 0 < n) (ht' : 0 < t')

include hs hindex hparams hn ht'

theorem restarts_bucket {b : Bucket K} (hlaws : ∀ f ∈ b.fluxes, f.lawName? = none) :
    (bucket b).RestartsAlong args args' s y h ho := by
  intro hreturns hstart
  obtain ⟨d, hd, hrun⟩ := bind_eq_ok.1 hreturns
  have hstart : List.Forall₂ (fun v g => args'.Starts v g) b.signature.states
      (b.states.map fun v => (y v).pick (.atTime ⟨o, ho⟩)) :=
    List.forall₂_map_right_iff.2 (List.forall₂_same.2 hstart)
  obtain ⟨d', hd', hretimes⟩ := RunData.prepare_restarted hd hs hindex hparams h hstart
  have hstrict := hs.strictTimes hd
  obtain ⟨rfl, hinit⟩ := RunData.prepare_eq_ok hd
  have hwindow := b.run_window hlaws (RunData.supplies_of_prepare hd) hinit
    hs.solver hstrict ⟨rfl, rfl, rfl, rfl⟩ h (.nodeTime ⟨0, hn⟩ ⟨0, ht'⟩) hrun ho
    (take_states y ⟨o, ho⟩ b.states b.outputs)
  rw [map_windowed, map_windowed]
  exact bind_eq_ok.2 ⟨d', hd', (hretimes.alike.run_bucket b _).trans hwindow⟩

theorem restarts_route {r : Route K} (hlaws : ∀ f ∈ r.fluxes, f.lawName? = none) :
    (route r).RestartsAlong args args' s y h ho := by
  intro hreturns hstart
  obtain ⟨d, hd, hrun⟩ := bind_eq_ok.1 hreturns
  obtain ⟨hsize, hd⟩ := prepareFor_route hd
  have hstart : List.Forall₂ (fun v g => args'.Starts v g) r.signature.states
      (r.states.map fun v => (y v).pick (.atTime ⟨o, ho⟩)) :=
    List.forall₂_map_right_iff.2 (List.forall₂_same.2 hstart)
  obtain ⟨d', hd', hretimes⟩ := RunData.prepare_restarted hd hs hindex hparams h hstart
  have hstrict := hs.strictTimes hd
  obtain ⟨rfl, hinit⟩ := RunData.prepare_eq_ok hd
  have hwindow := r.run_window hlaws (RunData.supplies_of_prepare hd) hinit
    hs.solver hstrict ⟨rfl, rfl, rfl, rfl⟩ h (.nodeTime ⟨0, hn⟩ ⟨0, ht'⟩) hrun ho
    (take_states y ⟨o, ho⟩ r.states r.outputs)
  rw [← prepareFor_route_of_size hsize] at hd'
  rw [map_windowed, map_windowed]
  exact bind_eq_ok.2 ⟨d', hd', (hretimes.alike.run_route r _).trans hwindow⟩

end Component

/-- The settings of a part for a window, where settings of its own set no times. -/
theorem Settings.lookup_window {settings : List (String × Settings K)}
    (hown : ∀ p ∈ settings, p.2.times = none) (name : String) (s : Settings K) (o t' : Nat) :
    (settings.lookup name).getD (s.window o t') =
      ((settings.lookup name).getD s).window o t' := by
  cases hlookup : settings.lookup name with
  | none => rfl
  | some own =>
    exact (window_of_times_eq_none (hown _ (mem_of_lookup_eq_some hlookup)) o t').symm

theorem Composition.mem_states_selected {d : Composition K} {whole : Signature} {v : String}
    (hv : v ∈ whole.states) (hselected : v ∈ d.selected whole) :
    v ∈ (d.selectedSignature whole).states := by
  unfold selectedSignature
  unfold selected at hselected
  cases houtputs : d.outputs with
  | none => exact hv
  | some rows =>
    rw [houtputs] at hselected
    exact List.mem_filter.2 ⟨hselected, List.contains_iff_mem.2 hv⟩

namespace Component

/-- A bucket or a route of formulas, or a model of such components that returns all states of its
parts. The settings that a model has for some of its parts set no times and no classes for the
states, and advance by fixed steps. -/
inductive Restartable (t : Nat) : Component K → Prop
  | bucket {b : Bucket K} (hlaws : ∀ f ∈ b.fluxes, f.lawName? = none) : Restartable t (.bucket b)
  | route {r : Route K} (hlaws : ∀ f ∈ r.fluxes, f.lawName? = none) : Restartable t (.route r)
  | model {d : Composition K} {c : Component K} (hparts : ∀ p ∈ d.parts, Restartable t p)
      (built : d.build = .ok c)
      (hown : ∀ p ∈ d.settings, p.2.times = none ∧ p.2.stateIndex = none ∧ p.2.Stepwise t)
      (hstates : ∀ p ∈ d.parts, ∀ v ∈ p.signature.states, v ∈ c.rowNames) : Restartable t c

variable {c : Component K}

theorem warningsOver_of_compute {y : String → Grid [n, t] K} {out : Outcome n t K}
    (h : c.compute args s (c.signature.inputs.map y) = .ok out) :
    c.warningsOver args s y = out.warnings := by
  rw [warningsOver, h]

theorem Restartable.composed (hc : c.Restartable t) : c.Composed := by
  induction hc with
  | bucket => exact .bucket _
  | route => exact .route _
  | model _ built _ _ ih => exact .model ih built

variable [OrderedScalar K]

/-- A component starts again inside of a run, through all nested models. -/
theorem Restartable.restarts (hc : c.Restartable t) (hs : s.Stepwise t)
    (hindex : s.stateIndex = none) (hparams : args'.params = args.params) (hn : 0 < n)
    (ht' : 0 < t') (y : String → Grid [n, t] K) (h : o + t' ≤ t) (ho : o < t) :
    c.RestartsAlong args args' s y h ho := by
  induction hc generalizing s y with
  | bucket hlaws => exact restarts_bucket hs hindex hparams hn ht' hlaws
  | route hlaws => exact restarts_route hs hindex hparams hn ht' hlaws
  | @model d _ hparts built hown hstates ih =>
    obtain ⟨-, ordered, hordered, hfault, rfl⟩ := Composition.build_eq_ok.1 built
    obtain ⟨hperm, horder⟩ := Composition.order_eq_ok hordered
    have hcomposed : ∀ p ∈ ordered, p.Composed := fun p hp =>
      (hparts p (hperm.mem_iff.1 hp)).composed
    have hinputs : (Component.model (d.wiring ordered) ordered).signature.inputs =
        (d.wholeSignature ordered).inputs := Composition.signature_wiring_inputs
    intro hreturns hstart
    rw [Returns, hinputs] at hreturns
    obtain ⟨z, hz, hpartial, hout⟩ :=
      (Composition.compute_wiring_named hcomposed horder hfault).1 hreturns
    obtain ⟨hrows, hwarnings⟩ := Outcome.mk.inj hout
    have hyz : ∀ v ∈ d.selected (d.wholeSignature ordered), y v = z v := List.map_inj_left.1 hrows
    have hpart (p : Component K) (hp : p ∈ ordered) :
        p.compute args' ((d.settings.lookup p.name).getD (s.window o t'))
          (p.signature.inputs.map (windowed z h)) =
            .ok ⟨p.rowNames.map (windowed z h),
              p.warningsOver args ((d.settings.lookup p.name).getD s) z⟩ := by
      rw [Settings.lookup_window fun q hq => (hown q hq).1]
      have hown : ((d.settings.lookup p.name).getD s).Stepwise t ∧
          ((d.settings.lookup p.name).getD s).stateIndex = none := by
        cases hlookup : d.settings.lookup p.name with
        | none => exact ⟨hs, hindex⟩
        | some own =>
          obtain ⟨-, hown⟩ := hown _ (mem_of_lookup_eq_some hlookup)
          exact hown.symm
      refine ih p (hperm.mem_iff.1 hp) hown.1 hown.2 z (hpartial p hp) fun v hv => ?_
      have hselected := hstates p (hperm.mem_iff.1 hp) v hv
      rw [← hyz v hselected]
      exact hstart v (Composition.mem_states_selected
        (mem_orderedUnion.2 ⟨_, List.mem_map_of_mem hp, hv⟩) hselected)
    rw [hinputs]
    refine (Composition.compute_wiring_named hcomposed horder hfault).2 ⟨windowed z h,
      fun v hv => ?_, fun p hp => returns_iff.2 ⟨_, hpart p hp⟩, ?_⟩
    · rw [windowed, windowed, hz v hv]
    · have hrows' : (d.selected (d.wholeSignature ordered)).map (windowed y h) =
          (d.selected (d.wholeSignature ordered)).map (windowed z h) := by
        rw [map_windowed, map_windowed, List.map_congr_left hyz]
      refine congrArg₂ Outcome.mk hrows' (hwarnings.trans (List.flatMap_congr fun p hp => ?_))
      exact (warningsOver_of_compute (hpart p hp)).symm

def InputRows.window (given : InputRows K) (h : o + t' ≤ given.times) : InputRows K :=
  ⟨given.nodes, t', given.rows.map (Grid.pick (.window h)), given.single⟩

/-- A run over a window of the inputs, with the times of the window if times are set and with every
state set at every node to its value in the first column of the window, returns the window of the
whole run. -/
theorem run_restarted {input input' : Nested K} {given : InputRows K}
    (hc : c.Restartable given.times) (hinputs : c.signature.inputs.Nodup)
    (hs : s.Stepwise given.times) (hindex : s.stateIndex = none) (hreads : given.Reads input)
    (h : o + t' ≤ given.times) (hreads' : (InputRows.window given h).Reads input')
    (hn : 0 < given.nodes) (ht' : 0 < t') {r : RunResult K} (hrun : c.run input args s = .ok r) :
    ∃ y : String → Grid [given.nodes, given.times] K,
      r = given.result (c.rowNames.map y) r.warnings ∧
      c.run input' (args.startingAt c.signature.states fun v => (y v).pick (.atTime ⟨o, by omega⟩))
        (s.window o t') =
          .ok ((InputRows.window given h).result (c.rowNames.map (windowed y h)) r.warnings) := by
  obtain ⟨hcount, out, hout, rfl⟩ := (run_eq_ok_of_reads hreads).1 hrun
  obtain ⟨x, hx, -⟩ := exists_rows_by_name hinputs hcount fun _ => Grid.replicate Scalar.zero
  rw [hx] at hout
  obtain ⟨y, hyx, hreturns, rfl⟩ := hc.composed.exists_returns hout
  have hread : c.signature.inputs.map x = c.signature.inputs.map y :=
    List.map_congr_left fun v hv => (hyx v hv).symm
  rw [hread] at hx
  have ho : o < given.times := by omega
  let resumed : RunArguments K := args.startingAt c.signature.states fun v =>
    (y v).pick (.atTime ⟨o, ho⟩)
  have hparams : resumed.params = args.params := rfl
  have hwindow := hc.restarts hs hindex hparams hn ht' y h ho hreturns fun v hv =>
    RunArguments.starts_startingAt hv _
  have hgiven : (InputRows.window given h).rows = c.signature.inputs.map (windowed y h) := by
    rw [map_windowed, ← hx]
    rfl
  refine ⟨y, rfl, (run_eq_ok_of_reads hreads').2 ⟨?_, _, hgiven ▸ hwindow, rfl⟩⟩
  exact (congrArg List.length hgiven).trans (List.length_map _)

end Component

/-- Among times of which one is missing, the tank reads the first inflow for its third step. Started
again from its content at the third time, it reads the inflow of that time. -/
theorem Bucket.tank_restarts_elsewhere :
    (∃ r, (Component.bucket tank).run (.list [.list [.entry (.real 1), .entry (.real 2),
        .entry (.real 3), .entry (.real 4)]]) ⟨[], []⟩ .lostTime = .ok r ∧
      r.rows.toList = [0, 4, 8, 9]) ∧
    ∃ r, (Component.bucket tank).run (.list [.list [.entry (.real 3), .entry (.real 4)]])
        ⟨[], [("s", .entry (.real 8))]⟩ (Settings.lostTime.window 2 2) = .ok r ∧
      r.rows.toList = [8, 11] :=
  ⟨exists_ok_of_check (by decide +kernel), exists_ok_of_check (by decide +kernel)⟩

end Catchment
