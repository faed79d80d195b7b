import Catchment.Proofs.ForcedPaths
import Catchment.Proofs.SpreadMethods

/-!
# Earlier columns

Runs with a fixed-step solver are causal: over finite times that increase, a run of the first
columns of the inputs returns the first columns of the whole run. This goes for buckets and routes
of formulas, for unit hydrographs, and through models of them. It takes the increasing times: among
times of which one is missing, a step may read a column of a later place.
-/
namespace Catchment

variable {K : Type} [Scalar K] {n t t' : Nat} {args : RunArguments K} {s : Settings K}

def Index.upTo (h : t' ≤ t) : Index [n, t'] → Index [n, t] := .window (o := 0) (by omega)

def Outcome.upTo (out : Outcome n t K) (h : t' ≤ t) : Outcome n t' K :=
  ⟨out.rows.map (Grid.pick (.upTo h)), out.warnings⟩

def Tensor.line {α : Type} (xs : List α) : Tensor α :=
  .ofGrid (s := [xs.length]) ⟨⟨xs.toArray, by simp⟩⟩

/-- The settings for the first columns of a run: of times that are set only the first remain. -/
def Settings.upTo (s : Settings K) (t' : Nat) : Settings K :=
  { s with times := s.times.map fun given =>
      match given.toTensor with
      | .ok ts => .tensor (.line (ts.toList.take t'))
      | .error _ => given }

theorem Settings.sameSteps_upTo (s : Settings K) (t' : Nat) : s.SameSteps (s.upTo t') :=
  ⟨rfl, rfl, rfl, rfl⟩

theorem Settings.upTo_of_times_eq_none (h : s.times = none) (t' : Nat) : s.upTo t' = s := by
  rw [upTo, h, Option.map_none, ← h]

theorem Settings.timesFor_eq_ok {given : Nested K} (hgiven : s.times = some given)
    {times : { times : List K // times.length = t }} :
    s.timesFor t = .ok times ↔
      ∃ ts, given.toTensor = .ok ts ∧ ts.shape.length = 1 ∧ ts.toList = times.val := by
  rw [timesFor, hgiven, bind_eq_ok]
  refine exists_congr fun ts => and_congr_right fun hts => ?_
  by_cases hshape : ts.shape.length = 1
  · by_cases hcount : ts.toList.length = t
    · simp only [hshape, hcount, if_true, dif_pos, pure_eq_ok, Except.ok.injEq, true_and]
      exact ⟨fun h => congrArg Subtype.val h, fun h => Subtype.ext h⟩
    · simp only [hshape, hcount, if_true, dif_neg, not_false_iff, true_and]
      refine iff_of_false (by simp [mismatched]) ?_
      rintro h
      exact hcount (h ▸ times.property)
  · simp [hshape, mismatched]

theorem Settings.timesFor_upTo {times : { times : List K // times.length = t }}
    (hs : s.timesFor t = .ok times) (h : t' ≤ t) : (s.upTo t').timesFor t' =
      .ok ⟨times.val.take t', by rw [List.length_take, times.property]; omega⟩ := by
  cases htimes : s.times with
  | none =>
    rw [upTo_of_times_eq_none htimes]
    unfold timesFor at hs ⊢
    rw [htimes] at hs ⊢
    obtain rfl := Except.ok.inj hs
    refine congrArg Except.ok (Subtype.ext ?_)
    show _ = (List.map _ (List.range t)).take t'
    rw [← List.map_take, List.take_range, Nat.min_eq_left h]
  | some given =>
    obtain ⟨ts, hts, -, htimes'⟩ := (timesFor_eq_ok htimes).1 hs
    have hcut : (s.upTo t').times = some (.tensor (.line (ts.toList.take t'))) := by
      simp only [upTo, htimes, Option.map_some, hts]
    refine (timesFor_eq_ok hcut).2 ⟨_, rfl, rfl, ?_⟩
    show _ = times.val.take t'
    rw [← htimes']
    rfl

theorem Settings.Stepwise.upTo (hs : s.Stepwise t) (h : t' ≤ t)
    {times : { times : List K // times.length = t }} (htimes : s.timesFor t = .ok times) :
    (s.upTo t').Stepwise t' where
  solver := hs.solver
  strict times' htimes' := by
    obtain rfl := Except.ok.inj ((timesFor_upTo htimes h).symm.trans htimes')
    exact (hs.strict _ htimes).window 0 t'

/-- Arguments that are accepted for a run are accepted for its first columns. -/
theorem RunData.prepare_upTo {sig : Signature} {d : RunData n t K}
    (hd : prepare sig n t args s = .ok d) (h : t' ≤ t) :
    prepare sig n t' args (s.upTo t') =
      .ok (d.over (o := 0) (by omega) (s.upTo t') d.initial) := by
  obtain ⟨htimes, -, hparams, hweights, hinitial⟩ := prepare_eq_ok_iff.1 hd
  exact prepare_eq_ok_iff.2
    ⟨Settings.timesFor_upTo htimes h, rfl, hparams, hweights, hinitial⟩

section

variable {d : RunData n t K} {rows : List (Grid [n, t] K)} {out : Outcome n t K}

theorem Bucket.initial_of_run {b : Bucket K} (hinit : d.initial.length = b.states.length)
    (hsolver : d.settings.solver ≠ .adaptive) (ht : 0 < t) (hrun : b.run d rows = .ok out) :
    d.initial = (out.rows.take b.states.length).map (Grid.pick (.atTime ⟨0, ht⟩)) := by
  obtain ⟨hempty, -⟩ | ⟨path, -, hfollows⟩ := b.follows_of_run hrun
  · rw [hempty] at hinit ⊢
    rw [List.length_eq_zero_iff.1 hinit]
    rfl
  · rw [← hinit]
    exact hfollows.initial hsolver ht

theorem Route.initial_of_run {r : Route K} (hinit : d.initial.length = r.states.length)
    (hsolver : d.settings.solver ≠ .adaptive) (ht : 0 < t) (hrun : r.run d rows = .ok out) :
    d.initial = (out.rows.take r.states.length).map (Grid.pick (.atTime ⟨0, ht⟩)) := by
  obtain ⟨-, -, path, -, -, hfollows⟩ := r.follows_of_run hrun
  rw [← hinit]
  exact hfollows.initial hsolver ht

end

theorem weightedSum_congr_le {count : Nat} {share flow flow' : Nat → K} {j : Nat}
    (h : ∀ k ≤ j, flow' k = flow k) :
    weightedSum count share flow' j = weightedSum count share flow j := by
  refine congrArg Scalar.sum (List.map_congr_left fun k _ => ?_)
  rw [h _ (Nat.sub_le j k)]

theorem held_congr_lt (minValue : Option K) (places : Nat) (share : Nat → K) {flow flow' : Nat → K}
    {j : Nat} (h : ∀ k < j, flow' k = flow k) (k : Nat) :
    held minValue places share flow' j k = held minValue places share flow j k := by
  induction j generalizing k with
  | zero => rfl
  | succ j ih =>
    have hbefore := ih fun k hk => h k (Nat.lt_succ_of_lt hk)
    simp only [held, hbefore, h j (Nat.lt_succ_self j)]

namespace UnitHydrograph

theorem outflow_congr_le {minValue : Option K} {width : Nat} {share flow flow' : Nat → K} {j : Nat}
    (h : ∀ k ≤ j, flow' k = flow k) :
    outflow minValue width share flow' j = outflow minValue width share flow j := by
  have hheld := held_congr_lt minValue (width - 1) share (fun k hk => h k (Nat.le_of_lt hk)) 0
  rw [outflow, outflow, h j (Nat.le_refl j), hheld]

end UnitHydrograph

theorem Grid.series_upTo (q : Grid [n, t] K) (h : t' ≤ t) (i : Fin n) {j : Nat} (hj : j < t') :
    (q.pick (.upTo h)).series i j = q.series i j := by
  rw [series_of_lt _ i hj, series_of_lt _ i (Nat.lt_of_lt_of_le hj h), get_pick]
  refine congrArg (fun k => q.get (.nodeTime i k)) (Fin.ext ?_)
  exact Nat.zero_add j

namespace UnitHydrograph

variable {u : UnitHydrograph K} {d : RunData n t K} {rows : List (Grid [n, t] K)}
  {out : Outcome n t K}

theorem convolve_upTo (w : WeightGrid n K) (q : Grid [n, t] K) (h : t' ≤ t) :
    convolve w (q.pick (.upTo h)) = (convolve w q).pick (.upTo h) := by
  refine Grid.ext_get fun c => ?_
  have hlt : c.tail.head.val < t' := c.tail.head.isLt
  rw [Grid.get_pick]
  refine (get_convolve w _ c.head c.tail.head).trans
    (Eq.trans ?_ (get_convolve w q c.head (Index.upTo h c).tail.head).symm)
  rw [show (Index.upTo h c).tail.head.val = c.tail.head.val from Nat.zero_add _]
  exact weightedSum_congr_le fun k hk => q.series_upTo h c.head (by omega)

theorem run_upTo [OrderedScalar K] (hsolver : d.settings.solver ≠ .adaptive)
    (hstrict : StrictTimes d.times) (h : t' ≤ t) (ht' : 0 < t') (hrun : u.run d rows = .ok out) :
    u.run (d.over (o := 0) (by omega) (d.settings.upTo t') d.initial)
      (rows.map (Grid.pick (.upTo h))) = .ok (out.upTo h) := by
  obtain ⟨q, hq, hrun⟩ := bind_eq_ok.1 hrun
  obtain ⟨lags, hlags, hrun⟩ := bind_eq_ok.1 hrun
  obtain ⟨w, hw, hrun⟩ := bind_eq_ok.1 hrun
  have hq' : Values.orFault .position (rows.map (Grid.pick (.upTo h))).head? =
      .ok (q.pick (.upTo h)) := by
    rw [orFault_eq_ok] at hq ⊢
    rw [List.head?_map, hq]
    rfl
  have hwidth := width_pos_of_weightsFor hw
  refine bind_eq_ok.2 ⟨_, hq', bind_eq_ok.2 ⟨lags, hlags, bind_eq_ok.2 ⟨w, hw, ?_⟩⟩⟩
  cases hmethod : u.method with
  | sparse =>
    rw [hmethod] at hrun
    rw [← Except.ok.inj hrun]
    dsimp only
    rw [convolve_upTo]
    rfl
  | discrete =>
    rw [hmethod] at hrun
    rw [← Except.ok.inj ((buffered_eq hsolver hstrict (by omega) hwidth).symm.trans hrun)]
    refine (buffered_eq (d := d.over (o := 0) (by omega) (d.settings.upTo t') d.initial) hsolver
      (hstrict.window 0 t') ht' hwidth).trans ?_
    refine congrArg (fun row : Grid [n, t'] K => Except.ok (Outcome.mk [row] []))
      (Grid.ext_get fun c => ?_)
    rw [Grid.get_ofFn, Grid.get_pick, Grid.get_ofFn,
      show (Index.upTo h c).tail.head.val = c.tail.head.val from Nat.zero_add _]
    exact outflow_congr_le fun k hk => q.series_upTo h c.head
      (Nat.lt_of_le_of_lt hk c.tail.head.isLt)

end UnitHydrograph

namespace Component

/-- A bucket or a route of formulas, a unit hydrograph, or a model of such components. The settings
that a model has for some of its parts set no times, and advance by fixed steps. -/
inductive StepsAlong (t : Nat) : Component K → Prop
  | bucket {b : Bucket K} (hlaws : ∀ f ∈ b.fluxes, f.lawName? = none) : StepsAlong t (.bucket b)
  | route {r : Route K} (hlaws : ∀ f ∈ r.fluxes, f.lawName? = none) : StepsAlong t (.route r)
  | hydrograph (u : UnitHydrograph K) : StepsAlong t (.hydrograph u)
  | model {w : Wiring K} {parts : List (Component K)}
      (hown : ∀ p ∈ w.settings, p.2.times = none ∧ p.2.Stepwise t)
      (hparts : ∀ c ∈ parts, StepsAlong t c) : StepsAlong t (.model w parts)

section

variable {w : Wiring K} (hown : ∀ p ∈ w.settings, p.2.times = none ∧ p.2.Stepwise t)

include hown

theorem settingsFor_upTo (name : String) (s : Settings K) (t' : Nat) :
    w.settingsFor name (s.upTo t') = (w.settingsFor name s).upTo t' := by
  unfold Wiring.settingsFor
  cases hlookup : w.settings.lookup name with
  | none => rfl
  | some own =>
    exact (Settings.upTo_of_times_eq_none (hown _ (mem_of_lookup_eq_some hlookup)).1 t').symm

theorem stepwise_settingsFor (hs : s.Stepwise t) (name : String) :
    (w.settingsFor name s).Stepwise t := by
  unfold Wiring.settingsFor
  cases hlookup : w.settings.lookup name with
  | none => exact hs
  | some own => exact (hown _ (mem_of_lookup_eq_some hlookup)).2

theorem checkAll_upTo {parts : List (Component K)}
    (hparts : ∀ c ∈ parts, ∀ s, check n t args c s = .ok () →
      check n t' args c (s.upTo t') = .ok ())
    (hcheck : checkAll n t args w parts s = .ok ()) :
    checkAll n t' args w parts (s.upTo t') = .ok () := by
  induction parts with
  | nil => rfl
  | cons c parts ih =>
    obtain ⟨_, hc, hrest⟩ := bind_eq_ok.1 hcheck
    have hc' := hparts c List.mem_cons_self _ hc
    rw [← settingsFor_upTo hown] at hc'
    exact bind_eq_ok.2 ⟨_, hc', ih (fun p hp => hparts p (List.mem_cons_of_mem c hp)) hrest⟩

omit [Scalar K] hown in
theorem rowsAt_upTo (h : t' ≤ t) {rows found : List (Grid [n, t] K)} {places : List Nat}
    (hfound : rowsAt rows places = .ok found) :
    rowsAt (rows.map (Grid.pick (.upTo h))) places = .ok (found.map (Grid.pick (.upTo h))) := by
  refine mapM_eq_ok.2 (List.forall₂_map_right_iff.2 ((mapM_eq_ok.1 hfound).imp fun k g hg => ?_))
  rw [orFault_eq_ok] at hg ⊢
  rw [List.getElem?_map, hg]
  rfl

theorem computeAll_upTo (h : t' ≤ t) (hs : s.Stepwise t) {parts : List (Component K)}
    (hparts : ∀ c ∈ parts, ∀ (s : Settings K) (rows : List (Grid [n, t] K)) (out : Outcome n t K),
      s.Stepwise t → c.compute args s rows = .ok out →
        c.compute args (s.upTo t') (rows.map (Grid.pick (.upTo h))) = .ok (out.upTo h))
    {places : List (List Nat)} {rows : List (Grid [n, t] K)}
    {table : List (Grid [n, t] K) × List String}
    (hrun : computeAll args w parts places s rows = .ok table) :
    computeAll args w parts places (s.upTo t') (rows.map (Grid.pick (.upTo h))) =
      .ok (table.1.map (Grid.pick (.upTo h)), table.2) := by
  induction parts generalizing places rows table with
  | nil =>
    obtain rfl := Except.ok.inj hrun
    rfl
  | cons c parts ih =>
    cases places with
    | nil =>
      obtain rfl := Except.ok.inj hrun
      rfl
    | cons here places =>
      obtain ⟨given, hgiven, hrun⟩ := bind_eq_ok.1 hrun
      obtain ⟨out, hout, hrun⟩ := bind_eq_ok.1 hrun
      obtain ⟨table', htable, hrun⟩ := bind_eq_ok.1 hrun
      obtain rfl := Except.ok.inj hrun
      have hout' := hparts c List.mem_cons_self _ given out
        (stepwise_settingsFor hown hs c.name) hout
      rw [← settingsFor_upTo hown] at hout'
      have hrest := ih (fun p hp => hparts p (List.mem_cons_of_mem c hp)) htable
      rw [List.map_append] at hrest
      exact bind_eq_ok.2 ⟨_, rowsAt_upTo h hgiven, bind_eq_ok.2 ⟨_, hout', bind_eq_ok.2
        ⟨_, hrest, rfl⟩⟩⟩

end

variable {c : Component K}

theorem check_upTo (hc : c.StepsAlong t) (h : t' ≤ t) (hcheck : check n t args c s = .ok ()) :
    check n t' args c (s.upTo t') = .ok () := by
  induction hc generalizing s with
  | bucket | hydrograph =>
    obtain ⟨d, hd, -⟩ := bind_eq_ok.1 hcheck
    exact bind_eq_ok.2 ⟨_, RunData.prepare_upTo hd h, rfl⟩
  | @route r hlaws =>
    obtain ⟨d, hd, -⟩ := bind_eq_ok.1 hcheck
    obtain ⟨hsize, hd⟩ := prepareFor_route hd
    have hd' := RunData.prepare_upTo hd h
    rw [← prepareFor_route_of_size hsize] at hd'
    exact bind_eq_ok.2 ⟨_, hd', rfl⟩
  | model hown hparts ih => exact checkAll_upTo hown (fun c hc s => ih c hc) hcheck

variable [OrderedScalar K]

/-- A component computes for the first columns what it computes there for all columns. -/
theorem compute_upTo (hc : c.StepsAlong t) (hs : s.Stepwise t) (h : t' ≤ t) (hn : 0 < n)
    (ht' : 0 < t') {rows : List (Grid [n, t] K)} {out : Outcome n t K}
    (hout : c.compute args s rows = .ok out) :
    c.compute args (s.upTo t') (rows.map (Grid.pick (.upTo h))) = .ok (out.upTo h) := by
  have i₀ : Index [n, t'] := .nodeTime ⟨0, hn⟩ ⟨0, ht'⟩
  have ht : 0 < t := Nat.lt_of_lt_of_le ht' h
  induction hc generalizing s rows out with
  | @bucket b hlaws =>
    obtain ⟨d, hd, hrun⟩ := bind_eq_ok.1 hout
    have hd' := RunData.prepare_upTo hd h
    have hstrict := hs.strictTimes hd
    obtain ⟨rfl, hinit⟩ := RunData.prepare_eq_ok hd
    exact bind_eq_ok.2 ⟨_, hd', b.run_window hlaws (RunData.supplies_of_prepare hd)
      hinit hs.solver hstrict (d.settings.sameSteps_upTo t') _ i₀ hrun ht
      (Bucket.initial_of_run hinit hs.solver ht hrun)⟩
  | @route r hlaws =>
    obtain ⟨d, hd, hrun⟩ := bind_eq_ok.1 hout
    obtain ⟨hsize, hd⟩ := prepareFor_route hd
    have hd' := RunData.prepare_upTo hd h
    rw [← prepareFor_route_of_size hsize] at hd'
    have hstrict := hs.strictTimes hd
    obtain ⟨rfl, hinit⟩ := RunData.prepare_eq_ok hd
    exact bind_eq_ok.2 ⟨_, hd', r.run_window hlaws (RunData.supplies_of_prepare hd)
      hinit hs.solver hstrict (d.settings.sameSteps_upTo t') _ i₀ hrun ht
      (Route.initial_of_run hinit hs.solver ht hrun)⟩
  | hydrograph u =>
    obtain ⟨d, hd, hrun⟩ := bind_eq_ok.1 hout
    have hd' := RunData.prepare_upTo hd h
    have hstrict := hs.strictTimes hd
    obtain ⟨rfl, -⟩ := RunData.prepare_eq_ok hd
    exact bind_eq_ok.2 ⟨_, hd', u.run_upTo hs.solver hstrict h ht' hrun⟩
  | model hown hparts ih =>
    obtain ⟨hmissing, hcheck, table, htable, hrows⟩ := compute_model_eq_ok.1 hout
    exact compute_model_eq_ok.2 ⟨hmissing,
      checkAll_upTo hown (fun c hc s => check_upTo (hparts c hc) h) hcheck, _,
      computeAll_upTo hown h hs (fun c hc s rows out hs hout => ih c hc hs hout) htable,
      rowsAt_upTo h hrows⟩

def InputRows.upTo (given : InputRows K) (h : t' ≤ given.times) : InputRows K :=
  ⟨given.nodes, t', given.rows.map (Grid.pick (.upTo h)), given.single⟩

/-- A run over the first columns of an input, with the first of the times that are set, returns the
first columns of the whole run. -/
theorem run_upTo {input input' : Nested K} {given : InputRows K} (hc : c.StepsAlong given.times)
    (hs : s.Stepwise given.times) (hreads : given.Reads input) (h : t' ≤ given.times)
    (hreads' : (InputRows.upTo given h).Reads input') (hn : 0 < given.nodes) (ht' : 0 < t')
    {r : RunResult K} (hrun : c.run input args s = .ok r) :
    ∃ rows, r = given.result rows r.warnings ∧ c.run input' args (s.upTo t') =
      .ok ((InputRows.upTo given h).result (rows.map (Grid.pick (.upTo h))) r.warnings) := by
  obtain ⟨hcount, out, hout, rfl⟩ := (run_eq_ok_of_reads hreads).1 hrun
  refine ⟨out.rows, rfl, (run_eq_ok_of_reads hreads').2 ⟨?_, _, compute_upTo hc hs h hn ht' hout,
    rfl⟩⟩
  rw [← hcount]
  exact List.length_map _

end Component

def Bucket.tank : Bucket Float where
  name := some "tank"
  fluxes := []
  rates := [⟨{
    name := "gain", state := "s", inputs := ["x"], params := [], expr := .var "x" }, by decide⟩]
  sort := true
  noRate := rfl
  ordered := _
  order_eq := rfl
  accepted := BucketDraft.fault?_eq_none.2 (by decide)

def Settings.lostTime : Settings Float :=
  { Settings.standard with times := some (.list
      [.entry (.real 3), .entry (.real Scalar.nan), .entry (.real 1), .entry (.real 2)]) }

/-- The difference to a missing time is not found to be negative, so the times are accepted. At the
first of them the whole run gains the last inflow, and the run of two columns its own. -/
theorem Bucket.tank_reads_ahead :
    (∃ r, (Component.bucket tank).run (.list [.list [.entry (.real 1), .entry (.real 2),
        .entry (.real 3), .entry (.real 4)]]) ⟨[], []⟩ .lostTime = .ok r ∧
      r.rows.toList = [0, 4, 8, 9]) ∧
    ∃ r, (Component.bucket tank).run (.list [.list [.entry (.real 1), .entry (.real 2)]]) ⟨[], []⟩
        (Settings.lostTime.upTo 2) = .ok r ∧ r.rows.toList = [0, 1] :=
  ⟨exists_ok_of_check (by decide +kernel), exists_ok_of_check (by decide +kernel)⟩

end Catchment
