import Catchment.Proofs.AcceptedRuns
import Catchment.Proofs.BucketColumns
import Catchment.Proofs.DoubleOrder
import Catchment.Proofs.RateFormulas

/-!
# Bucket runs

A fixed-step run of a bucket of formulas is, at every node, a scalar recurrence. At each time the
fluxes are evaluated one after the other, and each state gains its rate in the scope they leave.
-/
namespace Catchment

variable {K : Type} [Scalar K]

namespace Bucket

/-- The outputs at a time from the inputs and the states at that time. -/
def outputsAt (b : Bucket K) (order : List (Declaration K)) (params : Scope K)
    (inputs states : List K) : Except Fault (List K) :=
  evalOutputs params (order.flatMap Declaration.formulas) b.outputs
    (scopeOf b.rowsRead (inputs ++ states))

/-- The states at the next time: each rate is evaluated where the fluxes have their values. -/
def statesAfter (b : Bucket K) (order : List (Declaration K)) (params : Scope K)
    (minValue : Option K) (inputs states : List K) : Except Fault (List K) := do
  let τ ← evalFormulas params (order.flatMap Declaration.formulas)
    (scopeOf b.rowsRead (inputs ++ states))
  return addRates minValue states (← evalRates params b.rates τ)

/-- Rows of states and outputs that follow the recurrence at every node. -/
structure ScalarRun {n t : Nat} (b : Bucket K) (order : List (Declaration K)) (d : RunData n t K)
    (inputs states outputs : List (Grid [n, t] K)) : Prop where
  states_length : states.length = b.states.length
  outputs_length : outputs.length = b.outputs.length
  initial : ∀ i (j : Fin t), j.val = 0 →
    columnAt states i j = d.initial.map (·.get (.node i))
  outputs_eq : ∀ i j, b.outputsAt order (nodeScope d.params i) (columnAt inputs i j)
    (columnAt states i j) = .ok (columnAt outputs i j)
  states_succ : ∀ i (j j' : Fin t), j'.val = j.val + 1 →
    b.statesAfter order (nodeScope d.params i) d.settings.minValue (columnAt inputs i j)
      (columnAt states i j) = .ok (columnAt states i j')

variable {b : Bucket K} {order order' : List (Declaration K)}

/-- The order of evaluation does not matter as long as it is a dependency order. -/
theorem evalFormulas_order (hperm : order.Perm order')
    (ho : Item.InOrder (order.map Declaration.item))
    (ho' : Item.InOrder (order'.map Declaration.item)) (params base σ : Scope K) :
    evalFormulas params (order.flatMap Declaration.formulas) base = .ok σ ↔
      evalFormulas params (order'.flatMap Declaration.formulas) base = .ok σ :=
  Scheduled.evalFormulas_perm (Declaration.scheduled ho) (Declaration.scheduled ho')
    (hperm.flatMap_right _)

theorem ScalarRun.of_perm {n t : Nat} {d : RunData n t K}
    {inputs states outputs : List (Grid [n, t] K)} (hperm : order.Perm order')
    (ho : Item.InOrder (order.map Declaration.item))
    (ho' : Item.InOrder (order'.map Declaration.item))
    (h : b.ScalarRun order d inputs states outputs) :
    b.ScalarRun order' d inputs states outputs where
  states_length := h.states_length
  outputs_length := h.outputs_length
  initial := h.initial
  outputs_eq i j := by
    obtain ⟨τ, hτ, hread⟩ := bind_eq_ok.1 (h.outputs_eq i j)
    exact bind_eq_ok.2 ⟨τ, (evalFormulas_order hperm ho ho' _ _ τ).1 hτ, hread⟩
  states_succ i j j' hj := by
    obtain ⟨τ, hτ, hread⟩ := bind_eq_ok.1 (h.states_succ i j j' hj)
    exact bind_eq_ok.2 ⟨τ, (evalFormulas_order hperm ho ho' _ _ τ).1 hτ, hread⟩

variable {n t : Nat} {d : RunData n t K} {rows : List (Grid [n, t] K)} {p q : Program K}

def ratesAt (b : Bucket K) (params : Scope K) (inputs states : List K) : Except Fault (List K) := do
  let τ ← evalFormulas params (b.ordered.flatMap Declaration.formulas)
    (scopeOf b.rowsRead (inputs ++ states))
  evalRates params b.rates τ

theorem statesAfter_eq (params : Scope K) (minValue : Option K) (inputs states : List K) :
    b.statesAfter b.ordered params minValue inputs states =
      (do return addRates minValue states (← b.ratesAt params inputs states)) := by
  simp only [statesAfter, ratesAt, bind_assoc]

theorem evalOutputs_rateProgram (hfree : RatesFree b.rates)
    (hq : q.toProgramDraft = ⟨.elementwise, b.ordered ++ b.rates.map .state, b.rowsRead,
      b.states.map rateName⟩) (params : Scope K) (inputs states xs : List K) :
    evalOutputs params q.formulas q.outputs (scopeOf q.inputs (inputs ++ states)) = .ok xs ↔
      b.ratesAt params inputs states = .ok xs := by
  have hformulas : q.formulas =
      b.ordered.flatMap Declaration.formulas ++ rateFormulas b.rates := by
    rw [Program.formulas, hq, List.flatMap_append, flatMap_formulas_state]
  rw [hformulas, hq]
  exact evalOutputs_rates b.states_nodup hfree _ _ xs

theorem length_ratesAt {params : Scope K} {inputs states xs : List K}
    (h : b.ratesAt params inputs states = .ok xs) : xs.length = b.states.length := by
  obtain ⟨τ, -, h⟩ := bind_eq_ok.1 h
  rw [length_evalRates h]
  simp [BucketDraft.states]

theorem scalarRun_iff_columnRun {states outputs : List (Grid [n, t] K)} :
    b.ScalarRun b.ordered d rows states outputs ↔
      b.ColumnRun d (fun i => b.outputsAt b.ordered (nodeScope d.params i))
        (fun i => b.ratesAt (nodeScope d.params i)) rows states outputs := by
  constructor
  · intro h
    refine ⟨h.states_length, h.outputs_length, h.initial, h.outputs_eq, fun i j j' hj => ?_⟩
    rw [← statesAfter_eq]
    exact h.states_succ i j j' hj
  · intro h
    refine ⟨h.states_length, h.outputs_length, h.initial, h.outputs_eq, fun i j j' hj => ?_⟩
    rw [statesAfter_eq]
    exact h.states_succ i j j' hj

variable [OrderedScalar K]

/-- A run of a bucket of formulas with a fixed-step solver is a recurrence at every node. -/
theorem scalarRun_of_run (hlaws : ∀ f ∈ b.fluxes, f.lawName? = none) (hfree : RatesFree b.rates)
    (hbackend : d.settings.backend = .elementwise) (hsolver : d.settings.solver ≠ .adaptive)
    (hstrict : StrictTimes d.times) (hinit : d.initial.length = b.states.length)
    {out : Outcome n t K} (h : b.run d rows = .ok out) :
    ∃ states outputs, b.ScalarRun b.ordered d rows states outputs ∧
      out = ⟨states ++ outputs, []⟩ := by
  obtain ⟨p, hp, hpd⟩ := fluxProgram_exists .elementwise hlaws
  obtain ⟨q, hq, hqd⟩ := rateProgram_exists .elementwise hlaws
  simp only [scalarRun_iff_columnRun]
  rw [← hbackend] at hp hq
  refine columnRun_of_run hp hq hsolver hstrict hinit (fun states outs houts i j => ?_)
    (fun v u g hg i => ?_) (fun hnone i xs outs hout => ?_) h
  · have hrun := Program.run_times (congrArg ProgramDraft.backend hpd)
      (byFormulas_fluxProgram hlaws hpd) (by rw [hpd]; exact b.rowsRead_nodup) houts i j
    rw [Program.formulas, hpd, columnAt, List.map_append] at hrun
    exact hrun
  · have hrun := Program.run_nodes (congrArg ProgramDraft.backend hqd)
      (byFormulas_rateProgram hlaws hqd) (by rw [hqd]; exact b.rowsRead_nodup) hg i
    rw [map_rows_append] at hrun
    exact (evalOutputs_rateProgram hfree hqd _ _ _ _).1 hrun
  · obtain ⟨τ, hτ, -⟩ := bind_eq_ok.1 hout
    refine bind_eq_ok.2 ⟨τ, hτ, ?_⟩
    rw [List.map_eq_nil_iff.1 hnone]
    rfl

/-- Where there is a node, rows that follow the recurrence are what a run returns. -/
theorem run_of_scalarRun (hlaws : ∀ f ∈ b.fluxes, f.lawName? = none) (hfree : RatesFree b.rates)
    (hbackend : d.settings.backend = .elementwise) (hsolver : d.settings.solver ≠ .adaptive)
    (hstrict : StrictTimes d.times) (hinit : d.initial.length = b.states.length) (hn : 0 < n)
    (ht : 0 < t) {states outputs : List (Grid [n, t] K)}
    (h : b.ScalarRun b.ordered d rows states outputs) :
    b.run d rows = .ok ⟨states ++ outputs, []⟩ := by
  obtain ⟨p, hp, hpd⟩ := fluxProgram_exists .elementwise hlaws
  obtain ⟨q, hq, hqd⟩ := rateProgram_exists .elementwise hlaws
  rw [← hbackend] at hp hq
  refine run_of_columnRun hp hq hsolver hstrict hinit ht (fun states outs _ hout => ?_)
    (fun v u g hg => ?_) (fun i xs ys rs hrs => length_ratesAt hrs) (scalarRun_iff_columnRun.1 h)
  · refine Program.run_of_times (congrArg ProgramDraft.backend hpd)
      (byFormulas_fluxProgram hlaws hpd) (by rw [hpd]; exact b.rowsRead_nodup) hn ht
      fun i j => ?_
    rw [Program.formulas, hpd, columnAt, List.map_append]
    exact hout i j
  · refine Program.run_of_nodes (congrArg ProgramDraft.backend hqd)
      (byFormulas_rateProgram hlaws hqd) (by rw [hqd]; exact b.rowsRead_nodup) hn fun i => ?_
    rw [map_rows_append]
    exact (evalOutputs_rateProgram hfree hqd _ _ _ _).2 (hg i)

/-- The rows of a bucket are its states and then its outputs in the order of declaration. A run
with a fixed-step solver returns rows that follow the recurrence at every node, whatever the order
of evaluation, and where there is a node it returns them if there are any. -/
theorem run_follows_recurrence {b : Bucket K} {input : Nested K} {args : RunArguments K}
    {s : Settings K} {given : InputRows K} {d : RunData given.nodes given.times K}
    (h : (Component.bucket b).Accepts input args s given d)
    (hlaws : ∀ f ∈ b.fluxes, f.lawName? = none) (hfree : RatesFree b.rates)
    (hbackend : s.backend = .elementwise) (hsolver : s.solver ≠ .adaptive)
    (hstrict : StrictTimes d.times) (ht : 0 < given.times) :
    (Component.bucket b).rowNames =
        b.rates.map (fun r => r.state) ++ orderedUnion (b.fluxes.map Declaration.outputs) ∧
      (b.ordered.Perm b.fluxes ∧ Item.InOrder (b.ordered.map Declaration.item)) ∧
      ∀ order : List (Declaration K), order.Perm b.fluxes →
        Item.InOrder (order.map Declaration.item) →
        (∀ result, (Component.bucket b).run input args s = .ok result →
          ∃ states outputs, b.ScalarRun order d given.rows states outputs ∧
            result = given.result (states ++ outputs) []) ∧
        (0 < given.nodes → ∀ states outputs, b.ScalarRun order d given.rows states outputs →
          (Component.bucket b).run input args s = .ok (given.result (states ++ outputs) [])) := by
  obtain ⟨rfl, hinit⟩ := RunData.prepare_eq_ok h.prepared
  refine ⟨rfl, ⟨b.ordered_perm, b.inOrder⟩, fun order hperm ho => ⟨fun result hrun => ?_, ?_⟩⟩
  · rw [h.run_bucket] at hrun
    obtain ⟨out, hout, hresult⟩ := bind_eq_ok.1 hrun
    obtain ⟨states, outputs, hscalar, rfl⟩ :=
      scalarRun_of_run hlaws hfree hbackend hsolver hstrict hinit hout
    exact ⟨states, outputs, hscalar.of_perm (b.ordered_perm.trans hperm.symm) b.inOrder ho,
      (Except.ok.inj hresult).symm⟩
  · intro hn states outputs hscalar
    have hscalar := hscalar.of_perm (hperm.trans b.ordered_perm.symm) ho b.inOrder
    rw [h.run_bucket, run_of_scalarRun hlaws hfree hbackend hsolver hstrict hinit hn ht hscalar]
    rfl

def linearStore : Bucket Float where
  name := some "store"
  fluxes := [.flux ⟨{
    name := "outflow", outputs := ["q"], inputs := ["s"], params := ["k"]
    exprs := [.binary .mul (.var "s") (.par "k")], law := none }, by decide⟩]
  rates := [⟨{
    name := "storage", state := "s", inputs := ["p", "q"], params := []
    expr := .binary .sub (.var "p") (.var "q") }, by decide⟩]
  sort := true
  noRate := rfl
  ordered := _
  order_eq := rfl
  accepted := BucketDraft.fault?_eq_none.2 (by decide)

def linearStoreData : RunData 1 2 Float where
  times := [Scalar.ofInt 0, Scalar.ofInt 1]
  times_length := rfl
  params := [("k", ⟨#v[Scalar.ratio 1 2]⟩)]
  weights := []
  initial := [⟨#v[Scalar.one]⟩]
  settings := .standard

theorem linearStore_scalarRun : linearStore.ScalarRun linearStore.ordered linearStoreData
    [⟨#v[Scalar.one, Scalar.one]⟩] [⟨#v[Scalar.one, Scalar.ratio 3 2]⟩]
    [⟨#v[Scalar.ratio 1 2, Scalar.ratio 3 4]⟩] := by
  refine ⟨rfl, rfl, fun i j hj => ?_, fun i j => ?_, fun i j j' hj => ?_⟩
  · obtain ⟨rfl, rfl⟩ : i = 0 ∧ j = 0 := ⟨Subsingleton.elim i 0, Fin.ext hj⟩
    rfl
  · obtain rfl : i = 0 := Subsingleton.elim i 0
    match j with
    | 0 => rfl
    | 1 => rfl
  · obtain ⟨rfl, rfl, rfl⟩ : i = 0 ∧ j = 0 ∧ j' = 1 :=
      ⟨Subsingleton.elim i 0, by omega, by omega⟩
    rfl

theorem linearStore_run :
    let one : Nested Float := .entry (.real Scalar.one)
    (Component.bucket linearStore).run (.list [.list [one, one]])
      ⟨[("k", .entry (.real (Scalar.ratio 1 2)))], [("s", one)]⟩ .standard =
        .ok ⟨Outcome.toTensor (n := 1) (t := 2) ⟨[⟨#v[Scalar.one, Scalar.ratio 3 2]⟩,
          ⟨#v[Scalar.ratio 1 2, Scalar.ratio 3 4]⟩], []⟩ true, []⟩ := by
  intro one
  have haccepts : (Component.bucket linearStore).Accepts (.list [.list [one, one]])
      ⟨[("k", .entry (.real (Scalar.ratio 1 2)))], [("s", one)]⟩ .standard
      ⟨1, 2, [⟨#v[Scalar.one, Scalar.one]⟩], true⟩ linearStoreData :=
    ⟨⟨_, rfl, rfl⟩, rfl, rfl⟩
  exact ((run_follows_recurrence haccepts (by decide) (by decide) rfl (by decide)
    ⟨by decide, by decide⟩ (by decide)).2.2 linearStore.ordered linearStore.ordered_perm
    linearStore.inOrder).2 (by decide) _ _ linearStore_scalarRun

end Bucket

end Catchment
