import Catchment.Run
import Catchment.Proofs.Outcomes

/-!
# Accepted runs

What a component computes with, once its input has a shape that it takes and its arguments have been
checked.
-/
namespace Catchment

variable {K : Type} [Scalar K]

/-- The input is an array of these rows. -/
def InputRows.Reads (given : InputRows K) (input : Nested K) : Prop :=
  ∃ x, input.toTensor = .ok x ∧ ofTensor? x = some given

theorem InputRows.Reads.unique {given given' : InputRows K} {input : Nested K}
    (h : given.Reads input) (h' : given'.Reads input) : given = given' := by
  obtain ⟨tensor, htensor, hgiven⟩ := h
  obtain ⟨tensor', htensor', hgiven'⟩ := h'
  obtain rfl := Except.ok.inj (htensor.symm.trans htensor')
  exact Option.some.inj (hgiven.symm.trans hgiven')

/-- The result with these rows. -/
def InputRows.result (given : InputRows K) (rows : List (Grid [given.nodes, given.times] K))
    (warnings : List String) : RunResult K :=
  ⟨Outcome.toTensor ⟨rows, warnings⟩ given.single, warnings⟩

theorem Component.run_eq_ok {c : Component K} {input : Nested K} {args : RunArguments K}
    {s : Settings K} {result : RunResult K} :
    c.run input args s = .ok result ↔ ∃ given : InputRows K, given.Reads input ∧
      given.rows.length = c.signature.inputs.length ∧ ∃ out : Outcome given.nodes given.times K,
        c.compute args s given.rows = .ok out ∧ result = given.result out.rows out.warnings := by
  unfold run InputRows.Reads InputRows.result
  cases input.toTensor with
  | error e => simp
  | ok x =>
    simp only [ok_bind, Except.ok.injEq, exists_eq_left']
    cases InputRows.ofTensor? x with
    | none => simp [mismatched]
    | some given =>
      simp only [Option.some.injEq, exists_eq_left']
      by_cases hcount : given.rows.length = c.signature.inputs.length
      · simp only [hcount, bne_self_eq_false, Bool.false_eq_true, if_false, bind_eq_ok, pure_eq_ok,
          Except.ok.injEq, true_and, eq_comm (b := result)]
      · simp [hcount, mismatched]

theorem Component.run_eq_ok_of_reads {c : Component K} {input : Nested K} {args : RunArguments K}
    {s : Settings K} {given : InputRows K} (h : given.Reads input) {result : RunResult K} :
    c.run input args s = .ok result ↔ given.rows.length = c.signature.inputs.length ∧
      ∃ out : Outcome given.nodes given.times K,
        c.compute args s given.rows = .ok out ∧ result = given.result out.rows out.warnings := by
  rw [run_eq_ok]
  constructor
  · rintro ⟨given', h', hrun⟩
    rwa [h.unique h']
  · exact fun hrun => ⟨given, h, hrun⟩

/-- The input has as many rows as the component has inputs, and the arguments are accepted. -/
structure Component.Accepts (c : Component K) (input : Nested K) (args : RunArguments K)
    (s : Settings K) (given : InputRows K) (d : RunData given.nodes given.times K) : Prop where
  shape : given.Reads input
  count : given.rows.length = c.signature.inputs.length
  prepared : c.prepareFor given.nodes given.times args s = .ok d

theorem RunData.prepare_eq_ok {sig : Signature} {n t : Nat} {args : RunArguments K}
    {s : Settings K} {d : RunData n t K} (h : prepare sig n t args s = .ok d) :
    d.settings = s ∧ d.initial.length = sig.states.length := by
  obtain ⟨times, -, h⟩ := bind_eq_ok.1 h
  obtain ⟨params, -, h⟩ := bind_eq_ok.1 h
  obtain ⟨nodeParams, -, h⟩ := bind_eq_ok.1 h
  obtain ⟨weights, -, h⟩ := bind_eq_ok.1 h
  obtain ⟨states, hstates, h⟩ := bind_eq_ok.1 h
  obtain ⟨initial, hinitial, h⟩ := bind_eq_ok.1 h
  obtain ⟨classes, -, hstates⟩ := bind_eq_ok.1 hstates
  obtain rfl := Except.ok.inj h
  refine ⟨rfl, ?_⟩
  rw [(mapM_eq_ok.1 hstates).length_eq, (mapM_eq_ok.1 hinitial).length_eq]

/-- The data of a run depend on the names of a signature that are given values. -/
theorem RunData.prepare_congr {sig sig' : Signature} {n t : Nat} {args : RunArguments K}
    {s : Settings K} (hparams : sig.params = sig'.params) (hnetworks : sig.networks = sig'.networks)
    (hstates : sig.states = sig'.states) : prepare sig n t args s = prepare sig' n t args s := by
  simp only [prepare, hparams, hnetworks, hstates]

theorem Component.prepareFor_route {r : Route K} {n t : Nat} {args : RunArguments K}
    {s : Settings K} {d : RunData n t K} (h : (route r).prepareFor n t args s = .ok d) :
    r.topology.size = n ∧ RunData.prepare r.signature n t args s = .ok d := by
  rw [prepareFor, Route.nodesFault?] at h
  split at h
  · simp [mismatched] at h
  · rename_i hnone
    split at hnone
    · rename_i hsize
      exact ⟨hsize, h⟩
    · exact nomatch hnone

namespace Component.Accepts

variable {c : Component K} {input : Nested K} {args : RunArguments K} {s : Settings K}
  {given : InputRows K} {d : RunData given.nodes given.times K}

theorem run_eq (h : c.Accepts input args s given d) :
    c.run input args s = (do
      let outcome ← c.compute args s given.rows
      return given.result outcome.rows outcome.warnings) := by
  obtain ⟨x, hx, hgiven⟩ := h.shape
  simp only [run, hx, ok_bind, hgiven, h.count, bne_self_eq_false, Bool.false_eq_true, if_false]
  rfl

theorem run_bucket {b : Bucket K} (h : (bucket b).Accepts input args s given d) :
    (bucket b).run input args s = (do
      let outcome ← b.run d given.rows
      return given.result outcome.rows outcome.warnings) := by
  rw [h.run_eq, compute, h.prepared, ok_bind]

theorem run_route {r : Route K} (h : (route r).Accepts input args s given d) :
    (route r).run input args s = (do
      let outcome ← r.run d given.rows
      return given.result outcome.rows outcome.warnings) := by
  rw [h.run_eq, compute, h.prepared, ok_bind]

theorem run_hydrograph {u : UnitHydrograph K} (h : (hydrograph u).Accepts input args s given d) :
    (hydrograph u).run input args s = (do
      let outcome ← u.run d given.rows
      return given.result outcome.rows outcome.warnings) := by
  rw [h.run_eq, compute, h.prepared, ok_bind]

end Component.Accepts

end Catchment
