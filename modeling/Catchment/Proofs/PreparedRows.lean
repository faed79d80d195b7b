import Catchment.Proofs.ArgumentChecks
import Catchment.Proofs.NamedRows

/-!
# Prepared rows

The row over the nodes that arguments give to a parameter or to a state depends on no other name of
a signature. Arguments are accepted for a signature exactly if they give every name of it a row.
-/
namespace Catchment

/-- Two steps for every item, one pass after the other. -/
theorem mapM_mapM_eq_ok {α β γ : Type} {f : α → Except Fault β} {g : β → Except Fault γ}
    {xs : List α} {zs : List γ} :
    (∃ ys, xs.mapM f = .ok ys ∧ ys.mapM g = .ok zs) ↔
      List.Forall₂ (fun x z => ∃ y, f x = .ok y ∧ g y = .ok z) xs zs := by
  simp only [mapM_eq_ok]
  constructor
  · rintro ⟨ys, hf, hg⟩
    induction hf generalizing zs with
    | nil =>
      cases hg
      exact .nil
    | cons hxy hf ih =>
      cases hg with
      | cons hyz hg => exact .cons ⟨_, hxy, hyz⟩ (ih hg)
  · intro h
    induction h with
    | nil => exact ⟨[], .nil, .nil⟩
    | cons hxz h ih =>
      obtain ⟨y, hf, hg⟩ := hxz
      obtain ⟨ys, hfs, hgs⟩ := ih
      exact ⟨y :: ys, .cons hf hfs, .cons hg hgs⟩

theorem lookup_of_forall₂ {α : Type} {R : String → α → Prop} {names : List String}
    {pairs : List (String × α)} (h : List.Forall₂ (fun k p => R k p.2 ∧ p.1 = k) names pairs)
    {k : String} (hk : k ∈ names) : ∃ x, pairs.lookup k = some x ∧ R k x := by
  induction h with
  | nil => exact nomatch hk
  | @cons k' p names pairs hp h ih =>
    obtain ⟨hR, rfl⟩ := hp
    by_cases hkp : k = p.1
    · subst hkp
      exact ⟨p.2, List.lookup_cons_self, hR⟩
    · obtain ⟨x, hx, hRx⟩ := ih (List.mem_of_ne_of_mem hkp hk)
      refine ⟨x, ?_, hRx⟩
      rw [← hx]
      exact List.lookup_cons.trans (by rw [beq_eq_false_iff_ne.2 hkp])

theorem Tensor.ext_toList {α : Type} {t u : Tensor α} (hshape : t.shape = u.shape)
    (h : t.toList = u.toList) : t = u := by
  obtain ⟨shape, ⟨cells⟩⟩ := t
  obtain ⟨shape', ⟨cells'⟩⟩ := u
  obtain rfl : shape = shape' := hshape
  obtain rfl : cells = cells' := Vector.toList_inj.1 h
  rfl

theorem Tensor.ofList?_length {α : Type} (items : List α) :
    ∃ t, Tensor.ofList? [items.length] items = some t ∧ t.toList = items := by
  have h : items.length = Shape.size [items.length] := by simp [Shape.size]
  exact ⟨_, by rw [ofList?, Grid.ofList?, dif_pos h]; rfl, rfl⟩

variable {K : Type} {n t : Nat}

theorem missingNames_eq_nil {values : List (String × Nested K)} {names : List String} :
    missingNames values names = [] ↔ ∀ k ∈ names, (values.lookup k).isSome := by
  rw [missingNames, List.filter_eq_nil_iff]
  simp only [Option.isNone_iff_eq_none, Option.isSome_iff_ne_none, ne_eq]

/-- Values that are put into a tensor and taken out of it again. -/
theorem throughTensor_eq_ok {x : Except Fault (List K)} {k : String} {p : String × Grid [n] K} :
    (∃ q : String × Tensor K,
      (do
        let items ← x
        return (k, ← (Tensor.ofList? [items.length] items).elim (.error .value) .ok)) = .ok q ∧
      (do return (q.1, ← RunData.nodeRow n q.2.toList)) = Except.ok p) ↔
    (do RunData.nodeRow n (← x)) = .ok p.2 ∧ p.1 = k := by
  cases x with
  | error e => simp
  | ok items =>
    obtain ⟨tensor, htensor, hitems⟩ := Tensor.ofList?_length items
    simp only [ok_bind, htensor, Option.elim_some, pure_eq_ok, Except.ok.injEq, exists_eq_left',
      hitems, bind_eq_ok]
    constructor
    · rintro ⟨g, hg, rfl⟩
      exact ⟨hg, rfl⟩
    · rintro ⟨hg, rfl⟩
      exact ⟨p.2, hg, rfl⟩

variable [Scalar K] {args : RunArguments K} {s : Settings K}

namespace RunArguments

/-- The values of a parameter at the nodes. -/
def paramRow (args : RunArguments K) (s : Settings K) (n : Nat) (k : String) :
    Except Fault (Grid [n] K) := do
  let classes ← s.paramIndex.mapM fun i => classIndex i n
  RunData.nodeRow n
    (← expandOne "Parameter" k n classes ((args.params.lookup k).getD (.list [])))

def stateRow (args : RunArguments K) (s : Settings K) (n : Nat) (v : String) :
    Except Fault (Grid [n] K) := do
  let classes ← s.stateIndex.mapM fun i => classIndex i n
  RunData.nodeRow n (← expandOne "Initial state" v n classes (initialValue args.states v))

def valueAt (row : Except Fault (Grid [n] K)) (i : Fin n) : K :=
  match row with
  | .ok g => g.get (.node i)
  | .error _ => Scalar.zero

def paramAt (args : RunArguments K) (s : Settings K) (i : Fin n) (k : String) : K :=
  valueAt (args.paramRow s n k) i

def stateAt (args : RunArguments K) (s : Settings K) (i : Fin n) (v : String) : K :=
  valueAt (args.stateRow s n v) i

structure Gives (args : RunArguments K) (s : Settings K) (n t : Nat)
    (params states : List String) : Prop where
  times : ∃ times, s.timesFor t = .ok times
  paramClasses : ∃ classes, (s.paramIndex.mapM fun i => classIndex i n) = .ok classes
  stateClasses : ∃ classes, (s.stateIndex.mapM fun i => classIndex i n) = .ok classes
  present : missingNames args.params params = []
  params : ∀ k ∈ params, ∃ g, args.paramRow s n k = .ok g
  states : ∀ v ∈ states, ∃ g, args.stateRow s n v = .ok g

end RunArguments

/-- A parameter is expanded with the classes of the nodes, whatever the other parameters. -/
theorem expandParams_eq_ok {names : List String} {rows : List (String × Grid [n] K)} :
    (∃ ps, expandParams args.params names (some n) s.paramIndex = .ok ps ∧
      ps.mapM (fun p => do return (p.1, ← RunData.nodeRow n p.2.toList)) = .ok rows) ↔
    missingNames args.params names = [] ∧
      (∃ classes, s.paramIndex.mapM (fun i => classIndex i n) = .ok classes) ∧
      List.Forall₂ (fun k p => args.paramRow s n k = .ok p.2 ∧ p.1 = k) names rows := by
  unfold expandParams RunArguments.paramRow
  cases missingNames args.params names with
  | cons first others => simp [misconfigured]
  | nil =>
    dsimp only
    cases s.paramIndex.mapM fun i => classIndex i n with
    | error e => simp
    | ok classes =>
      simp only [ok_bind, mapM_mapM_eq_ok, throughTensor_eq_ok, true_and, Except.ok.injEq,
        exists_eq']

theorem expandStates_eq_ok {names : List String} {rows : List (Grid [n] K)} :
    (∃ ps, expandStates args.states names n s.stateIndex = .ok ps ∧
      ps.mapM (RunData.nodeRow n) = .ok rows) ↔
    (∃ classes, s.stateIndex.mapM (fun i => classIndex i n) = .ok classes) ∧
      List.Forall₂ (fun v g => args.stateRow s n v = .ok g) names rows := by
  unfold expandStates RunArguments.stateRow
  cases s.stateIndex.mapM fun i => classIndex i n with
  | error e => simp
  | ok classes =>
    simp only [ok_bind, mapM_mapM_eq_ok, bind_eq_ok, true_and, Except.ok.injEq, exists_eq']

/-- Arguments are accepted for a signature if they give every name of it a row. -/
theorem RunData.prepare_eq_ok_iff {sig : Signature} {d : RunData n t K} :
    prepare sig n t args s = .ok d ↔
      s.timesFor t = .ok ⟨d.times, d.times_length⟩ ∧ d.settings = s ∧
      (missingNames args.params sig.params = [] ∧
        (∃ classes, s.paramIndex.mapM (fun i => classIndex i n) = .ok classes) ∧
        List.Forall₂ (fun k p => args.paramRow s n k = .ok p.2 ∧ p.1 = k) sig.params d.params) ∧
      weightsFor args sig.networks = .ok d.weights ∧
      (∃ classes, s.stateIndex.mapM (fun i => classIndex i n) = .ok classes) ∧
      List.Forall₂ (fun v g => args.stateRow s n v = .ok g) sig.states d.initial := by
  rw [← expandParams_eq_ok, ← expandStates_eq_ok]
  unfold prepare
  simp only [bind_eq_ok, pure_eq_ok, Except.ok.injEq]
  constructor
  · rintro ⟨times, htimes, ps, hps, params, hparams, weights, hweights, vs, hvs, initial, hinitial,
      rfl⟩
    exact ⟨htimes, rfl, ⟨ps, hps, hparams⟩, hweights, vs, hvs, hinitial⟩
  · rintro ⟨htimes, rfl, ⟨ps, hps, hparams⟩, hweights, vs, hvs, hinitial⟩
    exact ⟨_, htimes, ps, hps, _, hparams, _, hweights, vs, hvs, _, hinitial, rfl⟩

namespace RunData

variable {sig : Signature} {d : RunData n t K}

theorem prepare_exists (hnetworks : sig.networks = []) :
    (∃ d : RunData n t K, prepare sig n t args s = .ok d) ↔
      args.Gives s n t sig.params sig.states := by
  simp only [prepare_eq_ok_iff, hnetworks]
  constructor
  · rintro ⟨d, htimes, -, ⟨hpresent, hparam, hparams⟩, -, hstate, hstates⟩
    refine ⟨⟨_, htimes⟩, hparam, hstate, hpresent, fun k hk => ?_, forall₂_exists.1 ⟨_, hstates⟩⟩
    obtain ⟨g, -, hg⟩ := lookup_of_forall₂ (R := fun k g => args.paramRow s n k = .ok g) hparams hk
    exact ⟨g, hg⟩
  · rintro ⟨⟨times, htimes⟩, hparam, hstate, hpresent, hparams, hstates⟩
    obtain ⟨initial, hinitial⟩ := forall₂_exists.2 hstates
    have hpairs (k : String) (hk : k ∈ sig.params) :
        ∃ p : String × Grid [n] K, args.paramRow s n k = .ok p.2 ∧ p.1 = k := by
      obtain ⟨g, hg⟩ := hparams k hk
      exact ⟨(k, g), hg, rfl⟩
    obtain ⟨params, hparams⟩ := forall₂_exists.2 hpairs
    exact ⟨⟨times.1, times.2, params, [], initial, s⟩, htimes, rfl, ⟨hpresent, hparam, hparams⟩,
      rfl, hstate, hinitial⟩

theorem lookup_params_isSome (h : prepare sig n t args s = .ok d) {k : String}
    (hk : k ∈ sig.params) : (d.params.lookup k).isSome := by
  obtain ⟨g, hg, -⟩ := lookup_of_forall₂ (R := fun k g => args.paramRow s n k = .ok g)
    (prepare_eq_ok_iff.1 h).2.2.1.2.2 hk
  rw [hg, Option.isSome_some]

theorem nodeScope_of_prepare (h : prepare sig n t args s = .ok d) (i : Fin n) {k : String}
    (hk : k ∈ sig.params) : nodeScope d.params i k = some (.double (args.paramAt s i k)) := by
  obtain ⟨g, hlookup, hg⟩ := lookup_of_forall₂ (R := fun k g => args.paramRow s n k = .ok g)
    (prepare_eq_ok_iff.1 h).2.2.1.2.2 hk
  rw [nodeScope, hlookup, RunArguments.paramAt, hg]
  rfl

theorem initial_of_prepare (h : prepare sig n t args s = .ok d) (i : Fin n) :
    d.initial.map (·.get (.node i)) = sig.states.map (args.stateAt s i) := by
  rw [← List.forall₂_eq_eq_eq, List.forall₂_map_left_iff, List.forall₂_map_right_iff]
  refine (prepare_eq_ok_iff.1 h).2.2.2.2.2.flip.imp fun g v hg => ?_
  rw [RunArguments.stateAt, hg]
  rfl

end RunData

end Catchment
