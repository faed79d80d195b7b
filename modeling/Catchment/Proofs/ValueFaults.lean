import Catchment.Proofs.BackendAgreement
import Catchment.Proofs.NodewiseRuns
import Catchment.Proofs.RearrangedPrograms
import Catchment.UnitHydrograph

/-!
# Faults of values

Most of what can go wrong while numbers are computed is the fault of a single value: a flag is
negated, a number is divided by zero, a text stands for a number. Formulas, the solvers and the
weights of unit hydrographs end in no other fault. Only a declaration, a wiring or the shape of an
array can be at fault otherwise. That a name stands for no value is a fault of its own among these:
formulas end in it only if a name is missing that they read.
-/
namespace Catchment

def Fault.OfValue : Fault → Prop
  | .configuration _ | .shape _ => False
  | _ => True

/-- A fault of a value that was found, not of a name that stands for none. -/
def Fault.OfFoundValue (f : Fault) : Prop := f.OfValue ∧ f ≠ .unknownName

theorem Fault.ofFoundValue_value : Fault.OfFoundValue .value := ⟨trivial, by simp⟩

/-- A computation that ends in no fault but these. -/
def FailsWith {α : Type} (P : Fault → Prop) (x : Except Fault α) : Prop := ∀ f, x = .error f → P f

namespace FailsWith

variable {α β : Type} {P Q : Fault → Prop}

@[simp] theorem ok (a : α) : FailsWith P (.ok a) := nofun

@[simp] theorem error_iff {f : Fault} : FailsWith P (.error f : Except Fault α) ↔ P f :=
  ⟨fun h => h f rfl, by rintro h _ ⟨⟩; exact h⟩

theorem mono {x : Except Fault α} (hx : FailsWith P x) (h : ∀ f, P f → Q f) : FailsWith Q x :=
  fun f hf => h f (hx f hf)

@[simp] theorem bind_iff {x : Except Fault α} {g : α → Except Fault β} :
    FailsWith P (x >>= g) ↔ FailsWith P x ∧ ∀ a, x = .ok a → FailsWith P (g a) := by
  cases x with
  | ok a => simp
  | error f => simp

@[simp] theorem orFault_iff {f : Fault} {x : Option α} :
    FailsWith P (Values.orFault f x) ↔ (x = none → P f) := by
  cases x <;> simp

theorem ite {c : Prop} [Decidable c] {x y : Except Fault α} (hx : FailsWith P x)
    (hy : FailsWith P y) : FailsWith P (if c then x else y) := by
  split
  · exact hx
  · exact hy

theorem mapM {f : α → Except Fault β} {xs : List α} (h : ∀ x ∈ xs, FailsWith P (f x)) :
    FailsWith P (xs.mapM f) := by
  induction xs with
  | nil => simp
  | cons x xs ih =>
    obtain ⟨hx, hxs⟩ := List.forall_mem_cons.1 h
    simp [List.mapM_cons, hx, ih hxs]

theorem foldlM {f : β → α → Except Fault β} {xs : List α} (h : ∀ b, ∀ x ∈ xs, FailsWith P (f b x))
    (b : β) : FailsWith P (xs.foldlM f b) := by
  induction xs generalizing b with
  | nil => simp
  | cons x xs ih =>
    rw [List.foldlM_cons, bind_iff]
    exact ⟨h b x List.mem_cons_self, fun c _ => ih (fun b y hy => h b y (.tail x hy)) c⟩

end FailsWith

variable {K : Type} [Scalar K]

theorem Values.failsWith_unary (op : Unary) (a : Values K) :
    FailsWith Fault.OfFoundValue (unary op a) := by
  have hresult : FailsWith Fault.OfFoundValue (op.result a.format) := by
    unfold Unary.result
    split <;> (try split) <;> simp [Fault.OfFoundValue, Fault.OfValue]
  simpa [unary] using hresult

theorem Values.failsWith_binary (op : Binary) (a b : Values K) :
    FailsWith Fault.OfFoundValue (binary op a b) := by
  have hresult : FailsWith Fault.OfFoundValue (op.result a.format b.format) := by
    unfold Binary.result
    simp only
    split
    · simp
    · split <;> (try split) <;> simp [Fault.OfFoundValue, Fault.OfValue]
  unfold binary
  simp only [FailsWith.bind_iff, FailsWith.orFault_iff]
  refine ⟨hresult, fun r _ => ⟨fun _ => Fault.ofFoundValue_value, fun pairs _ => ?_⟩⟩
  split <;> simp [Fault.OfFoundValue, Fault.OfValue]

theorem Values.failsWith_choose (c a b : Values K) :
    FailsWith Fault.OfFoundValue (choose c a b) := by
  simp [choose, Fault.OfFoundValue, Fault.OfValue]

section

variable {P : Fault → Prop} (hfound : ∀ f : Fault, f.OfFoundValue → P f) {params : Bindings K}

include hfound

/-- An expression fails over a value that it finds, unless a name is missing that it reads. -/
theorem Expr.failsWith_eval {vars : Bindings K} (e : Expr K)
    (hvars : ∀ v ∈ e.reads, vars.lookup v = none → P .unknownName)
    (hparams : ∀ k ∈ e.readsParams, params.lookup k = none → P .unknownName) :
    FailsWith P (e.eval vars params) := by
  have hreads := readsOnly hvars hparams
  clear hvars hparams
  induction hreads with
  | var hv => simpa [eval] using hv
  | par hk => simpa [eval] using hk
  | const value => exact .ok _
  | unary op _ iha =>
    rw [eval, FailsWith.bind_iff]
    exact ⟨iha, fun x _ => (Values.failsWith_unary op x).mono hfound⟩
  | binary op _ _ iha ihb =>
    simp only [eval, FailsWith.bind_iff]
    exact ⟨iha, fun x _ => ⟨ihb, fun y _ => (Values.failsWith_binary op x y).mono hfound⟩⟩
  | choose _ _ _ ihc iha ihb =>
    simp only [eval, FailsWith.bind_iff]
    exact ⟨ihc, fun z _ => ⟨iha, fun x _ => ⟨ihb,
      fun y _ => (Values.failsWith_choose z x y).mono hfound⟩⟩⟩

theorem Declaration.failsWith_bindFormulas {known : List String} {fs : List (String × Expr K)}
    {env : Bindings K} (hreads : ReadsKnown known fs)
    (hvars : ∀ v ∈ known, env.lookup v = none → P .unknownName)
    (hparams : ∀ f ∈ fs, ∀ k ∈ f.2.readsParams, params.lookup k = none → P .unknownName) :
    FailsWith P (bindFormulas params fs env) := by
  induction fs generalizing known env with
  | nil => exact .ok env
  | cons f fs ih =>
    obtain ⟨hf, hfs⟩ := List.forall_mem_cons.1 hparams
    rw [bindFormulas, FailsWith.bind_iff]
    refine ⟨f.2.failsWith_eval hfound (fun v hv => hvars v (hreads.1 hv)) hf, fun x _ =>
      ih hreads.2 (fun v hv hnone => ?_) hfs⟩
    rcases eq_or_ne v f.1 with rfl | hne
    · exact absurd (List.lookup_cons_self.symm.trans hnone) (Option.some_ne_none x)
    · rw [lookup_cons_of_ne hne] at hnone
      exact hvars v (List.mem_of_ne_of_mem hne hv) hnone

namespace Program

variable {p : Program K} {s : Shape} {rows : List (Grid s K)}

omit [Scalar K] hfound in
theorem inputBindings_ne_none {names : List String} (hlen : rows.length = names.length)
    {v : String} (hv : v ∈ names) : (inputBindings names rows).lookup v ≠ none := by
  have hkeys : (names.zip (rows.map Values.ofGrid)).map Prod.fst = names :=
    List.map_fst_zip (Nat.le_of_eq (by rw [List.length_map, hlen]))
  obtain ⟨x, hx⟩ : ∃ x, (names.zip (rows.map Values.ofGrid)).reverse.lookup v = some x :=
    lookup_exists (by rwa [List.map_reverse, List.mem_reverse, hkeys])
  rw [inputBindings, Declaration.bindAll_eq, List.append_nil, hx]
  exact Option.some_ne_none x

/-- A program of formulas fails over a value that it finds, unless it is given too few rows or a
parameter is missing. -/
theorem failsWith_run (hp : p.ByFormulas)
    (hrows : rows.length ≠ p.inputs.length → P .unknownName)
    (hparams : ∀ k ∈ p.params, params.lookup k = none → P .unknownName) (weights : Weights K) :
    FailsWith P (p.run rows params weights) := by
  have hinputs (v : String) (hv : v ∈ p.inputs)
      (hnone : (inputBindings p.inputs rows).lookup v = none) : P .unknownName :=
    hrows fun hlen => inputBindings_ne_none hlen hv hnone
  unfold run
  split
  · rw [runElementwise, foldlM_bind_eq hp, FailsWith.bind_iff]
    refine ⟨Declaration.failsWith_bindFormulas hfound hp.readsKnown hinputs
      fun f hf k hk => hparams k (formulas_readsParams hf hk), fun env henv => .mapM fun o ho => ?_⟩
    simp only [FailsWith.bind_iff, FailsWith.orFault_iff]
    refine ⟨fun hnone => ?_, fun v _ _ => hfound _ Fault.ofFoundValue_value⟩
    by_contra hsafe
    refine Declaration.lookup_bindFormulas_ne_none henv ?_ hnone
    exact (List.mem_append.1 (hp.outputs_known ho)).imp_right fun hin hlost =>
      hsafe (hinputs o hin hlost)
  · unfold runSymbolic
    split
    · exact .ok _
    · simp only [FailsWith.bind_iff, pure_eq_ok, FailsWith.ok, implies_true, and_true]
      refine .mapM fun k hk => ?_
      simp only [FailsWith.bind_iff, FailsWith.orFault_iff, FailsWith.ok, implies_true, and_true]
      exact ⟨hparams k hk, fun v _ _ => hfound _ Fault.ofFoundValue_value⟩

end Program

end

section

variable {s : Shape} {P : Fault → Prop} {rate : Rate s K}

theorem failsWith_advanceOnce (hrate : ∀ u time, FailsWith P (checkedRate rate u time))
    (minValue : Option K) (u : Grid s K) (time : K) :
    FailsWith P (advanceOnce minValue rate u time) := by
  simp [advanceOnce, hrate]

theorem failsWith_marchExplicit (hrate : ∀ u time, FailsWith P (checkedRate rate u time))
    (minValue : Option K) (u : Grid s K) (times : List K) :
    FailsWith P (marchExplicit minValue rate u times) := by
  induction times generalizing u with
  | nil => simp [marchExplicit]
  | cons time rest ih =>
    cases rest with
    | nil => simp [marchExplicit]
    | cons next rest => simp [marchExplicit, failsWith_advanceOnce hrate, ih]

theorem failsWith_iterateDiscrete (hrate : ∀ u time, FailsWith P (checkedRate rate u time))
    (minValue : Option K) (u : Grid s K) (times : List K) :
    FailsWith P (iterateDiscrete minValue rate u times) := by
  unfold iterateDiscrete
  split
  · simp
  · unfold iterateMap
    rw [FailsWith.bind_iff]
    refine ⟨.foldlM (fun state time _ => ?_) _, by simp⟩
    cases minValue <;> simp [hrate]

omit [Scalar K] in
theorem failsWith_answer {m : Nat} {α : Type} (hvalue : P .value)
    {rate : K → Grid [m] K → Except Fault (Grid [m] K)}
    (hrate : ∀ time u, FailsWith P (rate time u)) (x : Inquiry m K α) :
    FailsWith P (x.answer rate) := by
  induction x with
  | done a => simp [Inquiry.answer]
  | refused => simp [Inquiry.answer, hvalue]
  | ask time state next ih => simp [Inquiry.answer, hrate, ih]

theorem failsWith_integrate (hvalue : P .value)
    (hrate : ∀ u time, FailsWith P (checkedRate rate u time)) (settings : Settings K)
    (u : Grid s K) (times : List K) : FailsWith P (integrate settings rate u times) := by
  unfold integrate
  split
  · simp
  · simp
  · have hflat (time : K) (y : Grid [s.size] K) : FailsWith P (flatRate rate time y) := by
      simp [flatRate, hrate]
    rw [FailsWith.bind_iff]
    refine ⟨failsWith_answer hvalue hflat _, fun found _ => ?_⟩
    split <;> simp

/-- The solvers pass on the faults of the rate. An integrator may also refuse a value. -/
theorem failsWith_advance (hvalue : P .value)
    (hrate : ∀ u time, FailsWith P (checkedRate rate u time)) (settings : Settings K)
    (u : Grid s K) (times : List K) : FailsWith P (advance settings rate u times) := by
  unfold advance
  split
  · simp [failsWith_marchExplicit hrate]
  · simp [failsWith_iterateDiscrete hrate]
  · exact failsWith_integrate hvalue hrate settings u times

end

theorem failsWith_numberOf (m : Int) :
    FailsWith Fault.OfValue (Operand.numberOf m : Except Fault K) := by
  unfold Operand.numberOf
  exact .ite (by simp [Fault.OfValue]) (by simp)

theorem failsWith_wholeOf (x : K) (whole : Option Int) :
    FailsWith Fault.OfValue (Entry.wholeOf x whole) := by
  cases whole with
  | some m => simp [Entry.wholeOf]
  | none => simp only [Entry.wholeOf, FailsWith.error_iff]; split <;> trivial

namespace SCurve

theorem failsWith_quotient (x y : K) : FailsWith Fault.OfValue (quotient x y) :=
  .ite (by simp [Fault.OfValue]) (by simp)

theorem failsWith_halfPower (x : K) : FailsWith Fault.OfValue (halfPower x) :=
  .ite (by simp [Fault.OfValue]) (.ite (by simp [Fault.OfValue]) (by simp))

def LawOfValues (c : SCurve K) : Prop :=
  ∀ law maxLag, c = custom law maxLag → ∀ time lag, FailsWith Fault.OfValue (law.apply time lag)

variable {c : SCurve K}

theorem failsWith_value (hc : c.LawOfValues) (time lag : K) :
    FailsWith Fault.OfValue (c.value time lag) := by
  cases c with
  | half _ => exact .ite (by simp) (by simp [failsWith_quotient, failsWith_halfPower])
  | full _ =>
    refine .ite (by simp) ?_
    simp only [FailsWith.bind_iff, failsWith_quotient, true_and]
    exact fun x _ => .ite (by simp [failsWith_halfPower]) (by simp [failsWith_halfPower])
  | custom law maxLag => exact hc law maxLag rfl time lag

theorem failsWith_steps (lag : K) : FailsWith Fault.OfValue (c.steps lag) := by
  cases c with
  | half _ => exact failsWith_wholeOf _ _
  | full _ => simp [steps, failsWith_wholeOf]
  | custom law maxLag =>
    have hlength : FailsWith Fault.OfValue maxLag.toReal := by
      cases maxLag with
      | flag b => simp [Entry.toReal]
      | integer m => exact failsWith_numberOf m
      | real x => simp [Entry.toReal]
    simp [steps, hlength, failsWith_wholeOf]

theorem failsWith_weights (hc : c.LawOfValues) (lag : K) :
    FailsWith Fault.OfValue (c.weights lag) := by
  refine .ite (by simp) ?_
  simp only [FailsWith.bind_iff, failsWith_steps, true_and]
  exact fun m _ => ⟨.mapM fun k _ => failsWith_value hc _ _, by simp⟩

end SCurve

theorem UnitHydrograph.failsWith_weightsFor {n : Nat} {c : SCurve K} (hc : c.LawOfValues)
    (lags : Grid [n] K) : FailsWith Fault.OfValue (weightsFor c lags) := by
  unfold weightsFor
  rw [FailsWith.bind_iff]
  refine ⟨.mapM fun lag _ => c.failsWith_weights hc lag, fun rows _ => ?_⟩
  split
  · split <;> simp [Fault.OfValue]
  · simp [Fault.OfValue]

end Catchment
