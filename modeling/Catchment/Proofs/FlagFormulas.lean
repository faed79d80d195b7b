import Catchment.Proofs.CellwisePrograms
import Catchment.Proofs.ExactNumbers
import Catchment.Proofs.SymbolicColumns

/-!
# Formulas that compute with flags

Comparisons and logic give flags, and so does a product, a minimum, a maximum or a choice of flags.
Where no sum, difference, power or elementary function is applied to flags only, a formula over
values computes at every index the number that it has symbolically: a flag is 0 or 1 then. For
minima and maxima this needs that any two numbers compare and that equal ones are the same.
-/
namespace Catchment

variable {K : Type} {s : Shape}

def Unary.givesFlag : Unary → Bool
  | not => true
  | _ => false

/-- Whether the operation is meant for an operand that may be a flag. -/
def Unary.admits (op : Unary) (flag : Bool) : Bool := op.givesFlag || !flag

def Binary.givesFlag (op : Binary) (both : Bool) : Bool :=
  match op with
  | lt | le | gt | ge | and | or => true
  | mul | min | max => both
  | _ => false

/-- Whether the operation is meant for operands that may both be flags. -/
def Binary.admits (op : Binary) (both : Bool) : Bool :=
  match op with
  | add | sub | pow => !both
  | _ => true

inductive Format.Marks : Format → Bool → Prop
  | flag : Marks .flag true
  | double : Marks .double false
  | literal : Marks .literal false

namespace Format.Marks

variable {f g : Format} {a b : Bool}

theorem store [Scalar K] (h : f.Marks a) (x : K) : f.store x = x := by
  cases h <;> rfl

theorem join (hf : f.Marks a) (hg : g.Marks b) : (f.join g).Marks (a && b) := by
  cases hf with
  | flag => cases hg <;> constructor
  | double => cases hg <;> constructor
  | literal => cases hg <;> constructor

/-- Only flags are integers. -/
theorem isInteger (h : f.Marks a) : f.isInteger = a := by
  cases h <;> rfl

theorem eq_flag_iff (h : f.Marks a) : f = .flag ↔ a = true := by
  cases h <;> simp

theorem settle (h : f.Marks false) : f.settle = .double := by
  cases h <;> rfl

theorem unary (h : f.Marks a) {op : Unary} (hop : op.admits a = true) :
    ∃ r, op.result f = .ok r ∧ r.Marks op.givesFlag := by
  cases a with
  | true =>
    cases op with
    | not => exact ⟨.flag, rfl, .flag⟩
    | _ => simp [Unary.admits, Unary.givesFlag] at hop
  | false =>
    have hsettle := h.settle
    have hinteger := h.isInteger
    have hflag : f ≠ .flag := by simp [h.eq_flag_iff]
    cases op with
    | not => exact ⟨.flag, rfl, .flag⟩
    | neg | sign => exact ⟨.double, by simp [Unary.result, hflag, hsettle], .double⟩
    | _ => exact ⟨.double, by simp [Unary.result, hinteger, hsettle], .double⟩

theorem binary (hf : f.Marks a) (hg : g.Marks b) {op : Binary}
    (hop : op.admits (a && b) = true) :
    ∃ r, op.result f g = .ok r ∧ r.Marks (op.givesFlag (a && b)) := by
  have hjoin := hf.join hg
  have hinteger := hjoin.isInteger
  have hflag := hjoin.eq_flag_iff
  generalize hab : (a && b) = both at *
  cases op with
  | lt | le | gt | ge | and | or => exact ⟨.flag, rfl, .flag⟩
  | mul | min | max => exact ⟨f.join g, rfl, hjoin⟩
  | div =>
    have hresult : Binary.result .div f g = .ok (if (f.join g).isInteger then .double
        else f.join g) := rfl
    cases both with
    | true => exact ⟨.double, by simp [hresult, hinteger], .double⟩
    | false => exact ⟨f.join g, by simp [hresult, hinteger], hjoin⟩
  | add | sub | pow =>
    obtain rfl : both = false := by simpa [Binary.admits] using hop
    exact ⟨f.join g, by simp [Binary.result, hflag, Binary.isComparison, Binary.isLogic], hjoin⟩

end Format.Marks

theorem Unary.compute_eq_symbolic [Scalar K] (op : Unary) (x : K) :
    op.compute x = op.symbolic x := by
  cases op <;> rfl

theorem Binary.compute_eq_symbolic [Scalar K] [ExactOrder K] {op : Binary} {c : Format}
    {both : Bool} (hc : c.Marks both) (hop : op.admits both = true) (x y : K) :
    op.compute c x y = op.symbolic x y := by
  cases op with
  | min => exact Scalar.minimum_eq_leastOf x y
  | max => exact Scalar.maximum_eq_greatestOf x y
  | add | pow =>
    obtain rfl : both = false := by simpa [Binary.admits] using hop
    simp [compute, symbolic, hc.isInteger, hc.eq_flag_iff]
  | _ => rfl

theorem Binary.refuses_eq_false [Scalar K] {op : Binary} {c : Format} {both : Bool}
    (hc : c.Marks both) (hop : op.admits both = true) (y : K) : op.refuses c y = false := by
  cases op with
  | pow =>
    obtain rfl : both = false := by simpa [Binary.admits] using hop
    simp [refuses, hc.isInteger]
  | _ => rfl

/-- A value that, repeated over a shape, shows these numbers, as flags or not. -/
structure Values.Shows (v : Values K) (flag : Bool) (x : Index s → K) : Prop where
  format : v.format.Marks flag
  reads : ∃ f, Shape.lift? v.tensor.shape s = some f ∧ ∀ i, v.tensor.grid.get (f i) = x i

namespace Values

variable {u v w : Values K} {a b c : Bool} {x y z : Index s → K}

theorem Shows.repeat? (h : v.Shows a x) : v.tensor.repeat? s = some (Grid.ofFn x) := by
  obtain ⟨-, f, hf, hx⟩ := h
  simp [Tensor.repeat?, Grid.repeat?, hf, hx]

theorem shows_ofTensor {t : Tensor K} {g : Grid s K} (h : t.repeat? s = some g) :
    (ofTensor t).Shows false g.get := by
  obtain ⟨f, hf, rfl⟩ := Option.map_eq_some_iff.1 h
  exact ⟨.double, f, hf, fun i => by simp [ofTensor]⟩

theorem shows_ofGrid (g : Grid s K) : (ofGrid g).Shows false g.get :=
  ⟨.double, id, Shape.lift?_self s, fun _ => rfl⟩

theorem shows_literal (x : K) : (literal x).Shows false fun _ : Index s => x :=
  ⟨.literal, _, Shape.lift?_nil s, fun _ => Grid.get_replicate x _⟩

variable [Scalar K]

theorem unary_shows (hv : v.Shows a x) {op : Unary} (hop : op.admits a = true) :
    ∃ w, unary op v = .ok w ∧ w.Shows op.givesFlag fun i => op.symbolic (x i) := by
  obtain ⟨hformat, f, hf, hx⟩ := hv
  obtain ⟨r, hr, hmarks⟩ := hformat.unary hop
  refine ⟨⟨r, v.tensor.map fun x => r.store (op.compute x)⟩, ?_, hmarks, f, hf, fun i => ?_⟩
  · simp [unary, hr]
  · simp [Tensor.map, hx, hmarks.store, Unary.compute_eq_symbolic]

theorem binary_shows [ExactOrder K] (hv : v.Shows a x) (hw : w.Shows b y) {op : Binary}
    (hop : op.admits (a && b) = true) :
    ∃ u, binary op v w = .ok u ∧
      u.Shows (op.givesFlag (a && b)) fun i => op.symbolic (x i) (y i) := by
  obtain ⟨hvf, f, hf, hx⟩ := hv
  obtain ⟨hwf, g, hg, hy⟩ := hw
  obtain ⟨r, hr, hmarks⟩ := hvf.binary hwf hop
  have hjoin := hvf.join hwf
  obtain ⟨t, p, ht, hp, hget⟩ := Tensor.zipWith?_of_lift?
    (fun x y => ((v.format.join w.format).store x, (v.format.join w.format).store y)) hf hg
  have hrefuses : t.toList.any (fun q => op.refuses (v.format.join w.format) q.2) = false := by
    simp [Binary.refuses_eq_false hjoin hop]
  refine ⟨⟨r, t.map fun q => r.store (op.compute (v.format.join w.format) q.1 q.2)⟩, ?_, hmarks, p,
    hp, fun i => ?_⟩
  · simp [binary, hr, ht, hrefuses]
  · simp [Tensor.map, hget, hx, hy, hmarks.store, hjoin.store,
      Binary.compute_eq_symbolic hjoin hop]

theorem choose_shows (hu : u.Shows c z) (hv : v.Shows a x) (hw : w.Shows b y) :
    ∃ r, choose u v w = .ok r ∧
      r.Shows (a && b) fun i => if Scalar.truth (z i) then x i else y i := by
  obtain ⟨-, e, he, hz⟩ := hu
  obtain ⟨hvf, f, hf, hx⟩ := hv
  obtain ⟨hwf, g, hg, hy⟩ := hw
  have hjoin := hvf.join hwf
  obtain ⟨t, p, ht, hp, hget⟩ := Tensor.zipWith?_of_lift? Prod.mk hf hg
  obtain ⟨t', p', ht', hp', hget'⟩ :=
    Tensor.zipWith?_of_lift? (fun x (y : K × K) => if Scalar.truth x then y.1 else y.2) he hp
  refine ⟨⟨v.format.join w.format, t'.map (v.format.join w.format).store⟩, ?_, hjoin, p', hp',
    fun i => ?_⟩
  · simp [choose, ht, ht']
  · simp [Tensor.map, hget', hget, hx, hy, hz, hjoin.store]

end Values

namespace Expr

/-- Whether the expression gives flags, from which variables do. -/
def isFlag (F : String → Bool) : Expr K → Bool
  | var name => F name
  | par _ | const _ => false
  | unary op _ => op.givesFlag
  | binary op a b => op.givesFlag (a.isFlag F && b.isFlag F)
  | choose _ a b => a.isFlag F && b.isFlag F

/-- Whether no operation is applied to flags only that is not meant for them. -/
def sparesFlags (F : String → Bool) : Expr K → Bool
  | var _ | par _ | const _ => true
  | unary op a => a.sparesFlags F && op.admits (a.isFlag F)
  | binary op a b =>
    a.sparesFlags F && b.sparesFlags F && op.admits (a.isFlag F && b.isFlag F)
  | choose c a b => c.sparesFlags F && a.sparesFlags F && b.sparesFlags F

end Expr

/-- Whether every formula spares flags, where what is computed earlier may be a flag. -/
def sparesFlags : (String → Bool) → List (String × Expr K) → Bool
  | _, [] => true
  | F, f :: rest => f.2.sparesFlags F && sparesFlags (Function.update F f.1 (f.2.isFlag F)) rest

/-- Formulas of which each reads what is known or computed before it. -/
def ReadsKnown : List String → List (String × Expr K) → Prop
  | _, [] => True
  | known, f :: rest => f.2.reads ⊆ known ∧ ReadsKnown (f.1 :: known) rest

def Bindings.Show (env : Bindings K) (names : List String) (F : String → Bool)
    (x : Index s → String → K) : Prop :=
  ∀ v ∈ names, ∃ w, env.lookup v = some w ∧ w.Shows (F v) fun i => x i v

theorem Bindings.Show.mono {env : Bindings K} {names names' : List String} {F : String → Bool}
    {x : Index s → String → K} (h : env.Show names F x) (hsub : names' ⊆ names) :
    env.Show names' F x :=
  fun v hv => h v (hsub hv)

theorem Bindings.Show.cons {env : Bindings K} {names : List String} {F : String → Bool}
    {x : Index s → String → K} (h : env.Show names F x) {w : Values K} {flag : Bool}
    {y : Index s → K} (hw : w.Shows flag y) (name : String) :
    Bindings.Show ((name, w) :: env) (name :: names) (Function.update F name flag)
      fun i => Function.update (x i) name (y i) := by
  intro v hv
  by_cases hname : v = name
  · subst hname
    exact ⟨w, List.lookup_cons_self, by simpa using hw⟩
  · obtain ⟨u, hu, hshows⟩ := h v (List.mem_of_ne_of_mem hname hv)
    refine ⟨u, ?_, by simpa [Function.update_of_ne hname] using hshows⟩
    rw [List.lookup_cons, beq_eq_false_iff_ne.2 hname]
    exact hu

variable [Scalar K] [ExactOrder K] {vars params : Bindings K} {F : String → Bool}
  {x p : Index s → String → K}

/-- An expression that spares flags shows its symbolic numbers. -/
theorem Expr.eval_shows (e : Expr K) (hx : vars.Show e.reads F x)
    (hp : params.Show e.readsParams (fun _ => false) p) (hf : e.sparesFlags F = true) :
    ∃ w, e.eval vars params = .ok w ∧ w.Shows (e.isFlag F) fun i => e.symbolic (x i) (p i) := by
  have hreads := readsOnly hx hp
  clear hx hp
  induction hreads with
  | var hv =>
    obtain ⟨w, hw, hshows⟩ := hv
    exact ⟨w, by simp [eval, hw], hshows⟩
  | par hk =>
    obtain ⟨w, hw, hshows⟩ := hk
    exact ⟨w, by simp [eval, hw], hshows⟩
  | const value => exact ⟨.literal value, rfl, Values.shows_literal value⟩
  | unary op _ iha =>
    simp only [sparesFlags, Bool.and_eq_true] at hf
    obtain ⟨v, hv, hshows⟩ := iha hf.1
    obtain ⟨w, hw, hresult⟩ := Values.unary_shows hshows hf.2
    exact ⟨w, by simp [eval, hv, hw], hresult⟩
  | binary op _ _ iha ihb =>
    simp only [sparesFlags, Bool.and_eq_true] at hf
    obtain ⟨⟨hfa, hfb⟩, hop⟩ := hf
    obtain ⟨u, hu, hushows⟩ := iha hfa
    obtain ⟨v, hv, hvshows⟩ := ihb hfb
    obtain ⟨w, hw, hresult⟩ := Values.binary_shows hushows hvshows hop
    exact ⟨w, by simp [eval, hu, hv, hw], hresult⟩
  | choose _ _ _ ihc iha ihb =>
    simp only [sparesFlags, Bool.and_eq_true] at hf
    obtain ⟨⟨hfc, hfa⟩, hfb⟩ := hf
    obtain ⟨t, ht, htshows⟩ := ihc hfc
    obtain ⟨u, hu, hushows⟩ := iha hfa
    obtain ⟨v, hv, hvshows⟩ := ihb hfb
    obtain ⟨w, hw, hresult⟩ := Values.choose_shows htshows hushows hvshows
    exact ⟨w, by simp [eval, ht, hu, hv, hw], hresult⟩

/-- Formulas that spare flags leave every name with a value that shows the computed numbers. -/
theorem Declaration.bindFormulas_shows {fs : List (String × Expr K)} {env : Bindings K}
    {known ks : List String} (hx : env.Show known F x) (hp : params.Show ks (fun _ => false) p)
    (hks : ∀ f ∈ fs, f.2.readsParams ⊆ ks) (hknown : ReadsKnown known fs)
    (hf : sparesFlags F fs = true) :
    ∃ env' F', bindFormulas params fs env = .ok env' ∧
      env'.Show (fs.map Prod.fst ++ known) F' fun i => computed (p i) fs (x i) := by
  induction fs generalizing env known F x with
  | nil => exact ⟨env, F, rfl, hx⟩
  | cons f fs ih =>
    obtain ⟨hreads, hknown⟩ := hknown
    simp only [sparesFlags, Bool.and_eq_true] at hf
    obtain ⟨w, hw, hshows⟩ :=
      f.2.eval_shows (hx.mono hreads) (hp.mono (hks f List.mem_cons_self)) hf.1
    obtain ⟨env', F', henv, hshow⟩ := ih (hx.cons hshows f.1)
      (fun g hg => hks g (List.mem_cons_of_mem f hg)) hknown hf.2
    refine ⟨env', F', by simp [bindFormulas, hw, henv], ?_⟩
    exact hshow.mono (by simp [List.subset_def, or_left_comm])

end Catchment
