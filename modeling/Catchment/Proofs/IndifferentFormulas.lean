import Catchment.Proofs.FlagFormulas
import Catchment.Proofs.ProgramValues
import Catchment.Proofs.RearrangedPrograms

/-!
# Formulas that do not tell formats apart

Names may stand for the same numbers in different formats: a flag here is a double there. A formula
gives the same numbers, or ends in the same fault, if each operation in it computes and stores alike
in the formats of its operands. Flags are multiplied, compared and chosen like doubles, but they are
not added like doubles, and what is stored in half precision or in eight bits is rounded.
-/
namespace Catchment

variable {K : Type} {s : Shape}

namespace Format

def rounds : Format → Bool
  | half | int8 => true
  | _ => false

/-- Whether both formats store every number alike. -/
def alike (f g : Format) : Bool := f = g || !(f.rounds || g.rounds)

/-- Whether two formats pass a check; where one of them does not exist there is nothing to check. -/
def passBoth (check : Format → Format → Bool) : Except Fault Format → Except Fault Format → Bool
  | .ok f, .ok g => check f g
  | _, _ => true

@[simp] theorem alike_self (f : Format) : f.alike f = true := by simp [alike]

theorem passBoth_self {check : Format → Format → Bool} (h : ∀ f, check f f = true)
    (r : Except Fault Format) : passBoth check r r = true := by
  cases r with
  | ok f => exact h f
  | error e => rfl

theorem store_eq_self [Scalar K] {f : Format} (h : f.rounds = false) (x : K) : f.store x = x := by
  cases f <;> first | rfl | exact nomatch h

theorem alike_iff {f g : Format} :
    f.alike g = true ↔ f = g ∨ f.rounds = false ∧ g.rounds = false := by
  simp [alike]

theorem store_eq_of_alike [Scalar K] {f g : Format} (h : f.alike g = true) (x : K) :
    f.store x = g.store x := by
  rcases alike_iff.1 h with rfl | ⟨hf, hg⟩
  · rfl
  · rw [store_eq_self hf, store_eq_self hg]

end Format

/-- Whether the operation computes the same numbers from operands of either format. -/
def Unary.indifferent (op : Unary) (f g : Format) : Bool :=
  match op.result f, op.result g with
  | .ok r, .ok r' => r.alike r'
  | .error _, .error _ => true
  | _, _ => false

/-- Whether the operation computes the same numbers where its operands meet in either format. -/
def Binary.indifferent (op : Binary) (c d : Format) : Bool :=
  c.alike d && (c = d || op.admits true)

def Binary.fault (op : Binary) (f g : Format) : Fault :=
  match op.result f g with
  | .ok _ => .value
  | .error e => e

section Operations

variable {f f' g g' : Format}

theorem Unary.indifferent_self (op : Unary) (f : Format) : op.indifferent f f = true := by
  rw [indifferent]
  cases op.result f <;> simp

theorem Binary.indifferent_iff {op : Binary} {c d : Format} : op.indifferent c d = true ↔
    c = d ∨ op.admits true = true ∧ c.rounds = false ∧ d.rounds = false := by
  simp only [indifferent, Bool.and_eq_true, Bool.or_eq_true, decide_eq_true_eq, Format.alike_iff]
  tauto

theorem Binary.indifferent_self (op : Binary) (c : Format) : op.indifferent c c = true :=
  indifferent_iff.2 (.inl rfl)

/-- Which fault a unary operation ends in does not depend on the format. -/
theorem Unary.fault_unique {op : Unary} {e e' : Fault} (h : op.result f = .error e)
    (h' : op.result g = .error e') : e = e' := by
  cases op with
  | neg | sign =>
    simp only [result] at h h'
    split_ifs at h h'
    exact (Except.error.inj h).symm.trans (Except.error.inj h')
  | _ => simp [result] at h

theorem Binary.result_congr (op : Binary) (h : f.join f' = g.join g') :
    op.result f f' = op.result g g' := by
  simp only [result, h]

/-- An operation that is meant for flags gives results in formats that do not round. -/
theorem Binary.result_of_admits {op : Binary} (hop : op.admits true = true)
    (h : (f.join f').rounds = false) : ∃ r, op.result f f' = .ok r ∧ r.rounds = false := by
  cases op with
  | add | sub | pow => exact nomatch hop
  | div =>
    refine ⟨_, rfl, ?_⟩
    split_ifs
    · rfl
    · exact h
  | mul | min | max => exact ⟨_, rfl, h⟩
  | _ => exact ⟨.flag, rfl, rfl⟩

theorem Binary.fault_eq {op : Binary} (h : op.indifferent (f.join f') (g.join g') = true) :
    op.fault f f' = op.fault g g' := by
  rcases indifferent_iff.1 h with hjoin | ⟨hop, hc, hd⟩
  · rw [fault, fault, op.result_congr hjoin]
  · obtain ⟨r, hr, -⟩ := result_of_admits hop hc
    obtain ⟨r', hr', -⟩ := result_of_admits hop hd
    rw [fault, fault, hr, hr']

variable [Scalar K]

theorem Binary.compute_of_admits {op : Binary} (hop : op.admits true = true) (c d : Format)
    (x y : K) : op.compute c x y = op.compute d x y := by
  cases op with
  | add | pow => exact nomatch hop
  | _ => rfl

theorem Binary.not_refuses {op : Binary} (hop : op.admits true = true) (c : Format) (y : K) :
    op.refuses c y = false := by
  cases op with
  | pow => exact nomatch hop
  | _ => rfl

theorem Cell.value_unary {op : Unary} (h : op.indifferent f g = true) (x : K) :
    (unary op ⟨f, x⟩).toOption.map value = (unary op ⟨g, x⟩).toOption.map value := by
  rw [Unary.indifferent] at h
  cases hr : op.result f with
  | ok r =>
    cases hr' : op.result g with
    | ok r' =>
      rw [hr, hr'] at h
      have hstore := Format.store_eq_of_alike h (op.compute x)
      simp [unary, hr, hr', Except.toOption, hstore]
    | error e => simp [hr, hr'] at h
  | error e =>
    cases hr' : op.result g with
    | ok r' => simp [hr, hr'] at h
    | error e' => simp [unary, hr, hr', Except.toOption]

theorem Cell.value_binary_of_admits {op : Binary} (hop : op.admits true = true)
    (hc : (f.join f').rounds = false) (x y : K) :
    (binary op ⟨f, x⟩ ⟨f', y⟩).toOption.map value = some (op.compute .double x y) := by
  obtain ⟨r, hr, hrounds⟩ := Binary.result_of_admits hop hc
  simp [binary, hr, Binary.not_refuses hop, Except.toOption, Format.store_eq_self hc,
    Format.store_eq_self hrounds, Binary.compute_of_admits hop (f.join f') .double]

theorem Cell.value_binary {op : Binary} (h : op.indifferent (f.join f') (g.join g') = true)
    (x y : K) : (binary op ⟨f, x⟩ ⟨f', y⟩).toOption.map value =
      (binary op ⟨g, x⟩ ⟨g', y⟩).toOption.map value := by
  rcases Binary.indifferent_iff.1 h with hjoin | ⟨hop, hc, hd⟩
  · simp only [binary, op.result_congr hjoin, hjoin]
  · rw [value_binary_of_admits hop hc, value_binary_of_admits hop hd]

theorem Cell.value_choose {c c' : Cell K} (hc : c.value = c'.value)
    (h : (f.join f').alike (g.join g') = true) (x y : K) :
    (c.choose ⟨f, x⟩ ⟨f', y⟩).value = (c'.choose ⟨g, x⟩ ⟨g', y⟩).value := by
  simp only [choose, hc, Format.store_eq_of_alike h]

end Operations

namespace Values

def Carries (a : Values K) (x : Index s → K) : Prop := a.Holds fun i => ⟨a.format, x i⟩

theorem Holds.carries {a : Values K} {c : Index s → Cell K} (h : a.Holds c) :
    a.Carries fun i => (c i).value := by
  have hcells : (fun i => (⟨a.format, (c i).value⟩ : Cell K)) = c :=
    funext fun i => by rw [← h.format i]
  rw [Carries, hcells]
  exact h

theorem Carries.repeat? {a : Values K} {x : Index s → K} (h : a.Carries x) :
    a.tensor.repeat? s = some (Grid.ofFn x) := Holds.repeat? h

theorem carries_ofGrid (g : Grid s K) : (ofGrid g).Carries g.get := holds_ofGrid g

theorem carries_ofTensor {t : Tensor K} {g : Grid s K} (h : t.repeat? s = some g) :
    (ofTensor t).Carries g.get := by
  obtain ⟨f, hf, rfl⟩ := Option.map_eq_some_iff.1 h
  exact ⟨f, hf, fun i => by simp [ofTensor]⟩

variable [Scalar K]

theorem fault_of_unary {op : Unary} {a : Values K} {e : Fault} (h : unary op a = .error e) :
    op.result a.format = .error e := by
  rw [unary] at h
  cases hr : op.result a.format with
  | ok r => simp [hr] at h
  | error e' => simpa [hr] using h

theorem fault_of_binary {op : Binary} {a b : Values K} {e : Fault} (h : binary op a b = .error e) :
    e = op.fault a.format b.format := by
  rw [binary] at h
  rw [Binary.fault]
  cases hr : op.result a.format b.format with
  | error e' => simpa [hr] using h.symm
  | ok r =>
    rw [hr, ok_bind] at h
    dsimp only at h
    generalize Tensor.zipWith? _ _ _ = pairs at h
    cases pairs with
    | none => simpa using h.symm
    | some t =>
      rw [orFault_some, ok_bind] at h
      split at h
      · simpa using h.symm
      · simp at h

end Values

namespace Expr

/-- The format in which two operands meet. -/
def meet (F : String → Format) (a b : Expr K) : Except Fault Format := do
  return (← a.format F).join (← b.format F)

theorem meet_eq {F : String → Format} {a b : Expr K} {f g : Format} (ha : a.format F = .ok f)
    (hb : b.format F = .ok g) : a.meet F b = .ok (f.join g) := by
  rw [meet, ha, hb]
  rfl

/-- Whether each operation of the expression computes the same numbers in either formats. -/
def indifferent (F G : String → Format) : Expr K → Bool
  | unary op a => a.indifferent F G && Format.passBoth op.indifferent (a.format F) (a.format G)
  | binary op a b =>
    a.indifferent F G && b.indifferent F G &&
      Format.passBoth op.indifferent (a.meet F b) (a.meet G b)
  | choose c a b =>
    c.indifferent F G && a.indifferent F G && b.indifferent F G &&
      Format.passBoth Format.alike (a.meet F b) (a.meet G b)
  | _ => true

theorem indifferent_self (F : String → Format) (e : Expr K) : e.indifferent F F = true := by
  induction e with
  | unary op a iha => rw [indifferent, iha, Format.passBoth_self op.indifferent_self, Bool.and_self]
  | binary op a b iha ihb =>
    rw [indifferent, iha, ihb, Format.passBoth_self op.indifferent_self]
    simp only [Bool.and_self]
  | choose c a b ihc iha ihb =>
    rw [indifferent, ihc, iha, ihb, Format.passBoth_self Format.alike_self]
    simp only [Bool.and_self]
  | _ => rfl

/-- One fault, or two values in the formats of an expression that carry the same numbers. -/
inductive Twins (s : Shape) (F G : String → Format) (e : Expr K) :
    Except Fault (Values K) → Except Fault (Values K) → Prop
  | ok {a b : Values K} (x : Index s → K) (left : a.Carries x) (right : b.Carries x)
      (format : e.format F = .ok a.format) (format' : e.format G = .ok b.format) :
      Twins s F G e (.ok a) (.ok b)
  | error (f : Fault) : Twins s F G e (.error f) (.error f)

namespace Twins

variable {F G : String → Format} {e a b : Expr K} {u u' : Except Fault (Values K)}

theorem bind {k k' : Values K → Except Fault (Values K)} (h : Twins s F G a u u')
    (hk : ∀ v v', Twins s F G a (.ok v) (.ok v') → Twins s F G e (k v) (k' v')) :
    Twins s F G e (u >>= k) (u' >>= k') := by
  cases h with
  | ok x left right format format' => exact hk _ _ (.ok x left right format format')
  | error f => exact .error f

theorem outcome (h : Twins s F G e u u') : (∃ f, u = .error f ∧ u' = .error f) ∨
    ∃ v v', u = .ok v ∧ u' = .ok v' ∧ Twins s F G e (.ok v) (.ok v') := by
  cases h with
  | ok x left right format format' =>
    exact .inr ⟨_, _, rfl, rfl, .ok x left right format format'⟩
  | error f => exact .inl ⟨f, rfl, rfl⟩

/-- Two values are twins if their cells hold the same numbers and they cannot fail differently. -/
theorem of_agree {c c' : Index s → Except Fault (Cell K)} (h : Agree Values.Holds u c)
    (h' : Agree Values.Holds u' c') (i₀ : Index s)
    (hvalue : ∀ i, (c i).toOption.map Cell.value = (c' i).toOption.map Cell.value)
    (hF : ∀ d, c i₀ = .ok d → e.format F = .ok d.format)
    (hG : ∀ d, c' i₀ = .ok d → e.format G = .ok d.format)
    (hfault : ∀ f f', u = .error f → u' = .error f' → f = f') : Twins s F G e u u' := by
  cases u with
  | ok v =>
    obtain ⟨d, hd, hc⟩ := h
    cases u' with
    | ok v' =>
      obtain ⟨d', hd', hc'⟩ := h'
      have heq (i : Index s) : (d' i).value = (d i).value := by
        have hi := hvalue i
        rw [hc, hc'] at hi
        exact (Option.some.inj hi).symm
      refine .ok (fun i => (d i).value) hd.carries ?_ ?_ ?_
      · simpa only [heq] using hd'.carries
      · rw [hF _ (hc i₀), hd.format]
      · rw [hG _ (hc' i₀), hd'.format]
    | error f =>
      obtain ⟨i, f', hi⟩ := h' ⟨i₀⟩
      simpa [hc, hi, Except.toOption] using hvalue i
  | error f =>
    cases u' with
    | ok v' =>
      obtain ⟨d', -, hc'⟩ := h'
      obtain ⟨i, f', hi⟩ := h ⟨i₀⟩
      simpa [hc', hi, Except.toOption] using hvalue i
    | error f' =>
      obtain rfl := hfault f f' rfl rfl
      exact .error f

variable [Scalar K] {v v' w w' r r' : Values K}

theorem unary {op : Unary} (i₀ : Index s)
    (hop : Format.passBoth op.indifferent (a.format F) (a.format G) = true)
    (h : Twins s F G a (.ok v) (.ok v')) :
    Twins s F G (.unary op a) (Values.unary op v) (Values.unary op v') := by
  obtain ⟨x, left, right, format, format'⟩ := h
  rw [format, format'] at hop
  refine of_agree (Values.unary_agree op left) (Values.unary_agree op right) i₀
    (fun i => Cell.value_unary hop (x i)) (fun d hd => ?_) (fun d hd => ?_) fun f f' hf hf' => ?_
  · rw [Expr.format, format]
    exact Cell.result_of_unary hd
  · rw [Expr.format, format']
    exact Cell.result_of_unary hd
  · exact Unary.fault_unique (Values.fault_of_unary hf) (Values.fault_of_unary hf')

theorem binary {op : Binary} (i₀ : Index s)
    (hop : Format.passBoth op.indifferent (a.meet F b) (a.meet G b) = true)
    (ha : Twins s F G a (.ok v) (.ok v')) (hb : Twins s F G b (.ok w) (.ok w')) :
    Twins s F G (.binary op a b) (Values.binary op v w) (Values.binary op v' w') := by
  obtain ⟨x, hv, hv', hFa, hGa⟩ := ha
  obtain ⟨y, hw, hw', hFb, hGb⟩ := hb
  rw [meet_eq hFa hFb, meet_eq hGa hGb] at hop
  refine of_agree (Values.binary_agree op hv hw) (Values.binary_agree op hv' hw') i₀
    (fun i => Cell.value_binary hop (x i) (y i)) (fun d hd => ?_) (fun d hd => ?_)
    fun f f' hf hf' => ?_
  · rw [Expr.format, hFa, hFb]
    exact Cell.result_of_binary hd
  · rw [Expr.format, hGa, hGb]
    exact Cell.result_of_binary hd
  · rw [Values.fault_of_binary hf, Values.fault_of_binary hf']
    exact Binary.fault_eq hop

theorem choose {c : Expr K} (i₀ : Index s)
    (hop : Format.passBoth Format.alike (a.meet F b) (a.meet G b) = true)
    (hc : Twins s F G c (.ok r) (.ok r')) (ha : Twins s F G a (.ok v) (.ok v'))
    (hb : Twins s F G b (.ok w) (.ok w')) :
    Twins s F G (.choose c a b) (Values.choose r v w) (Values.choose r' v' w') := by
  obtain ⟨z, hr, hr', hFc, hGc⟩ := hc
  obtain ⟨x, hv, hv', hFa, hGa⟩ := ha
  obtain ⟨y, hw, hw', hFb, hGb⟩ := hb
  rw [meet_eq hFa hFb, meet_eq hGa hGb] at hop
  have hchoose := Values.choose_agree hr hv hw
  refine of_agree hchoose (Values.choose_agree hr' hv' hw') i₀
    (fun i => congrArg some (Cell.value_choose rfl hop (x i) (y i))) (fun d hd => ?_)
    (fun d hd => ?_) fun f f' hf _ => ?_
  · rw [Expr.format, hFa, hFb, hFc, ← Except.ok.inj hd]
    rfl
  · rw [Expr.format, hGa, hGb, hGc, ← Except.ok.inj hd]
    rfl
  · rw [hf] at hchoose
    obtain ⟨i, f'', hi⟩ := hchoose ⟨i₀⟩
    simp at hi

end Twins

end Expr

def Bindings.Twins (s : Shape) (F G : String → Format) (env env' : Bindings K) : Prop :=
  ∀ v, env.lookup v = none ∧ env'.lookup v = none ∨
    ∃ a b, env.lookup v = some a ∧ env'.lookup v = some b ∧ a.format = F v ∧ b.format = G v ∧
      ∃ x : Index s → K, a.Carries x ∧ b.Carries x

def Bindings.Share (s : Shape) (params params' : Bindings K) (names : List String) : Prop :=
  ∀ k ∈ names, ∃ t g, params.lookup k = some (.ofTensor t) ∧
    params'.lookup k = some (.ofTensor t) ∧ t.repeat? s = some (g : Grid s K)

theorem Bindings.Share.mono {params params' : Bindings K} {names names' : List String}
    (h : params.Share s params' names) (hsub : names' ⊆ names) : params.Share s params' names' :=
  fun k hk => h k (hsub hk)

variable {F G : String → Format} {env env' params params' : Bindings K}

/-- The formats of all names after one more formula. -/
def nextFormats (F : String → Format) (f : String × Expr K) : String → Format :=
  Function.update F f.1 ((f.2.format F).toOption.getD .double)

theorem formatsOf_eq (fs : List (String × Expr K)) :
    formatsOf fs = fs.foldl nextFormats fun _ => .double := rfl

theorem foldl_nextFormats_of_notMem {fs : List (String × Expr K)} {F : String → Format} {v : String}
    (hv : v ∉ fs.map Prod.fst) : fs.foldl nextFormats F v = F v := by
  induction fs generalizing F with
  | nil => rfl
  | cons f fs ih =>
    rw [List.map_cons, List.mem_cons, not_or] at hv
    rw [List.foldl_cons, ih hv.2, nextFormats, Function.update_of_ne hv.1]

/-- Whether no formula tells the formats of the names known before it apart. -/
def indifferent : (F G : String → Format) → List (String × Expr K) → Bool
  | _, _, [] => true
  | F, G, f :: rest => f.2.indifferent F G && indifferent (nextFormats F f) (nextFormats G f) rest

theorem indifferent_self (F : String → Format) (fs : List (String × Expr K)) :
    indifferent F F fs = true := by
  induction fs generalizing F with
  | nil => rfl
  | cons f fs ih => rw [indifferent, f.2.indifferent_self, ih, Bool.and_self]

theorem Bindings.Twins.cons {f : String × Expr K} {a b : Values K}
    (h : Bindings.Twins s F G env env') (hf : f.2.Twins s F G (.ok a) (.ok b)) :
    Bindings.Twins s (nextFormats F f) (nextFormats G f) ((f.1, a) :: env) ((f.1, b) :: env') := by
  obtain ⟨x, ha, hb, hF, hG⟩ := hf
  intro v
  by_cases hv : v = f.1
  · subst hv
    refine .inr ⟨a, b, List.lookup_cons_self, List.lookup_cons_self, ?_, ?_, x, ha, hb⟩
    · rw [nextFormats, Function.update_self, hF]
      rfl
    · rw [nextFormats, Function.update_self, hG]
      rfl
  · rw [lookup_cons_of_ne hv, lookup_cons_of_ne hv, nextFormats, nextFormats,
      Function.update_of_ne hv, Function.update_of_ne hv]
    exact h v

variable [Scalar K]

/-- An expression that does not tell formats apart has twins for its values. -/
theorem Expr.eval_twins {e : Expr K} (i₀ : Index s) (henv : Bindings.Twins s F G env env')
    (hparams : params.Share s params' e.readsParams) (h : e.indifferent F G = true) :
    e.Twins s F G (e.eval env params) (e.eval env' params') := by
  have hreads := readsOnly (fun v _ => henv v) hparams
  clear hparams
  induction hreads with
  | var hv =>
    rw [eval, eval]
    rcases hv with ⟨hnone, hnone'⟩ | ⟨a, b, ha, hb, hF, hG, x, hax, hbx⟩
    · rw [hnone, hnone']
      exact .error .unknownName
    · rw [ha, hb]
      exact .ok x hax hbx (by rw [format, hF]) (by rw [format, hG])
  | par hk =>
    obtain ⟨t, g, ht, ht', hg⟩ := hk
    rw [eval, eval, ht, ht']
    exact .ok g.get (Values.carries_ofTensor hg) (Values.carries_ofTensor hg) rfl rfl
  | const x =>
    exact .ok _ (Values.holds_literal x).carries (Values.holds_literal x).carries rfl rfl
  | unary op _ iha =>
    rw [indifferent, Bool.and_eq_true] at h
    exact (iha h.1).bind fun v v' hv => hv.unary i₀ h.2
  | binary op _ _ iha ihb =>
    simp only [indifferent, Bool.and_eq_true] at h
    obtain ⟨⟨ha, hb⟩, hop⟩ := h
    exact (iha ha).bind fun v v' hv => (ihb hb).bind fun w w' hw => hv.binary i₀ hop hw
  | choose _ _ _ ihc iha ihb =>
    simp only [indifferent, Bool.and_eq_true] at h
    obtain ⟨⟨⟨hc, ha⟩, hb⟩, hop⟩ := h
    exact (ihc hc).bind fun r r' hr => (iha ha).bind fun v v' hv => (ihb hb).bind fun w w' hw =>
      hr.choose i₀ hop hv hw

/-- Formulas that do not tell formats apart end in the same fault, or leave the names with the same
numbers in the formats of the formulas. -/
theorem Declaration.bindFormulas_twins {fs : List (String × Expr K)} (i₀ : Index s)
    (henv : Bindings.Twins s F G env env')
    (hparams : ∀ f ∈ fs, params.Share s params' f.2.readsParams)
    (h : indifferent F G fs = true) :
    (∃ f, bindFormulas params fs env = .error f ∧ bindFormulas params' fs env' = .error f) ∨
      ∃ τ τ', bindFormulas params fs env = .ok τ ∧ bindFormulas params' fs env' = .ok τ' ∧
        Bindings.Twins s (fs.foldl nextFormats F) (fs.foldl nextFormats G) τ τ' := by
  induction fs generalizing F G env env' with
  | nil => exact .inr ⟨env, env', rfl, rfl, henv⟩
  | cons f fs ih =>
    rw [Catchment.indifferent, Bool.and_eq_true] at h
    have hf := Expr.eval_twins i₀ henv (hparams f List.mem_cons_self) h.1
    rw [bindFormulas, bindFormulas]
    rcases hf.outcome with ⟨e, he, he'⟩ | ⟨a, b, ha, hb, hab⟩
    · rw [he, he']
      exact .inl ⟨e, rfl, rfl⟩
    · rw [ha, hb]
      exact ih (henv.cons hab) (fun g hg => hparams g (List.mem_cons_of_mem f hg)) h.2

end Catchment
