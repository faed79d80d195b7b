import Catchment.Cell
import Catchment.Proofs.Outcomes

/-!
# Formulas in order

Formulas are evaluated one after the other at one position, each result known to the formulas after
it. In a scheduled list no formula reads its own result or a later one; its evaluation gives the
names the values that satisfy all formulas at once, so every schedule of the same formulas gives the
same values.
-/
namespace Catchment

/-- What names stand for at one position. -/
abbrev Scope (K : Type) := String → Option (Cell K)

variable {K : Type}

def Scope.set (σ : Scope K) (name : String) (c : Cell K) : Scope K :=
  fun v => if v = name then some c else σ v

@[simp] theorem Scope.set_self (σ : Scope K) (name : String) (c : Cell K) :
    σ.set name c name = some c := if_pos rfl

theorem Scope.set_of_ne {σ : Scope K} {name v : String} {c : Cell K} (h : v ≠ name) :
    σ.set name c v = σ v := if_neg h

/-- Every result is new, and no formula reads its own result or a later one. -/
structure Scheduled (fs : List (String × Expr K)) : Prop where
  own : ∀ f ∈ fs, f.1 ∉ f.2.reads
  later : fs.Pairwise fun f g => g.1 ≠ f.1 ∧ g.1 ∉ f.2.reads

namespace Scheduled

variable {f : String × Expr K} {fs : List (String × Expr K)}

theorem of_independent (hnew : (fs.map Prod.fst).Nodup)
    (hfree : ∀ f ∈ fs, ∀ v ∈ f.2.reads, v ∉ fs.map Prod.fst) : Scheduled fs where
  own f hf hr := hfree f hf f.1 hr (List.mem_map_of_mem hf)
  later := (List.pairwise_map.1 hnew).imp_of_mem fun {f g} hf hg hne =>
    ⟨Ne.symm hne, fun hr => hfree f hf g.1 hr (List.mem_map_of_mem hg)⟩

theorem tail (h : Scheduled (f :: fs)) : Scheduled fs :=
  ⟨fun g hg => h.own g (List.mem_cons_of_mem f hg), (List.pairwise_cons.1 h.later).2⟩

theorem head_notMem (h : Scheduled (f :: fs)) : f.1 ∉ fs.map Prod.fst := by
  rw [List.mem_map]
  rintro ⟨g, hg, hgf⟩
  exact ((List.pairwise_cons.1 h.later).1 g hg).1 hgf

theorem reads_notMem (h : Scheduled (f :: fs)) {v : String} (hv : v ∈ f.2.reads) :
    v ∉ (f :: fs).map Prod.fst := by
  rw [List.map_cons, List.mem_cons, List.mem_map]
  rintro (rfl | ⟨g, hg, rfl⟩)
  · exact h.own f List.mem_cons_self hv
  · exact ((List.pairwise_cons.1 h.later).1 g hg).2 hv

end Scheduled

inductive Expr.ReadsOnly (V P : String → Prop) : Expr K → Prop
  | var {v : String} (hv : V v) : ReadsOnly V P (.var v)
  | par {k : String} (hk : P k) : ReadsOnly V P (.par k)
  | const (x : K) : ReadsOnly V P (.const x)
  | unary (op : Unary) {a : Expr K} (ha : ReadsOnly V P a) : ReadsOnly V P (.unary op a)
  | binary (op : Binary) {a b : Expr K} (ha : ReadsOnly V P a) (hb : ReadsOnly V P b) :
      ReadsOnly V P (.binary op a b)
  | choose {c a b : Expr K} (hc : ReadsOnly V P c) (ha : ReadsOnly V P a) (hb : ReadsOnly V P b) :
      ReadsOnly V P (.choose c a b)

variable [Scalar K] {params : Scope K}

omit [Scalar K] in
/-- A property of what an expression reads is one of each of its operands, down to the names. -/
theorem Expr.readsOnly {V P : String → Prop} {e : Expr K} (hreads : ∀ v ∈ e.reads, V v)
    (hparams : ∀ k ∈ e.readsParams, P k) : e.ReadsOnly V P := by
  induction e with
  | var v => exact .var (hreads v (List.mem_singleton_self v))
  | par k => exact .par (hparams k (List.mem_singleton_self k))
  | const x => exact .const x
  | unary op a iha => exact .unary op (iha hreads hparams)
  | binary op a b iha ihb =>
    simp only [reads, readsParams, List.forall_mem_append] at hreads hparams
    exact .binary op (iha hreads.1 hparams.1) (ihb hreads.2 hparams.2)
  | choose c a b ihc iha ihb =>
    simp only [reads, readsParams, List.forall_mem_append] at hreads hparams
    exact .choose (ihc hreads.1.1 hparams.1.1) (iha hreads.1.2 hparams.1.2)
      (ihb hreads.2 hparams.2)

/-- Only the variables and the parameters that an expression reads matter to it. -/
theorem Expr.evalCell_eq {e : Expr K} {σ τ args : Scope K} (h : ∀ v ∈ e.reads, σ v = τ v)
    (hp : ∀ k ∈ e.readsParams, params k = args k) :
    e.evalCell σ params = e.evalCell τ args := by
  have hreads := readsOnly h hp
  clear h hp
  induction hreads with
  | var hv => rw [evalCell, evalCell, hv]
  | par hk => rw [evalCell, evalCell, hk]
  | const x => rfl
  | unary op _ iha => rw [evalCell, evalCell, iha]
  | binary op _ _ iha ihb => rw [evalCell, evalCell, iha, ihb]
  | choose _ _ _ ihc iha ihb => rw [evalCell, evalCell, ihc, iha, ihb]

theorem Expr.evalCell_congr {e : Expr K} {σ τ : Scope K} (h : ∀ v ∈ e.reads, σ v = τ v) :
    e.evalCell σ params = e.evalCell τ params :=
  evalCell_eq h fun _ _ => rfl

theorem Expr.isSome_of_evalCell {e : Expr K} {σ : Scope K} {c : Cell K}
    (h : e.evalCell σ params = .ok c) : ∀ v ∈ e.reads, (σ v).isSome := by
  induction e generalizing c with
  | var name =>
    intro v hv
    obtain rfl := List.mem_singleton.1 hv
    rw [evalCell] at h
    cases hσ : σ v with
    | none => simp [hσ] at h
    | some c => rfl
  | par name => exact fun v hv => nomatch hv
  | const x => exact fun v hv => nomatch hv
  | unary op a iha =>
    obtain ⟨x, hx, -⟩ := bind_eq_ok.1 h
    exact iha hx
  | binary op a b iha ihb =>
    obtain ⟨x, hx, h⟩ := bind_eq_ok.1 h
    obtain ⟨y, hy, -⟩ := bind_eq_ok.1 h
    intro v hv
    rcases List.mem_append.1 hv with hv | hv
    · exact iha hx v hv
    · exact ihb hy v hv
  | choose c a b ihc iha ihb =>
    obtain ⟨x, hx, h⟩ := bind_eq_ok.1 h
    obtain ⟨y, hy, h⟩ := bind_eq_ok.1 h
    obtain ⟨z, hz, -⟩ := bind_eq_ok.1 h
    intro v hv
    simp only [reads, List.mem_append] at hv
    rcases hv with (hv | hv) | hv
    · exact ihc hx v hv
    · exact iha hy v hv
    · exact ihb hz v hv

def evalFormulas (params : Scope K) : List (String × Expr K) → Scope K → Except Fault (Scope K)
  | [], σ => .ok σ
  | f :: rest, σ => do
    let c ← f.2.evalCell σ params
    evalFormulas params rest (σ.set f.1 c)

theorem evalFormulas_append (fs gs : List (String × Expr K)) (σ : Scope K) :
    evalFormulas params (fs ++ gs) σ = evalFormulas params fs σ >>= evalFormulas params gs := by
  induction fs generalizing σ with
  | nil => rfl
  | cons f fs ih =>
    simp only [List.cons_append, evalFormulas]
    cases f.2.evalCell σ params with
    | error e => rfl
    | ok c => exact ih _

theorem evalFormulas_of_notMem {fs : List (String × Expr K)} {base σ : Scope K} {v : String}
    (h : evalFormulas params fs base = .ok σ) (hv : v ∉ fs.map Prod.fst) : σ v = base v := by
  induction fs generalizing base with
  | nil => rw [Except.ok.inj h]
  | cons f fs ih =>
    obtain ⟨c, -, h⟩ := bind_eq_ok.1 h
    simp only [List.map_cons, List.mem_cons, not_or] at hv
    rw [ih h hv.2, Scope.set_of_ne hv.1]

structure Solves (params : Scope K) (fs : List (String × Expr K)) (base σ : Scope K) : Prop where
  frame : ∀ v, v ∉ fs.map Prod.fst → σ v = base v
  value : ∀ f ∈ fs, ∃ c, f.2.evalCell σ params = .ok c ∧ σ f.1 = some c

namespace Scheduled

variable {fs gs : List (String × Expr K)} {base σ : Scope K}

/-- Evaluation in a schedule finds the values that satisfy all formulas. -/
theorem evalFormulas_eq_ok (h : Scheduled fs) :
    evalFormulas params fs base = .ok σ ↔ Solves params fs base σ := by
  induction fs generalizing base with
  | nil =>
    constructor
    · intro hσ
      obtain rfl : base = σ := Except.ok.inj hσ
      exact ⟨fun _ _ => rfl, fun f hf => nomatch hf⟩
    · intro hσ
      exact congrArg Except.ok (funext fun v => (hσ.frame v List.not_mem_nil).symm)
  | cons f fs ih =>
    have hne : ∀ v, v ∉ (f :: fs).map Prod.fst → v ≠ f.1 ∧ v ∉ fs.map Prod.fst := by
      intro v hv
      simpa only [List.map_cons, List.mem_cons, not_or] using hv
    constructor
    · intro hσ
      have hframe (v : String) (hv : v ∉ (f :: fs).map Prod.fst) : σ v = base v :=
        evalFormulas_of_notMem hσ hv
      obtain ⟨c, hc, hrest⟩ := bind_eq_ok.1 hσ
      have hsol := (ih h.tail).1 hrest
      refine ⟨hframe, fun g hg => ?_⟩
      rcases List.mem_cons.1 hg with rfl | hg
      · refine ⟨c, ?_, ?_⟩
        · rw [Expr.evalCell_congr fun v hv => hframe v (h.reads_notMem hv), hc]
        · rw [hsol.frame g.1 h.head_notMem, Scope.set_self]
      · exact hsol.value g hg
    · intro hsol
      obtain ⟨c, hc, hσ⟩ := hsol.value f List.mem_cons_self
      rw [Expr.evalCell_congr fun v hv => hsol.frame v (h.reads_notMem hv)] at hc
      refine bind_eq_ok.2 ⟨c, hc, (ih h.tail).2 ⟨fun v hv => ?_, fun g hg => ?_⟩⟩
      · by_cases hvf : v = f.1
        · rw [hvf, hσ, Scope.set_self]
        · rw [Scope.set_of_ne hvf]
          exact hsol.frame v (by simp [hvf, hv])
      · exact hsol.value g (List.mem_cons_of_mem f hg)

/-- Two schedules of the same formulas give the same values. -/
theorem evalFormulas_perm (hf : Scheduled fs) (hg : Scheduled gs) (h : fs.Perm gs) :
    evalFormulas params fs base = .ok σ ↔ evalFormulas params gs base = .ok σ := by
  rw [hf.evalFormulas_eq_ok, hg.evalFormulas_eq_ok]
  have hmem (v : String) : v ∈ fs.map Prod.fst ↔ v ∈ gs.map Prod.fst := (h.map _).mem_iff
  constructor
  · rintro ⟨hframe, hvalue⟩
    exact ⟨fun v hv => hframe v (mt (hmem v).1 hv), fun g hg => hvalue g (h.mem_iff.2 hg)⟩
  · rintro ⟨hframe, hvalue⟩
    exact ⟨fun v hv => hframe v (mt (hmem v).2 hv), fun g hg => hvalue g (h.mem_iff.1 hg)⟩

end Scheduled

/-- Formulas of which none reads a result can all be evaluated if each can. -/
theorem evalFormulas_exists {fs : List (String × Expr K)} {base : Scope K}
    (hfree : ∀ f ∈ fs, ∀ v ∈ f.2.reads, v ∉ fs.map Prod.fst)
    (h : ∀ f ∈ fs, ∃ c, f.2.evalCell base params = .ok c) :
    ∃ σ, evalFormulas params fs base = .ok σ := by
  induction fs generalizing base with
  | nil => exact ⟨base, rfl⟩
  | cons f fs ih =>
    obtain ⟨c, hc⟩ := h f List.mem_cons_self
    have hrest : ∀ g ∈ fs, ∃ d, g.2.evalCell (base.set f.1 c) params = .ok d := by
      intro g hg
      obtain ⟨d, hd⟩ := h g (List.mem_cons_of_mem f hg)
      refine ⟨d, (Expr.evalCell_congr fun v hv => ?_).trans hd⟩
      refine Scope.set_of_ne fun hvf => hfree g (List.mem_cons_of_mem f hg) v hv ?_
      exact hvf ▸ List.mem_cons_self
    obtain ⟨σ, hσ⟩ := ih
      (fun g hg v hv hm => hfree g (List.mem_cons_of_mem f hg) v hv (List.mem_cons_of_mem _ hm))
      hrest
    exact ⟨σ, bind_eq_ok.2 ⟨c, hc, hσ⟩⟩

/-- Formulas with new results that none of them reads are all evaluated in the given scope. -/
theorem evalFormulas_independent {fs : List (String × Expr K)} {base σ : Scope K}
    (hnew : (fs.map Prod.fst).Nodup) (hfree : ∀ f ∈ fs, ∀ v ∈ f.2.reads, v ∉ fs.map Prod.fst) :
    evalFormulas params fs base = .ok σ ↔
      (∀ v, v ∉ fs.map Prod.fst → σ v = base v) ∧
        ∀ f ∈ fs, ∃ c, f.2.evalCell base params = .ok c ∧ σ f.1 = some c := by
  rw [(Scheduled.of_independent hnew hfree).evalFormulas_eq_ok]
  constructor
  · rintro ⟨hframe, hvalue⟩
    refine ⟨hframe, fun f hf => ?_⟩
    rw [← Expr.evalCell_congr fun v hv => hframe v (hfree f hf v hv)]
    exact hvalue f hf
  · rintro ⟨hframe, hvalue⟩
    refine ⟨hframe, fun f hf => ?_⟩
    rw [Expr.evalCell_congr fun v hv => hframe v (hfree f hf v hv)]
    exact hvalue f hf

end Catchment
