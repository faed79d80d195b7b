import Catchment.Proofs.FormulaOrder

/-!
# Formats of cells

The format of an expression follows from the formats of the names that it reads. A name that stands
for a literal may as well stand for a double of the same value, unless it meets a number of half
precision, in which a literal is rounded and a double is not.
-/
namespace Catchment

variable {K : Type}

/-- The same value, in the same format or as a literal and as a double. -/
def Cell.Near (c c' : Cell K) : Prop :=
  c.value = c'.value ∧ (c.format = c'.format ∨ c.format = .literal ∧ c'.format = .double)

theorem Cell.Near.refl (c : Cell K) : c.Near c := ⟨rfl, .inl rfl⟩

/-- A literal and a double join alike with whatever is not of half precision. -/
theorem Format.join_eq {f f' g g' : Format} (hf : f = f' ∨ f = .literal ∧ f' = .double)
    (hg : g = g' ∨ g = .literal ∧ g' = .double) (hfg : f ≠ f' → g ≠ .half)
    (hgf : g ≠ g' → f ≠ .half) : f.join g = f'.join g' := by
  rcases hf with rfl | ⟨rfl, rfl⟩
  · rcases hg with rfl | ⟨rfl, rfl⟩
    · rfl
    · have hhalf : f ≠ .half := hgf (by decide)
      cases f <;> first | rfl | exact absurd rfl hhalf
  · rcases hg with rfl | ⟨rfl, rfl⟩
    · have hhalf : g ≠ .half := hfg (by decide)
      cases g <;> first | rfl | exact absurd rfl hhalf
    · rfl

namespace Cell

variable [Scalar K] {a a' b b' c c' : Cell K}

theorem Near.unary_eq (h : a.Near a') (op : Unary) : unary op a = unary op a' := by
  obtain ⟨hvalue, hformat⟩ := h
  have hresult : op.result a.format = op.result a'.format := by
    rcases hformat with hformat | ⟨hliteral, hdouble⟩
    · rw [hformat]
    · rw [hliteral, hdouble]
      cases op <;> rfl
  rw [unary, unary, hresult, hvalue]

theorem Near.binary_eq (ha : a.Near a') (hb : b.Near b')
    (hjoin : a.format.join b.format = a'.format.join b'.format) (op : Binary) :
    binary op a b = binary op a' b' := by
  have hresult : op.result a.format b.format = op.result a'.format b'.format := by
    simp only [Binary.result, hjoin]
  rw [binary, binary, hresult, hjoin, ha.1, hb.1]

theorem Near.choose_eq (hc : c.Near c') (ha : a.Near a') (hb : b.Near b')
    (hjoin : a.format.join b.format = a'.format.join b'.format) :
    c.choose a b = c'.choose a' b' := by
  rw [choose, choose, hjoin, ha.1, hb.1, hc.1]

theorem result_of_unary {op : Unary} (h : unary op a = .ok c) :
    op.result a.format = .ok c.format := by
  obtain ⟨r, hr, h⟩ := bind_eq_ok.1 h
  obtain rfl := Except.ok.inj h
  exact hr

theorem result_of_binary {op : Binary} (h : binary op a b = .ok c) :
    op.result a.format b.format = .ok c.format := by
  obtain ⟨r, hr, h⟩ := bind_eq_ok.1 h
  dsimp only at h
  split at h
  · exact nomatch h
  · obtain rfl := Except.ok.inj h
    exact hr

end Cell

namespace Expr

def format (F : String → Format) : Expr K → Except Fault Format
  | var name => .ok (F name)
  | par _ => .ok .double
  | const _ => .ok .literal
  | unary op a => do op.result (← a.format F)
  | binary op a b => do op.result (← a.format F) (← b.format F)
  | choose c a b => do
    let _ ← c.format F
    return (← a.format F).join (← b.format F)

def namesLiteral (F : String → Format) : Expr K → Bool
  | var name => F name = .literal
  | _ => false

def isHalf (F : String → Format) (e : Expr K) : Bool :=
  match e.format F with
  | .ok .half => true
  | _ => false

def apart (F : String → Format) (a b : Expr K) : Bool :=
  !(a.namesLiteral F && b.isHalf F) && !(b.namesLiteral F && a.isHalf F)

/-- Whether no variable that stands for a literal meets a number of half precision. -/
def steady (F : String → Format) : Expr K → Bool
  | unary _ a => a.steady F
  | binary _ a b => a.steady F && b.steady F && a.apart F b
  | choose c a b => c.steady F && a.steady F && b.steady F && a.apart F b
  | _ => true

end Expr

/-- Values under names, in these formats. -/
def Scope.named (F : String → Format) (z : String → K) : Scope K := fun v => some ⟨F v, z v⟩

def Scope.doubles (p : String → K) : Scope K := fun k => some (.double (p k))

/-- A scope gives a name its value, in its format or in double precision instead of a literal. -/
def Scope.Follows (F : String → Format) (z : String → K) (σ : Scope K) (v : String) : Prop :=
  ∃ c, σ v = some c ∧ Cell.Near ⟨F v, z v⟩ c

theorem Scope.Follows.set {F : String → Format} {z : String → K} {σ : Scope K} {v name : String}
    {c : Cell K} (hc : Cell.Near ⟨F name, z name⟩ c) (h : v = name ∨ σ.Follows F z v) :
    (σ.set name c).Follows F z v := by
  by_cases hv : v = name
  · subst hv
    exact ⟨c, set_self .., hc⟩
  · obtain ⟨c', hσ, hnear⟩ := h.resolve_left hv
    exact ⟨c', (set_of_ne hv).trans hσ, hnear⟩

/-- Both evaluations of an expression fail, or they lead to the same value, in the format of the
expression; only a variable that stands for a literal may be a double in the second one. -/
inductive Alike (F : String → Format) (e : Expr K) :
    Except Fault (Cell K) → Except Fault (Cell K) → Prop
  | ok {c c' : Cell K} (near : c.Near c') (format : e.format F = .ok c.format)
      (named : c.format ≠ c'.format → e.namesLiteral F = true) : Alike F e (.ok c) (.ok c')
  | error (f f' : Fault) : Alike F e (.error f) (.error f')

variable {F : String → Format} {e a b : Expr K} {x x' y y' : Cell K}

theorem Alike.bind {u u' : Except Fault (Cell K)} {k k' : Cell K → Except Fault (Cell K)}
    (h : Alike F a u u') (hk : ∀ x x', Alike F a (.ok x) (.ok x') → Alike F e (k x) (k' x')) :
    Alike F e (u >>= k) (u' >>= k') := by
  cases h with
  | ok near format named => exact hk _ _ (.ok near format named)
  | error f f' => exact .error f f'

theorem Alike.refl {u : Except Fault (Cell K)} (h : ∀ c, u = .ok c → e.format F = .ok c.format) :
    Alike F e u u := by
  cases u with
  | ok c => exact .ok (.refl c) (h c rfl) fun hne => absurd rfl hne
  | error f => exact .error f f

theorem Alike.of_ok {u u' : Except Fault (Cell K)} {c : Cell K} (h : Alike F e u u')
    (hc : u = .ok c) : ∃ c', u' = .ok c' ∧ c.Near c' ∧ e.format F = .ok c.format := by
  subst hc
  obtain ⟨near, format, -⟩ := h
  exact ⟨_, rfl, near, format⟩

theorem Alike.ok_of {u u' : Except Fault (Cell K)} {c' : Cell K} (h : Alike F e u u')
    (hc : u' = .ok c') : ∃ c, u = .ok c ∧ c.Near c' ∧ e.format F = .ok c.format := by
  subst hc
  obtain ⟨near, format, -⟩ := h
  exact ⟨_, rfl, near, format⟩

namespace Expr

theorem isHalf_of_format (h : a.format F = .ok .half) : a.isHalf F = true := by
  rw [isHalf, h]

/-- The formats in which two operands meet do not depend on how literals are named. -/
theorem join_eq_of_apart (h : a.apart F b = true) (ha : Alike F a (.ok x) (.ok x'))
    (hb : Alike F b (.ok y) (.ok y')) :
    x.format.join y.format = x'.format.join y'.format := by
  obtain ⟨hx, hfa, hna⟩ := ha
  obtain ⟨hy, hfb, hnb⟩ := hb
  refine Format.join_eq hx.2 hy.2 (fun hne hhalf => ?_) (fun hne hhalf => ?_)
  · simp [apart, hna hne, isHalf_of_format (hhalf ▸ hfb)] at h
  · simp [apart, hnb hne, isHalf_of_format (hhalf ▸ hfa)] at h

end Expr

variable [Scalar K]

theorem Alike.unary (op : Unary) (h : Alike F a (.ok x) (.ok x')) :
    Alike F (.unary op a) (Cell.unary op x) (Cell.unary op x') := by
  obtain ⟨near, format, -⟩ := h
  rw [near.unary_eq]
  refine .refl fun c hc => ?_
  rw [Expr.format, format]
  rw [← near.unary_eq] at hc
  exact Cell.result_of_unary hc

theorem Alike.binary (op : Binary) (h : a.apart F b = true) (ha : Alike F a (.ok x) (.ok x'))
    (hb : Alike F b (.ok y) (.ok y')) :
    Alike F (.binary op a b) (Cell.binary op x y) (Cell.binary op x' y') := by
  have hjoin := Expr.join_eq_of_apart h ha hb
  obtain ⟨hx, hfa, -⟩ := ha
  obtain ⟨hy, hfb, -⟩ := hb
  rw [← hx.binary_eq hy hjoin]
  refine .refl fun c hc => ?_
  rw [Expr.format, hfa, hfb]
  exact Cell.result_of_binary hc

theorem Alike.choose {c : Expr K} {w w' : Cell K} (h : a.apart F b = true)
    (hc : Alike F c (.ok w) (.ok w')) (ha : Alike F a (.ok x) (.ok x'))
    (hb : Alike F b (.ok y) (.ok y')) :
    Alike F (.choose c a b) (.ok (w.choose x y)) (.ok (w'.choose x' y')) := by
  have hjoin := Expr.join_eq_of_apart h ha hb
  obtain ⟨hw, hfc, -⟩ := hc
  obtain ⟨hx, hfa, -⟩ := ha
  obtain ⟨hy, hfb, -⟩ := hb
  rw [← hw.choose_eq hx hy hjoin]
  refine .refl fun r hr => ?_
  obtain rfl := Except.ok.inj hr
  rw [Expr.format, hfc, hfa, hfb]
  rfl

/-- A steady expression does not tell a scope from the values that the scope follows. -/
theorem Expr.evalCell_alike {z p : String → K} {σ params : Scope K} (hsteady : e.steady F = true)
    (hreads : ∀ v ∈ e.reads, σ.Follows F z v)
    (hparams : ∀ k ∈ e.readsParams, params k = Scope.doubles p k) :
    Alike F e (e.evalCell (Scope.named F z) (Scope.doubles p)) (e.evalCell σ params) := by
  have honly := readsOnly hreads hparams
  clear hreads hparams
  induction honly with
  | @var name hname =>
    obtain ⟨c, hσ, hnear⟩ := hname
    rw [evalCell, evalCell, hσ]
    have hnamed (hne : F name ≠ c.format) : namesLiteral (K := K) F (.var name) = true := by
      simpa [namesLiteral] using (hnear.2.resolve_left hne).1
    exact .ok hnear rfl hnamed
  | par hk =>
    rw [evalCell, evalCell, hk]
    exact .refl fun c hc => by rw [← Except.ok.inj hc]; rfl
  | const x => exact .refl fun c hc => by rw [← Except.ok.inj hc]; rfl
  | unary op _ iha => exact (iha hsteady).bind fun x x' hx => hx.unary op
  | binary op _ _ iha ihb =>
    simp only [steady, Bool.and_eq_true] at hsteady
    obtain ⟨⟨ha, hb⟩, hapart⟩ := hsteady
    exact (iha ha).bind fun x x' hx => (ihb hb).bind fun y y' hy => hx.binary op hapart hy
  | choose _ _ _ ihc iha ihb =>
    simp only [steady, Bool.and_eq_true] at hsteady
    obtain ⟨⟨⟨hc, ha⟩, hb⟩, hapart⟩ := hsteady
    exact (ihc hc).bind fun w w' hw => (iha ha).bind fun x x' hx => (ihb hb).bind fun y y' hy =>
      hw.choose hapart hx hy

end Catchment
