import Catchment.Values
import Mathlib

/-!
# Outcomes

When a computation that may end in a fault succeeds, step by step.
-/
namespace Catchment

theorem bind_eq_ok {α β : Type} {x : Except Fault α} {f : α → Except Fault β} {b : β} :
    (x >>= f) = .ok b ↔ ∃ a, x = .ok a ∧ f a = .ok b := by
  cases x with
  | error e => simp [bind, Except.bind]
  | ok a => simp [bind, Except.bind]

theorem bind_eq_error {α β : Type} {x : Except Fault α} {f : α → Except Fault β} {e : Fault} :
    (x >>= f) = .error e ↔ x = .error e ∨ ∃ a, x = .ok a ∧ f a = .error e := by
  cases x with
  | error e' => simp [bind, Except.bind]
  | ok a => simp [bind, Except.bind]

@[simp] theorem ok_bind {α β : Type} (a : α) (f : α → Except Fault β) :
    ((.ok a : Except Fault α) >>= f) = f a := rfl

@[simp] theorem error_bind {α β : Type} (e : Fault) (f : α → Except Fault β) :
    ((.error e : Except Fault α) >>= f) = .error e := rfl

@[simp] theorem pure_eq_ok {α : Type} (a : α) : (pure a : Except Fault α) = .ok a := rfl

@[simp] theorem throw_eq_error {α : Type} (e : Fault) : (throw e : Except Fault α) = .error e := rfl

@[simp] theorem orFault_some {α : Type} (e : Fault) (a : α) :
    Values.orFault e (some a) = .ok a := rfl

@[simp] theorem orFault_none {α : Type} (e : Fault) :
    Values.orFault e (none : Option α) = .error e := rfl

theorem ok_of_toOption {α : Type} {x : Except Fault α} {a : α} (h : x.toOption = some a) :
    x = .ok a := by
  cases x with
  | ok b => rw [Option.some.inj h]
  | error e => simp [Except.toOption] at h

theorem toOption_bind {α β : Type} (x : Except Fault α) (f : α → Except Fault β) :
    (x >>= f).toOption = x.toOption.bind fun a => (f a).toOption := by
  cases x <;> rfl

theorem orFault_bind {α β : Type} (e : Fault) (x : Option α) (f : α → Option β) :
    Values.orFault e (x.bind f) = (do Values.orFault e (f (← Values.orFault e x))) := by
  cases x <;> rfl

theorem orFault_eq_ok {α : Type} {e : Fault} {x : Option α} {a : α} :
    Values.orFault e x = .ok a ↔ x = some a := by
  cases x <;> simp

/-- A computation that was checked to succeed with a property does so. -/
theorem exists_ok_of_check {α : Type} {p : α → Prop} [DecidablePred p] {x : Except Fault α}
    (h : (match x with | .ok a => decide (p a) | .error _ => false) = true) :
    ∃ a, x = .ok a ∧ p a := by
  cases x with
  | error e => exact nomatch h
  | ok a => exact ⟨a, rfl, of_decide_eq_true h⟩

theorem exists_error_of_check {α : Type} {x : Except Fault α}
    (h : (match x with | .ok _ => false | .error _ => true) = true) : ∃ f, x = .error f := by
  cases x with
  | error f => exact ⟨f, rfl⟩
  | ok a => exact nomatch h

theorem mapM_eq_ok {α β : Type} {f : α → Except Fault β} {xs : List α} {ys : List β} :
    xs.mapM f = .ok ys ↔ List.Forall₂ (fun x y => f x = .ok y) xs ys := by
  induction xs generalizing ys with
  | nil => cases ys <;> simp
  | cons x xs ih =>
    rw [List.mapM_cons, bind_eq_ok, List.forall₂_cons_left_iff]
    constructor
    · rintro ⟨y, hy, h⟩
      obtain ⟨zs, hzs, h⟩ := bind_eq_ok.1 h
      obtain rfl : y :: zs = ys := by simpa using h
      exact ⟨y, zs, hy, ih.1 hzs, rfl⟩
    · rintro ⟨y, zs, hy, hzs, rfl⟩
      exact ⟨y, hy, by rw [ih.2 hzs]; rfl⟩

theorem mapM_eq_ok_map {α β : Type} {f : α → Except Fault β} {g : α → β} {xs : List α} :
    xs.mapM f = .ok (xs.map g) ↔ ∀ x ∈ xs, f x = .ok (g x) := by
  rw [mapM_eq_ok, List.forall₂_map_right_iff, List.forall₂_same]

/-- What is written out is read back. -/
theorem map_mapM_eq_ok {α β : Type} {f : β → Except Fault α} {g : α → β} {xs : List α}
    (h : ∀ x ∈ xs, f (g x) = .ok x) : (xs.map g).mapM f = .ok xs := by
  rw [mapM_eq_ok, List.forall₂_map_left_iff, List.forall₂_same]
  exact h

theorem forall₂_exists {α β : Type} {R : α → β → Prop} {xs : List α} :
    (∃ ys, List.Forall₂ R xs ys) ↔ ∀ x ∈ xs, ∃ y, R x y := by
  induction xs with
  | nil => simp
  | cons x xs ih =>
    rw [List.forall_mem_cons, ← ih]
    simp only [List.forall₂_cons_left_iff]
    constructor
    · rintro ⟨_, y, ys, hy, hys, rfl⟩
      exact ⟨⟨y, hy⟩, ys, hys⟩
    · rintro ⟨⟨y, hy⟩, ys, hys⟩
      exact ⟨y :: ys, y, ys, hy, hys, rfl⟩

theorem exists_mapM_eq_ok {α β : Type} {f : α → Except Fault β} {xs : List α} :
    (∃ ys, xs.mapM f = .ok ys) ↔ ∀ x ∈ xs, ∃ y, f x = .ok y := by
  simp only [mapM_eq_ok, forall₂_exists]

theorem mapM_congr {α β : Type} {f g : α → Except Fault β} {xs : List α}
    (h : ∀ x ∈ xs, f x = g x) : xs.mapM f = xs.mapM g := by
  induction xs with
  | nil => rfl
  | cons x xs ih =>
    rw [List.mapM_cons, List.mapM_cons, h x List.mem_cons_self,
      ih fun y hy => h y (List.mem_cons_of_mem x hy)]

theorem exists_of_mapM_eq_ok {α β : Type} {f : α → Except Fault β} {xs : List α} {ys : List β}
    (h : xs.mapM f = .ok ys) {x : α} (hx : x ∈ xs) : ∃ y ∈ ys, f x = .ok y := by
  obtain ⟨k, hk, rfl⟩ := List.mem_iff_getElem.1 hx
  obtain ⟨hlen, hget⟩ := List.forall₂_iff_get.1 (mapM_eq_ok.1 h)
  exact ⟨ys[k], List.getElem_mem _, hget k hk (hlen ▸ hk)⟩

/-- Steps that succeed, with results that combine with given values to given values. -/
theorem exists_mapM_zipWith {α β : Type} {f : α → Except Fault β} {g : β → β → β} {a a' : α → β}
    {xs : List α} :
    (∃ ys, xs.mapM f = .ok ys ∧ List.zipWith g (xs.map a) ys = xs.map a') ↔
      ∀ x ∈ xs, ∃ y, f x = .ok y ∧ g (a x) y = a' x := by
  induction xs with
  | nil => simp
  | cons x xs ih =>
    rw [List.forall_mem_cons, ← ih]
    simp only [mapM_eq_ok, List.forall₂_cons_left_iff]
    constructor
    · rintro ⟨_, ⟨y, ys, hy, hys, rfl⟩, h⟩
      obtain ⟨hhead, htail⟩ := List.cons.inj h
      exact ⟨⟨y, hy, hhead⟩, ys, hys, htail⟩
    · rintro ⟨⟨y, hy, hhead⟩, ys, hys, htail⟩
      exact ⟨y :: ys, ⟨y, ys, hy, hys, rfl⟩, congrArg₂ List.cons hhead htail⟩

/-- One outcome against outcomes at every index: it succeeds with a result that stands for theirs,
or one of them fails too. -/
def Agree {ι V C : Type} (R : V → (ι → C) → Prop) : Except Fault V → (ι → Except Fault C) → Prop
  | .ok v, c => ∃ d, R v d ∧ ∀ i, c i = .ok (d i)
  | .error _, c => Nonempty ι → ∃ i e, c i = .error e

theorem Agree.imp {ι V C : Type} {R S : V → (ι → C) → Prop} {x : Except Fault V}
    {c : ι → Except Fault C} (h : Agree R x c) (hRS : ∀ v d, R v d → S v d) : Agree S x c := by
  cases x with
  | ok v =>
    obtain ⟨d, hR, hd⟩ := h
    exact ⟨d, hRS v d hR, hd⟩
  | error e => exact h

theorem Agree.self {ι V C : Type} {R : V → (ι → C) → Prop} {x : Except Fault V}
    {c : ι → Except Fault C} (h : Agree R x c) : Agree (fun v d => x = .ok v ∧ R v d) x c := by
  cases x with
  | ok v =>
    obtain ⟨d, hR, hd⟩ := h
    exact ⟨d, ⟨rfl, hR⟩, hd⟩
  | error e => exact h

theorem agree_error {ι V C : Type} {R : V → (ι → C) → Prop} (e : Fault)
    {c : ι → Except Fault C} (h : ∀ i, ∃ f, c i = .error f) : Agree R (.error e) c := by
  rintro ⟨i⟩
  exact ⟨i, h i⟩

theorem agree_same {ι α : Type} (x : Except Fault α) :
    Agree (fun v (d : ι → α) => ∀ i, d i = v) x fun _ => x := by
  cases x with
  | ok v => exact ⟨fun _ => v, fun _ => rfl, fun _ => rfl⟩
  | error e => exact agree_error e fun _ => ⟨e, rfl⟩

/-- Agreement does not depend on the faults. -/
theorem Agree.of_toOption {ι V C : Type} {R : V → (ι → C) → Prop} {x x' : Except Fault V}
    {c c' : ι → Except Fault C} (h : Agree R x c) (hx : x.toOption = x'.toOption)
    (hc : ∀ i, (c i).toOption = (c' i).toOption) : Agree R x' c' := by
  cases x' with
  | ok v =>
    obtain rfl : x = .ok v := ok_of_toOption hx
    obtain ⟨d, hR, hd⟩ := h
    exact ⟨d, hR, fun i => ok_of_toOption ((hc i).symm.trans (congrArg Except.toOption (hd i)))⟩
  | error e =>
    cases x with
    | ok v => cases hx
    | error e' =>
      intro hne
      obtain ⟨i, f, hf⟩ := h hne
      have hsame := hc i
      rw [hf] at hsame
      cases hci : c' i with
      | ok a => simp [hci, Except.toOption] at hsame
      | error f' => exact ⟨i, f', hci⟩

theorem agree_pure {ι V C : Type} {R : V → (ι → C) → Prop} {v : V} {d : ι → C} (h : R v d) :
    Agree R (pure v) fun i => pure (d i) :=
  ⟨d, h, fun _ => rfl⟩

theorem agree_bind {ι V W C D : Type} {R : V → (ι → C) → Prop} {S : W → (ι → D) → Prop}
    {x : Except Fault V} {c : ι → Except Fault C} {k : V → Except Fault W}
    {l : ι → C → Except Fault D} (h : Agree R x c)
    (hk : ∀ v d, R v d → Agree S (k v) fun i => l i (d i)) :
    Agree S (x >>= k) fun i => c i >>= l i := by
  cases x with
  | ok v =>
    obtain ⟨d, hd, hc⟩ := h
    simp only [hc, ok_bind]
    exact hk v d hd
  | error e =>
    intro hne
    obtain ⟨i, e', he⟩ := h hne
    exact ⟨i, e', by simp only [he, error_bind]⟩

theorem agree_mapM {ι α V C : Type} {R : V → (ι → C) → Prop} {f : α → Except Fault V}
    {g : ι → α → Except Fault C} {xs : List α} (h : ∀ x ∈ xs, Agree R (f x) fun i => g i x) :
    Agree (fun ys d => ∃ cs, List.Forall₂ R ys cs ∧ ∀ i, d i = cs.map (· i)) (xs.mapM f) fun i =>
      xs.mapM (g i) := by
  induction xs with
  | nil => exact ⟨fun _ => [], ⟨[], .nil, fun _ => rfl⟩, fun _ => rfl⟩
  | cons x xs ih =>
    simp only [List.mapM_cons]
    refine agree_bind (l := fun i c => do return c :: (← xs.mapM (g i))) (h x List.mem_cons_self)
      fun v c hv => ?_
    refine agree_bind (l := fun i ds => return c i :: ds)
      (ih fun y hy => h y (List.mem_cons_of_mem x hy)) fun ys d hys => ?_
    obtain ⟨cs, hcs, hd⟩ := hys
    exact ⟨_, ⟨c :: cs, .cons hv hcs, fun i => rfl⟩, fun i => by simp [hd]⟩

/-- An outcome agrees with others if they succeed where it does, and it where all of them do. -/
theorem Agree.intro {ι V C : Type} {R : V → (ι → C) → Prop} {x : Except Fault V}
    {c : ι → Except Fault C} (hok : ∀ v, x = .ok v → ∃ d, R v d ∧ ∀ i, c i = .ok (d i))
    (hall : ∀ d : ι → C, Nonempty ι → (∀ i, c i = .ok (d i)) → ∃ v, x = .ok v) :
    Agree R x c := by
  cases x with
  | ok v => exact hok v rfl
  | error e =>
    intro hne
    by_contra hnone
    have hc (i : ι) : ∃ d, c i = .ok d := by
      cases hi : c i with
      | ok d => exact ⟨d, rfl⟩
      | error f => exact absurd ⟨i, f, hi⟩ hnone
    choose d hd using hc
    obtain ⟨v, hv⟩ := hall d hne hd
    cases hv

/-- If the outcomes at all indexes succeed, so does the one that they agree with. -/
theorem Agree.eq_ok {ι V C : Type} {R : V → (ι → C) → Prop} {x : Except Fault V}
    {c : ι → Except Fault C} {d : ι → C} (h : Agree R x c) (hne : Nonempty ι)
    (hd : ∀ i, c i = .ok (d i)) : ∃ v, x = .ok v ∧ R v d := by
  cases x with
  | ok v =>
    obtain ⟨d', hR, hd'⟩ := h
    obtain rfl : d' = d := funext fun i => Except.ok.inj ((hd' i).symm.trans (hd i))
    exact ⟨v, rfl, hR⟩
  | error e =>
    obtain ⟨i, e', he⟩ := h hne
    simp [hd i] at he

end Catchment
