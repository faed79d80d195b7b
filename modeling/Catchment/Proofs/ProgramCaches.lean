import Catchment.DoubleScalar
import Catchment.Proofs.Outcomes
import Catchment.Program

/-!
# Program caches

A cache answers every call with the program that was first compiled under the key of the call. It is
therefore transparent for calls of which equal keys compile to equal programs. Keys are made of
printed formulas, in which a variable and a parameter of one name look alike.
-/
namespace Catchment

/-- What a program is compiled from. -/
structure CompileCall (K : Type) where
  backend : Backend
  fluxes : List (Declaration K)
  inputs : List String
  outputs : List String

/-- The word for a backend in the text of a call. -/
def Backend.word : Backend → String
  | elementwise => "elementwise"
  | symbolic => "symbolic"

variable {K : Type} [Scalar K]

namespace CompileCall

def key (c : CompileCall K) : String := Program.key c.backend c.fluxes c.inputs c.outputs

/-- The text of which the key is the digest. -/
def text (c : CompileCall K) : String :=
  (Literal.tuple [.text c.backend.word, .list (c.fluxes.map Declaration.literal), .names c.inputs,
    .names c.outputs]).render

theorem key_eq (c : CompileCall K) : c.key = keepDigits 40 (Sha1.hexDigest c.text) := by
  cases c with
  | mk backend fluxes inputs outputs => cases backend <;> rfl

theorem key_eq_of_text {a b : CompileCall K} (h : a.text = b.text) : a.key = b.key := by
  rw [key_eq, key_eq, h]

def fresh (c : CompileCall K) : Except Fault (Program K) :=
  Program.compile c.backend c.fluxes c.inputs c.outputs

def firstUnder (calls : List (CompileCall K)) (key : String) : Option (Program K) :=
  calls.findSome? fun c => if c.key = key then c.fresh.toOption else none

theorem firstUnder_concat (before : List (CompileCall K)) (c : CompileCall K) (key : String) :
    firstUnder (before ++ [c]) key =
      (firstUnder before key).or (if c.key = key then c.fresh.toOption else none) := by
  rw [firstUnder, List.findSome?_append]
  simp [firstUnder]

theorem exists_of_firstUnder {calls : List (CompileCall K)} {key : String} {p : Program K}
    (h : firstUnder calls key = some p) : ∃ c ∈ calls, c.key = key ∧ c.fresh = .ok p := by
  obtain ⟨c, hc, hp⟩ := List.exists_of_findSome?_eq_some h
  split at hp
  · rename_i hkey
    exact ⟨c, hc, hkey, ok_of_toOption hp⟩
  · simp at hp

def served (c : CompileCall K) (before : List (CompileCall K)) : Except Fault (Program K) :=
  (firstUnder before c.key).elim c.fresh .ok

theorem served_eq_fresh {c : CompileCall K} {before : List (CompileCall K)}
    (h : ∀ a ∈ before, a.key = c.key → a.fresh = c.fresh) : c.served before = c.fresh := by
  rw [served]
  cases hfirst : firstUnder before c.key with
  | none => rfl
  | some p =>
    obtain ⟨a, ha, hkey, hp⟩ := exists_of_firstUnder hfirst
    exact hp.symm.trans (h a ha hkey)

end CompileCall

namespace ProgramCache

/-- The answer to a call and the cache after it; a call that fails leaves the cache as it is. -/
def call (cache : ProgramCache K) (c : CompileCall K) : Except Fault (Program K) × ProgramCache K :=
  match cache.compile c.backend c.fluxes c.inputs c.outputs with
  | .ok (p, next) => (.ok p, next)
  | .error e => (.error e, cache)

def answers (cache : ProgramCache K) : List (CompileCall K) → List (Except Fault (Program K))
  | [] => []
  | c :: rest => (cache.call c).1 :: (cache.call c).2.answers rest

/-- Under every key, the cache holds the first program that some calls compiled under it. -/
def Holds (cache : ProgramCache K) (calls : List (CompileCall K)) : Prop :=
  ∀ key, cache.entries.lookup key = CompileCall.firstUnder calls key

variable {cache : ProgramCache K} {before : List (CompileCall K)}

theorem empty_holds : (empty : ProgramCache K).Holds [] := fun _ => rfl

theorem lookup_concat {α : Type} (pairs : List (String × α)) (k : String) (x : α) (v : String) :
    (pairs ++ [(k, x)]).lookup v = (pairs.lookup v).or (if k = v then some x else none) := by
  induction pairs with
  | nil =>
    simp only [List.nil_append, List.lookup_cons, List.lookup_nil, Option.none_or]
    by_cases hkv : k = v
    · simp [hkv]
    · simp [hkv, beq_eq_false_iff_ne.2 (Ne.symm hkv)]
  | cons p pairs ih =>
    obtain ⟨w, y⟩ := p
    simp only [List.cons_append, List.lookup_cons, ih]
    split <;> rfl

/-- A call is answered with the first program under its key, and the cache then holds the first
programs of one more call. -/
theorem Holds.call (h : cache.Holds before) (c : CompileCall K) :
    (cache.call c).1 = c.served before ∧ (cache.call c).2.Holds (before ++ [c]) := by
  have hkey : cache.entries.lookup (Program.key c.backend c.fluxes c.inputs c.outputs) =
      CompileCall.firstUnder before c.key := h c.key
  simp only [ProgramCache.call, compile, hkey, CompileCall.served]
  cases hfirst : CompileCall.firstUnder before c.key with
  | some p =>
    refine ⟨rfl, fun key => ?_⟩
    show cache.entries.lookup key = _
    rw [h key, CompileCall.firstUnder_concat]
    by_cases hc : c.key = key
    · simp [← hc, hfirst]
    · simp [hc]
  | none =>
    have hfresh : Program.compile c.backend c.fluxes c.inputs c.outputs = c.fresh := rfl
    cases hp : c.fresh with
    | ok p =>
      simp only [hfresh, hp]
      refine ⟨rfl, fun key => ?_⟩
      rw [CompileCall.firstUnder_concat, ← h key, hp]
      exact lookup_concat _ _ _ _
    | error e =>
      simp only [hfresh, hp]
      refine ⟨rfl, fun key => ?_⟩
      rw [CompileCall.firstUnder_concat, ← h key, hp]
      simp [Except.toOption]

/-- The answer to each call is the first program that it or a call before it compiled under its
key. -/
theorem Holds.getElem?_answers (h : cache.Holds before) (calls : List (CompileCall K)) (k : Nat) :
    (cache.answers calls)[k]? = calls[k]?.map fun c => c.served (before ++ calls.take k) := by
  induction calls generalizing cache before k with
  | nil => rfl
  | cons c rest ih =>
    obtain ⟨hanswer, hnext⟩ := h.call c
    cases k with
    | zero => simp [answers, hanswer]
    | succ k => simp [answers, ih hnext k, List.append_assoc]

/-- Calls get from an empty cache what they get without one, if their texts have different digests
and say what is compiled. -/
theorem answers_eq_fresh {calls : List (CompileCall K)}
    (hdigests : ∀ a ∈ calls, ∀ b ∈ calls, a.key = b.key → a.text = b.text)
    (htexts : ∀ a ∈ calls, ∀ b ∈ calls, a.text = b.text → a.fresh = b.fresh) :
    (empty : ProgramCache K).answers calls = calls.map CompileCall.fresh := by
  refine List.ext_getElem? fun k => ?_
  rw [empty_holds.getElem?_answers, List.nil_append, List.getElem?_map]
  cases hc : calls[k]? with
  | none => rfl
  | some c =>
    have hmem : c ∈ calls := List.mem_of_getElem? hc
    refine congrArg some (CompileCall.served_eq_fresh fun a ha hkey => ?_)
    have hmem' : a ∈ calls := List.mem_of_mem_take ha
    exact htexts a hmem' c hmem (hdigests a hmem' c hmem hkey)

def sharedNameDraft (e : Expr Float) : FluxDraft Float where
  name := "difference"
  outputs := ["y"]
  inputs := ["a"]
  params := ["a"]
  exprs := [e]
  law := none

theorem variableFirst_accepted :
    (sharedNameDraft (.binary .sub (.var "a") (.par "a"))).fault? = none := by decide

theorem parameterFirst_accepted :
    (sharedNameDraft (.binary .sub (.par "a") (.var "a"))).fault? = none := by decide

def variableFirst : CompileCall Float where
  backend := .elementwise
  fluxes := [.flux ⟨_, variableFirst_accepted⟩]
  inputs := ["a"]
  outputs := ["y"]

def parameterFirst : CompileCall Float where
  backend := .elementwise
  fluxes := [.flux ⟨_, parameterFirst_accepted⟩]
  inputs := ["a"]
  outputs := ["y"]

/-- Both formulas print as `(a - a)`, so that the second call gets the program of the first: at 5 and
3 it returns 2, not the difference -2 that was declared. -/
theorem alike_texts_share_program :
    let x : Nested Float := .list [.list [.entry (.real (Scalar.ofInt 5))]]
    let args : Program.Arguments Float := [("a", .entry (.real (Scalar.ofInt 3)))]
    variableFirst.text = parameterFirst.text ∧
      ∃ p q, ((empty : ProgramCache Float).answers [variableFirst, parameterFirst])[1]? =
          some (.ok p) ∧ parameterFirst.fresh = .ok q ∧
        (∃ r, p.call x args [] = .ok r ∧ r.toList = [Scalar.ofInt 2]) ∧
        ∃ r, q.call x args [] = .ok r ∧ r.toList = [Scalar.ofInt (-2)] := by
  intro x args
  have htext : variableFirst.text = parameterFirst.text := rfl
  let p : Program Float := ⟨⟨.elementwise, variableFirst.fluxes, ["a"], ["y"]⟩, rfl⟩
  let q : Program Float := ⟨⟨.elementwise, parameterFirst.fluxes, ["a"], ["y"]⟩, rfl⟩
  have hfirst : CompileCall.firstUnder [variableFirst] parameterFirst.key = some p := by
    rw [CompileCall.firstUnder, List.findSome?_cons, if_pos (CompileCall.key_eq_of_text htext)]
    rfl
  refine ⟨htext, p, q, ?_, rfl, exists_ok_of_check (by decide +kernel),
    exists_ok_of_check (by decide +kernel)⟩
  rw [empty_holds.getElem?_answers]
  show some (parameterFirst.served [variableFirst]) = some (.ok p)
  rw [CompileCall.served, hfirst]
  rfl

end ProgramCache

end Catchment
