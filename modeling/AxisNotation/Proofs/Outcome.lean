import AxisNotation.Resolution.Solver
import Mathlib

/-!
# When a computation has a result

The model computes in `Except`. Each lemma says when one of its building blocks gives a result, so
that a computation is taken apart by rewriting, without looking at its errors.
-/

namespace AxisNotation

section Except

variable {ε α β : Type}

/-- Two computations in a row have a result when both have one. -/
lemma bind_eq_ok {x : Except ε α} {f : α → Except ε β} {b : β} :
    (x >>= f) = .ok b ↔ ∃ a, x = .ok a ∧ f a = .ok b := by
  cases x with
  | error e => exact ⟨nofun, nofun⟩
  | ok a =>
    refine ⟨fun h => ⟨a, rfl, h⟩, ?_⟩
    rintro ⟨a', e, h⟩
    cases e
    exact h

/-- Only results are passed on. -/
lemma bind_congr_of_ok {x : Except ε α} {f g : α → Except ε β} (h : ∀ a, x = .ok a → f a = g a) :
    x >>= f = x >>= g := by
  cases x with
  | error e => rfl
  | ok a => exact h a rfl

lemma pure_eq_ok {a b : α} : (pure a : Except ε α) = .ok b ↔ a = b :=
  ⟨fun h => Except.ok.inj h, fun h => congrArg Except.ok h⟩

lemma map_eq_ok {x : Except ε α} {f : α → β} {b : β} :
    x.map f = .ok b ↔ ∃ a, x = .ok a ∧ f a = b := by
  cases x with
  | error e => exact ⟨nofun, nofun⟩
  | ok a =>
    refine ⟨fun h => ⟨a, rfl, Except.ok.inj h⟩, ?_⟩
    rintro ⟨a', e, rfl⟩
    cases e
    rfl

lemma isOk_iff {x : Except ε α} : x.isOk ↔ ∃ a, x = .ok a := by
  cases x with
  | error e => exact ⟨nofun, nofun⟩
  | ok a => exact ⟨fun _ => ⟨a, rfl⟩, fun _ => rfl⟩

lemma map_eq_error {x : Except ε α} {f : α → β} {e : ε} : x.map f = .error e ↔ x = .error e := by
  cases x with
  | error e' =>
    constructor
    · intro h
      exact congrArg _ (Except.error.inj h)
    · intro h
      exact congrArg _ (Except.error.inj h)
  | ok a => exact ⟨nofun, nofun⟩

/-- A computation over a list has a result when every step has the result at its place. -/
lemma mapM_eq_ok {f : α → Except ε β} {xs : List α} {ys : List β} :
    xs.mapM f = .ok ys ↔ List.Forall₂ (fun x y => f x = .ok y) xs ys := by
  induction xs generalizing ys with
  | nil =>
    rw [List.mapM_nil, pure_eq_ok, List.forall₂_nil_left_iff]
    exact eq_comm
  | cons x xs ih =>
    simp only [List.mapM_cons, bind_eq_ok, pure_eq_ok, ih, List.forall₂_cons_left_iff]
    constructor
    · rintro ⟨y, hy, ys, hys, rfl⟩
      exact ⟨y, ys, hy, hys, rfl⟩
    · rintro ⟨y, ys, hy, hys, rfl⟩
      exact ⟨y, hy, ys, hys, rfl⟩

lemma mapM_eq_ok_map {f : α → Except ε β} {g : α → β} {xs : List α}
    (h : ∀ x ∈ xs, f x = .ok (g x)) : xs.mapM f = .ok (xs.map g) := by
  rw [mapM_eq_ok, List.forall₂_map_right_iff, List.forall₂_same]
  exact h

lemma exists_mapM_eq_ok {f : α → Except ε β} {xs : List α} (h : ∀ x ∈ xs, ∃ y, f x = .ok y) :
    ∃ ys, xs.mapM f = .ok ys := by
  induction xs with
  | nil => exact ⟨[], rfl⟩
  | cons x xs ih =>
    obtain ⟨y, hy⟩ := h x List.mem_cons_self
    obtain ⟨ys, hys⟩ := ih fun z hz => h z (List.mem_cons_of_mem x hz)
    exact ⟨y :: ys, mapM_eq_ok.mpr (.cons hy (mapM_eq_ok.mp hys))⟩

end Except

section Option

variable {α β : Type} {f : α → Option β}

lemma mapM_eq_some {xs : List α} {ys : List β} :
    xs.mapM f = some ys ↔ List.Forall₂ (fun x y => f x = some y) xs ys := by
  induction xs generalizing ys with
  | nil =>
    rw [List.mapM_nil, List.forall₂_nil_left_iff]
    exact ⟨fun h => (Option.some.inj h).symm, fun h => h ▸ rfl⟩
  | cons x xs ih =>
    simp only [List.mapM_cons, Option.bind_eq_bind, Option.bind_eq_some_iff, ih,
      List.forall₂_cons_left_iff]
    constructor
    · rintro ⟨y, hy, ys, hys, e⟩
      exact ⟨y, ys, hy, hys, (Option.some.inj e).symm⟩
    · rintro ⟨y, ys, hy, hys, rfl⟩
      exact ⟨y, hy, ys, hys, rfl⟩

lemma mapM_eq_some_map {g : α → β} {xs : List α} (h : ∀ x ∈ xs, f x = some (g x)) :
    xs.mapM f = some (xs.map g) := by
  rw [mapM_eq_some, List.forall₂_map_right_iff, List.forall₂_same]
  exact h

lemma mapM_congr {g : α → Option β} {xs : List α} (h : ∀ x ∈ xs, f x = g x) :
    xs.mapM f = xs.mapM g := by
  induction xs with
  | nil => rfl
  | cons x xs ih =>
    rw [List.mapM_cons, List.mapM_cons, h x List.mem_cons_self,
      ih fun z hz => h z (List.mem_cons_of_mem x hz)]

end Option

namespace Outcome

variable {α : Type}

lemma require_eq_ok {holds : Prop} [Decidable holds] {error : PatternError} {u : Unit} :
    require holds error = .ok u ↔ holds := by
  unfold require
  split
  · exact ⟨fun _ => ‹_›, fun _ => rfl⟩
  · exact ⟨nofun, fun h => absurd h ‹_›⟩

/-- A size agrees with what is known exactly when nothing else is known. -/
lemma agree_eq_ok {known : Option Nat} {size : Nat} {error : Nat → PatternError} {u : Unit} :
    agree known size error = .ok u ↔ ∀ k, known = some k → k = size := by
  cases known with
  | none => exact ⟨fun _ => nofun, fun _ => rfl⟩
  | some k =>
    refine require_eq_ok.trans ⟨?_, fun h => h k rfl⟩
    rintro rfl _ e
    exact (Option.some.inj e).symm

lemma orReject_eq_ok {value : Option α} {error : PatternError} {a : α} :
    orReject value error = .ok a ↔ value = some a := by
  cases value with
  | none => exact ⟨nofun, nofun⟩
  | some b => exact ⟨fun h => congrArg some (Except.ok.inj h), fun h => by cases h; rfl⟩

lemma ofPattern_eq_ok {x : Except PatternError α} {a : α} : ofPattern x = .ok a ↔ x = .ok a := by
  cases x with
  | error e => exact ⟨nofun, nofun⟩
  | ok b => exact ⟨fun h => congrArg Except.ok (Except.ok.inj h), fun h => by cases h; rfl⟩

/-! ## Rejections

A computation settles when it gives a result or rejects the pattern, so that no position is out of
range on the way. -/

/-- The computation gives a result or rejects the pattern. -/
def Settles (x : Outcome α) : Prop :=
  x ≠ .error .outOfRange

lemma Settles.bind {β : Type} {x : Outcome α} {f : α → Outcome β} (hx : x.Settles)
    (hf : ∀ a, x = .ok a → (f a).Settles) : (x >>= f).Settles := by
  cases x with
  | error e => exact fun h => hx (congrArg Except.error (Except.error.inj h))
  | ok a => exact hf a rfl

lemma settles_require (holds : Prop) [Decidable holds] (error : PatternError) :
    (require holds error).Settles := by
  unfold require
  split <;> exact nofun

lemma settles_agree (known : Option Nat) (size : Nat) (error : Nat → PatternError) :
    (agree known size error).Settles := by
  cases known with
  | none => exact nofun
  | some k => exact settles_require _ _

lemma settles_orReject (value : Option α) (error : PatternError) :
    (orReject value error).Settles := by
  cases value <;> exact nofun

lemma settles_inRange {value : Option α} (h : ∃ a, value = some a) : (inRange value).Settles := by
  obtain ⟨a, rfl⟩ := h
  exact nofun

lemma settles_mapM {β : Type} {f : α → Outcome β} {xs : List α} (h : ∀ x ∈ xs, (f x).Settles) :
    (xs.mapM f).Settles := by
  induction xs with
  | nil => exact nofun
  | cons x xs ih =>
    obtain ⟨first, rest⟩ := List.forall_mem_cons.mp h
    rw [List.mapM_cons]
    exact first.bind fun _ _ => (ih rest).bind fun _ _ => nofun

/-- A computation that settles without a result rejects the pattern. -/
lemma Settles.exists_rejected {x : Outcome α} (h : x.Settles) (none : ∀ a, x ≠ .ok a) :
    ∃ e, x = .error (.rejected e) := by
  cases x with
  | ok a => exact absurd rfl (none a)
  | error e =>
    cases e with
    | rejected e => exact ⟨e, rfl⟩
    | outOfRange => exact absurd rfl h

/-! ## Outcomes of one kind

Computations on two patterns may differ in what they say about the pattern that is at fault, but not
in the stage at which they find it. -/

/-- Two computations have results in a relation, or reject their patterns at the same stage, or ask
for a position out of range. -/
inductive Alike {β : Type} (R : α → β → Prop) : Outcome α → Outcome β → Prop where
  | ok {a b} : R a b → Alike R (.ok a) (.ok b)
  | rejected {e e' : PatternError} :
      e.stage = e'.stage → Alike R (.error (.rejected e)) (.error (.rejected e'))
  | outOfRange : Alike R (.error .outOfRange) (.error .outOfRange)

section Alike

variable {β α' β' : Type} {R : α → β → Prop} {x : Outcome α} {y : Outcome β}
  {error error' : PatternError}

lemma Alike.refl (x : Outcome α) : Alike Eq x x := by
  cases x with
  | ok a => exact .ok rfl
  | error e =>
    cases e with
    | rejected e => exact .rejected rfl
    | outOfRange => exact .outOfRange

lemma Alike.mono {S : α → β → Prop} (h : Alike R x y) (weaker : ∀ a b, R a b → S a b) :
    Alike S x y := by
  cases h with
  | ok related => exact .ok (weaker _ _ related)
  | rejected same => exact .rejected same
  | outOfRange => exact .outOfRange

/-- What follows may depend on the result that the first computation has. -/
lemma Alike.bind_of_ok {S : α' → β' → Prop} {f : α → Outcome α'} {g : β → Outcome β'}
    (h : Alike R x y) (next : ∀ a b, x = .ok a → R a b → Alike S (f a) (g b)) :
    Alike S (x >>= f) (y >>= g) := by
  cases h with
  | ok related => exact next _ _ rfl related
  | rejected same => exact .rejected same
  | outOfRange => exact .outOfRange

lemma Alike.bind {S : α' → β' → Prop} {f : α → Outcome α'} {g : β → Outcome β'}
    (h : Alike R x y) (next : ∀ a b, R a b → Alike S (f a) (g b)) :
    Alike S (x >>= f) (y >>= g) :=
  h.bind_of_ok fun a b _ => next a b

lemma Alike.bind_same {S : α' → β' → Prop} {y : Outcome α} {f : α → Outcome α'}
    {g : α → Outcome β'} (h : Alike Eq x y) (next : ∀ a, Alike S (f a) (g a)) :
    Alike S (x >>= f) (y >>= g) :=
  h.bind fun a _ same => same ▸ next a

lemma alike_require {holds holds' : Prop} [Decidable holds] [Decidable holds']
    (same : holds ↔ holds') (stage : error.stage = error'.stage) :
    Alike Eq (require holds error) (require holds' error') := by
  by_cases h : holds
  · rw [require, require, if_pos h, if_pos (same.mp h)]
    exact .ok rfl
  · rw [require, require, if_neg h, if_neg (mt same.mpr h)]
    exact .rejected stage

lemma alike_agree {known : Option Nat} {size : Nat} {error error' : Nat → PatternError}
    (stage : ∀ k, (error k).stage = (error' k).stage) :
    Alike Eq (agree known size error) (agree known size error') := by
  cases known with
  | none => exact .ok rfl
  | some k => exact alike_require Iff.rfl (stage k)

lemma alike_orReject {value : Option α} (stage : error.stage = error'.stage) :
    Alike Eq (orReject value error) (orReject value error') := by
  cases value with
  | none => exact .rejected stage
  | some a => exact .ok rfl

/-- Lists that correspond to each other are gone through with the same results. -/
lemma alike_mapM {xs : List α'} {g : α' → β'} {f : α' → Outcome α} {f' : β' → Outcome α}
    (h : ∀ x ∈ xs, Alike Eq (f x) (f' (g x))) :
    Alike Eq (xs.mapM f) ((xs.map g).mapM f') := by
  induction xs with
  | nil => exact .ok rfl
  | cons x xs ih =>
    obtain ⟨first, rest⟩ := List.forall_mem_cons.mp h
    rw [List.map_cons, List.mapM_cons, List.mapM_cons]
    exact first.bind_same fun a => (ih rest).bind_same fun as => .ok rfl

lemma Alike.exists_ok (h : Alike R x y) {a : α} (result : x = .ok a) : ∃ b, y = .ok b ∧ R a b := by
  subst result
  cases h with
  | ok related => exact ⟨_, rfl, related⟩

end Alike

end Outcome

end AxisNotation
