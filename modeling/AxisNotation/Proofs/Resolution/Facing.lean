import AxisNotation.Proofs.Layout
import AxisNotation.Proofs.Validity

/-!
# Sizes that match a shape

What it means, without any algorithm, that sizes of the axis names fit a pattern on a shape: each
input term faces a dimension, or the ellipsis a run of them (`Terms.Faces`), and the sizes agree
with the explicit ones (`Pattern.Consistent`). Sizes that fit give the input side the shape
(`Terms.Faces.extents_eq`).
-/

namespace AxisNotation

/-- The product of the sizes of some names. -/
def Sizes.product (m : Sizes) (names : List String) : Nat :=
  (names.map fun n => m.getD n 0).prod

/-- The sizes of the elementary axes, where the ellipsis covers a run of dimensions. -/
def Sizes.ofAxis (m : Sizes) (run : Shape) : Axis → Nat
  | .named n => m.getD n 0
  | .covered i => run.getD i 0

/-- The sizes of the elementary axes under a resolution. -/
def Resolution.size (r : Resolution) : Axis → Nat :=
  r.sizes.ofAxis r.covered

/-- Terms face dimensions from left to right: a name has the size that it faces, the names of a
group multiply to it, the unit axis faces a one, and the ellipsis faces a run of dimensions. -/
inductive Terms.Faces (m : Sizes) (run : Shape) : Terms → Shape → Prop where
  | nil : Faces m run [] []
  | name {n s d ts ds} : m[n]? = some d → Faces m run ts ds →
    Faces m run (.name n s :: ts) (d :: ds)
  | group {ms s ts ds} : Faces m run ts ds →
    Faces m run (.group ms s :: ts) (m.product (Terms.names ms) :: ds)
  | ellipsis {s ts ds} : Faces m run ts ds → Faces m run (.ellipsis s :: ts) (run ++ ds)
  | unit {s ts ds} : Faces m run ts ds → Faces m run (.unit s :: ts) (1 :: ds)

/-- The dimensions that an ellipsis faces: those that the terms before and after it leave over.
There are none without an ellipsis. -/
def Terms.captured (ts : Terms) (shape : Shape) : Shape :=
  if Terms.isOpen ts then
    (shape.drop (ts.takeWhile fun t => !t.isEllipsis).length).take
      (shape.length - Terms.dimensions ts)
  else []

/-- Sizes of exactly the names of a pattern that fit a shape and all explicit sizes. -/
structure Pattern.Consistent (p : Pattern) (shape : Shape) (explicit : SizeList) (m : Sizes) :
    Prop where
  names : ∀ n, n ∈ m ↔ n ∈ p.input.names ∨ n ∈ p.output.names
  faces : p.input.Faces m (p.input.captured shape) shape
  agrees : ∀ n size, (n, size) ∈ explicit → n ∈ m → m[n]? = some size

namespace Sizes

variable {m m' : Sizes} {run : Shape}

lemma getD_of_getElem? {n : String} {d : Nat} (h : m[n]? = some d) : m.getD n 0 = d := by
  rw [Std.ExtTreeMap.getD_eq_getD_getElem?, h, Option.getD_some]

lemma getElem?_insert (m : Sizes) (k n : String) (d : Nat) :
    (m.insert k d)[n]? = if n = k then some d else m[n]? := by
  rw [Std.ExtTreeMap.getElem?_insert]
  exact if_congr (Std.LawfulEqCmp.compare_eq_iff_eq.trans eq_comm) rfl rfl

lemma mem_iff {n : String} : n ∈ m ↔ ∃ d, m[n]? = some d := by
  rw [Std.ExtTreeMap.mem_iff_isSome_getElem?, Option.isSome_iff_exists]

lemma not_mem_iff {n : String} : n ∉ m ↔ m[n]? = none := by
  rw [mem_iff, Option.eq_none_iff_forall_ne_some, not_exists]

lemma product_congr {names : List String} (h : ∀ n ∈ names, m[n]? = m'[n]?) :
    m.product names = m'.product names := by
  refine congrArg List.prod (List.map_congr_left fun n hn => ?_)
  rw [Std.ExtTreeMap.getD_eq_getD_getElem?, Std.ExtTreeMap.getD_eq_getD_getElem?, h n hn]

/-- The run is the list of the sizes of the covered axes. -/
lemma map_ofAxis_covered :
    ((List.range run.length).map fun i => m.ofAxis run (.covered i)) = run := by
  apply List.ext_getElem
  · rw [List.length_map, List.length_range]
  · intro k _ hk
    rw [List.getElem_map, List.getElem_range]
    exact List.getD_eq_getElem run 0 hk

end Sizes

mutual

lemma Term.axes_zero (t : Term) : t.axes 0 = t.names.map .named := by
  cases t with
  | group ms s => exact Terms.axes_zero ms
  | _ => rfl

/-- When the ellipsis covers nothing, the axes are the names. -/
lemma Terms.axes_zero (ts : Terms) : Terms.axes 0 ts = (Terms.names ts).map .named := by
  cases ts with
  | nil => rfl
  | cons t ts =>
    rw [Terms.axes, Terms.names, List.map_append, Term.axes_zero, Terms.axes_zero]

end

mutual

lemma Term.axes_of_no_ellipsis (width : Nat) {t : Term} (h : t.ellipses = 0) :
    t.axes width = t.names.map .named := by
  cases t with
  | name n s => rfl
  | group ms s => exact Terms.axes_of_no_ellipsis width h
  | ellipsis s => cases h
  | unit s => rfl

lemma Terms.axes_of_no_ellipsis (width : Nat) {ts : Terms} (h : Terms.ellipses ts = 0) :
    Terms.axes width ts = (Terms.names ts).map .named := by
  cases ts with
  | nil => rfl
  | cons t ts =>
    obtain ⟨first, rest⟩ := Nat.add_eq_zero_iff.mp h
    rw [Terms.axes, Terms.names, List.map_append, Term.axes_of_no_ellipsis width first,
      Terms.axes_of_no_ellipsis width rest]

end

namespace Terms

lemma isOpen_eq_false {ts : Terms} : Terms.isOpen ts = false ↔ ts.countP Term.isEllipsis = 0 := by
  rw [Terms.isOpen, List.countP_eq_zero, List.any_eq_false]

lemma isOpen_cons {t : Term} {ts : Terms} (h : t.isEllipsis = false) :
    Terms.isOpen (t :: ts) = Terms.isOpen ts := by
  rw [Terms.isOpen, List.any_cons, h, Bool.false_or, Terms.isOpen]

lemma dimensions_cons {t : Term} {ts : Terms} (h : t.isEllipsis = false) :
    Terms.dimensions (t :: ts) = Terms.dimensions ts + 1 := by
  rw [Terms.dimensions, List.countP_cons_of_pos (by rw [h]; rfl), Terms.dimensions]

lemma dimensions_ellipsis (s : Span) (ts : Terms) :
    Terms.dimensions (.ellipsis s :: ts) = Terms.dimensions ts := by
  rw [Terms.dimensions, List.countP_cons_of_neg (by exact nofun), Terms.dimensions]

lemma captured_cons {t : Term} (h : t.isEllipsis = false) (ts : Terms) (d : Nat) (ds : Shape) :
    Terms.captured (t :: ts) (d :: ds) = Terms.captured ts ds := by
  rw [captured, captured, isOpen_cons h, List.takeWhile_cons_of_pos (by rw [h]; rfl),
    List.length_cons, List.length_cons, List.drop_succ_cons, dimensions_cons h,
    Nat.add_sub_add_right]

end Terms

namespace Terms.Faces

variable {m m' : Sizes} {run : Shape} {ts : Terms} {ds : Shape}

lemma append {ts' : Terms} {ds' : Shape} (h : Faces m run ts ds) (h' : Faces m run ts' ds') :
    Faces m run (ts ++ ts') (ds ++ ds') := by
  induction h with
  | nil => exact h'
  | name hn _ ih => exact .name hn ih
  | group _ ih => exact .group ih
  | ellipsis _ ih => exact List.append_assoc _ _ _ ▸ .ellipsis ih
  | unit _ ih => exact .unit ih

/-- The first of some terms faces the first dimension, unless it is an ellipsis. -/
lemma uncons {t : Term} (single : t.isEllipsis = false) (h : Faces m run (t :: ts) ds) :
    ∃ d ds', ds = d :: ds' ∧ Faces m run [t] [d] ∧ Faces m run ts ds' := by
  cases h with
  | name hn rest => exact ⟨_, _, rfl, .name hn .nil, rest⟩
  | group rest => exact ⟨_, _, rfl, .group .nil, rest⟩
  | ellipsis => cases single
  | unit rest => exact ⟨_, _, rfl, .unit .nil, rest⟩

lemma congr (h : Faces m run ts ds) (same : ∀ n ∈ Terms.names ts, m[n]? = m'[n]?) :
    Faces m' run ts ds := by
  induction h with
  | nil => exact .nil
  | @name n s d ts ds hn _ ih =>
    obtain ⟨first, rest⟩ := List.forall_mem_append.mp same
    rw [first n List.mem_cons_self] at hn
    exact .name hn (ih rest)
  | @group ms s ts ds _ ih =>
    obtain ⟨first, rest⟩ := List.forall_mem_append.mp same
    have product : m.product (Terms.names ms) = m'.product (Terms.names ms) :=
      Sizes.product_congr first
    rw [product]
    exact .group (ih rest)
  | ellipsis _ ih => exact .ellipsis (ih same)
  | unit _ ih => exact .unit (ih same)

lemma change_run (h : Faces m run ts ds) (closed : Terms.isOpen ts = false) (run' : Shape) :
    Faces m run' ts ds := by
  induction h with
  | nil => exact .nil
  | name hn _ ih => exact .name hn (ih closed)
  | group _ ih => exact .group (ih closed)
  | ellipsis => cases closed
  | unit _ ih => exact .unit (ih closed)

/-- As many dimensions are faced as the terms take; one ellipsis takes the run. -/
lemma length_eq (h : Faces m run ts ds) (one : ts.countP Term.isEllipsis ≤ 1) :
    ds.length = Terms.dimensions ts + if Terms.isOpen ts then run.length else 0 := by
  induction h with
  | nil => rfl
  | name _ _ ih | group _ ih | unit _ ih =>
    rw [List.length_cons, ih one, Terms.dimensions_cons rfl, Terms.isOpen_cons rfl]
    omega
  | @ellipsis s ts ds _ ih =>
    rw [List.countP_cons_of_pos rfl] at one
    have closed : ts.countP Term.isEllipsis = 0 := by omega
    have rest := ih (by omega)
    rw [Terms.isOpen_eq_false.mpr closed] at rest
    rw [List.length_append, rest, Terms.dimensions_ellipsis]
    exact Nat.add_comm _ _

/-- The run that the only ellipsis faces is the one that the other terms leave over. -/
lemma captured_eq (h : Faces m run ts ds) (one : ts.countP Term.isEllipsis ≤ 1)
    (isOpen : Terms.isOpen ts = true) : Terms.captured ts ds = run := by
  induction h with
  | nil => cases isOpen
  | name _ _ ih | group _ ih | unit _ ih =>
    rw [Terms.isOpen_cons rfl] at isOpen
    rw [Terms.captured_cons rfl]
    exact ih one isOpen
  | @ellipsis s ts ds rest _ =>
    rw [List.countP_cons_of_pos rfl] at one
    -- no term stands before the ellipsis, and those behind it take as many dimensions as they are
    have closed : ts.countP Term.isEllipsis = 0 := by omega
    have len := rest.length_eq (closed ▸ Nat.zero_le 1)
    rw [Terms.isOpen_eq_false.mpr closed, if_neg Bool.false_ne_true, Nat.add_zero] at len
    rw [Terms.captured, if_pos isOpen, List.takeWhile_cons_of_neg (by exact nofun), List.length_nil,
      List.drop_zero, List.length_append, Terms.dimensions_ellipsis, len, Nat.add_sub_cancel,
      List.take_left]

/-- If terms face dimensions at all, then with the run that the other terms leave over. -/
lemma capture (h : Faces m run ts ds) (one : ts.countP Term.isEllipsis ≤ 1) :
    Faces m (Terms.captured ts ds) ts ds := by
  cases isOpen : Terms.isOpen ts with
  | false => exact h.change_run isOpen _
  | true => rwa [h.captured_eq one isOpen]

/-- Sizes that fit give the side its shape, if its groups have no ellipses. -/
lemma extents_eq (h : Faces m run ts ds)
    (closed : ∀ t ∈ ts, t.isEllipsis = false → t.ellipses = 0) :
    Terms.extents run.length (m.ofAxis run) ts = ds := by
  induction h with
  | nil => rfl
  | name hn _ ih =>
    have rest := ih fun t ht => closed t (List.mem_cons_of_mem _ ht)
    exact congrArg₂ List.cons (Sizes.getD_of_getElem? hn) rest
  | @group ms s _ _ _ ih =>
    have rest := ih fun t ht => closed t (List.mem_cons_of_mem _ ht)
    have names := Terms.axes_of_no_ellipsis run.length
      (closed (.group ms s) List.mem_cons_self rfl)
    refine congrArg₂ List.cons ?_ rest
    rw [names, Axis.volume, List.map_map]
    rfl
  | ellipsis _ ih =>
    have rest := ih fun t ht => closed t (List.mem_cons_of_mem _ ht)
    exact congrArg₂ List.append Sizes.map_ofAxis_covered rest
  | unit _ ih =>
    have rest := ih fun t ht => closed t (List.mem_cons_of_mem _ ht)
    exact congrArg (List.cons 1) rest

end Terms.Faces

/-- Terms whose names are bound face the shape that the sizes give them. -/
lemma Terms.faces_extents {m : Sizes} {run : Shape} {ts : Terms}
    (bound : ∀ n ∈ Terms.names ts, n ∈ m)
    (closed : ∀ t ∈ ts, t.isEllipsis = false → t.ellipses = 0) :
    Terms.Faces m run ts (Terms.extents run.length (m.ofAxis run) ts) := by
  induction ts with
  | nil => exact .nil
  | cons t ts ih =>
    obtain ⟨bound_t, bound_ts⟩ := List.forall_mem_append.mp bound
    have rest := ih bound_ts fun t ht => closed t (List.mem_cons_of_mem _ ht)
    have first : Terms.Faces m run [t] (t.extents run.length (m.ofAxis run)) := by
      cases t with
      | name n s =>
        obtain ⟨d, hd⟩ := Sizes.mem_iff.mp (bound_t n List.mem_cons_self)
        refine .name ?_ .nil
        rw [hd, Sizes.ofAxis, Sizes.getD_of_getElem? hd]
      | group ms s =>
        have names := Terms.axes_of_no_ellipsis run.length
          (closed (.group ms s) List.mem_cons_self rfl)
        rw [Term.extents, names, Axis.volume, List.map_map]
        exact .group .nil
      | ellipsis s =>
        have whole : Terms.Faces m run [.ellipsis s] (run ++ []) := .ellipsis .nil
        rw [Term.extents, Sizes.map_ofAxis_covered]
        rwa [List.append_nil] at whole
      | unit s => exact .unit .nil
    exact first.append rest

end AxisNotation
