import AxisNotation.Proofs.Resolution.Failure
import AxisNotation.Proofs.Resolution.Magnitude

/-!
# When a product overflows

When the axes of the input have a bulk within the limit, every product that the solver multiplies
can be stated (`Shape.product?_of_bulk`), so if there are consistent sizes it finds them, or it asks
for more explicit sizes in a group (`Resolution.solved_or_open`). On a shape without zeros the bulk
is the number of elements, and then the solver reports no overflow that is none
(`Resolution.no_overflow_within_limit`). With a zero the number of elements says nothing: a partial
product may leave the range before the zero is met (`Resolution.overflow_before_zero`).
-/

namespace AxisNotation

/-- The computation refuses the pattern because a product overflows. -/
def Outcome.Overflows {α : Type} (pattern : String) (x : Outcome α) : Prop :=
  ∃ axes expected actual,
    x = .error (.rejected (.shape pattern .productOverflow axes expected actual))

/-- The computation refuses the pattern because a group leaves several sizes open. -/
def Outcome.LeavesOpen {α : Type} (pattern : String) (x : Outcome α) : Prop :=
  ∃ count group axes,
    x = .error (.rejected (.shape pattern (.undetermined count group) axes none none))

lemma Outcome.LeavesOpen.bind {α β : Type} {pattern : String} {x : Outcome α}
    (h : x.LeavesOpen pattern) (f : α → Outcome β) : (x >>= f).LeavesOpen pattern := by
  obtain ⟨count, group, axes, rfl⟩ := h
  exact ⟨count, group, axes, rfl⟩

lemma Outcome.LeavesOpen.not_overflows {α : Type} {pattern : String} {x : Outcome α}
    (h : x.LeavesOpen pattern) : ¬ x.Overflows pattern := by
  obtain ⟨count, group, axes, rfl⟩ := h
  rintro ⟨axes', expected, actual, e⟩
  cases e

/-- In every group among some terms the product of the given sizes can be stated. -/
def Terms.Stated (given : Sizes) (ts : Terms) : Prop :=
  ∀ ms s, .group ms s ∈ ts → ∃ k, Shape.product? (given.known (Terms.names ms)) = some k

variable {given m : Sizes} {b : Binding} {pattern : String} {shape : Shape} {position width : Nat}
  {t : Term} {ts : Terms}

namespace Resolution

/-- A group with several names of unknown size is refused as such. -/
lemma bindGroup_open {group : Term} (fresh : ∀ n ∈ group.names, b.sizes[n]? = none)
    (several : ¬ (given.unknown group.names).length ≤ 1) {k : Nat}
    (hk : Shape.product? (given.known group.names) = some k) (d : Nat) :
    (bindGroup pattern given group d b).LeavesOpen pattern := by
  obtain ⟨unknown_eq, known_eq⟩ := knowns_of_fresh given fresh
  rw [bindGroup, unknown_eq, known_eq, product_eq_ok.mpr hk]
  cases unknown : given.unknown group.names with
  | nil => exact absurd (by rw [unknown]; exact Nat.zero_le 1) several
  | cons x rest =>
    cases rest with
    | nil => exact absurd (by rw [unknown]; exact le_rfl) several
    | cons y rest => exact ⟨_, _, _, rfl⟩

/-- A term that faces a dimension is matched with it or leaves several sizes open. -/
lemma bindTerm_or_open {d : Nat} {run : Shape} (fresh : ∀ n ∈ t.names, b.sizes[n]? = none)
    (positive : ∀ (n : String) (k : Nat), given[n]? = some k → k ≠ 0)
    (agrees : m.Agrees given t.names) (bound : ∀ n ∈ t.names, n ∈ m)
    (stated : Terms.Stated given [t]) (single : t.isEllipsis = false)
    (faces : Terms.Faces m run [t] [d]) :
    (∃ b', bindTerm pattern given shape position d b t = .ok b')
      ∨ (bindTerm pattern given shape position d b t).LeavesOpen pattern := by
  by_cases determined : Terms.Determined given [t]
  · obtain ⟨b', matched, -⟩ := bindTerm_complete fresh positive agrees bound determined single faces
    exact .inl ⟨b', matched⟩
  · cases t with
    | group ms s =>
      obtain ⟨k, hk⟩ := stated ms s List.mem_cons_self
      refine .inr (bindGroup_open fresh (fun one => determined fun ms' s' mem => ?_) hk d)
      cases List.mem_singleton.mp mem
      exact ⟨one, k, hk⟩
    | _ => exact absurd (by simp [Terms.Determined]) determined

/-- Terms that face dimensions are matched with them, unless one of them leaves several sizes
open. -/
lemma bindTerms_or_open {ds run : Shape} (nodup : (Terms.names ts).Nodup)
    (fresh : ∀ n ∈ Terms.names ts, b.sizes[n]? = none) (one : ts.countP Term.isEllipsis ≤ 1)
    (positive : ∀ (n : String) (k : Nat), given[n]? = some k → k ≠ 0)
    (agrees : m.Agrees given (Terms.names ts)) (bound : ∀ n ∈ Terms.names ts, n ∈ m)
    (stated : Terms.Stated given ts) (faces : Terms.Faces m run ts ds)
    (takes : Terms.Takes width ts ds.length) :
    (∃ b', bindTerms pattern given shape width ts position ds b = .ok b')
      ∨ (bindTerms pattern given shape width ts position ds b).LeavesOpen pattern := by
  induction ts generalizing b position ds with
  | nil => exact .inl ⟨b, rfl⟩
  | cons t ts ih =>
    obtain ⟨-, nodup_ts, disjoint⟩ := List.nodup_append.mp nodup
    obtain ⟨fresh_t, fresh_ts⟩ := List.forall_mem_append.mp fresh
    obtain ⟨agrees_t, agrees_ts⟩ := List.forall_mem_append.mp agrees
    obtain ⟨bound_t, bound_ts⟩ := List.forall_mem_append.mp bound
    have stated_ts : Terms.Stated given ts := fun ms s mem =>
      stated ms s (List.mem_cons_of_mem t mem)
    cases single : t.isEllipsis with
    | true =>
      obtain ⟨s, rfl⟩ := Term.exists_of_isEllipsis single
      obtain ⟨room, faces, takes⟩ := faces.of_ellipsis one takes
      rw [bindTerms, if_pos room]
      exact ih nodup_ts fresh_ts (Terms.one_of_cons one) agrees_ts bound_ts stated_ts faces takes
    | false =>
      obtain ⟨d, ds, rfl, face, faces⟩ := faces.uncons single
      obtain ⟨rest, len, takes⟩ := takes.uncons single
      obtain rfl : ds.length = rest := Nat.succ.inj len
      have stated_t : Terms.Stated given [t] := fun ms s mem =>
        stated ms s (List.mem_singleton.mp mem ▸ List.mem_cons_self)
      rw [bindTerms_cons single]
      obtain ⟨c, first⟩ | isOpen :=
        bindTerm_or_open fresh_t positive agrees_t bound_t stated_t single face
      · obtain ⟨ext, -⟩ := bindTerm_sound single fresh_t first
        have fresh_ts (n : String) (hn : n ∈ Terms.names ts) : c.sizes[n]? = none :=
          (ext.others n fun hn' => disjoint n hn' n hn rfl).trans (fresh_ts n hn)
        rw [first]
        exact ih nodup_ts fresh_ts (Terms.one_of_cons one) agrees_ts bound_ts stated_ts faces takes
      · exact .inr (isOpen.bind _)

lemma bindInput_or_open {input : Terms} {run : Shape} (nodup : input.names.Nodup)
    (one : input.countP Term.isEllipsis ≤ 1)
    (positive : ∀ (n : String) (k : Nat), given[n]? = some k → k ≠ 0)
    (agrees : m.Agrees given input.names) (bound : ∀ n ∈ input.names, n ∈ m)
    (stated : input.Stated given) (faces : input.Faces m run shape) :
    (∃ b, bindInput pattern given input shape = .ok b)
      ∨ (bindInput pattern given input shape).LeavesOpen pattern := by
  have takes := takes_of_faces faces one
  have rank {error : PatternError} : Outcome.require (shape.length = input.dimensions
      ∨ input.isOpen = true ∧ input.dimensions ≤ shape.length) error = .ok () :=
    Outcome.require_eq_ok.mpr (takes_iff.mp takes)
  rw [bindInput, rank]
  exact bindTerms_or_open nodup (fun n _ => sizes_empty n) one positive agrees bound stated faces
    takes

end Resolution

/-- The given ones are among the sizes of some names. -/
lemma Sizes.known_sublist {names : List String} (agrees : m.Agrees given names) :
    (given.known names).Sublist (names.map fun n => m.getD n 0) := by
  induction names with
  | nil => exact .slnil
  | cons n ns ih =>
    obtain ⟨first, rest⟩ := List.forall_mem_cons.mp agrees
    rw [known, List.map_cons]
    cases hn : given[n]? with
    | none =>
      rw [List.filterMap_cons_none hn]
      exact (ih rest).cons _
    | some k =>
      rw [List.filterMap_cons_some hn, getD_of_getElem? (first k hn)]
      exact (ih rest).cons_cons k

/-! ## Consistent sizes within the limit -/

/-- The product of the sizes of the input's axes that are not zero. -/
def Pattern.bulk (p : Pattern) (shape : Shape) (m : Sizes) : Nat :=
  Shape.bulk ((p.input.axes (p.input.captured shape).length).map
    (m.ofAxis (p.input.captured shape)))

namespace Pattern

variable {p : Pattern} {explicit : SizeList}

/-- Both sides have the same axes, so the bulk bounds the products on the output as well. -/
lemma bulk_output (valid : p.Valid .rearranging explicit.names) (shape : Shape) (m : Sizes) :
    Shape.bulk ((p.output.axes (p.input.captured shape).length).map
      (m.ofAxis (p.input.captured shape))) = p.bulk shape m :=
  (((valid.perm_axes _).map _).filter _).prod_eq

variable (valid : p.Valid .rearranging explicit.names) (consistent : p.Consistent shape explicit m)

include valid consistent

/-- On a shape without zeros the bulk is the number of elements. -/
lemma bulk_eq_elements (positive : 0 ∉ shape) : p.bulk shape m = shape.elements := by
  have input := consistent.input_eq valid
  have nonzero : ∀ a ∈ p.input.axes (p.input.captured shape).length,
      m.ofAxis (p.input.captured shape) a ≠ 0 := by
    rw [← Terms.extents_positive, input]
    exact positive
  have count := Axis.volume_ne_zero.mpr nonzero
  rw [Axis.volume, ne_eq, List.prod_eq_zero_iff] at count
  conv => rhs; rw [← input]
  rw [bulk, Shape.bulk_eq_prod count, Terms.elements_extents, Axis.volume]

/-- The explicit sizes in a group are sizes of the input's axes. -/
lemma stated_of_bulk (bound : p.bulk shape m ≤ Shape.sizeLimit)
    (listed : ∀ (n : String) (k : Nat), given[n]? = some k ↔ (n, k) ∈ explicit) :
    p.input.Stated given := by
  intro ms s mem
  have agrees : m.Agrees given (Terms.names ms) := by
    intro n hn k hk
    have input : n ∈ p.input.names := by
      rw [Terms.names_eq_flatMap]
      exact List.mem_flatMap_of_mem mem hn
    exact consistent.agrees n k ((listed n k).mp hk) ((consistent.names n).mpr (.inl input))
  -- a group of the input has no ellipsis, so that its axes are its names
  have closed : (Term.group ms s).ellipses = 0 := valid.ellipses_of_single mem rfl
  have inside : ((Terms.names ms).map fun n => m.getD n 0).Sublist
      ((p.input.axes (p.input.captured shape).length).map
        (m.ofAxis (p.input.captured shape))) := by
    have sub : ((Term.group ms s).axes (p.input.captured shape).length).Sublist
        (p.input.axes (p.input.captured shape).length) := Terms.axes_sublist_of_mem mem
    rw [Term.axes_of_no_ellipsis _ closed] at sub
    have sizes := sub.map (m.ofAxis (p.input.captured shape))
    rw [List.map_map] at sizes
    exact sizes
  apply Shape.product?_of_bulk
  exact (Shape.bulk_le_of_sublist ((Sizes.known_sublist agrees).trans inside)).trans bound

/-- When the groups of the input are determined, all products that are left can be stated. -/
lemma solvable_of_bulk (coherent : explicit.Coherent) (determined : p.input.DeterminedBy explicit)
    (bound : p.bulk shape m ≤ Shape.sizeLimit) : p.Solvable .rearranging shape explicit m where
  positive := coherent.positive
  agree := coherent.agree
  determined := determined
  consistent := consistent
  fits := by
    apply Terms.fits_of_bulk
    rw [bulk_output valid]
    exact bound
  counted _ := by
    constructor
    · apply Shape.product?_of_bulk
      conv => lhs; rw [← consistent.input_eq valid]
      exact (Terms.bulk_extents_le _ _).trans bound
    · apply Shape.product?_of_bulk
      refine (Terms.bulk_extents_le _ _).trans ?_
      rw [bulk_output valid]
      exact bound

end Pattern

namespace Resolution

variable {p : Pattern} {explicit : SizeList}

lemma bindAll_rearranging (p : Pattern) (shape : Shape) (given : Sizes) :
    bindAll .rearranging p shape given = bindInput p.text given p.input shape := by
  show (bindInput p.text given p.input shape >>= pure) = _
  rw [bind_pure]

/-- When the bulk is within the limit, consistent sizes are found unless a group leaves several
sizes open. -/
theorem solved_or_open (valid : p.Valid .rearranging explicit.names) (coherent : explicit.Coherent)
    (consistent : p.Consistent shape explicit m) (bound : p.bulk shape m ≤ Shape.sizeLimit) :
    (∃ r, solve .rearranging p shape explicit = .ok r)
      ∨ (solve .rearranging p shape explicit).LeavesOpen p.text := by
  obtain ⟨given, collected⟩ := (exists_collect p.text).mpr coherent
  have listed := collected_listed collected
  have inside (n : String) (hn : n ∈ p.input.names) : n ∈ m := (consistent.names n).mpr (.inl hn)
  obtain ⟨b, matched⟩ | isOpen : (∃ b, bindInput p.text given p.input shape = .ok b)
      ∨ (bindInput p.text given p.input shape).LeavesOpen p.text :=
    bindInput_or_open (valid.distinct .input) (valid.one_ellipsis .input)
      (fun n k hk => coherent.positive n k ((listed n k).mp hk))
      (fun n hn k hk => consistent.agrees n k ((listed n k).mp hk) (inside n hn)) inside
      (p.stated_of_bulk valid consistent bound listed) consistent.faces
  · rw [← bindAll_rearranging] at matched
    obtain ⟨-, -, determined⟩ := bindAll_sound valid listed matched
    have solvable := p.solvable_of_bulk valid consistent coherent determined bound
    let run := p.input.captured shape
    exact .inl ⟨⟨m, run, p.output.extents run.length (m.ofAxis run)⟩,
      (solve_eq_ok valid).mpr ⟨solvable, rfl, rfl⟩⟩
  · rw [solve_eq, collected]
    show _ ∨ (bindAll .rearranging p shape given >>= _).LeavesOpen p.text
    rw [bindAll_rearranging]
    exact .inr (isOpen.bind _)

/-- When there are consistent sizes, no overflow is reported on a shape without zeros whose number
of elements is within the limit, nor on any shape when the bulk is within the limit. -/
theorem no_overflow_within_limit (p : Pattern) (shape : Shape) (explicit : SizeList) (m : Sizes)
    (valid : p.check .rearranging explicit.names = .ok ()) (coherent : explicit.Coherent)
    (consistent : p.Consistent shape explicit m) :
    (0 ∉ shape → shape.elements ≤ Shape.sizeLimit →
      ¬ (solve .rearranging p shape explicit).Overflows p.text)
    ∧ (p.bulk shape m ≤ Shape.sizeLimit →
      ¬ (solve .rearranging p shape explicit).Overflows p.text) := by
  have valid := Pattern.check_eq_ok.mp valid
  have within (bound : p.bulk shape m ≤ Shape.sizeLimit) :
      ¬ (solve .rearranging p shape explicit).Overflows p.text := by
    obtain ⟨r, solved⟩ | isOpen := solved_or_open valid coherent consistent bound
    · rintro ⟨axes, expected, actual, overflow⟩
      rw [solved] at overflow
      cases overflow
    · exact isOpen.not_overflows
  refine ⟨fun positive count => within ?_, within⟩
  rw [p.bulk_eq_elements valid consistent positive]
  exact count

/-- A group without explicit sizes is refused, but not for an overflow. -/
theorem no_overflow_within_limit_split :
    ∃ m, splitPattern.Consistent [6] [] m ∧ splitPattern.bulk [6] m = 6
      ∧ (solve .rearranging splitPattern [6] []).LeavesOpen splitPattern.text
      ∧ ¬ (solve .rearranging splitPattern [6] []).Overflows splitPattern.text := by
  have valid : splitPattern.check .rearranging (SizeList.names []) = .ok () := by decide +kernel
  have valid' : splitPattern.check .rearranging (SizeList.names [("h", 2)]) = .ok () := by
    decide +kernel
  have sized : (solve .rearranging splitPattern [6] [("h", 2)]).map
      (fun r => splitPattern.bulk [6] r.sizes) = .ok 6 := by decide +kernel
  obtain ⟨r, solved, bulk⟩ := map_eq_ok.mp sized
  obtain ⟨solvable, -⟩ := (solve_eq_ok (Pattern.check_eq_ok.mp valid')).mp solved
  have consistent : splitPattern.Consistent [6] [] r.sizes :=
    { solvable.consistent with agrees := nofun }
  obtain ⟨within, -⟩ :=
    no_overflow_within_limit splitPattern [6] [] r.sizes valid ⟨nofun, nofun⟩ consistent
  refine ⟨r.sizes, consistent, bulk, ⟨2, "(h w)", ["h", "w"], by decide +kernel⟩, ?_⟩
  exact within (by decide) (by decide)

/-- Three axes in reverse order. -/
def reversePattern : Pattern :=
  .ofSides [.name "a" .nowhere, .name "b" .nowhere, .name "c" .nowhere]
    [.name "c" .nowhere, .name "b" .nowhere, .name "a" .nowhere]

/-- On an empty shape an overflow is reported when the sizes before the zero exceed the limit. -/
theorem overflow_before_zero :
    reversePattern.check .rearranging (SizeList.names []) = .ok ()
      ∧ Shape.elements [2, 0x8000000000000000, 0] = 0 ∧ SizeList.Coherent []
      ∧ (∃ m, reversePattern.Consistent [2, 0x8000000000000000, 0] [] m)
      ∧ (solve .rearranging reversePattern [2, 0x8000000000000000, 0] []).Overflows
        reversePattern.text := by
  have valid : reversePattern.check .rearranging (SizeList.names []) = .ok () := by decide +kernel
  have valid' : reversePattern.check .reducing (SizeList.names []) = .ok () := by decide +kernel
  -- reducing does not count the elements, so it finds the sizes
  have sized : (solve .reducing reversePattern [2, 0x8000000000000000, 0] []).map
      Resolution.outputShape = .ok [0, 0x8000000000000000, 2] := by decide +kernel
  obtain ⟨r, solved, -⟩ := map_eq_ok.mp sized
  obtain ⟨solvable, -⟩ := (solve_eq_ok (Pattern.check_eq_ok.mp valid')).mp solved
  exact ⟨valid, by decide, ⟨nofun, nofun⟩, ⟨r.sizes, solvable.consistent⟩, [], none, none,
    by decide +kernel⟩

end Resolution

end AxisNotation
