import AxisNotation.Proofs.Resolution.Exact
import AxisNotation.Resolution.Walk

/-!
# Walking along a shape

The solver that looks at the shape position by position comes to the same as the one that takes the
dimensions off one by one (`Walk.outcome_solve`). What is left of the dimensions is the shape
without those before the position. So no access is undefined when the solver settles, which it does
if the input has one ellipsis at most (`Walk.not_trapped`). Bound sizes never contradict the given
ones (`Walk.Respects`), so nothing comes of comparing them again at each name of a group.
-/

namespace AxisNotation.Resolution.Walk

variable {α β : Type} {pattern : String} {given : Sizes} {shape : Shape} {position width : Nat}
  {b : Binding} {kind : Kind} {p : Pattern} {explicit : SizeList}

lemma outcome_trapped (trap : Trap) :
    outcome (.error (.trapped trap) : Walk α) = .error .outOfRange := rfl

lemma outcome_bind (w : Walk α) (f : α → Walk β) :
    (w >>= f).outcome = w.outcome >>= fun a => (f a).outcome := by
  cases w <;> rfl

lemma outcome_ofOutcome (x : Outcome α) : (ofOutcome x).outcome = x := by
  cases x with
  | ok a => rfl
  | error e => cases e <;> rfl

/-! ## The accesses -/

/-- A dimension is there when there are dimensions from its position on. -/
lemma outcome_entry (f : Nat → Walk α) :
    (entry shape position >>= f).outcome
      = match shape.drop position with
        | [] => .error .outOfRange
        | d :: _ => (f d).outcome := by
  unfold entry
  by_cases h : position < shape.length
  · rw [List.getElem?_eq_getElem h, List.drop_eq_getElem_cons h]
    rfl
  · rw [List.getElem?_eq_none (by omega), List.drop_eq_nil_of_le (by omega)]
    rfl

lemma outcome_slice (inside : position ≤ shape.length) (f : Shape → Walk α) :
    (slice shape position (position + width) >>= f).outcome
      = if width ≤ (shape.drop position).length then (f ((shape.drop position).take width)).outcome
        else .error .outOfRange := by
  have room : width ≤ (shape.drop position).length
      ↔ position ≤ position + width ∧ position + width ≤ shape.length := by
    rw [List.length_drop]
    omega
  unfold slice
  by_cases h : position ≤ position + width ∧ position + width ≤ shape.length
  · rw [if_pos h, if_pos (room.mpr h), List.drop_take, Nat.add_sub_cancel_left]
    rfl
  · rw [if_neg h, if_neg (mt room.mp h)]
    rfl

/-- A dimension is divided without a trap. -/
lemma share_eq (dimension known : Nat) : share dimension known
    = .ok (if known ≠ 0 ∧ dimension % known = 0 then some (dimension / known) else none) := by
  unfold share remainder quotient
  by_cases zero : known = 0
  · rw [if_pos zero, if_neg fun h => h.1 zero]
  · rw [if_neg zero, if_neg zero, if_neg zero]
    by_cases divides : dimension % known = 0
    · rw [if_pos ⟨zero, divides⟩]
      show (if dimension % known ≠ 0 then _ else _) = _
      rw [if_neg (not_not.mpr divides)]
      rfl
    · rw [if_neg fun h => divides h.2]
      show (if dimension % known ≠ 0 then _ else _) = _
      rw [if_pos divides]
      rfl

/-! ## The names of a group -/

/-- The bound sizes do not contradict the given ones. -/
def Respects (given : Sizes) (b : Binding) : Prop :=
  ∀ (n : String) (bound size : Nat), b.sizes[n]? = some bound → given[n]? = some size → size = bound

lemma respects_empty : Respects given .empty := by
  intro n bound size found
  rw [Binding.empty, Std.ExtTreeMap.getElem?_empty] at found
  cases found

namespace Respects

variable (h : Respects given b)

include h

lemma set {name : String} {d : Nat} (new : ∀ size, given[name]? = some size → size = d) :
    Respects given (b.set name d) := by
  intro n bound size found listed
  rw [Binding.getElem?_set] at found
  split at found
  · next same =>
    rw [← Option.some.inj found]
    exact new size (same ▸ listed)
  · exact h n bound size found listed

/-- No size is given for the one name that is looked for. -/
lemma set_unknown {names : List String} {name : String}
    (one : (names.filter fun n => (b.size? given n).isNone) = [name]) (d : Nat) :
    Respects given (b.set name d) := by
  have listed : name ∈ names.filter fun n => (b.size? given n).isNone :=
    one ▸ List.mem_singleton_self _
  have unknown := Option.isNone_iff_eq_none.mp (List.mem_filter.mp listed).2
  obtain ⟨-, new⟩ := Option.or_eq_none_iff.mp unknown
  exact h.set fun size found => absurd (found.symm.trans new) (Option.some_ne_none size)

lemma adopt (names : List String) : Respects given (b.adopt given names) := by
  intro n bound size found listed
  rw [Binding.getElem?_adopt, Binding.size?] at found
  cases e : b.sizes[n]? with
  | some k =>
    rw [e, Option.some_or, ite_self] at found
    rw [← Option.some.inj found]
    exact h n k size e listed
  | none =>
    rw [e, Option.none_or] at found
    split at found
    · exact Option.some.inj (listed.symm.trans found)
    · cases found

lemma known?_eq (name : String) :
    known? pattern given b name = .ok (b.size? given name) := by
  unfold known? Binding.size?
  cases bound : b.sizes[name]? with
  | none => rfl
  | some k =>
    cases listed : given[name]? with
    | none => rfl
    | some size =>
      obtain rfl := h name k size bound listed
      show ofOutcome (Outcome.require (size = size) _) >>= _ = _
      rw [Outcome.require, if_pos rfl]
      rfl

/-- The loop multiplies the known sizes from the left and lists the other names in order. -/
lemma outcome_survey (names unknown : List String) (known : Nat) :
    (survey pattern given b names known unknown).outcome
      = .orReject ((names.filterMap (b.size? given)).foldlM Shape.times? known)
          (.ofShape pattern .productOverflow)
        >>= fun known =>
          .ok (known, unknown ++ names.filter fun n => (b.size? given n).isNone) := by
  induction names generalizing known unknown with
  | nil =>
    rw [survey, List.filter_nil, List.append_nil]
    rfl
  | cons n ns ih =>
    rw [survey, h.known?_eq]
    cases size : b.size? given n with
    | none =>
      rw [List.filterMap_cons_none size, List.filter_cons_of_pos (by rw [size]; rfl)]
      show (survey pattern given b ns known (unknown ++ [n])).outcome = _
      rw [ih, List.append_assoc]
      rfl
    | some k =>
      rw [List.filterMap_cons_some size, List.foldlM_cons,
        List.filter_cons_of_neg (by rw [size]; exact Bool.false_ne_true)]
      show (ofOutcome (Outcome.orReject (Shape.times? known k) _)
        >>= fun known => survey pattern given b ns known unknown).outcome = _
      rw [outcome_bind, outcome_ofOutcome]
      cases Shape.times? known k with
      | none => rfl
      | some known => exact ih unknown known

lemma adopt_eq (names : List String) :
    Walk.adopt pattern given names b = .ok (b.adopt given names) := by
  induction names generalizing b with
  | nil => rfl
  | cons n ns ih =>
    rw [Walk.adopt, Binding.adopt, List.foldl_cons]
    by_cases mem : n ∈ b.sizes
    · -- a name that is bound keeps its size
      obtain ⟨k, bound⟩ := Sizes.mem_iff.mp mem
      rw [if_pos mem, Binding.size?, bound, Option.some_or, Option.map_some, Option.getD_some,
        Binding.set_self bound]
      exact ih h
    · have fresh : b.sizes[n]? = none := Std.ExtTreeMap.getElem?_eq_none mem
      rw [if_neg mem, h.known?_eq, Binding.size?_of_fresh fresh]
      cases listed : given[n]? with
      | none => exact ih h
      | some size =>
        refine ih (h.set fun size' listed' => ?_)
        exact Option.some.inj (listed'.symm.trans listed)

end Respects

lemma respects_bindName {n : String} {dimension : Nat} {b' : Binding} (h : Respects given b)
    (bound : bindName pattern given n dimension b = .ok b') : Respects given b' := by
  simp only [bindName, bind_eq_ok, pure_eq_ok, Outcome.agree_eq_ok] at bound
  obtain ⟨_, agreed, _, -, rfl⟩ := bound
  exact h.set agreed

lemma respects_bindGroup {group : Term} {dimension : Nat} {b' : Binding} (h : Respects given b)
    (bound : Resolution.bindGroup pattern given group dimension b = .ok b') :
    Respects given b' := by
  simp only [Resolution.bindGroup, bind_eq_ok, product_eq_ok] at bound
  obtain ⟨known, -, bound⟩ := bound
  split at bound
  · simp only [bind_eq_ok, pure_eq_ok] at bound
    obtain ⟨_, -, rfl⟩ := bound
    exact h.adopt group.names
  · next name one =>
    simp only [bind_eq_ok, pure_eq_ok] at bound
    obtain ⟨_, -, rfl⟩ := bound
    exact (h.set_unknown one _).adopt group.names
  · cases bound

/-! ## The walk -/

lemma outcome_bindGroup (h : Respects given b) (group : Term) (dimension : Nat) :
    (bindGroup pattern given group dimension b).outcome
      = Resolution.bindGroup pattern given group dimension b := by
  unfold bindGroup Resolution.bindGroup product Shape.product?
  rw [outcome_bind, h.outcome_survey, bind_assoc]
  refine congrArg _ (funext fun known => ?_)
  generalize unlisted : group.names.filter (fun n => (b.size? given n).isNone) = unknown
  cases unknown with
  | nil =>
    show (ofOutcome (Outcome.require (known = dimension) _)
      >>= fun _ => Walk.adopt pattern given group.names b).outcome = _
    rw [outcome_bind, outcome_ofOutcome, h.adopt_eq]
    rfl
  | cons name rest =>
    cases rest with
    | nil =>
      show (share dimension known >>= fun size => ofOutcome (Outcome.orReject size _)
        >>= fun size => Walk.adopt pattern given group.names (b.set name size)).outcome = _
      dsimp only
      rw [share_eq, outcome_bind]
      by_cases divides : known ≠ 0 ∧ dimension % known = 0
      · rw [if_pos divides, Outcome.require, if_pos divides]
        exact congrArg outcome ((h.set_unknown unlisted _).adopt_eq group.names)
      · rw [if_neg divides, Outcome.require, if_neg divides]
        rfl
    | cons other others =>
      show (ofOutcome (Outcome.reject _)).outcome = Outcome.reject _
      exact outcome_ofOutcome _

/-- A term that takes one dimension is matched with the first one that is left. -/
lemma outcome_single {t : Term} {ts : Terms} {next : Nat → Walk Binding}
    (single : t.isEllipsis = false)
    (same : ∀ d, position + 1 ≤ shape.length →
      (next d).outcome = (bindTerm pattern given shape position d b t >>=
        Resolution.bindTerms pattern given shape width ts (position + 1)
          (shape.drop (position + 1)))) :
    (entry shape position >>= next).outcome
      = Resolution.bindTerms pattern given shape width (t :: ts) position (shape.drop position)
        b := by
  rw [outcome_entry]
  cases left : shape.drop position with
  | nil =>
    cases t with
    | ellipsis s => cases single
    | _ => rfl
  | cons d ds =>
    have len := congrArg List.length left
    rw [List.length_drop, List.length_cons] at len
    obtain rfl : shape.drop (position + 1) = ds := by
      rw [← List.drop_drop, left]
      rfl
    rw [bindTerms_cons single]
    exact same d (by omega)

/-- From a position on the walk matches what is left of the dimensions. -/
lemma outcome_bindTerms (ts : Terms) (h : Respects given b) (inside : position ≤ shape.length) :
    (bindTerms pattern given shape width ts position b).outcome
      = Resolution.bindTerms pattern given shape width ts position (shape.drop position) b := by
  induction ts generalizing position b with
  | nil => rfl
  | cons t ts ih =>
    cases t with
    | ellipsis s =>
      rw [bindTerms, outcome_slice inside, Resolution.bindTerms]
      split
      · next room =>
        rw [List.length_drop] at room
        have h : Respects given ⟨b.sizes, (shape.drop position).take width⟩ := h
        rw [ih h (by omega), List.drop_drop]
      · rfl
    | name n s =>
      rw [bindTerms]
      refine outcome_single rfl fun d inside => ?_
      rw [outcome_bind, outcome_ofOutcome]
      exact bind_congr_of_ok fun b' bound => ih (respects_bindName h bound) inside
    | group ms s =>
      rw [bindTerms]
      refine outcome_single rfl fun d inside => ?_
      rw [outcome_bind, outcome_bindGroup h]
      exact bind_congr_of_ok fun b' bound => ih (respects_bindGroup h bound) inside
    | unit s =>
      rw [bindTerms]
      refine outcome_single rfl fun d inside => ?_
      rw [outcome_bind, outcome_ofOutcome, bindTerm, bind_assoc]
      exact congrArg _ (funext fun _ => ih h inside)

lemma outcome_bindInput (input : Terms) :
    (bindInput pattern given input shape).outcome
      = Resolution.bindInput pattern given input shape := by
  dsimp only [bindInput, Resolution.bindInput]
  rw [outcome_bind, outcome_ofOutcome]
  by_cases rank : shape.length = input.dimensions
      ∨ (input.isOpen = true ∧ input.dimensions ≤ shape.length)
  · -- the terms take no more dimensions than there are
    have least : input.dimensions ≤ shape.length := rank.elim (fun e => e.ge) fun h => h.2
    rw [difference, if_pos least, Outcome.require, if_pos rank]
    exact outcome_bindTerms input respects_empty (Nat.zero_le _)
  · rw [Outcome.require, if_neg rank]
    rfl

/-- The walk comes to what the solver finds. -/
theorem outcome_solve (kind : Kind) (p : Pattern) (shape : Shape) (explicit : SizeList) :
    (solve kind p shape explicit).outcome = Resolution.solve kind p shape explicit := by
  unfold solve Resolution.solve
  rw [outcome_bind, outcome_ofOutcome]
  refine congrArg _ (funext fun given => ?_)
  rw [outcome_bind, outcome_bindInput]
  exact congrArg _ (funext fun bound => outcome_ofOutcome _)

/-- No access of the walk is undefined if the input has one ellipsis at most. -/
lemma not_trapped (one : p.input.countP Term.isEllipsis ≤ 1) (trap : Trap) :
    solve kind p shape explicit ≠ .error (.trapped trap) := by
  have settles : (Resolution.solve kind p shape explicit).Settles := settles_solve_of_one one
  intro trapped
  rw [← outcome_solve, trapped] at settles
  exact settles (outcome_trapped trap)

end AxisNotation.Resolution.Walk
