import AxisNotation.Proofs.Shortcut
import AxisNotation.Proofs.Spans

/-!
# The normal form of a rearrangement

A draft records only steps that change something, and never two reshapes in a row (`Draft.Tidy`),
whatever is asked of it. So the steps of a rearrangement are in a normal form (`Plan.Normal`), and
they are the identity alone exactly when the axes stay in order and the shape stays the same
(`Engine.planned_rearrange_normal`).
-/

namespace AxisNotation

/-! ## Steps along the shapes -/

namespace Step

/-- Whether a step leaves a tensor of the given shape as it is. -/
def isIdle (shape : Shape) : Step → Bool
  | identity => true
  | transpose => false
  | permute axes => inOrder axes
  | reshape target => target == shape

/-- Whether a step brings axes into another order. -/
def moves : Step → Bool
  | transpose => true
  | permute _ => true
  | _ => false

/-- Whether a step is a reshape. -/
def isReshape : Step → Bool
  | reshape _ => true
  | _ => false

/-- Two steps in a row are apart when they are not both reshapes. -/
def Apart (a b : Step) : Prop :=
  (a.isReshape && b.isReshape) = false

/-- The shape after some steps, absent when one of them permutes an axis that is not there. -/
def follow? (shape : Shape) (steps : List Step) : Option Shape :=
  steps.foldlM outputShape? shape

lemma Apart.symm {a b : Step} (h : a.Apart b) : b.Apart a := by
  rw [Apart, Bool.and_comm]
  exact h

lemma follow?_concat {shape s : Shape} {steps : List Step} (h : follow? shape steps = some s)
    (step : Step) : follow? shape (steps ++ [step]) = step.outputShape? s := by
  rw [follow?, List.foldlM_append]
  show (follow? shape steps >>= fun s => [step].foldlM outputShape? s) = _
  rw [h]
  show (step.outputShape? s >>= pure) = _
  rw [bind_pure]

end Step

/-- Each of the steps changes something on the shape that the steps before it lead to, unless it is
the identity. -/
def Step.Busy (shape : Shape) (steps : List Step) : Prop :=
  ∀ i step, steps[i]? = some step →
    ∃ s, follow? shape (steps.take i) = some s ∧ (step.isIdle s = true → step = .identity)

/-! ## Drafts are tidy -/

/-- Recorded steps, the latest first, lead from one shape to another. Each knows the shape that it
is applied to, and changes something there. -/
inductive RecordedStep.Lead (start : Shape) : List RecordedStep → Shape → Prop where
  | nil : Lead start [] start
  | cons {r rest target} : Lead start rest r.before → r.step.isIdle r.before = false →
    r.step.outputShape? r.before = some target → Lead start (r :: rest) target

/-- The steps of a draft each change something, and no two reshapes follow each other. -/
structure Draft.Tidy (start : Shape) (d : Draft) : Prop where
  lead : RecordedStep.Lead start d.recorded d.shape
  apart : d.recorded.IsChain fun r s => r.step.Apart s.step

namespace RecordedStep.Lead

variable {start target : Shape} {recorded : List RecordedStep}

lemma follow (h : Lead start recorded target) :
    Step.follow? start (recorded.map RecordedStep.step).reverse = some target := by
  induction h with
  | nil => rfl
  | @cons r rest target _ _ next ih =>
    rw [List.map_cons, List.reverse_cons, Step.follow?_concat ih]
    exact next

/-- Each step is applied to the shape that the steps before it lead to, and changes something. -/
lemma place (h : Lead start recorded target) {i : Nat} {r : RecordedStep}
    (found : recorded.reverse[i]? = some r) :
    Step.follow? start ((recorded.map RecordedStep.step).reverse.take i) = some r.before
      ∧ r.step.isIdle r.before = false := by
  induction h with
  | nil => cases found
  | @cons latest rest target lead busy _ ih =>
    have len : (rest.map RecordedStep.step).reverse.length = rest.reverse.length := by
      rw [List.length_reverse, List.length_map, List.length_reverse]
    rw [List.reverse_cons] at found
    rw [List.map_cons, List.reverse_cons]
    obtain before | rfl | after := Nat.lt_trichotomy i rest.reverse.length
    · rw [List.getElem?_append_left before] at found
      rw [List.take_append_of_le_length (before.le.trans_eq len.symm)]
      exact ih found
    · rw [List.getElem?_concat_length] at found
      obtain rfl := Option.some.inj found
      rw [List.take_left' len]
      exact ⟨lead.follow, busy⟩
    · rw [List.getElem?_eq_none (by rw [List.length_append]; exact after)] at found
      cases found

end RecordedStep.Lead

namespace Draft

variable {shape : Shape} {d d' : Draft} {axes : List Nat}

/-- A permutation is recorded unless it is in order. -/
lemma permute_eq_ok : d.permute axes = .ok d' ↔ if inOrder axes then d' = d
    else ∃ s, d.shape.pick? axes = some s
      ∧ d' = ⟨⟨d.shape, .permute axes⟩ :: d.recorded, s⟩ := by
  unfold permute
  split
  · exact ⟨fun h => (Except.ok.inj h).symm, fun h => congrArg _ h.symm⟩
  · rw [bind_eq_ok]
    refine exists_congr fun s => ?_
    rw [pure_eq_ok, eq_comm (a := d')]
    refine and_congr_left fun _ => ?_
    cases d.shape.pick? axes with
    | none => exact ⟨nofun, nofun⟩
    | some t => exact ⟨fun h => congrArg _ (Except.ok.inj h), fun h => by cases h; rfl⟩

/-- Reshaping away and back leaves nothing to do. -/
lemma reshape_back (shape target : Shape) :
    (((Draft.start shape).reshape target).reshape shape).recorded = [] := by
  by_cases same : shape = target
  · simp [reshape, Draft.start, same]
  · simp [reshape, Draft.start, same, Ne.symm same]

/-- A reshape takes the place of a reshape, or adds one step that does not move. -/
lemma reshape_counts (d : Draft) (target : Shape) :
    (d.reshape target).steps.length ≤ d.steps.length + 1
      ∧ (d.reshape target).steps.countP Step.moves = d.steps.countP Step.moves := by
  simp only [steps, List.length_reverse, List.length_map, List.countP_reverse]
  unfold Draft.reshape
  split
  · exact ⟨Nat.le_succ _, rfl⟩
  · split
    · next before latest rest e =>
      rw [e]
      split
      · exact ⟨by simp only [List.length_cons]; omega, rfl⟩
      · exact ⟨Nat.le_succ _, rfl⟩
    · exact ⟨le_rfl, rfl⟩

lemma permute_counts (h : d.permute axes = .ok d') :
    d'.steps.length ≤ d.steps.length + 1
      ∧ d'.steps.countP Step.moves = d.steps.countP Step.moves + if inOrder axes then 0 else 1 := by
  rw [permute_eq_ok] at h
  split at h
  · next order =>
    rw [h, if_pos order]
    exact ⟨Nat.le_succ _, rfl⟩
  · next moved =>
    obtain ⟨s, -, rfl⟩ := h
    rw [if_neg moved, steps, List.map_cons, List.reverse_cons, List.length_append,
      List.countP_append]
    exact ⟨le_rfl, rfl⟩

namespace Tidy

lemma start (shape : Shape) : (Draft.start shape).Tidy shape :=
  ⟨.nil, .nil⟩

/-- Whatever the target of a reshape is, a tidy draft stays tidy. -/
lemma reshape (h : d.Tidy shape) (target : Shape) : (d.reshape target).Tidy shape := by
  obtain ⟨lead, apart⟩ := h
  unfold Draft.reshape
  split
  · exact ⟨lead, apart⟩
  · next differs =>
    split
    · next before latest rest e =>
      rw [e] at lead apart
      rw [List.isChain_cons] at apart
      obtain ⟨first, apart⟩ := apart
      cases lead with
      | cons lead busy next =>
        split
        · next back => exact ⟨back ▸ lead, apart⟩
        · next differs => exact ⟨.cons lead (beq_false_of_ne (Ne.symm differs)) rfl,
            List.isChain_cons.mpr ⟨first, apart⟩⟩
    · next moved =>
      refine ⟨.cons lead (beq_false_of_ne (Ne.symm differs)) rfl,
        List.isChain_cons.mpr ⟨fun r hr => ?_, apart⟩⟩
      -- the latest step is no reshape, or the new one would have taken its place
      obtain ⟨rest, e⟩ := List.head?_eq_some_iff.mp hr
      obtain ⟨before, step⟩ := r
      cases step with
      | reshape latest => exact absurd e (moved before latest rest)
      | _ => rfl

/-- A permutation that is in order is left out, and any other moves axes. -/
lemma permute (h : d.Tidy shape) (permuted : d.permute axes = .ok d') : d'.Tidy shape := by
  rw [permute_eq_ok] at permuted
  split at permuted
  · rw [permuted]
    exact h
  · next moved =>
    obtain ⟨s, picked, rfl⟩ := permuted
    refine ⟨.cons h.lead (Bool.eq_false_of_not_eq_true moved) picked,
      List.isChain_cons.mpr ⟨fun r _ => rfl, h.apart⟩⟩

lemma follow (h : d.Tidy shape) : Step.follow? shape d.steps = some d.shape :=
  h.lead.follow

lemma busy (h : d.Tidy shape) : Step.Busy shape d.steps := by
  intro i step found
  rw [steps, ← List.map_reverse, List.getElem?_map, Option.map_eq_some_iff] at found
  obtain ⟨r, found, rfl⟩ := found
  obtain ⟨follow, busy⟩ := h.lead.place found
  exact ⟨r.before, follow, fun idle => Bool.noConfusion (busy.symm.trans idle)⟩

lemma identity_notMem (h : d.Tidy shape) : .identity ∉ d.steps := by
  intro listed
  rw [steps, ← List.map_reverse, List.mem_map] at listed
  obtain ⟨r, listed, e⟩ := listed
  obtain ⟨i, found⟩ := List.getElem?_of_mem listed
  have busy := (h.lead.place found).2
  rw [e] at busy
  cases busy

lemma isChain_steps (h : d.Tidy shape) : d.steps.IsChain Step.Apart := by
  rw [steps, List.isChain_reverse, List.isChain_map]
  exact h.apart.imp fun _ _ apart => apart.symm

end Tidy

/-- A reshape, a permutation and a reshape leave at most three steps, of which at most one moves
axes, and none at all exactly when nothing is moved and the last shape is the first. -/
lemma counts_of_requests {sizes target : Shape}
    (permuted : ((Draft.start shape).reshape sizes).permute axes = .ok d) :
    (d.reshape target).steps.length ≤ 3 ∧ (d.reshape target).steps.countP Step.moves ≤ 1
      ∧ ((d.reshape target).steps = [] ↔ inOrder axes = true ∧ target = shape) := by
  obtain ⟨split_length, split_moves⟩ := (Draft.start shape).reshape_counts sizes
  obtain ⟨permute_length, permute_moves⟩ := permute_counts permuted
  obtain ⟨merge_length, merge_moves⟩ := d.reshape_counts target
  rw [permute_moves, split_moves] at merge_moves
  have start_length : (Draft.start shape).steps.length = 0 := rfl
  have start_moves : (Draft.start shape).steps.countP Step.moves = 0 := rfl
  refine ⟨by omega, ?_, fun empty => ⟨?_, ?_⟩, ?_⟩
  · rw [merge_moves, start_moves]
    split <;> omega
  · by_contra moved
    rw [empty, start_moves, if_neg moved] at merge_moves
    cases merge_moves
  · have follow := (((Tidy.start shape).reshape sizes).permute permuted).reshape target |>.follow
    rw [empty, shape_reshape] at follow
    exact (Option.some.inj follow).symm
  · rintro ⟨order, rfl⟩
    rw [permute_eq_ok, if_pos order] at permuted
    rw [permuted, steps, reshape_back]
    rfl

end Draft

/-! ## Rearrangements -/

/-- Positions of axes are in order exactly when the axes are. -/
lemma inOrder_positions {β : Type} [DecidableEq β] {axes targets : List β} (nodup : axes.Nodup)
    (perm : targets.Perm axes) :
    inOrder (targets.map (axes.idxOf ·)) = true ↔ targets = axes := by
  rw [inOrder, beq_iff_eq, List.length_map]
  constructor
  · intro order
    apply List.ext_getElem perm.length_eq
    intro k hk hk'
    have place : axes.idxOf targets[k] = k := by
      have e := congrArg (·[k]?) order
      simpa [hk] using e
    have listed : targets[k] ∈ axes := perm.subset (targets.getElem_mem hk)
    have found := List.getElem_idxOf (List.idxOf_lt_length_iff.mpr listed)
    rw [← found]
    congr 1
  · rintro rfl
    exact map_idxOf_self nodup

namespace Shortcut

variable {positions : List Nat}

lemma step_eq_identity : (ofPermutation positions).step = .identity ↔ inOrder positions = true := by
  unfold ofPermutation
  split
  · next order => exact ⟨fun _ => order, fun _ => rfl⟩
  · next moved =>
    refine ⟨fun h => ?_, fun order => absurd order moved⟩
    split at h
    · cases h
    · cases h

/-- The identity is the only shortcut that changes nothing. -/
lemma eq_identity_of_isIdle {shape : Shape}
    (idle : (ofPermutation positions).step.isIdle shape = true) :
    (ofPermutation positions).step = .identity := by
  rw [step_eq_identity]
  by_contra moved
  rw [ofPermutation, if_neg moved] at idle
  split at idle
  · cases idle
  · exact moved idle

end Shortcut

/-- A step that a tensor takes leads to the shape of the result. -/
lemma Tensor.outputShape?_of_takeStep {α : Type} [Scalar α] {t u : Tensor α} {step : Step}
    (h : (Tensor.backend α).takeStep t step = .ok u) :
    step.outputShape? t.shape = some u.shape := by
  cases step with
  | identity =>
    obtain rfl := Except.ok.inj h
    rfl
  | transpose =>
    have h : t.transpose = .ok u := h
    unfold transpose at h
    split at h
    · next rank =>
      obtain ⟨-, shape⟩ := of_permute h
      obtain ⟨a, c, e⟩ := List.length_eq_two.mp rank
      rw [e] at shape ⊢
      exact shape
    · cases h
  | permute axes => exact (of_permute h).2
  | reshape target => exact congrArg some (reshape_eq_ok.mp h).1.symm

namespace Plan

/-- The normal form of the steps that rearrange a tensor of one shape into another. -/
structure Normal (shape : Shape) (steps : List Step) (target : Shape) : Prop where
  nonempty : steps ≠ []
  short : steps.length ≤ 3
  /-- The identity is not one of several steps. -/
  alone : .identity ∈ steps → steps = [.identity]
  follow : Step.follow? shape steps = some target
  busy : Step.Busy shape steps
  apart : steps.IsChain Step.Apart
  once : steps.countP Step.moves ≤ 1

variable {p : Pattern} {r : Resolution} {shape target : Shape} {given : List String}
  {steps : List Step}

/-- A step that leads to a shape is in normal form, if it is the identity or changes something. -/
lemma Normal.single {step : Step} (next : step.outputShape? shape = some target)
    (busy : step.isIdle shape = true → step = .identity) : Normal shape [step] target where
  nonempty := List.cons_ne_nil _ _
  short := Nat.le_add_left _ _
  alone h := by rw [List.mem_singleton.mp h]
  follow := by
    show (step.outputShape? shape >>= pure) = some target
    rw [bind_pure, next]
  busy i other found := by
    cases i with
    | zero =>
      obtain rfl := Option.some.inj found
      exact ⟨shape, rfl, busy⟩
    | succ i => cases found
  apart := .singleton _
  once := (List.countP_le_length).trans le_rfl

/-- The general steps are those of a tidy draft. There are none exactly when the axes stay in order
and the shape stays the same. -/
lemma generalSteps_normal (suits : r.Suits .rearranging p shape given)
    (h : generalSteps p shape r = .ok steps) :
    (steps ≠ [] → .identity ∉ steps ∧ Normal shape steps r.outputShape)
      ∧ (steps = [] ↔ r.axes p.output = r.axes p.input ∧ r.outputShape = shape) := by
  have perm : (r.axes p.output).Perm (r.axes p.input) := suits.valid.perm_axes _
  have nodup : (r.axes p.input).Nodup := suits.valid.nodup_axes .input _
  rw [generalSteps_eq suits, bind_eq_ok] at h
  obtain ⟨d, permuted, h⟩ := h
  obtain rfl := pure_eq_ok.mp h
  have tidy := (((Draft.Tidy.start shape).reshape _).permute permuted).reshape r.outputShape
  have alone := tidy.identity_notMem
  have follow := tidy.follow
  rw [d.shape_reshape] at follow
  obtain ⟨length, moves, empty⟩ := Draft.counts_of_requests permuted
  rw [inOrder_positions nodup perm] at empty
  refine ⟨fun nonempty => ⟨alone, nonempty, length, fun h => absurd h alone, follow, tidy.busy,
    tidy.isChain_steps, moves⟩, empty⟩

/-- A shortcut is one step, which is the identity exactly when the axes stay in order. -/
lemma shortcut_normal (suits : r.Suits .rearranging p shape given) {shortcut : Shortcut}
    (found : Shortcut.ofPattern? p = some shortcut) :
    Normal shape [shortcut.step] r.outputShape ∧ (shortcut.step = .identity ↔
      r.axes p.output = r.axes p.input ∧ r.outputShape = shape) := by
  obtain ⟨positions, permuted, rfl⟩ := Option.map_eq_some_iff.mp found
  obtain ⟨⟨input, output⟩, rfl⟩ := (Pattern.permutation?_eq_some suits.valid).mp permuted
  have suits' : r.Suits .rearranging p (placeholder shape).shape given := suits
  obtain ⟨y, made, shows⟩ := shortcut_makes suits' suits'.shows permuted
  obtain ⟨z, taken, last⟩ := bind_eq_ok.mp (Shortcut.takeSteps_step made)
  obtain rfl : z = y := pure_eq_ok.mp last
  have next := Tensor.outputShape?_of_takeStep taken
  rw [shows.1, ← suits.output] at next
  refine ⟨.single next Shortcut.eq_identity_of_isIdle, ?_⟩
  obtain ⟨axes, extents, -⟩ :=
    Terms.of_plainNames? (Terms.plainNames?_eq_some.mpr ⟨input, rfl⟩) r.covered.length
  obtain ⟨axes', extents', -⟩ :=
    Terms.of_plainNames? (Terms.plainNames?_eq_some.mpr ⟨output, rfl⟩) r.covered.length
  have nodup : p.input.names.Nodup := suits.valid.distinct .input
  rw [Shortcut.step_eq_identity, inOrder_positions nodup suits.valid.perm_names, Resolution.axes,
    Resolution.axes, axes, axes', List.map_inj_right fun _ _ => Axis.named.inj]
  refine ⟨fun same => ⟨same, ?_⟩, And.left⟩
  rw [suits.output, suits.input, extents, extents', same]

/-- The steps of a rearrangement are in normal form, and they are the identity alone exactly when
the axes stay in order and the shape stays the same. -/
lemma rearrangeSteps_normal (suits : r.Suits .rearranging p shape given)
    (h : rearrangeSteps p shape r = .ok steps) :
    Normal shape steps r.outputShape
      ∧ (steps = [.identity] ↔ r.axes p.output = r.axes p.input ∧ r.outputShape = shape) := by
  unfold rearrangeSteps at h
  split at h
  · next shortcut found =>
    obtain rfl := Except.ok.inj h
    obtain ⟨normal, identity⟩ := shortcut_normal suits found
    exact ⟨normal, List.singleton_inj.trans identity⟩
  · obtain ⟨general, planned, h⟩ := bind_eq_ok.mp h
    obtain ⟨normal, empty⟩ := generalSteps_normal suits planned
    rw [pure_eq_ok] at h
    split at h
    · next none =>
      subst h
      have same := empty.mp (List.isEmpty_iff.mp none)
      exact ⟨.single (congrArg some same.2.symm) fun _ => rfl, fun _ => same, fun _ => rfl⟩
    · next some =>
      subst h
      rw [List.isEmpty_iff] at some
      obtain ⟨alone, normal⟩ := normal some
      refine ⟨normal, fun e => ?_, fun same => absurd (empty.mpr same) some⟩
      rw [e] at alone
      exact absurd (List.mem_singleton_self _) alone

end Plan

namespace Engine

variable {e : Engine} {text : String} {shape : Shape} {explicit : SizeList} {plan : Plan.Rearrange}

/-- A planned rearrangement is in normal form. It is the identity alone exactly when the axes of the
output are in the order of the input and the shape stays the same, as they are and it does when both
sides are equal. -/
theorem planned_rearrange_normal (reachable : e.Reachable)
    (planned : (e.planRearrange text shape explicit).1 = .ok plan) :
    ∃ p, Pattern.parse text = .ok p
      ∧ Plan.Normal shape plan.steps plan.outputShape
      ∧ (plan.steps = [.identity] ↔
        plan.resolution.axes p.output = plan.resolution.axes p.input ∧ plan.outputShape = shape)
      ∧ (p.input.same p.output = true → plan.steps = [.identity]) := by
  have prepared : (e.prepare .rearranging text shape explicit).1
      >>= (fun q => Plan.Rearrange.ofPattern q.1 shape q.2) = .ok plan := planned
  obtain ⟨p, r, read, suits, made⟩ := reachable.of_planned prepared
  simp only [Plan.Rearrange.ofPattern, bind_eq_ok, pure_eq_ok] at made
  obtain ⟨steps, stepped, rfl⟩ := made
  obtain ⟨normal, identity⟩ := Plan.rearrangeSteps_normal suits stepped
  refine ⟨p, read, normal, identity, fun same => identity.mpr ⟨?_, ?_⟩⟩
  · exact (Terms.axes_of_same same).symm
  · rw [suits.output, suits.input]
    exact (Terms.extents_of_same same).symm

/-- A group is split, its parts are swapped and merged again, which takes all three steps. -/
theorem planned_rearrange_normal_grouped :
    ∃ plan, ((Engine.new .standard).planRearrange "b (h w) c -> b c (w h)" [2, 12, 5] [("h", 3)]).1
        = .ok plan
      ∧ plan.steps = [.reshape [2, 3, 4, 5], .permute [0, 3, 2, 1], .reshape [2, 5, 12]]
      ∧ Plan.Normal [2, 12, 5] plan.steps [2, 5, 12] := by
  have shaped : ((Engine.new .standard).planRearrange "b (h w) c -> b c (w h)" [2, 12, 5]
      [("h", 3)]).1.map (fun plan => (plan.steps, plan.outputShape))
      = .ok ([.reshape [2, 3, 4, 5], .permute [0, 3, 2, 1], .reshape [2, 5, 12]], [2, 5, 12]) := by
    decide +kernel
  obtain ⟨plan, planned, e⟩ := map_eq_ok.mp shaped
  obtain ⟨steps, shape⟩ := Prod.mk.inj e
  obtain ⟨p, -, normal, -⟩ := planned_rearrange_normal (.new .standard) planned
  exact ⟨plan, planned, steps, shape ▸ normal⟩

end Engine

end AxisNotation
