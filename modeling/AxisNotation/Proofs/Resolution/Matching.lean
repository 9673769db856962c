import AxisNotation.Proofs.Resolution.Binding

/-!
# Matching terms with dimensions

Matching the terms of a side binds their names and nothing else, to sizes that face the dimensions
and agree with the given ones (`Resolution.bindTerms_sound`). It misses no such sizes when at most
one name of each group has no given size (`Resolution.bindTerms_complete`). As long as the terms
take as many dimensions as there are, no position is out of range (`Resolution.settles_bindTerms`).
-/

namespace AxisNotation

/-- The terms take a number of dimensions, where an ellipsis takes `width` of them. -/
def Terms.Takes (width : Nat) (ts : Terms) (rank : Nat) : Prop :=
  rank = Terms.dimensions ts + if Terms.isOpen ts then width else 0

variable {given m : Sizes} {b b' : Binding} {pattern : String} {shape : Shape}
  {position width : Nat} {t : Term} {ts : Terms}

lemma Terms.Takes.uncons {rank : Nat} (single : t.isEllipsis = false)
    (h : Terms.Takes width (t :: ts) rank) :
    ∃ rest, rank = rest + 1 ∧ Terms.Takes width ts rest := by
  refine ⟨_, ?_, rfl⟩
  rw [Terms.Takes, Terms.dimensions_cons single, Terms.isOpen_cons single] at h
  rw [h, Nat.add_right_comm]

/-- An ellipsis that is the only one takes `width` dimensions from the others. -/
lemma Terms.Takes.of_ellipsis {s : Span} {rank : Nat}
    (h : Terms.Takes width (.ellipsis s :: ts) rank) (closed : Terms.isOpen ts = false) :
    width ≤ rank ∧ Terms.Takes width ts (rank - width) := by
  rw [Terms.Takes, Terms.dimensions_ellipsis] at h
  have h : rank = Terms.dimensions ts + width := h
  rw [Terms.Takes, closed]
  exact ⟨h ▸ Nat.le_add_left _ _, by rw [h, Nat.add_sub_cancel]; rfl⟩

lemma Term.exists_of_isEllipsis (h : t.isEllipsis = true) : ∃ s, t = .ellipsis s := by
  cases t with
  | ellipsis s => exact ⟨s, rfl⟩
  | _ => cases h

lemma Terms.one_of_cons (one : (t :: ts).countP Term.isEllipsis ≤ 1) :
    ts.countP Term.isEllipsis ≤ 1 :=
  Nat.le_trans (List.sublist_cons_self t ts).countP_le one

/-- Behind an ellipsis that is the only one there is no other. -/
lemma Terms.isOpen_of_one {s : Span} (one : (Term.ellipsis s :: ts).countP Term.isEllipsis ≤ 1) :
    Terms.isOpen ts = false := by
  rw [List.countP_cons_of_pos rfl] at one
  exact Terms.isOpen_eq_false.mpr (Nat.le_zero.mp (Nat.le_of_succ_le_succ one))

/-- An ellipsis takes as many dimensions as its run has, since the other terms take one each. -/
lemma Terms.Faces.of_ellipsis {s : Span} {ds run : Shape}
    (h : Terms.Faces m run (.ellipsis s :: ts) ds)
    (one : (Term.ellipsis s :: ts).countP Term.isEllipsis ≤ 1)
    (takes : Terms.Takes width (.ellipsis s :: ts) ds.length) :
    width ≤ ds.length ∧ Terms.Faces m run ts (ds.drop width)
      ∧ Terms.Takes width ts (ds.drop width).length := by
  have closed := Terms.isOpen_of_one one
  obtain ⟨room, takes⟩ := takes.of_ellipsis closed
  cases h with
  | @ellipsis _ _ ds faces =>
    have rest : ds.length = Terms.dimensions ts := by
      rw [faces.length_eq (Terms.one_of_cons one), closed]
      rfl
    have width_eq : width = run.length := by
      have takes' : (run ++ ds).length - width = Terms.dimensions ts := by
        rw [Terms.Takes, closed] at takes
        exact takes
      rw [List.length_append, ← rest] at takes'
      rw [List.length_append] at room
      omega
    subst width_eq
    refine ⟨room, ?_, ?_⟩
    · rwa [List.drop_left]
    · rwa [List.length_drop]

lemma Terms.Determined.cons (h : Terms.Determined given [t]) (h' : Terms.Determined given ts) :
    Terms.Determined given (t :: ts) := by
  intro ms s mem
  cases mem with
  | head => exact h ms s List.mem_cons_self
  | tail _ mem => exact h' ms s mem

lemma Terms.Determined.uncons (h : Terms.Determined given (t :: ts)) :
    Terms.Determined given [t] ∧ Terms.Determined given ts :=
  ⟨fun ms s mem => h ms s (List.mem_singleton.mp mem ▸ List.mem_cons_self),
    fun ms s mem => h ms s (List.mem_cons_of_mem t mem)⟩

namespace Resolution

lemma bindTerms_cons (single : t.isEllipsis = false) (d : Nat) (ds : Shape) :
    bindTerms pattern given shape width (t :: ts) position (d :: ds) b
      = (bindTerm pattern given shape position d b t
          >>= bindTerms pattern given shape width ts (position + 1) ds) := by
  cases t with
  | ellipsis s => cases single
  | _ => rfl

lemma bindTerm_sound {d : Nat} (single : t.isEllipsis = false)
    (fresh : ∀ n ∈ t.names, b.sizes[n]? = none)
    (h : bindTerm pattern given shape position d b t = .ok b') :
    Binding.Extends given b b' t.names ∧ b'.covered = b.covered ∧ Terms.Determined given [t]
      ∧ ∀ run, Terms.Faces b'.sizes run [t] [d] := by
  cases t with
  | name n s =>
    obtain ⟨agrees, rfl⟩ := (bindName_eq_ok (fresh n List.mem_cons_self)).mp h
    have bound : (b.set n d).sizes[n]? = some d := by rw [Binding.getElem?_set, if_pos rfl]
    refine ⟨⟨fun x hx => ?_, fun x hx => ?_, fun x hx k hk => ?_⟩, rfl, by simp [Terms.Determined],
      fun run => .name bound .nil⟩
    · rw [Binding.getElem?_set, if_neg fun e => hx (List.mem_singleton.mpr e)]
    · obtain rfl := List.mem_singleton.mp hx
      exact Sizes.mem_iff.mpr ⟨d, bound⟩
    · obtain rfl := List.mem_singleton.mp hx
      rw [bound, agrees k hk]
  | group ms s =>
    obtain ⟨ext, covered, rfl, determined⟩ := bindGroup_sound fresh h
    refine ⟨ext, covered, ?_, fun run => .group .nil⟩
    intro ms' s' mem
    cases List.mem_singleton.mp mem
    exact determined
  | ellipsis s => cases single
  | unit s =>
    simp only [bindTerm, bind_eq_ok, Outcome.require_eq_ok, pure_eq_ok] at h
    obtain ⟨_, rfl, rfl⟩ := h
    exact ⟨.nil, rfl, by simp [Terms.Determined], fun run => .unit .nil⟩

lemma bindTerm_complete {d : Nat} {run : Shape} (fresh : ∀ n ∈ t.names, b.sizes[n]? = none)
    (positive : ∀ (n : String) (k : Nat), given[n]? = some k → k ≠ 0)
    (agrees : m.Agrees given t.names) (bound : ∀ n ∈ t.names, n ∈ m)
    (determined : Terms.Determined given [t]) (single : t.isEllipsis = false)
    (faces : Terms.Faces m run [t] [d]) :
    ∃ b', bindTerm pattern given shape position d b t = .ok b'
      ∧ ∀ n ∈ t.names, b'.sizes[n]? = m[n]? := by
  cases t with
  | name n s =>
    have hn : m[n]? = some d := by
      cases faces
      assumption
    have known : ∀ k, given[n]? = some k → k = d := by
      intro k hk
      have e := agrees n List.mem_cons_self k hk
      rw [hn] at e
      exact (Option.some.inj e).symm
    refine ⟨_, (bindName_eq_ok (fresh n List.mem_cons_self)).mpr ⟨known, rfl⟩, ?_⟩
    intro x hx
    obtain rfl := List.mem_singleton.mp hx
    rw [Binding.getElem?_set, if_pos rfl, hn]
  | group ms s =>
    obtain rfl : d = m.product (Terms.names ms) := by
      cases faces
      rfl
    obtain ⟨unknown, k, hk⟩ := determined ms s List.mem_cons_self
    exact bindGroup_complete fresh positive agrees bound unknown hk
  | ellipsis s => cases single
  | unit s =>
    obtain rfl : d = 1 := by
      cases faces
      rfl
    exact ⟨b, rfl, nofun⟩

lemma settles_bindTerm (d : Nat) (b : Binding) (t : Term) :
    (bindTerm pattern given shape position d b t).Settles := by
  cases t with
  | name n s =>
    refine (Outcome.settles_agree _ _ _).bind fun _ _ => ?_
    exact (Outcome.settles_agree _ _ _).bind fun _ _ => nofun
  | group ms s =>
    refine (Outcome.settles_orReject _ _).bind fun known _ => ?_
    split
    · exact (Outcome.settles_require _ _).bind fun _ _ => nofun
    · exact (Outcome.settles_require _ _).bind fun _ _ => nofun
    · exact nofun
  | ellipsis s => exact nofun
  | unit s => exact (Outcome.settles_require _ _).bind fun _ _ => nofun

/-- Terms that are matched with dimensions face them under the sizes that are bound. -/
theorem bindTerms_sound {ds : Shape} (nodup : (Terms.names ts).Nodup)
    (fresh : ∀ n ∈ Terms.names ts, b.sizes[n]? = none) (one : ts.countP Term.isEllipsis ≤ 1)
    (takes : Terms.Takes width ts ds.length)
    (h : bindTerms pattern given shape width ts position ds b = .ok b') :
    Binding.Extends given b b' (Terms.names ts) ∧ Terms.Determined given ts
      ∧ (Terms.isOpen ts = false → b'.covered = b.covered)
      ∧ Terms.Faces b'.sizes b'.covered ts ds := by
  induction ts generalizing b position ds with
  | nil =>
    cases h
    obtain rfl : ds = [] := List.length_eq_zero_iff.mp takes
    exact ⟨.nil, by simp [Terms.Determined], fun _ => rfl, .nil⟩
  | cons t ts ih =>
    obtain ⟨nodup_t, nodup_ts, disjoint⟩ := List.nodup_append.mp nodup
    have disjoint (n : String) (hn : n ∈ t.names) : n ∉ Terms.names ts :=
      fun hn' => disjoint n hn n hn' rfl
    obtain ⟨fresh_t, fresh_ts⟩ := List.forall_mem_append.mp fresh
    cases single : t.isEllipsis with
    | true =>
      obtain ⟨s, rfl⟩ := Term.exists_of_isEllipsis single
      have closed := Terms.isOpen_of_one one
      obtain ⟨room, takes⟩ := takes.of_ellipsis closed
      rw [bindTerms, if_pos room] at h
      rw [← List.length_drop] at takes
      obtain ⟨ext, determined, covered, faces⟩ := ih (b := ⟨b.sizes, ds.take width⟩) nodup_ts
        fresh_ts (Terms.one_of_cons one) takes h
      -- no ellipsis follows, so the run that is captured here stays
      have run : b'.covered = ds.take width := covered closed
      rw [run] at faces
      refine ⟨⟨ext.others, ext.bound, ext.agrees⟩, .cons (by simp [Terms.Determined]) determined,
        nofun, ?_⟩
      have whole := Terms.Faces.ellipsis (s := s) faces
      rwa [List.take_append_drop, ← run] at whole
    | false =>
      obtain ⟨rest, len, takes⟩ := takes.uncons single
      obtain ⟨d, ds, rfl⟩ := List.exists_cons_of_length_eq_add_one len
      obtain rfl : ds.length = rest := Nat.succ.inj len
      rw [bindTerms_cons single, bind_eq_ok] at h
      obtain ⟨c, first, h⟩ := h
      obtain ⟨ext, covered, determined, face⟩ := bindTerm_sound single fresh_t first
      obtain ⟨ext', determined', covered', faces⟩ := ih nodup_ts
        (fun n hn => (ext.others n fun hn' => disjoint n hn' hn).trans (fresh_ts n hn))
        (Terms.one_of_cons one) takes h
      refine ⟨ext.append ext' disjoint, determined.cons determined', fun closed => ?_, ?_⟩
      · rw [Terms.isOpen_cons single] at closed
        rw [covered' closed, covered]
      · -- the names of the other terms are different, so the first one still faces its dimension
        have first : Terms.Faces b'.sizes b'.covered [t] [d] := by
          refine (face b'.covered).congr fun n hn => ?_
          rw [Terms.names, Terms.names, List.append_nil] at hn
          exact (ext'.others n (disjoint n hn)).symm
        exact first.append faces

/-- Terms that face dimensions under some sizes are matched with them, and bound to these sizes. -/
theorem bindTerms_complete {ds : Shape} {run : Shape} (nodup : (Terms.names ts).Nodup)
    (fresh : ∀ n ∈ Terms.names ts, b.sizes[n]? = none) (one : ts.countP Term.isEllipsis ≤ 1)
    (positive : ∀ (n : String) (k : Nat), given[n]? = some k → k ≠ 0)
    (agrees : m.Agrees given (Terms.names ts)) (bound : ∀ n ∈ Terms.names ts, n ∈ m)
    (determined : Terms.Determined given ts) (faces : Terms.Faces m run ts ds)
    (takes : Terms.Takes width ts ds.length) :
    ∃ b', bindTerms pattern given shape width ts position ds b = .ok b'
      ∧ ∀ n ∈ Terms.names ts, b'.sizes[n]? = m[n]? := by
  induction ts generalizing b position ds with
  | nil => exact ⟨b, rfl, nofun⟩
  | cons t ts ih =>
    obtain ⟨nodup_t, nodup_ts, disjoint⟩ := List.nodup_append.mp nodup
    obtain ⟨fresh_t, fresh_ts⟩ := List.forall_mem_append.mp fresh
    obtain ⟨agrees_t, agrees_ts⟩ := List.forall_mem_append.mp agrees
    obtain ⟨bound_t, bound_ts⟩ := List.forall_mem_append.mp bound
    obtain ⟨determined_t, determined_ts⟩ := determined.uncons
    cases single : t.isEllipsis with
    | true =>
      obtain ⟨s, rfl⟩ := Term.exists_of_isEllipsis single
      obtain ⟨room, faces, takes⟩ := faces.of_ellipsis one takes
      rw [bindTerms, if_pos room]
      exact ih nodup_ts fresh_ts (Terms.one_of_cons one) agrees_ts bound_ts determined_ts faces
        takes
    | false =>
      obtain ⟨d, ds, rfl, face, faces⟩ := faces.uncons single
      obtain ⟨rest, len, takes⟩ := takes.uncons single
      obtain rfl : ds.length = rest := Nat.succ.inj len
      obtain ⟨c, first, sizes⟩ := bindTerm_complete fresh_t positive agrees_t bound_t determined_t
        single face
      obtain ⟨ext, -⟩ := bindTerm_sound single fresh_t first
      have fresh_ts (n : String) (hn : n ∈ Terms.names ts) : c.sizes[n]? = none :=
        (ext.others n fun hn' => disjoint n hn' n hn rfl).trans (fresh_ts n hn)
      obtain ⟨b', second, sizes'⟩ := @ih c (position + 1) ds nodup_ts fresh_ts
        (Terms.one_of_cons one) agrees_ts bound_ts determined_ts faces takes
      -- matching the other terms does not change the sizes of the first one's names
      obtain ⟨ext', -⟩ := bindTerms_sound nodup_ts fresh_ts (Terms.one_of_cons one) takes second
      refine ⟨b', by rw [bindTerms_cons single, bind_eq_ok]; exact ⟨c, first, second⟩, ?_⟩
      refine List.forall_mem_append.mpr ⟨fun n hn => ?_, sizes'⟩
      rw [ext'.others n fun hn' => disjoint n hn n hn' rfl, sizes n hn]

lemma settles_bindTerms {ds : Shape} (one : ts.countP Term.isEllipsis ≤ 1)
    (takes : Terms.Takes width ts ds.length) :
    (bindTerms pattern given shape width ts position ds b).Settles := by
  induction ts generalizing b position ds with
  | nil => exact nofun
  | cons t ts ih =>
    cases single : t.isEllipsis with
    | true =>
      obtain ⟨s, rfl⟩ := Term.exists_of_isEllipsis single
      have closed := Terms.isOpen_of_one one
      obtain ⟨room, takes⟩ := takes.of_ellipsis closed
      rw [bindTerms, if_pos room]
      refine ih (Terms.one_of_cons one) ?_
      rwa [List.length_drop]
    | false =>
      obtain ⟨rest, len, takes⟩ := takes.uncons single
      obtain ⟨d, ds, rfl⟩ := List.exists_cons_of_length_eq_add_one len
      obtain rfl : ds.length = rest := Nat.succ.inj len
      rw [bindTerms_cons single]
      exact (settles_bindTerm d b t).bind fun _ _ => ih (Terms.one_of_cons one) takes

/-! ## The input side -/

lemma takes_iff {rank : Nat} : Terms.Takes (rank - Terms.dimensions ts) ts rank
    ↔ rank = Terms.dimensions ts ∨ (Terms.isOpen ts = true ∧ Terms.dimensions ts ≤ rank) := by
  unfold Terms.Takes
  cases Terms.isOpen ts with
  | false => simp
  | true =>
    simp only [if_true, true_and]
    omega

/-- Terms that face a shape take all its dimensions. -/
lemma takes_of_faces {run : Shape} (faces : Terms.Faces m run ts shape)
    (one : ts.countP Term.isEllipsis ≤ 1) :
    Terms.Takes (shape.length - Terms.dimensions ts) ts shape.length := by
  have len := faces.length_eq one
  rw [takes_iff]
  cases isOpen : Terms.isOpen ts with
  | false =>
    rw [isOpen] at len
    exact .inl len
  | true => exact .inr ⟨rfl, len ▸ Nat.le_add_right _ _⟩

lemma bindInput_eq_ok {input : Terms} : bindInput pattern given input shape = .ok b'
    ↔ Terms.Takes (shape.length - input.dimensions) input shape.length
      ∧ bindTerms pattern given shape (shape.length - input.dimensions) input 0 shape .empty
        = .ok b' := by
  simp only [bindInput, bind_eq_ok, Outcome.require_eq_ok, takes_iff]
  constructor
  · rintro ⟨_, rank, h⟩
    exact ⟨rank, h⟩
  · rintro ⟨rank, h⟩
    exact ⟨(), rank, h⟩

lemma sizes_empty (n : String) : Binding.empty.sizes[n]? = none :=
  Std.ExtTreeMap.getElem?_empty

/-- When the input is matched, its terms face the dimensions, and an ellipsis the captured ones. -/
lemma bindInput_sound {input : Terms} (nodup : input.names.Nodup)
    (one : input.countP Term.isEllipsis ≤ 1) (h : bindInput pattern given input shape = .ok b') :
    Binding.Extends given .empty b' input.names ∧ Terms.Determined given input
      ∧ b'.covered = input.captured shape
      ∧ input.Faces b'.sizes (input.captured shape) shape := by
  obtain ⟨takes, h⟩ := bindInput_eq_ok.mp h
  obtain ⟨ext, determined, covered, faces⟩ :=
    bindTerms_sound nodup (fun n _ => sizes_empty n) one takes h
  refine ⟨ext, determined, ?_, faces.capture one⟩
  cases isOpen : input.isOpen with
  | false => rw [covered isOpen, Terms.captured, isOpen]; rfl
  | true => exact (faces.captured_eq one isOpen).symm

/-- The input is matched when some sizes fit it and its groups are determined. -/
lemma bindInput_complete {input : Terms} {run : Shape} (nodup : input.names.Nodup)
    (one : input.countP Term.isEllipsis ≤ 1)
    (positive : ∀ (n : String) (k : Nat), given[n]? = some k → k ≠ 0)
    (agrees : m.Agrees given input.names) (bound : ∀ n ∈ input.names, n ∈ m)
    (determined : Terms.Determined given input) (faces : input.Faces m run shape) :
    ∃ b', bindInput pattern given input shape = .ok b'
      ∧ ∀ n ∈ input.names, b'.sizes[n]? = m[n]? := by
  have takes := takes_of_faces faces one
  obtain ⟨b', h, sizes⟩ : ∃ b', bindTerms pattern given shape (shape.length - input.dimensions)
      input 0 shape .empty = .ok b' ∧ ∀ n ∈ input.names, b'.sizes[n]? = m[n]? :=
    bindTerms_complete nodup (fun n _ => sizes_empty n) one positive agrees bound determined faces
      takes
  exact ⟨b', bindInput_eq_ok.mpr ⟨takes, h⟩, sizes⟩

lemma settles_bindInput {input : Terms} (one : input.countP Term.isEllipsis ≤ 1) :
    (bindInput pattern given input shape).Settles := by
  refine (Outcome.settles_require _ _).bind fun _ rank => ?_
  exact settles_bindTerms one (takes_iff.mpr (Outcome.require_eq_ok.mp rank))

/-! ## Explicit sizes -/

variable {known : Sizes} {explicit : SizeList}

/-- Collected sizes are positive, and exactly those that were known or are listed. -/
lemma collect_sound (h : collect pattern known explicit = .ok given) :
    (∀ n size, (n, size) ∈ explicit → size ≠ 0)
      ∧ ∀ (n : String) (size : Nat),
        given[n]? = some size ↔ known[n]? = some size ∨ (n, size) ∈ explicit := by
  induction explicit generalizing known with
  | nil =>
    cases h
    exact ⟨nofun, fun n size => by simp⟩
  | cons entry rest ih =>
    obtain ⟨name, size⟩ := entry
    simp only [collect, bind_eq_ok, Outcome.require_eq_ok, Outcome.agree_eq_ok] at h
    obtain ⟨_, positive, _, agrees, h⟩ := h
    obtain ⟨positive', listed⟩ := ih h
    refine ⟨fun n k mem => ?_, fun n k => ?_⟩
    · cases mem with
      | head => exact positive
      | tail _ mem => exact positive' n k mem
    · rw [listed, Sizes.getElem?_insert, List.mem_cons, Prod.mk.injEq]
      split
      · next e =>
        subst e
        constructor
        · rintro (e | mem)
          · exact .inr (.inl ⟨rfl, (Option.some.inj e).symm⟩)
          · exact .inr (.inr mem)
        · rintro (e | ⟨-, e⟩ | mem)
          · exact .inl (congrArg some (agrees k e).symm)
          · exact .inl (congrArg some e.symm)
          · exact .inr mem
      · next e => simp [e]

/-- What is known after a size has been collected was known or is listed. -/
lemma listed_of_insert {name n : String} {size k : Nat} {rest : SizeList}
    (h : (known.insert name size)[n]? = some k ∨ (n, k) ∈ rest) :
    known[n]? = some k ∨ (n, k) ∈ (name, size) :: rest := by
  rw [Sizes.getElem?_insert] at h
  split at h
  · next e =>
    subst e
    cases h with
    | inl h => exact .inr (Option.some.inj h ▸ List.mem_cons_self)
    | inr h => exact .inr (List.mem_cons_of_mem _ h)
  · exact h.imp_right (List.mem_cons_of_mem _)

lemma collect_complete (positive : ∀ n size, (n, size) ∈ explicit → size ≠ 0)
    (one : ∀ (n : String) (k k' : Nat), known[n]? = some k ∨ (n, k) ∈ explicit →
      known[n]? = some k' ∨ (n, k') ∈ explicit → k = k') :
    ∃ given, collect pattern known explicit = .ok given := by
  induction explicit generalizing known with
  | nil => exact ⟨known, rfl⟩
  | cons entry rest ih =>
    obtain ⟨name, size⟩ := entry
    have first : ∀ k, known[name]? = some k → k = size := fun k hk =>
      one name k size (.inl hk) (.inr List.mem_cons_self)
    obtain ⟨given, h⟩ : ∃ given, collect pattern (known.insert name size) rest = .ok given :=
      ih (fun n k mem => positive n k (List.mem_cons_of_mem _ mem))
        fun n k k' h h' => one n k k' (listed_of_insert h) (listed_of_insert h')
    refine ⟨given, ?_⟩
    simp only [collect, bind_eq_ok, Outcome.require_eq_ok, Outcome.agree_eq_ok]
    exact ⟨(), positive name size List.mem_cons_self, (), first, h⟩

lemma settles_collect : (collect pattern known explicit).Settles := by
  induction explicit generalizing known with
  | nil => exact nofun
  | cons entry rest ih =>
    refine (Outcome.settles_require _ _).bind fun _ _ => ?_
    exact (Outcome.settles_agree _ _ _).bind fun _ _ => ih

end Resolution

end AxisNotation
