import AxisNotation.Proofs.Renaming.Terms

/-!
# Solving renamed patterns

Two runs of the solver, on a pattern and on one that resembles it, look up corresponding names at
each step, and what they have bound stays in correspondence (`Binding.Corresponds`). Each step has a
lemma that says so, from which it follows for the whole run. The shape of the output is multiplied
up from the innermost groups, so for this part the pattern is a renamed one: then both patterns are
resolved, to sizes that correspond, or both are rejected at the same stage
(`Resolution.alike_solve`).
-/

namespace AxisNotation

/-- Sizes by renamed names: a name has a size exactly when it replaces a name that has it. -/
def Sizes.Renames (f : String → String) (m m' : Sizes) : Prop :=
  ∀ (n' : String) (k : Nat), m'[n']? = some k ↔ ∃ n, f n = n' ∧ m[n]? = some k

/-- Resolutions that differ only in the names of their axes. -/
structure Resolution.Renames (f : String → String) (r r' : Resolution) : Prop where
  sizes : r.sizes.Renames f r'.sizes
  covered : r'.covered = r.covered
  outputShape : r'.outputShape = r.outputShape

/-- Sizes of names among `all` and sizes of the names that replace them. -/
structure Sizes.Corresponds (f : String → String) (all : List String) (m m' : Sizes) : Prop where
  same : ∀ n ∈ all, m'[f n]? = m[n]?
  inside : ∀ n ∈ m, n ∈ all
  renamed : ∀ n' ∈ m', n' ∈ all.map f

/-- Bindings of corresponding sizes. -/
structure Binding.Corresponds (f : String → String) (all : List String) (b b' : Binding) :
    Prop where
  sizes : b.sizes.Corresponds f all b'.sizes
  covered : b'.covered = b.covered

variable {f : String → String} {all : List String} {m m' given given' known known' : Sizes}
  {b b' : Binding} {pattern pattern' : String} {shape : Shape}

/-! ## Corresponding sizes -/

namespace Sizes.Corresponds

lemma empty : Corresponds f all (∅ : Sizes) (∅ : Sizes) where
  same n _ := by simp
  inside n hn := by simp at hn
  renamed n hn := by simp at hn

lemma mem_iff (h : m.Corresponds f all m') {n : String} (hn : n ∈ all) : f n ∈ m' ↔ n ∈ m := by
  rw [Sizes.mem_iff, Sizes.mem_iff, h.same n hn]

lemma insert (inj : Set.InjOn f {n | n ∈ all}) (h : m.Corresponds f all m') {n : String}
    (hn : n ∈ all) (k : Nat) : Corresponds f all (m.insert n k) (m'.insert (f n) k) where
  same x hx := by
    rw [getElem?_insert, getElem?_insert, h.same x hx]
    exact if_congr (inj.eq_iff hx hn) rfl rfl
  inside x hx := by
    rw [Sizes.mem_iff, getElem?_insert] at hx
    split at hx
    · next e => exact e ▸ hn
    · exact h.inside x (Sizes.mem_iff.mpr hx)
  renamed x hx := by
    rw [Sizes.mem_iff, getElem?_insert] at hx
    split at hx
    · next e => exact e ▸ List.mem_map_of_mem hn
    · exact h.renamed x (Sizes.mem_iff.mpr hx)

/-- Corresponding sizes are the same up to names. -/
lemma renames (h : m.Corresponds f all m') : m.Renames f m' := by
  intro n' k
  constructor
  · intro hk
    obtain ⟨n, hn, rfl⟩ := List.mem_map.mp (h.renamed n' (Sizes.mem_iff.mpr ⟨k, hk⟩))
    exact ⟨n, rfl, (h.same n hn).symm.trans hk⟩
  · rintro ⟨n, rfl, hk⟩
    exact (h.same n (h.inside n (Sizes.mem_iff.mpr ⟨k, hk⟩))).trans hk

end Sizes.Corresponds

namespace Binding.Corresponds

lemma empty : Corresponds f all .empty .empty :=
  ⟨.empty, rfl⟩

lemma set (inj : Set.InjOn f {n | n ∈ all}) (h : b.Corresponds f all b') {n : String}
    (hn : n ∈ all) (k : Nat) : (b.set n k).Corresponds f all (b'.set (f n) k) :=
  ⟨h.sizes.insert inj hn k, h.covered⟩

lemma size? (h : b.Corresponds f all b') (hg : given.Corresponds f all given') {n : String}
    (hn : n ∈ all) : b'.size? given' (f n) = b.size? given n := by
  rw [Binding.size?, Binding.size?, h.sizes.same n hn, hg.same n hn]

lemma adopt (inj : Set.InjOn f {n | n ∈ all}) (h : b.Corresponds f all b')
    (hg : given.Corresponds f all given') {names : List String} (sub : names ⊆ all) :
    (b.adopt given names).Corresponds f all (b'.adopt given' (names.map f)) := by
  induction names generalizing b b' with
  | nil => exact h
  | cons n ns ih =>
    obtain ⟨hn, rest⟩ := List.cons_subset.mp sub
    have first : (((b.size? given n).map (b.set n)).getD b).Corresponds f all
        (((b'.size? given' (f n)).map (b'.set (f n))).getD b') := by
      rw [h.size? hg hn]
      cases b.size? given n with
      | none => exact h
      | some k => exact h.set inj hn k
    exact ih first rest

end Binding.Corresponds

namespace Resolution

/-! ## The steps of the solver -/

lemma alike_product (sizes : List Nat) :
    Outcome.Alike Eq (product pattern sizes) (product pattern' sizes) :=
  Outcome.alike_orReject rfl

section Steps

variable (inj : Set.InjOn f {n | n ∈ all}) (hg : given.Corresponds f all given')
  (h : b.Corresponds f all b')

lemma alike_collect (inj : Set.InjOn f {n | n ∈ all}) {explicit : SizeList}
    (listed : explicit.names ⊆ all) (h : known.Corresponds f all known') :
    Outcome.Alike (Sizes.Corresponds f all) (collect pattern known explicit)
      (collect pattern' known' (explicit.rename f)) := by
  induction explicit generalizing known known' with
  | nil => exact .ok h
  | cons entry rest ih =>
    obtain ⟨n, k⟩ := entry
    obtain ⟨hn, listed⟩ := List.cons_subset.mp listed
    rw [SizeList.rename, List.map_cons, collect, collect, h.same n hn]
    refine .bind_same (Outcome.alike_require Iff.rfl rfl) fun _ => ?_
    refine .bind_same (Outcome.alike_agree fun _ => rfl) fun _ => ?_
    exact ih listed (h.insert inj hn k)

include inj hg h

lemma alike_bindName {n : String} (hn : n ∈ all) (d : Nat) :
    Outcome.Alike (Binding.Corresponds f all) (bindName pattern given n d b)
      (bindName pattern' given' (f n) d b') := by
  rw [bindName, bindName, hg.same n hn, h.sizes.same n hn]
  refine .bind_same (Outcome.alike_agree fun _ => rfl) fun _ => ?_
  refine .bind_same (Outcome.alike_agree fun _ => rfl) fun _ => ?_
  exact .ok (h.set inj hn d)

lemma alike_bindGroup {t t' : Term} (resembles : t.Resembles f t') (sub : t.names ⊆ all)
    (d : Nat) :
    Outcome.Alike (Binding.Corresponds f all) (bindGroup pattern given t d b)
      (bindGroup pattern' given' t' d b') := by
  have unknown : ((t.names.map f).filter fun n => (b'.size? given' n).isNone)
      = (t.names.filter fun n => (b.size? given n).isNone).map f :=
    filter_map_eq fun n hn => by rw [h.size? hg (sub hn)]
  have sizes : (t.names.map f).filterMap (b'.size? given')
      = t.names.filterMap (b.size? given) := by
    rw [List.filterMap_map]
    exact List.filterMap_congr fun n hn => h.size? hg (sub hn)
  have among : (t.names.filter fun n => (b.size? given n).isNone) ⊆ all :=
    fun n hn => sub (List.mem_of_mem_filter hn)
  rw [bindGroup, bindGroup, resembles.names, unknown, sizes]
  generalize (t.names.filter fun n => (b.size? given n).isNone) = free at among ⊢
  refine .bind_same (alike_product _) fun known => ?_
  cases free with
  | nil =>
    refine .bind_same (Outcome.alike_require Iff.rfl rfl) fun _ => ?_
    exact .ok (h.adopt inj hg sub)
  | cons n others =>
    cases others with
    | nil =>
      refine .bind_same (Outcome.alike_require Iff.rfl rfl) fun _ => ?_
      exact .ok ((h.set inj (among List.mem_cons_self) _).adopt inj hg sub)
    | cons => exact .rejected rfl

lemma alike_bindTerm {t t' : Term} (resembles : t.Resembles f t') (sub : t.names ⊆ all)
    (position d : Nat) :
    Outcome.Alike (Binding.Corresponds f all) (bindTerm pattern given shape position d b t)
      (bindTerm pattern' given' shape position d b' t') := by
  cases resembles with
  | name => exact alike_bindName inj hg h (sub List.mem_cons_self) d
  | group same => exact alike_bindGroup inj hg h (.group same) sub d
  | ellipsis => exact .ok h
  | unit => exact .bind_same (Outcome.alike_require Iff.rfl rfl) fun _ => .ok h

lemma alike_bindTerms {ts ts' : Terms} (resembles : ts.Resembles f ts')
    (sub : Terms.names ts ⊆ all) (width position : Nat) (ds : Shape) :
    Outcome.Alike (Binding.Corresponds f all)
      (bindTerms pattern given shape width ts position ds b)
      (bindTerms pattern' given' shape width ts' position ds b') := by
  induction resembles generalizing position ds b b' with
  | nil => exact .ok h
  | @cons t t' ts ts' first _ ih =>
    obtain ⟨sub_t, sub_ts⟩ := List.append_subset.mp sub
    cases single : t.isEllipsis with
    | true =>
      obtain ⟨s, rfl⟩ := Term.exists_of_isEllipsis single
      cases first
      rw [bindTerms, bindTerms]
      have taken : Binding.Corresponds f all ⟨b.sizes, ds.take width⟩ ⟨b'.sizes, ds.take width⟩ :=
        ⟨h.sizes, rfl⟩
      split
      · exact ih taken sub_ts _ _
      · exact .outOfRange
    | false =>
      have single' : t'.isEllipsis = false := first.isEllipsis.trans single
      cases ds with
      | nil =>
        cases first with
        | ellipsis => cases single
        | _ => exact .outOfRange
      | cons d ds =>
        rw [bindTerms_cons single, bindTerms_cons single']
        refine (alike_bindTerm inj hg h first sub_t position d).bind fun _ _ bound => ?_
        exact ih bound sub_ts _ _

omit h in
lemma alike_bindInput {ts ts' : Terms} (resembles : ts.Resembles f ts')
    (sub : Terms.names ts ⊆ all) :
    Outcome.Alike (Binding.Corresponds f all) (bindInput pattern given ts shape)
      (bindInput pattern' given' ts' shape) := by
  rw [bindInput, bindInput, resembles.dimensions, resembles.isOpen]
  refine .bind_same (Outcome.alike_require Iff.rfl rfl) fun _ => ?_
  exact alike_bindTerms inj hg .empty resembles sub _ _ _

lemma alike_bindNew {names : List String} (sub : names ⊆ all) :
    Outcome.Alike (Binding.Corresponds f all) (bindNew pattern given b names)
      (bindNew pattern' given' b' (names.map f)) := by
  induction names generalizing b b' with
  | nil => exact .ok h
  | cons n names ih =>
    obtain ⟨hn, rest⟩ := List.cons_subset.mp sub
    rw [List.map_cons, bindNew, bindNew, hg.same n hn]
    by_cases bound : n ∈ b.sizes
    · rw [if_pos bound, if_pos ((h.sizes.mem_iff hn).mpr bound)]
      exact ih h rest
    · rw [if_neg bound, if_neg (mt (h.sizes.mem_iff hn).mp bound)]
      refine .bind_same (Outcome.alike_orReject rfl) fun k => ?_
      exact ih (h.set inj hn k) rest

omit h in
/-- Patterns that resemble each other bind corresponding sizes. -/
lemma alike_bindAll {kind : Kind} {p p' : Pattern} (resembles : p.Resembles f p')
    (inside : p.names ⊆ all) :
    Outcome.Alike (Binding.Corresponds f all) (bindAll kind p shape given)
      (bindAll kind p' shape given') := by
  have input : p.input.names ⊆ all := Pattern.side_names_subset inside .input
  refine (alike_bindInput inj hg resembles.input input).bind fun b b' h => ?_
  rw [resembles.output.names]
  split
  · exact alike_bindNew inj hg h (Pattern.side_names_subset inside .output)
  · exact .ok h

end Steps

end Resolution

/-! ## The shape of the output -/

mutual

lemma Term.Renames.alike_size {t t' : Term} (renamed : t.Renames f t')
    (h : b.Corresponds f all b') (sub : t.names ⊆ all) :
    Outcome.Alike Eq (t.size pattern b) (t'.size pattern' b') := by
  cases t with
  | name n s =>
    cases renamed
    rw [Term.size, Term.size, h.sizes.same n (sub List.mem_cons_self)]
    exact Outcome.alike_orReject rfl
  | group ms s =>
    cases renamed with
    | group members =>
      refine .bind_same (Terms.Renames.alike_sizes members h sub) fun sizes => ?_
      exact Resolution.alike_product sizes
  | ellipsis s =>
    cases renamed
    rw [Term.size, Term.size, h.covered]
    exact Resolution.alike_product b.covered
  | unit s =>
    cases renamed
    exact .ok rfl

lemma Terms.Renames.alike_sizes {ts ts' : Terms} (renamed : ts.Renames f ts')
    (h : b.Corresponds f all b') (sub : Terms.names ts ⊆ all) :
    Outcome.Alike Eq (Terms.sizes pattern b ts) (Terms.sizes pattern' b' ts') := by
  cases ts with
  | nil =>
    cases renamed
    exact .ok rfl
  | cons t ts =>
    cases renamed with
    | cons first rest =>
      obtain ⟨sub_t, sub_ts⟩ := List.append_subset.mp sub
      refine .bind_same (first.alike_size h sub_t) fun size => ?_
      exact .bind_same (rest.alike_sizes h sub_ts) fun sizes => .ok rfl

end

namespace Resolution

lemma alike_shapeOf (h : b.Corresponds f all b') {ts ts' : Terms} (renamed : ts.Renames f ts')
    (sub : Terms.names ts ⊆ all) :
    Outcome.Alike Eq (shapeOf pattern b ts) (shapeOf pattern' b' ts') := by
  induction ts generalizing ts' with
  | nil =>
    cases renamed
    exact .ok rfl
  | cons t ts ih =>
    cases renamed with
    | @cons _ t' _ ts' first rest =>
      obtain ⟨sub_t, sub_ts⟩ := List.append_subset.mp sub
      cases single : t.isEllipsis with
      | true =>
        obtain ⟨s, rfl⟩ := Term.exists_of_isEllipsis single
        cases first
        rw [shapeOf, shapeOf, h.covered]
        exact .bind_same (ih rest sub_ts) fun sizes => .ok rfl
      | false =>
        have single' : t'.isEllipsis = false := first.resembles.isEllipsis.trans single
        rw [shapeOf_cons single, shapeOf_cons single']
        refine .bind_same (first.alike_size h sub_t) fun size => ?_
        exact .bind_same (ih rest sub_ts) fun sizes => .ok rfl

lemma alike_conserve (input output : Shape) :
    Outcome.Alike Eq (conserve pattern input output) (conserve pattern' input output) := by
  refine .bind_same (alike_product input) fun before => ?_
  refine .bind_same (alike_product output) fun after => ?_
  exact Outcome.alike_require Iff.rfl rfl

/-- What two runs of the solver find, on a pattern and on the renamed one. -/
structure Corresponds (f : String → String) (all : List String) (r r' : Resolution) : Prop where
  sizes : r.sizes.Corresponds f all r'.sizes
  covered : r'.covered = r.covered
  outputShape : r'.outputShape = r.outputShape

variable {kind : Kind} {p p' : Pattern} {explicit : SizeList}

/-- A renamed pattern is solved or rejected just as the pattern is. -/
theorem alike_solve (renamed : p.Renames f p') (inj : Set.InjOn f {n | n ∈ all})
    (inside : p.names ⊆ all) (listed : explicit.names ⊆ all) :
    Outcome.Alike (Corresponds f all) (solve kind p shape explicit)
      (solve kind p' shape (explicit.rename f)) := by
  have output : p.output.names ⊆ all := Pattern.side_names_subset inside .output
  rw [solve_eq, solve_eq]
  refine (alike_collect inj listed .empty).bind fun given given' hg => ?_
  refine (alike_bindAll inj hg renamed.resembles inside).bind fun b b' h => ?_
  refine .bind_same (alike_shapeOf h renamed.output output) fun outputShape => ?_
  split
  · refine .bind_same (alike_conserve shape outputShape) fun _ => ?_
    exact .ok ⟨h.sizes, h.covered, rfl⟩
  · exact .ok ⟨h.sizes, h.covered, rfl⟩

end Resolution

end AxisNotation
