import AxisNotation.Proofs.Resolution.Facing

/-!
# Binding names and groups

A group is matched with a dimension exactly when sizes of its names multiply to the dimension, agree
with the given sizes, and at most one of them is not given (`Resolution.bindGroup_sound`,
`Resolution.bindGroup_complete`). The product of the given sizes then divides the dimension, and
since given sizes are positive, the quotient is the only choice (`Resolution.unique_of_product`).
-/

namespace AxisNotation

/-- Sizes agree with the given sizes of some names. -/
def Sizes.Agrees (m given : Sizes) (names : List String) : Prop :=
  ∀ n ∈ names, ∀ k, given[n]? = some k → m[n]? = some k

/-- The names without a given size. -/
def Sizes.unknown (given : Sizes) (names : List String) : List String :=
  names.filter fun n => given[n]?.isNone

/-- The given sizes of some names. -/
def Sizes.known (given : Sizes) (names : List String) : List Nat :=
  names.filterMap (given[·]?)

/-- The groups among some terms leave at most one size to be found, and the product of the given
ones can be stated. -/
def Terms.Determined (given : Sizes) (ts : Terms) : Prop :=
  ∀ ms s, .group ms s ∈ ts → (given.unknown (Terms.names ms)).length ≤ 1
    ∧ ∃ k, Shape.product? (given.known (Terms.names ms)) = some k

/-- A binding goes over into another by binding some names, in agreement with the given sizes. -/
structure Binding.Extends (given : Sizes) (b b' : Binding) (names : List String) : Prop where
  others : ∀ n, n ∉ names → b'.sizes[n]? = b.sizes[n]?
  bound : ∀ n ∈ names, n ∈ b'.sizes
  agrees : b'.sizes.Agrees given names

variable {given m : Sizes} {b b' b'' : Binding} {pattern : String} {names : List String}

/-- The product of sizes is that of the given ones times that of the others. -/
lemma Sizes.product_eq_known_mul (h : m.Agrees given names) :
    m.product names = (given.known names).prod * m.product (given.unknown names) := by
  induction names with
  | nil => rfl
  | cons n ns ih =>
    obtain ⟨first, rest⟩ := List.forall_mem_cons.mp h
    have ih := ih rest
    simp only [product, known, unknown, List.map_cons, List.prod_cons] at ih ⊢
    cases hn : given[n]? with
    | none =>
      rw [List.filterMap_cons_none hn, List.filter_cons_of_pos (by rw [hn]; rfl), List.map_cons,
        List.prod_cons, ih, Nat.mul_left_comm]
    | some k =>
      rw [List.filterMap_cons_some hn, List.filter_cons_of_neg (by rw [hn]; exact nofun),
        List.prod_cons, ih, getD_of_getElem? (first k hn), Nat.mul_assoc]

/-- Without unknown names the product of sizes is that of the given ones. -/
lemma Sizes.product_eq_known (h : m.Agrees given names) (all : given.unknown names = []) :
    m.product names = (given.known names).prod := by
  rw [product_eq_known_mul h, all]
  exact Nat.mul_one _

namespace Binding

lemma size?_of_fresh {n : String} (h : b.sizes[n]? = none) : b.size? given n = given[n]? := by
  rw [size?, h, Option.none_or]

lemma getElem?_set (b : Binding) (k n : String) (d : Nat) :
    (b.set k d).sizes[n]? = if n = k then some d else b.sizes[n]? :=
  Sizes.getElem?_insert b.sizes k n d

lemma set_self {n : String} {k : Nat} (h : b.sizes[n]? = some k) : b.set n k = b := by
  refine congrArg (Binding.mk · b.covered) (Std.ExtTreeMap.ext_getElem? fun m => ?_)
  rw [Sizes.getElem?_insert]
  split
  · next same => rw [same, h]
  · rfl

lemma getElem?_adopt (b : Binding) (given : Sizes) (names : List String) (x : String) :
    (b.adopt given names).sizes[x]? = if x ∈ names then b.size? given x else b.sizes[x]? := by
  induction names generalizing b with
  | nil => rfl
  | cons n ns ih =>
    rw [adopt, List.foldl_cons]
    have rest := ih (((b.size? given n).map (b.set n)).getD b)
    rw [adopt] at rest
    rw [rest]
    cases hn : b.size? given n with
    | none =>
      have hn' : b.sizes[n]? = none := (Option.or_eq_none_iff.mp hn).1
      by_cases h : x = n
      · subst h
        simp [hn, hn']
      · simp [h]
    | some d =>
      have same : (b.set n d).size? given x = b.size? given x := by
        rw [size?, getElem?_set]
        by_cases h : x = n
        · subst h
          rw [if_pos rfl, hn, Option.some_or]
        · rw [if_neg h, size?]
      rw [Option.map_some, Option.getD_some, same, getElem?_set]
      by_cases h : x = n
      · subst h
        simp [hn]
      · simp [h]

lemma covered_adopt (b : Binding) (given : Sizes) (names : List String) :
    (b.adopt given names).covered = b.covered := by
  induction names generalizing b with
  | nil => rfl
  | cons n ns ih =>
    rw [adopt, List.foldl_cons]
    refine (ih _).trans ?_
    cases b.size? given n <;> rfl

namespace Extends

lemma append {ns ns' : List String} (h : Extends given b b' ns) (h' : Extends given b' b'' ns')
    (disjoint : ∀ n ∈ ns, n ∉ ns') : Extends given b b'' (ns ++ ns') where
  others n hn := by
    rw [List.mem_append, not_or] at hn
    rw [h'.others n hn.2, h.others n hn.1]
  bound n hn := by
    cases List.mem_append.mp hn with
    | inl hn =>
      rw [Sizes.mem_iff, h'.others n (disjoint n hn), ← Sizes.mem_iff]
      exact h.bound n hn
    | inr hn => exact h'.bound n hn
  agrees n hn k hk := by
    cases List.mem_append.mp hn with
    | inl hn =>
      rw [h'.others n (disjoint n hn)]
      exact h.agrees n hn k hk
    | inr hn => exact h'.agrees n hn k hk

lemma nil : Extends given b b [] :=
  ⟨fun _ _ => rfl, nofun, nofun⟩

end Extends

end Binding

namespace Resolution

lemma knowns_of_fresh (given : Sizes) (fresh : ∀ n ∈ names, b.sizes[n]? = none) :
    (names.filter fun n => (b.size? given n).isNone) = given.unknown names
      ∧ names.filterMap (b.size? given) = given.known names := by
  constructor
  · apply List.filter_congr
    intro n hn
    rw [Binding.size?_of_fresh (fresh n hn)]
  · apply List.filterMap_congr
    intro n hn
    exact Binding.size?_of_fresh (fresh n hn)

lemma product_eq_ok {sizes : List Nat} {k : Nat} :
    product pattern sizes = .ok k ↔ Shape.product? sizes = some k :=
  Outcome.orReject_eq_ok

lemma eq_prod_of_product? {sizes : List Nat} {k : Nat} (h : Shape.product? sizes = some k) :
    k = sizes.prod := by
  rw [Shape.eq_elements_of_product? h, Shape.elements_eq_prod]

/-- A name is bound to the dimension it faces, if no other size is given. -/
lemma bindName_eq_ok {n : String} {d : Nat} (fresh : b.sizes[n]? = none) :
    bindName pattern given n d b = .ok b' ↔ (∀ k, given[n]? = some k → k = d) ∧ b' = b.set n d := by
  simp only [bindName, bind_eq_ok, Outcome.agree_eq_ok, pure_eq_ok, fresh]
  constructor
  · rintro ⟨_, agrees, _, _, rfl⟩
    exact ⟨agrees, rfl⟩
  · rintro ⟨agrees, rfl⟩
    exact ⟨(), agrees, (), nofun, rfl⟩

lemma given_of_not_unknown {n : String} (hn : n ∈ names) (known : n ∉ given.unknown names) :
    ∃ k, given[n]? = some k := by
  by_contra absent
  refine known (List.mem_filter.mpr ⟨hn, ?_⟩)
  rw [Option.isNone_iff_eq_none, Option.eq_none_iff_forall_ne_some]
  exact fun k hk => absent ⟨k, hk⟩

lemma extends_adopt (fresh : ∀ n ∈ names, b.sizes[n]? = none) (all : given.unknown names = []) :
    Binding.Extends given b (b.adopt given names) names where
  others n hn := by rw [Binding.getElem?_adopt, if_neg hn]
  bound n hn := by
    rw [Sizes.mem_iff, Binding.getElem?_adopt, if_pos hn, Binding.size?_of_fresh (fresh n hn)]
    exact given_of_not_unknown hn (all ▸ List.not_mem_nil)
  agrees n hn k hk := by
    rw [Binding.getElem?_adopt, if_pos hn, Binding.size?_of_fresh (fresh n hn)]
    exact hk

/-- One of the names is bound to a size of its own and the others to their given sizes. -/
lemma extends_set_adopt (fresh : ∀ n ∈ names, b.sizes[n]? = none) {x : String}
    (one : given.unknown names = [x]) (d : Nat) :
    Binding.Extends given b ((b.set x d).adopt given names) names
      ∧ ((b.set x d).adopt given names).sizes[x]? = some d := by
  obtain ⟨mem, none⟩ := List.mem_filter.mp (one ▸ List.mem_cons_self : x ∈ given.unknown names)
  rw [Option.isNone_iff_eq_none] at none
  have size {n : String} (hn : n ∈ names) :
      ((b.set x d).adopt given names).sizes[n]? = if n = x then some d else given[n]? := by
    rw [Binding.getElem?_adopt, if_pos hn, Binding.size?, Binding.getElem?_set]
    by_cases e : n = x
    · rw [if_pos e, if_pos e, Option.some_or]
    · rw [if_neg e, if_neg e, fresh n hn, Option.none_or]
  refine ⟨⟨fun n hn => ?_, fun n hn => ?_, fun n hn k hk => ?_⟩, by rw [size mem, if_pos rfl]⟩
  · rw [Binding.getElem?_adopt, if_neg hn, Binding.getElem?_set, if_neg]
    rintro rfl
    exact hn mem
  · rw [Sizes.mem_iff, size hn]
    by_cases e : n = x
    · exact ⟨d, if_pos e⟩
    · rw [if_neg e]
      exact given_of_not_unknown hn fun h => e (List.mem_singleton.mp (one ▸ h))
  · rw [size hn, if_neg, hk]
    rintro rfl
    rw [none] at hk
    cases hk

/-- When a group is matched with a dimension, its names are bound so that they multiply to it. -/
lemma bindGroup_sound {group : Term} {d : Nat} (fresh : ∀ n ∈ group.names, b.sizes[n]? = none)
    (h : bindGroup pattern given group d b = .ok b') :
    Binding.Extends given b b' group.names ∧ b'.covered = b.covered
      ∧ b'.sizes.product group.names = d
      ∧ (given.unknown group.names).length ≤ 1
      ∧ ∃ k, Shape.product? (given.known group.names) = some k := by
  obtain ⟨unknown_eq, known_eq⟩ := knowns_of_fresh given fresh
  simp only [bindGroup, bind_eq_ok, product_eq_ok, unknown_eq, known_eq] at h
  obtain ⟨k, hk, h⟩ := h
  have value := eq_prod_of_product? hk
  split at h
  · next all =>
    simp only [bind_eq_ok, Outcome.require_eq_ok, pure_eq_ok] at h
    obtain ⟨_, rfl, rfl⟩ := h
    have ext := extends_adopt fresh all
    refine ⟨ext, Binding.covered_adopt _ _ _, ?_, by rw [all]; exact Nat.zero_le 1, k, hk⟩
    rw [Sizes.product_eq_known_mul ext.agrees, all, value]
    exact Nat.mul_one _
  · next x one =>
    simp only [bind_eq_ok, Outcome.require_eq_ok, pure_eq_ok] at h
    obtain ⟨_, ⟨-, divides⟩, rfl⟩ := h
    obtain ⟨ext, quotient⟩ := extends_set_adopt fresh one (d / k)
    refine ⟨ext, Binding.covered_adopt _ _ _, ?_, by rw [one]; exact Nat.le_refl 1, k, hk⟩
    rw [Sizes.product_eq_known_mul ext.agrees, one, ← value, Sizes.product, List.map_cons,
      Sizes.getD_of_getElem? quotient]
    simp only [List.map_nil, List.prod_cons, List.prod_nil, Nat.mul_one]
    exact Nat.mul_div_cancel' (Nat.dvd_of_mod_eq_zero divides)
  · cases h

/-- Sizes of a group's names with a given product are unique when at most one is not given. -/
lemma unique_of_product {m' : Sizes} (positive : (given.known names).prod ≠ 0)
    (single : (given.unknown names).length ≤ 1) (agrees : m.Agrees given names)
    (agrees' : m'.Agrees given names) (bound : ∀ n ∈ names, n ∈ m) (bound' : ∀ n ∈ names, n ∈ m')
    (product : m.product names = m'.product names) {n : String} (hn : n ∈ names) :
    m[n]? = m'[n]? := by
  cases given_n : given[n]? with
  | some k => rw [agrees n hn k given_n, agrees' n hn k given_n]
  | none =>
    have mem : n ∈ given.unknown names := List.mem_filter.mpr ⟨hn, by rw [given_n]; rfl⟩
    -- this is the only name that is not given, so the product of the others can be cancelled
    obtain ⟨x, only⟩ := List.length_eq_one_iff.mp
      (Nat.le_antisymm single (List.length_pos_of_mem mem))
    obtain rfl : n = x := List.mem_singleton.mp (only ▸ mem)
    rw [Sizes.product_eq_known_mul agrees, Sizes.product_eq_known_mul agrees', only] at product
    have same := Nat.eq_of_mul_eq_mul_left (Nat.pos_of_ne_zero positive) product
    obtain ⟨d, hd⟩ := Sizes.mem_iff.mp (bound n hn)
    obtain ⟨d', hd'⟩ := Sizes.mem_iff.mp (bound' n hn)
    simp only [Sizes.product, List.map_cons, List.map_nil, List.prod_cons, List.prod_nil,
      Nat.mul_one, Sizes.getD_of_getElem? hd, Sizes.getD_of_getElem? hd'] at same
    rw [hd, hd', same]

/-- A group whose names have sizes that multiply to the dimension is matched. -/
lemma bindGroup_complete {group : Term} (fresh : ∀ n ∈ group.names, b.sizes[n]? = none)
    (positive : ∀ (n : String) (k : Nat), given[n]? = some k → k ≠ 0)
    (agrees : m.Agrees given group.names)
    (bound : ∀ n ∈ group.names, n ∈ m) (single : (given.unknown group.names).length ≤ 1) {k : Nat}
    (hk : Shape.product? (given.known group.names) = some k) :
    ∃ b', bindGroup pattern given group (m.product group.names) b = .ok b'
      ∧ ∀ n ∈ group.names, b'.sizes[n]? = m[n]? := by
  have value := eq_prod_of_product? hk
  have positive : (given.known group.names).prod ≠ 0 := by
    rw [ne_eq, List.prod_eq_zero_iff]
    intro zero
    obtain ⟨n, -, hn⟩ := List.mem_filterMap.mp zero
    exact positive n 0 hn rfl
  have split := Sizes.product_eq_known_mul agrees
  rw [← value] at split
  -- whatever the names are bound to, these are the sizes, since no others have the product
  suffices h : ∃ b', bindGroup pattern given group (m.product group.names) b = .ok b' by
    obtain ⟨b', h⟩ := h
    obtain ⟨ext, -, product, -⟩ := bindGroup_sound fresh h
    exact ⟨b', h, fun n hn => unique_of_product positive single ext.agrees agrees ext.bound bound
      product hn⟩
  obtain ⟨unknown_eq, known_eq⟩ := knowns_of_fresh given fresh
  simp only [bindGroup, bind_eq_ok, product_eq_ok, unknown_eq, known_eq, hk, Option.some.injEq,
    exists_eq_left']
  cases unknown : given.unknown group.names with
  | nil =>
    rw [unknown] at split
    simp only [bind_eq_ok, Outcome.require_eq_ok, pure_eq_ok]
    exact ⟨_, (), split.trans (Nat.mul_one k) |>.symm, rfl⟩
  | cons x rest =>
    rw [unknown] at split single
    obtain rfl : rest = [] :=
      List.length_eq_zero_iff.mp (Nat.le_zero.mp (Nat.le_of_succ_le_succ single))
    simp only [bind_eq_ok, Outcome.require_eq_ok, pure_eq_ok]
    refine ⟨_, (), ⟨value ▸ positive, ?_⟩, rfl⟩
    rw [split]
    exact Nat.mul_mod_right k _

end Resolution

end AxisNotation
