import AxisNotation.Engine
import AxisNotation.Proofs.Cache
import AxisNotation.Proofs.Planning

/-!
# What an engine does with a text

A cache only ever holds under a text the pattern that is read from it, so an engine that is in use
reads every text as the parser does (`Engine.Reachable.parse_eq`). A plan comes from the pattern
that is read and from a resolution that suits it (`Engine.Reachable.of_planned`).
-/

namespace AxisNotation

namespace Engine

/-- The engines that are in use: a new one, and what becomes of it when a text is read or the cache
is cleared. -/
inductive Reachable : Engine → Prop where
  | new (config : Config) : Reachable (.new config)
  | clear {e : Engine} : Reachable e → Reachable e.clear
  | parse {e : Engine} (text : String) : Reachable e → Reachable (e.parse text).2

variable {e : Engine} {kind : Kind} {text : String} {shape : Shape} {explicit : SizeList}
  {p q : Pattern} {r : Resolution}

/-- A pattern that is resolved is valid, with or without the strict check. -/
lemma of_resolve {config : Config} (h : resolve config kind shape explicit q = .ok (p, r)) :
    q = p ∧ p.Valid kind explicit.names ∧ Resolution.solve kind p shape explicit = .ok r := by
  obtain ⟨_, valid, h⟩ := bind_eq_ok.mp h
  have valid := Pattern.check_eq_ok.mp (Outcome.ofPattern_eq_ok.mp valid)
  obtain ⟨r', solved, e⟩ :
      ∃ r', Resolution.solve kind q shape explicit = .ok r' ∧ (q, r') = (p, r) := by
    split at h
    · simp only [bind_eq_ok, pure_eq_ok] at h
      obtain ⟨_, _, h⟩ := h
      exact h
    · simp only [bind_eq_ok, pure_eq_ok] at h
      exact h
  cases e
  exact ⟨rfl, valid, solved⟩

namespace Reachable

lemma faithful (h : e.Reachable) : ∀ c, e.cache = some c → c.Faithful := by
  induction h with
  | new config =>
    intro c hc
    rw [Engine.new] at hc
    dsimp only at hc
    split at hc
    · cases hc
      intro text reading found
      rw [Cache.empty, Std.ExtTreeMap.getElem?_empty] at found
      cases found
    · cases hc
  | @clear e _ _ =>
    intro c hc
    obtain ⟨before, -, rfl⟩ := Option.map_eq_some_iff.mp hc
    intro text reading found
    rw [Cache.clear, Std.ExtTreeMap.getElem?_empty] at found
    cases found
  | @parse e text _ ih =>
    intro c hc
    unfold Engine.parse at hc
    split at hc
    · exact ih c hc
    · next before cached =>
      cases hc
      exact ((ih before cached).get text).2

/-- An engine in use reads a text as the parser does, whatever its cache holds. -/
theorem parse_eq (h : e.Reachable) (text : String) : (e.parse text).1 = Pattern.parse text := by
  unfold Engine.parse
  split
  · rfl
  · next c cached => exact ((h.faithful c cached).get text).1

/-- The operations keep an engine in use. -/
theorem operations (h : e.Reachable) {ε τ : Type} (b : Backend ε τ) (tensor : τ) (text : String)
    (reduction : Reduction) (keep : Bool) (explicit : SizeList) :
    (e.rearrange b tensor text explicit).2.Reachable
      ∧ (e.reduce b tensor text reduction keep explicit).2.Reachable
      ∧ (e.repeatAlong b tensor text explicit).2.Reachable :=
  ⟨h.parse text, h.parse text, h.parse text⟩

/-- A plan is made from a valid pattern, read from the text, and a resolution that suits it. -/
lemma of_planned (h : e.Reachable) {P : Type} {plan : P} {make : Pattern × Resolution → Outcome P}
    (planned : (e.prepare kind text shape explicit).1 >>= make = .ok plan) :
    ∃ p r, Pattern.parse text = .ok p ∧ r.Suits kind p shape explicit.names
      ∧ make (p, r) = .ok plan := by
  obtain ⟨⟨p, r⟩, prepared, made⟩ := bind_eq_ok.mp planned
  have prepared : (Outcome.ofPattern (e.parse text).1
      >>= resolve (e.parse text).2.config kind shape explicit) = .ok (p, r) := prepared
  obtain ⟨q, read, resolved⟩ := bind_eq_ok.mp prepared
  obtain ⟨rfl, valid, solved⟩ := of_resolve resolved
  rw [Outcome.ofPattern_eq_ok, h.parse_eq] at read
  exact ⟨q, r, read, Resolution.suits_of_solve valid solved, made⟩

end Reachable

end Engine

end AxisNotation
