import AxisNotation.Cache
import AxisNotation.Proofs.Outcome

/-!
# What a cache keeps

Of a cache that has been empty every entry is the pattern that is read from its text, and there are
never more of them than the capacity allows (`Cache.Sound.run`). An entry stays until the cache is
cleared (`Cache.entries_run`), and no two readings of texts have one number. `Cache.state_law` puts
this together: what a reading gives, what it leaves in the cache, and when two readings of one text
give one object.
-/

namespace AxisNotation

namespace Cache

/-- What a cache is asked for. -/
inductive Request where
  | get (text : String)
  | contains (text : String)
  | clear
  deriving DecidableEq

/-- The cache after a request. -/
def next (c : Cache) : Request → Cache
  | .get text => (c.get text).2
  | .contains _ => c
  | .clear => c.clear

/-- The cache after some requests, one after another. -/
def run (c : Cache) (requests : List Request) : Cache :=
  requests.foldl next c

@[simp] lemma run_cons (c : Cache) (request : Request) (requests : List Request) :
    c.run (request :: requests) = (c.next request).run requests := rfl

/-- The cache after a text without an entry has been read. -/
def record (c : Cache) (text : String) (pattern : Pattern) : Cache :=
  ⟨c.capacity, if c.hasRoom then c.entries.insert text ⟨pattern, c.readings⟩ else c.entries,
    c.readings + 1⟩

variable {c : Cache} {text other : String} {reading kept : Reading} {pattern : Pattern}
  {e : PatternError} {capacity : Nat} {requests : List Request}

/-- A text is found in the cache, it cannot be read, or it is read anew. -/
lemma get_cases (c : Cache) (text : String) :
    (∃ reading, c.entries[text]? = some reading ∧ c.get text = (.ok reading, c))
    ∨ (∃ e, Pattern.parse text = .error e ∧ c.entries[text]? = none
      ∧ c.get text = (.error e, c))
    ∨ ∃ pattern, Pattern.parse text = .ok pattern ∧ c.entries[text]? = none
      ∧ c.get text = (.ok ⟨pattern, c.readings⟩, c.record text pattern) := by
  unfold get
  split
  · next reading found => exact .inl ⟨reading, found, rfl⟩
  · next absent =>
    split
    · next e failed => exact .inr (.inl ⟨e, failed, absent, rfl⟩)
    · next pattern read => exact .inr (.inr ⟨pattern, read, absent, rfl⟩)

lemma get_of_found (found : c.entries[text]? = some reading) : c.get text = (.ok reading, c) := by
  obtain ⟨_, again, got⟩ | ⟨_, -, absent, -⟩ | ⟨_, -, absent, -⟩ := c.get_cases text
  · rw [found] at again
    cases again
    exact got
  · rw [found] at absent
    cases absent
  · rw [found] at absent
    cases absent

lemma get_of_failed (failed : (c.get text).1 = .error e) : (c.get text).2 = c := by
  obtain ⟨_, -, got⟩ | ⟨_, -, -, got⟩ | ⟨_, -, -, got⟩ := c.get_cases text
  · rw [got]
  · rw [got]
  · rw [got] at failed
    cases failed

lemma contains_eq (c : Cache) (text : String) : c.contains text = c.entries[text]?.isSome :=
  Std.ExtTreeMap.contains_eq_isSome_getElem?

/-! ### The entries -/

lemma entries_record_self (absent : c.entries[text]? = none) :
    (c.record text pattern).entries[text]?
      = if c.hasRoom then some ⟨pattern, c.readings⟩ else none := by
  dsimp only [record]
  split
  · exact Std.ExtTreeMap.getElem?_insert_self
  · exact absent

lemma entries_record_of_ne (ne : text ≠ other) :
    (c.record text pattern).entries[other]? = c.entries[other]? := by
  dsimp only [record]
  split
  · rw [Std.ExtTreeMap.getElem?_insert, if_neg]
    exact fun same => ne (Std.LawfulEqCmp.compare_eq_iff_eq.mp same)
  · rfl

/-- An entry after a reading is either the new one or has been there before. -/
lemma entries_record_cases (found : (c.record text pattern).entries[other]? = some kept) :
    other = text ∧ kept = ⟨pattern, c.readings⟩ ∨ c.entries[other]? = some kept := by
  dsimp only [record] at found
  split at found
  · rw [Std.ExtTreeMap.getElem?_insert] at found
    split at found
    · next same =>
      cases found
      exact .inl ⟨(Std.LawfulEqCmp.compare_eq_iff_eq.mp same).symm, rfl⟩
    · exact .inr found
  · exact .inr found

/-- A reading never replaces or evicts an entry. -/
lemma entries_get_of_kept (found : c.entries[other]? = some kept) :
    (c.get text).2.entries[other]? = some kept := by
  obtain ⟨_, -, got⟩ | ⟨_, -, -, got⟩ | ⟨_, -, absent, got⟩ := c.get_cases text
  · rw [got]
    exact found
  · rw [got]
    exact found
  · rw [got, entries_record_of_ne, found]
    rintro rfl
    rw [found] at absent
    cases absent

/-- The only change that a reading makes: a text without an entry gets one if there is room. -/
lemma entries_get (got : (c.get text).1 = .ok reading) :
    (c.get text).2.entries
      = if c.contains text = false ∧ (c.capacity = 0 ∨ c.size < c.capacity)
        then c.entries.insert text reading else c.entries := by
  rw [contains_eq]
  obtain ⟨_, found, eq⟩ | ⟨_, -, -, eq⟩ | ⟨_, -, absent, eq⟩ := c.get_cases text
  · rw [eq, found]
    exact (if_neg fun absent => Bool.noConfusion absent.1).symm
  · rw [eq] at got
    cases got
  · rw [eq] at got ⊢
    cases got
    rw [absent]
    simp [record, hasRoom]

/-- Until a text is read again its entry stays as it is, or goes with all the others. -/
lemma entries_next (request : Request) (unread : .get text ≠ request) :
    (c.next request).entries[text]? = if request = .clear then none else c.entries[text]? := by
  cases request with
  | get other =>
    rw [if_neg (by simp)]
    obtain ⟨_, -, got⟩ | ⟨_, -, -, got⟩ | ⟨_, -, -, got⟩ := c.get_cases other
    · rw [next, got]
    · rw [next, got]
    · rw [next, got, entries_record_of_ne]
      rintro rfl
      exact unread rfl
  | contains => rw [next, if_neg (by simp)]
  | clear => rw [if_pos rfl, next, clear, Std.ExtTreeMap.getElem?_empty]

lemma entries_run (unread : .get text ∉ requests) :
    (c.run requests).entries[text]? = if .clear ∈ requests then none else c.entries[text]? := by
  induction requests generalizing c with
  | nil => rfl
  | cons request requests ih =>
    obtain ⟨ne, unread⟩ := List.ne_and_not_mem_of_not_mem_cons unread
    rw [run_cons, ih unread, entries_next request ne]
    by_cases cleared : request = .clear
    · simp [cleared]
    · simp [cleared, Ne.symm cleared]

/-! ### The numbers of readings -/

lemma readings_next (c : Cache) (request : Request) : c.readings ≤ (c.next request).readings := by
  cases request with
  | get text =>
    obtain ⟨_, -, got⟩ | ⟨_, -, -, got⟩ | ⟨_, -, -, got⟩ := c.get_cases text
    · rw [next, got]
    · rw [next, got]
    · rw [next, got]
      exact Nat.le_succ _
  | contains => exact le_rfl
  | clear => exact le_rfl

lemma readings_run (c : Cache) (requests : List Request) :
    c.readings ≤ (c.run requests).readings := by
  induction requests generalizing c with
  | nil => exact le_rfl
  | cons request requests ih => exact (c.readings_next request).trans (ih _)

/-! ### What holds of a cache in use -/

/-- Under each text stands the pattern that is read from it. -/
def Faithful (c : Cache) : Prop :=
  ∀ text reading, c.entries[text]? = some reading → Pattern.parse text = .ok reading.pattern

/-- What holds of a cache of the given capacity from the time when it was empty. -/
structure Sound (capacity : Nat) (c : Cache) : Prop where
  bound : c.capacity = capacity
  faithful : c.Faithful
  size_le : 0 < capacity → c.size ≤ capacity
  numbered : ∀ (text : String) (reading : Reading), c.entries[text]? = some reading →
    reading.number < c.readings

lemma Faithful.record (h : c.Faithful) (read : Pattern.parse text = .ok pattern) :
    (c.record text pattern).Faithful := by
  intro other reading found
  obtain ⟨rfl, rfl⟩ | found := entries_record_cases found
  · exact read
  · exact h other reading found

lemma Faithful.get (h : c.Faithful) (text : String) :
    (c.get text).1.map Reading.pattern = Pattern.parse text ∧ (c.get text).2.Faithful := by
  obtain ⟨reading, found, got⟩ | ⟨e, failed, -, got⟩ | ⟨pattern, read, -, got⟩ := c.get_cases text
  · rw [got]
    exact ⟨(h text reading found).symm, h⟩
  · rw [got]
    exact ⟨failed.symm, h⟩
  · rw [got]
    exact ⟨read.symm, h.record read⟩

/-- A reading adds at most one entry, and none to a cache that is full. -/
lemma size_record_le (h : c.size ≤ c.capacity) (bounded : 0 < c.capacity) :
    (c.record text pattern).size ≤ c.capacity := by
  dsimp only [record, size]
  split
  · next room =>
    have room : c.size < c.capacity := by simpa [hasRoom, bounded.ne'] using room
    exact Std.ExtTreeMap.size_insert_le.trans room
  · exact h

namespace Sound

lemma empty (capacity : Nat) : Sound capacity (.empty capacity) where
  bound := rfl
  faithful text reading found := by
    rw [Cache.empty, Std.ExtTreeMap.getElem?_empty] at found
    cases found
  size_le _ := Nat.zero_le _
  numbered text reading found := by
    rw [Cache.empty, Std.ExtTreeMap.getElem?_empty] at found
    cases found

lemma clear (h : Sound capacity c) : Sound capacity c.clear where
  bound := h.bound
  faithful text reading found := by
    rw [Cache.clear, Std.ExtTreeMap.getElem?_empty] at found
    cases found
  size_le _ := Nat.zero_le _
  numbered text reading found := by
    rw [Cache.clear, Std.ExtTreeMap.getElem?_empty] at found
    cases found

lemma record (h : Sound capacity c) (read : Pattern.parse text = .ok pattern) :
    Sound capacity (c.record text pattern) where
  bound := h.bound
  faithful := h.faithful.record read
  size_le bounded := by
    rw [← h.bound] at bounded
    exact (size_record_le ((h.size_le (h.bound ▸ bounded)).trans_eq h.bound.symm) bounded).trans_eq
      h.bound
  numbered other reading found := by
    obtain ⟨-, rfl⟩ | found := entries_record_cases found
    · exact Nat.lt_succ_self _
    · exact (h.numbered other reading found).trans (Nat.lt_succ_self _)

lemma get (h : Sound capacity c) (text : String) : Sound capacity (c.get text).2 := by
  obtain ⟨_, -, got⟩ | ⟨_, -, -, got⟩ | ⟨_, read, -, got⟩ := c.get_cases text
  · rw [got]
    exact h
  · rw [got]
    exact h
  · rw [got]
    exact h.record read

lemma next (h : Sound capacity c) (request : Request) : Sound capacity (c.next request) := by
  cases request with
  | get text => exact h.get text
  | contains => exact h
  | clear => exact h.clear

/-- Whatever a cache is asked for, what holds of it goes on to hold. -/
lemma run (h : Sound capacity c) (requests : List Request) : Sound capacity (c.run requests) := by
  induction requests generalizing c with
  | nil => exact h
  | cons request requests ih => exact ih (h.next request)

/-- A reading has a number below the next one, and its text has either this entry or none. -/
lemma of_get (h : Sound capacity c) (got : (c.get text).1 = .ok reading) :
    reading.number < (c.get text).2.readings
      ∧ (c.get text).2.entries[text]?
        = if (c.get text).2.contains text then some reading else none := by
  rw [contains_eq]
  obtain ⟨_, found, eq⟩ | ⟨_, -, -, eq⟩ | ⟨_, -, absent, eq⟩ := c.get_cases text
  · rw [eq] at got ⊢
    cases got
    rw [found]
    exact ⟨h.numbered text _ found, rfl⟩
  · rw [eq] at got
    cases got
  · rw [eq] at got ⊢
    cases got
    refine ⟨Nat.lt_succ_self _, ?_⟩
    rw [entries_record_self absent]
    cases c.hasRoom <;> rfl

/-- Of two readings of a text with none between them the second gives the object of the first if it
is still kept, and a new one otherwise. -/
lemma shared_iff (h : Sound capacity c) (unread : .get text ∉ requests) {again : Reading}
    (first : (c.get text).1 = .ok reading)
    (second : (((c.get text).2.run requests).get text).1 = .ok again) :
    again.number = reading.number ↔ (c.get text).2.contains text ∧ .clear ∉ requests := by
  obtain ⟨older, entry⟩ := h.of_get first
  have later := entries_run (c := (c.get text).2) unread
  rw [entry] at later
  by_cases shared : (c.get text).2.contains text ∧ .clear ∉ requests
  · rw [if_neg shared.2, if_pos shared.1] at later
    rw [get_of_found later] at second
    cases second
    exact iff_of_true rfl shared
  · refine iff_of_false ?_ shared
    have absent : ((c.get text).2.run requests).entries[text]? = none := by
      rw [later]
      split
      · rfl
      · next uncleared => exact if_neg fun kept => shared ⟨kept, uncleared⟩
    -- what is read anew has the next number, and numbers only grow
    have grown := (c.get text).2.readings_run requests
    obtain ⟨_, found, -⟩ | ⟨_, -, -, eq⟩ | ⟨_, -, -, eq⟩ :=
      ((c.get text).2.run requests).get_cases text
    · rw [absent] at found
      cases found
    · rw [eq] at second
      cases second
    · rw [eq] at second
      cases second
      exact (older.trans_le grown).ne'

end Sound

/-- What any requests leave of an empty cache: every entry is what is read from its text, and a
capacity bounds their number. Reading a text then gives what the parser gives; if it fails the cache
stays as it is, and if not there is at most one more entry, for the text that has been read, and no
other change. The text read again gives the same object exactly when it was kept and no clear has
come between. -/
theorem state_law (capacity : Nat) (requests : List Request) (text : String) :
    let c := (empty capacity).run requests
    (∀ (key : String) (kept : Reading), c.entries[key]? = some kept →
      Pattern.parse key = .ok kept.pattern)
    ∧ (0 < capacity → c.size ≤ capacity)
    ∧ (c.get text).1.map Reading.pattern = Pattern.parse text
    ∧ (∀ e, (c.get text).1 = .error e → (c.get text).2 = c)
    ∧ ∀ reading, (c.get text).1 = .ok reading →
      (c.get text).2.entries
        = (if c.contains text = false ∧ (capacity = 0 ∨ c.size < capacity)
          then c.entries.insert text reading else c.entries)
      ∧ (∀ (key : String) (kept : Reading), c.entries[key]? = some kept →
        (c.get text).2.entries[key]? = some kept)
      ∧ ∀ between again, .get text ∉ between →
        (((c.get text).2.run between).get text).1 = .ok again →
        (again.number = reading.number ↔ (c.get text).2.contains text ∧ .clear ∉ between) := by
  intro c
  have sound : Sound capacity c := (Sound.empty capacity).run requests
  refine ⟨sound.faithful, sound.size_le, (sound.faithful.get text).1,
    fun _ failed => get_of_failed failed, ?_⟩
  intro reading got
  refine ⟨?_, fun _ _ found => entries_get_of_kept found,
    fun _ _ unread again => sound.shared_iff unread got again⟩
  rw [entries_get got, sound.bound]

/-- A cache for one pattern that holds one. -/
def full : Cache :=
  (empty 1).run [.get "a -> a", .contains "b -> b"]

/-- A full cache shares the text that it holds until it is cleared, and another text never. -/
theorem state_law_full :
    ∀ between ∈ [[.get "b -> b"], [.clear, .get "b -> b"]], ∀ text ∈ ["a -> a", "c -> c"],
      ∃ first again, (full.get text).1 = .ok first
        ∧ (((full.get text).2.run between).get text).1 = .ok again
        ∧ .get text ∉ between
        ∧ (again.number = first.number ↔ text = "a -> a" ∧ between = [.get "b -> b"]) := by
  intro between hb text ht
  have reads : ∀ between ∈ [[.get "b -> b"], [.clear, .get "b -> b"]],
      ∀ text ∈ ["a -> a", "c -> c"],
      (full.get text).1.isOk
        ∧ (((full.get text).2.run between).get text).1.isOk
        ∧ .get text ∉ between
        ∧ ((full.get text).2.contains text ∧ .clear ∉ between
          ↔ text = "a -> a" ∧ between = [.get "b -> b"]) := by
    decide +kernel
  obtain ⟨first, second, unread, shared⟩ := reads between hb text ht
  obtain ⟨first, got⟩ := isOk_iff.mp first
  obtain ⟨again, got_again⟩ := isOk_iff.mp second
  obtain ⟨-, -, -, -, law⟩ := state_law 1 [.get "a -> a", .contains "b -> b"] text
  obtain ⟨-, -, same⟩ := law first got
  exact ⟨first, again, got, got_again, unread, (same between again unread got_again).trans shared⟩

end Cache

end AxisNotation
