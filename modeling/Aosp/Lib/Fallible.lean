import Mathlib.Data.List.Forall2

/- Computations that can stop. `Except ε` is for a stop that ends the program, `Option` for
a call that reports failure; each combinator has one inversion lemma. -/
namespace Fallible

open List

variable {ε α β σ : Type}

variable (fault : ε) (value : Except ε α)

theorem bind_eq_ok (next : α → Except ε β) (result : β) :
    value >>= next = .ok result ↔ ∃ input, value = .ok input ∧ next input = .ok result := by
  cases value with
  | error fault => simp [bind, Except.bind]
  | ok input => simp [bind, Except.bind]

theorem bind_eq_error (next : α → Except ε β) (fault : ε) :
    value >>= next = .error fault ↔
      value = .error fault ∨ ∃ input, value = .ok input ∧ next input = .error fault := by
  cases value with
  | error reason => simp [bind, Except.bind]
  | ok input => simp [bind, Except.bind]

theorem pure_eq_ok (value result : α) :
    (pure value : Except ε α) = .ok result ↔ value = result := by
  simp [pure, Except.pure]

variable (condition : Bool)

/-- Stop with `fault` unless the condition holds. -/
def demand : Except ε Unit :=
  if condition then .ok () else .error fault

theorem demand_eq_ok (result : Unit) : demand fault condition = .ok result ↔ condition = true := by
  cases condition <;> simp [demand]

/-- Index an array; an index outside it is the fault. -/
def index (values : List α) (position : Nat) : Except ε α :=
  match values[position]? with
  | some value => .ok value
  | none => .error fault

theorem index_eq_ok (values : List α) (position : Nat) (result : α) :
    index fault values position = .ok result ↔ values[position]? = some result := by
  unfold index
  cases values[position]? <;> simp

/-- Report failure unless the condition holds. -/
def require : Option Unit :=
  if condition then some () else none

theorem require_eq_some (result : Unit) : require condition = some result ↔ condition = true := by
  cases condition <;> simp [require]

/-- What every step of a loop keeps, the loop keeps. -/
theorem foldlM_ok_invariant (step : σ → α → Except ε σ) (kept : σ → Prop) (items : List α)
    (preserves : ∀ state item next, item ∈ items → kept state → step state item = .ok next →
      kept next)
    (state final : σ) (start : kept state) (done : items.foldlM step state = .ok final) :
    kept final := by
  induction items generalizing state with
  | nil =>
    rw [foldlM_nil, pure_eq_ok] at done
    exact done ▸ start
  | cons item rest ih =>
    rw [foldlM_cons, bind_eq_ok] at done
    obtain ⟨middle, first, done⟩ := done
    exact ih (fun state item next member => preserves state item next (mem_cons_of_mem _ member))
      middle (preserves state item middle mem_cons_self start first) done

theorem foldlM_some_invariant (step : σ → α → Option σ) (kept : σ → Prop) (items : List α)
    (preserves : ∀ state item next, item ∈ items → kept state → step state item = some next →
      kept next)
    (state final : σ) (start : kept state) (done : items.foldlM step state = some final) :
    kept final := by
  induction items generalizing state with
  | nil =>
    cases done
    exact start
  | cons item rest ih =>
    rw [foldlM_cons, Option.bind_eq_bind, Option.bind_eq_some_iff] at done
    obtain ⟨middle, first, done⟩ := done
    exact ih (fun state item next member => preserves state item next (mem_cons_of_mem _ member))
      middle (preserves state item middle mem_cons_self start first) done

/-- An invariant that also mentions the items already done. -/
theorem foldlM_some_done (step : σ → α → Option σ) (kept : List α → σ → Prop)
    (preserves : ∀ done state item next, kept done state → step state item = some next →
      kept (done ++ [item]) next)
    (done items : List α) (state final : σ) (start : kept done state)
    (finished : items.foldlM step state = some final) :
    kept (done ++ items) final := by
  induction items generalizing done state with
  | nil =>
    cases finished
    rwa [append_nil]
  | cons item rest ih =>
    rw [foldlM_cons, Option.bind_eq_bind, Option.bind_eq_some_iff] at finished
    obtain ⟨middle, first, finished⟩ := finished
    have later := ih (done ++ [item]) middle (preserves done state item middle start first) finished
    rwa [append_assoc] at later

theorem foldlM_ok_total (step : σ → α → Except ε σ) (items : List α)
    (total : ∀ state, ∀ item ∈ items, ∃ next, step state item = .ok next) (state : σ) :
    ∃ final, items.foldlM step state = .ok final := by
  induction items generalizing state with
  | nil => exact ⟨state, rfl⟩
  | cons item rest ih =>
    obtain ⟨middle, first⟩ := total state item mem_cons_self
    obtain ⟨final, later⟩ := ih (fun state item member =>
      total state item (mem_cons_of_mem _ member)) middle
    exact ⟨final, by rw [foldlM_cons, bind_eq_ok]; exact ⟨middle, first, later⟩⟩

/-- A loop over the indices below `count` collects one value for each. -/
theorem mapM_range_eq_ok (body : Nat → Except ε α) (count : Nat) (values : List α) :
    (List.range count).mapM body = .ok values ↔
      values.length = count ∧ ∀ i value, values[i]? = some value → body i = .ok value := by
  induction count generalizing values with
  | zero =>
    simp only [range_zero, mapM_nil, pure_eq_ok, length_eq_zero_iff]
    constructor
    · rintro rfl
      simp
    · exact fun same => same.1.symm
  | succ count ih =>
    simp only [range_succ, mapM_append, mapM_cons, mapM_nil, bind_eq_ok, pure_eq_ok]
    constructor
    · rintro ⟨front, before, back, ⟨last, here, _, rfl, rfl⟩, rfl⟩
      obtain ⟨size, each⟩ := (ih front).mp before
      refine ⟨by simp [size], fun i value found => ?_⟩
      rcases Nat.lt_trichotomy i front.length with inside | rfl | outside
      · rw [getElem?_append_left inside] at found
        exact each i value found
      · rw [getElem?_concat_length] at found
        cases found
        rw [size]
        exact here
      · rw [List.getElem?_eq_none (by simp; omega)] at found
        cases found
    · rintro ⟨size, each⟩
      obtain ⟨front, last, rfl⟩ : ∃ front last, values = front ++ [last] := by
        rcases eq_nil_or_concat values with rfl | ⟨front, last, rfl⟩
        · simp at size
        · exact ⟨front, last, concat_eq_append⟩
      have short : front.length = count := by simpa using size
      refine ⟨front, (ih front).mpr ⟨short, fun i value found => ?_⟩, [last],
        ⟨last, ?_, [], rfl, rfl⟩, rfl⟩
      · have inside := (List.getElem?_eq_some_iff.mp found).1
        exact each i value (by rw [getElem?_append_left inside, found])
      · exact short ▸ each front.length last getElem?_concat_length

variable (body : α → Option β)

theorem mapM_eq_some (items : List α) (values : List β) :
    items.mapM body = some values ↔
      List.Forall₂ (fun item value => body item = some value) items values := by
  induction items generalizing values with
  | nil =>
    simp only [forall₂_nil_left_iff]
    constructor
    · rintro ⟨⟩
      rfl
    · rintro rfl
      rfl
  | cons item rest ih =>
    simp only [mapM_cons, Option.bind_eq_bind, Option.bind_eq_some_iff, forall₂_cons_left_iff, ih]
    constructor
    · rintro ⟨value, here, later, collected, ⟨⟩⟩
      exact ⟨value, later, here, collected, rfl⟩
    · rintro ⟨value, later, here, collected, rfl⟩
      exact ⟨value, here, later, collected, rfl⟩

/-- A loop succeeds when every round does. -/
theorem mapM_isSome (items : List α) :
    (items.mapM body).isSome ↔
      ∀ item ∈ items, (body item).isSome := by
  induction items with
  | nil => simp
  | cons item rest ih =>
    rw [mapM_cons, forall_mem_cons, ← ih]
    cases body item <;> cases rest.mapM body <;> simp

variable {items : List α} {values : List β}

/-- A body that can only give one value makes a loop that can only give their list. -/
theorem mapM_eq_map {body : α → Option β} {value : α → β}
    (agrees : ∀ item result, body item = some result → result = value item)
    (collected : items.mapM body = some values) :
    values = items.map value := by
  rw [mapM_eq_some] at collected
  induction collected with
  | nil => rfl
  | cons here _ ih => rw [map_cons, ih, agrees _ _ here]

theorem mem_of_mapM_eq_some (collected : items.mapM body = some values) {value : β}
    (member : value ∈ values) :
    ∃ item ∈ items, body item = some value := by
  rw [mapM_eq_some] at collected
  induction collected with
  | nil => cases member
  | @cons item first _ _ here _ ih =>
    rcases mem_cons.mp member with rfl | later
    · exact ⟨item, mem_cons_self, here⟩
    · obtain ⟨found, inside, made⟩ := ih later
      exact ⟨found, mem_cons_of_mem _ inside, made⟩

/-- A loop that stops does so in one of its rounds. -/
theorem mapM_eq_error (body : α → Except ε β) (items : List α) (fault : ε)
    (stopped : items.mapM body = .error fault) :
    ∃ item ∈ items, body item = .error fault := by
  induction items with
  | nil => cases stopped
  | cons item rest ih =>
    rw [mapM_cons, bind_eq_error] at stopped
    rcases stopped with here | ⟨value, -, stopped⟩
    · exact ⟨item, mem_cons_self, here⟩
    · rcases (bind_eq_error _ _ _).mp stopped with later | ⟨_, -, stopped⟩
      · obtain ⟨found, member, failed⟩ := ih later
        exact ⟨found, mem_cons_of_mem _ member, failed⟩
      · cases stopped

/-- The computation does not stop with this fault, and its result is as it should be. -/
def Ends (P : α → Prop) : Prop :=
  value ≠ .error fault ∧ ∀ result, value = .ok result → P result

section Ends

variable {fault} {value} {P : α → Prop} {Q : β → Prop}

theorem Ends.error {other : ε} (ne : other ≠ fault) : Ends fault (.error other) P :=
  ⟨fun same => ne (Except.error.inj same), nofun⟩

theorem Ends.ok {result : α} (holds : P result) : Ends fault (.ok result) P :=
  ⟨nofun, fun _ same => Except.ok.inj same ▸ holds⟩

theorem Ends.imp {R : α → Prop} (ends : Ends fault value P)
    (weaker : ∀ result, P result → R result) :
    Ends fault value R :=
  ⟨ends.1, fun result isOk => weaker result (ends.2 result isOk)⟩

theorem Ends.bind {next : α → Except ε β} (ends : Ends fault value P)
    (later : ∀ input, P input → Ends fault (next input) Q) :
    Ends fault (value >>= next) Q := by
  cases value with
  | error other => exact .error fun same => ends.1 (congrArg _ same)
  | ok input => exact later input (ends.2 input rfl)

end Ends

end Fallible
