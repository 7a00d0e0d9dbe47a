import Mathlib.Data.List.Forall2

/-! # Computations that may fail

What is known of an `Except` computation that succeeds, for the three ways in which the
analyses put such computations together: one after the other, a fold over a list, and one
for each member of a list. -/

namespace LiveRange

universe u v w

variable {α : Type w} {β σ : Type u} {ε : Type v}

theorem bind_eq_ok {x : Except ε σ} {f : σ → Except ε β} {b : β} :
    x >>= f = .ok b ↔ ∃ a, x = .ok a ∧ f a = .ok b := by
  cases x with
  | error e => exact ⟨nofun, nofun⟩
  | ok a => exact ⟨fun h => ⟨a, rfl, h⟩, fun ⟨_, h_eq, h⟩ => by cases h_eq; exact h⟩

theorem bind_eq_error {x : Except ε σ} {f : σ → Except ε β} {e : ε} :
    x >>= f = .error e ↔ x = .error e ∨ ∃ a, x = .ok a ∧ f a = .error e := by
  cases x with
  | error e' =>
    constructor
    · intro h
      cases h
      exact .inl rfl
    · intro h
      obtain h_first | ⟨_, h_eq, _⟩ := h
      · cases h_first
        rfl
      · cases h_eq
  | ok a =>
    constructor
    · exact fun h => .inr ⟨a, rfl, h⟩
    · intro h
      obtain h_first | ⟨_, h_eq, h_next⟩ := h
      · cases h_first
      · cases h_eq
        exact h_next

theorem map_eq_ok {x : Except ε σ} {f : σ → β} {b : β} :
    f <$> x = .ok b ↔ ∃ a, x = .ok a ∧ f a = b := by
  cases x with
  | error e => exact ⟨nofun, nofun⟩
  | ok a =>
    constructor
    · intro h
      exact ⟨a, rfl, Except.ok.inj h⟩
    · intro h_some
      obtain ⟨_, h_eq, rfl⟩ := h_some
      cases h_eq
      rfl

theorem map_eq_error {x : Except ε σ} (f : σ → β) {e : ε} (h : x = .error e) :
    f <$> x = .error e := by
  rw [h]
  rfl

theorem map_eq_error_iff {x : Except ε σ} {f : σ → β} {e : ε} :
    f <$> x = .error e ↔ x = .error e := by
  refine ⟨fun h => ?_, map_eq_error f⟩
  cases x with
  | error e' =>
    cases h
    rfl
  | ok a => cases h

theorem mapError_eq_ok {ε' : Type*} {f : ε → ε'} {x : Except ε σ} {a : σ} :
    x.mapError f = .ok a ↔ x = .ok a := by
  cases x <;> simp [Except.mapError]

theorem toOption_map (x : Except ε σ) (f : σ → β) : (f <$> x).toOption = x.toOption.map f := by
  cases x <;> rfl

theorem foldlM_eq_ok {f : σ → α → Except ε σ} {g : σ → α → σ} {xs : List α}
    (h : ∀ s, ∀ x ∈ xs, f s x = .ok (g s x)) (start : σ) :
    xs.foldlM f start = .ok (xs.foldl g start) := by
  induction xs generalizing start with
  | nil => rfl
  | cons x rest ih =>
    rw [List.foldlM_cons, h start x List.mem_cons_self]
    exact ih (fun s y hy => h s y (List.mem_cons_of_mem x hy)) (g start x)

theorem foldlM_flatMap {γ : Type*} {f : σ → α → Except ε σ} (rows : γ → List α) (xs : List γ)
    (start : σ) :
    (xs.flatMap rows).foldlM f start = xs.foldlM (fun s x => (rows x).foldlM f s) start := by
  induction xs generalizing start with
  | nil => rfl
  | cons x rest ih =>
    rw [List.flatMap_cons, List.foldlM_append, List.foldlM_cons]
    exact congrArg _ (funext ih)

/-- A fold fails at the first member for which its step does. -/
theorem foldlM_eq_error {f : σ → α → Except ε σ} {bad : α → Bool} {xs : List α} {x : α} {e : ε}
    (h_first : xs.find? bad = some x) (h_good : ∀ s y, bad y = false → ∃ s', f s y = .ok s')
    (h_fails : ∀ s, f s x = .error e) (start : σ) : xs.foldlM f start = .error e := by
  induction xs generalizing start with
  | nil => cases h_first
  | cons y rest ih =>
    rw [List.foldlM_cons]
    cases h_y : bad y with
    | true =>
      rw [List.find?_cons_of_pos h_y, Option.some.injEq] at h_first
      rw [h_first, h_fails]
      rfl
    | false =>
      rw [List.find?_cons_of_neg (Bool.eq_false_iff.mp h_y)] at h_first
      obtain ⟨s', h_step⟩ := h_good start y h_y
      rw [h_step]
      exact ih h_first s'

theorem exists_mapM_eq_ok {f : α → Except ε β} {xs : List α} (h : ∀ x ∈ xs, ∃ y, f x = .ok y) :
    ∃ ys, xs.mapM f = .ok ys := by
  induction xs with
  | nil => exact ⟨[], rfl⟩
  | cons x rest ih =>
    rw [List.forall_mem_cons] at h
    obtain ⟨y, h_head⟩ := h.1
    obtain ⟨ys, h_tail⟩ := ih h.2
    rw [List.mapM_cons, h_head, h_tail]
    exact ⟨y :: ys, rfl⟩

theorem mapM_eq_ok_map {f : α → Except ε β} {g : α → β} {xs : List α}
    (h : ∀ x ∈ xs, f x = .ok (g x)) : xs.mapM f = .ok (xs.map g) := by
  induction xs with
  | nil => rfl
  | cons x rest ih =>
    rw [List.forall_mem_cons] at h
    rw [List.mapM_cons, h.1, ih h.2]
    rfl

theorem forall₂_of_mapM_eq_ok {f : α → Except ε β} {xs : List α} {ys : List β}
    (h : xs.mapM f = .ok ys) : List.Forall₂ (fun x y => f x = .ok y) xs ys := by
  induction xs generalizing ys with
  | nil =>
    cases h
    exact .nil
  | cons x rest ih =>
    rw [List.mapM_cons] at h
    obtain ⟨y, h_head, h⟩ := bind_eq_ok.mp h
    obtain ⟨ys, h_tail, h⟩ := bind_eq_ok.mp h
    cases h
    exact .cons h_head (ih h_tail)

theorem exists_of_mapM_eq_ok {f : α → Except ε β} {xs : List α} {ys : List β}
    (h : xs.mapM f = .ok ys) {x : α} (hx : x ∈ xs) : ∃ y, f x = .ok y := by
  obtain ⟨i, hi, rfl⟩ := List.getElem_of_mem hx
  have h_rows := forall₂_of_mapM_eq_ok h
  exact ⟨_, h_rows.get hi (h_rows.length_eq ▸ hi)⟩

/-- A computation for each member of a list fails as it does for the first member for which it
fails. -/
theorem exists_of_mapM_eq_error {f : α → Except ε β} {xs : List α} {e : ε}
    (h : xs.mapM f = .error e) : ∃ before x after, xs = before ++ x :: after ∧
      (∀ y ∈ before, ∃ z, f y = .ok z) ∧ f x = .error e := by
  induction xs with
  | nil => cases h
  | cons x rest ih =>
    rw [List.mapM_cons, bind_eq_error] at h
    rcases h with h_head | ⟨y, h_head, h⟩
    · exact ⟨[], x, rest, rfl, List.forall_mem_nil _, h_head⟩
    · rcases bind_eq_error.mp h with h_tail | ⟨_, _, h_done⟩
      · obtain ⟨before, x', after, rfl, h_before, h_fails⟩ := ih h_tail
        exact ⟨x :: before, x', after, rfl, List.forall_mem_cons.mpr ⟨⟨y, h_head⟩, h_before⟩, h_fails⟩
      · cases h_done

theorem exists_eq_ok_iff {x : Except ε σ} : (∃ a, x = .ok a) ↔ ∀ e, x ≠ .error e := by
  cases x with
  | error e => exact ⟨nofun, fun h => absurd rfl (h e)⟩
  | ok a => exact ⟨fun _ => nofun, fun _ => ⟨a, rfl⟩⟩

theorem mapM_cons_eq_error {f : α → Except ε β} {x : α} {rest : List α} {e : ε} :
    (x :: rest).mapM f = .error e ↔
      f x = .error e ∨ (∃ y, f x = .ok y) ∧ rest.mapM f = .error e := by
  rw [List.mapM_cons, bind_eq_error, ← exists_and_right]
  refine or_congr_right (exists_congr fun y => and_congr_right fun _ => ?_)
  rw [bind_pure_comp, map_eq_error_iff]

/-- Computations that fail alike for each member of a list fail alike for the list. -/
theorem mapM_eq_error_congr {f : α → Except ε β} {f' : α → Except ε σ} {xs : List α}
    (h : ∀ x ∈ xs, ∀ e, f x = .error e ↔ f' x = .error e) {e : ε} :
    xs.mapM f = .error e ↔ xs.mapM f' = .error e := by
  induction xs with
  | nil => exact ⟨nofun, nofun⟩
  | cons x rest ih =>
    rw [List.forall_mem_cons] at h
    have h_ok : (∃ y, f x = .ok y) ↔ ∃ y, f' x = .ok y := by
      rw [exists_eq_ok_iff, exists_eq_ok_iff]
      exact forall_congr' fun e => not_congr (h.1 e)
    rw [mapM_cons_eq_error, mapM_cons_eq_error, h.1 e, h_ok, ih h.2]

theorem flatMap_of_mapM_eq_ok {γ : Type*} {f : α → Except ε β} {xs : List α} {ys : List β}
    {l : α → List γ} {l' : β → List γ} (h : xs.mapM f = .ok ys)
    (h_each : ∀ x ∈ xs, ∀ y, f x = .ok y → l x = l' y) : xs.flatMap l = ys.flatMap l' := by
  induction xs generalizing ys with
  | nil =>
    cases h
    rfl
  | cons x rest ih =>
    rw [List.mapM_cons] at h
    obtain ⟨y, h_head, h⟩ := bind_eq_ok.mp h
    obtain ⟨ys, h_tail, h⟩ := bind_eq_ok.mp h
    cases h
    rw [List.flatMap_cons, List.flatMap_cons, h_each x List.mem_cons_self y h_head,
      ih h_tail fun z hz => h_each z (List.mem_cons_of_mem x hz)]

/-- Members of related lists stand next to what they are related to. -/
theorem mem_zip_of_forall₂ {γ : Type u} {R : α → β → Prop} {xs : List α} {ys : List β}
    (h : List.Forall₂ R xs ys) (f : α → γ) :
    (∀ e ∈ (xs.map f).zip ys, ∃ x ∈ xs, f x = e.1 ∧ R x e.2) ∧
      ∀ x ∈ xs, ∃ y, R x y ∧ (f x, y) ∈ (xs.map f).zip ys := by
  induction h with
  | nil => exact ⟨nofun, nofun⟩
  | cons h_head _ ih =>
    rw [List.map_cons, List.zip_cons_cons, List.forall_mem_cons, List.forall_mem_cons]
    refine ⟨⟨⟨_, List.mem_cons_self, rfl, h_head⟩, fun e he => ?_⟩,
      ⟨_, h_head, List.mem_cons_self⟩, fun x hx => ?_⟩
    · obtain ⟨x, hx, h_rel⟩ := ih.1 e he
      exact ⟨x, List.mem_cons_of_mem _ hx, h_rel⟩
    · obtain ⟨y, h_rel, h_mem⟩ := ih.2 x hx
      exact ⟨y, h_rel, List.mem_cons_of_mem _ h_mem⟩

end LiveRange
