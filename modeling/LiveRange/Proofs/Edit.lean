/-! # Programs that work in place

A program may change a state as it goes, and break off at any point (`Edit`).  What it has changed by
then stays changed, so an attempt gives a state whether it succeeds or not.

A program may go from states that stand for values to states that do, by way of a function on these
values (`Edit.Follows`).  Loops go along with that (`Edit.follows_forM`). -/

namespace LiveRange

variable {S E V α β : Type}

/-- A program that changes a state in place.  Where it breaks off, it leaves the state as it is
then. -/
abbrev Edit (S E : Type) := ExceptT E (StateM S)

namespace Edit

/-- What a program answers, and the state that it leaves. -/
def attempt (edit : Edit S E α) (s : S) : Except E α × S := (edit.run.run s).run

/-- What comes of a change that is made in one step: where it is refused, the state stays as it
was. -/
def orKeep (change : Except E (α × S)) (s : S) : Except E α × S :=
  match change with
  | .ok (answer, s') => (.ok answer, s')
  | .error e => (.error e, s)

theorem attempt_get (s : S) : (get : Edit S E S).attempt s = (.ok s, s) := rfl

theorem attempt_set (s s' : S) : (set s' : Edit S E PUnit).attempt s = (.ok ⟨⟩, s') := rfl

theorem attempt_modify (f : S → S) (s : S) : (modify f : Edit S E PUnit).attempt s = (.ok ⟨⟩, f s) := rfl

theorem attempt_pure (a : α) (s : S) : (pure a : Edit S E α).attempt s = (.ok a, s) := rfl

theorem attempt_bind (edit : Edit S E α) (next : α → Edit S E β) (s : S) :
    (edit >>= next).attempt s =
      match edit.attempt s with
      | (.ok a, s') => (next a).attempt s'
      | (.error e, s') => (.error e, s') := by
  have h_unfold : (edit >>= next).attempt s =
      match (edit.attempt s).1 with
      | .ok a => (next a).attempt (edit.attempt s).2
      | .error e => (.error e, (edit.attempt s).2) := by
    show (ExceptT.bindCont next (edit.attempt s).1 (edit.attempt s).2) = _
    cases (edit.attempt s).1 <;> rfl
  rw [h_unfold]
  rcases edit.attempt s with ⟨_ | _, _⟩ <;> rfl

theorem attempt_bind_of_ok {edit : Edit S E α} {s s' : S} {a : α} (h : edit.attempt s = (.ok a, s'))
    (next : α → Edit S E β) : (edit >>= next).attempt s = (next a).attempt s' := by
  rw [attempt_bind, h]

theorem attempt_bind_of_error {edit : Edit S E α} {s s' : S} {e : E}
    (h : edit.attempt s = (.error e, s')) (next : α → Edit S E β) :
    (edit >>= next).attempt s = (.error e, s') := by
  rw [attempt_bind, h]

theorem attempt_return {edit : Edit S E α} {s : S} {change : Except E (α × S)}
    (h : edit.attempt s = orKeep change s) (f : α → β) :
    (edit >>= fun a => pure (f a)).attempt s = orKeep (change.map fun r => (f r.1, r.2)) s := by
  rw [attempt_bind, h]
  cases change <;> rfl

/-! ## Loops -/

/-- A loop that only looks at the state leaves it as it is. -/
theorem attempt_foldlM {f : β → α → Edit S E β} {g : β → α → Except E β} {s : S}
    (h : ∀ b a, (f b a).attempt s = (g b a, s)) (xs : List α) (b : β) :
    (xs.foldlM f b).attempt s = (xs.foldlM g b, s) := by
  induction xs generalizing b with
  | nil => rfl
  | cons x rest ih =>
    rw [List.foldlM_cons, List.foldlM_cons, attempt_bind, h]
    cases g b x with
    | ok b' => exact ih b'
    | error e => rfl

/-- From the state of one value a program goes to the state of another, or breaks off at the state of
some value. -/
def Follows (edit : Edit S E PUnit) (state : V → S) (v : V) (result : Except E V) : Prop :=
  match result with
  | .ok v' => edit.attempt (state v) = (.ok ⟨⟩, state v')
  | .error e => ∃ v', edit.attempt (state v) = (.error e, state v')

theorem Follows.bind {edit : Edit S E PUnit} {next : PUnit → Edit S E PUnit} {state : V → S} {v : V}
    {result : Except E V} {step : V → Except E V} (h : edit.Follows state v result)
    (h_next : ∀ v', (next ⟨⟩).Follows state v' (step v')) :
    (edit >>= next).Follows state v (result >>= step) := by
  cases result with
  | ok v' =>
    have h_rest := h_next v'
    unfold Follows at h_rest ⊢
    rw [attempt_bind_of_ok h]
    exact h_rest
  | error e =>
    obtain ⟨v', h⟩ := h
    exact ⟨v', attempt_bind_of_error h next⟩

theorem follows_forM {body : α → Edit S E PUnit} {state : V → S} {step : V → α → Except E V}
    {xs : List α} (h : ∀ x ∈ xs, ∀ v, (body x).Follows state v (step v x)) (v : V) :
    Edit.Follows (xs.forM body) state v (xs.foldlM step v) := by
  induction xs generalizing v with
  | nil => rfl
  | cons x rest ih =>
    rw [List.foldlM_cons, List.forM_eq_forM, List.forM_cons, ← List.forM_eq_forM]
    exact (h x List.mem_cons_self v).bind (ih fun y hy => h y (List.mem_cons_of_mem x hy))

end Edit

end LiveRange
