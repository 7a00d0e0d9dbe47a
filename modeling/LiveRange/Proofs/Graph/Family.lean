import Mathlib.Data.List.Induction
import LiveRange.Graph.NodeId

/-! # Families

Graphs are used side by side: some are made afresh, others are copied from those that are
there, and each changes on its own.  A `Family` is what a sequence of such requests leaves:
its members in the order in which they were made, and a record of what has happened.

* `Kind` — how members are made, copied and changed.  An action may be refused, and then
  leaves its member as it was (`Kind.outcome`);
* `Kind.run`, `Kind.runFrom` — the family after some requests, from none or from one that is
  there;
* `line` — what was done to a member, and before it was copied, to the one it was copied
  from.

Every run keeps what each of its steps keeps (`Kind.run_induction`), and a fact about a
member and its line need only be kept by actions and by copying (`Kind.run_line`).  No request
reaches another member than the one on which it acts (`Kind.runFrom_other`), and what is kept
beside the members can be left out of a run (`Kind.runFrom_map`). -/

namespace LiveRange

variable {G A R E : Type}

/-- How the members of a family are made and copied under a tag, and what an action on a
member answers and makes of it. -/
structure Kind (G A R E : Type) where
  make : GraphTag → G
  copy : G → GraphTag → G
  act : G → A → Except E (R × G)

/-- What may be asked of a family.  Its members are numbered in the order of their making; a
request that names no member does nothing. -/
inductive Request (A : Type) where
  | make
  | copy (source : Nat)
  | act (member : Nat) (action : A)

inductive Event (A R E : Type) where
  | made (member : Nat)
  | copied (source member : Nat)
  | acted (member : Nat) (action : A) (answer : Except E R)

structure Family (G A R E : Type) where
  supply : TagSupply := {}
  members : List G := []
  /-- What has happened, the latest first. -/
  past : List (Event A R E) := []

/-! ## Runs -/

/-- The family with one more member, made under a fresh tag. -/
def Family.enter (F : Family G A R E) (member : GraphTag → G) (event : Event A R E) :
    Family G A R E :=
  ⟨F.supply.fresh.2, F.members ++ [member F.supply.fresh.1], event :: F.past⟩

def Family.update (F : Family G A R E) (member : Nat) (action : A) (outcome : Except E R × G) :
    Family G A R E :=
  ⟨F.supply, F.members.set member outcome.2, .acted member action outcome.1 :: F.past⟩

theorem Family.getElem?_enter {F : Family G A R E} {member : GraphTag → G} {event : Event A R E}
    {i : Nat} {g : G} : (F.enter member event).members[i]? = some g ↔
      i < F.members.length ∧ F.members[i]? = some g ∨
        i = F.members.length ∧ g = member F.supply.fresh.1 := by
  rw [enter, List.getElem?_append]
  split
  · rename_i h_old
    simp [h_old, Nat.ne_of_lt h_old]
  · rename_i h_new
    simp only [h_new, false_and, false_or, List.getElem?_singleton]
    by_cases h_i : i = F.members.length
    · simp [h_i, eq_comm]
    · have h_later : ¬ i - F.members.length = 0 := by omega
      simp [h_i, h_later]

theorem Family.getElem?_update {F : Family G A R E} {member i : Nat} {g g' : G} {action : A}
    {outcome : Except E R × G} (h : F.members[member]? = some g) :
    (F.update member action outcome).members[i]? = some g' ↔
      i = member ∧ g' = outcome.2 ∨ i ≠ member ∧ F.members[i]? = some g' := by
  have h_lt := (List.getElem?_eq_some_iff.mp h).1
  rw [update, List.getElem?_set]
  by_cases h_i : i = member
  · simp [h_i, h_lt, eq_comm]
  · simp [h_i, Ne.symm h_i]

namespace Kind

/-- The answer to an action, and the member after it. -/
def outcome (K : Kind G A R E) (g : G) (action : A) : Except E R × G :=
  match K.act g action with
  | .ok (answer, g') => (.ok answer, g')
  | .error e => (.error e, g)

theorem outcome_of_ok {K : Kind G A R E} {g g' : G} {action : A} {answer : R}
    (h : K.act g action = .ok (answer, g')) : K.outcome g action = (.ok answer, g') := by
  simp only [outcome, h]

theorem outcome_of_error {K : Kind G A R E} {g : G} {action : A} {e : E}
    (h : K.act g action = .error e) : K.outcome g action = (.error e, g) := by
  simp only [outcome, h]

def step (K : Kind G A R E) (F : Family G A R E) : Request A → Family G A R E
  | .make => F.enter K.make (.made F.members.length)
  | .copy source =>
    match F.members[source]? with
    | some g => F.enter (K.copy g) (.copied source F.members.length)
    | none => F
  | .act member action =>
    match F.members[member]? with
    | some g => F.update member action (K.outcome g action)
    | none => F

theorem step_copy {K : Kind G A R E} {F : Family G A R E} {source : Nat} {g : G}
    (h : F.members[source]? = some g) :
    K.step F (.copy source) = F.enter (K.copy g) (.copied source F.members.length) := by
  simp only [step, h]

theorem step_act {K : Kind G A R E} {F : Family G A R E} {member : Nat} {g : G} {action : A}
    (h : F.members[member]? = some g) :
    K.step F (.act member action) = F.update member action (K.outcome g action) := by
  simp only [step, h]

def run (K : Kind G A R E) (requests : List (Request A)) : Family G A R E :=
  requests.foldl K.step {}

theorem run_concat (K : Kind G A R E) (requests : List (Request A)) (request : Request A) :
    K.run (requests ++ [request]) = K.step (K.run requests) request := by
  rw [run, List.foldl_append]
  rfl

/-- What becomes of a family under some requests. -/
def runFrom (K : Kind G A R E) (F : Family G A R E) (requests : List (Request A)) :
    Family G A R E :=
  requests.foldl K.step F

theorem runFrom_append (K : Kind G A R E) (F : Family G A R E) (requests later : List (Request A)) :
    K.runFrom F (requests ++ later) = K.runFrom (K.runFrom F requests) later :=
  List.foldl_append

theorem runFrom_induction {K : Kind G A R E} {I : Family G A R E → Prop} {F₀ : Family G A R E}
    (start : I F₀) (make : ∀ F, I F → I (F.enter K.make (.made F.members.length)))
    (copy : ∀ F source g, F.members[source]? = some g → I F →
      I (F.enter (K.copy g) (.copied source F.members.length)))
    (act : ∀ F member g action, F.members[member]? = some g → I F →
      I (F.update member action (K.outcome g action)))
    (requests : List (Request A)) : I (K.runFrom F₀ requests) := by
  refine List.foldlRecOn requests K.step start fun F h request _ => ?_
  cases request with
  | make => exact make F h
  | copy source =>
    simp only [step]
    split
    · rename_i g h_source
      exact copy F source g h_source h
    · exact h
  | act member action =>
    simp only [step]
    split
    · rename_i g h_member
      exact act F member g action h_member h
    · exact h

theorem run_induction {K : Kind G A R E} {I : Family G A R E → Prop} (start : I {})
    (make : ∀ F, I F → I (F.enter K.make (.made F.members.length)))
    (copy : ∀ F source g, F.members[source]? = some g → I F →
      I (F.enter (K.copy g) (.copied source F.members.length)))
    (act : ∀ F member g action, F.members[member]? = some g → I F →
      I (F.update member action (K.outcome g action)))
    (requests : List (Request A)) : I (K.run requests) :=
  runFrom_induction start make copy act requests

/-- Every answer that was given is what an action on some member came to. -/
theorem exists_outcome_of_acted {K : Kind G A R E} (requests : List (Request A)) {member : Nat}
    {action : A} {answer : Except E R} (h : .acted member action answer ∈ (K.run requests).past) :
    ∃ g, answer = (K.outcome g action).1 := by
  refine run_induction (K := K) (I := fun F => ∀ {member action answer},
    .acted member action answer ∈ F.past → ∃ g, answer = (K.outcome g action).1) nofun ?_ ?_ ?_
    requests h
  · intro F ih member action answer h_past
    exact ih ((List.mem_cons.mp h_past).resolve_left nofun)
  · intro F source g _ ih member action answer h_past
    exact ih ((List.mem_cons.mp h_past).resolve_left nofun)
  · intro F k g action' _ ih member action answer h_past
    rcases List.mem_cons.mp h_past with h_now | h_before
    · obtain ⟨rfl, rfl, rfl⟩ := Event.acted.inj h_now
      exact ⟨g, rfl⟩
    · exact ih h_before

/-- A request leaves every member as it was but the one on which it acts. -/
theorem step_other {K : Kind G A R E} {F : Family G A R E} {i : Nat} {g : G} {request : Request A}
    (h : F.members[i]? = some g) (h_other : ∀ action, request ≠ .act i action) :
    (K.step F request).members[i]? = some g := by
  have h_lt := (List.getElem?_eq_some_iff.mp h).1
  cases request with
  | make => exact Family.getElem?_enter.mpr (.inl ⟨h_lt, h⟩)
  | copy source =>
    simp only [step]
    split
    · exact Family.getElem?_enter.mpr (.inl ⟨h_lt, h⟩)
    · exact h
  | act member action =>
    simp only [step]
    split
    · rename_i g' h_member
      refine (Family.getElem?_update h_member).mpr (.inr ⟨fun h_same => ?_, h⟩)
      exact h_other action (h_same ▸ rfl)
    · exact h

theorem runFrom_other {K : Kind G A R E} {F : Family G A R E} {i : Nat} {g : G}
    (h : F.members[i]? = some g) {requests : List (Request A)}
    (h_other : ∀ action, .act i action ∉ requests) :
    (K.runFrom F requests).members[i]? = some g := by
  refine List.foldlRecOn requests K.step (motive := fun F => F.members[i]? = some g) h
    fun F h_F request h_mem => step_other h_F fun action h_act => h_other action ?_
  exact h_act ▸ h_mem

end Kind

/-- A family whose members have something left out. -/
def Family.map {G' : Type} (f : G → G') (F : Family G A R E) : Family G' A R E :=
  ⟨F.supply, F.members.map f, F.past⟩

section

variable {G' : Type} {K : Kind G A R E} {K' : Kind G' A R E} {f : G → G'}

theorem Kind.step_map (make : ∀ tag, f (K.make tag) = K'.make tag)
    (copy : ∀ g tag, f (K.copy g tag) = K'.copy (f g) tag)
    (act : ∀ g action, K'.outcome (f g) action = (K.outcome g action).map id f)
    (F : Family G A R E) (request : Request A) :
    K'.step (F.map f) request = (K.step F request).map f := by
  cases request with
  | make => simp [step, Family.map, Family.enter, make]
  | copy source =>
    cases h_source : F.members[source]? with
    | none => simp [step, Family.map, h_source]
    | some g => simp [step, Family.map, Family.enter, h_source, copy]
  | act member action =>
    cases h_member : F.members[member]? with
    | none => simp [step, Family.map, h_member]
    | some g => simp [step, Family.map, Family.update, h_member, act]

/-- If it does not matter for what is done with the members, it does not matter for a run. -/
theorem Kind.runFrom_map (make : ∀ tag, f (K.make tag) = K'.make tag)
    (copy : ∀ g tag, f (K.copy g tag) = K'.copy (f g) tag)
    (act : ∀ g action, K'.outcome (f g) action = (K.outcome g action).map id f)
    (F : Family G A R E) (requests : List (Request A)) :
    (K.runFrom F requests).map f = K'.runFrom (F.map f) requests :=
  (List.foldl_hom (Family.map f) fun F request => step_map make copy act F request).symm

end

/-! ## Lines of copies -/

/-- What was done on the line of a member, the latest first: each action with its answer, and
with the number of the member it was done to. -/
def line : List (Event A R E) → Nat → List (Nat × A × Except E R)
  | [], _ => []
  | .made member :: past, i => if i = member then [] else line past i
  | .copied source member :: past, i => if i = member then line past source else line past i
  | .acted member action answer :: past, i =>
    if i = member then (member, action, answer) :: line past i else line past i

theorem acted_of_mem_line {past : List (Event A R E)} {i member : Nat} {action : A}
    {answer : Except E R} (h : (member, action, answer) ∈ line past i) :
    .acted member action answer ∈ past := by
  induction past generalizing i with
  | nil => cases h
  | cons event past ih =>
    cases event with
    | made k =>
      rw [line] at h
      split at h
      · cases h
      · exact List.mem_cons_of_mem _ (ih h)
    | copied source k =>
      rw [line] at h
      split at h
      · exact List.mem_cons_of_mem _ (ih h)
      · exact List.mem_cons_of_mem _ (ih h)
    | acted k action' answer' =>
      rw [line] at h
      split at h
      · rcases List.mem_cons.mp h with h_here | h_before
        · cases h_here
          exact List.mem_cons_self
        · exact List.mem_cons_of_mem _ (ih h_before)
      · exact List.mem_cons_of_mem _ (ih h)

theorem Kind.runFrom_line {K : Kind G A R E} {Q : List (Nat × A × Except E R) → G → Prop}
    {F₀ : Family G A R E} (start : ∀ i g, F₀.members[i]? = some g → Q (line F₀.past i) g)
    (make : ∀ tag, Q [] (K.make tag)) (copy : ∀ l g tag, Q l g → Q l (K.copy g tag))
    (act : ∀ l g member action, Q l g →
      Q ((member, action, (K.outcome g action).1) :: l) (K.outcome g action).2)
    (requests : List (Request A)) :
    ∀ i g, (K.runFrom F₀ requests).members[i]? = some g →
      Q (line (K.runFrom F₀ requests).past i) g := by
  refine runFrom_induction (I := fun F => ∀ i g, F.members[i]? = some g → Q (line F.past i) g)
    start ?_ ?_ ?_ requests
  · intro F ih i g h
    rw [Family.enter, line]
    rcases Family.getElem?_enter.mp h with ⟨h_lt, h_old⟩ | ⟨rfl, rfl⟩
    · rw [if_neg (Nat.ne_of_lt h_lt)]
      exact ih i g h_old
    · rw [if_pos rfl]
      exact make _
  · intro F source g h_source ih i g' h
    rw [Family.enter, line]
    rcases Family.getElem?_enter.mp h with ⟨h_lt, h_old⟩ | ⟨rfl, rfl⟩
    · rw [if_neg (Nat.ne_of_lt h_lt)]
      exact ih i g' h_old
    · -- the line of a copy goes on where that of its source stands now
      rw [if_pos rfl]
      exact copy _ _ _ (ih source g h_source)
  · intro F member g action h_member ih i g' h
    rw [Family.update, line]
    rcases (Family.getElem?_update h_member).mp h with ⟨rfl, rfl⟩ | ⟨h_other, h_old⟩
    · rw [if_pos rfl]
      exact act _ _ _ _ (ih i g h_member)
    · rw [if_neg h_other]
      exact ih i g' h_old

theorem Kind.run_line {K : Kind G A R E} {Q : List (Nat × A × Except E R) → G → Prop}
    (make : ∀ tag, Q [] (K.make tag)) (copy : ∀ l g tag, Q l g → Q l (K.copy g tag))
    (act : ∀ l g member action, Q l g →
      Q ((member, action, (K.outcome g action).1) :: l) (K.outcome g action).2)
    (requests : List (Request A)) :
    ∀ i g, (K.run requests).members[i]? = some g → Q (line (K.run requests).past i) g :=
  runFrom_line nofun make copy act requests

end LiveRange
