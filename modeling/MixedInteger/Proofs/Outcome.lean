import MixedInteger.Fault

/-!
# Outcomes of operations

Operations on tableaus and models keep what they changed before they failed, so a
statement about one of them speaks of both ways in which it can end.  `Ends` says
which states an operation may leave behind in each case, and the rules below
follow the shape of the operations: one after the other, or over a list.  `Alike`
compares two runs of an operation from different states in the same way.
-/

namespace MixedInteger

variable {ε σ β γ : Type}

def finalState : EStateM.Result ε σ β → σ
  | .ok _ state => state
  | .error _ state => state

/-- A computation either succeeds with `post` of its result and state, or fails
with `failed` of its fault and state. -/
def Ends (outcome : EStateM.Result ε σ β) (post : β → σ → Prop) (failed : ε → σ → Prop) : Prop :=
  match outcome with
  | .ok result state => post result state
  | .error fault state => failed fault state

instance decidableSucceeds (outcome : EStateM.Result ε σ Unit) :
    Decidable (∃ state, outcome = .ok () state) :=
  match outcome with
  | .ok _ state => .isTrue ⟨state, rfl⟩
  | .error _ _ => .isFalse (by simp)

instance decidableEnds (outcome : EStateM.Result ε σ β) (post : β → σ → Prop)
    (failed : ε → σ → Prop) [∀ result state, Decidable (post result state)]
    [∀ fault state, Decidable (failed fault state)] : Decidable (Ends outcome post failed) :=
  match outcome with
  | .ok result state => inferInstanceAs (Decidable (post result state))
  | .error fault state => inferInstanceAs (Decidable (failed fault state))

/-! ## One computation after the other -/

section Bind

variable {first : EStateM ε σ β} {state state' : σ}

theorem run_get (state : σ) : (get : EStateM ε σ σ) state = .ok state state := rfl

theorem run_set (state state' : σ) : (set state' : EStateM ε σ PUnit) state = .ok () state' := rfl

theorem run_modify (change : σ → σ) (state : σ) :
    (modify change : EStateM ε σ PUnit) state = .ok () (change state) := rfl

theorem bind_of_ok {next : β → EStateM ε σ γ} {result : β}
    (hfirst : first state = .ok result state') : (first >>= next) state = next result state' := by
  have hbind : (first >>= next) state = EStateM.bind first next state := rfl
  rw [hbind, EStateM.bind, hfirst]

theorem bind_of_error {next : β → EStateM ε σ γ} {fault : ε}
    (hfirst : first state = .error fault state') :
    (first >>= next) state = .error fault state' := by
  have hbind : (first >>= next) state = EStateM.bind first next state := rfl
  rw [hbind, EStateM.bind, hfirst]

/-- Only the first step of a computation can fail if the second one writes. -/
theorem error_of_bind_modify {change : β → σ → σ} {fault : ε}
    (h : (first >>= fun result => modify (change result) : EStateM ε σ PUnit) state =
      .error fault state') : first state = .error fault state' := by
  cases hfirst : first state with
  | ok result middle =>
    rw [bind_of_ok hfirst] at h
    exact nomatch h
  | error fault' middle =>
    rw [bind_of_error hfirst] at h
    injection h with hfault hstate
    rw [hfault, hstate]

theorem forM_cons_of_ok {body : β → EStateM ε σ PUnit} {item : β} {rest : List β}
    {result : PUnit} (hbody : body item state = .ok result state') :
    (item :: rest).forM body state = rest.forM body state' :=
  bind_of_ok hbody

end Bind

namespace Ends

variable {post : β → σ → Prop} {failed : ε → σ → Prop}

theorem of_ok {outcome : EStateM.Result ε σ β} {result : β} {state : σ}
    (hends : Ends outcome post failed) (hok : outcome = .ok result state) :
    post result state := by
  rw [hok] at hends
  exact hends

/-- A computation that cannot fail succeeds. -/
theorem exists_ok {outcome : EStateM.Result ε σ β}
    (hends : Ends outcome post fun _ _ => False) :
    ∃ result state, outcome = .ok result state ∧ post result state := by
  cases outcome with
  | ok result state => exact ⟨result, state, rfl, hends⟩
  | error fault state => exact hends.elim

/-- Both postconditions can be relaxed. -/
theorem mono {outcome : EStateM.Result ε σ β} {post' : β → σ → Prop} {failed' : ε → σ → Prop}
    (hends : Ends outcome post failed)
    (hpost : ∀ result state, post result state → post' result state)
    (hfailed : ∀ fault state, failed fault state → failed' fault state) :
    Ends outcome post' failed' := by
  cases outcome with
  | ok result state => exact hpost result state hends
  | error fault state => exact hfailed fault state hends

/-- What holds on success alone. -/
theorem success {outcome : EStateM.Result ε σ β} {post' : β → σ → Prop}
    (hends : Ends outcome post failed)
    (hpost : ∀ result state, post result state → post' result state) :
    Ends outcome post' fun _ _ => True :=
  hends.mono hpost fun _ _ _ => trivial

theorem and_success {outcome : EStateM.Result ε σ β} {post' : β → σ → Prop}
    (hends : Ends outcome post failed) (hsuccess : Ends outcome post' fun _ _ => True) :
    Ends outcome (fun result state => post result state ∧ post' result state)
      fun _ _ => True := by
  cases outcome with
  | ok result state => exact ⟨hends, hsuccess⟩
  | error fault state => trivial

/-- A property of the state in both cases is a property of the final state. -/
theorem finalState {outcome : EStateM.Result ε σ β} {kept : σ → Prop}
    (hends : Ends outcome (fun _ => kept) fun _ => kept) : kept (finalState outcome) := by
  cases outcome with
  | ok result state => exact hends
  | error fault state => exact hends

/-- What holds of the state that is left behind holds however the computation ends. -/
theorem of_finalState {outcome : EStateM.Result ε σ β} {kept : σ → Prop}
    (hkept : kept (MixedInteger.finalState outcome)) :
    Ends outcome (fun _ => kept) fun _ => kept := by
  cases outcome with
  | ok result state => exact hkept
  | error fault state => exact hkept

theorem bind {first : EStateM ε σ β} {next : β → EStateM ε σ γ} {state : σ}
    {last : γ → σ → Prop} (hfirst : Ends (first state) post failed)
    (hnext : ∀ result state', post result state' → Ends (next result state') last failed) :
    Ends ((first >>= next) state) last failed := by
  cases houtcome : first state with
  | ok result state' =>
    rw [houtcome] at hfirst
    rw [bind_of_ok houtcome]
    exact hnext result state' hfirst
  | error fault state' =>
    rw [houtcome] at hfirst
    rw [bind_of_error houtcome]
    exact hfirst

/-- The same computation for every element of a list keeps what each of them
keeps. -/
theorem forM (body : β → EStateM ε σ PUnit) (kept : σ → Prop) (failed : ε → σ → Prop)
    (items : List β)
    (hbody : ∀ item ∈ items, ∀ state, kept state →
      Ends (body item state) (fun _ => kept) failed)
    (state : σ) (hstate : kept state) :
    Ends (items.forM body state) (fun _ => kept) failed := by
  induction items generalizing state with
  | nil => exact hstate
  | cons item rest ih =>
    refine bind (hbody item List.mem_cons_self state hstate) ?_
    intro _ state' hstate'
    exact ih (fun item' hitem' => hbody item' (List.mem_cons_of_mem item hitem')) state' hstate'

/-- The same computation for every element of a list that is not empty relates the first
state to the last one, if each of them does. -/
theorem forM_related (body : β → EStateM ε σ PUnit) (kept : σ → Prop) (related : σ → σ → Prop)
    (htrans : ∀ {first second third}, related first second → related second third →
      related first third)
    {items : List β} (hitems : items ≠ [])
    (hbody : ∀ item ∈ items, ∀ state, kept state →
      Ends (body item state) (fun _ state' => kept state' ∧ related state state')
        fun _ _ => True)
    (state : σ) (hstate : kept state) :
    Ends (items.forM body state) (fun _ state' => kept state' ∧ related state state')
      fun _ _ => True := by
  induction items generalizing state with
  | nil => exact absurd rfl hitems
  | cons item rest ih =>
    refine bind (hbody item List.mem_cons_self state hstate) ?_
    rintro _ state' ⟨hstate', hrelated⟩
    by_cases hrest : rest = []
    · rw [hrest]
      exact ⟨hstate', hrelated⟩
    · apply (ih hrest (fun item' hitem' => hbody item' (List.mem_cons_of_mem item hitem'))
        state' hstate').success
      rintro _ state'' ⟨hstate'', hrelated'⟩
      exact ⟨hstate'', htrans hrelated hrelated'⟩

end Ends

/-! ## Two computations side by side -/

/-- Two computations end in the same way: both succeed with one result and `related`
states, or both fail with one fault and `failed` states. -/
def Alike (related failed : σ → σ → Prop) :
    EStateM.Result ε σ β → EStateM.Result ε σ β → Prop
  | .ok result state, .ok result' state' => result' = result ∧ related state state'
  | .error fault state, .error fault' state' => fault' = fault ∧ failed state state'
  | _, _ => False

namespace Alike

variable {related failed : σ → σ → Prop}

theorem exists_ok {outcome outcome' : EStateM.Result ε σ β} {result : β} {state : σ}
    (halike : Alike related failed outcome outcome') (hok : outcome = .ok result state) :
    ∃ state', outcome' = .ok result state' ∧ related state state' := by
  subst hok
  cases outcome' with
  | ok result' state' =>
    obtain ⟨rfl, hrelated⟩ := halike
    exact ⟨state', rfl, hrelated⟩
  | error fault' state' => exact halike.elim

theorem exists_error {outcome outcome' : EStateM.Result ε σ β} {fault : ε} {state : σ}
    (halike : Alike related failed outcome outcome') (herror : outcome = .error fault state) :
    ∃ state', outcome' = .error fault state' ∧ failed state state' := by
  subst herror
  cases outcome' with
  | ok result' state' => exact halike.elim
  | error fault' state' =>
    obtain ⟨rfl, hfailed⟩ := halike
    exact ⟨state', rfl, hfailed⟩

theorem bind {first : EStateM ε σ β} {next : β → EStateM ε σ γ} {state state' : σ}
    {last : σ → σ → Prop} (hfirst : Alike related failed (first state) (first state'))
    (hnext : ∀ result middle middle', related middle middle' →
      Alike last failed (next result middle) (next result middle')) :
    Alike last failed ((first >>= next) state) ((first >>= next) state') := by
  cases houtcome : first state with
  | ok result middle =>
    obtain ⟨middle', houtcome', hrelated⟩ := hfirst.exists_ok houtcome
    rw [bind_of_ok houtcome, bind_of_ok houtcome']
    exact hnext result middle middle' hrelated
  | error fault middle =>
    obtain ⟨middle', houtcome', hfailed⟩ := hfirst.exists_error houtcome
    rw [bind_of_error houtcome, bind_of_error houtcome']
    exact ⟨rfl, hfailed⟩

theorem forM (body : β → EStateM ε σ PUnit)
    (hbody : ∀ item state state', related state state' →
      Alike related failed (body item state) (body item state'))
    (items : List β) {state state' : σ} (hrelated : related state state') :
    Alike related failed (items.forM body state) (items.forM body state') := by
  induction items generalizing state state' with
  | nil => exact ⟨rfl, hrelated⟩
  | cons item rest ih => exact bind (hbody item state state' hrelated) fun _ _ _ => ih

end Alike

end MixedInteger
