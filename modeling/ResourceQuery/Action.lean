import ResourceQuery.Error

/-! # Actions

A computation with a state that may fail. Unlike a computation that fails without a result, a failing
action leaves a state behind: whatever it had changed before it failed is changed. Who calls it decides
whether to go on from that state.
-/

namespace ResourceQuery

/-- An action on a state `σ` that may fail. -/
abbrev Action (σ α : Type) := ExceptT Error (StateM σ) α

namespace Action

variable {σ τ α : Type}

/-- Runs an action. -/
def runOn (action : Action σ α) (state : σ) : Except Error α × σ :=
  StateT.run (ExceptT.run action) state

/-- The action with the given behaviour. -/
def ofFunction (f : σ → Except Error α × σ) : Action σ α :=
  ExceptT.mk (fun state => pure (f state))

/-- An action that looks at the state and may fail, and changes nothing. -/
def look (f : σ → Except Error α) : Action σ α :=
  ofFunction fun state => (f state, state)

/-- An action that changes the state and cannot fail. -/
def change (f : σ → α × σ) : Action σ α :=
  ofFunction fun state => let (a, state) := f state; (.ok a, state)

/-- The action that fails. -/
def fail (e : Error) : Action σ α :=
  ofFunction fun state => (.error e, state)

@[simp] theorem runOn_ofFunction (f : σ → Except Error α × σ) (state : σ) :
    (ofFunction f).runOn state = f state := rfl

@[simp] theorem runOn_pure (a : α) (state : σ) :
    runOn (pure a : Action σ α) state = (.ok a, state) := rfl

theorem runOn_bind {β : Type} (action : Action σ α) (next : α → Action σ β) (state : σ) :
    (action >>= next).runOn state =
      match action.runOn state with
      | (.ok a, state) => (next a).runOn state
      | (.error e, state) => (.error e, state) := by
  unfold runOn
  simp only [bind, ExceptT.run, ExceptT.bind, ExceptT.mk, StateT.run, StateT.bind]
  cases action state with
  | mk outcome state => cases outcome <;> rfl

end Action

end ResourceQuery
