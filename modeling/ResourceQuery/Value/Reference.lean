import ResourceQuery.Value.Heap

/-! # Resolving references

A reference is loaded when it is first asked for, and what came of it stays: the value, or the failure.
While the load is under way a further request fails. The loader is any action; it may itself ask for
references, the same one included, and it carries a state of its own next to the heap.
-/

namespace ResourceQuery

/-- Fetches what is at a URI and should be of a type. -/
abbrev Loader (σ : Type) := String → TypeId → Action (Heap × σ) Value

namespace LazyRef

variable {σ : Type}

/-- Whether the reference is loaded. -/
def isResolved (h : Heap) (ref : LazyRef) : Bool :=
  match h.state ref with
  | .resolved _ => true
  | _ => false

/-- The state that the outcome of a load leaves. -/
def settled : Except Error Value → RefState
  | .ok value => .resolved value
  | .error e => .failed e

/-- The value that `ref` stands for, loaded if need be. -/
def resolve (load : Loader σ) (ref : LazyRef) : Action (Heap × σ) Value :=
  Action.ofFunction fun (h, s) =>
    match h.state ref with
    | .resolved value => (.ok value, (h, s))
    | .failed e => (.error e, (h, s))
    | .resolving => (.error (.notSupported (.reentrantReference ref.uri)), (h, s))
    | .unresolved =>
      let (outcome, (h, s)) := (load ref.uri ref.target).runOn (h.setState ref .resolving, s)
      (outcome, (h.setState ref (settled outcome), s))

end LazyRef

end ResourceQuery
