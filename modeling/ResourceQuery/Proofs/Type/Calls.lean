import ResourceQuery.Proofs.Type.Resolution

set_option autoImplicit false

/-! # Graphs under calls

A graph is asked for types in any order, by expression, by name and by value kind; some of the calls fail.
Whatever is asked, each call is at most one resolution (`perform_snd`). So what every resolution preserves
holds after any calls (`after_induction`): the table is consistent, an expression that led to a type leads to
it for good, and a call that fails has changed nothing (`calls_keep_consistent`).
-/

namespace ResourceQuery

/-- What a graph may be asked for. -/
inductive TypeCall where
  | resolve (native : NativeType)
  | byName (name : String)
  | valueType (kind : ValueKind)

namespace TypeGraph

/-- The number that a call answers, and the graph afterwards; `depth` types may be built inside each
other. -/
def perform (g : TypeGraph) (depth : Nat) : TypeCall → Except Error TypeId × TypeGraph
  | .resolve native => g.resolveWithin depth native
  | .byName name => ((g.byNameWithin depth name).1.map (·.id), (g.byNameWithin depth name).2)
  | .valueType kind => g.resolveWithin depth (.value kind)

/-- The graph after several calls, each with its depth. -/
def after (g : TypeGraph) (calls : List (Nat × TypeCall)) : TypeGraph :=
  calls.foldl (fun g call => (g.perform call.1 call.2).2) g

variable {g : TypeGraph} {depth : Nat}

theorem perform_snd (g : TypeGraph) (depth : Nat) (call : TypeCall) :
    (g.perform depth call).2 = g ∨
      ∃ native, (g.perform depth call).2 = (g.resolveWithin depth native).2 := by
  cases call with
  | resolve native => exact .inr ⟨native, rfl⟩
  | byName name => exact byNameWithin_snd g depth name
  | valueType kind => exact .inr ⟨.value kind, rfl⟩

/-- What each resolution preserves holds after any calls. -/
theorem after_induction (P : TypeGraph → Prop)
    (hstep : ∀ g depth native, P g → P (g.resolveWithin depth native).2) (hg : P g)
    (calls : List (Nat × TypeCall)) : P (g.after calls) := by
  induction calls generalizing g with
  | nil => exact hg
  | cons call rest ih =>
      have hnext : P (g.perform call.1 call.2).2 := by
        rcases perform_snd g call.1 call.2 with hsame | ⟨native, hresolve⟩
        · rw [hsame]
          exact hg
        · rw [hresolve]
          exact hstep g call.1 native hg
      exact ih hnext

theorem tidy_after (hg : g.table.Tidy [] []) (calls : List (Nat × TypeCall)) :
    (g.after calls).table.Tidy [] [] :=
  after_induction (fun g => g.table.Tidy [] []) (fun _ depth native h => tidy_resolveWithin h depth native)
    hg calls

theorem extends_after (g : TypeGraph) (calls : List (Nat × TypeCall)) :
    g.table.Extends (g.after calls).table :=
  after_induction (fun next => g.table.Extends next.table)
    (fun next depth native h => h.trans (extends_resolveWithin next depth native)) (.refl _) calls

theorem lookup_after {native : NativeType} {id : TypeId} (h : g.table.byNative.lookup native = some id)
    (calls : List (Nat × TypeCall)) : (g.after calls).table.byNative.lookup native = some id :=
  after_induction (fun next => next.table.byNative.lookup native = some id)
    (fun _ depth other h => lookup_resolveWithin h depth other) h calls

theorem byNameWithin_snd_of_error (hg : g.table.Tidy [] []) {name : String} {e : Error}
    (h : (g.byNameWithin depth name).1 = .error e) : (g.byNameWithin depth name).2 = g := by
  unfold byNameWithin at h ⊢
  split at h
  · rfl
  · split at h
    · rfl
    · rename_i native _
      unfold resolveTypeWithin at h ⊢
      have hlookup := @lookup_of_resolveWithin g depth native
      have hkept := @resolveWithin_snd_of_error g depth native
      have htidy := tidy_resolveWithin hg depth native
      cases hresolve : g.resolveWithin depth native with
      | mk outcome g' =>
          rw [hresolve] at h hlookup hkept htidy
          cases outcome with
          | error e' => exact hkept rfl
          | ok id =>
              -- the number that is answered has a descriptor
              obtain ⟨d, hd⟩ := htidy.isConsistent.exists_of_lookup (hlookup rfl)
              dsimp only at h
              rw [get_eq_ok.mpr hd] at h
              cases h

/-- A call that fails leaves the graph as it was. -/
theorem perform_snd_of_error (hg : g.table.Tidy [] []) {call : TypeCall} {e : Error}
    (h : (g.perform depth call).1 = .error e) : (g.perform depth call).2 = g := by
  cases call with
  | resolve native => exact resolveWithin_snd_of_error h
  | valueType kind => exact resolveWithin_snd_of_error h
  | byName name =>
      have hfails : ∃ e', (g.byNameWithin depth name).1 = .error e' := by
        cases hanswer : (g.byNameWithin depth name).1 with
        | error e' => exact ⟨e', rfl⟩
        | ok d =>
            simp only [perform, hanswer] at h
            cases h
      obtain ⟨e', he'⟩ := hfails
      exact byNameWithin_snd_of_error hg he'

/-- `native` leads to the number `id`, whose descriptor is `d`, and resolving it changes nothing. -/
def Remembers (g : TypeGraph) (native : NativeType) (id : TypeId) (d : Descriptor) : Prop :=
  g.table.get? id = some d ∧ ∀ depth, g.resolveWithin depth native = (.ok id, g)

/-- **Between calls the table is consistent.** What a call has answered for a type expression every later
call answers for it, with the same descriptor; a call that fails changes nothing; and the types of the value
kinds have the numbers that they have in every graph. -/
theorem calls_keep_consistent {registry : Registry} {g₀ : TypeGraph} (hmade : ofRegistry registry = .ok g₀)
    (calls : List (Nat × TypeCall)) :
    (g₀.after calls).table.IsConsistent ∧
      (∀ depth native id, ((g₀.after calls).resolveWithin depth native).1 = .ok id →
        ∃ d, ∀ later, (((g₀.after calls).resolveWithin depth native).2.after later).Remembers
          native id d) ∧
      (∀ depth call e, ((g₀.after calls).perform depth call).1 = .error e →
        ((g₀.after calls).perform depth call).2 = g₀.after calls) ∧
      ∀ depth kind, (g₀.after calls).perform depth (.valueType kind) =
        (.ok (valueType kind), g₀.after calls) := by
  have htidy := tidy_after (tidy_ofRegistry hmade) calls
  refine ⟨htidy.isConsistent, fun depth native id hid => ?_,
    fun depth call e he => perform_snd_of_error htidy he, fun depth kind => ?_⟩
  · have hlookup := lookup_of_resolveWithin hid
    have hnext := tidy_resolveWithin htidy depth native
    obtain ⟨d, hd⟩ := hnext.isConsistent.exists_of_lookup hlookup
    exact ⟨d, fun later => ⟨(extends_after _ later).get? hd,
      resolveWithin_of_lookup (lookup_after hlookup later)⟩⟩
  · have hvalue : (g₀.after calls).table.byNative.lookup (NativeType.value kind).canonical =
        some (valueType kind) := lookup_after (lookup_value_ofRegistry hmade kind) calls
    exact resolveWithin_of_lookup hvalue depth

/-- A farm knows its critters, and these know their farm; a page holds any items. -/
def farms : Registry :=
  let farm : SourceType :=
    { SourceType.bare "Farm" .resource with
      properties := [.primaryId "Id" (.value .int32), .ofType "Critters" (.list (.named "Critter"))] }
  let critter : SourceType :=
    { SourceType.bare "Critter" .resource with
      parent := some ⟨"Farm", "Farm", "Critters"⟩
      properties := [.primaryId "Id" (.value .int32), .ofType "Farm" (.named "Farm")] }
  let page : SourceType :=
    { SourceType.bare "Page" .valueObject with
      typeParameters := ["T"]
      properties := [.ofType "Items" (.list (.parameter 0))] }
  ((Registry.empty.withType farm).withType critter).withType page

theorem farms_keep_consistent : ∃ g₀, ofRegistry farms = .ok g₀ ∧
    (g₀.after [(9, .byName "Page<Critter?>"), (9, .resolve (.list (.named "Ghost"))),
      (2, .valueType .int32)]).table.IsConsistent := by
  have hresolvable : farms.isResolvable = true := by decide +kernel
  unfold Registry.isResolvable at hresolvable
  cases hmade : ofRegistry farms with
  | error e =>
      rw [hmade] at hresolvable
      cases hresolvable
  | ok g₀ => exact ⟨g₀, rfl, (calls_keep_consistent hmade _).1⟩

end TypeGraph

end ResourceQuery
