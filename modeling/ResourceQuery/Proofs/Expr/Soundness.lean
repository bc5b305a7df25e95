import Mathlib.Logic.Relation
import ResourceQuery.Proofs.Expr.Typing

set_option autoImplicit false

/-! # A compiled lambda means what the lambda means

For rows that conform to the type a lambda was compiled for, and from which no reference is reached
(`Lambda.compile_sound`):

* the compiled lambda has the value or the failure of the lambda itself, although its members are in the
  spelling of their declarations;
* no variable is missing;
* wherever the type of a value is known, the members and elements that were accepted are there;
* a value is null or conforms to the type of the lambda.

The last point is `Heap.Typed.allows_eval`; the others follow from it, because a value that conforms to a
known type has the shape that the check relied on (`exists_member`, `exists_elements`). References are
left out: one that is not resolved has no members, and its failure shows the name as it was written.
-/

namespace ResourceQuery

/-! ## Failures for want of a variable -/

/-- An outcome other than that a variable has no value. -/
def HasVariables {α : Type} (outcome : Except Error α) : Prop :=
  ∀ x, outcome ≠ .error (.invalidQuery (.unboundParameter x))

section HasVariables

variable {α β : Type}

theorem exists_of_isOk {outcome : Except Error α} (h : outcome.isOk = true) :
    ∃ a, outcome = .ok a := by
  cases outcome with
  | error e => cases h
  | ok a => exact ⟨a, rfl⟩

theorem hasVariables_ok (a : α) : HasVariables (.ok a : Except Error α) :=
  fun _ h => nomatch h

theorem hasVariables_invalid {fault : QueryFault} (hfault : ∀ x, fault ≠ .unboundParameter x) :
    HasVariables (Value.invalid fault : Except Error α) := by
  intro x h
  cases h
  exact hfault x rfl

theorem HasVariables.bind {outcome : Except Error α} {next : α → Except Error β}
    (houtcome : HasVariables outcome) (hnext : ∀ a, outcome = .ok a → HasVariables (next a)) :
    HasVariables (outcome >>= next) := by
  cases outcome with
  | error e =>
      intro x h
      cases h
      exact houtcome x rfl
  | ok a => exact hnext a rfl

theorem HasVariables.map {outcome : Except Error α} (houtcome : HasVariables outcome) (f : α → β) :
    HasVariables (outcome.map f) := by
  cases outcome with
  | error e =>
      intro x h
      cases h
      exact houtcome x rfl
  | ok a => exact hasVariables_ok _

end HasVariables

namespace Value

variable {g : TypeGraph} {h : Heap}

theorem hasVariables_fitted (op : BinaryOp) (n : Int) : HasVariables (fitted op n) := by
  unfold fitted
  split
  · exact hasVariables_ok _
  · exact hasVariables_invalid nofun

theorem hasVariables_wholeArithmetic (op : BinaryOp) (a b : Int) :
    HasVariables (wholeArithmetic op a b) := by
  unfold wholeArithmetic
  split
  · exact hasVariables_fitted _ _
  · exact hasVariables_fitted _ _
  · exact hasVariables_fitted _ _
  · split
    · exact hasVariables_invalid nofun
    · exact hasVariables_fitted _ _
  · split
    · exact hasVariables_invalid nofun
    · split
      · exact hasVariables_fitted _ _
      · exact hasVariables_invalid nofun

theorem hasVariables_arithmetic (op : BinaryOp) (l r : Value) : HasVariables (arithmetic op l r) := by
  unfold arithmetic
  split
  · exact hasVariables_ok _
  · exact hasVariables_ok _
  · exact hasVariables_wholeArithmetic _ _ _
  · split
    · exact hasVariables_ok _
    · exact hasVariables_invalid nofun

theorem hasVariables_ordered (accept : Ordering → Bool) (l r : Value) :
    HasVariables (ordered accept l r) := by
  unfold ordered
  split
  · exact hasVariables_ok _
  · split
    · exact hasVariables_ok _
    · exact hasVariables_invalid nofun

theorem hasVariables_applyUnary (op : UnaryOp) (v : Value) : HasVariables (applyUnary op v) := by
  unfold applyUnary
  split
  · exact hasVariables_ok _
  · exact hasVariables_ok _
  · split
    · exact hasVariables_ok _
    · exact hasVariables_invalid nofun
  · exact hasVariables_ok _
  · exact hasVariables_invalid nofun

theorem hasVariables_applyBinary (h : Heap) (op : BinaryOp) (l r : Value) :
    HasVariables (applyBinary h op l r) := by
  cases op with
  | eq => exact hasVariables_ok _
  | ne => exact hasVariables_ok _
  | and => exact hasVariables_ok _
  | or => exact hasVariables_ok _
  | lt => exact hasVariables_ordered _ _ _
  | le => exact hasVariables_ordered _ _ _
  | gt => exact hasVariables_ordered _ _ _
  | ge => exact hasVariables_ordered _ _ _
  | _ => exact hasVariables_arithmetic _ _ _

theorem hasVariables_textArgument (f : TextFunction) (v : Option Value) :
    HasVariables (textArgument f v) := by
  unfold textArgument
  split
  · exact hasVariables_ok _
  · exact hasVariables_ok _
  · exact hasVariables_ok _
  · exact hasVariables_ok _
  · exact hasVariables_invalid nofun

theorem hasVariables_positionArgument (f : TextFunction) (v : Option Value) :
    HasVariables (positionArgument f v) := by
  unfold positionArgument
  split
  · exact hasVariables_ok _
  · exact hasVariables_ok _
  · split
    · exact hasVariables_invalid nofun
    · exact hasVariables_ok _
  · exact hasVariables_invalid nofun

theorem hasVariables_call (f : TextFunction) (arguments : List Value) :
    HasVariables (call f arguments) := by
  unfold call
  refine (hasVariables_textArgument _ _).bind fun subject _ => ?_
  cases subject with
  | none => exact hasVariables_ok _
  | some subject =>
      cases f with
      | toUpper => exact hasVariables_ok _
      | toLower => exact hasVariables_ok _
      | trim => exact hasVariables_ok _
      | length => exact hasVariables_ok _
      | substring =>
          exact (hasVariables_positionArgument _ _).bind fun _ _ =>
            (hasVariables_positionArgument _ _).bind fun _ _ => hasVariables_ok _
      | _ =>
          refine (hasVariables_textArgument _ _).bind fun needle _ => ?_
          split
          · exact hasVariables_ok _
          · exact hasVariables_ok _

theorem hasVariables_memberVia (name : String) (links : Nat) (v : Value) :
    HasVariables (memberVia g h name links v) := by
  have hget : ∀ id, HasVariables (g.get id) := by
    intro id x hunbound
    unfold TypeGraph.get at hunbound
    split at hunbound <;> cases hunbound
  induction links using Nat.strongRecOn generalizing v with
  | ind links ih =>
      cases v with
      | null =>
          rw [memberVia_null]
          exact hasVariables_ok _
      | object id =>
          unfold memberVia
          refine (hget _).bind fun d _ => ?_
          split
          · exact hasVariables_ok _
          · exact hasVariables_ok _
      | map entries =>
          unfold memberVia
          split
          · exact hasVariables_ok _
          · exact hasVariables_ok _
      | group key items =>
          unfold memberVia
          split
          · exact hasVariables_ok _
          · exact hasVariables_invalid (by simp)
      | reference r =>
          cases links with
          | zero => exact hasVariables_invalid (by simp)
          | succ less =>
              unfold memberVia
              split
              · exact ih less (Nat.lt_succ_self _) _
              · exact hasVariables_invalid (by simp)
      | _ =>
          unfold memberVia
          exact hasVariables_invalid (by simp)

theorem hasVariables_elements (a : Aggregate) (v : Value) : HasVariables (v.elements a) := by
  unfold elements
  split
  · exact hasVariables_ok _
  · exact hasVariables_ok _
  · exact hasVariables_ok _
  · exact hasVariables_invalid nofun

theorem hasVariables_foldlM {α : Type} {f : α → Value → Except Error α}
    (hf : ∀ a v, HasVariables (f a v)) (a : α) (items : List Value) :
    HasVariables (items.foldlM f a) := by
  induction items generalizing a with
  | nil => exact hasVariables_ok _
  | cons v rest ih =>
      rw [List.foldlM_cons]
      exact (hf a v).bind fun next _ => ih next

theorem hasVariables_sum (items : List Value) : HasVariables (sum items) := by
  refine (hasVariables_foldlM (fun total v => ?_) _ items).map _
  unfold addTo
  split
  · exact hasVariables_ok _
  · split
    · exact hasVariables_ok _
    · exact hasVariables_invalid nofun
  · exact hasVariables_ok _
  · exact hasVariables_ok _
  · exact hasVariables_ok _
  · exact hasVariables_invalid nofun

theorem hasVariables_extreme (wanted : Ordering) (items : List Value) :
    HasVariables (extreme wanted items) := by
  unfold extreme
  split
  · exact hasVariables_ok _
  · refine hasVariables_foldlM (fun best v => ?_) _ _
    unfold better
    split
    · exact hasVariables_ok _
    · exact hasVariables_invalid (by simp)

variable {f f' : Value → Except Error Value} {items : List Value}

theorem anyTrue_congr (hf : ∀ v ∈ items, f v = f' v) : anyTrue f items = anyTrue f' items := by
  induction items with
  | nil => rfl
  | cons v rest ih =>
      simp only [anyTrue, hf v List.mem_cons_self, ih fun w hw => hf w (List.mem_cons_of_mem _ hw)]

theorem allTrue_congr (hf : ∀ v ∈ items, f v = f' v) : allTrue f items = allTrue f' items := by
  induction items with
  | nil => rfl
  | cons v rest ih =>
      simp only [allTrue, hf v List.mem_cons_self, ih fun w hw => hf w (List.mem_cons_of_mem _ hw)]

theorem countTrue_congr (hf : ∀ v ∈ items, f v = f' v) : countTrue f items = countTrue f' items := by
  induction items with
  | nil => rfl
  | cons v rest ih =>
      simp only [countTrue, hf v List.mem_cons_self, ih fun w hw => hf w (List.mem_cons_of_mem _ hw)]

theorem mapAll_congr (hf : ∀ v ∈ items, f v = f' v) : mapAll f items = mapAll f' items := by
  induction items with
  | nil => rfl
  | cons v rest ih =>
      simp only [mapAll, hf v List.mem_cons_self, ih fun w hw => hf w (List.mem_cons_of_mem _ hw)]

/-- An aggregate looks at what `f` is for the items, and at nothing else. -/
theorem aggregateOf_congr (hf : ∀ v ∈ items, f v = f' v) (a : Aggregate) :
    aggregateOf f items a = aggregateOf f' items a := by
  cases a <;>
    simp only [aggregateOf, anyTrue_congr hf, allTrue_congr hf, countTrue_congr hf, mapAll_congr hf]

theorem hasVariables_anyTrue (hf : ∀ v ∈ items, HasVariables (f v)) :
    HasVariables (anyTrue f items) := by
  induction items with
  | nil => exact hasVariables_ok _
  | cons v rest ih =>
      refine (hf v List.mem_cons_self).bind fun here _ => ?_
      split
      · exact hasVariables_ok _
      · exact ih fun w hw => hf w (List.mem_cons_of_mem _ hw)

theorem hasVariables_allTrue (hf : ∀ v ∈ items, HasVariables (f v)) :
    HasVariables (allTrue f items) := by
  induction items with
  | nil => exact hasVariables_ok _
  | cons v rest ih =>
      refine (hf v List.mem_cons_self).bind fun here _ => ?_
      split
      · exact ih fun w hw => hf w (List.mem_cons_of_mem _ hw)
      · exact hasVariables_ok _

theorem hasVariables_countTrue (hf : ∀ v ∈ items, HasVariables (f v)) :
    HasVariables (countTrue f items) := by
  induction items with
  | nil => exact hasVariables_ok _
  | cons v rest ih =>
      exact (hf v List.mem_cons_self).bind fun here _ =>
        (ih fun w hw => hf w (List.mem_cons_of_mem _ hw)).bind fun more _ => hasVariables_ok _

theorem hasVariables_mapAll (hf : ∀ v ∈ items, HasVariables (f v)) :
    HasVariables (mapAll f items) := by
  induction items with
  | nil => exact hasVariables_ok _
  | cons v rest ih =>
      exact (hf v List.mem_cons_self).bind fun first _ =>
        (ih fun w hw => hf w (List.mem_cons_of_mem _ hw)).bind fun others _ => hasVariables_ok _

theorem hasVariables_aggregateOf (hf : ∀ v ∈ items, HasVariables (f v)) (a : Aggregate) :
    HasVariables (aggregateOf f items a) := by
  cases a with
  | any => exact (hasVariables_anyTrue hf).map _
  | all => exact (hasVariables_allTrue hf).map _
  | count => exact (hasVariables_countTrue hf).map _
  | sum => exact (hasVariables_mapAll hf).bind fun values _ => hasVariables_sum values
  | min => exact (hasVariables_mapAll hf).bind fun values _ => hasVariables_extreme _ values
  | max => exact (hasVariables_mapAll hf).bind fun values _ => hasVariables_extreme _ values

theorem hasVariables_aggregate (items : List Value) (a : Aggregate) :
    HasVariables (aggregate items a) := by
  unfold aggregate
  split
  · exact hasVariables_ok _
  · exact hasVariables_ok _
  · exact hasVariables_aggregateOf (fun v _ => hasVariables_ok v) _

end Value

/-! ## Values of known types -/

/-- No reference is reached. -/
def LazyRef.absent : LazyRef → TypeId → Prop :=
  fun _ _ => False

instance (r : LazyRef) (type : TypeId) : Decidable (LazyRef.absent r type) :=
  inferInstanceAs (Decidable False)

/-- Whether the shape of values is known from the type: it is not where anything may stand. -/
def StaticType.IsKnown : StaticType → Prop
  | .unknown => False
  | .mapped type => type ≠ TypeGraph.valueType .any
  | .group .. => True

variable {g : TypeGraph} {h : Heap} {isObject : ObjectId → TypeId → Prop} {t t' : StaticType}
  {v : Value} {name name' : String}

namespace Heap.Typed

/-- A property that is found in a type is there in each value of the type, in every spelling. -/
theorem exists_property_member (ht : h.Typed g LazyRef.absent isObject) {type : TypeId}
    {d : Descriptor} {p : Property} (hd : g.table.get? type = some d) (hp : d.property? name = some p)
    (hv : (StaticType.mapped type).Allows g LazyRef.absent isObject v) :
    ∃ u, v.member g h name = .ok u ∧ v.member g h p.name = .ok u := by
  have hnull : ∀ name, Value.null.member g h name = .ok .null := fun name =>
    Value.memberVia_null g h name _
  rcases hv with rfl | hconforms
  · exact ⟨.null, hnull _, hnull _⟩
  rcases hconforms.of_property? hd hp with rfl | ⟨id, concrete, rfl, hobject, hfits⟩ | ⟨r, rfl, hr⟩
  · exact ⟨.null, hnull _, hnull _⟩
  · obtain ⟨c, q, hget, -, hq, -⟩ := ht.exists_property hobject hfits hd hp
    have hspelled : c.property? p.name = some q := by
      rw [Descriptor.property?_congr (Descriptor.isNamed_of_property? hp)]
      exact hq
    exact ⟨q.read h id, Value.memberVia_object hget hq, Value.memberVia_object hget hspelled⟩
  · exact hr.elim

/-- A value in a dictionary slot has every member. -/
theorem exists_dictionary_member (ht : h.Typed g LazyRef.absent isObject) {type key value : TypeId}
    {d : Descriptor} (hd : g.table.get? type = some d) (hshape : d.shape = .dictionary key value)
    (hv : (StaticType.mapped type).Allows g LazyRef.absent isObject v) (name : String) :
    ∃ u, v.member g h name = .ok u := by
  rcases hv with rfl | hconforms
  · exact ⟨.null, Value.memberVia_null g h name _⟩
  cases hconforms with
  | null => exact ⟨.null, Value.memberVia_null g h name _⟩
  | scalar hd' hscalar =>
      rw [hd] at hd'
      cases hd'
      unfold Descriptor.hasScalar at hscalar
      rw [hshape] at hscalar
      cases hscalar
  | list hd' hslot =>
      rw [hd] at hd'
      cases hd'
      unfold Descriptor.itemSlot? at hslot
      rw [hshape] at hslot
      cases hslot
  | map =>
      unfold Value.member Value.memberVia
      split
      · exact ⟨_, rfl⟩
      · exact ⟨_, rfl⟩
  | group hd' hslot =>
      rw [hd] at hd'
      cases hd'
      rw [Descriptor.shape_of_isAny hslot] at hshape
      cases hshape
  | object _ hobject =>
      obtain ⟨c, hget, -, -⟩ := ht.exists_type hobject
      cases hp : c.property? name with
      | some p => exact ⟨_, Value.memberVia_object hget hp⟩
      | none => exact ⟨_, Value.memberVia_undeclared hget hp⟩
  | reference _ _ _ hr => exact hr.elim

/-- **An accepted member of a value whose type is known is there.** -/
theorem exists_member (ht : h.Typed g LazyRef.absent isObject) (hknown : t.IsKnown)
    (hmember : t.member g name = .ok (name', t')) (hv : t.Allows g LazyRef.absent isObject v) :
    ∃ u, v.member g h name = .ok u := by
  cases t with
  | unknown => exact hknown.elim
  | group key element =>
      obtain ⟨hname, -, -⟩ := StaticType.member_group hmember
      rcases hv with rfl | hgroup
      · exact ⟨.null, Value.memberVia_null g h name _⟩
      · obtain ⟨k, items, rfl, -, -⟩ := hgroup.exists_group
        exact ⟨k, Value.memberVia_key hname⟩
  | mapped type =>
      obtain ⟨d, hd, ⟨hany | ⟨key, value, hshape⟩, -, -⟩ | ⟨p, hp, -, -, -⟩⟩ :=
        StaticType.member_mapped hmember
      · exact absurd (ht.arises.eq_untyped hd hany) hknown
      · exact ht.exists_dictionary_member hd hshape hv name
      · obtain ⟨u, hu, -⟩ := ht.exists_property_member hd hp hv
        exact ⟨u, hu⟩

/-- The spelling of the declaration leads to the same member. -/
theorem member_spelling (ht : h.Typed g LazyRef.absent isObject)
    (hmember : t.member g name = .ok (name', t')) (hv : t.Allows g LazyRef.absent isObject v) :
    v.member g h name' = v.member g h name := by
  cases t with
  | unknown =>
      cases hmember
      rfl
  | group key element =>
      obtain ⟨hname, rfl, -⟩ := StaticType.member_group hmember
      rcases hv with rfl | hgroup
      · rw [Value.member, Value.member, Value.memberVia_null, Value.memberVia_null]
      · obtain ⟨k, items, rfl, -, -⟩ := hgroup.exists_group
        rw [Value.member, Value.member, Value.memberVia_key hname, Value.memberVia_key (by decide)]
  | mapped type =>
      obtain ⟨d, hd, ⟨-, rfl, -⟩ | ⟨p, hp, -, rfl, -⟩⟩ := StaticType.member_mapped hmember
      · rfl
      · obtain ⟨u, hu, hu'⟩ := ht.exists_property_member hd hp hv
        rw [hu, hu']

/-- **An accepted aggregate of a value whose type is known has elements.** -/
theorem exists_elements (ht : h.Typed g LazyRef.absent isObject) {a : Aggregate} (hknown : t.IsKnown)
    (helement : t.element g a = .ok t') (hv : t.Allows g LazyRef.absent isObject v) :
    ∃ items, v.elements a = .ok items := by
  cases t with
  | unknown => exact hknown.elim
  | group key element =>
      rcases hv with rfl | hgroup
      · exact ⟨[], rfl⟩
      · obtain ⟨k, items, rfl, -, -⟩ := hgroup.exists_group
        exact ⟨items, rfl⟩
  | mapped type =>
      obtain ⟨d, hd, ⟨hany, -⟩ | ⟨element, hshape, -⟩⟩ := StaticType.element_mapped helement
      · exact absurd (ht.arises.eq_untyped hd hany) hknown
      rcases hv with rfl | hconforms
      · exact ⟨[], rfl⟩
      cases hconforms with
      | null => exact ⟨[], rfl⟩
      | list => exact ⟨_, rfl⟩
      | group => exact ⟨_, rfl⟩
      | scalar hd' hscalar =>
          rw [hd] at hd'
          cases hd'
          unfold Descriptor.hasScalar at hscalar
          rw [hshape] at hscalar
          cases hscalar
      | map hd' hslot =>
          rw [hd] at hd'
          cases hd'
          unfold Descriptor.entrySlot? at hslot
          rw [hshape] at hslot
          cases hslot
      | object hd' hobject hfits =>
          -- no list type is inherited from
          obtain ⟨c, -, hc, hdeclared⟩ := ht.exists_type hobject
          have hany : d.isAny = false := by
            unfold Descriptor.isAny
            rw [hshape]
          have hlist := ht.arises.isDeclared_of_inheritsFrom hd hc hdeclared
            (TypeGraph.inheritsFrom_of_isAssignable hd hany hfits)
          unfold Descriptor.isDeclared at hlist
          rw [hshape] at hlist
          cases hlist
      | reference _ _ _ hr => exact hr.elim

end Heap.Typed

/-! ## Evaluation -/

/-- Where the first parts agree, and the rest does for what they answer, all agrees. -/
theorem bind_congr_ok {α β : Type} {x y : Except Error α} {f f' : α → Except Error β} (hxy : x = y)
    (hf : ∀ a, y = .ok a → f a = f' a) : x >>= f = y >>= f' := by
  rw [hxy]
  cases y with
  | error e => rfl
  | ok a => exact hf a rfl

namespace Expr

variable {h' : Heap} {env env' : Env} {left left' right right' : Expr}

/-- An infix operator is applied to the values of both operands, if the left one does not decide. -/
theorem eval_binary_congr {op : BinaryOp} (hleft : eval g h' env' left' = eval g h env left)
    (hright : eval g h' env' right' = eval g h env right)
    (happly : ∀ l r, eval g h env left = .ok l → eval g h env right = .ok r →
      Value.applyBinary h' op l r = Value.applyBinary h op l r) :
    eval g h' env' (.binary op left' right') = eval g h env (.binary op left right) := by
  have hboth : (do
      let l ← eval g h' env' left'
      let r ← eval g h' env' right'
      Value.applyBinary h' op l r : Except Error Value) = (do
      let l ← eval g h env left
      let r ← eval g h env right
      Value.applyBinary h op l r) :=
    bind_congr_ok hleft fun l hl => bind_congr_ok hright fun r hr => happly l r hl hr
  cases op with
  | and => simp only [eval, hleft, hright]
  | or => simp only [eval, hleft, hright]
  | _ =>
      simp only [eval]
      exact hboth

theorem hasVariables_binary {op : BinaryOp} (hleft : HasVariables (eval g h env left))
    (hright : HasVariables (eval g h env right)) :
    HasVariables (eval g h env (.binary op left right)) := by
  have hboth : HasVariables (do
      let l ← eval g h env left
      let r ← eval g h env right
      Value.applyBinary h op l r : Except Error Value) :=
    hleft.bind fun l _ => hright.bind fun r _ => Value.hasVariables_applyBinary h op l r
  cases op with
  | and =>
      simp only [eval]
      refine hleft.bind fun l _ => ?_
      split
      · exact hright.bind fun r _ => hasVariables_ok _
      · exact hasVariables_ok _
  | or =>
      simp only [eval]
      refine hleft.bind fun l _ => ?_
      split
      · exact hasVariables_ok _
      · exact hright.bind fun r _ => hasVariables_ok _
  | _ =>
      simp only [eval]
      exact hboth

end Expr

namespace Heap.Typed

variable {scope : TypeScope} {env : Env}

mutual

/-- **Compiling an expression changes nothing about its value or failure.** -/
theorem eval_compile (ht : h.Typed g LazyRef.absent isObject) : (e : Expr) → ∀ {scope : TypeScope}
    {env : Env} {e' : Expr} {t : StaticType}, e.compile g scope = .ok (e', t) →
      scope.Fits g LazyRef.absent isObject env →
      e'.eval g h env = e.eval g h env ∧ HasVariables (e.eval g h env)
  | .param x, scope, env, e', t, hc, hfits => by
      obtain ⟨rfl, hx⟩ := Expr.compile_param hc
      obtain ⟨w, hw, -⟩ := hfits.lookup hx
      refine ⟨rfl, ?_⟩
      simp only [Expr.eval, hw]
      exact hasVariables_ok _
  | .constant l, scope, env, e', t, hc, _ => by
      cases hc
      exact ⟨rfl, hasVariables_ok _⟩
  | .member target name, scope, env, e', t, hc, hfits => by
      obtain ⟨target', s, name', htarget, hmember, rfl⟩ := Expr.compile_member hc
      obtain ⟨hsame, hbound⟩ := ht.eval_compile target htarget hfits
      simp only [Expr.eval]
      exact ⟨bind_congr_ok hsame fun w hw =>
          ht.member_spelling hmember (ht.allows_eval target htarget hfits hw),
        hbound.bind fun w _ => Value.hasVariables_memberVia _ _ _⟩
  | .unary op operand, scope, env, e', t, hc, hfits => by
      obtain ⟨operand', s, hoperand, rfl, -⟩ := Expr.compile_unary hc
      obtain ⟨hsame, hbound⟩ := ht.eval_compile operand hoperand hfits
      simp only [Expr.eval]
      exact ⟨bind_congr_ok hsame fun _ _ => rfl,
        hbound.bind fun w _ => Value.hasVariables_applyUnary _ _⟩
  | .binary op left right, scope, env, e', t, hc, hfits => by
      obtain ⟨left', s, right', s', hleft, hright, rfl, -⟩ := Expr.compile_binary hc
      obtain ⟨hsameLeft, hboundLeft⟩ := ht.eval_compile left hleft hfits
      obtain ⟨hsameRight, hboundRight⟩ := ht.eval_compile right hright hfits
      exact ⟨Expr.eval_binary_congr hsameLeft hsameRight fun _ _ _ _ => rfl,
        Expr.hasVariables_binary hboundLeft hboundRight⟩
  | .call f arguments, scope, env, e', t, hc, hfits => by
      obtain ⟨arguments', harguments, rfl, -⟩ := Expr.compile_call hc
      obtain ⟨hsame, hbound⟩ := ht.evalList_compile arguments harguments hfits
      simp only [Expr.eval]
      exact ⟨bind_congr_ok hsame fun _ _ => rfl,
        hbound.bind fun values _ => Value.hasVariables_call _ _⟩
  | .aggregate target a, scope, env, e', t, hc, hfits => by
      obtain ⟨target', s, element, htarget, -, rfl, -⟩ := Expr.compile_aggregate hc
      obtain ⟨hsame, hbound⟩ := ht.eval_compile target htarget hfits
      simp only [Expr.eval]
      exact ⟨bind_congr_ok hsame fun _ _ => rfl,
        hbound.bind fun w _ => (Value.hasVariables_elements _ _).bind fun items _ =>
          Value.hasVariables_aggregate _ _⟩
  | .aggregateOf target a x body, scope, env, e', t, hc, hfits => by
      obtain ⟨target', s, element, body', s', htarget, helement, hbody, rfl, -⟩ :=
        Expr.compile_aggregateOf hc
      obtain ⟨hsame, hbound⟩ := ht.eval_compile target htarget hfits
      -- each element is a value of the type that the body was compiled for
      have hinner : ∀ w items, target.eval g h env = .ok w → w.elements a = .ok items →
          ∀ v ∈ items, body'.eval g h ((x, v) :: env) = body.eval g h ((x, v) :: env) ∧
            HasVariables (body.eval g h ((x, v) :: env)) := by
        intro w items hw hitems v hv
        have hallows := allows_element helement (ht.allows_eval target htarget hfits hw) hitems v hv
        exact ht.eval_compile body hbody (hfits.cons x hallows)
      simp only [Expr.eval]
      refine ⟨bind_congr_ok hsame fun w hw => bind_congr_ok rfl fun items hitems => ?_,
        hbound.bind fun w hw => (Value.hasVariables_elements _ _).bind fun items hitems => ?_⟩
      · exact Value.aggregateOf_congr (fun v hv => (hinner w items hw hitems v hv).1) a
      · exact Value.hasVariables_aggregateOf (fun v hv => (hinner w items hw hitems v hv).2) a
  | .row fields, scope, env, e', t, hc, hfits => by
      obtain ⟨fields', hfields, rfl, -⟩ := Expr.compile_row hc
      obtain ⟨hsame, hbound⟩ := ht.evalFields_compile fields [] hfields hfits
      simp only [Expr.eval]
      exact ⟨bind_congr_ok hsame fun _ _ => rfl, hbound.bind fun values _ => hasVariables_ok _⟩

/-- The same for a list of expressions. -/
theorem evalList_compile (ht : h.Typed g LazyRef.absent isObject) : (es : List Expr) →
    ∀ {scope : TypeScope} {env : Env} {es' : List Expr}, Expr.compileList g scope es = .ok es' →
      scope.Fits g LazyRef.absent isObject env →
      Expr.evalList g h env es' = Expr.evalList g h env es ∧ HasVariables (Expr.evalList g h env es)
  | [], scope, env, es', hc, _ => by
      cases hc
      exact ⟨rfl, hasVariables_ok _⟩
  | e :: rest, scope, env, es', hc, hfits => by
      obtain ⟨e', s, rest', he, hrest, rfl⟩ := Expr.compileList_cons hc
      obtain ⟨hsame, hbound⟩ := ht.eval_compile e he hfits
      obtain ⟨hsameRest, hboundRest⟩ := ht.evalList_compile rest hrest hfits
      simp only [Expr.evalList]
      exact ⟨bind_congr_ok hsame fun _ _ => bind_congr_ok hsameRest fun _ _ => rfl,
        hbound.bind fun _ _ => hboundRest.bind fun _ _ => hasVariables_ok _⟩

/-- The same for the fields of a row. -/
theorem evalFields_compile (ht : h.Typed g LazyRef.absent isObject) : (fields : List (String × Expr)) →
    (done : Entries Value) → ∀ {scope : TypeScope} {env : Env} {fields' : List (String × Expr)},
      Expr.compileFields g scope fields = .ok fields' → scope.Fits g LazyRef.absent isObject env →
      Expr.evalFields g h env done fields' = Expr.evalFields g h env done fields ∧
        HasVariables (Expr.evalFields g h env done fields)
  | [], done, scope, env, fields', hc, _ => by
      cases hc
      exact ⟨rfl, hasVariables_ok _⟩
  | (name, e) :: rest, done, scope, env, fields', hc, hfits => by
      obtain ⟨e', s, rest', he, hrest, rfl⟩ := Expr.compileFields_cons hc
      obtain ⟨hsame, hbound⟩ := ht.eval_compile e he hfits
      simp only [Expr.evalFields]
      exact ⟨bind_congr_ok hsame fun v _ => (ht.evalFields_compile rest _ hrest hfits).1,
        hbound.bind fun v _ => (ht.evalFields_compile rest _ hrest hfits).2⟩

end

end Heap.Typed

/-! ## Places -/

/-- A part of an expression, with the types and the values of the variables around it. -/
structure Place where
  expr : Expr
  scope : TypeScope
  env : Env

namespace Place

/-- `Inside p q` if `q` is directly below `p`. The body of an aggregate is met once for each element.
Operands that an evaluation skips count as well. -/
inductive Inside (g : TypeGraph) (h : Heap) : Place → Place → Prop
  | member {target : Expr} {name : String} {scope : TypeScope} {env : Env} :
      Inside g h ⟨.member target name, scope, env⟩ ⟨target, scope, env⟩
  | unary {op : UnaryOp} {operand : Expr} {scope : TypeScope} {env : Env} :
      Inside g h ⟨.unary op operand, scope, env⟩ ⟨operand, scope, env⟩
  | left {op : BinaryOp} {left right : Expr} {scope : TypeScope} {env : Env} :
      Inside g h ⟨.binary op left right, scope, env⟩ ⟨left, scope, env⟩
  | right {op : BinaryOp} {left right : Expr} {scope : TypeScope} {env : Env} :
      Inside g h ⟨.binary op left right, scope, env⟩ ⟨right, scope, env⟩
  | argument {f : TextFunction} {arguments : List Expr} {e : Expr} {scope : TypeScope} {env : Env}
      (he : e ∈ arguments) : Inside g h ⟨.call f arguments, scope, env⟩ ⟨e, scope, env⟩
  | aggregate {target : Expr} {a : Aggregate} {scope : TypeScope} {env : Env} :
      Inside g h ⟨.aggregate target a, scope, env⟩ ⟨target, scope, env⟩
  | aggregateOf {target body : Expr} {a : Aggregate} {x : String} {scope : TypeScope} {env : Env} :
      Inside g h ⟨.aggregateOf target a x body, scope, env⟩ ⟨target, scope, env⟩
  | body {target target' body : Expr} {a : Aggregate} {x : String} {scope : TypeScope} {env : Env}
      {t element : StaticType} {w v : Value} {items : List Value}
      (htarget : target.compile g scope = .ok (target', t)) (helement : t.element g a = .ok element)
      (hw : target.eval g h env = .ok w) (hitems : w.elements a = .ok items) (hv : v ∈ items) :
      Inside g h ⟨.aggregateOf target a x body, scope, env⟩
        ⟨body, (x, element) :: scope, (x, v) :: env⟩
  | field {fields : List (String × Expr)} {name : String} {e : Expr} {scope : TypeScope} {env : Env}
      (he : (name, e) ∈ fields) : Inside g h ⟨.row fields, scope, env⟩ ⟨e, scope, env⟩

/-- What is asked of the value at a place is there, if its type is known: the member, or the
elements. -/
def HasShape (g : TypeGraph) (h : Heap) (p : Place) : Prop :=
  match p.expr with
  | .member target name => ∀ target' t w, target.compile g p.scope = .ok (target', t) → t.IsKnown →
      target.eval g h p.env = .ok w → ∃ u, w.member g h name = .ok u
  | .aggregate target a => ∀ target' t w, target.compile g p.scope = .ok (target', t) → t.IsKnown →
      target.eval g h p.env = .ok w → ∃ items, w.elements a = .ok items
  | .aggregateOf target a _ _ => ∀ target' t w, target.compile g p.scope = .ok (target', t) →
      t.IsKnown → target.eval g h p.env = .ok w → ∃ items, w.elements a = .ok items
  | _ => True

/-- A place that compiles, where the variables have values of their types. -/
def Compiles (g : TypeGraph) (isReference : LazyRef → TypeId → Prop)
    (isObject : ObjectId → TypeId → Prop) (p : Place) : Prop :=
  p.scope.Fits g isReference isObject p.env ∧ ∃ e' t, p.expr.compile g p.scope = .ok (e', t)

theorem compile_of_mem {scope : TypeScope} {es es' : List Expr} {e : Expr}
    (hc : Expr.compileList g scope es = .ok es') (he : e ∈ es) :
    ∃ e' t, e.compile g scope = .ok (e', t) := by
  induction es generalizing es' with
  | nil => cases he
  | cons first rest ih =>
      obtain ⟨e', t, rest', hfirst, hrest, -⟩ := Expr.compileList_cons hc
      rcases List.mem_cons.mp he with rfl | hmem
      · exact ⟨e', t, hfirst⟩
      · exact ih hrest hmem

theorem compile_of_mem_fields {scope : TypeScope} {fields fields' : List (String × Expr)}
    {field : String × Expr} (hc : Expr.compileFields g scope fields = .ok fields')
    (hfield : field ∈ fields) : ∃ e' t, field.2.compile g scope = .ok (e', t) := by
  induction fields generalizing fields' with
  | nil => cases hfield
  | cons first rest ih =>
      obtain ⟨name, e⟩ := first
      obtain ⟨e', t, rest', hfirst, hrest, -⟩ := Expr.compileFields_cons hc
      rcases List.mem_cons.mp hfield with rfl | hmem
      · exact ⟨e', t, hfirst⟩
      · exact ih hrest hmem

/-- What is inside a place that compiles compiles. -/
theorem Compiles.inside {isReference : LazyRef → TypeId → Prop} (ht : h.Typed g isReference isObject)
    {p q : Place} (hp : p.Compiles g isReference isObject) (hinside : Inside g h p q) :
    q.Compiles g isReference isObject := by
  obtain ⟨hfits, e', t, hc⟩ := hp
  cases hinside with
  | member =>
      obtain ⟨target', s, name', htarget, -, -⟩ := Expr.compile_member hc
      exact ⟨hfits, target', s, htarget⟩
  | unary =>
      obtain ⟨operand', s, hoperand, -, -⟩ := Expr.compile_unary hc
      exact ⟨hfits, operand', s, hoperand⟩
  | left =>
      obtain ⟨left', s, right', s', hleft, -, -, -⟩ := Expr.compile_binary hc
      exact ⟨hfits, left', s, hleft⟩
  | right =>
      obtain ⟨left', s, right', s', -, hright, -, -⟩ := Expr.compile_binary hc
      exact ⟨hfits, right', s', hright⟩
  | argument he =>
      obtain ⟨arguments', harguments, -, -⟩ := Expr.compile_call hc
      exact ⟨hfits, compile_of_mem harguments he⟩
  | aggregate =>
      obtain ⟨target', s, element, htarget, -, -, -⟩ := Expr.compile_aggregate hc
      exact ⟨hfits, target', s, htarget⟩
  | aggregateOf =>
      obtain ⟨target', s, element, body', s', htarget, -, -, -, -⟩ := Expr.compile_aggregateOf hc
      exact ⟨hfits, target', s, htarget⟩
  | body htarget helement hw hitems hv =>
      obtain ⟨_, _, _, body', s', htarget', helement', hbody, -, -⟩ := Expr.compile_aggregateOf hc
      rw [htarget] at htarget'
      cases htarget'
      rw [helement] at helement'
      cases helement'
      have hallows := Heap.Typed.allows_element helement (ht.allows_eval _ htarget hfits hw) hitems _ hv
      exact ⟨hfits.cons _ hallows, body', s', hbody⟩
  | field he =>
      obtain ⟨fields', hfields, -, -⟩ := Expr.compile_row hc
      exact ⟨hfits, compile_of_mem_fields hfields he⟩

theorem Compiles.hasShape (ht : h.Typed g LazyRef.absent isObject) {p : Place}
    (hp : p.Compiles g LazyRef.absent isObject) : p.HasShape g h := by
  obtain ⟨e, scope, env⟩ := p
  obtain ⟨hfits, e', t, hc⟩ := hp
  cases e with
  | member target name =>
      obtain ⟨_, _, name', htarget', hmember, -⟩ := Expr.compile_member hc
      intro target' s w htarget hknown hw
      rw [htarget] at htarget'
      cases htarget'
      exact ht.exists_member hknown hmember (ht.allows_eval target htarget hfits hw)
  | aggregate target a =>
      obtain ⟨_, _, element, htarget', helement, -, -⟩ := Expr.compile_aggregate hc
      intro target' s w htarget hknown hw
      rw [htarget] at htarget'
      cases htarget'
      exact ht.exists_elements hknown helement (ht.allows_eval target htarget hfits hw)
  | aggregateOf target a x body =>
      obtain ⟨_, _, element, _, _, htarget', helement, -, -, -⟩ := Expr.compile_aggregateOf hc
      intro target' s w htarget hknown hw
      rw [htarget] at htarget'
      cases htarget'
      exact ht.exists_elements hknown helement (ht.allows_eval target htarget hfits hw)
  | _ => trivial

end Place

/-! ## The main statement -/

/-- The place of the body of a lambda that is applied to a value. -/
def Lambda.place (l : Lambda) (input : StaticType) (v : Value) : Place :=
  ⟨l.body, [(l.parameter, input)], [(l.parameter, v)]⟩

/-- **A lambda that compiles is typed as it runs.** For a graph where overriding keeps types and no
property has a getter, and an argument that conforms to the type the lambda was compiled for and
reaches no reference: the compiled lambda has the value or the failure of the lambda itself; no variable
is missing; wherever the evaluation gets, members and elements of a value whose type is known are there;
and a value is null or conforms to the type that the compilation answered. -/
theorem Lambda.compile_sound {l l' : Lambda} {input t : StaticType} {v : Value} (hg : g.Arises)
    (hkeeps : g.OverridesKeep fun p q => q.type = p.type) (hdirect : g.HasNoGetters)
    (hpopulated : h.Populates g (Descriptor.Accepts LazyRef.absent) isObject)
    (hv : input.Holds g LazyRef.absent isObject v) (hc : l.compile g input = .ok (l', t)) :
    l'.eval g h v = l.eval g h v ∧
      (∀ x, l.eval g h v ≠ .error (.invalidQuery (.unboundParameter x))) ∧
      (∀ p, Relation.ReflTransGen (Place.Inside g h) (l.place input v) p → p.HasShape g h) ∧
      ∀ u, l'.eval g h v = .ok u → u = .null ∨ t.Holds g LazyRef.absent isObject u := by
  have ht : h.Typed g LazyRef.absent isObject :=
    ⟨hg, hkeeps, hdirect, hpopulated, fun _ _ _ hr => hr.elim⟩
  unfold Lambda.compile at hc
  obtain ⟨⟨body', s⟩, hbody, hanswer⟩ := Expr.exists_of_bind_eq_ok hc
  cases hanswer
  have hfits : TypeScope.Fits g LazyRef.absent isObject [(l.parameter, input)] [(l.parameter, v)] :=
    List.Forall₂.cons ⟨rfl, Or.inr hv⟩ .nil
  obtain ⟨hsame, hvariables⟩ := ht.eval_compile l.body hbody hfits
  refine ⟨hsame, hvariables, fun p hreached => ?_, fun u hu => ?_⟩
  · have hplace : p.Compiles g LazyRef.absent isObject := by
      induction hreached with
      | refl => exact ⟨hfits, body', t, hbody⟩
      | tail _ hinside ih => exact ih.inside ht hinside
    exact hplace.hasShape ht
  · exact ht.allows_eval l.body hbody hfits (hsame.symm.trans hu)

/-! ## A dog and a pet

A dog is a pet with a name of its own kind, and it is asked for the name of its least friend. -/

/-- Pets with a name, friends and a secret that may be given and not read; dogs among them. -/
def pets : Registry :=
  (Registry.empty.withType
    { SourceType.bare "Pet" .resource with
      properties :=
        [.ofType "Name" (.value .string), .ofType "Friends" (.list (.named "Pet")),
          { PropertyDef.ofType "Secret" (.value .string) with access := .ofList [.post] }] }).withType
    { SourceType.bare "Dog" .resource with
      base := some "Pet"
      properties := [.ofType "name" (.value .string), .ofType "Age" (.value .int32)] }

/-- The type of dogs, after the value kinds, and that of pets. -/
def dogType : TypeId := ⟨ValueKind.all.length⟩

/-- The type of pets, which dogs inherit from. -/
def petType : TypeId := ⟨ValueKind.all.length + 1⟩

/-- The dog Rex and the pet Tom, a friend of his. -/
def rexAndTom : Heap :=
  ⟨#[⟨dogType, [("Friends", .list [.object ⟨1⟩]), ("Secret", .string "bone"), ("name", .string "Rex")]⟩,
     ⟨petType, [("Name", .string "Tom")]⟩],
   #[]⟩

/-- The name of the least friend. -/
def friendName : Lambda :=
  ⟨"p", .member (.aggregate (.member (.param "p") "friends") .min) "NAME"⟩

theorem arises_pets : pets.graph.Arises :=
  Registry.arises_graph ((Registry.keyedByName_empty.withType _).withType _) (by decide +kernel)

theorem overridesKeep_pets : pets.graph.OverridesKeep fun p q => q.type = p.type :=
  arises_pets.overridesKeep (by decide +kernel)

theorem populates_rexAndTom : rexAndTom.Populates pets.graph (Descriptor.Accepts LazyRef.absent)
    fun id concrete => (id, concrete) ∈ [(⟨0⟩, dogType), (⟨1⟩, petType)] :=
  Heap.populates_of_populatedBy (by decide +kernel)

/-- The lambda compiles for pets, and Rex is one: its compiled form has the same value for him. -/
theorem friendName_sound : ∃ l' t, friendName.compile pets.graph (.mapped petType) = .ok (l', t) ∧
    l'.eval pets.graph rexAndTom (.object ⟨0⟩) = friendName.eval pets.graph rexAndTom (.object ⟨0⟩) ∧
    ∃ name, l'.eval pets.graph rexAndTom (.object ⟨0⟩) = .ok name := by
  have hv : (StaticType.mapped petType).Holds pets.graph LazyRef.absent
      (fun id concrete => (id, concrete) ∈ [(⟨0⟩, dogType), (⟨1⟩, petType)]) (.object ⟨0⟩) :=
    Value.conforms_of_conformsBy (.object ⟨0⟩) (by decide +kernel)
  obtain ⟨⟨l', t⟩, hc⟩ := exists_of_isOk
    (by decide +kernel : (friendName.compile pets.graph (.mapped petType)).isOk = true)
  obtain ⟨hsame, -, -, -⟩ := Lambda.compile_sound arises_pets overridesKeep_pets (by decide +kernel)
    populates_rexAndTom hv hc
  obtain ⟨name, hname⟩ := exists_of_isOk
    (by decide +kernel : (friendName.eval pets.graph rexAndTom (.object ⟨0⟩)).isOk = true)
  exact ⟨l', t, hc, hsame, name, hsame.trans hname⟩

end ResourceQuery
