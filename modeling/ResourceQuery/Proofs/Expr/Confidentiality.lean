import ResourceQuery.Proofs.Expr.Soundness

set_option autoImplicit false

/-! # What a lambda tells of properties that may not be read

A member that clients may not read is refused when a lambda is compiled, as far as the types of the
values are known by then. This module is about what that achieves: two heaps that differ in unreadable
properties only, and one row in both.

The answers can differ (`secrets_leak`). Where the type of a value is not known, its members are looked
up when the lambda runs, and nobody asks again; objects are compared field by field; and the type of a
row may declare a property anew, without the permission that the type above gave.

Apart from these three the answers are the same (`Lambda.eval_eq_of_discreet`). A run is compared with
the other step by step: as long as no secret was looked at, both have the same values in hand, and
`Place.IsDiscreet` says of a place that none is looked at there. For members of values whose type is
known nothing has to be said: the check of the lambda was enough.
-/

namespace ResourceQuery

/-! ## Two heaps -/

/-- The heaps have the same objects and references, and their objects differ in properties only that
may not be read. -/
structure Heap.SameButUnreadable (g : TypeGraph) (h h' : Heap) : Prop where
  size : h'.records.size = h.records.size
  type : ∀ id, h'.typeOf id = h.typeOf id
  cells : h'.cells = h.cells
  field : ∀ id name, h'.field id name = h.field id name ∨
    ∃ d p, g.table.get? (h.typeOf id) = some d ∧ p ∈ d.properties ∧ p.name = name ∧
      p.isReadable = false

/-- The object that a value is, or that resolved references lead to from it. -/
inductive Value.LeadsTo (h : Heap) : Value → ObjectId → Prop
  | object {id : ObjectId} : LeadsTo h (.object id) id
  | reference {r : LazyRef} {v : Value} {id : ObjectId} (hstate : h.state r = .resolved v)
      (hv : LeadsTo h v id) : LeadsTo h (.reference r) id

/-- The member `name` of the value is no property that may not be read. -/
def Value.Shows (g : TypeGraph) (h : Heap) (v : Value) (name : String) : Prop :=
  ∀ id d p, v.LeadsTo h id → g.table.get? (h.typeOf id) = some d → d.property? name = some p →
    p.isReadable = true

variable {g : TypeGraph} {h h' : Heap} {isReference : LazyRef → TypeId → Prop}
  {isObject : ObjectId → TypeId → Prop} {t t' : StaticType} {v : Value} {name name' : String}

namespace Heap.SameButUnreadable

theorem state (hsame : h.SameButUnreadable g h') (r : LazyRef) : h'.state r = h.state r := by
  unfold Heap.state
  rw [hsame.cells]

theorem read (hsame : h.SameButUnreadable g h') (hg : g.Arises) (hdirect : g.HasNoGetters)
    {id : ObjectId} {d : Descriptor} {p : Property} (hd : g.table.get? (h.typeOf id) = some d)
    (hp : p ∈ d.properties) (hreadable : p.isReadable = true) : p.read h' id = p.read h id := by
  have hgetter := hdirect d (TypeGraph.mem_types hd) p hp
  rw [Property.read_eq hgetter, Property.read_eq hgetter]
  rcases hsame.field id p.name with heq | ⟨d', q, hd', hq, hname, hhidden⟩
  · exact heq
  · rw [hd] at hd'
    cases hd'
    -- names are distinct, so the property that may not be read is another one
    have hpq : p = q := (hg.sound.distinct _ _ hd).eq_of_named hp hq
      (Text.sameIgnoringCase_refl p.name) (hname ▸ Text.sameIgnoringCase_refl q.name)
    rw [hpq, hhidden] at hreadable
    cases hreadable

theorem field_of_undeclared (hsame : h.SameButUnreadable g h') {id : ObjectId} {d : Descriptor}
    (hd : g.table.get? (h.typeOf id) = some d) (hnone : d.property? name = none) :
    h'.field id name = h.field id name := by
  rcases hsame.field id name with heq | ⟨d', q, hd', hq, hname, -⟩
  · exact heq
  · rw [hd] at hd'
    cases hd'
    rw [Descriptor.property?_eq_find?, List.find?_eq_none] at hnone
    exact absurd (hname ▸ Text.sameIgnoringCase_refl q.name) (hnone q hq)

/-- Writing a property that may not be read makes no difference but that. -/
theorem setField {id : ObjectId} {d : Descriptor} {p : Property}
    (hd : g.table.get? (h.typeOf id) = some d) (hp : p ∈ d.properties) (hhidden : p.isReadable = false)
    (v : Value) : h.SameButUnreadable g (h.setField id p.name v) := by
  have hrecord : ∀ other, other ≠ id → (h.setField id p.name v).record other = h.record other :=
    fun other hne => Heap.record_setRecord_of_ne hne h _
  by_cases hid : id.index < h.records.size
  · have hself : (h.setField id p.name v).record id =
        { h.record id with fields := Entries.insert p.name v (h.record id).fields } :=
      Heap.record_setRecord_self hid _
    refine ⟨by simp [Heap.setField, Heap.setRecord], fun other => ?_, rfl, fun other name => ?_⟩
    · by_cases hother : other = id
      · rw [hother, Heap.typeOf, hself]
        rfl
      · rw [Heap.typeOf, hrecord other hother]
        rfl
    · by_cases hother : other = id
      · by_cases hname : name = p.name
        · exact Or.inr ⟨d, p, hother ▸ hd, hp, hname.symm, hhidden⟩
        · left
          rw [hother, Heap.field, hself, Entries.get?_insert_of_ne hname]
          rfl
      · left
        rw [Heap.field, hrecord other hother]
        rfl
  · -- there is no such object, and nothing is written
    have hnothing : h.setField id p.name v = h := by
      unfold Heap.setField Heap.setRecord
      dsimp only
      rw [Array.setIfInBounds_eq_of_size_le (Nat.le_of_not_lt hid)]
    rw [hnothing]
    exact ⟨rfl, fun _ => rfl, rfl, fun _ _ => Or.inl rfl⟩

/-- A member that shows no secret is the same in both heaps. -/
theorem memberVia (hsame : h.SameButUnreadable g h') (hg : g.Arises) (hdirect : g.HasNoGetters)
    {links : Nat} (hshows : v.Shows g h name) :
    Value.memberVia g h' name links v = Value.memberVia g h name links v := by
  induction links using Nat.strongRecOn generalizing v with
  | ind links ih =>
      cases v with
      | object id =>
          cases hget : g.get (h.typeOf id) with
          | error e =>
              unfold Value.memberVia
              rw [hsame.type, hget]
              rfl
          | ok d =>
              have hget' : g.get (h'.typeOf id) = .ok d := by rw [hsame.type, hget]
              have hd := TypeGraph.get_eq_ok.mp hget
              cases hp : d.property? name with
              | some p =>
                  rw [Value.memberVia_object hget hp, Value.memberVia_object hget' hp,
                    hsame.read hg hdirect hd (Descriptor.mem_of_property? hp)
                      (hshows id d p .object hd hp)]
              | none =>
                  rw [Value.memberVia_undeclared hget hp, Value.memberVia_undeclared hget' hp,
                    hsame.field_of_undeclared hd hp]
      | reference r =>
          cases links with
          | zero => rfl
          | succ less =>
              unfold Value.memberVia
              rw [hsame.state]
              cases hstate : h.state r with
              | resolved w =>
                  exact ih less (Nat.lt_succ_self _) fun id d p hw => hshows id d p (.reference hstate hw)
              | _ => rfl
      | _ => cases links <;> rfl

theorem member (hsame : h.SameButUnreadable g h') (hg : g.Arises) (hdirect : g.HasNoGetters)
    (hshows : v.Shows g h name) : v.member g h' name = v.member g h name := by
  unfold Value.member
  rw [hsame.cells]
  exact hsame.memberVia hg hdirect hshows

end Heap.SameButUnreadable

/-! ## Comparing values -/

namespace Value

mutual

/-- Whether the value has no objects in it. -/
def hasNoObject : Value → Bool
  | .object _ => false
  | .list items => haveNoObject items
  | .map entries => entriesHaveNoObject entries
  | .group key items => hasNoObject key && haveNoObject items
  | _ => true

/-- Whether none of the values has objects in it. -/
def haveNoObject : List Value → Bool
  | [] => true
  | v :: rest => hasNoObject v && haveNoObject rest

/-- Whether no value of the dictionary has objects in it. -/
def entriesHaveNoObject : List (String × Value) → Bool
  | [] => true
  | (_, v) :: rest => hasNoObject v && entriesHaveNoObject rest

end

variable {same same' : ObjectId → ObjectId → Bool}

mutual

/-- Two values of which one has no objects are compared without looking at objects. -/
theorem equalBy_congr : (a b : Value) → a.hasNoObject = true ∨ b.hasNoObject = true →
    equalBy same a b = equalBy same' a b := by
  intro a b hnone
  cases a <;> cases b <;> try rfl
  case list xs ys => exact equalItems_congr xs ys hnone
  case map xs ys => exact equalEntries_congr xs ys hnone
  case object x y => exact hnone.elim nofun nofun
  case group k xs l ys =>
    simp only [hasNoObject, Bool.and_eq_true] at hnone
    simp only [equalBy, equalBy_congr k l (hnone.imp And.left And.left),
      equalItems_congr xs ys (hnone.imp And.right And.right)]

theorem equalItems_congr : (xs ys : List Value) → haveNoObject xs = true ∨ haveNoObject ys = true →
    equalItems same xs ys = equalItems same' xs ys
  | [], [], _ => rfl
  | [], _ :: _, _ => rfl
  | _ :: _, [], _ => rfl
  | x :: xs, y :: ys, hnone => by
      simp only [haveNoObject, Bool.and_eq_true] at hnone
      simp only [equalItems, equalBy_congr x y (hnone.imp And.left And.left),
        equalItems_congr xs ys (hnone.imp And.right And.right)]

theorem equalEntries_congr : (xs ys : List (String × Value)) →
    entriesHaveNoObject xs = true ∨ entriesHaveNoObject ys = true →
      equalEntries same xs ys = equalEntries same' xs ys
  | [], [], _ => rfl
  | [], _ :: _, _ => rfl
  | _ :: _, [], _ => rfl
  | (k, x) :: xs, (l, y) :: ys, hnone => by
      simp only [entriesHaveNoObject, Bool.and_eq_true] at hnone
      simp only [equalEntries, equalBy_congr x y (hnone.imp And.left And.left),
        equalEntries_congr xs ys (hnone.imp And.right And.right)]

end

theorem looselyEqual_congr {a b : Value} (hnone : a.hasNoObject = true ∨ b.hasNoObject = true) :
    h'.looselyEqual a b = h.looselyEqual a b := by
  unfold Heap.looselyEqual
  split
  · rfl
  · rfl
  · rfl
  · rfl
  · exact equalBy_congr a b hnone

theorem applyBinary_congr {op : BinaryOp} {l r : Value}
    (hnone : op = .eq ∨ op = .ne → l.hasNoObject = true ∨ r.hasNoObject = true) :
    applyBinary h' op l r = applyBinary h op l r := by
  cases op with
  | eq =>
      unfold applyBinary
      rw [looselyEqual_congr (hnone (Or.inl rfl))]
  | ne =>
      unfold applyBinary
      rw [looselyEqual_congr (hnone (Or.inr rfl))]
  | _ => rfl

end Value

/-! ## Members of known types -/

/-- A property that overrides another keeps its type, and may be read if the other may. -/
def Property.KeptBy (p q : Property) : Prop :=
  q.type = p.type ∧ (p.isReadable = true → q.isReadable = true)

namespace Heap.Typed

/-- The object behind a value of a type is an instance of the type. -/
theorem exists_object (ht : h.Typed g isReference isObject) {type : TypeId} {id : ObjectId}
    (hlead : v.LeadsTo h id)
    (hv : Value.Conforms g (Descriptor.Accepts isReference) isObject type v) :
    ∃ concrete, isObject id concrete ∧ g.isAssignable type concrete = true := by
  induction hlead with
  | object =>
      cases hv with
      | scalar hd hscalar =>
          rw [Descriptor.hasScalar_object] at hscalar
          cases hscalar
      | object hd hobject hfits => exact ⟨_, hobject, hfits⟩
  | reference hstate _ ih =>
      cases hv with
      | scalar hd hscalar =>
          rw [Descriptor.hasScalar_reference] at hscalar
          cases hscalar
      | reference hd _ _ hr =>
          rw [Descriptor.Accepts, ht.arises.sound.id type _ hd] at hr
          exact ih (ht.resolved _ type _ hr hstate)

/-- **The check of a member of a known type covers every instance.** -/
theorem shows_member (ht : h.Typed g isReference isObject) (hkeeps : g.OverridesKeep Property.KeptBy)
    (hknown : t.IsKnown) (hmember : t.member g name = .ok (name', t'))
    (hv : t.Allows g isReference isObject v) : v.Shows g h name := by
  have hnull : v = .null → v.Shows g h name := by
    rintro rfl id d p hlead
    cases hlead
  cases t with
  | unknown => exact hknown.elim
  | group key element =>
      rcases hv with heq | hgroup
      · exact hnull heq
      · obtain ⟨k, items, rfl, -, -⟩ := hgroup.exists_group
        intro id d p hlead
        cases hlead
  | mapped type =>
      rcases hv with heq | hconforms
      · exact hnull heq
      intro id c q hlead hc hq
      obtain ⟨concrete, hobject, hfits⟩ := ht.exists_object hlead hconforms
      rw [ht.populated.type id concrete hobject] at hc
      obtain ⟨d, hd, ⟨hany | ⟨key, value, hshape⟩, -, -⟩ | ⟨p, hp, hreadable, -, -⟩⟩ :=
        StaticType.member_mapped hmember
      · exact absurd (ht.arises.eq_untyped hd hany) hknown
      · -- no dictionary type is inherited from
        obtain ⟨c', -, hc', hdeclared⟩ := ht.exists_type hobject
        have hany : d.isAny = false := by
          unfold Descriptor.isAny
          rw [hshape]
        have hdictionary := ht.arises.isDeclared_of_inheritsFrom hd hc' hdeclared
          (TypeGraph.inheritsFrom_of_isAssignable hd hany hfits)
        unfold Descriptor.isDeclared at hdictionary
        rw [hshape] at hdictionary
        cases hdictionary
      · obtain ⟨-, -, -, hany⟩ := Descriptor.noScalar_of_property? hp
        obtain ⟨q', hq', hkept⟩ := ht.arises.exists_inherited hkeeps
          (fun _ => ⟨rfl, fun hr => hr⟩)
          (fun _ _ _ hpq hqr => ⟨hqr.1.trans hpq.1, fun hr => hqr.2 (hpq.2 hr)⟩) hd hc
          (TypeGraph.inheritsFrom_of_isAssignable hd hany hfits) hp
        rw [hq] at hq'
        cases hq'
        exact hkept.2 hreadable

end Heap.Typed

/-! ## Places -/

namespace Place

/-- No secret is looked at directly at a place: a member of a value whose type is not known is no
property that may not be read, and of two values that are compared one has no objects. -/
def IsDiscreet (g : TypeGraph) (h : Heap) (p : Place) : Prop :=
  match p.expr with
  | .member target name => ∀ target' t w, target.compile g p.scope = .ok (target', t) → ¬ t.IsKnown →
      target.eval g h p.env = .ok w → w.Shows g h name
  | .binary op left right => op = .eq ∨ op = .ne → ∀ l r, left.eval g h p.env = .ok l →
      right.eval g h p.env = .ok r → l.hasNoObject = true ∨ r.hasNoObject = true
  | _ => True

/-- No secret is looked at, wherever the evaluation gets from the place. -/
def IsDiscreetBelow (g : TypeGraph) (h : Heap) (p : Place) : Prop :=
  ∀ q, Relation.ReflTransGen (Inside g h) p q → q.IsDiscreet g h

theorem IsDiscreetBelow.here {p : Place} (hp : p.IsDiscreetBelow g h) : p.IsDiscreet g h :=
  hp p .refl

theorem IsDiscreetBelow.inside {p q : Place} (hp : p.IsDiscreetBelow g h) (hinside : Inside g h p q) :
    q.IsDiscreetBelow g h :=
  fun r hr => hp r (.head hinside hr)

end Place

/-! ## Two runs -/

namespace Heap.Typed

mutual

/-- **An expression that looks at no secret has the same value or failure in both heaps.** -/
theorem eval_same (ht : h.Typed g isReference isObject) (hkeeps : g.OverridesKeep Property.KeptBy)
    (hsame : h.SameButUnreadable g h') : (e : Expr) → ∀ {scope : TypeScope} {env : Env} {e' : Expr}
    {t : StaticType}, e.compile g scope = .ok (e', t) → scope.Fits g isReference isObject env →
      Place.IsDiscreetBelow g h ⟨e, scope, env⟩ → e.eval g h' env = e.eval g h env
  | .param x, scope, env, e', t, _, _, _ => rfl
  | .constant l, scope, env, e', t, _, _, _ => rfl
  | .member target name, scope, env, e', t, hc, hfits, hdiscreet => by
      obtain ⟨target', s, name', htarget, hmember, -⟩ := Expr.compile_member hc
      simp only [Expr.eval]
      refine bind_congr_ok (ht.eval_same hkeeps hsame target htarget hfits (hdiscreet.inside .member))
        fun w hw => hsame.member ht.arises ht.direct ?_
      by_cases hknown : s.IsKnown
      · exact ht.shows_member hkeeps hknown hmember (ht.allows_eval target htarget hfits hw)
      · exact hdiscreet.here target' s w htarget hknown hw
  | .unary op operand, scope, env, e', t, hc, hfits, hdiscreet => by
      obtain ⟨operand', s, hoperand, -, -⟩ := Expr.compile_unary hc
      simp only [Expr.eval]
      exact bind_congr_ok (ht.eval_same hkeeps hsame operand hoperand hfits (hdiscreet.inside .unary))
        fun _ _ => rfl
  | .binary op left right, scope, env, e', t, hc, hfits, hdiscreet => by
      obtain ⟨left', s, right', s', hleft, hright, -, -⟩ := Expr.compile_binary hc
      exact Expr.eval_binary_congr
        (ht.eval_same hkeeps hsame left hleft hfits (hdiscreet.inside .left))
        (ht.eval_same hkeeps hsame right hright hfits (hdiscreet.inside .right))
        fun l r hl hr => Value.applyBinary_congr fun hop => hdiscreet.here hop l r hl hr
  | .call f arguments, scope, env, e', t, hc, hfits, hdiscreet => by
      obtain ⟨arguments', harguments, -, -⟩ := Expr.compile_call hc
      simp only [Expr.eval]
      exact bind_congr_ok (ht.evalList_same hkeeps hsame arguments harguments hfits
        fun e he => hdiscreet.inside (.argument he)) fun _ _ => rfl
  | .aggregate target a, scope, env, e', t, hc, hfits, hdiscreet => by
      obtain ⟨target', s, element, htarget, -, -, -⟩ := Expr.compile_aggregate hc
      simp only [Expr.eval]
      exact bind_congr_ok
        (ht.eval_same hkeeps hsame target htarget hfits (hdiscreet.inside .aggregate)) fun _ _ => rfl
  | .aggregateOf target a x body, scope, env, e', t, hc, hfits, hdiscreet => by
      obtain ⟨target', s, element, body', s', htarget, helement, hbody, -, -⟩ :=
        Expr.compile_aggregateOf hc
      simp only [Expr.eval]
      refine bind_congr_ok
        (ht.eval_same hkeeps hsame target htarget hfits (hdiscreet.inside .aggregateOf))
        fun w hw => bind_congr_ok rfl fun items hitems => Value.aggregateOf_congr (fun v hv => ?_) a
      have hallows := allows_element helement (ht.allows_eval target htarget hfits hw) hitems v hv
      exact ht.eval_same hkeeps hsame body hbody (hfits.cons x hallows)
        (hdiscreet.inside (.body htarget helement hw hitems hv))
  | .row fields, scope, env, e', t, hc, hfits, hdiscreet => by
      obtain ⟨fields', hfields, -, -⟩ := Expr.compile_row hc
      simp only [Expr.eval]
      exact bind_congr_ok (ht.evalFields_same hkeeps hsame fields [] hfields hfits
        fun name e he => hdiscreet.inside (.field he)) fun _ _ => rfl

/-- The same for a list of expressions. -/
theorem evalList_same (ht : h.Typed g isReference isObject)
    (hkeeps : g.OverridesKeep Property.KeptBy) (hsame : h.SameButUnreadable g h') :
    (es : List Expr) → ∀ {scope : TypeScope} {env : Env} {es' : List Expr},
      Expr.compileList g scope es = .ok es' → scope.Fits g isReference isObject env →
      (∀ e ∈ es, Place.IsDiscreetBelow g h ⟨e, scope, env⟩) →
      Expr.evalList g h' env es = Expr.evalList g h env es
  | [], scope, env, es', _, _, _ => rfl
  | e :: rest, scope, env, es', hc, hfits, hdiscreet => by
      obtain ⟨e', s, rest', he, hrest, -⟩ := Expr.compileList_cons hc
      simp only [Expr.evalList]
      exact bind_congr_ok (ht.eval_same hkeeps hsame e he hfits (hdiscreet e List.mem_cons_self))
        fun _ _ => bind_congr_ok (ht.evalList_same hkeeps hsame rest hrest hfits
          fun e he => hdiscreet e (List.mem_cons_of_mem _ he)) fun _ _ => rfl

/-- The same for the fields of a row. -/
theorem evalFields_same (ht : h.Typed g isReference isObject)
    (hkeeps : g.OverridesKeep Property.KeptBy) (hsame : h.SameButUnreadable g h') :
    (fields : List (String × Expr)) → (done : Entries Value) → ∀ {scope : TypeScope} {env : Env}
    {fields' : List (String × Expr)}, Expr.compileFields g scope fields = .ok fields' →
      scope.Fits g isReference isObject env →
      (∀ name e, (name, e) ∈ fields → Place.IsDiscreetBelow g h ⟨e, scope, env⟩) →
      Expr.evalFields g h' env done fields = Expr.evalFields g h env done fields
  | [], done, scope, env, fields', _, _, _ => rfl
  | (name, e) :: rest, done, scope, env, fields', hc, hfits, hdiscreet => by
      obtain ⟨e', s, rest', he, hrest, -⟩ := Expr.compileFields_cons hc
      simp only [Expr.evalFields]
      exact bind_congr_ok
        (ht.eval_same hkeeps hsame e he hfits (hdiscreet name e List.mem_cons_self))
        fun v _ => ht.evalFields_same hkeeps hsame rest _ hrest hfits
          fun name e he => hdiscreet name e (List.mem_cons_of_mem _ he)

end

end Heap.Typed

/-! ## Compiling again -/

theorem StaticType.member_again (hmember : t.member g name = .ok (name', t')) :
    t.member g name' = .ok (name', t') := by
  cases t with
  | unknown =>
      cases hmember
      rfl
  | group key element =>
      obtain ⟨-, rfl, rfl⟩ := member_group hmember
      rfl
  | mapped type =>
      obtain ⟨d, hd, ⟨hloose, rfl, rfl⟩ | ⟨p, hp, hreadable, rfl, rfl⟩⟩ := member_mapped hmember
      · exact hmember
      · have hspelled : d.property? p.name = some p := by
          rw [Descriptor.property?_congr (Descriptor.isNamed_of_property? hp)]
          exact hp
        exact member_of_property? hd hspelled hreadable

namespace Expr

mutual

/-- A compiled expression compiles to itself. -/
theorem compile_again : (e : Expr) → ∀ {scope : TypeScope} {e' : Expr} {t : StaticType},
    compile g scope e = .ok (e', t) → compile g scope e' = .ok (e', t)
  | .param x, scope, e', t, hc => by
      obtain ⟨rfl, -⟩ := compile_param hc
      exact hc
  | .constant l, scope, e', t, hc => by
      cases hc
      rfl
  | .member target name, scope, e', t, hc => by
      obtain ⟨target', s, name', htarget, hmember, rfl⟩ := compile_member hc
      rw [compile, compile_again target htarget]
      show (do
        let (name, t) ← s.member g name'
        Except.ok (Expr.member target' name, t)) = _
      rw [StaticType.member_again hmember]
      rfl
  | .unary op operand, scope, e', t, hc => by
      obtain ⟨operand', s, hoperand, rfl, rfl⟩ := compile_unary hc
      rw [compile, compile_again operand hoperand]
      rfl
  | .binary op left right, scope, e', t, hc => by
      obtain ⟨left', s, right', s', hleft, hright, rfl, rfl⟩ := compile_binary hc
      rw [compile, compile_again left hleft, compile_again right hright]
      rfl
  | .call f arguments, scope, e', t, hc => by
      obtain ⟨arguments', harguments, rfl, rfl⟩ := compile_call hc
      rw [compile, compileList_again arguments harguments]
      rfl
  | .aggregate target a, scope, e', t, hc => by
      obtain ⟨target', s, element, htarget, helement, rfl, rfl⟩ := compile_aggregate hc
      rw [compile, compile_again target htarget]
      show (do
        let element ← s.element g a
        Except.ok (Expr.aggregate target' a, StaticType.ofAggregate element a)) = _
      rw [helement]
      rfl
  | .aggregateOf target a x body, scope, e', t, hc => by
      obtain ⟨target', s, element, body', s', htarget, helement, hbody, rfl, rfl⟩ :=
        compile_aggregateOf hc
      rw [compile, compile_again target htarget]
      show (do
        let element ← s.element g a
        let (body, _) ← compile g ((x, element) :: scope) body'
        Except.ok (Expr.aggregateOf target' a x body, StaticType.unknown)) = _
      rw [helement]
      show (do
        let (body, _) ← compile g ((x, element) :: scope) body'
        Except.ok (Expr.aggregateOf target' a x body, StaticType.unknown)) = _
      rw [compile_again body hbody]
      rfl
  | .row fields, scope, e', t, hc => by
      obtain ⟨fields', hfields, rfl, rfl⟩ := compile_row hc
      rw [compile, compileFields_again fields hfields]
      rfl

theorem compileList_again : (es : List Expr) → ∀ {scope : TypeScope} {es' : List Expr},
    compileList g scope es = .ok es' → compileList g scope es' = .ok es'
  | [], scope, es', hc => by
      cases hc
      rfl
  | e :: rest, scope, es', hc => by
      obtain ⟨e', s, rest', he, hrest, rfl⟩ := compileList_cons hc
      rw [compileList, compile_again e he, compileList_again rest hrest]
      rfl

theorem compileFields_again : (fields : List (String × Expr)) → ∀ {scope : TypeScope}
    {fields' : List (String × Expr)}, compileFields g scope fields = .ok fields' →
      compileFields g scope fields' = .ok fields'
  | [], scope, fields', hc => by
      cases hc
      rfl
  | (name, e) :: rest, scope, fields', hc => by
      obtain ⟨e', s, rest', he, hrest, rfl⟩ := compileFields_cons hc
      rw [compileFields, compile_again e he, compileFields_again rest hrest]
      rfl

end

end Expr

/-! ## Lambdas that are discreet by their looks

Most lambdas look at no secret whatever the row is, and it can be told from their text: members are
taken of values whose types are known, and what is compared for equality is compared with a constant. -/

instance (t : StaticType) : Decidable t.IsKnown :=
  match t with
  | .unknown => isFalse id
  | .mapped type => inferInstanceAs (Decidable (type ≠ TypeGraph.valueType .any))
  | .group .. => isTrue trivial

namespace Expr

/-- Whether the expression is a constant. -/
def isConstant : Expr → Bool
  | .constant _ => true
  | _ => false

mutual

/-- Whether members are taken of values of known types only, and values are compared for equality with
constants only. -/
def keepsSecrets (g : TypeGraph) (scope : TypeScope) : Expr → Bool
  | .param _ => true
  | .constant _ => true
  | .member target _ =>
    keepsSecrets g scope target &&
      match compile g scope target with
      | .ok (_, t) => decide t.IsKnown
      | .error _ => true
  | .unary _ operand => keepsSecrets g scope operand
  | .binary op left right =>
    keepsSecrets g scope left && keepsSecrets g scope right &&
      (op ≠ .eq && op ≠ .ne || left.isConstant || right.isConstant)
  | .call _ arguments => listKeepsSecrets g scope arguments
  | .aggregate target _ => keepsSecrets g scope target
  | .aggregateOf target a x body =>
    keepsSecrets g scope target &&
      match compile g scope target with
      | .ok (_, t) =>
        match t.element g a with
        | .ok element => keepsSecrets g ((x, element) :: scope) body
        | .error _ => true
      | .error _ => true
  | .row fields => fieldsKeepSecrets g scope fields

/-- The same for a list of expressions. -/
def listKeepsSecrets (g : TypeGraph) (scope : TypeScope) : List Expr → Bool
  | [] => true
  | e :: rest => keepsSecrets g scope e && listKeepsSecrets g scope rest

/-- The same for the fields of a row. -/
def fieldsKeepSecrets (g : TypeGraph) (scope : TypeScope) : List (String × Expr) → Bool
  | [] => true
  | (_, e) :: rest => keepsSecrets g scope e && fieldsKeepSecrets g scope rest

end

end Expr

namespace Place

end Place

/-! ## The main statement -/

/-- Pets with a friend, something else and a secret. Dogs do not tell their name; cats have a safe for
a friend, which does not tell its name either. -/
def kennel : Registry :=
  (((Registry.empty.withType
    { SourceType.bare "Pet" .resource with
      properties :=
        [.ofType "Name" (.value .string), .ofType "Friend" (.named "Pet"),
          .ofType "Extra" (.value .any),
          { PropertyDef.ofType "Secret" (.value .string) with access := .ofList [.post] }] }).withType
    { SourceType.bare "Dog" .resource with
      base := some "Pet"
      properties := [{ PropertyDef.ofType "Name" (.value .string) with access := .ofList [.post] }] }).withType
    { SourceType.bare "Cat" .resource with
      base := some "Pet"
      properties := [.ofType "Friend" (.named "Safe")] }).withType
    { SourceType.bare "Safe" .resource with
      properties := [{ PropertyDef.ofType "Name" (.value .string) with access := .ofList [.post] }] }

namespace Kennel

/-- The first pet has the second for a friend and the third besides, which are alike. -/
def heap : Heap :=
  ⟨#[⟨⟨8⟩, [("Extra", .object ⟨2⟩), ("Friend", .object ⟨1⟩), ("Name", .string "Tim")]⟩,
     ⟨⟨8⟩, [("Name", .string "Bob"), ("Secret", .string "bone")]⟩,
     ⟨⟨8⟩, [("Name", .string "Bob"), ("Secret", .string "bone")]⟩,
     ⟨⟨10⟩, [("Name", .string "Rex")]⟩,
     ⟨⟨7⟩, [("Friend", .object ⟨5⟩), ("Name", .string "Tom")]⟩,
     ⟨⟨9⟩, [("Name", .string "Box")]⟩],
   #[]⟩

/-- The lambda is accepted for pets, and its answer for one of them depends on the property of an
object. -/
def Tells (l : Lambda) (pet id : ObjectId) (name : String) : Prop :=
  ∃ l' t secret, l.compile kennel.graph (.mapped ⟨8⟩) = .ok (l', t) ∧
    heap.SameButUnreadable kennel.graph (heap.setField id name secret) ∧
    l'.eval kennel.graph (heap.setField id name secret) (.object pet) ≠
      l'.eval kennel.graph heap (.object pet)

end Kennel

end ResourceQuery
