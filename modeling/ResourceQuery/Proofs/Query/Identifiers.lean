import ResourceQuery.Proofs.Expr.RoundTrip
import ResourceQuery.Proofs.Query.Rows
import ResourceQuery.Proofs.Query.Transport
import ResourceQuery.Proofs.Type.Address
import ResourceQuery.Proofs.Type.Resolution
import ResourceQuery.Server

set_option autoImplicit false

/-! # An object asked for by its identifier

Behind a collection, the last segment of a path is the identifier of an object. A server has only its text.
It decodes the text, takes it for a whole number if it is written like one and for a text otherwise, and
asks its own collection for the first object whose primary id equals that. `Literal.Identifies` says which
constants come into paths as which texts. Whatever comes in as itself (`Literal.IsTold`) is asked for as
itself: through the encoding of the segment (`segment_eq`), the text of the filter
(`Lambda.parse_identifies`), the encoding of the query string (`Server.parse_memberQuery`) and the types of
the collection (`Lambda.compile_identifies`), the filter that is run is true of the objects with that id and
of no others (`Lambda.test_identifies`).
-/

namespace ResourceQuery

/-! ## Texts of identifiers -/

theorem Decimal.int64?_intText (n : Int64) : int64? (intText n.toInt) = some n := by
  have hword := Parser.int64?_toInt n
  -- the bounds of `Word.int64?` are too far apart to compute with, so only its name may be left
  obtain ⟨fits, hfits⟩ : ∃ fits, Word.int64? = fits := ⟨_, rfl⟩
  unfold int64?
  rw [hfits] at hword ⊢
  cases hn : n.toInt with
  | ofNat m =>
      rw [hn, Int.ofNat_eq_natCast] at hword
      have hdigits : (naturalText m).toList = Nat.toDigits 10 m := toList_naturalText m
      have hnoSign : ∀ c rest, (naturalText m).toList = c :: rest → c.isDigit = true :=
        fun c rest hc => all_isDigit_toDigits m c (by rw [← hdigits, hc]; exact List.mem_cons_self)
      rw [intText]
      split
      · rename_i rest hsign
        exact absurd (hnoSign _ rest hsign) (by decide)
      · rename_i rest hsign
        exact absurd (hnoSign _ rest hsign) (by decide)
      · rw [hdigits, natural?_toDigits, Option.bind_some, hword]
  | negSucc m =>
      have hnegative : Int.negSucc m = -((m + 1 : Nat) : Int) := rfl
      rw [hn, hnegative] at hword
      have hchars : ("-" ++ naturalText (m + 1)).toList = '-' :: Nat.toDigits 10 (m + 1) := by
        rw [String.toList_append, toList_naturalText]
        rfl
      rw [intText, hchars]
      simp only [natural?_toDigits, Option.bind_some, hword]

namespace Literal

/-- The constant identifies objects, and `text` stands for it in paths before it is encoded. -/
inductive Identifies : Literal → String → Prop where
  | int (n : Int64) : Identifies (.int n) (Decimal.intText n.toInt)
  | string (s : String) (nonempty : s ≠ "") : Identifies (.string s) s

/-- The constant is no text that is written like a whole number. -/
def IsTold : Literal → Prop
  | .string s => Decimal.int64? s = none
  | _ => True

variable {l : Literal} {text : String}

namespace Identifies

theorem readsBack (h : l.Identifies text) : l.ReadsBack := by
  cases h <;> trivial

theorem eq_of_equal (h : l.Identifies text) {other : Literal} (hequal : l.equal other = true) :
    other = l := by
  cases h with
  | int n =>
      cases other with
      | int m => exact congrArg Literal.int (eq_of_beq hequal).symm
      | _ => cases hequal
  | string s =>
      cases other with
      | string t => exact congrArg Literal.string (eq_of_beq hequal).symm
      | _ => cases hequal

/-- The segment of an identifier is its encoded text. -/
theorem segment_eq (h : l.Identifies text) (d : Descriptor) :
    TypeGraph.segment d l.value = .ok (Percent.encode Percent.keptInSegment text) := by
  cases h with
  | int n =>
      rw [Decimal.encode_intText]
      rfl
  | string s => rfl

/-- What a server takes an identifier for. -/
theorem identifierText_eq (h : l.Identifies text) (htold : l.IsTold) :
    Server.identifierText text = l.text := by
  cases h with
  | int n =>
      rw [Server.identifierText, Decimal.int64?_intText]
      rfl
  | string =>
      have hnone : Decimal.int64? text = none := htold
      rw [Server.identifierText, hnone]
      rfl

theorem looselyEqual_self (h : l.Identifies text) (heap : Heap) :
    heap.looselyEqual l.value l.value = true := by
  cases h <;> simp [Literal.value, Heap.looselyEqual, Heap.equal, Value.equalBy]

end Identifies

end Literal

/-! ## The filter -/

/-- Whether the property called `name` is the constant `l`. -/
def Lambda.identifies (name : String) (l : Literal) : Lambda :=
  ⟨Parser.rowName, .binary .eq (.member (.param Parser.rowName) name) (.constant l)⟩

namespace Lambda

variable {name text : String} {l : Literal}

/-- What is equal to the comparison with an identifier is that comparison. -/
theorem eq_of_equalUnder (hl : l.Identifies text) {read : Expr}
    (h : Expr.equalUnder [(Parser.rowName, Parser.rowName)] (identifies name l).body read = true) :
    read = (identifies name l).body := by
  have hrow : ∀ x : String,
      Expr.Pairing.relates [(Parser.rowName, Parser.rowName)] Parser.rowName x = true →
        x = Parser.rowName := by
    intro x hx
    unfold Expr.Pairing.relates at hx
    rw [if_pos (Or.inl rfl)] at hx
    exact (of_decide_eq_true hx).2.symm
  unfold identifies at h ⊢
  cases read with
  | binary op left right =>
      simp only [Expr.equalUnder, Bool.and_eq_true, beq_iff_eq] at h
      obtain ⟨⟨rfl, hleft⟩, hright⟩ := h
      have hmember : left = .member (.param Parser.rowName) name := by
        cases left with
        | member target other =>
            simp only [Expr.equalUnder, Bool.and_eq_true, beq_iff_eq] at hleft
            obtain ⟨rfl, htarget⟩ := hleft
            cases target with
            | param x => rw [hrow x htarget]
            | _ => simp [Expr.equalUnder] at htarget
        | _ => simp [Expr.equalUnder] at hleft
      have hconstant : right = .constant l := by
        cases right with
        | constant other => rw [hl.eq_of_equal hright]
        | _ => simp [Expr.equalUnder] at hright
      rw [hmember, hconstant]
  | _ => simp [Expr.equalUnder] at h

theorem text_identifies (hname : Text.isIdentifier name = true) (hword : isReserved name = false) :
    (identifies name l).text = .ok (name ++ " eq " ++ l.text) := by
  have hrow : Expr.isRow Parser.rowName [] (.param Parser.rowName) = true := by decide
  have hshown : ShownNames.hide [] name = false := by
    rw [ShownNames.hide, hword]
    rfl
  simp only [Lambda.text, identifies, Expr.text, hname, hrow, hshown, if_true, bind, Except.bind,
    Expr.precedence?, Option.any_none, Expr.wrapped]
  simp [BinaryOp.keyword, String.append_assoc]

/-- **The text of the filter is read as the filter**, within three levels of nesting. -/
theorem parse_identifies (hname : Text.isIdentifier name = true) (hword : isReserved name = false)
    (hl : l.Identifies text) {limit : Nat} (hlimit : 3 ≤ limit) :
    Lambda.parse (name ++ " eq " ++ l.text) limit = .ok (identifies name l) := by
  have hreadable : (identifies name l).body.Readable := ⟨trivial, hl.readsBack⟩
  have hempty : ShownNames.ByDepth [] := trivial
  obtain ⟨-, hspells⟩ := Expr.text_spec hempty _ hreadable (text_identifies hname hword)
  have hlexes := hspells [] [] .nil .nil
  rw [List.append_nil, List.append_nil] at hlexes
  have hbody : ∃ body,
      Expr.equalUnder [(Parser.rowName, Parser.rowName)] (identifies name l).body body = true ∧
      Parser.readAll Parser.expr (name ++ " eq " ++ l.text) limit = .ok body := by
    refine Parser.exists_readAll hlexes fun bounds s hnesting hs hlength hfits => ?_
    -- the member and the constant are read one level below the comparison
    have hmember : Parser.ReadsOperand Parser.rowName bounds [] (.member (.param Parser.rowName) name)
        none 2 (Expr.tokens Parser.rowName [] (.member (.param Parser.rowName) name)) :=
      ((Parser.readsTarget_rowMember (by decide)).unary (by decide)).operand
    have hconstant : Parser.ReadsWhole Parser.rowName bounds [] (.constant l)
        (BinaryOp.precedence .eq + 1) 2 l.tokens :=
      ((Parser.readsTarget_constant hl.readsBack).unary Nat.one_pos).operand.whole nofun
    have hwhole : Parser.ReadsWhole Parser.rowName bounds [] (identifies name l).body 0 3 _ :=
      (hmember.binary nofun hconstant).whole fun _ _ => Nat.zero_le _
    obtain ⟨read, after, hequal, hafter, -, hrun⟩ :=
      hwhole (by omega : 3 ≤ bounds.nesting) hfits (hs.trans (List.append_nil _).symm)
        (Nat.le_of_lt hlength) ⟨nofun, nofun⟩ nofun
    exact ⟨read, after, hequal, hafter, hrun⟩
  obtain ⟨body, hequal, hread⟩ := hbody
  rw [Lambda.parse, hread, eq_of_equalUnder hl hequal]
  rfl

variable {g : TypeGraph} {h : Heap} {e d : Descriptor} {p q : Property}

/-- The filter is compiled to itself where it names a readable property as it is declared. -/
theorem compile_identifies (he : g.get e.id = .ok e)
    (hp : e.property? p.name = some p) (hreadable : p.isReadable = true) (l : Literal) :
    (identifies p.name l).compile g (.mapped e.id) = .ok (identifies p.name l, .unknown) := by
  have hmember : StaticType.member g (.mapped e.id) p.name = .ok (p.name, .mapped p.type) :=
    StaticType.member_of_property? (TypeGraph.get_eq_ok.mp he) hp hreadable
  simp only [Lambda.compile, identifies, Expr.compile, List.lookup_cons_self, bind, Except.bind, hmember]

/-- The filter is true of an object whose property is loosely equal to the constant. -/
theorem test_identifies {object : ObjectId} (hd : g.get (h.typeOf object) = .ok d)
    (hq : d.property? name = some q) (l : Literal) :
    (identifies name l).test g h (.object object) = .ok (h.looselyEqual (q.read h object) l.value) := by
  have hmember : Value.member g h (.object object) name = .ok (q.read h object) := by
    simp only [Value.member, Value.memberVia, hd, hq, bind, Except.bind]
  simp only [Lambda.test, Lambda.eval, identifies, Expr.eval, List.lookup_cons_self, bind, Except.bind,
    hmember, Value.applyBinary, pure, Except.pure]
  cases h.looselyEqual (q.read h object) l.value <;> rfl

end Lambda

/-! ## The query -/

/-- A primary id is found under its name. -/
theorem TypeGraph.Arises.property?_of_primaryId {g : TypeGraph} (hg : g.Arises) {id : TypeId}
    {d : Descriptor} {q : Property} (hd : g.get id = .ok d) (hid : d.primaryId? = some q) {name : String}
    (hname : q.isNamed name = true) : d.property? name = some q := by
  have hmem : q ∈ d.properties := by
    obtain ⟨m, hm, hq⟩ := Option.bind_eq_some_iff.mp hid
    obtain ⟨i, -, hi⟩ := Option.bind_eq_some_iff.mp hq
    rw [Descriptor.properties, hm]
    exact List.mem_of_getElem? hi
  exact Descriptor.property?_of_mem (hg.sound.distinct id d (get_eq_ok.mp hd)) hmem hname

namespace Server

variable {g : TypeGraph} {h : Heap} {e : Descriptor} {p : Property} {l : Literal} {text : String}
  {items : List Value} {object : ObjectId}

/-- What is asked for with an identifier: the first object that has it. -/
def identifying (name : String) (l : Literal) : Parameters :=
  { Parameters.none with filter := some (.identifies name l), projection := .first }

theorem memberQuery_eq (hp : e.primaryId? = some p) (hl : l.Identifies text) (htold : l.IsTold) :
    memberQuery e (Percent.encode Percent.keptInSegment text) =
      .ok (Text.join "&" ([("$filter", p.name ++ " eq " ++ l.text), ("$projection", "first")].map
        (Parameters.segment Percent.keptAlphanumeric))) := by
  have hback : Percent.decode? (Percent.encode Percent.keptInSegment text) = some text :=
    Percent.decode?_encode (by decide) text
  have hfirst : Percent.encode Percent.keptAlphanumeric "first" = "first" := by decide +kernel
  simp only [memberQuery, hp, hback, hl.identifierText_eq htold, List.map_cons, List.map_nil,
    Parameters.segment, hfirst, Text.join, String.append_assoc]
  rfl

theorem escapesMarks_alphanumeric : Parameters.EscapesMarks Percent.keptAlphanumeric :=
  ⟨by decide, by decide, by decide⟩

/-- **The query for an identifier is read as what it asks for.** -/
theorem parse_memberQuery {config : Config} (hp : e.primaryId? = some p) (hname : Text.isIdentifier p.name = true)
    (hword : isReserved p.name = false) (hl : l.Identifies text) (htold : l.IsTold)
    (hdepth : 3 ≤ config.maxExpressionDepth) {query : String}
    (hquery : memberQuery e (Percent.encode Percent.keptInSegment text) = .ok query)
    (hlength : query.utf8ByteSize ≤ config.maxQueryLength) :
    Parameters.parse config query = .ok (identifying p.name l) := by
  rw [memberQuery_eq hp hl htold] at hquery
  cases hquery
  have hkeys : ([("$filter", p.name ++ " eq " ++ l.text), ("$projection", "first")].map (·.1)).Sublist
      Parameters.keys := by
    show ["$filter", "$projection"].Sublist Parameters.keys
    decide
  rw [Parameters.parse_segments escapesMarks_alphanumeric hkeys hlength]
  simp only [Parameters.setAll, List.foldlM_cons, List.foldlM_nil, Parameters.set,
    Lambda.parse_identifies hname hword hl hdepth, Except.map, bind, Except.bind]
  rfl

/-- Every item is an object, whose primary id is called `name`. -/
def ShareId (g : TypeGraph) (h : Heap) (name : String) (items : List Value) : Prop :=
  ∀ item ∈ items, ∃ object, item = .object object ∧
    ((g.table.get? (h.typeOf object)).bind Descriptor.primaryId?).any (·.isNamed name) = true

/-- The filter keeps the objects with the primary id that it asks for. -/
theorem filter_identifies (hg : g.Arises) {name : String} (hitems : ShareId g h name items) (l : Literal) :
    Rows.filter g h (.identifies name l) items =
      .ok (items.filter (Repository.hasId g h l.value)) := by
  refine Rows.filter_of_total fun item hitem => ?_
  obtain ⟨object, rfl, hcalled⟩ := hitems item hitem
  obtain ⟨q, hq, hname⟩ := (Option.any_eq_true _ _).mp hcalled
  obtain ⟨d, hd, hid⟩ := Option.bind_eq_some_iff.mp hq
  have hget := TypeGraph.get_eq_ok.mpr hd
  rw [Lambda.test_identifies hget (hg.property?_of_primaryId hget hid hname)]
  simp only [Repository.hasId, hd, Option.bind_some, hid]

/-- **The object that is asked for by its identifier is answered**, if it is the only one that has it. -/
theorem ofParameters_identifying (config : Config) (hg : g.Arises) (he : g.get e.id = .ok e)
    {a : ResourceAddress} (ha : e.address? = some a) (hbase : a.uriBase = e.id)
    (hid : e.primaryId? = some p) (hreadable : p.isReadable = true)
    (hitems : ShareId g h p.name items) (hmem : .object object ∈ items)
    (hhas : Repository.hasId g h l.value (.object object) = true)
    (hunique : ∀ item ∈ items, Repository.hasId g h l.value item = true → item = .object object) :
    Reply.ofParameters g h config e items (identifying p.name l) =
      (.ok ⟨.value (.object object), [], e.id⟩, g) := by
  have hp : e.property? p.name = some p :=
    hg.property?_of_primaryId he hid (Text.sameIgnoringCase_refl p.name)
  have hprepare : PreparedQuery.prepare g e (identifying p.name l) =
      (.ok ⟨e.id, false, some (.identifies p.name l), none, none, none, [], e.id⟩, g) := by
    simp only [PreparedQuery.prepare, TypeGraph.requireResource_eq_ok.mpr ha, identifying,
      Parameters.none, PreparedQuery.ofElement, PreparedQuery.lambda,
      Lambda.compile_identifies he hp hreadable, PreparedQuery.grouping,
      PreparedQuery.sortKey, hbase, Except.map, bind, Except.bind]
    simp [pure, Except.pure]
  -- what is kept is not empty, and nothing but the object
  obtain ⟨first, rest, hkept⟩ : ∃ first rest, items.filter (Repository.hasId g h l.value) = first :: rest :=
    List.exists_cons_of_ne_nil (List.ne_nil_of_mem (List.mem_filter.mpr ⟨hmem, hhas⟩))
  have hfirst : first = .object object := by
    have hin : first ∈ items.filter (Repository.hasId g h l.value) := hkept ▸ List.mem_cons_self
    exact hunique first (List.mem_filter.mp hin).1 (List.mem_filter.mp hin).2
  have hrun : PreparedQuery.run g h config
      ⟨e.id, false, some (.identifies p.name l), none, none, none, [], e.id⟩ (identifying p.name l) items =
        .ok (.value (.object object)) := by
    simp only [PreparedQuery.run, PreparedQuery.step, filter_identifies hg hitems l, hkept, hfirst,
      identifying, PreparedQuery.limit, PreparedQuery.page, Projection.answer?, Projection.firstOf,
      Parameters.none, bind, Except.bind, Except.map, Bool.false_eq_true, if_false]
    simp
  rw [Reply.ofParameters, hprepare]
  dsimp only
  rw [hrun]
  rfl

end Server

end ResourceQuery
