import ResourceQuery.Proofs.Text.Splitting
import ResourceQuery.Proofs.Type.Folding
import ResourceQuery.Proofs.Type.Labels

set_option autoImplicit false

/-! # Spellings of a type

A type is read from any of its spellings and written in one way. What is read has a text that reads back
(`IsSpelt`): every name in it is a word of the grammar, and every instance has arguments. Folding keeps this.

The way back is shown along the type (`reads_text`). A container is written as an instance of the definition
that spells it, so what is read there at first is another type, and only its canonical form is the one that
was written. Behind a type inside others stands a comma or an angle bracket, where reading it stops
(`Closed`). The depth that reading may go to is measured by the text: what stands inside is shorter.
-/

namespace ResourceQuery

namespace NativeType

variable {t : NativeType} {name source : String} {cs rest : List Char} {arguments : List NativeType}

/-! ## Types that can be written -/

/-- A word of the grammar: letters, digits, underscores and dots. -/
structure IsWord (name : String) : Prop where
  chars : ∀ c ∈ name.toList, isNameChar c = true
  nonempty : name.toList ≠ []

mutual

/-- Names are words, names of types are none of parameters, and instances have arguments. -/
def IsSpelt : NativeType → Prop
  | .value _ => True
  | .named name => IsName name
  | .list element => IsSpelt element
  | .map k v => IsSpelt k ∧ IsSpelt v
  | .nullable inner => IsSpelt inner
  | .generic definition arguments => IsWord definition ∧ arguments ≠ [] ∧ AreSpelt arguments
  | .parameter index => index < Word.uint64Bound

/-- All types can be written. -/
def AreSpelt : List NativeType → Prop
  | [] => True
  | a :: as => IsSpelt a ∧ AreSpelt as

end

theorem areSpelt_append {as bs : List NativeType} (has : AreSpelt as) (hbs : AreSpelt bs) :
    AreSpelt (as ++ bs) := by
  induction as with
  | nil => exact hbs
  | cons a as ih => exact ⟨has.1, ih has.2⟩

theorem areSpelt_reverse {as : List NativeType} (h : AreSpelt as) : AreSpelt as.reverse := by
  induction as with
  | nil => exact h
  | cons a as ih =>
      rw [List.reverse_cons]
      exact areSpelt_append (ih h.2) ⟨h.1, trivial⟩

/-! ### Folding -/

theorem isSpelt_optional (h : t.IsSpelt) : (optional t).IsSpelt := by
  cases t <;> exact h

theorem isSpelt_applied {definition : String} (h : (generic definition arguments).IsSpelt) :
    (applied definition arguments).IsSpelt := by
  obtain ⟨element, rfl, happlied⟩ | ⟨k, v, rfl, happlied⟩ | ⟨inner, rfl, happlied⟩ | happlied :=
    applied_cases definition arguments
  · rw [happlied]
    exact h.2.2.1
  · rw [happlied]
    exact ⟨h.2.2.1, h.2.2.2.1⟩
  · rw [happlied]
    exact isSpelt_optional h.2.2.1
  · rw [happlied]
    exact h

theorem canonicalAll_ne_nil (h : arguments ≠ []) : canonicalAll arguments ≠ [] := by
  cases arguments with
  | nil => exact absurd rfl h
  | cons a as => nofun

mutual

/-- The canonical form of a type that can be written can be written. -/
theorem isSpelt_canonical : (t : NativeType) → t.IsSpelt → t.canonical.IsSpelt
  | .value _, h => h
  | .parameter _, h => h
  | .list element, h => isSpelt_canonical element h
  | .map k v, ⟨hk, hv⟩ => ⟨isSpelt_canonical k hk, isSpelt_canonical v hv⟩
  | .nullable inner, h => isSpelt_optional (isSpelt_canonical inner h)
  | .generic _ arguments, ⟨hdefinition, hsome, harguments⟩ =>
      isSpelt_applied ⟨hdefinition, canonicalAll_ne_nil hsome, areSpelt_canonicalAll arguments harguments⟩
  | .named name, h => by
      unfold canonical
      cases ValueKind.ofName? name with
      | some kind => trivial
      | none => exact h

theorem areSpelt_canonicalAll : (arguments : List NativeType) → AreSpelt arguments →
    AreSpelt (canonicalAll arguments)
  | [], h => h
  | a :: as, ⟨ha, has⟩ => ⟨isSpelt_canonical a ha, areSpelt_canonicalAll as has⟩

end

/-! ### Reading -/

theorem isSpelt_ofName {cs : List Char} (hchars : ∀ c ∈ cs, isNameChar c = true) (hsome : cs ≠ []) :
    (ofName cs).IsSpelt := by
  unfold ofName
  cases hindex : parameterIndex? cs with
  | none => exact ⟨by rwa [String.toList_ofList], by rwa [String.toList_ofList], by rwa [String.toList_ofList]⟩
  | some index =>
      unfold parameterIndex? at hindex
      split at hindex
      · obtain ⟨n, -, hn⟩ := Option.bind_eq_some_iff.mp hindex
        split at hn
        · cases hn
          assumption
        · cases hn
      · cases hindex

theorem isSpelt_marks (fuel : Nat) (h : t.IsSpelt) (cs : List Char) : (marks fuel t cs).1.IsSpelt := by
  induction fuel generalizing t cs with
  | zero => exact h
  | succ fuel ih =>
      unfold marks
      split
      · exact ih (t := .nullable t) h _
      · exact h

theorem areSpelt_moreArguments {argument : List Char → Except Error (NativeType × List Char)}
    (hargument : ∀ cs t rest, argument cs = .ok (t, rest) → t.IsSpelt) {fuel : Nat}
    {done : List NativeType} (hdone : AreSpelt done) (hsome : done ≠ [])
    (h : moreArguments argument fuel done cs = .ok (arguments, rest)) :
    arguments ≠ [] ∧ AreSpelt arguments := by
  have hend : done.reverse ≠ [] ∧ AreSpelt done.reverse :=
    ⟨by simpa using hsome, areSpelt_reverse hdone⟩
  induction fuel generalizing done cs with
  | zero =>
      cases h
      exact hend
  | succ fuel ih =>
      unfold moreArguments at h
      split at h
      · cases h
        exact hend
      · obtain ⟨⟨t, behind⟩, ht, hmore⟩ := Expr.exists_of_bind_eq_ok h
        have hdone' : AreSpelt (t :: done) := ⟨hargument _ _ _ ht, hdone⟩
        exact ih hdone' (List.cons_ne_nil _ _) hmore
          ⟨by simp, areSpelt_reverse hdone'⟩

/-- Whatever is read can be written. -/
theorem isSpelt_parseAt {depth : Nat} (h : parseAt source depth cs = .ok (t, rest)) : t.IsSpelt := by
  induction depth generalizing cs t rest with
  | zero => cases h
  | succ depth ih =>
      unfold parseAt at h
      dsimp only at h
      by_cases hempty : ((skipSpace cs).takeWhile isNameChar).isEmpty = true
      · rw [if_pos hempty] at h
        cases h
      rw [if_neg hempty] at h
      have hchars : ∀ c ∈ (skipSpace cs).takeWhile isNameChar, isNameChar c = true :=
        fun c hc => List.mem_takeWhile_imp hc
      have hsome : (skipSpace cs).takeWhile isNameChar ≠ [] := by simpa using hempty
      split at h
      · have hname := isSpelt_marks ((skipSpace cs).dropWhile isNameChar).length (isSpelt_ofName hchars hsome)
          ((skipSpace cs).dropWhile isNameChar)
        rwa [Except.ok.inj h] at hname
      · obtain ⟨⟨first, behind⟩, hfirst, h⟩ := Expr.exists_of_bind_eq_ok h
        obtain ⟨⟨arguments, after⟩, harguments, h⟩ := Expr.exists_of_bind_eq_ok h
        have hdone : AreSpelt [first] := ⟨ih hfirst, trivial⟩
        have hall := areSpelt_moreArguments (fun _ _ _ ht => ih ht) hdone (List.cons_ne_nil _ _) harguments
        have hdefinition : IsWord (String.ofList ((skipSpace cs).takeWhile isNameChar)) :=
          ⟨by rwa [String.toList_ofList], by rwa [String.toList_ofList]⟩
        dsimp only at h
        split at h
        · cases h
        · rename_i closed _
          have hinstance := isSpelt_marks closed.length
            (t := .generic (String.ofList ((skipSpace cs).takeWhile isNameChar)) arguments)
            ⟨hdefinition, hall⟩ closed
          rwa [Except.ok.inj h] at hinstance

/-- What is read is folded and can be written. -/
theorem of_parse (h : parse source = .ok t) : t.IsFolded ∧ t.IsSpelt := by
  obtain ⟨⟨raw, rest⟩, hraw, h⟩ := Expr.exists_of_bind_eq_ok h
  dsimp only at h
  split at h
  · cases h
    exact ⟨isFolded_canonical raw, isSpelt_canonical raw (isSpelt_parseAt hraw)⟩
  · cases h

/-! ## Reading a text -/

/-- A type has ended: behind it stands what separates or closes arguments, or nothing. -/
def Closed (rest : List Char) : Prop :=
  ∀ c ∈ rest.head?, c = ',' ∨ c = '>'

theorem closed_nil : Closed [] := nofun

theorem closed_comma (rest : List Char) : Closed (',' :: rest) := by
  rintro c ⟨⟩
  exact .inl rfl

theorem closed_bracket (rest : List Char) : Closed ('>' :: rest) := by
  rintro c ⟨⟩
  exact .inr rfl

/-- What holds for the two characters holds for the first one. -/
theorem Closed.head_of (h : Closed rest) {p : Char → Prop} (hcomma : p ',') (hbracket : p '>') :
    ∀ c ∈ rest.head?, p c := by
  intro c hc
  obtain rfl | rfl := h c hc
  · exact hcomma
  · exact hbracket

theorem eat?_cons {c : Char} (h : CharClass.isWhiteSpace c = false) (d : Char) (rest : List Char) :
    eat? d (c :: rest) = if c = d then some rest else none := by
  have hspace : skipSpace (c :: rest) = c :: rest :=
    List.dropWhile_cons_of_neg (by rw [h]; exact Bool.false_ne_true)
  rw [eat?, hspace]

theorem Closed.eat?_eq_none (h : Closed rest) {d : Char} (hcomma : ',' ≠ d) (hbracket : '>' ≠ d) :
    eat? d rest = none := by
  cases rest with
  | nil => rfl
  | cons c more =>
      have hc := h c rfl
      obtain rfl | rfl := hc
      · rw [eat?_cons (by decide), if_neg hcomma]
      · rw [eat?_cons (by decide), if_neg hbracket]

/-- No question mark follows. -/
theorem Closed.marks_eq (h : Closed rest) (fuel : Nat) (t : NativeType) : marks fuel t rest = (t, rest) := by
  cases fuel with
  | zero => rfl
  | succ fuel => rw [marks, h.eat?_eq_none (by decide) (by decide)]

namespace IsWord

variable (h : IsWord name)

include h

theorem skipSpace_eq (rest : List Char) : skipSpace (name.toList ++ rest) = name.toList ++ rest := by
  obtain ⟨c, more, hname⟩ := List.exists_cons_of_ne_nil h.nonempty
  have hc := isWhiteSpace_of_isNameChar (h.chars c (hname ▸ List.mem_cons_self))
  rw [hname]
  exact List.dropWhile_cons_of_neg (by rw [hc]; exact Bool.false_ne_true)

theorem isEmpty_eq : name.toList.isEmpty = false := by
  simpa using h.nonempty

/-- A word by itself. -/
theorem parseAt_eq (hrest : Closed rest) (depth : Nat) :
    parseAt source (depth + 1) (name.toList ++ rest) = .ok (ofName name.toList, rest) := by
  have hstop : ∀ c ∈ rest.head?, isNameChar c = false := hrest.head_of (by decide) (by decide)
  rw [parseAt]
  simp only [h.skipSpace_eq, Text.takeWhile_append_stop h.chars hstop,
    Text.dropWhile_append_stop h.chars hstop, h.isEmpty_eq, hrest.eat?_eq_none (d := '<') (by decide) (by decide),
    hrest.marks_eq]
  rfl

/-- A word before arguments. -/
theorem parseAt_applied {depth : Nat} {inside behind : List Char} {first : NativeType} (hrest : Closed rest)
    (hfirst : parseAt source depth inside = .ok (first, behind))
    (hmore : moreArguments (parseAt source depth) behind.length [first] behind =
      .ok (arguments, '>' :: rest)) :
    parseAt source (depth + 1) (name.toList ++ '<' :: inside) = .ok (.generic name arguments, rest) := by
  have hstop : ∀ c ∈ ('<' :: inside).head?, isNameChar c = false := by
    rintro c ⟨⟩
    decide
  have hopen : eat? '<' ('<' :: inside) = some inside := by rw [eat?_cons (by decide), if_pos rfl]
  have hclose : eat? '>' ('>' :: rest) = some rest := by rw [eat?_cons (by decide), if_pos rfl]
  rw [parseAt]
  simp only [h.skipSpace_eq, Text.takeWhile_append_stop h.chars hstop,
    Text.dropWhile_append_stop h.chars hstop, h.isEmpty_eq, hopen, hfirst, bind, Except.bind, hmore, hclose,
    hrest.marks_eq, String.ofList_toList]
  rfl

end IsWord

/-! ### Words of the library -/

theorem isWord_of_all {name : String} (hchars : name.toList.all isNameChar = true) (hsome : name.toList ≠ []) :
    IsWord name :=
  ⟨List.all_eq_true.mp hchars, hsome⟩

theorem isName_kind (kind : ValueKind) : IsName kind.name := by
  cases kind <;> exact ⟨List.all_eq_true.mp (by decide), by decide, by decide⟩

theorem isWord_parameter (index : Nat) : IsWord ("T" ++ Decimal.naturalText index) := by
  have hchars : ("T" ++ Decimal.naturalText index).toList = 'T' :: Nat.toDigits 10 index := by
    rw [String.toList_append, Decimal.toList_naturalText]
    rfl
  refine ⟨fun c hc => ?_, by rw [hchars]; nofun⟩
  rw [hchars, List.mem_cons] at hc
  obtain rfl | hdigit := hc
  · decide
  · exact CharClass.of_isDigit (p := fun d => isNameChar d = true) (by decide)
      (Decimal.all_isDigit_toDigits index c hdigit)

theorem ofName_parameter {index : Nat} (h : index < Word.uint64Bound) :
    ofName ("T" ++ Decimal.naturalText index).toList = .parameter index := by
  have hchars : ("T" ++ Decimal.naturalText index).toList = 'T' :: Nat.toDigits 10 index := by
    rw [String.toList_append, Decimal.toList_naturalText]
    rfl
  have hindex : parameterIndex? ('T' :: Nat.toDigits 10 index) = some index := by
    rw [parameterIndex?, Decimal.natural?_toDigits, Option.bind_some, if_pos h]
  rw [hchars, ofName, hindex]

/-! ### Types inside types -/

/-- The text of the type is read as a type with this canonical form. -/
def ReadsBack (source : String) (t : NativeType) : Prop :=
  ∀ (depth : Nat) (rest : List Char), t.text.toList.length < depth → Closed rest →
    ∃ raw, parseAt source depth (t.text.toList ++ rest) = .ok (raw, rest) ∧ raw.canonical = t

/-- The texts of arguments behind the first, with a comma before each. -/
def laterTexts : List NativeType → List Char
  | [] => []
  | a :: as => ',' :: (a.text.toList ++ laterTexts as)

theorem toList_join_texts (a : NativeType) (as : List NativeType) :
    (Text.join "," (texts (a :: as))).toList = a.text.toList ++ laterTexts as := by
  induction as generalizing a with
  | nil => simp [texts, Text.join, laterTexts]
  | cons b bs ih =>
      have hjoin : Text.join "," (texts (a :: b :: bs)) =
          a.text ++ "," ++ Text.join "," (texts (b :: bs)) := rfl
      rw [hjoin, String.toList_append, String.toList_append, ih b, laterTexts, List.append_assoc]
      rfl

theorem length_le_laterTexts (as : List NativeType) : as.length ≤ (laterTexts as).length := by
  induction as with
  | nil => exact Nat.le_refl 0
  | cons a as ih =>
      simp only [laterTexts, List.length_cons, List.length_append]
      omega

theorem closed_laterTexts (as : List NativeType) (rest : List Char) :
    Closed (laterTexts as ++ '>' :: rest) := by
  cases as with
  | nil => exact closed_bracket rest
  | cons a as => exact closed_comma _

/-- The arguments behind the first are read up to the closing bracket. -/
theorem reads_laterTexts {as : List NativeType} (has : ∀ a ∈ as, ReadsBack source a) (depth : Nat)
    {fuel : Nat} (hdepth : (laterTexts as).length ≤ depth) (hfuel : as.length ≤ fuel)
    (done : List NativeType) (rest : List Char) :
    ∃ raws, moreArguments (parseAt source depth) fuel done (laterTexts as ++ '>' :: rest) =
        .ok (done.reverse ++ raws, '>' :: rest) ∧ canonicalAll raws = as := by
  induction as generalizing fuel done with
  | nil =>
      refine ⟨[], ?_, rfl⟩
      rw [List.append_nil]
      cases fuel with
      | zero => rfl
      | succ fuel =>
          have hstop : eat? ',' ('>' :: rest) = none := by rw [eat?_cons (by decide), if_neg (by decide)]
          show moreArguments _ (fuel + 1) done ('>' :: rest) = _
          rw [moreArguments, hstop]
  | cons a as ih =>
      obtain ⟨ha, has⟩ := List.forall_mem_cons.mp has
      simp only [laterTexts, List.length_cons, List.length_append] at hdepth hfuel
      obtain ⟨fuel, rfl⟩ : ∃ more, fuel = more + 1 := ⟨fuel - 1, by omega⟩
      obtain ⟨raw, hraw, hcanonical⟩ := ha depth (laterTexts as ++ '>' :: rest) (by omega)
        (closed_laterTexts as rest)
      obtain ⟨raws, hraws, hall⟩ := ih has (by omega) (Nat.le_of_succ_le_succ hfuel) (raw :: done)
      refine ⟨raw :: raws, ?_, by rw [canonicalAll, hcanonical, hall]⟩
      have hcomma : eat? ',' (laterTexts (a :: as) ++ '>' :: rest) =
          some (a.text.toList ++ (laterTexts as ++ '>' :: rest)) := by
        rw [laterTexts, List.cons_append, eat?_cons (by decide), if_pos rfl, List.append_assoc]
      rw [moreArguments, hcomma]
      simp only [bind, Except.bind, hraw, hraws]
      rw [List.reverse_cons, List.append_assoc]
      rfl

/-- An instance is read with its arguments. -/
theorem reads_instance {definition : String} (hdefinition : IsWord definition) (hsome : arguments ≠ [])
    (harguments : ∀ a ∈ arguments, ReadsBack source a) {depth : Nat}
    (hdepth : (definition ++ "<" ++ Text.join "," (texts arguments) ++ ">").toList.length < depth)
    (hrest : Closed rest) :
    ∃ raws, parseAt source depth
        ((definition ++ "<" ++ Text.join "," (texts arguments) ++ ">").toList ++ rest) =
          .ok (.generic definition raws, rest) ∧ canonicalAll raws = arguments := by
  obtain ⟨a, as, rfl⟩ := List.exists_cons_of_ne_nil hsome
  obtain ⟨ha, has⟩ := List.forall_mem_cons.mp harguments
  have htext : (definition ++ "<" ++ Text.join "," (texts (a :: as)) ++ ">").toList =
      definition.toList ++ '<' :: (a.text.toList ++ (laterTexts as ++ ['>'])) := by
    simp only [String.toList_append, toList_join_texts, List.append_assoc]
    rfl
  rw [htext] at hdepth ⊢
  simp only [List.length_append, List.length_cons, List.length_nil] at hdepth
  obtain ⟨depth, rfl⟩ : ∃ less, depth = less + 1 := ⟨depth - 1, by omega⟩
  obtain ⟨raw, hraw, hcanonical⟩ := ha depth (laterTexts as ++ '>' :: rest) (by omega)
    (closed_laterTexts as rest)
  have hfuel : as.length ≤ (laterTexts as ++ '>' :: rest).length := by
    have hlater := length_le_laterTexts as
    rw [List.length_append]
    omega
  obtain ⟨raws, hraws, hall⟩ := reads_laterTexts has depth (by omega) hfuel [raw] rest
  refine ⟨raw :: raws, ?_, by rw [canonicalAll, hcanonical, hall]⟩
  have hinside : definition.toList ++ '<' :: (a.text.toList ++ (laterTexts as ++ ['>'])) ++ rest =
      definition.toList ++ '<' :: (a.text.toList ++ (laterTexts as ++ '>' :: rest)) := by
    simp
  rw [hinside]
  exact hdefinition.parseAt_applied hrest hraw hraws

/-- A name by itself reads back. -/
theorem readsBack_of_word (hword : IsWord t.text) (hname : (ofName t.text.toList).canonical = t) :
    ReadsBack source t := by
  intro depth rest hdepth hrest
  obtain ⟨depth, rfl⟩ : ∃ less, depth = less + 1 := ⟨depth - 1, by omega⟩
  exact ⟨_, hword.parseAt_eq hrest depth, hname⟩

/-- A type whose text is that of an instance reads back, if the instance has it as its canonical form. -/
theorem readsBack_of_instance (definition : String) (hdefinition : IsWord definition)
    (hsome : arguments ≠ []) (harguments : ∀ a ∈ arguments, ReadsBack source a)
    (htext : t.text = definition ++ "<" ++ Text.join "," (texts arguments) ++ ">")
    (happlied : applied definition arguments = t) : ReadsBack source t := by
  intro depth rest hdepth hrest
  rw [htext] at hdepth ⊢
  obtain ⟨raws, hraws, hall⟩ := reads_instance hdefinition hsome harguments hdepth hrest
  exact ⟨_, hraws, by rw [canonical, hall, happlied]⟩

mutual

/-- **The text of a folded type is read as a spelling of it**, wherever it stands. -/
theorem readsBack : (t : NativeType) → t.IsFolded → t.IsSpelt → ReadsBack source t
  | .value kind, _, _ => by
      have hname := isName_kind kind
      refine readsBack_of_word ⟨hname.chars, hname.nonempty⟩ ?_
      simp only [text, ofName, hname.parameter, String.ofList_toList, canonical, ValueKind.ofName?_name]
  | .named name, hfolded, hname => by
      refine readsBack_of_word ⟨hname.chars, hname.nonempty⟩ ?_
      unfold IsFolded at hfolded
      simp only [text, ofName, hname.parameter, String.ofList_toList, canonical, hfolded]
  | .parameter index, _, hindex => by
      refine readsBack_of_word (isWord_parameter index) ?_
      rw [text, ofName_parameter hindex, canonical]
  | .list element, hfolded, hspelt => by
      have helement : ReadsBack source element := readsBack element hfolded hspelt
      refine readsBack_of_instance "List" (isWord_of_all (by decide) (by decide))
        (List.cons_ne_nil element []) (by simpa using helement) ?_ rfl
      simp only [text, texts, Text.join]
      rfl
  | .map k v, ⟨hkFolded, hvFolded⟩, ⟨hkSpelt, hvSpelt⟩ => by
      have hk : ReadsBack source k := readsBack k hkFolded hkSpelt
      have hv : ReadsBack source v := readsBack v hvFolded hvSpelt
      refine readsBack_of_instance "Dictionary" (isWord_of_all (by decide) (by decide))
        (List.cons_ne_nil k [v]) (by simpa using ⟨hk, hv⟩) ?_ rfl
      simp only [text, texts, Text.join, String.append_assoc]
      rfl
  | .nullable inner, ⟨hfolded, hoptional⟩, hspelt => by
      have hinner : ReadsBack source inner := readsBack inner hfolded hspelt
      refine readsBack_of_instance "Nullable" (isWord_of_all (by decide) (by decide))
        (List.cons_ne_nil inner []) (by simpa using hinner) ?_ hoptional
      simp only [text, texts, Text.join]
      rfl
  | .generic definition arguments, ⟨hfolded, happlied⟩, ⟨hdefinition, hsome, hspelt⟩ =>
      readsBack_of_instance definition hdefinition hsome (readBackAll arguments hfolded hspelt) rfl happlied

theorem readBackAll : (arguments : List NativeType) → AreFolded arguments → AreSpelt arguments →
    ∀ a ∈ arguments, ReadsBack source a
  | [], _, _ => nofun
  | a :: as, ⟨ha, has⟩, ⟨haSpelt, hasSpelt⟩ =>
      List.forall_mem_cons.mpr ⟨readsBack a ha haSpelt, readBackAll as has hasSpelt⟩

end

/-! ## Texts -/

/-- A folded type that can be written is read from its text. -/
theorem parse_text (hfolded : t.IsFolded) (hspelt : t.IsSpelt) : parse t.text = .ok t := by
  have hlength : t.text.toList.length < t.text.length + 1 := by
    rw [String.length_toList]
    exact Nat.lt_succ_self _
  have hreads : ReadsBack t.text t := readsBack t hfolded hspelt
  obtain ⟨raw, hraw, hcanonical⟩ := hreads (t.text.length + 1) [] hlength closed_nil
  rw [List.append_nil] at hraw
  rw [parse, hraw]
  simp only [bind, Except.bind, hcanonical]
  rfl

/-- **Every spelling leads to a type that is known by one text.** A type that is read is canonical, and is
read from its own text as well. So two spellings are of one type exactly if the types have the same text. -/
theorem spellings_read_back (h : parse source = .ok t) :
    t.canonical = t ∧ parse t.text = .ok t ∧
      ∀ other u, parse other = .ok u → (t = u ↔ t.text = u.text) := by
  obtain ⟨hfolded, hspelt⟩ := of_parse h
  have htext : parse t.text = .ok t := parse_text hfolded hspelt
  refine ⟨canonical_of_isFolded t hfolded, htext, fun other u hother => ⟨fun heq => by rw [heq], fun heq => ?_⟩⟩
  obtain ⟨hfoldedOther, hspeltOther⟩ := of_parse hother
  have hsame : parse t.text = .ok u := by rw [heq, parse_text hfoldedOther hspeltOther]
  exact Except.ok.inj (htext.symm.trans hsame)

/-- Aliases, white space, question marks and a definition that is called like a parameter. -/
theorem spelling_of_set :
    parse " ISet < map<str , T0<Hat ??, T07> > ? >" =
        .ok (.list (.nullable (.map (.value .string) (.generic "T0" [.nullable (.named "Hat"), .parameter 7])))) ∧
      parse "List<Nullable<Dictionary<String,T0<Nullable<Hat>,T7>>>>" =
        .ok (.list (.nullable (.map (.value .string) (.generic "T0" [.nullable (.named "Hat"), .parameter 7])))) := by
  have hread : parse " ISet < map<str , T0<Hat ??, T07> > ? >" =
      .ok (.list (.nullable (.map (.value .string) (.generic "T0" [.nullable (.named "Hat"), .parameter 7])))) := by
    rfl
  exact ⟨hread, (spellings_read_back hread).2.1⟩

end NativeType

end ResourceQuery
