import ResourceQuery.Proofs.Wire.Places
import ResourceQuery.Proofs.Wire.Rejection
import Mathlib.Data.Set.List

set_option autoImplicit false

/-! # Dictionaries of texts

The keys of a dictionary are any texts, and they share an object of the document with the marks of the format. A
key that starts with a mark is escaped, and reading takes the escape away again. So a dictionary of texts is read
back whatever its keys are, with one exception: the key `_ref` needs no escape to be told from a mark, but an object
that has it is a reference (`Document.dictionary_read_back`).

The document has the entries in the order of the escaped keys. What is read is sorted again, so it is enough to
follow which entries there are (`Entries.eq_of_mem_iff`).
-/

namespace ResourceQuery

open Expr (exists_of_bind_eq_ok)

/-! ## Entries with the same members -/

namespace Entries

variable {α : Type} {xs ys : Entries α} {pairs : List (String × α)} {entry : String × α}

theorem mem_of_mem_ofList (h : entry ∈ ofList pairs) : entry ∈ pairs := by
  induction pairs using List.reverseRecOn with
  | nil => exact h
  | append_singleton pairs last ih =>
      rw [ofList, List.foldl_concat] at h
      rcases mem_insert h with hlast | hearlier
      · exact List.mem_append_right _ (List.mem_singleton.mpr hlast)
      · exact List.mem_append_left _ (ih hearlier)

/-- Pairs with different keys are all kept. -/
theorem mem_ofList (hkeys : ∀ a ∈ pairs, ∀ b ∈ pairs, a.1 = b.1 → a = b) :
    entry ∈ ofList pairs ↔ entry ∈ pairs := by
  refine ⟨mem_of_mem_ofList, fun h => ?_⟩
  have hsome : (get? entry.1 (ofList pairs)).isSome = true := by
    clear hkeys
    induction pairs using List.reverseRecOn with
    | nil => cases h
    | append_singleton pairs last ih =>
        rw [ofList, List.foldl_concat, isSome_get?_insert]
        rcases List.mem_append.mp h with hearlier | hlast
        · exact .inr (ih hearlier)
        · exact .inl (congrArg Prod.fst (List.mem_singleton.mp hlast))
  obtain ⟨value, hvalue⟩ := Option.isSome_iff_exists.mp hsome
  have hthere := mem_of_get? hvalue
  have hsame : entry = (entry.1, value) := hkeys _ h _ (mem_of_mem_ofList hthere) rfl
  rw [hsame]
  exact hthere

theorem Sorted.nodup (h : xs.Sorted) : xs.Nodup := by
  refine List.Pairwise.imp (fun {a b} hlt => ?_) h
  rintro rfl
  exact lt_irrefl _ hlt

/-- Sorted entries are told by what is among them. -/
theorem eq_of_mem_iff (hxs : xs.Sorted) (hys : ys.Sorted) (h : ∀ entry, entry ∈ xs ↔ entry ∈ ys) : xs = ys := by
  have hperm : xs.Perm ys := (List.perm_ext_iff_of_nodup hxs.nodup hys.nodup).mpr h
  exact hperm.eq_of_pairwise (fun _ _ _ _ hlt hgt => absurd (hlt.trans hgt) (lt_irrefl _)) hxs hys

end Entries

/-! ## Writing -/

/-- A text in a dictionary. -/
def Value.textEntry (entry : String × String) : String × Value :=
  (entry.1, .string entry.2)

/-- A dictionary of texts. -/
def Value.ofTexts (texts : Entries String) : Value :=
  .map (texts.map textEntry)

/-- The slots of a type hold dictionaries of texts. -/
def TypeGraph.HoldsTexts (g : TypeGraph) (type : TypeId) : Prop :=
  ∃ d, g.table.get? type = some d ∧
    d.shape = .dictionary (TypeGraph.valueType .string) (TypeGraph.valueType .string)

namespace Writer

variable {w : Writer} {below : SlotWriter} {slot : WriteSlot} {texts : Entries String} {type : TypeId}

/-- The member for a text in a dictionary. -/
def textMember (entry : String × String) : String × Json :=
  (escape entry.1, .string entry.2)

theorem textMember_inj {a b : String × String} (h : textMember a = textMember b) : a = b := by
  obtain ⟨hkey, htext⟩ := Prod.mk.inj h
  exact Prod.ext (escape_inj hkey) (Json.string.inj htext)

/-- The members for the texts of a dictionary. -/
def textMembers (texts : Entries String) : Entries Json :=
  Entries.ofList (texts.map textMember)

theorem writeEntries_texts (hg : w.graph.StartsWithValues) (hslot : slot.expected = TypeGraph.valueType .string)
    (done : Entries Json) :
    writeEntries w below slot done (texts.map Value.textEntry) =
      .ok ((texts.map textMember).foldl (fun members pair => Entries.insert pair.1 pair.2 members) done) := by
  induction texts generalizing done with
  | nil => rw [List.map_nil, writeEntries]; rfl
  | cons entry rest ih =>
      have hget : w.graph.get slot.expected = .ok _ := TypeGraph.get_eq_ok.mpr (hslot ▸ hg .string)
      have htext : writeVia w below { slot with path := slot.pathTo entry.1, inline := false } (.string entry.2) =
          .ok (.string entry.2) := by
        rw [writeVia, hget]
        rfl
      rw [List.map_cons, Value.textEntry, writeEntries, htext]
      exact ih _

theorem write_texts (hg : w.graph.StartsWithValues) (htype : w.graph.HoldsTexts type) :
    w.write type (.ofTexts texts) = .ok (.object (textMembers texts)) := by
  obtain ⟨d, hd, hshape⟩ := htype
  have hentry : entryType d = TypeGraph.valueType .string := by
    unfold entryType
    rw [hshape]
  have hvia : ∀ below, writeVia w below (.root type) (.ofTexts texts) = .ok (.object (textMembers texts)) := by
    intro below
    have hget : w.graph.get (WriteSlot.root type).expected = .ok d := TypeGraph.get_eq_ok.mpr hd
    rw [Value.ofTexts, writeVia, hget]
    show (writeEntries w below _ [] _ >>= fun members => Except.ok (Json.object members)) = _
    rw [writeEntries_texts hg hentry]
    rfl
  unfold write
  cases depthLimit w.heap with
  | zero => exact hvia _
  | succ depth => exact hvia _

section

variable (hsorted : texts.Sorted)

include hsorted

theorem mem_textMembers {member : String × Json} :
    member ∈ textMembers texts ↔ ∃ entry ∈ texts, textMember entry = member := by
  unfold textMembers
  rw [Entries.mem_ofList, List.mem_map]
  intro a ha b hb hkey
  obtain ⟨x, hx, rfl⟩ := List.mem_map.mp ha
  obtain ⟨y, hy, rfl⟩ := List.mem_map.mp hb
  -- texts with the same escaped key have the same key, and are the same text
  have hsame : x.1 = y.1 := escape_inj hkey
  have htext := hsorted.get?_of_mem hx
  rw [hsame, hsorted.get?_of_mem hy] at htext
  rw [Prod.ext hsame (Option.some.inj htext).symm]

/-- A key that needs no escape has its text under it. -/
theorem get?_textMembers {key : String} (hkey : escape key = key) :
    Entries.get? key (textMembers texts) = (Entries.get? key texts).map .string := by
  have hmembers : (textMembers texts).Sorted := Entries.sorted_ofList _
  cases hget : Entries.get? key texts with
  | some text =>
      refine hmembers.get?_of_mem ((mem_textMembers hsorted).mpr ⟨(key, text), Entries.mem_of_get? hget, ?_⟩)
      rw [textMember, hkey]
  | none =>
      rw [Option.map_none, Option.eq_none_iff_forall_ne_some]
      intro document hdocument
      obtain ⟨entry, hentry, hmember⟩ := (mem_textMembers hsorted).mp (Entries.mem_of_get? hdocument)
      have hsame : entry.1 = key := escape_inj ((congrArg Prod.fst hmember).trans hkey.symm)
      have hthere := hsorted.get?_of_mem hentry
      rw [hsame, hget] at hthere
      cases hthere

end

end Writer

/-! ## Reading -/

namespace Document

open Reading ResourceQuery.Action

variable {ctx : Context} {below : NodeReader} {n : Node} {s : ReadState} {texts : Entries String} {type : TypeId}

/-- The node of a slot that holds nothing, with a new value. -/
def fill (n : Node) (v : Value) : Node :=
  { n with value := some v, dirty := true }

theorem runOn_setValue_new (hn : n.value = none) (v : Value) : (setValue n v).runOn s = (.ok (fill n v), s) := by
  have hholds : n.holds s.heap v = false := by
    unfold Node.holds
    rw [hn]
  show (Except.ok (n.setValue s.heap v), s) = _
  unfold Node.setValue fill
  rw [hholds, Bool.not_false, Bool.or_true]

/-- A text in a slot for texts. -/
theorem runOn_readWith_text (hg : s.graph.StartsWithValues) (path text : String) :
    (readWith ctx below (.ofSlot (TypeGraph.valueType .string) path) (.string text)).runOn s =
      (.ok (fill (.ofSlot (TypeGraph.valueType .string) path) (.string text)), s) := by
  have hd : (descriptor (Node.ofSlot (TypeGraph.valueType .string) path).expected).runOn s = _ :=
    runOn_descriptor (hg .string)
  unfold readWith
  rw [runOn_bind, hd]
  exact runOn_setValue_new rfl _

theorem runOn_readNode_text (hg : s.graph.StartsWithValues) (depth : Nat) (path text : String) :
    (readNode ctx depth (.ofSlot (TypeGraph.valueType .string) path) (.string text)).runOn s =
      (.ok (fill (.ofSlot (TypeGraph.valueType .string) path) (.string text)), s) := by
  cases depth with
  | zero => exact runOn_readWith_text hg path text
  | succ depth => exact runOn_readWith_text hg path text

/-- The members for texts are put into a dictionary, each under its own key. -/
theorem runOn_readEntries_texts (hg : s.graph.StartsWithValues) (depth : Nat) (pairs : List (String × String))
    (entries : Entries Value) :
    (readEntries (readNode ctx depth) (TypeGraph.valueType .string) n entries
        (pairs.map Writer.textMember)).runOn s =
      (.ok (n, (pairs.map Value.textEntry).foldl (fun done pair => Entries.insert pair.1 pair.2 done) entries),
        s) := by
  induction pairs generalizing entries with
  | nil => rfl
  | cons pair rest ih =>
      have hkey := isUnmarkedKey_escape pair.1
      rw [List.map_cons, Writer.textMember, readEntries, hkey.after?, hkey.startsWith]
      show (readNode ctx depth (.ofSlot _ (Node.pathBelow n.path (unescape _))) _ >>= _ :
        Reading (Node × Entries Value)).runOn s = _
      rw [runOn_bind, runOn_readNode_text hg]
      dsimp only
      rw [absorb_of_nil n rfl, unescape_escape]
      exact ih _

/-- What is read of the members for a dictionary are its entries again. -/
theorem runOn_readEntries_textMembers (hg : s.graph.StartsWithValues) (hsorted : texts.Sorted) (depth : Nat) :
    (readEntries (readNode ctx depth) (TypeGraph.valueType .string) n [] (Writer.textMembers texts)).runOn s =
      (.ok (n, texts.map Value.textEntry), s) := by
  -- the members are those of the same texts in another order
  have hrange : Writer.textMembers texts ∈ Set.range (List.map Writer.textMember) := by
    rw [Set.range_list_map]
    intro member hmember
    obtain ⟨entry, -, hentry⟩ := (Writer.mem_textMembers hsorted).mp hmember
    exact ⟨entry, hentry⟩
  obtain ⟨pairs, hpairs⟩ := hrange
  have hmem : ∀ entry, entry ∈ pairs ↔ entry ∈ texts := by
    intro entry
    rw [← List.mem_map_of_injective fun _ _ => Writer.textMember_inj, hpairs, Writer.mem_textMembers hsorted]
    exact ⟨fun ⟨other, hother, hsame⟩ => Writer.textMember_inj hsame ▸ hother, fun h => ⟨entry, h, rfl⟩⟩
  have hinj : ∀ a b : String × String, Value.textEntry a = Value.textEntry b → a = b := by
    intro a b h
    obtain ⟨hkey, htext⟩ := Prod.mk.inj h
    exact Prod.ext hkey (Value.string.inj htext)
  have hentries : Entries.ofList (pairs.map Value.textEntry) = texts.map Value.textEntry := by
    refine Entries.eq_of_mem_iff (Entries.sorted_ofList _) (List.pairwise_map.mpr hsorted) fun entry => ?_
    rw [Entries.mem_ofList]
    · simp only [List.mem_map, hmem]
    · intro a ha b hb hkey
      obtain ⟨x, hx, rfl⟩ := List.mem_map.mp ha
      obtain ⟨y, hy, rfl⟩ := List.mem_map.mp hb
      have htext := hsorted.get?_of_mem ((hmem x).mp hx)
      rw [show x.1 = y.1 from hkey, hsorted.get?_of_mem ((hmem y).mp hy)] at htext
      rw [Prod.ext (show x.1 = y.1 from hkey) (Option.some.inj htext).symm]
  rw [← hpairs, runOn_readEntries_texts hg, ← hentries]
  rfl

/-- Members without `_ref` are read one after another, and are the new dictionary. -/
theorem runOn_readDictionary_texts (hg : s.graph.StartsWithValues) (hsorted : texts.Sorted)
    (hnone : Entries.get? "_ref" texts = none) (depth : Nat) :
    (readDictionary ctx (readNode ctx depth) (TypeGraph.valueType .string) (.root type none)
        (.object (Writer.textMembers texts))).runOn s =
      (.ok (fill (.root type none) (.ofTexts texts)), s) := by
  have hmember : refMember (Writer.textMembers texts) = .ok none := by
    unfold refMember
    rw [Writer.get?_textMembers hsorted rfl, hnone]
    rfl
  unfold readDictionary
  dsimp only
  rw [hmember, runOn_bind]
  show (readEntries (readNode ctx depth) _ (.root type none) [] (Writer.textMembers texts) >>= _ :
    Reading Node).runOn s = _
  rw [runOn_bind, runOn_readEntries_textMembers hg hsorted]
  exact runOn_setValue_new rfl _

/-- Members with `_ref` are a reference to what stands there. -/
theorem runOn_readDictionary_ref (hctx : ctx.reference = Context.unloaded) (hsorted : texts.Sorted) {uri : String}
    (huri : Entries.get? "_ref" texts = some uri) (hn : n.value = none) :
    (readDictionary ctx below (TypeGraph.valueType .string) n (.object (Writer.textMembers texts))).runOn s =
      (.ok (fill { n with uri := some uri } (.reference (s.heap.newRef uri n.type .unresolved).1)),
        ⟨s.graph, (s.heap.newRef uri n.type .unresolved).2, .reference uri n.path :: s.audit⟩) := by
  have hmember : refMember (Writer.textMembers texts) = .ok (some uri) := by
    unfold refMember
    rw [Writer.get?_textMembers hsorted rfl, huri]
    rfl
  unfold readDictionary
  dsimp only
  rw [hmember, runOn_bind]
  show (readReference ctx n uri).runOn s = _
  unfold readReference
  rw [hctx, runOn_bind]
  show (onHeap (Context.unloaded { n with uri := some uri }) >>= _ : Reading Node).runOn
    { s with audit := .reference uri n.path :: s.audit } = _
  rw [runOn_bind]
  have hslot : ({ n with uri := some uri } : Node).value = none := hn
  exact runOn_setValue_new hslot _

/-! ## There and back -/

/-- A document that is an object is read into a slot for texts as a dictionary, and nothing that is staged is
left to write back. -/
theorem runOn_read_texts (htype : s.graph.HoldsTexts type) (members : Entries Json) (v : Value) (s' : ReadState)
    (h : ∀ depth, (readDictionary ctx (readNode ctx depth) (TypeGraph.valueType .string) (.root type none)
      (.object members)).runOn s = (.ok (fill n v), s')) (hstaged : n.staged = []) :
    (read ctx type (.object members) none).runOn s = (.ok v, s') := by
  obtain ⟨d, hd, hshape⟩ := htype
  have hdescriptor : (descriptor (Node.root type none).expected).runOn s = (.ok d, s) := runOn_descriptor hd
  have hread : (readNode ctx (Json.object members).depth (.root type none) (.object members)).runOn s =
      (.ok (fill n v), s') := by
    rw [Json.depth, readNode]
    unfold readWith
    rw [runOn_bind, hdescriptor]
    dsimp only
    rw [hshape]
    exact h _
  unfold read
  rw [runOn_bind, hread]
  show (Except.ok v, { s' with heap := Node.writeBack s'.heap n.staged }) = _
  rw [hstaged]
  rfl

/-- **A dictionary of texts is read back, whatever its keys are, unless one of them is `_ref`.** Then the document
is taken for a reference to the text under that key. -/
theorem dictionary_read_back {g : TypeGraph} (hg : g.StartsWithValues) (htype : g.HoldsTexts type)
    (hsorted : texts.Sorted) (heap : Heap) (base : String) (expansion : Expansion) :
    ∃ document, (⟨g, heap, base, expansion⟩ : Writer).write type (.ofTexts texts) = .ok document ∧
      ∀ (ctx : Context) (s : ReadState), s.graph = g →
        (Entries.get? "_ref" texts = none →
          (read ctx type document none).runOn s = (.ok (.ofTexts texts), s)) ∧
        (∀ uri, Entries.get? "_ref" texts = some uri → ctx.reference = Context.unloaded →
          (read ctx type document none).runOn s =
            (.ok (.reference (s.heap.newRef uri type .unresolved).1),
              ⟨g, (s.heap.newRef uri type .unresolved).2, .reference uri "" :: s.audit⟩)) := by
  refine ⟨.object (Writer.textMembers texts), Writer.write_texts hg htype, ?_⟩
  rintro ctx s rfl
  constructor
  · intro hnone
    exact runOn_read_texts htype _ _ _ (runOn_readDictionary_texts hg hsorted hnone) rfl
  · intro uri huri hctx
    exact runOn_read_texts htype _ _ _ (fun _ => runOn_readDictionary_ref hctx hsorted huri rfl) rfl

/-! ## Labels -/

/-- A graph whose one type beside the value kinds is that of dictionaries of texts. -/
def labelGraph : TypeGraph :=
  (Registry.empty.graph.resolve (.map (.value .string) (.value .string))).2

/-- The type of dictionaries of texts, after the value kinds. -/
def labelsType : TypeId := ⟨ValueKind.all.length⟩

theorem labelGraph_startsWithValues : labelGraph.StartsWithValues := by
  have harises : Registry.empty.graph.Arises :=
    Registry.arises_graph Registry.keyedByName_empty (by decide +kernel)
  exact (harises.grow (.resolve .refl _)).startsWithValues

/-- The types of the keys and the entries of a dictionary. -/
def entryTypes? : TypeShape → Option (TypeId × TypeId)
  | .dictionary key value => some (key, value)
  | _ => none

theorem labelGraph_holdsTexts : labelGraph.HoldsTexts labelsType := by
  have hlabels : (labelGraph.table.get? labelsType).bind (entryTypes? ·.shape) =
      some (TypeGraph.valueType .string, TypeGraph.valueType .string) := by decide +kernel
  obtain ⟨d, hd, htypes⟩ := Option.bind_eq_some_iff.mp hlabels
  refine ⟨d, hd, ?_⟩
  cases hshape : d.shape with
  | dictionary key value =>
      rw [hshape] at htypes
      obtain ⟨rfl, rfl⟩ := Prod.mk.inj (Option.some.inj htypes)
      rfl
  | _ =>
      rw [hshape] at htypes
      cases htypes

/-- Labels whose keys look like the marks of the format. -/
def markedLabels : Entries String :=
  [("", "none"), ("!x", "new"), ("*@Id", "item"), ("-left", "gone"), ("^", "mark"), ("^-left", "escaped"),
    ("_type", "Int32"), ("_uri", "/hats/9")]

/-- The marks among the keys are taken for keys. -/
theorem markedLabels_read_back :
    ∃ document,
      (⟨labelGraph, .empty, "", .none⟩ : Writer).write labelsType (.ofTexts markedLabels) = .ok document ∧
      (read .masked labelsType document none).runOn ⟨labelGraph, .empty, []⟩ =
        (.ok (.ofTexts markedLabels), ⟨labelGraph, .empty, []⟩) := by
  obtain ⟨document, hwrite, hread⟩ := dictionary_read_back labelGraph_startsWithValues labelGraph_holdsTexts
    (by decide +kernel : markedLabels.Sorted) .empty "" .none
  exact ⟨document, hwrite, (hread .masked ⟨labelGraph, .empty, []⟩ rfl).1 rfl⟩

/-- **A label called `_ref` is not read back.** The dictionary of that one label becomes a reference. -/
theorem refLabel_not_read_back :
    ∃ document v, (⟨labelGraph, .empty, "", .none⟩ : Writer).write labelsType (.ofTexts [("_ref", "/hats/9")]) =
        .ok document ∧
      ((read .masked labelsType document none).runOn ⟨labelGraph, .empty, []⟩).1 = .ok v ∧
        v = .reference ⟨"/hats/9", labelsType, ⟨0⟩⟩ ∧ v ≠ .ofTexts [("_ref", "/hats/9")] := by
  refine ⟨_, _, Writer.write_texts labelGraph_startsWithValues labelGraph_holdsTexts, ?_, rfl, nofun⟩
  rw [runOn_read_texts labelGraph_holdsTexts _ _ _
    (fun _ => runOn_readDictionary_ref rfl (by decide +kernel) rfl rfl) rfl]
  rfl

end Document

end ResourceQuery
