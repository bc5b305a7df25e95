import Mathlib.Data.List.Nodup
import Mathlib.Data.List.Perm.Subperm
import ResourceQuery.Proofs.Data.Entries
import ResourceQuery.Proofs.Type.Declarations

set_option autoImplicit false

/-! # The way to the root

A chain of inheritance is read off the way that leads from a name along the bases (`Registry.Way`). The way
may go on for ever, and the search for the chain does not: it stops where the way ends, at a type without a
base or a name that is not registered, or where it comes to a type again (`exists_end`). Which of the three
it is, and on which way, can be told from the outcome (`inheritanceChain_exact`).

The search has no bound of its own. It passes each registered type at most once (`Way.length_le`), so as many
rounds as there are types, and one more, are as good as any larger number. That a way which ends passes no
type twice is not said by the search but by the way: a type that is passed twice is on a loop, and from a
loop the way always goes on (`Way.exists_loop`).
-/

namespace ResourceQuery

namespace Registry

variable {r : Registry} {name base next : String} {source root : SourceType} {passed loop : List SourceType}
  {rounds : Nat}

/-! ## Ways along the bases -/

/-- The way from `name` along the bases: it passes the types `passed`, in this order, and then comes to `next`. -/
inductive Way (r : Registry) : (name : String) → (passed : List SourceType) → (next : String) → Prop
  | here (name : String) : Way r name [] name
  | on {name base next : String} {source : SourceType} {passed : List SourceType}
      (hsource : r.sourceType? name = some source) (hbase : source.base = some base)
      (rest : Way r base passed next) : Way r name (source :: passed) next

namespace Way

theorem append {more : List SourceType} {last : String} (h : r.Way name passed next) (hmore : r.Way next more last) :
    r.Way name (passed ++ more) last := by
  induction h with
  | here name => exact hmore
  | on hsource hbase _ ih => exact .on hsource hbase (ih hmore)

/-- One step more. -/
theorem concat (h : r.Way name passed next) (hsource : r.sourceType? next = some source)
    (hbase : source.base = some base) : r.Way name (passed ++ [source]) base :=
  h.append (.on hsource hbase (.here base))

/-- What is passed is registered under its name, and has a base. -/
theorem of_mem (hkeyed : r.KeyedByName) (h : r.Way name passed next) (hmem : source ∈ passed) :
    r.sourceType? source.name = some source ∧ source.base ≠ none := by
  induction h with
  | here name => cases hmem
  | @on name base next first passed hfirst hbase _ ih =>
      rcases List.mem_cons.mp hmem with rfl | hmem
      · exact ⟨(hkeyed name source hfirst).symm ▸ hfirst, by rw [hbase]; nofun⟩
      · exact ih hmem

/-- The way up to a type that is passed. -/
theorem of_append {more : List SourceType} (hkeyed : r.KeyedByName) (h : r.Way name (passed ++ source :: more) next) :
    r.Way name passed source.name := by
  induction passed generalizing name with
  | nil =>
      obtain _ | ⟨hsource, -, -⟩ := h
      exact (hkeyed name source hsource).symm ▸ .here name
  | cons first passed ih =>
      obtain _ | ⟨hfirst, hbase, hrest⟩ := h
      exact .on hfirst hbase (ih hrest)

/-- From a loop the way comes to loops only. -/
theorem exists_loop (hloop : r.Way name loop name) (hsome : loop ≠ []) (h : r.Way name passed next) :
    ∃ loop, loop ≠ [] ∧ r.Way next loop next := by
  induction h generalizing loop with
  | here name => exact ⟨loop, hsome, hloop⟩
  | @on name base next source passed hsource hbase _ ih =>
      obtain _ | ⟨hsource', hbase', hback⟩ := hloop
      · exact absurd rfl hsome
      · -- the first type of the loop comes to stand at its end
        obtain rfl := Option.some.inj (hsource.symm.trans hsource')
        obtain rfl := Option.some.inj (hbase.symm.trans hbase')
        exact ih (hback.concat hsource hbase) (List.append_ne_nil_of_right_ne_nil _ (List.cons_ne_nil _ _))

/-- The way does not go on from `name`: it is not registered, or the type has no base. -/
def Ends (r : Registry) (name : String) : Prop :=
  (r.sourceType? name).bind (·.base) = none

theorem eq_nil_of_ends (hends : Ends r name) (h : r.Way name passed next) : passed = [] := by
  cases h with
  | here name => rfl
  | on hsource hbase _ =>
      rw [Ends, hsource, Option.bind_some, hbase] at hends
      cases hends

/-- **A way that ends passes no type twice.** -/
theorem nodup_of_ends (hkeyed : r.KeyedByName) (h : r.Way name passed next) (hends : Ends r next) :
    (passed.map (·.name)).Nodup := by
  induction h with
  | here name => exact List.nodup_nil
  | @on name base next source passed hsource hbase hrest ih =>
      refine List.nodup_cons.mpr ⟨fun hmem => ?_, ih hends⟩
      -- what is passed again is on a loop, and the way would not end
      obtain ⟨other, hother, hname⟩ := List.mem_map.mp hmem
      obtain ⟨before, after, rfl⟩ := List.append_of_mem hother
      have hloop : r.Way name (source :: before) name := by
        have hsame : other.name = name := hname.trans (hkeyed name source hsource)
        exact .on hsource hbase (hsame ▸ hrest.of_append hkeyed)
      obtain ⟨loop, hsome, hloop⟩ := hloop.exists_loop (List.cons_ne_nil _ _) (.on hsource hbase hrest)
      exact hsome (eq_nil_of_ends hends hloop)

/-- Types are passed once each if there are enough of them. -/
theorem length_le (hkeyed : r.KeyedByName) (h : r.Way name passed next) (hnodup : (passed.map (·.name)).Nodup) :
    passed.length ≤ r.types.length := by
  have hsubset : passed.map (·.name) ⊆ Entries.keys r.types := by
    intro passedName hname
    obtain ⟨source, hmem, rfl⟩ := List.mem_map.mp hname
    exact List.mem_map.mpr ⟨_, Entries.mem_of_get? (h.of_mem hkeyed hmem).1, rfl⟩
  have hlength := (hnodup.subperm hsubset).length_le
  rwa [List.length_map, Entries.keys, List.length_map] at hlength

end Way

/-! ## The search along the way -/

/-- The search follows the way as long as no type comes again. -/
theorem chainAbove_of_way {below : List SourceType} (h : r.Way name passed next)
    (hnodup : ((passed ++ below).map (·.name)).Nodup) (rounds : Nat) :
    r.chainAbove (passed.length + rounds) below name = r.chainAbove rounds (passed.reverse ++ below) next := by
  induction h generalizing below with
  | here name => rw [List.length_nil, Nat.zero_add, List.reverse_nil, List.nil_append]
  | @on name base next source passed hsource hbase _ ih =>
      have hnew : ¬ below.any (·.name == source.name) = true := by
        rw [List.any_eq_true]
        rintro ⟨other, hother, hname⟩
        rw [List.cons_append, List.map_cons, List.nodup_cons] at hnodup
        exact hnodup.1 (List.mem_map.mpr ⟨other, List.mem_append_right _ hother, beq_iff_eq.mp hname⟩)
      have hmoved : ((passed ++ source :: below).map (·.name)).Nodup :=
        (List.perm_middle.map _).nodup_iff.mpr hnodup
      rw [List.length_cons, Nat.succ_add, chainAbove, hsource]
      dsimp only
      rw [if_neg hnew, hbase]
      dsimp only
      rw [ih hmoved, List.reverse_cons, List.append_assoc]
      rfl

theorem exists_rounds (hkeyed : r.KeyedByName) (h : r.Way name passed next) (hnodup : (passed.map (·.name)).Nodup)
    (hrounds : r.types.length < rounds) :
    ∃ more, r.chainAbove rounds [] name = r.chainAbove (more + 1) passed.reverse next := by
  have hle := h.length_le hkeyed hnodup
  refine ⟨rounds - passed.length - 1, ?_⟩
  rw [← List.append_nil passed] at hnodup
  have hway := chainAbove_of_way h hnodup (rounds - passed.length - 1 + 1)
  rwa [List.append_nil, show passed.length + (rounds - passed.length - 1 + 1) = rounds by omega] at hway

/-- A type without a base is passed by no way. -/
theorem name_not_mem_of_root (hkeyed : r.KeyedByName) (h : r.Way name passed next)
    (hsource : r.sourceType? next = some root) (hbase : root.base = none) : root.name ∉ passed.map (·.name) := by
  intro hmem
  obtain ⟨other, hother, hname⟩ := List.mem_map.mp hmem
  obtain ⟨hregistered, hon⟩ := h.of_mem hkeyed hother
  rw [hname, hkeyed next root hsource, hsource] at hregistered
  exact hon (Option.some.inj hregistered ▸ hbase)

theorem chainAbove_root (hkeyed : r.KeyedByName) (h : r.Way name passed next)
    (hsource : r.sourceType? next = some root) (hbase : root.base = none) (hrounds : r.types.length < rounds) :
    r.chainAbove rounds [] name = .ok (root :: passed.reverse) := by
  have hends : Way.Ends r next := by rw [Way.Ends, hsource, Option.bind_some, hbase]
  obtain ⟨more, hmore⟩ := exists_rounds hkeyed h (h.nodup_of_ends hkeyed hends) hrounds
  have hnew : ¬ passed.reverse.any (·.name == root.name) = true := by
    rw [List.any_reverse, List.any_eq_true]
    rintro ⟨other, hother, hname⟩
    exact name_not_mem_of_root hkeyed h hsource hbase (List.mem_map.mpr ⟨other, hother, beq_iff_eq.mp hname⟩)
  rw [hmore, chainAbove, hsource]
  dsimp only
  rw [if_neg hnew, hbase]

theorem chainAbove_missing (hkeyed : r.KeyedByName) (h : r.Way name passed next)
    (hsource : r.sourceType? next = none) (hrounds : r.types.length < rounds) :
    r.chainAbove rounds [] name = .error (.unknownType next) := by
  have hends : Way.Ends r next := by rw [Way.Ends, hsource, Option.bind_none]
  obtain ⟨more, hmore⟩ := exists_rounds hkeyed h (h.nodup_of_ends hkeyed hends) hrounds
  rw [hmore, chainAbove, hsource]

theorem chainAbove_again (hkeyed : r.KeyedByName) (h : r.Way name passed next)
    (hnodup : (passed.map (·.name)).Nodup) (hagain : next ∈ passed.map (·.name)) (hrounds : r.types.length < rounds) :
    r.chainAbove rounds [] name = .error (.notSupported (.inheritanceCycle next)) := by
  obtain ⟨more, hmore⟩ := exists_rounds hkeyed h hnodup hrounds
  obtain ⟨source, hmem, rfl⟩ := List.mem_map.mp hagain
  have hpassed : passed.reverse.any (·.name == source.name) = true := by
    rw [List.any_reverse, List.any_eq_true]
    exact ⟨source, hmem, beq_self_eq_true _⟩
  rw [hmore, chainAbove, (h.of_mem hkeyed hmem).1]
  dsimp only
  rw [if_pos hpassed]

/-! ## How the way ends -/

/-- **Every way ends, or comes to a type again.** -/
theorem exists_end (hkeyed : r.KeyedByName) (name : String) :
    (∃ passed top root, r.Way name passed top ∧ r.sourceType? top = some root ∧ root.base = none) ∨
      (∃ passed missing, r.Way name passed missing ∧ r.sourceType? missing = none) ∨
      ∃ passed again, r.Way name passed again ∧ (passed.map (·.name)).Nodup ∧ again ∈ passed.map (·.name) := by
  by_contra hnone
  obtain ⟨hroot, hmissing, hagain⟩ : _ ∧ _ ∧ _ := by simpa only [not_or] using hnone
  -- otherwise there are ways of any length that pass no type twice
  have hlong : ∀ length, ∃ passed next, r.Way name passed next ∧ (passed.map (·.name)).Nodup ∧
      passed.length = length := by
    intro length
    induction length with
    | zero => exact ⟨[], name, .here name, List.nodup_nil, rfl⟩
    | succ length ih =>
        obtain ⟨passed, next, hway, hnodup, hlength⟩ := ih
        cases hsource : r.sourceType? next with
        | none => exact absurd ⟨passed, next, hway, hsource⟩ hmissing
        | some source =>
            cases hbase : source.base with
            | none => exact absurd ⟨passed, next, source, hway, hsource, hbase⟩ hroot
            | some base =>
                refine ⟨passed ++ [source], base, hway.concat hsource hbase, ?_, by simp [hlength]⟩
                have hnew : source.name ∉ passed.map (·.name) := by
                  intro hmem
                  rw [hkeyed next source hsource] at hmem
                  exact hagain ⟨passed, next, hway, hnodup, hmem⟩
                rw [List.map_append, List.map_singleton, ← List.concat_eq_append]
                exact List.Nodup.concat hnew hnodup
  obtain ⟨passed, next, hway, hnodup, hlength⟩ := hlong (r.types.length + 1)
  have hle := hway.length_le hkeyed hnodup
  omega

/-- What the search finds at the end of the way. -/
theorem inheritanceChain_cases (hkeyed : r.KeyedByName) (name : String) :
    (∃ passed top root, r.Way name passed top ∧ r.sourceType? top = some root ∧ root.base = none ∧
        r.inheritanceChain name = .ok (root :: passed.reverse)) ∨
      (∃ passed missing, r.Way name passed missing ∧ r.sourceType? missing = none ∧
        r.inheritanceChain name = .error (.unknownType missing)) ∨
      ∃ passed again, r.Way name passed again ∧ (passed.map (·.name)).Nodup ∧ again ∈ passed.map (·.name) ∧
        r.inheritanceChain name = .error (.notSupported (.inheritanceCycle again)) := by
  have hrounds := Nat.lt_succ_self r.types.length
  obtain ⟨passed, top, root, hway, hsource, hbase⟩ | ⟨passed, missing, hway, hsource⟩ |
      ⟨passed, again, hway, hnodup, hmem⟩ := exists_end hkeyed name
  · exact .inl ⟨passed, top, root, hway, hsource, hbase, chainAbove_root hkeyed hway hsource hbase hrounds⟩
  · exact .inr (.inl ⟨passed, missing, hway, hsource, chainAbove_missing hkeyed hway hsource hrounds⟩)
  · exact .inr (.inr ⟨passed, again, hway, hnodup, hmem, chainAbove_again hkeyed hway hnodup hmem hrounds⟩)

theorem chainAbove_eq_inheritanceChain (hkeyed : r.KeyedByName) (hrounds : r.types.length < rounds) :
    r.chainAbove rounds [] name = r.inheritanceChain name := by
  obtain ⟨passed, top, root, hway, hsource, hbase, hchain⟩ | ⟨passed, missing, hway, hsource, hchain⟩ |
      ⟨passed, again, hway, hnodup, hmem, hchain⟩ := inheritanceChain_cases hkeyed name
  · exact (chainAbove_root hkeyed hway hsource hbase hrounds).trans hchain.symm
  · exact (chainAbove_missing hkeyed hway hsource hrounds).trans hchain.symm
  · exact (chainAbove_again hkeyed hway hnodup hmem hrounds).trans hchain.symm

theorem inheritanceChain_eq_ok_iff (hkeyed : r.KeyedByName) {chain : List SourceType} :
    r.inheritanceChain name = .ok chain ↔
      ∃ passed top root, r.Way name passed top ∧ r.sourceType? top = some root ∧ root.base = none ∧
        chain = root :: passed.reverse := by
  constructor
  · intro h
    obtain ⟨passed, top, root, hway, hsource, hbase, hchain⟩ | ⟨_, _, _, _, hchain⟩ | ⟨_, _, _, _, _, hchain⟩ :=
      inheritanceChain_cases hkeyed name
    · exact ⟨passed, top, root, hway, hsource, hbase, Except.ok.inj (h.symm.trans hchain)⟩
    · cases h.symm.trans hchain
    · cases h.symm.trans hchain
  · rintro ⟨passed, top, root, hway, hsource, hbase, rfl⟩
    exact chainAbove_root hkeyed hway hsource hbase (Nat.lt_succ_self _)

theorem inheritanceChain_eq_unknownType_iff (hkeyed : r.KeyedByName) {missing : String} :
    r.inheritanceChain name = .error (.unknownType missing) ↔
      ∃ passed, r.Way name passed missing ∧ r.sourceType? missing = none := by
  constructor
  · intro h
    obtain ⟨_, _, _, _, _, _, hchain⟩ | ⟨passed, missing', hway, hsource, hchain⟩ | ⟨_, _, _, _, _, hchain⟩ :=
      inheritanceChain_cases hkeyed name
    · cases h.symm.trans hchain
    · cases h.symm.trans hchain
      exact ⟨passed, hway, hsource⟩
    · cases h.symm.trans hchain
  · rintro ⟨passed, hway, hsource⟩
    exact chainAbove_missing hkeyed hway hsource (Nat.lt_succ_self _)

theorem inheritanceChain_eq_cycle_iff (hkeyed : r.KeyedByName) {again : String} :
    r.inheritanceChain name = .error (.notSupported (.inheritanceCycle again)) ↔
      ∃ passed, r.Way name passed again ∧ (passed.map (·.name)).Nodup ∧ again ∈ passed.map (·.name) := by
  constructor
  · intro h
    obtain ⟨_, _, _, _, _, _, hchain⟩ | ⟨_, _, _, _, hchain⟩ | ⟨passed, again', hway, hnodup, hmem, hchain⟩ :=
      inheritanceChain_cases hkeyed name
    · cases h.symm.trans hchain
    · cases h.symm.trans hchain
    · cases h.symm.trans hchain
      exact ⟨passed, hway, hnodup, hmem⟩
  · rintro ⟨passed, hway, hnodup, hmem⟩
    exact chainAbove_again hkeyed hway hnodup hmem (Nat.lt_succ_self _)

/-- A chain has no type twice, and the one that was asked for is the last. -/
theorem nodup_of_inheritanceChain (hkeyed : r.KeyedByName) {chain : List SourceType}
    (h : r.inheritanceChain name = .ok chain) :
    (chain.map (·.name)).Nodup ∧ chain.getLast? = r.sourceType? name := by
  obtain ⟨passed, top, root, hway, hsource, hbase, rfl⟩ := (inheritanceChain_eq_ok_iff hkeyed).mp h
  have hends : Way.Ends r top := by rw [Way.Ends, hsource, Option.bind_some, hbase]
  constructor
  · rw [List.map_cons, List.map_reverse, List.nodup_cons, List.mem_reverse, List.nodup_reverse]
    exact ⟨name_not_mem_of_root hkeyed hway hsource hbase, hway.nodup_of_ends hkeyed hends⟩
  · cases hway with
    | here name => exact hsource.symm
    | on hfirst _ _ => rw [List.reverse_cons, ← List.cons_append, List.getLast?_concat, hfirst]

/-- **Chains of inheritance are exact.** The search for the chain of a name ends, whatever is registered. It
succeeds exactly if the way along the bases leads to a type without a base, and then the chain is what the way
passes, the root first, without a repetition and with the named type at its end. It fails with the name that
is not registered if the way leads to one, and with the name of the type that comes again if the way leads to
a type again before it ends. One of the three is always so. -/
theorem inheritanceChain_exact (hr : r.IsMade) (name : String) :
    (∀ rounds, r.types.length < rounds → r.chainAbove rounds [] name = r.inheritanceChain name) ∧
      (∀ chain, r.inheritanceChain name = .ok chain ↔
        ∃ passed top root, r.Way name passed top ∧ r.sourceType? top = some root ∧ root.base = none ∧
          chain = root :: passed.reverse) ∧
      (∀ chain, r.inheritanceChain name = .ok chain →
        (chain.map (·.name)).Nodup ∧ chain.getLast? = r.sourceType? name) ∧
      (∀ missing, r.inheritanceChain name = .error (.unknownType missing) ↔
        ∃ passed, r.Way name passed missing ∧ r.sourceType? missing = none) ∧
      (∀ again, r.inheritanceChain name = .error (.notSupported (.inheritanceCycle again)) ↔
        ∃ passed, r.Way name passed again ∧ (passed.map (·.name)).Nodup ∧ again ∈ passed.map (·.name)) ∧
      ((∃ chain, r.inheritanceChain name = .ok chain) ∨
        (∃ missing, r.inheritanceChain name = .error (.unknownType missing)) ∨
        ∃ again, r.inheritanceChain name = .error (.notSupported (.inheritanceCycle again))) := by
  have hkeyed := hr.keyedByName
  refine ⟨fun _ => chainAbove_eq_inheritanceChain hkeyed, fun _ => inheritanceChain_eq_ok_iff hkeyed,
    fun _ => nodup_of_inheritanceChain hkeyed, fun _ => inheritanceChain_eq_unknownType_iff hkeyed,
    fun _ => inheritanceChain_eq_cycle_iff hkeyed, ?_⟩
  obtain ⟨passed, _, root, _, _, _, hchain⟩ | ⟨_, missing, _, _, hchain⟩ | ⟨_, again, _, _, _, hchain⟩ :=
    inheritanceChain_cases hkeyed name
  · exact .inl ⟨_, hchain⟩
  · exact .inr (.inl ⟨missing, hchain⟩)
  · exact .inr (.inr ⟨again, hchain⟩)

/-! ## A farm with a loop -/

/-- A resource type with nothing but a base. -/
def breed (name : String) (base : Option String) : SourceType :=
  { SourceType.bare name .resource with base }

/-- A foal that is a horse, a stray whose base is not registered, and an egg below a hen and a chick that are
each other's base. -/
def farm : Registry :=
  ((((((empty.withType (breed "Animal" none)).withType (breed "Horse" (some "Animal"))).withType
    (breed "Foal" (some "Horse"))).withType (breed "Stray" (some "Ghost"))).withType
    (breed "Egg" (some "Hen"))).withType (breed "Hen" (some "Chick"))).withType (breed "Chick" (some "Hen"))

theorem isMade_farm : farm.IsMade :=
  ((((((IsMade.empty.withType _).withType _).withType _).withType _).withType _).withType _).withType _

/-- The loop is entered from the egg, which is not on it. -/
theorem farm_chains :
    farm.IsMade ∧
      farm.inheritanceChain "Foal" =
        .ok [breed "Animal" none, breed "Horse" (some "Animal"), breed "Foal" (some "Horse")] ∧
      farm.inheritanceChain "Stray" = .error (.unknownType "Ghost") ∧
      farm.inheritanceChain "Egg" = .error (.notSupported (.inheritanceCycle "Hen")) := by
  obtain ⟨-, hfoal, -⟩ := inheritanceChain_exact isMade_farm "Foal"
  obtain ⟨-, -, -, hstray, -⟩ := inheritanceChain_exact isMade_farm "Stray"
  obtain ⟨-, -, -, -, hegg, -⟩ := inheritanceChain_exact isMade_farm "Egg"
  refine ⟨isMade_farm, (hfoal _).mpr ?_, (hstray "Ghost").mpr ?_, (hegg "Hen").mpr ?_⟩
  · exact ⟨[breed "Foal" (some "Horse"), breed "Horse" (some "Animal")], "Animal", breed "Animal" none,
      .on rfl rfl (.on rfl rfl (.here "Animal")), rfl, rfl, rfl⟩
  · exact ⟨[breed "Stray" (some "Ghost")], .on rfl rfl (.here "Ghost"), rfl⟩
  · exact ⟨[breed "Egg" (some "Hen"), breed "Hen" (some "Chick"), breed "Chick" (some "Hen")],
      .on rfl rfl (.on rfl rfl (.on rfl rfl (.here "Hen"))), by decide, by decide⟩

end Registry

end ResourceQuery
