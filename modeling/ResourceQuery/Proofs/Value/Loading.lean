import ResourceQuery.Value.Reference

set_option autoImplicit false

/-! # What becomes of a reference

A loader is code of its own: while it runs, it may work on objects, make references, and ask for references with
other loaders or with itself, for the one that it loads as well. What it cannot do is to set the state of a
reference, as only asking does. `Errand` is such code. It runs on a heap, and what happens is written down as a list
of moments, each with the heap as it was then.

For one reference the list falls into three parts (`Lifetime`): the reference is not asked for, then it is loaded and
everybody else who asks is turned away, and then everybody is answered what the loader has answered. Asking keeps
this, whatever the loader does (`lifetime_ask`), and so does every errand (`lifetime_run`). Hence a reference is
loaded at most once (`loaded_at_most_once`).
-/

namespace ResourceQuery

/-! ## States of references -/

namespace Heap

variable {h : Heap} {ref r : LazyRef} {state : RefState}

@[simp] theorem size_setState (h : Heap) (ref : LazyRef) (state : RefState) :
    (h.setState ref state).cells.size = h.cells.size := by
  simp [setState]

/-- References with one cell have one state. -/
theorem state_congr (hcell : r.cell = ref.cell) : h.state r = h.state ref := by
  unfold Heap.state
  rw [hcell]

theorem state_setState_of_eq (hin : ref.cell.index < h.cells.size) (hcell : r.cell = ref.cell) :
    (h.setState r state).state ref = state := by
  simp [setState, Heap.state, hcell, hin]

theorem state_setState_of_ne (hcell : r.cell ≠ ref.cell) : (h.setState r state).state ref = h.state ref := by
  have hindex : r.cell.index ≠ ref.cell.index := by
    intro heq
    apply hcell
    cases hr : r.cell
    cases href : ref.cell
    simp_all
  simp [setState, Heap.state, Array.getElem?_setIfInBounds_ne hindex]

theorem state_newRef (h : Heap) (uri : String) (target : TypeId) (state : RefState) :
    (h.newRef uri target state).2.state (h.newRef uri target state).1 = state := by
  simp [newRef, Heap.state]

end Heap

namespace Loading

/-! ## Moments -/

/-- What happens while references are asked for. -/
inductive Event where
  /-- Something else than asking for a reference. -/
  | worked
  /-- A loader is called. -/
  | loading (ref : LazyRef)
  /-- A loader has come to an end. -/
  | loaded (ref : LazyRef) (outcome : Except Error Value)
  /-- Who asked for a reference is answered. -/
  | answered (ref : LazyRef) (outcome : Except Error Value)

/-- The reference that an event is about. -/
def Event.subject? : Event → Option LazyRef
  | .worked => none
  | .loading ref => some ref
  | .loaded ref _ => some ref
  | .answered ref _ => some ref

/-- An event and the heap right after it. -/
structure Moment where
  event : Event
  heap : Heap

/-- Whether a loader of the reference is called. -/
def Moment.isLoading (ref : LazyRef) (m : Moment) : Bool :=
  match m.event with
  | .loading r => r.cell = ref.cell
  | _ => false

/-- A heap, what there is next to it, and all moments so far. -/
abbrev Chronicle (σ : Type) := Heap × σ × List Moment

/-- Writes an event down. -/
def note {σ : Type} (event : Event) : Chronicle σ → Chronicle σ
  | (h, s, past) => (h, s, past ++ [⟨event, h⟩])

/-! ## Errands -/

/-- Work on objects and on what there is next to them. It may make references, and leaves those that there are in
their states. -/
structure Work (σ : Type) where
  run : Heap × σ → Heap × σ
  grows : ∀ s, s.1.cells.size ≤ (run s).1.cells.size
  keeps : ∀ s (ref : LazyRef), ref.cell.index < s.1.cells.size → (run s).1.state ref = s.1.state ref

/-- Code that may ask for references, with loaders called by names in `ν`. -/
inductive Errand (ν σ : Type) where
  /-- Comes to an end. -/
  | finish (outcome : Except Error Value)
  /-- Works, and goes on with what has become of the heap. -/
  | work (w : Work σ) (next : Heap × σ → Errand ν σ)
  /-- Asks for a reference, and goes on with the answer, also where it is a failure. -/
  | ask (ref : LazyRef) (loader : ν) (next : Except Error Value → Errand ν σ)

variable {ν σ : Type}

/-- The loader, with its call and its end written down. -/
def watched (ref : LazyRef) (load : Loader (σ × List Moment)) : Loader (σ × List Moment) :=
  fun uri target => Action.ofFunction fun c =>
    let (outcome, c) := (load uri target).runOn (note (.loading ref) c)
    (outcome, note (.loaded ref outcome) c)

/-- Runs an errand. -/
def Errand.run (loads : ν → Loader (σ × List Moment)) :
    Errand ν σ → Chronicle σ → Except Error Value × Chronicle σ
  | .finish outcome, c => (outcome, c)
  | .work w next, (h, s, past) =>
    (next (w.run (h, s))).run loads (note .worked ((w.run (h, s)).1, (w.run (h, s)).2, past))
  | .ask ref loader next, c =>
    let (outcome, c) := (ref.resolve (watched ref (loads loader))).runOn c
    (next outcome).run loads (note (.answered ref outcome) c)

/-- The loaders whose code is `code`, where `depth` of them may run inside each other: one that is called further
inside fails with `exhausted`. -/
def loaders (code : ν → String → TypeId → Errand ν σ) (exhausted : Error) : (depth : Nat) → ν → Loader (σ × List Moment)
  | 0, _ => fun _ _ => Action.fail exhausted
  | depth + 1, loader => fun uri target =>
    Action.ofFunction ((code loader uri target).run (loaders code exhausted depth))

/-! ## The life of a reference -/

/-- What is answered in a state to who asks for a reference, if that does not take a loader. -/
def reply? (ref : LazyRef) : RefState → Option (Except Error Value)
  | .unresolved => none
  | .resolving => some (.error (.notSupported (.reentrantReference ref.uri)))
  | .resolved value => some (.ok value)
  | .failed e => some (.error e)

theorem reply?_settled (ref : LazyRef) (outcome : Except Error Value) :
    reply? ref (LazyRef.settled outcome) = some outcome := by
  cases outcome <;> rfl

/-- The reference is in the given state, and if the moment is about it, then somebody is answered what is answered
in that state. -/
structure Moment.IsSteady (ref : LazyRef) (state : RefState) (m : Moment) : Prop where
  sees : m.heap.state ref = state
  answer : ∀ r, m.event.subject? = some r → r.cell = ref.cell →
    ∃ outcome, m.event = .answered r outcome ∧ reply? r state = some outcome

/-- What moments show of a reference that is in one state before them and in another after them. -/
inductive Lifetime (ref : LazyRef) : RefState → List Moment → RefState → Prop
  /-- It stays in its state. -/
  | steady {state : RefState} {moments : List Moment} (steady : ∀ m ∈ moments, m.IsSteady ref state) :
      Lifetime ref state moments state
  /-- It is loaded: a loader is called, later it answers, and its answer settles the reference. -/
  | loads {before during after : List Moment} {r : LazyRef} {outcome : Except Error Value} {start stop : Heap}
      (same : r.cell = ref.cell) (unasked : ∀ m ∈ before, m.IsSteady ref .unresolved)
      (start_state : start.state ref = .resolving) (underWay : ∀ m ∈ during, m.IsSteady ref .resolving)
      (stop_state : stop.state ref = .resolving)
      (settled : ∀ m ∈ after, m.IsSteady ref (LazyRef.settled outcome)) :
      Lifetime ref .unresolved
        (before ++ ⟨.loading r, start⟩ :: during ++ ⟨.loaded r outcome, stop⟩ :: after) (LazyRef.settled outcome)

namespace Lifetime

variable {ref : LazyRef} {s₀ s₁ s₂ : RefState} {first second : List Moment}

theorem single {m : Moment} {state : RefState} (h : m.IsSteady ref state) : Lifetime ref state [m] state :=
  .steady (List.forall_mem_singleton.mpr h)

/-- Only what is unresolved changes its state. -/
theorem eq_of_ne (h : Lifetime ref s₀ first s₁) (hstate : s₀ ≠ .unresolved) :
    s₁ = s₀ ∧ ∀ m ∈ first, m.IsSteady ref s₀ := by
  cases h with
  | steady steady => exact ⟨rfl, steady⟩
  | loads => exact absurd rfl hstate

theorem settled_ne (outcome : Except Error Value) : LazyRef.settled outcome ≠ .unresolved := by
  cases outcome <;> nofun

theorem append (hfirst : Lifetime ref s₀ first s₁) (hsecond : Lifetime ref s₁ second s₂) :
    Lifetime ref s₀ (first ++ second) s₂ := by
  cases hfirst with
  | steady hsteady =>
      cases hsecond with
      | steady hmore => exact .steady (List.forall_mem_append.mpr ⟨hsteady, hmore⟩)
      | loads same unasked start_state underWay stop_state settled =>
          rw [← List.append_assoc, ← List.append_assoc]
          exact .loads same (List.forall_mem_append.mpr ⟨hsteady, unasked⟩) start_state underWay stop_state settled
  | loads same unasked start_state underWay stop_state settled =>
      -- what is settled stays so, and whatever follows is a part of the time after the load
      obtain ⟨rfl, hmore⟩ := hsecond.eq_of_ne (settled_ne _)
      rw [List.append_assoc, List.cons_append]
      exact .loads same unasked start_state underWay stop_state (List.forall_mem_append.mpr ⟨settled, hmore⟩)

end Lifetime

/-! ## Runs -/

/-- One chronicle goes on from another: a reference that there was is still there, and the moments that have come
show what has become of it. -/
def Continues (ref : LazyRef) (c c' : Chronicle σ) : Prop :=
  ref.cell.index < c.1.cells.size → ref.cell.index < c'.1.cells.size ∧
    ∃ added, c'.2.2 = c.2.2 ++ added ∧ Lifetime ref (c.1.state ref) added (c'.1.state ref)

variable {ref r : LazyRef} {c c' c'' : Chronicle σ} {event : Event}

namespace Continues

theorem refl (ref : LazyRef) (c : Chronicle σ) : Continues ref c c :=
  fun hin => ⟨hin, [], by simp, .steady (List.forall_mem_nil _)⟩

theorem trans (hfirst : Continues ref c c') (hsecond : Continues ref c' c'') : Continues ref c c'' := by
  intro hin
  obtain ⟨hin', added, hadded, hlife⟩ := hfirst hin
  obtain ⟨hin'', more, hmore, hlater⟩ := hsecond hin'
  refine ⟨hin'', added ++ more, ?_, hlife.append hlater⟩
  rw [hmore, hadded, List.append_assoc]

end Continues

/-- Writing down what does not concern a reference. -/
theorem continues_note (h : ∀ r, event.subject? = some r → r.cell ≠ ref.cell) (c : Chronicle σ) :
    Continues ref c (note event c) := by
  intro hin
  refine ⟨hin, [⟨event, c.1⟩], rfl, .single ⟨rfl, ?_⟩⟩
  intro r hr hcell
  exact absurd hcell (h r hr)

/-- Writing down that somebody is answered from the state. -/
theorem continues_answered {outcome : Except Error Value} (h : reply? r (c.1.state r) = some outcome) :
    Continues ref c (note (.answered r outcome) c) := by
  intro hin
  refine ⟨hin, [⟨.answered r outcome, c.1⟩], rfl, .single ⟨rfl, ?_⟩⟩
  intro r' hr' hcell
  obtain rfl : r = r' := Option.some.inj hr'
  exact ⟨outcome, rfl, by rw [← Heap.state_congr hcell]; exact h⟩

/-- Setting the state of another reference. -/
theorem continues_setState (hcell : r.cell ≠ ref.cell) (state : RefState) (c : Chronicle σ) :
    Continues ref c (c.1.setState r state, c.2) := by
  intro hin
  refine ⟨by simpa using hin, [], by simp, ?_⟩
  show Lifetime ref (c.1.state ref) [] ((c.1.setState r state).state ref)
  rw [Heap.state_setState_of_ne hcell]
  exact .steady (List.forall_mem_nil _)

/-! ### Asking -/

theorem resolve_eq_of_reply? {load : Loader (σ × List Moment)} {outcome : Except Error Value}
    (h : reply? r (c.1.state r) = some outcome) : (r.resolve load).runOn c = (outcome, c) := by
  unfold LazyRef.resolve
  simp only [Action.runOn_ofFunction]
  cases hstate : c.1.state r <;> rw [hstate] at h <;> cases h <;> rfl

/-- The chronicle when a loader is called for a reference. -/
def called (r : LazyRef) (c : Chronicle σ) : Chronicle σ :=
  note (.loading r) (c.1.setState r .resolving, c.2)

/-- The chronicle when the loader has answered and the reference is settled. -/
def ended (r : LazyRef) (outcome : Except Error Value) (c : Chronicle σ) : Chronicle σ :=
  note (.answered r outcome) (c.1.setState r (LazyRef.settled outcome), (note (.loaded r outcome) c).2)

theorem resolve_eq_of_unresolved {load : Loader (σ × List Moment)} {outcome : Except Error Value}
    (h : c.1.state r = .unresolved) (hload : (load r.uri r.target).runOn (called r c) = (outcome, c')) :
    (r.resolve (watched r load)).runOn c =
      (outcome, (c'.1.setState r (LazyRef.settled outcome), (note (.loaded r outcome) c').2)) := by
  have hwatched : (watched r load r.uri r.target).runOn (c.1.setState r .resolving, c.2) =
      (outcome, note (.loaded r outcome) c') := by
    unfold watched
    simp only [Action.runOn_ofFunction]
    rw [← called, hload]
  unfold LazyRef.resolve
  simp only [Action.runOn_ofFunction, h, hwatched]
  rfl

/-- The load of another reference begins. -/
theorem continues_called (hcell : r.cell ≠ ref.cell) (c : Chronicle σ) : Continues ref c (called r c) :=
  (continues_setState hcell .resolving c).trans
    (continues_note (fun _ hr => Option.some.inj hr ▸ hcell) (c.1.setState r .resolving, c.2))

/-- The load of another reference ends. -/
theorem continues_ended (hcell : r.cell ≠ ref.cell) (outcome : Except Error Value) (c : Chronicle σ) :
    Continues ref c (ended r outcome c) := by
  have hloaded : Continues ref c (note (.loaded r outcome) c) :=
    continues_note (fun _ hr => Option.some.inj hr ▸ hcell) c
  have hsettled := continues_setState hcell (LazyRef.settled outcome) (note (.loaded r outcome) c)
  exact (hloaded.trans hsettled).trans (continues_note (fun _ hr => Option.some.inj hr ▸ hcell) _)

/-- **The load of the reference itself.** As it is under way, whatever happens leaves the state alone, and what was
answered to others before is no part of the outcome. -/
theorem continues_load (hcell : r.cell = ref.cell) (hstate : c.1.state r = .unresolved)
    (hduring : Continues ref (called r c) c') (outcome : Except Error Value) :
    Continues ref c (ended r outcome c') := by
  intro hin
  have hin' : ref.cell.index < (called r c).1.cells.size := by simpa [called, note] using hin
  have hstart : (called r c).1.state ref = .resolving := Heap.state_setState_of_eq hin hcell
  obtain ⟨hin'', during, hpast, hlife⟩ := hduring hin'
  obtain ⟨hstop, hunderWay⟩ := hlife.eq_of_ne (by rw [hstart]; nofun)
  rw [hstart] at hstop hunderWay
  have hafter : (ended r outcome c').1.state ref = LazyRef.settled outcome :=
    Heap.state_setState_of_eq hin'' hcell
  have hanswer : Moment.IsSteady ref (LazyRef.settled outcome) ⟨.answered r outcome, (ended r outcome c').1⟩ := by
    refine ⟨hafter, ?_⟩
    intro r' hr' _
    obtain rfl : r = r' := Option.some.inj hr'
    exact ⟨outcome, rfl, reply?_settled r outcome⟩
  refine ⟨by simpa [ended, note] using hin'', [] ++ ⟨.loading r, (called r c).1⟩ :: during ++
    ⟨.loaded r outcome, c'.1⟩ :: [⟨.answered r outcome, (ended r outcome c').1⟩], ?_, ?_⟩
  · simp [ended, note, hpast, called]
  · rw [← Heap.state_congr hcell, hstate, hafter]
    exact .loads hcell (List.forall_mem_nil _) hstart hunderWay hstop (List.forall_mem_singleton.mpr hanswer)

/-- What a loader does to a reference is what an errand may do. -/
def IsDecent (ref : LazyRef) (load : Loader (σ × List Moment)) : Prop :=
  ∀ uri target c, Continues ref c ((load uri target).runOn c).2

/-- **Asking for a reference**, the same or another one, with any decent loader. -/
theorem lifetime_ask {load : Loader (σ × List Moment)} (hload : IsDecent ref load) (r : LazyRef) (c : Chronicle σ) :
    Continues ref c (note (.answered r ((r.resolve (watched r load)).runOn c).1)
      ((r.resolve (watched r load)).runOn c).2) := by
  cases hreply : reply? r (c.1.state r) with
  | some outcome =>
      rw [resolve_eq_of_reply? hreply]
      exact continues_answered hreply
  | none =>
      have hstate : c.1.state r = .unresolved := by
        cases hstate : c.1.state r <;> rw [hstate] at hreply <;> first | rfl | cases hreply
      obtain ⟨outcome, c', hran⟩ : ∃ outcome c', (load r.uri r.target).runOn (called r c) = (outcome, c') := ⟨_, _, rfl⟩
      have hduring : Continues ref (called r c) c' := by
        have hcontinues := hload r.uri r.target (called r c)
        rwa [hran] at hcontinues
      rw [resolve_eq_of_unresolved hstate hran]
      show Continues ref c (ended r outcome c')
      by_cases hcell : r.cell = ref.cell
      · exact continues_load hcell hstate hduring outcome
      · exact ((continues_called hcell c).trans hduring).trans (continues_ended hcell outcome c')

/-! ### Errands -/

theorem continues_work (w : Work σ) (ref : LazyRef) (h : Heap) (s : σ) (past : List Moment) :
    Continues ref (h, s, past) ((w.run (h, s)).1, (w.run (h, s)).2, past) := by
  intro hin
  refine ⟨Nat.lt_of_lt_of_le hin (w.grows (h, s)), [], by simp, ?_⟩
  rw [← w.keeps (h, s) ref hin]
  exact .steady (List.forall_mem_nil _)

/-- **Running an errand** with decent loaders, whatever it asks for and how often. -/
theorem lifetime_run {loads : ν → Loader (σ × List Moment)} (hloads : ∀ loader, IsDecent ref (loads loader))
    (errand : Errand ν σ) (c : Chronicle σ) : Continues ref c (errand.run loads c).2 := by
  induction errand generalizing c with
  | finish outcome => exact .refl ref c
  | work w next ih =>
      obtain ⟨h, s, past⟩ := c
      have hnoted : Continues ref ((w.run (h, s)).1, (w.run (h, s)).2, past)
          (note .worked ((w.run (h, s)).1, (w.run (h, s)).2, past)) := continues_note (by nofun) _
      exact ((continues_work w ref h s past).trans hnoted).trans (ih _ _)
  | ask r loader next ih => exact (lifetime_ask (hloads loader) r c).trans (ih _ _)

/-- Loaders that run errands are decent, however deep they run inside each other. -/
theorem isDecent_loaders (code : ν → String → TypeId → Errand ν σ) (exhausted : Error) (depth : Nat) (ref : LazyRef)
    (loader : ν) : IsDecent ref (loaders code exhausted depth loader) := by
  induction depth generalizing loader with
  | zero => exact fun uri target c => .refl ref c
  | succ depth ih => exact fun uri target c => lifetime_run ih (code loader uri target) c

/-! ## At most one load -/

theorem countP_isLoading_of_steady {state : RefState} {moments : List Moment}
    (h : ∀ m ∈ moments, m.IsSteady ref state) : moments.countP (·.isLoading ref) = 0 := by
  refine List.countP_eq_zero.mpr ?_
  intro m hm hloading
  unfold Moment.isLoading at hloading
  split at hloading
  · rename_i r hevent
    obtain ⟨outcome, hanswer, -⟩ := (h m hm).answer r (by rw [hevent]; rfl) (of_decide_eq_true hloading)
    rw [hevent] at hanswer
    cases hanswer
  · cases hloading

theorem Lifetime.countP_isLoading_le {s₀ s₁ : RefState} {moments : List Moment} (h : Lifetime ref s₀ moments s₁) :
    moments.countP (·.isLoading ref) ≤ 1 := by
  cases h with
  | steady steady =>
      rw [countP_isLoading_of_steady steady]
      omega
  | loads same unasked start_state underWay stop_state settled =>
      have hstart : ∀ r : LazyRef, r.cell = ref.cell → ∀ h, Moment.isLoading ref ⟨.loading r, h⟩ = true :=
        fun r hr h => decide_eq_true hr
      have hstop : ∀ r outcome h, Moment.isLoading ref ⟨.loaded r outcome, h⟩ = false := fun _ _ _ => rfl
      simp only [List.countP_append, List.countP_cons, countP_isLoading_of_steady unasked,
        countP_isLoading_of_steady underWay, countP_isLoading_of_steady settled, hstart _ same, hstop]
      simp

/-- **A reference is loaded at most once**, in every run of code that asks for it and for others, with loaders that
may do so as well, and however deep loaders may run inside each other. A loader of the reference is called once at
most. Until then nobody is answered; from then on until the loader has come to an end, who asks is told that the
reference is being loaded; and afterwards, who asks is answered what the loader has answered. Nothing else changes
the reference's state. For a reference that was made with its value, no loader is called, and everybody is answered
the value. -/
theorem loaded_at_most_once (code : ν → String → TypeId → Errand ν σ) (exhausted : Error) (depth : Nat)
    (errand : Errand ν σ) (h : Heap) (s : σ) (uri : String) (target : TypeId) :
    (let made := h.newRef uri target .unresolved
      let final := (errand.run (loaders code exhausted depth) (made.2, s, [])).2
      Lifetime made.1 .unresolved final.2.2 (final.1.state made.1) ∧ final.2.2.countP (·.isLoading made.1) ≤ 1) ∧
    ∀ value,
      let made := h.newRef uri target (.resolved value)
      let final := (errand.run (loaders code exhausted depth) (made.2, s, [])).2
      final.1.state made.1 = .resolved value ∧ (∀ m ∈ final.2.2, m.IsSteady made.1 (.resolved value)) ∧
        final.2.2.countP (·.isLoading made.1) = 0 := by
  have hruns : ∀ state, Lifetime (h.newRef uri target state).1 state
      (errand.run (loaders code exhausted depth) ((h.newRef uri target state).2, s, [])).2.2.2
      ((errand.run (loaders code exhausted depth) ((h.newRef uri target state).2, s, [])).2.1.state
        (h.newRef uri target state).1) := by
    intro state
    obtain ⟨-, added, hadded, hlife⟩ :=
      lifetime_run (isDecent_loaders code exhausted depth (h.newRef uri target state).1) errand
        ((h.newRef uri target state).2, s, []) (by simp [Heap.newRef])
    rw [List.nil_append] at hadded
    rwa [Heap.state_newRef, ← hadded] at hlife
  refine ⟨?_, ?_⟩
  · intro made final
    exact ⟨hruns .unresolved, (hruns .unresolved).countP_isLoading_le⟩
  · intro value made final
    obtain ⟨hfinal, hsteady⟩ := (hruns (.resolved value)).eq_of_ne (by nofun)
    exact ⟨hfinal, hsteady, countP_isLoading_of_steady hsteady⟩

/-- A loader that asks twice for what it loads is turned away both times. -/
example :
    let made := Heap.empty.newRef "/farms/1" ⟨0⟩ .unresolved
    let twice : Errand Unit Unit := .ask made.1 () fun _ => .ask made.1 () fun _ => .finish (.ok .null)
    let final := (twice.run (loaders (fun _ _ _ => twice) .emptyResult 1) (made.2, (), [])).2
    final.2.2.map (·.isLoading made.1) = [true, false, false, false, false, false] :=
  rfl

end Loading

end ResourceQuery
