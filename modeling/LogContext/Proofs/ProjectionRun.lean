import LogContext.Proofs.WorldStore
import Mathlib.Data.List.Chain

namespace LogContext

open SectionStack

/-- What a user asks of a projection, sections apart. -/
inductive ProjectionCall (ε : Type) where
  | push (view : ExecutionView ε)
  | pop
  | fetch
  | sync
  | clear

/-- A push and a fetch answer whether they changed anything. -/
def ProjectionCall.run {ε σ : Type} (p : Projection ε σ) :
    ProjectionCall ε → Work ε (SectionStack × σ) (Option Bool)
  | .push view => some <$> p.push view
  | .pop => (fun _ => none) <$> p.pop
  | .fetch => some <$> p.fetch
  | .sync => (fun _ => none) <$> p.sync
  | .clear => (fun _ => none) <$> p.clear.beside

/-- A push or a fetch is where a projection begins to look after the store. -/
def ProjectionCall.begins {ε : Type} : ProjectionCall ε → Bool
  | .push _ | .fetch => true
  | .pop | .sync | .clear => false

/-- What a user does with a projection: calls, sections around further steps, and other work, which
may fail. A failure ends everything up to the `rescue` that handles it. -/
inductive ProjectionProgram (ε σ : Type) where
  | done
  | call (call : ProjectionCall ε) (rest : ProjectionProgram ε σ)
  | other (work : Work ε σ Unit) (rest : ProjectionProgram ε σ)
  | inSection (view : ExecutionView ε) (body rest : ProjectionProgram ε σ)
  | rescue (handles : ε → Bool) (body : ProjectionProgram ε σ) (handler : ε → ProjectionProgram ε σ)
      (rest : ProjectionProgram ε σ)

/-- A state that a program passes, and whether a push or a fetch came before. -/
structure ProjectionMoment (σ : Type) where
  begun : Bool
  stack : SectionStack
  shared : σ

/-- The state now, and all that were passed since the start. -/
structure ProjectionRun (σ : Type) where
  now : ProjectionMoment σ
  passed : List (ProjectionMoment σ)

namespace ProjectionRun

variable {ε σ α : Type}

def start (s : σ) : ProjectionRun σ := ⟨⟨false, .empty, s⟩, []⟩

def pass (r : ProjectionRun σ) (begins : Bool) (s : SectionStack × σ) : ProjectionRun σ :=
  ⟨⟨r.now.begun || begins, s.1, s.2⟩, r.passed ++ [⟨r.now.begun || begins, s.1, s.2⟩]⟩

/-- One step on the stack and what is beside it; the state that it leaves is passed, also if the
step fails. -/
def step (begins : Bool) (work : Work ε (SectionStack × σ) α) : Work ε (ProjectionRun σ) α :=
  work.within (fun r => (r.now.stack, r.now.shared)) fun s r => r.pass begins s

/-- The states are linked by steps from the first one to the one now. -/
structure Linked (links : ProjectionMoment σ → ProjectionMoment σ → Prop)
    (first : ProjectionMoment σ) (r : ProjectionRun σ) : Prop where
  chain : (first :: r.passed).IsChain links
  now : (first :: r.passed).getLast? = some r.now

theorem linked_start (links : ProjectionMoment σ → ProjectionMoment σ → Prop) (s : σ) :
    (start s).Linked links (start s).now := ⟨List.isChain_singleton _, rfl⟩

theorem Linked.pass {links : ProjectionMoment σ → ProjectionMoment σ → Prop}
    {first : ProjectionMoment σ} {r : ProjectionRun σ} (h : r.Linked links first) {begins : Bool}
    {s : SectionStack × σ} (hlink : links r.now ⟨r.now.begun || begins, s.1, s.2⟩) :
    (r.pass begins s).Linked links first := by
  have hpassed : first :: (r.pass begins s).passed = (first :: r.passed) ++ [(r.pass begins s).now] :=
    rfl
  refine ⟨?_, by rw [hpassed, List.getLast?_concat]⟩
  rw [hpassed]
  refine List.isChain_append.mpr ⟨h.chain, List.isChain_singleton _, fun last hlast next hnext => ?_⟩
  obtain rfl : r.now = last := Option.some.inj (h.now.symm.trans hlast)
  obtain rfl : (r.pass begins s).now = next := Option.some.inj hnext
  exact hlink

end ProjectionRun

/-- The state to which a call leads. -/
def ProjectionMoment.next {ε σ : Type} (p : Projection ε σ) (moment : ProjectionMoment σ)
    (call : ProjectionCall ε) : ProjectionMoment σ :=
  let left := (call.run p).leaves (moment.stack, moment.shared)
  ⟨moment.begun || call.begins, left.1, left.2⟩

/-- One step leads from one state to the other: a call or other work of some kind. -/
inductive ProjectionMoment.Steps {ε σ : Type} (p : Projection ε σ) (calls : ProjectionCall ε → Prop)
    (others : Work ε σ Unit → Prop) (moment : ProjectionMoment σ) : ProjectionMoment σ → Prop
  | call {call : ProjectionCall ε} (of : calls call) : Steps p calls others moment (moment.next p call)
  | other {work : Work ε σ Unit} (of : others work) :
    Steps p calls others moment ⟨moment.begun, moment.stack, work.leaves moment.shared⟩

namespace ProjectionProgram

variable {ε σ : Type}

def run (p : Projection ε σ) : ProjectionProgram ε σ → Work ε (ProjectionRun σ) Unit
  | .done => pure ()
  | .call c rest => do
    let _ ← ProjectionRun.step c.begins (c.run p)
    rest.run p
  | .other work rest => do
    ProjectionRun.step false work.beside
    rest.run p
  | .inSection view body rest => do
    Work.bracket (ProjectionRun.step true (p.push view)) (ProjectionRun.step false p.pop)
      fun _ => body.run p
    rest.run p
  | .rescue handles body handler rest => do
    Work.rescue handles (body.run p) fun e => (handler e).run p
    rest.run p

/-- All calls and all other work of a program are of a kind. A section makes a push and a pop. -/
def Uses (calls : ProjectionCall ε → Prop) (others : Work ε σ Unit → Prop) :
    ProjectionProgram ε σ → Prop
  | .done => True
  | .call c rest => calls c ∧ rest.Uses calls others
  | .other work rest => others work ∧ rest.Uses calls others
  | .inSection view body rest =>
    calls (.push view) ∧ calls .pop ∧ body.Uses calls others ∧ rest.Uses calls others
  | .rescue _ body handler rest =>
    body.Uses calls others ∧ (∀ e, (handler e).Uses calls others) ∧ rest.Uses calls others

theorem uses_all (program : ProjectionProgram ε σ) :
    program.Uses (fun _ => True) fun _ => True := by
  induction program with
  | done => trivial
  | call c rest ih => exact ⟨trivial, ih⟩
  | other work rest ih => exact ⟨trivial, ih⟩
  | inSection view body rest ihb ih => exact ⟨trivial, trivial, ihb, ih⟩
  | rescue handles body handler rest ihb ihh ih => exact ⟨ihb, ihh, ih⟩

/-- The start and the states that a program passes from there, in order. -/
def moments (program : ProjectionProgram ε σ) (p : Projection ε σ) (s : σ) :
    List (ProjectionMoment σ) :=
  (ProjectionRun.start s).now :: ((program.run p).leaves (.start s)).passed

variable {p : Projection ε σ} {calm : ProjectionMoment σ → Prop}

def CalmThroughout (calm : ProjectionMoment σ → Prop) (r : ProjectionRun σ) : Prop :=
  calm r.now ∧ ∀ moment ∈ r.passed, calm moment

theorem calmThroughout_start {s : σ} (h : calm (ProjectionRun.start s).now) :
    CalmThroughout calm (.start s) := ⟨h, fun _ hm => nomatch hm⟩

theorem forall_moments {program : ProjectionProgram ε σ}
    (h : (program.run p).Keeps (CalmThroughout calm)) {s : σ}
    (hstart : calm (ProjectionRun.start s).now) : ∀ moment ∈ program.moments p s, calm moment :=
  List.forall_mem_cons.mpr ⟨hstart, (h.leaves (calmThroughout_start hstart)).2⟩

theorem step_keeps {α : Type} {begins : Bool} {work : Work ε (SectionStack × σ) α}
    (h : ∀ moment, calm moment → work.Ends (moment.stack, moment.shared) fun _ t =>
      calm ⟨moment.begun || begins, t.1, t.2⟩) :
    (ProjectionRun.step begins work).Keeps (CalmThroughout calm) := by
  intro r hr
  obtain ⟨hnow, hpassed⟩ := hr
  rw [ProjectionRun.step, Work.ends_within]
  refine (h r.now hnow).imp ?_
  intro _ t ht
  refine ⟨ht, fun moment hm => ?_⟩
  rcases List.mem_append.mp hm with hm | hm
  · exact hpassed moment hm
  · exact List.mem_singleton.mp hm ▸ ht

theorem ends_step_map {α β : Type} {begins : Bool} {work : Work ε (SectionStack × σ) α} {f : α → β}
    {r : ProjectionRun σ} {post : ProjectionRun σ → Prop} :
    ((ProjectionRun.step begins (f <$> work)).Ends r fun _ t => post t) ↔
      (ProjectionRun.step begins work).Ends r fun _ t => post t := by
  rw [ProjectionRun.step, ProjectionRun.step, Work.ends_within, Work.ends_within, Work.ends_map]

/-- What every step keeps, the whole program keeps, by induction on it. -/
theorem run_keeps_of_steps {I : ProjectionRun σ → Prop} {calls : ProjectionCall ε → Prop}
    {others : Work ε σ Unit → Prop}
    (hcalls : ∀ call, calls call → (ProjectionRun.step call.begins (call.run p)).Keeps I)
    (hothers : ∀ work, others work → (ProjectionRun.step (ε := ε) false work.beside).Keeps I)
    {program : ProjectionProgram ε σ} (uses : program.Uses calls others) :
    (program.run p).Keeps I := by
  induction program with
  | done => exact Work.keeps_pure _
  | call c rest ih => exact (hcalls c uses.1).bind fun _ => ih uses.2
  | other work rest ih => exact (hothers work uses.1).bind fun _ => ih uses.2
  | inSection view body rest ihb ih =>
    obtain ⟨hpush, hpop, hbody, hrest⟩ := uses
    have henter : (ProjectionRun.step true (p.push view)).Keeps I := fun r hr =>
      ends_step_map.mp (hcalls (.push view) hpush r hr)
    have hleave : (ProjectionRun.step false p.pop).Keeps I := fun r hr =>
      ends_step_map.mp (hcalls .pop hpop r hr)
    exact (henter.bracket hleave fun _ => ihb hbody).bind fun _ => ih hrest
  | rescue handles body handler rest ihb ihh ih =>
    exact ((ihb uses.1).rescue fun e => ihh e (uses.2.1 e)).bind fun _ => ih uses.2.2

/-- What every step keeps holds of all states that a program passes. -/
theorem run_keeps {calls : ProjectionCall ε → Prop} {others : Work ε σ Unit → Prop}
    (hcalls : ∀ call, calls call → ∀ moment, calm moment →
      (call.run p).Ends (moment.stack, moment.shared) fun _ t =>
        calm ⟨moment.begun || call.begins, t.1, t.2⟩)
    (hothers : ∀ work, others work → ∀ moment, calm moment →
      work.Ends moment.shared fun _ t => calm ⟨moment.begun, moment.stack, t⟩)
    {program : ProjectionProgram ε σ} (uses : program.Uses calls others) :
    (program.run p).Keeps (CalmThroughout calm) := by
  refine run_keeps_of_steps (fun call hcall => step_keeps (hcalls call hcall)) (fun work hwork => ?_)
    uses
  refine step_keeps fun moment hm => ?_
  rw [Work.ends_beside, Bool.or_false]
  exact hothers work hwork moment hm

/-- Each state that a program passes is one step from the one before. -/
theorem run_isChain {calls : ProjectionCall ε → Prop} {others : Work ε σ Unit → Prop}
    {program : ProjectionProgram ε σ} (uses : program.Uses calls others) (s : σ) :
    (program.moments p s).IsChain (ProjectionMoment.Steps p calls others) := by
  have hkeeps : (program.run p).Keeps
      (ProjectionRun.Linked (ProjectionMoment.Steps p calls others) (ProjectionRun.start s).now) := by
    refine run_keeps_of_steps (fun call hcall r hr => ?_) (fun work hwork r hr => ?_) uses
    · rw [ProjectionRun.step, Work.ends_within]
      exact Work.ends_leaves.mpr (hr.pass (.call hcall))
    · rw [ProjectionRun.step, Work.ends_within, Work.ends_beside]
      refine Work.ends_leaves.mpr (hr.pass ?_)
      rw [Bool.or_false]
      exact .other hwork
  exact (hkeeps.leaves (ProjectionRun.linked_start _ s)).chain

end ProjectionProgram

namespace Projection

variable {ε σ : Type} {p : Projection ε σ} {stored : σ → Snapshot}

theorem respects_true (p : Projection ε σ) : p.Respects fun _ => True :=
  ⟨fun _ => Work.keeps_true _, fun _ _ => Work.keeps_true _, fun _ => Work.keeps_true _,
    Work.keeps_true _, fun _ _ => Work.keeps_true _⟩

/-- Before the first push or fetch nothing is on the stack; from then on the store agrees with it. -/
def AgreesOnceBegun (p : Projection ε σ) (stored : σ → Snapshot) (moment : ProjectionMoment σ) :
    Prop :=
  if moment.begun then p.Agrees stored (moment.stack, moment.shared) else moment.stack = .empty

theorem hasTracked_empty : SectionStack.empty.hasTracked = false := rfl

theorem pop_empty (p : Projection ε σ) (s : σ) : p.pop (.empty, s) = .ok () (.empty, s) := by
  unfold Projection.pop
  split <;> rfl

theorem sync_empty (p : Projection ε σ) (s : σ) : p.sync (.empty, s) = .ok () (.empty, s) := rfl

theorem Owns.call_agrees (owns : p.Owns stored) {call : ProjectionCall ε} (hcall : call ≠ .clear)
    (moment : ProjectionMoment σ) (h : p.AgreesOnceBegun stored moment) :
    (call.run p).Ends (moment.stack, moment.shared) fun _ t =>
      p.AgreesOnceBegun stored ⟨moment.begun || call.begins, t.1, t.2⟩ := by
  obtain ⟨begun, st, s⟩ := moment
  have hr := p.respects_true
  cases call with
  | push view =>
    have htracked : st.hasTracked = true → p.Agrees stored (st, s) := by
      intro ht
      cases begun with
      | true => exact h
      | false =>
        have hempty : st = .empty := h
        rw [hempty, hasTracked_empty] at ht
        cases ht
    rw [ProjectionCall.run, Work.ends_map]
    refine (owns.push hr view st s htracked trivial).imp ?_
    intro _ t ht
    simp only [AgreesOnceBegun, ProjectionCall.begins, Bool.or_true, ↓reduceIte]
    exact ht.1
  | fetch =>
    rw [ProjectionCall.run, Work.ends_map]
    refine (owns.fetch hr st s trivial).imp ?_
    intro _ t ht
    simp only [AgreesOnceBegun, ProjectionCall.begins, Bool.or_true, ↓reduceIte]
    exact ht.1
  | pop =>
    rw [ProjectionCall.run, Work.ends_map]
    cases begun with
    | true => exact ((owns.settled hr).pop (st, s) ⟨h, trivial⟩).imp fun _ _ ht => ht.1
    | false =>
      have hempty : st = .empty := h
      subst hempty
      exact (Work.ends_of_ok (pop_empty p s)).mpr rfl
  | sync =>
    rw [ProjectionCall.run, Work.ends_map]
    cases begun with
    | true => exact ((owns.settled hr).sync (st, s) ⟨h, trivial⟩).imp fun _ _ ht => ht.1
    | false =>
      have hempty : st = .empty := h
      subst hempty
      exact (Work.ends_of_ok (sync_empty p s)).mpr rfl
  | clear => exact absurd rfl hcall

/-- For every program that does not clear the store by itself, and beside which nobody writes to the
store: in every state that it passes after the first push or fetch, the store holds the latest value
of every active key. -/
theorem store_agrees_with_stack (owns : p.Owns stored) (program : ProjectionProgram ε σ)
    (uses : program.Uses (· ≠ .clear) fun work => ∀ s, stored (work.leaves s) = stored s) (s : σ) :
    ∀ moment ∈ ((program.run p).leaves (.start s)).passed, moment.begun = true →
      ∀ key ∈ p.config.propertyNames, stored moment.shared key = moment.stack.latest key := by
  have hkeeps : (program.run p).Keeps
      (ProjectionProgram.CalmThroughout (p.AgreesOnceBegun stored)) := by
    refine ProjectionProgram.run_keeps (fun call hcall => owns.call_agrees hcall) ?_ uses
    intro work hwork moment hm
    refine Work.ends_leaves.mpr ?_
    unfold AgreesOnceBegun at hm ⊢
    split at hm
    next hb =>
      rw [if_pos hb]
      intro key hkey
      simp only [hwork]
      exact hm key hkey
    next hb =>
      rw [if_neg hb]
      exact hm
  intro moment hm hbegun
  have hcalm := ProjectionProgram.forall_moments hkeeps rfl moment (List.mem_cons_of_mem _ hm)
  rw [AgreesOnceBegun, if_pos hbegun] at hcalm
  exact hcalm

end Projection

/-- A store that holds something at first. -/
def leftOverSetup : Setup where
  backing := .contextual "store"
  initial := [("activityId", "left over"), ("user", "u")]
  projections := []
  clock := 0
  clockStep := 1
  sink := .discard

def shopProjection : Projection Failure World :=
  leftOverSetup.projection 0 ⟨.standard, .answers [some "shop"], none⟩

theorem owns_shopProjection : shopProjection.Owns (World.stored leftOverSetup.backing) := by
  have hreliable : leftOverSetup.backing.Reliable := trivial
  exact Setup.owns_projection hreliable 0 _

/-- More pops than sections, around a fetch inside a section. -/
def unbalancedProgram : ProjectionProgram Failure World :=
  .call .sync <|
  .inSection (.ofExecution { activityId := some "a" })
    (.call .fetch <| .call .pop <| .call .pop <| .call .pop .done) <|
  .call .sync .done

theorem Projection.store_agrees_with_stack_unbalanced :
    ∃ moment ∈ ((unbalancedProgram.run shopProjection).leaves
        (.start leftOverSetup.world)).passed,
      moment.begun = true ∧
        World.stored leftOverSetup.backing moment.shared "activityId" =
          moment.stack.latest "activityId" := by
  have huses : unbalancedProgram.Uses (· ≠ .clear) fun work =>
      ∀ s, World.stored leftOverSetup.backing (work.leaves s) =
        World.stored leftOverSetup.backing s := by
    simp [unbalancedProgram, ProjectionProgram.Uses]
  have hbegun : (((unbalancedProgram.run shopProjection).leaves
      (.start leftOverSetup.world)).passed.find? ProjectionMoment.begun).isSome = true := by
    decide +kernel
  obtain ⟨moment, hfind⟩ := Option.isSome_iff_exists.mp hbegun
  have hmem := List.mem_of_find?_eq_some hfind
  have hactive : "activityId" ∈ shopProjection.config.propertyNames := by decide +kernel
  exact ⟨moment, hmem, List.find?_some hfind, Projection.store_agrees_with_stack
    owns_shopProjection unbalancedProgram huses leftOverSetup.world moment hmem (List.find?_some hfind) _ hactive⟩

end LogContext
