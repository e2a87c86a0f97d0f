import LogContext.Proofs.ActiveKeys
import LogContext.Proofs.HookReplay

namespace LogContext

namespace Frame

theorem value?_some_inj {frame other : Frame} :
    value? (some frame) = value? (some other) ↔ frame = other := by
  cases frame <;> cases other <;> simp [value?]

/-- Every frame makes a property what it is not below that frame. So the lowest one holds a text. -/
def Stepwise : List Frame → Prop
  | [] => True
  | frame :: rest => Frame.value? (some frame) ≠ Frame.value? rest.head? ∧ Stepwise rest

theorem Stepwise.tail {frames : List Frame} (h : Stepwise frames) : Stepwise frames.tail := by
  cases frames with
  | nil => exact h
  | cons frame rest => exact h.2

theorem stepwise_iff {frames : List Frame} :
    Stepwise frames ↔ frames.IsChain (· ≠ ·) ∧
      ∀ frame, frames.getLast? = some frame → ∃ text, frame = .text text := by
  induction frames with
  | nil => simp [Stepwise]
  | cons frame rest ih =>
    rw [Stepwise, ih]
    cases rest with
    | nil => cases frame <;> simp [value?]
    | cons below more =>
      rw [List.head?_cons, ne_eq, value?_some_inj, List.isChain_cons_cons, List.getLast?_cons_cons,
        and_assoc]

end Frame

namespace SectionStack

/-- The frames of every property are stepwise. -/
def Stepwise (st : SectionStack) : Prop := ∀ name, Frame.Stepwise (st.frames name)

theorem stepwise_empty : empty.Stepwise := fun _ => trivial

theorem Stepwise.change {st : SectionStack} (h : st.Stepwise) (serial? : Option Nat) {name : String}
    {value : Option String} (hne : st.latest name ≠ value) :
    (st.change serial? name value).2.Stepwise := by
  intro other
  rw [frames_change]
  split
  next =>
    refine ⟨?_, h name⟩
    rw [Frame.value?_ofValue]
    exact Ne.symm hne
  next => exact h other

theorem Stepwise.dropFrame {st : SectionStack} (h : st.Stepwise) (name : String) :
    (st.dropFrame name).Stepwise := by
  intro other
  rw [frames_dropFrame]
  split
  next => exact (h name).tail
  next => exact h other

theorem Stepwise.close {st below : SectionStack} {closed : Section} (h : st.Stepwise)
    (hclose : st.closeSection? = some (closed, below)) : below.Stepwise := by
  intro name
  rw [frames_of_closeSection? hclose]
  exact h name

/-- A stack as pushes and pops leave it. The names it tracks are usable, each frame differs from the
one below it, the lowest one holds a text, and no open section lists a name that is not tracked. -/
structure Canonical (st : SectionStack) : Prop where
  usable : ∀ name ∈ st.trackedNames, isBlank name = false
  distinct : st.trackedNames.Nodup
  lowest : ∀ name frame, (st.frames name).getLast? = some frame → ∃ text, frame = .text text
  adjacent : ∀ name, (st.frames name).IsChain (· ≠ ·)
  listed : ListsOnly (· ∈ st.trackedNames) st

theorem canonical_iff_stepwise {st : SectionStack} :
    st.Canonical ↔ (∀ name ∈ st.trackedNames, isBlank name = false) ∧ st.Stepwise ∧
      ListsOnly (· ∈ st.trackedNames) st where
  mp h := ⟨h.usable, fun name => Frame.stepwise_iff.mpr ⟨h.adjacent name, h.lowest name⟩, h.listed⟩
  mpr h :=
    { usable := h.1
      distinct := st.tracked.distinct
      lowest := fun name => (Frame.stepwise_iff.mp (h.2.1 name)).2
      adjacent := fun name => (Frame.stepwise_iff.mp (h.2.1 name)).1
      listed := h.2.2 }

theorem canonical_empty : empty.Canonical :=
  canonical_iff_stepwise.mpr ⟨fun _ h => (nomatch h), stepwise_empty, listsOnly_empty⟩

/-- A property that is pushed for the first time is tracked after all others. -/
theorem trackedNames_prefix_change (st : SectionStack) (serial? : Option Nat) (name : String)
    (value : Option String) :
    st.trackedNames <+: (st.change serial? name value).2.trackedNames := by
  rw [trackedNames_change]
  split
  next => exact List.prefix_refl _
  next => exact List.prefix_append _ _

theorem mem_trackedNames_change {st : SectionStack} {serial? : Option Nat} {name other : String}
    {value : Option String} :
    other ∈ (st.change serial? name value).2.trackedNames ↔
      other = name ∨ other ∈ st.trackedNames := by
  rw [trackedNames_change]
  split
  next h => exact ⟨Or.inr, fun ho => ho.elim (fun heq => heq ▸ h) id⟩
  next => simp [or_comm]

theorem Canonical.change {st : SectionStack} (h : st.Canonical) (serial? : Option Nat)
    {name : String} {value : Option String} (husable : isBlank name = false)
    (hne : st.latest name ≠ value) : (st.change serial? name value).2.Canonical := by
  obtain ⟨hnames, hframes, hlisted⟩ := canonical_iff_stepwise.mp h
  refine canonical_iff_stepwise.mpr ⟨fun other ho => ?_, hframes.change serial? hne, ?_⟩
  · rcases mem_trackedNames_change.mp ho with rfl | ho
    · exact husable
    · exact hnames other ho
  · refine ListsOnly.change (hlisted.mono fun other ho => ?_) serial? ?_ value
    · exact mem_trackedNames_change.mpr (Or.inr ho)
    · exact mem_trackedNames_change.mpr (Or.inl rfl)

theorem Canonical.dropFrame {st : SectionStack} (h : st.Canonical) (name : String) :
    (st.dropFrame name).Canonical := by
  obtain ⟨hnames, hframes, hlisted⟩ := canonical_iff_stepwise.mp h
  rw [canonical_iff_stepwise, trackedNames_dropFrame]
  exact ⟨hnames, hframes.dropFrame name, hlisted.dropFrame name⟩

theorem Canonical.close {st below : SectionStack} {closed : Section} (h : st.Canonical)
    (hclose : st.closeSection? = some (closed, below)) : below.Canonical := by
  obtain ⟨hnames, hframes, hlisted⟩ := canonical_iff_stepwise.mp h
  rw [canonical_iff_stepwise, (kept_of_closeSection? hclose).1]
  exact ⟨hnames, hframes.close hclose, (hlisted.close hclose).2⟩

/-- One stack at several moments, in order. It is canonical at each of them, and from one to another
it only tracks more names, after those that it tracks already. -/
structure Evolves (moments : List SectionStack) : Prop where
  canonical : ∀ st ∈ moments, st.Canonical
  grows : moments.Pairwise fun st later => st.trackedNames <+: later.trackedNames

theorem Evolves.advance {past : List SectionStack} {st next : SectionStack}
    (h : Evolves (past ++ [st])) (hnext : st.Canonical → next.Canonical)
    (grown : st.trackedNames <+: next.trackedNames) : Evolves (past ++ [next]) := by
  obtain ⟨hcanonical, hgrows⟩ := h
  simp only [List.mem_append, List.mem_singleton, or_imp, forall_and, forall_eq] at hcanonical
  obtain ⟨hpast, -, hlast⟩ := List.pairwise_append.mp hgrows
  refine ⟨?_, List.pairwise_append.mpr ⟨hpast, List.pairwise_singleton _ _, ?_⟩⟩
  · simp only [List.mem_append, List.mem_singleton, or_imp, forall_and, forall_eq]
    exact ⟨hcanonical.1, hnext hcanonical.2⟩
  · intro earlier hearlier later hlater
    rw [List.mem_singleton.mp hlater]
    exact (hlast earlier hearlier st (List.mem_singleton_self st)).trans grown

theorem Evolves.stay {past : List SectionStack} {st : SectionStack} (h : Evolves (past ++ [st])) :
    Evolves (past ++ [st, st]) := by
  obtain ⟨hcanonical, hgrows⟩ := h
  obtain ⟨hpast, -, hlast⟩ := List.pairwise_append.mp hgrows
  refine ⟨by simpa using hcanonical, List.pairwise_append.mpr ⟨hpast, by simp, ?_⟩⟩
  simpa using hlast

theorem Evolves.sublist {moments part : List SectionStack} (h : Evolves moments)
    (sublist : part.Sublist moments) : Evolves part :=
  ⟨fun st hst => h.canonical st (sublist.mem hst), h.grows.sublist sublist⟩

end SectionStack

open SectionStack

/-- The stacks that hooks were called with. -/
def HookCall.stacks (calls : List HookCall) : List SectionStack := calls.map HookCall.stack

/-- A stack has evolved from its first hook call until now: at the hook calls `past`, then as `start`,
and at all hook calls since. -/
def EvolvedSince (past : List HookCall) (start : SectionStack) (s : SectionStack × HookBench) :
    Prop :=
  ∃ later, s.2.hookCalls = past ++ later ∧
    Evolves (HookCall.stacks past ++ start :: (HookCall.stacks later ++ [s.1]))

theorem EvolvedSince.advance {past : List HookCall} {start st next : SectionStack}
    {bench : HookBench} (h : EvolvedSince past start (st, bench))
    (hnext : st.Canonical → next.Canonical) (grown : st.trackedNames <+: next.trackedNames) :
    EvolvedSince past start (next, bench) := by
  obtain ⟨later, hcalls, hevolves⟩ := h
  refine ⟨later, hcalls, ?_⟩
  rw [← List.cons_append, ← List.append_assoc] at hevolves ⊢
  exact hevolves.advance hnext grown

/-- A frame is compared, listed and pushed before its hook can use the stack again, so nothing is
amiss while the hook is still to be called. -/
theorem benchInvariant_evolvedSince (past : List HookCall) (start : SectionStack) :
    BenchInvariant (EvolvedSince past start) (fun _ => EvolvedSince past start) where
  change := fun st _ serial? name value h husable hne =>
    h.advance (fun hc => hc.change serial? husable hne)
      (trackedNames_prefix_change st serial? name value)
  drop := by
    intro st bench name h
    refine h.advance (fun hc => hc.dropFrame name) ⟨[], ?_⟩
    rw [List.append_nil, trackedNames_dropFrame]
  close := by
    intro st bench closed below h hclose
    refine h.advance (fun hc => hc.close hclose) ⟨[], ?_⟩
    rw [List.append_nil, (kept_of_closeSection? hclose).1]
  unseen := by
    intro st bench bench' heq h
    obtain ⟨later, hcalls, hevolves⟩ := h
    exact ⟨later, heq.trans hcalls, hevolves⟩
  record := by
    intro kind name st bench h
    obtain ⟨later, hcalls, hevolves⟩ := h
    refine ⟨later ++ [⟨kind, name, st.latest name, st⟩], ?_, ?_⟩
    · rw [HookBench.hookCalls_note_hooked, hcalls, List.append_assoc]
    · rw [← List.cons_append, ← List.append_assoc] at hevolves
      have hstay := hevolves.stay
      simpa [HookCall.stacks] using hstay

theorem runCaught_evolves {heard : HookKind → Bool} {calls : List StackCall} {st st' : SectionStack}
    {bench bench' : HookBench}
    (hrun : StackCall.runCaught heard calls (st, bench) = .ok () (st', bench'))
    (h : Evolves (HookCall.stacks bench.hookCalls ++ [st])) :
    ∃ later, bench'.hookCalls = bench.hookCalls ++ later ∧
      Evolves (HookCall.stacks bench.hookCalls ++ st :: (HookCall.stacks later ++ [st'])) := by
  have hstart : EvolvedSince bench.hookCalls st (st, bench) :=
    ⟨[], (List.append_nil _).symm, h.stay⟩
  have hkeeps : (StackCall.runCaught heard calls).Keeps (EvolvedSince bench.hookCalls st) :=
    (benchInvariant_evolvedSince bench.hookCalls st).runCaught_of_heard (fun _ _ _ _ hs => hs) calls
  exact (Work.ends_of_ok hrun).mp (hkeeps (st, bench) hstart)

/-- However hooks fail or use the stack again, whether or not those of a kind are heard: at every
hook call and between the calls from outside the stack is canonical, and from one such moment to a
later one it tracks the same names, perhaps with others after them. -/
theorem frames_stay_canonical (heard : HookKind → Bool) (onPush onRemove : List HookScript)
    (calls more : List StackCall) :
    ∃ st bench st' bench' later,
      StackCall.runCaught heard calls (.empty, .ofScripts onPush onRemove) = .ok () (st, bench) ∧
      StackCall.runCaught heard (calls ++ more) (.empty, .ofScripts onPush onRemove) =
        .ok () (st', bench') ∧
      bench'.hookCalls = bench.hookCalls ++ later ∧
      Evolves (HookCall.stacks bench.hookCalls ++ st :: (HookCall.stacks later ++ [st'])) := by
  obtain ⟨⟨st, bench⟩, hrun⟩ := StackCall.runCaught_ok heard calls
    (.empty, .ofScripts onPush onRemove)
  obtain ⟨⟨st', bench'⟩, hmore⟩ := StackCall.runCaught_ok heard more (st, bench)
  have hstart : Evolves [empty] := ⟨by simpa using canonical_empty, List.pairwise_singleton _ _⟩
  obtain ⟨heardCalls, hcalls, hfirst⟩ := runCaught_evolves hrun hstart
  obtain rfl : bench.hookCalls = heardCalls := hcalls
  have hsofar : Evolves (HookCall.stacks bench.hookCalls ++ [st]) :=
    hfirst.sublist (List.sublist_cons_self _ _)
  obtain ⟨later, hlater, hevolves⟩ := runCaught_evolves hmore hsofar
  refine ⟨st, bench, st', bench', later, hrun, ?_, hlater, hevolves⟩
  rw [StackCall.runCaught_append heard calls more hrun, hmore]

/-- A push hook pops the section that its push is still writing to. The frame that this push adds
afterwards is listed nowhere and stays, and later pushes compare with it. -/
example :
    let st := ((StackCall.runCaught (fun _ => true)
      [.push [(some "a", some "1"), (some "a", none), (some "b", some "2")],
        .push [(some "b", none)]]).leaves
          (.empty, .ofScripts [⟨some "a", [.call .pop]⟩] [])).1
    st.trackedNames = ["a", "b"] ∧ st.frames "a" = [] ∧
      st.frames "b" = [.null, .text "2"] ∧ st.openNames = [["b"]] := by
  decide +kernel

end LogContext
