import LogContext.HookScript
import LogContext.Proofs.StackFrames
import LogContext.Proofs.WorkOutcome
import Mathlib.Logic.Function.Basic

namespace LogContext

namespace Snapshot

/-- Overwrites a snapshot at an offered name, if the name is usable and has another value. The flag
says whether anything was overwritten so far. -/
def offer : Bool × Snapshot → Offer → Bool × Snapshot
  | draft, (none, _) => draft
  | (changed, m), (some name, value) =>
    if isBlank name ∨ m name = value then (changed, m) else (true, Function.update m name value)

theorem offer_snd (draft : Bool × Snapshot) {name : String} (usable : isBlank name = false)
    (value : Option String) :
    (offer draft (some name, value)).2 = Function.update draft.2 name value := by
  obtain ⟨changed, m⟩ := draft
  by_cases h : m name = value
  · rw [← h, Function.update_eq_self]
    exact congrArg Prod.snd (if_pos (Or.inr rfl))
  · exact congrArg Prod.snd (if_neg (by simp [usable, h]))

theorem offer_of_fst_false {draft : Bool × Snapshot} {o : Offer} (h : (offer draft o).1 = false) :
    offer draft o = draft := by
  obtain ⟨changed, m⟩ := draft
  obtain ⟨name?, value⟩ := o
  cases name? with
  | none => rfl
  | some name =>
    by_cases hkeep : isBlank name ∨ m name = value
    · exact if_pos hkeep
    · have hchange : offer (changed, m) (some name, value) =
          (true, Function.update m name value) := if_neg hkeep
      rw [hchange] at h
      cases h

theorem foldl_offer_of_fst_false {offers : List Offer} {draft : Bool × Snapshot}
    (h : (offers.foldl offer draft).1 = false) : offers.foldl offer draft = draft := by
  induction offers generalizing draft with
  | nil => rfl
  | cons o rest ih =>
    have hrest := ih h
    rw [List.foldl_cons] at h ⊢
    rw [hrest] at h ⊢
    exact offer_of_fst_false h

end Snapshot

/-- A stack of whole snapshots, innermost first. There is always one. -/
structure SnapshotStack where
  top : Snapshot
  below : List Snapshot

namespace SnapshotStack

def start : SnapshotStack := ⟨.blank, []⟩

def maps (ref : SnapshotStack) : List Snapshot := ref.top :: ref.below

/-- A copy of the top snapshot is overwritten, and goes onto the stack if that changed anything. -/
def push (ref : SnapshotStack) (offers : List Offer) : Bool × SnapshotStack :=
  match offers.foldl Snapshot.offer (false, ref.top) with
  | (false, _) => (false, ref)
  | (true, m) => (true, ⟨m, ref.maps⟩)

/-- The outermost snapshot stays. -/
def pop : SnapshotStack → SnapshotStack
  | ⟨top, []⟩ => ⟨top, []⟩
  | ⟨_, m :: rest⟩ => ⟨m, rest⟩

def call (ref : SnapshotStack) : StackCall → Option Bool × SnapshotStack
  | .push offers => (some (ref.push offers).1, (ref.push offers).2)
  | .pop => (none, ref.pop)

def callAll (ref : SnapshotStack) : List StackCall → List (Option Bool) × SnapshotStack
  | [] => ([], ref)
  | c :: rest => ((ref.call c).1 :: ((ref.call c).2.callAll rest).1, ((ref.call c).2.callAll rest).2)

end SnapshotStack

theorem SnapshotStack.push_cases (ref : SnapshotStack) (offers : List Offer) :
    ((ref.push offers).1 = false ∧ (ref.push offers).2 = ref ∧
        (offers.foldl Snapshot.offer (false, ref.top)).2 = ref.top) ∨
      ((ref.push offers).1 = true ∧
        (ref.push offers).2 = ⟨(offers.foldl Snapshot.offer (false, ref.top)).2, ref.maps⟩) := by
  unfold SnapshotStack.push
  split
  next m hm =>
    have hsame := Snapshot.foldl_offer_of_fst_false (by rw [hm] : (offers.foldl Snapshot.offer
      (false, ref.top)).1 = false)
    exact Or.inl ⟨rfl, rfl, congrArg Prod.snd hsame⟩
  next m hm => exact Or.inr ⟨rfl, by rw [hm]⟩

theorem SnapshotStack.fst_push (ref : SnapshotStack) (offers : List Offer) :
    (ref.push offers).1 = (offers.foldl Snapshot.offer (false, ref.top)).1 := by
  unfold SnapshotStack.push
  split
  next m hm => rw [hm]
  next m hm => rw [hm]

theorem SnapshotStack.top_push (ref : SnapshotStack) (offers : List Offer) :
    (ref.push offers).2.top = (offers.foldl Snapshot.offer (false, ref.top)).2 := by
  rcases ref.push_cases offers with ⟨_, hstack, hsame⟩ | ⟨_, hstack⟩
  · rw [hstack, hsame]
  · rw [hstack]

/-- What a section with these values leaves: one whose values are those around it is not there. -/
def SnapshotStack.Entered (ref : SnapshotStack) (env : Snapshot) (changed : Bool)
    (after : SnapshotStack) : Prop :=
  if changed then after = ⟨env, ref.maps⟩ else after = ref ∧ env = ref.top

theorem SnapshotStack.entered_push (ref : SnapshotStack) (offers : List Offer) :
    ref.Entered (offers.foldl Snapshot.offer (false, ref.top)).2 (ref.push offers).1
      (ref.push offers).2 := by
  rcases ref.push_cases offers with ⟨hflag, hstack, hsame⟩ | ⟨hflag, hstack⟩
  · rw [hflag]
    exact ⟨hstack, hsame⟩
  · rw [hflag]
    exact hstack

/-- Calls one after the other, with their results. -/
def StackCall.runAll {ε σ : Type} (hooks : HookKind → SectionStack.Hook ε σ) :
    List StackCall → Work ε (SectionStack × σ) (List (Option Bool))
  | [] => pure []
  | call :: rest => do
    let result ← call.run hooks
    let results ← runAll hooks rest
    pure (result :: results)

namespace SectionStack

/-- A section has pushed as many frames of a property as times it lists it; these are the frames
without them. -/
def framesBefore (frames : String → List Frame) (names : List String) : String → List Frame :=
  fun name => (frames name).drop (names.count name)

/-- The snapshots below the innermost one, section by section. -/
def snapshotsBelow (frames : String → List Frame) : List (List String) → List Snapshot
  | [] => []
  | names :: rest =>
    (fun name => Frame.value? (framesBefore frames names name).head?) ::
      snapshotsBelow (framesBefore frames names) rest

/-- The stack of snapshots that the frames and sections stand for. -/
def snapshots (st : SectionStack) : SnapshotStack :=
  ⟨st.latest, snapshotsBelow st.frames st.openNames⟩

theorem snapshots_empty : empty.snapshots = .start := rfl

theorem length_snapshotsBelow (frames : String → List Frame) (sections : List (List String)) :
    (snapshotsBelow frames sections).length = sections.length := by
  induction sections generalizing frames with
  | nil => rfl
  | cons names rest ih => simp only [snapshotsBelow, List.length_cons, ih]

theorem length_maps_snapshots (st : SectionStack) :
    st.snapshots.maps.length = st.sectionCount + 1 := by
  simp only [SnapshotStack.maps, snapshots, List.length_cons, length_snapshotsBelow, openNames,
    List.length_map, sectionCount]

theorem snapshots_openSection (st : SectionStack) :
    st.openSection.snapshots = ⟨st.latest, st.snapshots.maps⟩ := by
  simp only [snapshots, openNames, sections_openSection, List.map_cons, snapshotsBelow,
    framesBefore, List.count_nil, List.drop_zero, SnapshotStack.maps]
  rfl

theorem latest_change_eq_update (st : SectionStack) (serial? : Option Nat) (name : String)
    (value : Option String) :
    (st.change serial? name value).2.latest = Function.update st.latest name value := by
  funext other
  rw [latest_change, Function.update_apply]

/-- What a section pushes, it lists, so the frames before it stay what they were. -/
theorem framesBefore_change (st : SectionStack) (serial? : Option Nat) (name : String)
    (value : Option String) (names : List String) :
    framesBefore (st.change serial? name value).2.frames (names ++ [name]) =
      framesBefore st.frames names := by
  funext other
  rw [framesBefore, framesBefore, frames_change, List.count_append]
  by_cases eq : other = name
  · subst eq
    simp
  · simp [eq, Ne.symm eq]

theorem snapshots_change_innermost {st : SectionStack} {serial : Nat} {names : List String}
    {rest : List Section} (h : st.sections = ⟨serial, names⟩ :: rest) (name : String)
    (value : Option String) :
    (st.change (some serial) name value).2.snapshots =
      ⟨Function.update st.latest name value, st.snapshots.below⟩ := by
  have hopen : st.openNames = names :: rest.map Section.names := by
    simp only [openNames, h, List.map_cons]
  have hopen' : (st.change (some serial) name value).2.openNames =
      (names ++ [name]) :: rest.map Section.names := by
    simp only [openNames, change, ownSection, sections_pushFrame, sections_enlist_innermost h,
      List.map_cons]
  have hframes := framesBefore_change st (some serial) name value names
  simp only [snapshots, hopen, hopen', snapshotsBelow, hframes, latest_change_eq_update]

theorem snapshots_change_none (st : SectionStack) (name : String) (value : Option String) :
    (st.change none name value).2.snapshots =
      ⟨Function.update st.latest name value, st.snapshots.maps⟩ := by
  have h := snapshots_change_innermost (sections_openSection st) name value
  rw [snapshots_openSection] at h
  exact h

theorem offer_of_changed?_none {st : SectionStack} {offer : Offer} {changed : Bool}
    (h : st.changed? offer = none) :
    Snapshot.offer (changed, st.latest) offer = (changed, st.latest) := by
  obtain ⟨name?, value⟩ := offer
  cases name? with
  | none => rfl
  | some name =>
    have hkeep : isBlank name = true ∨ st.latest name = value := by
      simpa [changed?, Decidable.or_iff_not_imp_left] using h
    exact if_pos hkeep

theorem offer_of_changed?_some {st : SectionStack} {offer : Offer} {changed : Bool} {name : String}
    (h : st.changed? offer = some name) :
    Snapshot.offer (changed, st.latest) offer =
      (true, Function.update st.latest name offer.2) := by
  obtain ⟨name?, value⟩ := offer
  obtain ⟨rfl, husable, hne⟩ := changed?_eq_some_iff.mp h
  have hchange : ¬(isBlank name = true ∨ st.latest name = value) := by
    simpa [husable] using hne
  exact if_neg hchange

variable {ε σ : Type}

/-- The hook neither fails nor uses the stack. -/
def Quiet (hook : Hook ε σ) : Prop :=
  ∀ name value st s, ∃ t, hook name value (st, s) = .ok () (st, t)

theorem quiet_silent : Quiet (silent : Hook ε σ) :=
  fun _ _ _ s => ⟨s, rfl⟩

theorem Quiet.aloof {hook : Hook ε σ} (quiet : Quiet hook) :
    Aloof (fun _ => True) (fun _ => True) False hook := by
  intro name _ value st s _
  obtain ⟨t, ht⟩ := quiet name value st s
  exact (Work.ends_of_ok ht).mpr ⟨rfl, trivial⟩

/-- A push onto `base` is under way: the draft that the offers have made of the top snapshot so far
is the innermost snapshot of the stack, in the section of the push once there is one. -/
structure Drafting (base : SnapshotStack) (draft : Bool × Snapshot) (serial? : Option Nat)
    (st : SectionStack) : Prop where
  opened : serial?.isSome = draft.1
  innermost : ∀ serial, serial? = some serial → ∃ names rest, st.sections = ⟨serial, names⟩ :: rest
  latest : st.latest = draft.2
  below : st.snapshots.below = if draft.1 then base.maps else base.below
  unchanged : draft.1 = false → draft.2 = base.top

theorem Drafting.start (st : SectionStack) : Drafting st.snapshots (false, st.latest) none st where
  opened := rfl
  innermost := by simp
  latest := rfl
  below := rfl
  unchanged := fun _ => rfl

theorem Drafting.change {base : SnapshotStack} {draft : Bool × Snapshot} {serial? : Option Nat}
    {st : SectionStack} (h : Drafting base draft serial? st) (name : String)
    (value : Option String) :
    Drafting base (true, Function.update st.latest name value)
      (some (st.change serial? name value).1) (st.change serial? name value).2 := by
  cases serial? with
  | none =>
    have hfalse : draft.1 = false := h.opened.symm
    have hbase : st.snapshots = base := by
      have hbelow := h.below
      rw [hfalse] at hbelow
      have htop : st.snapshots.top = base.top := h.latest.trans (h.unchanged hfalse)
      cases base
      exact SnapshotStack.mk.injEq .. ▸ ⟨htop, hbelow⟩
    refine ⟨rfl, ?_, latest_change_eq_update st none name value, ?_, by simp⟩
    · intro serial hs
      cases hs
      exact ⟨_, _, sections_enlist_innermost (sections_openSection st) name⟩
    · rw [snapshots_change_none, hbase]
      rfl
  | some own =>
    have htrue : draft.1 = true := h.opened.symm
    obtain ⟨names, rest, hs⟩ := h.innermost own rfl
    refine ⟨rfl, ?_, latest_change_eq_update st (some own) name value, ?_, by simp⟩
    · intro serial hserial
      cases hserial
      exact ⟨_, _, sections_enlist_innermost hs name⟩
    · rw [snapshots_change_innermost hs, h.below, htrue]

theorem pushOffer_drafting {hook : Hook ε σ} (quiet : Quiet hook) {base : SnapshotStack}
    {draft : Bool × Snapshot} {serial? : Option Nat} {st : SectionStack}
    (h : Drafting base draft serial? st) (offer : Offer) (s : σ) :
    ∃ serial' st' t, pushOffer hook serial? offer (st, s) = .ok serial' (st', t) ∧
      Drafting base (Snapshot.offer draft offer) serial' st' := by
  obtain ⟨changed, m⟩ := draft
  have hm : st.latest = m := h.latest
  subst hm
  rw [pushOffer_apply]
  cases hc : st.changed? offer with
  | none =>
    rw [offer_of_changed?_none hc]
    exact ⟨serial?, st, s, rfl, h⟩
  | some name =>
    obtain ⟨t, ht⟩ := quiet name offer.2 (st.change serial? name offer.2).2 s
    rw [offer_of_changed?_some hc]
    simp only [ht]
    exact ⟨_, _, t, rfl, h.change name offer.2⟩

theorem pushOffers_drafting {hook : Hook ε σ} (quiet : Quiet hook) {base : SnapshotStack}
    {draft : Bool × Snapshot} {serial? : Option Nat} {st : SectionStack}
    (h : Drafting base draft serial? st) (offers : List Offer) (s : σ) :
    ∃ serial' st' t, pushOffers hook serial? offers (st, s) = .ok serial' (st', t) ∧
      Drafting base (offers.foldl Snapshot.offer draft) serial' st' := by
  induction offers generalizing draft serial? st s with
  | nil => exact ⟨serial?, st, s, rfl, h⟩
  | cons offer rest ih =>
    obtain ⟨serial₁, st₁, t₁, h₁, hd₁⟩ := pushOffer_drafting quiet h offer s
    obtain ⟨serial₂, st₂, t₂, h₂, hd₂⟩ := ih hd₁ t₁
    refine ⟨serial₂, st₂, t₂, ?_, hd₂⟩
    simp only [pushOffers, bind, EStateM.bind, h₁, h₂]

theorem push_snapshots {hook : Hook ε σ} (quiet : Quiet hook) (offers : List Offer)
    (st : SectionStack) (s : σ) :
    ∃ st' t, push hook offers (st, s) = .ok (st.snapshots.push offers).1 (st', t) ∧
      st'.snapshots = (st.snapshots.push offers).2 := by
  obtain ⟨serial', st', t, h, hd⟩ := pushOffers_drafting quiet (Drafting.start st) offers s
  have hpush : push hook offers (st, s) = .ok serial'.isSome (st', t) := by
    simp only [push, bind, EStateM.bind, h]
    rfl
  have htop : st'.snapshots.top = (offers.foldl Snapshot.offer (false, st.latest)).2 := hd.latest
  refine ⟨st', t, ?_, ?_⟩
  · rw [hpush, hd.opened]
    simp only [SnapshotStack.push, snapshots]
    split
    next m hm => rw [hm]
    next m hm => rw [hm]
  · have hbelow := hd.below
    have hsame := hd.unchanged
    simp only [SnapshotStack.push]
    split
    next m hm =>
      have hf : offers.foldl Snapshot.offer (false, st.latest) = (false, m) := hm
      rw [hf] at hbelow hsame htop
      exact SnapshotStack.mk.injEq .. ▸ ⟨htop.trans (hsame rfl), hbelow⟩
    next m hm =>
      have hf : offers.foldl Snapshot.offer (false, st.latest) = (true, m) := hm
      rw [hf] at hbelow htop
      exact SnapshotStack.mk.injEq .. ▸ ⟨htop, hbelow⟩

theorem removeNames_quiet {hook : Hook ε σ} (quiet : Quiet hook) (names : List String)
    (st : SectionStack) (s : σ) :
    ∃ t, removeNames hook names (st, s) = .ok () (st.dropFrames names, t) := by
  have hnames : ∀ name ∈ names, True := fun _ _ => trivial
  have hdropped := removeNames_aloof quiet.aloof hnames st (s := s) trivial
  obtain ⟨_, t, ht, hstack, _⟩ := hdropped.exists_ok
  exact ⟨t.2, hstack ▸ ht⟩

theorem pop_snapshots {hook : Hook ε σ} (quiet : Quiet hook) (st : SectionStack) (s : σ) :
    ∃ st' t, pop hook (st, s) = .ok () (st', t) ∧ st'.snapshots = st.snapshots.pop := by
  cases hs : st.sections with
  | nil =>
    have hpop : pop hook (st, s) = .ok () (st, s) := by
      simp only [pop, Work.get_bind, closeSection?_eq_none hs]
      rfl
    refine ⟨st, s, hpop, ?_⟩
    simp only [snapshots, openNames, hs, List.map_nil, snapshotsBelow, SnapshotStack.pop]
  | cons closed rest =>
    obtain ⟨below, hclose, hrest, htracked⟩ := closeSection?_eq_some hs
    obtain ⟨t, ht⟩ := removeNames_quiet quiet closed.names below s
    have hpop : pop hook (st, s) = .ok () (below.dropFrames closed.names, t) := by
      simp only [pop, Work.get_bind, hclose]
      exact ht
    have hframes : (below.dropFrames closed.names).frames =
        framesBefore st.frames closed.names := by
      funext name
      rw [frames_dropFrames, frames_of_closeSection? hclose, framesBefore]
    have hlatest : (below.dropFrames closed.names).latest =
        fun name => Frame.value? (framesBefore st.frames closed.names name).head? := by
      rw [← hframes]
      rfl
    refine ⟨_, t, hpop, ?_⟩
    simp only [snapshots, openNames, sections_dropFrames, hrest, hs, List.map_cons,
      snapshotsBelow, SnapshotStack.pop, hframes, hlatest]

end SectionStack

open SectionStack

theorem StackCall.run_snapshots {ε σ : Type} {hooks : HookKind → Hook ε σ}
    (quiet : ∀ kind, Quiet (hooks kind)) (call : StackCall) (st : SectionStack) (s : σ) :
    ∃ st' t, call.run hooks (st, s) = .ok (st.snapshots.call call).1 (st', t) ∧
      st'.snapshots = (st.snapshots.call call).2 := by
  cases call with
  | push offers =>
    obtain ⟨st', t, h, hs⟩ := push_snapshots (quiet .push) offers st s
    refine ⟨st', t, ?_, hs⟩
    simp only [StackCall.run, Functor.map, EStateM.map, h, SnapshotStack.call]
  | pop =>
    obtain ⟨st', t, h, hs⟩ := pop_snapshots (quiet .remove) st s
    refine ⟨st', t, ?_, hs⟩
    simp only [StackCall.run, Functor.map, EStateM.map, h, SnapshotStack.call]

theorem StackCall.runAll_snapshots {ε σ : Type} {hooks : HookKind → Hook ε σ}
    (quiet : ∀ kind, Quiet (hooks kind)) (calls : List StackCall) (st : SectionStack) (s : σ) :
    ∃ st' t, StackCall.runAll hooks calls (st, s) = .ok (st.snapshots.callAll calls).1 (st', t) ∧
      st'.snapshots = (st.snapshots.callAll calls).2 := by
  induction calls generalizing st s with
  | nil => exact ⟨st, s, rfl, rfl⟩
  | cons call rest ih =>
    obtain ⟨st₁, t₁, h₁, hs₁⟩ := call.run_snapshots quiet st s
    obtain ⟨st₂, t₂, h₂, hs₂⟩ := ih st₁ t₁
    rw [hs₁] at h₂ hs₂
    refine ⟨st₂, t₂, ?_, hs₂⟩
    simp only [StackCall.runAll, bind, EStateM.bind, h₁, h₂, SnapshotStack.callAll]
    rfl

/-- A stack of sections with hooks that neither fail nor use it answers every run of pushes and
pops like a stack of whole snapshots, and shows the same count and the same values. -/
theorem stack_refines_snapshots {ε σ : Type} {hooks : HookKind → Hook ε σ}
    (quiet : ∀ kind, Quiet (hooks kind)) (calls : List StackCall) (s : σ) :
    ∃ st t,
      StackCall.runAll hooks calls (.empty, s) =
        .ok (SnapshotStack.start.callAll calls).1 (st, t) ∧
      st.sectionCount = (SnapshotStack.start.callAll calls).2.maps.length - 1 ∧
      ∀ name, st.latest name = (SnapshotStack.start.callAll calls).2.top name := by
  obtain ⟨st, t, h, hs⟩ := StackCall.runAll_snapshots quiet calls .empty s
  rw [snapshots_empty] at h hs
  refine ⟨st, t, h, ?_, ?_⟩
  · rw [← hs, length_maps_snapshots, Nat.add_sub_cancel]
  · intro name
    rw [← hs]
    rfl

/-- Keeps beside the stack what it is told. -/
def SectionStack.recorder : Hook Empty (List (String × Option String)) := fun name value =>
  modify fun s => (s.1, s.2 ++ [(name, value)])

/-- An extra pop, repeated, blank and missing names, and a push of what is there already. -/
def StackCall.sample : List StackCall :=
  [.pop, .push [(some "a", some "1"), (some " ", some "2"), (none, some "3"), (some "a", some "2")],
    .push [(some "a", none), (some "b", none)], .push [(some "a", none)], .pop]

theorem stack_refines_snapshots_sample :
    ∃ st t,
      StackCall.runAll (fun _ => SectionStack.recorder) StackCall.sample (.empty, []) =
        .ok [none, some true, some true, some false, none] (st, t) ∧
      st.sectionCount = 1 ∧ st.latest "a" = some "2" := by
  have hquiet : ∀ kind : HookKind, Quiet ((fun _ => SectionStack.recorder) kind) :=
    fun _ _ _ _ s => ⟨_, rfl⟩
  obtain ⟨st, t, hrun, hcount, hlatest⟩ := stack_refines_snapshots hquiet StackCall.sample []
  refine ⟨st, t, ?_, ?_, ?_⟩
  · have hresults : (SnapshotStack.start.callAll StackCall.sample).1 =
        [none, some true, some true, some false, none] := by decide +kernel
    rw [hrun, hresults]
  · rw [hcount]
    decide +kernel
  · rw [hlatest]
    decide +kernel

end LogContext
