import LogContext.Proofs.HookReplay
import LogContext.Proofs.SectionListings

namespace LogContext

open SectionStack

/-- How many pushes are under way after an entry, if so many were before it. -/
def JournalEntry.pushesAfter (before : Nat) : JournalEntry → Nat
  | .began (.push _) => before + 1
  | .ended (.push _) _ => before - 1
  | _ => before

/-- How many pushes have begun and not ended. -/
def pushesUnderWay (journal : List JournalEntry) : Nat :=
  journal.foldl JournalEntry.pushesAfter 0

/-- No failure came out of a remove hook, and no pop began while a push was under way. -/
structure Undisturbed (journal : List JournalEntry) : Prop where
  removes : .unhooked .remove false ∉ journal
  pops : ∀ earlier later, journal = earlier ++ .began .pop :: later → pushesUnderWay earlier = 0

theorem HookBench.pushesUnderWay_note (bench : HookBench) (entry : JournalEntry) :
    pushesUnderWay (bench.note entry).journal =
      entry.pushesAfter (pushesUnderWay bench.journal) := by
  simp only [pushesUnderWay, HookBench.note, List.foldl_append, List.foldl_cons, List.foldl_nil]

theorem HookBench.journal_take (bench : HookBench) (kind : HookKind) (property : String) :
    (bench.take kind property).2.journal = bench.journal := by
  unfold HookBench.take
  split
  next => rfl
  next => cases kind <;> rfl

theorem Undisturbed.of_note {bench : HookBench} {entry : JournalEntry}
    (h : Undisturbed (bench.note entry).journal) : Undisturbed bench.journal where
  removes := fun hm => h.removes (List.mem_append_left _ hm)
  pops := by
    intro earlier later heq
    refine h.pops earlier (later ++ [entry]) ?_
    rw [HookBench.note, heq, List.append_assoc, List.cons_append]

theorem Undisturbed.no_push_of_pop {bench : HookBench}
    (h : Undisturbed (bench.note (.began .pop)).journal) : pushesUnderWay bench.journal = 0 :=
  h.pops bench.journal [] rfl

theorem not_undisturbed_of_remove_failed (bench : HookBench) :
    ¬ Undisturbed (bench.note (.unhooked .remove false)).journal :=
  fun h => h.removes (List.mem_append_right _ (List.mem_singleton_self _))

theorem BenchWork.ends_noteEnd {α : Type} {entry : Bool → JournalEntry} {work : BenchWork α}
    {s : SectionStack × HookBench} {post : Except Failure α → SectionStack × HookBench → Prop} :
    (BenchWork.noteEnd entry work).Ends s post ↔
      work.Ends s fun r t => post r (t.1, t.2.note (entry r.isOk)) := by
  simp only [BenchWork.noteEnd, BenchWork.note, Work.ends_bind, Work.ends_attempt,
    Work.ends_modify, Work.ends_ofExcept]

/-- The frames of all properties as the last of the calls saw them. -/
def HookCall.framesAfter (calls : List HookCall) : String → List Frame :=
  match calls.getLast? with
  | none => fun _ => []
  | some call => call.stack.frames

theorem HookCall.framesAfter_append (calls : List HookCall) (call : HookCall) :
    HookCall.framesAfter (calls ++ [call]) = call.stack.frames := by
  simp only [HookCall.framesAfter, List.getLast?_concat]

/-- Each remove hook was called after a frame of its property was taken from those that the call
before it saw. -/
def HookCall.TakesFrames (calls : List HookCall) : Prop :=
  ∀ earlier call later, calls = earlier ++ call :: later → call.kind = .remove →
    ∃ frame, HookCall.framesAfter earlier call.property =
      frame :: call.stack.frames call.property

theorem HookCall.takesFrames_append {calls : List HookCall} {call : HookCall}
    (h : HookCall.TakesFrames calls)
    (hcall : call.kind = .remove → ∃ frame, HookCall.framesAfter calls call.property =
      frame :: call.stack.frames call.property) :
    HookCall.TakesFrames (calls ++ [call]) := by
  intro earlier other later heq
  rcases eq_or_eq_of_concat_eq heq with ⟨rfl, rfl⟩ | ⟨later', hcalls⟩
  · exact hcall
  · exact h earlier other later' hcalls

/-- What is set aside, and one more for each of the names. -/
def withNames (names : List String) (reserve : String → Nat) : String → Nat :=
  fun name => names.count name + reserve name

theorem withNames_nil (reserve : String → Nat) : withNames [] reserve = reserve := by
  funext name
  simp only [withNames, List.count_nil, Nat.zero_add]

theorem withNames_cons (first : String) (rest : List String) (reserve : String → Nat)
    (name : String) :
    withNames (first :: rest) reserve name =
      withNames rest reserve name + if name = first then 1 else 0 := by
  simp only [withNames, List.count_cons, beq_iff_eq, eq_comm (a := first)]
  omega

/-- Every property has the frames that the open sections list, and `reserve` beside them: frames
that suspended pops have still to take, or a surplus. There are no others unless the run was
disturbed; neither is one of the sections `held` closed then, to which suspended pushes write. -/
structure Balanced (reserve : String → Nat) (held : List Nat) (running : Nat)
    (s : SectionStack × HookBench) : Prop where
  covered : ∀ name, s.1.listings name + reserve name ≤ s.1.depth name
  even : Undisturbed s.2.journal → ∀ name, s.1.depth name = s.1.listings name + reserve name
  held : Undisturbed s.2.journal → ∀ serial ∈ held, serial ∈ s.1.serials
  running : pushesUnderWay s.2.journal = running
  heard : ∀ call ∈ s.2.hookCalls, ∀ name, call.stack.listings name ≤ call.stack.depth name
  taken : HookCall.TakesFrames s.2.hookCalls

/-- Between two changes of frames the last hook call has seen the frames as they are. -/
structure BalancedCalm (reserve : String → Nat) (held : List Nat) (running : Nat)
    (s : SectionStack × HookBench) : Prop extends Balanced reserve held running s where
  seen : s.1.frames = HookCall.framesAfter s.2.hookCalls

/-- A frame of the property was just pushed or taken, and the hook is still to be called. -/
structure BalancedStirred (reserve : String → Nat) (held : List Nat) (running : Nat)
    (kind : HookKind) (name : String) (s : SectionStack × HookBench) : Prop
    extends Balanced reserve held running s where
  found : kind = .remove →
    ∃ frame, HookCall.framesAfter s.2.hookCalls name = frame :: s.1.frames name

variable {reserve : String → Nat} {held : List Nat} {running : Nat}
  {st : SectionStack} {bench : HookBench}

theorem Balanced.change {serial? : Option Nat}
    (h : Balanced reserve (serial?.toList ++ held) running (st, bench)) (name : String)
    (value : Option String) :
    Balanced reserve ((st.change serial? name value).1 :: held) running
      ((st.change serial? name value).2, bench) := by
  have hopen : Undisturbed bench.journal → ∀ serial ∈ serial?, serial ∈ st.serials :=
    fun hu serial hs => h.held hu serial (List.mem_append_left _ (Option.mem_toList.mpr hs))
  refine ⟨fun other => ?_, fun hu other => ?_, fun hu serial hs => ?_, h.running, h.heard, h.taken⟩
  · have hcovered := h.covered other
    have hle := listings_change_le st serial? name other value
    simp only [depth_change] at hcovered ⊢
    omega
  · have heven := h.even hu other
    simp only [depth_change, listings_change_of_open (hopen hu)] at heven ⊢
    omega
  · rcases List.mem_cons.mp hs with rfl | hs
    · rw [serials_change]
      exact mem_serials_ownSection (hopen hu)
    · exact mem_serials_change (h.held hu serial (List.mem_append_right _ hs)) serial? name value

/-- A pop finds a frame of each name that it has still to take. -/
theorem Balanced.frames_eq_cons {first : String} {rest : List String}
    (h : Balanced (withNames (first :: rest) reserve) held running (st, bench)) :
    ∃ frame, st.frames first = frame :: (st.dropFrame first).frames first := by
  have hcovered := h.covered first
  rw [withNames_cons, if_pos rfl] at hcovered
  rw [frames_dropFrame, if_pos rfl]
  cases hframes : st.frames first with
  | nil =>
    simp only [depth, hframes, List.length_nil] at hcovered
    omega
  | cons frame others => exact ⟨frame, rfl⟩

theorem Balanced.drop {first : String} {rest : List String}
    (h : Balanced (withNames (first :: rest) reserve) held running (st, bench)) :
    Balanced (withNames rest reserve) held running (st.dropFrame first, bench) := by
  have hlistings : ∀ other, (st.dropFrame first).listings other = st.listings other :=
    listings_eq_of_sections (sections_dropFrame st first)
  refine ⟨fun other => ?_, fun hu other => ?_, fun hu serial hs => ?_, h.running, h.heard, h.taken⟩
  · have hcovered := h.covered other
    simp only [withNames_cons, depth_dropFrame, hlistings] at hcovered ⊢
    omega
  · have heven := h.even hu other
    simp only [withNames_cons, depth_dropFrame, hlistings] at heven ⊢
    omega
  · rw [serials_eq_of_sections (sections_dropFrame st first)]
    exact h.held hu serial hs

/-- A section that is closed leaves the frames it lists to the pop that closed it. If nothing was
disturbed, no push is under way then, so no section is held. -/
theorem Balanced.close {below : SectionStack} {closed : Section}
    (h : Balanced reserve held running (st, bench))
    (hclose : st.closeSection? = some (closed, below))
    (unheld : Undisturbed bench.journal → held = []) :
    Balanced (withNames closed.names reserve) held running (below, bench) := by
  refine ⟨fun other => ?_, fun hu other => ?_, fun hu serial hs => ?_, h.running, h.heard, h.taken⟩
  · have hcovered := h.covered other
    simp only [withNames, listings_of_closeSection? hclose, depth_of_closeSection? hclose]
      at hcovered ⊢
    omega
  · have heven := h.even hu other
    simp only [withNames, listings_of_closeSection? hclose, depth_of_closeSection? hclose]
      at heven ⊢
    omega
  · rw [unheld hu] at hs
    simp at hs

theorem Balanced.note (h : Balanced reserve held running (st, bench)) (entry : JournalEntry)
    (hentry : entry.hookCall? = none) :
    Balanced reserve held (entry.pushesAfter running) (st, bench.note entry) where
  covered := h.covered
  even := fun hu => h.even hu.of_note
  held := fun hu => h.held hu.of_note
  running := by rw [HookBench.pushesUnderWay_note, h.running]
  heard := by
    rw [HookBench.hookCalls_note_none bench hentry]
    exact h.heard
  taken := by
    rw [HookBench.hookCalls_note_none bench hentry]
    exact h.taken

theorem Balanced.release {s : SectionStack × HookBench} (serials : List Nat)
    (h : Balanced reserve (serials ++ held) running s) : Balanced reserve held running s :=
  { h with held := fun hu serial hs => h.held hu serial (List.mem_append_right _ hs) }

/-- A pop that is given up leaves the frames of its other names where they are. -/
theorem Balanced.abandon {names : List String} {s : SectionStack × HookBench}
    (h : Balanced (withNames names reserve) held running s)
    (disturbed : ¬ Undisturbed s.2.journal) : Balanced reserve held running s :=
  { h with
    covered := fun name => by
      have hcovered := h.covered name
      simp only [withNames] at hcovered
      omega
    even := fun hu => absurd hu disturbed }

namespace BalancedCalm

theorem note (h : BalancedCalm reserve held running (st, bench)) (entry : JournalEntry)
    (hentry : entry.hookCall? = none) :
    BalancedCalm reserve held (entry.pushesAfter running) (st, bench.note entry) where
  toBalanced := h.toBalanced.note entry hentry
  seen := by
    rw [HookBench.hookCalls_note_none bench hentry]
    exact h.seen

theorem release {s : SectionStack × HookBench} (serials : List Nat)
    (h : BalancedCalm reserve (serials ++ held) running s) : BalancedCalm reserve held running s :=
  ⟨h.toBalanced.release serials, h.seen⟩

end BalancedCalm

/-- Recording its call is what makes a hook see the frames as they are. -/
theorem BalancedStirred.record {kind : HookKind} {name : String}
    (h : BalancedStirred reserve held running kind name (st, bench)) (value : Option String) :
    BalancedCalm reserve held running (st, bench.note (.hooked ⟨kind, name, value, st⟩)) where
  covered := h.covered
  even := fun hu => h.even hu.of_note
  held := fun hu => h.held hu.of_note
  running := by
    rw [HookBench.pushesUnderWay_note]
    exact h.running
  heard := by
    intro call hcall other
    rw [HookBench.hookCalls_note_hooked, List.mem_append, List.mem_singleton] at hcall
    rcases hcall with hcall | rfl
    · exact h.heard call hcall other
    · exact Nat.le_trans (Nat.le_add_right _ _) (h.covered other)
  taken := by
    rw [HookBench.hookCalls_note_hooked]
    exact HookCall.takesFrames_append h.taken h.found
  seen := by rw [HookBench.hookCalls_note_hooked, HookCall.framesAfter_append]

/-- Told of a property whose frame was just pushed or taken, the hook keeps the balance, whatever is
reserved and held around its call. Sections are held only while pushes are under way. -/
def KeepsBalance (kind : HookKind) (hook : Hook Failure HookBench) : Prop :=
  ∀ reserve held running, (held ≠ [] → 0 < running) → ∀ name st bench,
    BalancedStirred reserve held running kind name (st, bench) →
    (hook name (st.latest name)).Ends (st, bench) fun r t =>
      BalancedCalm reserve held running t ∧
        (r.isOk = false → kind = .remove → ¬ Undisturbed t.2.journal)

theorem pushOffer_balanced {hook : Hook Failure HookBench} (keeps : KeepsBalance .push hook)
    (pushing : 0 < running) (serial? : Option Nat) (offer : Offer)
    (h : BalancedCalm reserve (serial?.toList ++ held) running (st, bench)) :
    (pushOffer hook serial? offer).Ends (st, bench) fun r t =>
      BalancedCalm reserve held running t ∧
        ∀ serial', r = .ok serial' → BalancedCalm reserve (serial'.toList ++ held) running t := by
  rw [ends_pushOffer]
  cases hc : st.changed? offer with
  | none =>
    refine ⟨h.release _, fun serial' hs => ?_⟩
    cases hs
    exact h
  | some name =>
    have hstirred : BalancedStirred reserve ((st.change serial? name offer.2).1 :: held) running
        .push name ((st.change serial? name offer.2).2, bench) :=
      ⟨h.toBalanced.change name offer.2, fun hk => nomatch hk⟩
    have htold : (st.change serial? name offer.2).2.latest name = offer.2 := by
      rw [latest_change, if_pos rfl]
    have hends := keeps _ _ running (fun _ => pushing) name _ bench hstirred
    rw [htold] at hends
    refine hends.imp ?_
    intro r t ht
    refine ⟨ht.1.release [_], fun serial' hs => ?_⟩
    cases r with
    | ok =>
      cases hs
      exact ht.1
    | error e => cases hs

theorem pushOffers_balanced {hook : Hook Failure HookBench} (keeps : KeepsBalance .push hook)
    (pushing : 0 < running) (serial? : Option Nat) (offers : List Offer)
    (h : BalancedCalm reserve (serial?.toList ++ held) running (st, bench)) :
    (pushOffers hook serial? offers).Ends (st, bench) fun _ t =>
      BalancedCalm reserve held running t := by
  induction offers generalizing serial? st bench with
  | nil => exact h.release _
  | cons offer rest ih =>
    rw [pushOffers, Work.ends_bind]
    refine (pushOffer_balanced keeps pushing serial? offer h).imp ?_
    intro r t ht
    cases r with
    | ok serial' => exact ih serial' (ht.2 serial' rfl)
    | error e => exact ht.1

theorem removeNames_balanced {hook : Hook Failure HookBench} (keeps : KeepsBalance .remove hook)
    (pushing : held ≠ [] → 0 < running) (names : List String)
    (h : BalancedCalm (withNames names reserve) held running (st, bench)) :
    (removeNames hook names).Ends (st, bench) fun _ t => BalancedCalm reserve held running t := by
  induction names generalizing st bench with
  | nil =>
    rw [withNames_nil] at h
    exact h
  | cons name rest ih =>
    have hfound : ∃ frame, HookCall.framesAfter bench.hookCalls name =
        frame :: (st.dropFrame name).frames name := by
      have hseen : st.frames = HookCall.framesAfter bench.hookCalls := h.seen
      rw [← hseen]
      exact h.frames_eq_cons
    have hstirred : BalancedStirred (withNames rest reserve) held running .remove name
        (st.dropFrame name, bench) := ⟨h.toBalanced.drop, fun _ => hfound⟩
    rw [removeNames, Work.ends_bind, ends_removeName]
    refine (keeps _ held running pushing name _ bench hstirred).imp ?_
    intro r t ht
    cases r with
    | ok => exact ih ht.1
    | error e => exact ⟨ht.1.toBalanced.abandon (ht.2 rfl rfl), ht.1.seen⟩

/-- One call keeps the balance if the hooks do. A pop that begins while a push is under way disturbs
the run, so it need not keep the sections that are held. -/
theorem StackCall.runNoted_balanced {hooks : HookKind → Hook Failure HookBench}
    (keeps : ∀ kind, KeepsBalance kind (hooks kind)) (pushing : held ≠ [] → 0 < running)
    (call : StackCall) : (call.runNoted hooks).Keeps (BalancedCalm reserve held running) := by
  intro start h
  obtain ⟨st, bench⟩ := start
  rw [StackCall.runNoted, BenchWork.note, Work.ends_bind, Work.ends_modify]
  simp only
  rw [BenchWork.ends_noteEnd]
  cases call with
  | push offers =>
    have hbegan := h.note (.began (.push offers)) rfl
    rw [StackCall.run, SectionStack.push, Work.ends_map, Work.ends_bind]
    refine (pushOffers_balanced (keeps .push) (Nat.succ_pos running) none offers hbegan).imp ?_
    intro r t ht
    cases r with
    | ok => exact ht.note (.ended (.push offers) true) rfl
    | error e => exact ht.note (.ended (.push offers) false) rfl
  | pop =>
    have hbegan := h.note (.began .pop) rfl
    have hunheld : Undisturbed (bench.note (.began .pop)).journal → held = [] := by
      intro hu
      by_contra hne
      have hrunning := h.running
      have hzero := hu.no_push_of_pop
      have hpos := pushing hne
      simp only at hrunning
      omega
    rw [StackCall.run, Work.ends_map, SectionStack.pop, Work.ends_bind, Work.ends_get]
    simp only
    split
    next => exact hbegan.note (.ended .pop true) rfl
    next closed below hclose =>
      have hseen : below.frames = HookCall.framesAfter (bench.note (.began .pop)).hookCalls := by
        rw [← hbegan.seen]
        exact funext (frames_of_closeSection? hclose)
      have hclosed : BalancedCalm (withNames closed.names reserve) held running
          (below, bench.note (.began .pop)) := ⟨hbegan.toBalanced.close hclose hunheld, hseen⟩
      rw [Work.ends_bind, Work.ends_set]
      refine (removeNames_balanced (keeps .remove) pushing closed.names hclosed).imp ?_
      intro r t ht
      exact ht.note (.ended .pop _) rfl

theorem heardHook_balanced {react : List HookAction → BenchWork Unit}
    (hreact : ∀ reserve held running, (held ≠ [] → 0 < running) →
      ∀ actions, (react actions).Keeps (BalancedCalm reserve held running))
    (kind : HookKind) : KeepsBalance kind (heardHook react kind) := by
  intro reserve held running pushing name st bench h
  have hrecorded := h.record (st.latest name)
  simp only [heardHook, BenchWork.note, BenchWork.take, Work.ends_bind, Work.ends_get,
    Work.ends_modify, Work.ends_modifyGet, BenchWork.ends_noteEnd]
  have htaken : BalancedCalm reserve held running (st, ((bench.note
      (.hooked ⟨kind, name, st.latest name, st⟩)).take kind name).2) := by
    refine ⟨⟨hrecorded.covered, ?_, ?_, ?_, ?_, ?_⟩, ?_⟩
    · rw [HookBench.journal_take]
      exact hrecorded.even
    · rw [HookBench.journal_take]
      exact hrecorded.held
    · rw [HookBench.journal_take]
      exact hrecorded.running
    · rw [HookBench.hookCalls_take]
      exact hrecorded.heard
    · rw [HookBench.hookCalls_take]
      exact hrecorded.taken
    · rw [HookBench.hookCalls_take]
      exact hrecorded.seen
  refine (hreact reserve held running pushing _ _ htaken).imp ?_
  intro r t ht
  refine ⟨ht.note (.unhooked kind _) rfl, fun hr hkind => ?_⟩
  rw [hr, hkind]
  exact not_undisturbed_of_remove_failed t.2

/-- By induction on how deeply hooks may call the stack. -/
theorem scriptedHook_balanced (depth : Nat) (kind : HookKind) :
    KeepsBalance kind (scriptedHook (fun _ => true) depth kind) := by
  induction depth generalizing kind with
  | zero => exact heardHook_balanced (fun _ _ _ _ _ => Work.keeps_pure _) kind
  | succ depth ih =>
    refine heardHook_balanced (fun _ _ _ pushing actions => ?_) kind
    exact HookAction.runAll_keeps (StackCall.runNoted_balanced ih pushing) actions

theorem runCaught_balanced (reserve : String → Nat) (calls : List StackCall) :
    (StackCall.runCaught (fun _ => true) calls).Keeps (BalancedCalm reserve [] 0) := by
  refine StackCall.runCaught_keeps (fun call s hs => ?_) calls
  rw [StackCall.runScripted, Work.ends_bind, Work.ends_get]
  exact StackCall.runNoted_balanced (scriptedHook_balanced s.2.remaining) (by simp) call s hs

theorem balancedCalm_start (onPush onRemove : List HookScript) :
    BalancedCalm (fun _ => 0) [] 0 (.empty, .ofScripts onPush onRemove) where
  covered := fun _ => Nat.le_refl 0
  even := fun _ _ => rfl
  held := fun _ _ h => nomatch h
  running := rfl
  heard := fun _ h => nomatch h
  taken := by
    intro earlier call later heq
    simp [HookBench.hookCalls, HookBench.ofScripts] at heq
  seen := rfl

/-- What a run leaves, read as the start of another: the surplus is reserved. -/
theorem BalancedCalm.reserve_surplus (h : BalancedCalm reserve [] 0 (st, bench)) :
    BalancedCalm st.surplus [] 0 (st, bench) := by
  have hle : ∀ name, st.listings name ≤ st.depth name :=
    fun name => Nat.le_trans (Nat.le_add_right _ _) (h.covered name)
  have heq : ∀ name, st.listings name + st.surplus name = st.depth name :=
    fun name => Nat.add_sub_cancel' (hle name)
  exact { h with
    covered := fun name => Nat.le_of_eq (heq name)
    even := fun _ name => (heq name).symm }

/-- However hooks fail or use the stack again: at every hook call and between the calls from
outside, a property has at least as many frames as the open sections list it, so every pop finds the
frames that it takes. Between calls from outside the surplus of frames never becomes less, and there
is none unless a failure came out of a remove hook or a pop began while a push was under way. -/
theorem frames_cover_open_sections (onPush onRemove : List HookScript)
    (calls more : List StackCall) :
    ∃ st bench st' bench',
      StackCall.runCaught (fun _ => true) calls (.empty, .ofScripts onPush onRemove) =
        .ok () (st, bench) ∧
      StackCall.runCaught (fun _ => true) (calls ++ more) (.empty, .ofScripts onPush onRemove) =
        .ok () (st', bench') ∧
      (∀ name, st.listings name ≤ st.depth name) ∧
      (∀ call ∈ bench.hookCalls, ∀ name, call.stack.listings name ≤ call.stack.depth name) ∧
      HookCall.TakesFrames bench.hookCalls ∧
      (∀ name, st.surplus name ≤ st'.surplus name) ∧
      (Undisturbed bench.journal → ∀ name, st.surplus name = 0) := by
  obtain ⟨⟨st, bench⟩, hrun⟩ := StackCall.runCaught_ok (fun _ => true) calls
    (.empty, .ofScripts onPush onRemove)
  obtain ⟨⟨st', bench'⟩, hmore⟩ := StackCall.runCaught_ok (fun _ => true) more (st, bench)
  have hstart := balancedCalm_start onPush onRemove
  have hbalanced := (Work.ends_of_ok hrun).mp (runCaught_balanced _ calls _ hstart)
  have hgrown := (Work.ends_of_ok hmore).mp
    (runCaught_balanced _ more _ hbalanced.reserve_surplus)
  refine ⟨st, bench, st', bench', hrun, ?_, hbalanced.covered, hbalanced.heard, hbalanced.taken,
    fun name => ?_, fun hu name => ?_⟩
  · rw [StackCall.runCaught_append _ calls more hrun, hmore]
  · have hcovered := hgrown.covered name
    simp only at hcovered
    unfold SectionStack.surplus at hcovered ⊢
    omega
  · have heven := hbalanced.even hu name
    simp only at heven
    unfold SectionStack.surplus
    omega

/-- A failure in the first remove hook of a pop leaves the frame of the other property behind. -/
example :
    (((StackCall.runCaught (fun _ => true)
      [.push [(some "a", some "1"), (some "b", some "2")], .pop]).leaves
        (.empty, .ofScripts [] [⟨some "a", [.fail "x"]⟩])).1.surplus "b") = 1 := by
  decide +kernel

end LogContext
