import LogContext.Proofs.ContextTracks

namespace LogContext

open ContextSpace

namespace ContextEntry

/-- What an entry says is what somebody with this view would say. -/
def ToldBy (v : ContextView) : ContextEntry → Prop
  | .opened _ => True
  | .acted step result seen => result = v.answer step ∧ v.Shows seen
  | .closed _ _ seen => v.Shows seen

end ContextEntry

namespace ContextLedger

/-- Every entry is told as the context sees it that runs once the entry is recorded. -/
def Tells (l : ContextLedger) : List ContextEntry → Prop
  | [] => True
  | entry :: rest =>
    entry.ToldBy ((l.record entry).view (l.record entry).current) ∧ (l.record entry).Tells rest

theorem tells_append {l : ContextLedger} {entries more : List ContextEntry} :
    l.Tells (entries ++ more) ↔ l.Tells entries ∧ (l.recordAll entries).Tells more := by
  induction entries generalizing l with
  | nil => exact ⟨fun h => ⟨trivial, h⟩, fun h => h.2⟩
  | cons entry rest ih =>
    have hrest := @ih (l.record entry)
    simp only [List.cons_append, Tells, hrest, recordAll, List.foldl_cons, and_assoc]

end ContextLedger

namespace ContextRun

open ContextLedger

variable {s : ContextRun} {l : ContextLedger} {numbers : List Nat} {waiting : List Context}

theorem Tracks.turnTo (h : Tracks s l numbers waiting) {i : Nat} (hlt : i < l.next)
    (idle : i ∉ l.current :: l.outer) {c : Context} (depicts : Depicts s c (l.view i)) :
    Tracks { s with space := s.space.switch c } (l.turnTo i) numbers (s.space.current :: waiting) := by
  have hadvances : Advances s { s with space := s.space.switch c } := .of_heap rfl rfl
  refine ⟨h.bounded, depicts.advance hadvances, ?_, ?_, h.length, h.named, h.names, h.scopes,
    h.numbered.turnTo hlt idle⟩
  · exact .cons (h.current.advance hadvances)
      (h.outer.imp fun _ _ hdepicts => hdepicts.advance hadvances)
  · intro j d k hj hk hidle
    have hidle' : k ∉ l.current :: l.outer := fun hm => hidle (List.mem_cons_of_mem _ hm)
    exact (h.saved j d k hj hk hidle').advance hadvances

theorem size_keepIn (s : ContextRun) (place : Option Nat) :
    (s.keepIn place).saved.size = s.saved.size := by
  cases place with
  | none => rfl
  | some j => simp [keepIn]

/-- A context that is left goes back to its place among the saved ones, or nobody meets it again. -/
theorem Tracks.turnBack {c : Context} (h : Tracks s l numbers (c :: waiting)) {place : Option Nat}
    (placed : match place with
      | some j => numbers[j]? = some l.current
      | none => l.current ∉ numbers) :
    Tracks { s.keepIn place with space := s.space.switch c } l.turnBack numbers waiting := by
  obtain ⟨o, rest, hback, hwaiting, houter⟩ := List.forall₂_cons_left_iff.mp h.outer
  have hadvances : Advances s { s.keepIn place with space := s.space.switch c } :=
    .of_heap rfl rfl
  have hnumbered := h.numbered.turnBack houter
  rw [turnBack_of_outer houter] at hnumbered ⊢
  have hrunning : ∀ k, k ≠ l.current → k ∉ o :: rest → k ∉ l.current :: l.outer := by
    intro k hne hidle hm
    rcases List.mem_cons.mp hm with heq | hm
    · exact hne heq
    · exact hidle (houter ▸ hm)
  refine ⟨h.bounded, hback.advance hadvances, ?_, ?_, ?_, ?_, h.names, h.scopes, hnumbered⟩
  · exact hwaiting.imp fun _ _ hdepicts => hdepicts.advance hadvances
  · intro j d k hj hk hidle
    refine Depicts.advance ?_ hadvances
    cases place with
    | none =>
      have hne : k ≠ l.current := fun eq => placed (eq ▸ List.mem_of_getElem? hk)
      exact h.saved j d k hj hk (hrunning k hne hidle)
    | some p =>
      have hsaved : (s.saved.setIfInBounds p s.space.current)[j]? = some d := hj
      rw [Array.getElem?_setIfInBounds] at hsaved
      by_cases heq : p = j
      · subst heq
        obtain rfl : k = l.current := Option.some.inj (hk.symm.trans placed)
        simp only [↓reduceIte] at hsaved
        split at hsaved
        next =>
          obtain rfl := Option.some.inj hsaved
          exact h.current
        next => cases hsaved
      · rw [if_neg heq] at hsaved
        have hne : k ≠ l.current := by
          rintro rfl
          obtain ⟨hbound, -⟩ := List.getElem?_eq_some_iff.mp hk
          exact heq ((List.getElem?_inj hbound h.numbered.savedOnce).mp (hk.trans placed.symm)).symm
        exact h.saved j d k hsaved hk (hrunning k hne hidle)
  · exact h.length.trans (s.size_keepIn place).symm
  · intro name j hj
    have hlt := h.named name j hj
    have hsize := s.size_keepIn place
    simp only [hsize]
    exact hlt

/-- A context without a name is a new one. -/
theorem Tracks.turnToNew (h : Tracks s l numbers waiting) {inherited : List ContextDeed}
    {c : Context} (depicts : Depicts s c (.replay inherited)) :
    Tracks { s with space := s.space.switch c } ((l.make inherited).turnTo l.next) numbers
      (s.space.current :: waiting) := by
  refine (h.make inherited).turnTo (by rw [next_make]; omega) (fun hm => ?_) ?_
  · exact Nat.lt_irrefl _ (h.numbered.running l.next hm)
  · rw [view_make_next h.numbered.done]
    exact depicts

theorem depicts_empty (s : ContextRun) : Depicts s .empty (.replay []) :=
  ⟨fun _ _ hfind => (nomatch hfind), rfl, rfl⟩

/-- What a run leads to: all its entries are told truly, the contexts that ran before run on, and
whatever was saved meanwhile is new. -/
def Follows (l : ContextLedger) (numbers : List Nat) (waiting : List Context)
    (entries : List ContextEntry) (last : ContextRun) : Prop :=
  l.Tells entries ∧ Resumes l (l.recordAll entries) ∧ ∃ more, (∀ i ∈ more, l.next ≤ i) ∧
    Tracks last (l.recordAll entries) (numbers ++ more) waiting

variable {after : ContextRun} {inner : List ContextEntry}

theorem close_application (h : Tracks s l numbers waiting) {name : Option String}
    (follows : Follows (l.note (.opened name)) numbers waiting inner after) :
    Resumes l (((l.note (.opened name)).recordAll inner).note .closed) ∧
      ∃ more, (∀ i ∈ more, l.next ≤ i) ∧
        Tracks { after with space := after.space.setApplication s.space.application }
          (((l.note (.opened name)).recordAll inner).note .closed) (numbers ++ more) waiting := by
  obtain ⟨-, hresumes, more, hmore, hafter⟩ := follows
  generalize (l.note (.opened name)).recordAll inner = l₂ at hresumes hafter ⊢
  have hcurrent : l₂.current = l.current := hresumes.current
  have hblocks : (l₂.view l₂.current).blocks =
      (l.view l.current).application :: (l.view l.current).blocks := by
    have hopened := hresumes.blocks l.current List.mem_cons_self
    rw [view_note_current] at hopened
    rw [hcurrent]
    exact hopened
  have hclosed := ContextView.apply_closed hblocks
  refine ⟨⟨hcurrent, hresumes.outer, hresumes.next_le, fun i hi => ?_⟩, more, hmore, ?_⟩
  · by_cases heq : i = l.current
    · rw [heq, ← hcurrent, view_note_current, hclosed, hcurrent]
    · rw [view_note_of_ne (hcurrent ▸ heq), hresumes.blocks i hi, view_note_of_ne heq]
  · refine hafter.note (.of_heap rfl rfl) hafter.bounded ?_ rfl rfl rfl (by rw [hclosed])
    rw [hclosed]
    exact ⟨hafter.current.sound, hafter.current.tables, h.current.application⟩

/-- The context in front of a block waits until the block is closed. -/
theorem close_switch {lm : ContextLedger} (made : Resumes l lm) {i : Nat} (hlt : i < lm.next)
    (place : Option Nat)
    (placed : match place with
      | some j => numbers[j]? = some i
      | none => i ∉ numbers)
    (follows : Follows (lm.turnTo i) numbers (s.space.current :: waiting) inner after) :
    Resumes l ((lm.turnTo i).recordAll inner).turnBack ∧
      ∃ more, (∀ i ∈ more, l.next ≤ i) ∧
        Tracks { after.keepIn place with space := after.space.switch s.space.current }
          ((lm.turnTo i).recordAll inner).turnBack (numbers ++ more) waiting := by
  obtain ⟨-, hresumes, more, hmore, hafter⟩ := follows
  generalize (lm.turnTo i).recordAll inner = l₂ at hresumes hafter ⊢
  have hcurrent : l₂.current = i := hresumes.current
  have houter : l₂.outer = l.current :: l.outer := by
    rw [← made.current, ← made.outer]
    exact hresumes.outer
  have hle : lm.next ≤ l₂.next := hresumes.next_le
  refine ⟨?_, more, fun k hk => Nat.le_trans made.next_le (hmore k hk), hafter.turnBack ?_⟩
  · rw [turnBack_of_outer houter]
    refine ⟨rfl, rfl, Nat.le_trans made.next_le hle, fun k hk => ?_⟩
    have hwaits : k ∈ (lm.turnTo i).current :: (lm.turnTo i).outer := by
      refine List.mem_cons_of_mem _ ?_
      rw [← made.current, ← made.outer] at hk
      exact hk
    exact (hresumes.blocks k hwaits).trans (made.blocks k hk)
  · rw [hcurrent]
    cases place with
    | none =>
      intro hm
      rcases List.mem_append.mp hm with hm | hm
      · exact placed hm
      · exact absurd (hmore i hm) (Nat.not_le.mpr hlt)
    | some j =>
      obtain ⟨hbound, -⟩ := List.getElem?_eq_some_iff.mp placed
      exact (List.getElem?_append_left hbound).trans placed

theorem Tracks.openInside (h : Tracks s l numbers waiting) {name : String}
    (allowed : l.allows (.opened (.inside name)) = true) :
    ∃ lm i, Resumes l lm ∧ i < lm.next ∧ l.openBlock (.inside name) = lm.turnTo i ∧
      (match s.names.find? name with
        | some j => numbers[j]? = some i
        | none => i ∉ numbers) ∧
      Tracks { s with space := s.space.switch (s.savedContext name) } (lm.turnTo i) numbers
        (s.space.current :: waiting) := by
  have hname := h.names name
  cases hfind : s.names.find? name with
  | none =>
    rw [hfind] at hname
    have hnew : l.openBlock (.inside name) = (l.make []).turnTo l.next := by
      rw [ContextLedger.openBlock, hname]
      rfl
    have hempty : s.savedContext name = .empty := by rw [savedContext, hfind]; rfl
    refine ⟨l.make [], l.next, resumes_make h.numbered [], by rw [next_make]; omega, hnew,
      fun hm => Nat.lt_irrefl _ (h.numbered.saved _ hm), ?_⟩
    rw [hempty]
    exact h.turnToNew (depicts_empty s)
  | some j =>
    have hj := h.named name j hfind
    have hbound : j < numbers.length := h.length ▸ hj
    have hnumber : numbers[j]? = some numbers[j] := List.getElem?_eq_getElem hbound
    have hsaved : s.saved[j]? = some (s.savedContext name) := by
      rw [savedContext, hfind, Option.bind_some, Array.getElem?_eq_getElem hj]
      rfl
    rw [hfind, Option.bind_some, hnumber] at hname
    have hidle : numbers[j] ∉ l.current :: l.outer := by
      simpa [allows, hname] using allowed
    have hturn : l.openBlock (.inside name) = l.turnTo numbers[j] := by
      rw [ContextLedger.openBlock, hname]
    have hlt := h.numbered.saved _ (List.getElem_mem hbound)
    exact ⟨l, numbers[j], .refl l, hlt, hturn, hnumber,
      h.turnTo hlt hidle (h.saved j _ _ hsaved hnumber hidle)⟩

theorem Tracks.close (h : Tracks s l numbers waiting) {head : ContextBlock}
    (allowed : l.allows (.opened head) = true)
    (body : ∀ waiting', Tracks { s with space := s.openBlock head } (l.openBlock head) numbers
      waiting' → Follows (l.openBlock head) numbers waiting' inner after) :
    (l.openBlock head).Tells inner ∧
      Resumes l (((l.openBlock head).recordAll inner).closeBlock head) ∧
      ∃ more, (∀ i ∈ more, l.next ≤ i) ∧ Tracks (closeBlock s after head).2
        (((l.openBlock head).recordAll inner).closeBlock head) (numbers ++ more) waiting := by
  have hnew : ∀ inherited, Resumes l (l.make inherited) ∧ l.next < (l.make inherited).next ∧
      l.next ∉ numbers := by
    intro inherited
    refine ⟨resumes_make h.numbered inherited, by rw [next_make]; omega, fun hm => ?_⟩
    exact Nat.lt_irrefl _ (h.numbered.saved _ hm)
  cases head with
  | application name failure =>
    have hopened : Tracks { s with space := s.space.setApplication name } (l.note (.opened name))
        numbers waiting :=
      h.note (.of_heap rfl rfl) h.bounded ⟨h.current.sound, h.current.tables, rfl⟩ rfl rfl rfl rfl
    have hbody := body waiting hopened
    exact ⟨hbody.1, close_application h hbody⟩
  | inside name =>
    obtain ⟨lm, i, hmade, hlt, hopen, hplaced, hopened⟩ := h.openInside allowed
    rw [hopen] at body ⊢
    have hbody := body _ hopened
    exact ⟨hbody.1, close_switch hmade hlt _ hplaced hbody⟩
  | copied =>
    obtain ⟨hmade, hlt, hplaced⟩ := hnew (l.history l.current)
    have hbody := body _ (h.turnToNew h.current)
    exact ⟨hbody.1, close_switch hmade hlt none hplaced hbody⟩
  | fresh =>
    obtain ⟨hmade, hlt, hplaced⟩ := hnew []
    have hbody := body _ (h.turnToNew (depicts_empty s))
    exact ⟨hbody.1, close_switch hmade hlt none hplaced hbody⟩

theorem Tracks.shows (h : Tracks s l numbers waiting) : (l.view l.current).Shows s.space :=
  ⟨h.current.entries, h.current.application⟩

theorem answer_act (v : ContextView) (step : ContextStep) :
    (v.act step).answer step = v.answer step := by
  cases step <;> rfl

theorem view_noteStep (h : l.Numbered numbers) (step : ContextStep) :
    (l.noteStep step).view l.current = (l.view l.current).act step := by
  have hnote : (l.note (.step step)).view l.current = (l.view l.current).act step :=
    view_note_current l (.step step)
  cases step with
  | save name =>
    have hlt : l.current < (l.note (.step (.save name))).next := h.running _ List.mem_cons_self
    exact (view_make hlt _).trans hnote
  | _ => exact hnote

/-- A step is a run. -/
theorem Tracks.acted (h : Tracks s l numbers waiting) {step : ContextStep}
    (allowed : l.allows (.acted step (s.step step).1 (s.step step).2.space) = true) :
    Follows l numbers waiting [.acted step (s.step step).1 (s.step step).2.space]
      (s.step step).2 := by
  obtain ⟨more, hmore, hafter⟩ := h.step allowed
  obtain ⟨-, hanswer⟩ := h.step_answer allowed
  have hresumes := resumes_noteStep h.numbered step
  have htold : (s.step step).1 =
      ((l.noteStep step).view (l.noteStep step).current).answer step := by
    rw [hresumes.current, view_noteStep h.numbered, answer_act, hanswer]
  exact ⟨⟨⟨htold, hafter.shows⟩, trivial⟩, hresumes, more, hmore, hafter⟩

/-- So is a block, if its body is one. -/
theorem Tracks.block (h : Tracks s l numbers waiting) {head : ContextBlock}
    (allowed : l.allows (.opened head) = true)
    (body : ∀ waiting', Tracks { s with space := s.openBlock head } (l.openBlock head) numbers
      waiting' → Follows (l.openBlock head) numbers waiting' inner after) :
    Follows l numbers waiting (.opened head :: inner ++
      [.closed head (closeBlock s after head).1 (closeBlock s after head).2.space])
      (closeBlock s after head).2 := by
  obtain ⟨htells, hresumes, more, hmore, hafter⟩ := h.close allowed body
  have hrecorded : l.recordAll (.opened head :: inner ++
      [.closed head (closeBlock s after head).1 (closeBlock s after head).2.space]) =
      ((l.openBlock head).recordAll inner).closeBlock head := by
    rw [recordAll_append]
    rfl
  refine ⟨⟨trivial, tells_append.mpr ⟨htells, hafter.shows, trivial⟩⟩, ?_, more, hmore, ?_⟩
  · rw [hrecorded]
    exact hresumes
  · rw [hrecorded]
    exact hafter

theorem Follows.trans {entries rest : List ContextEntry} {last : ContextRun}
    (first : Follows l numbers waiting entries after)
    (second : ∀ numbers', Tracks after (l.recordAll entries) numbers' waiting →
      Follows (l.recordAll entries) numbers' waiting rest last) :
    Follows l numbers waiting (entries ++ rest) last := by
  obtain ⟨htells, hresumes, more, hmore, hafter⟩ := first
  obtain ⟨htells', hresumes', others, hothers, hlast⟩ := second _ hafter
  refine ⟨tells_append.mpr ⟨htells, htells'⟩, ?_, more ++ others, fun i hm => ?_, ?_⟩
  · rw [recordAll_append]
    exact hresumes.trans hresumes'
  · rcases List.mem_append.mp hm with hm | hm
    · exact hmore i hm
    · exact Nat.le_trans hresumes.next_le (hothers i hm)
  · rw [recordAll_append, ← List.append_assoc]
    exact hlast

theorem run_act (step : ContextStep) (rest : Program ContextStep ContextBlock) (s : ContextRun) :
    run (.act step rest) s =
      ([.acted step (s.step step).1 (s.step step).2.space] ++ (run rest (s.step step).2).1,
        (run rest (s.step step).2).2) := rfl

theorem run_block (head : ContextBlock) (body rest : Program ContextStep ContextBlock)
    (s : ContextRun) :
    run (.block head body rest) s =
      let opened := run body { s with space := s.openBlock head }
      let closed := closeBlock s opened.2 head
      ((.opened head :: opened.1 ++ [.closed head closed.1 closed.2.space]) ++
        (run rest closed.2).1, (run rest closed.2).2) := by
  simp only [run, List.cons_append, List.append_assoc, List.nil_append]

/-- By induction on the program: what one step and one block preserve, a run preserves. -/
theorem run_follows (program : Program ContextStep ContextBlock) (h : Tracks s l numbers waiting)
    (allowed : l.allowsAll (run program s).1 = true) :
    Follows l numbers waiting (run program s).1 (run program s).2 := by
  induction program generalizing s l numbers waiting with
  | done =>
    refine ⟨trivial, .refl l, [], fun i hm => absurd hm List.not_mem_nil, ?_⟩
    rw [List.append_nil]
    exact h
  | act step rest ih =>
    rw [run_act] at allowed ⊢
    obtain ⟨hstep, hrest⟩ := allowsAll_append.mp allowed
    have hallowed := (Bool.and_eq_true_iff.mp hstep).1
    exact (h.acted hallowed).trans fun _ hafter => ih hafter hrest
  | block head body rest ihbody ihrest =>
    rw [run_block] at allowed ⊢
    obtain ⟨hblock, hrest⟩ := allowsAll_append.mp allowed
    rw [List.cons_append, allowsAll, Bool.and_eq_true] at hblock
    obtain ⟨hopen, hbody⟩ := hblock
    have hinner := (allowsAll_append.mp hbody).1
    have hfollows := h.block hopen fun waiting' hopened => ihbody hopened hinner
    exact hfollows.trans fun _ hafter => ihrest hafter hrest

theorem tracks_start : Tracks .start .start [] [] where
  bounded := fun ref hm => absurd hm (Array.not_mem_empty ref)
  current := depicts_empty .start
  outer := .nil
  saved := fun _ _ _ hfind => nomatch hfind
  length := rfl
  named := fun _ _ hfind => nomatch hfind
  names := fun _ => rfl
  scopes := fun _ _ hfind => nomatch hfind
  numbered := by
    refine ⟨fun _ hm => absurd hm List.not_mem_nil, fun i hm => ?_,
      fun _ hm => absurd hm List.not_mem_nil, fun _ _ hfind => (nomatch hfind),
      by simp [ContextLedger.start], List.nodup_nil⟩
    obtain rfl := List.mem_singleton.mp hm
    exact Nat.one_pos

end ContextRun

/-- Contexts share their tables, and tables can be changed in place by whoever was given a copy. Still,
at every moment of every run, a context sees the entries and the application that it would see alone:
after what was done in it, and before that in those it was copied from, and nothing else. -/
theorem contexts_see_their_own_history (program : Program ContextStep ContextBlock)
    (allowed : ContextLedger.start.allowsAll (ContextRun.run program .start).1 = true)
    (past : List ContextEntry) (entry : ContextEntry)
    (passed : past ++ [entry] <+: (ContextRun.run program .start).1) :
    let ledger := ContextLedger.start.recordAll (past ++ [entry])
    entry.ToldBy (.replay (ledger.history ledger.current)) := by
  obtain ⟨htells, -⟩ := ContextRun.run_follows program ContextRun.tracks_start allowed
  obtain ⟨rest, hentries⟩ := passed
  rw [← hentries] at htells
  have hpast := (ContextLedger.tells_append.mp htells).1
  have hledger : ContextLedger.start.recordAll (past ++ [entry]) =
      (ContextLedger.start.recordAll past).record entry :=
    ContextLedger.recordAll_append _ past [entry]
  simp only [hledger]
  exact (ContextLedger.tells_append.mp hpast).2.1

/-- A saved context that is entered twice, a copy of another one, a thread, and a copy of the entries
that is changed in a context that did not ask for it. -/
def jobsProgram : Program ContextStep ContextBlock :=
  .act (.put "s" "a" "1") <| .act (.snapshot "s" [("b", "2")]) <| .act (.save "job") <|
  .act (.enter "scope" (some "shop")) <|
  .block (.inside "job") (.act (.put "s" "c" "3") <| .act (.alter 0 [("a", none)]) <|
    .act (.remove "s" "a") <| .act (.put "s" "a" "4") .done) <|
  .block .copied (.block (.application (some "desk") none) (.act (.put "s" "a" "5") .done) .done) <|
  .block .fresh (.act (.get "s" "a") .done) <|
  .act (.leave "scope") <|
  .block (.inside "job") (.act (.get "s" "a") .done) .done

def jobsTrace : List ContextEntry := (ContextRun.run jobsProgram .start).1

/-- What is seen when the saved context is entered for the second time. -/
theorem contexts_see_their_own_history_of_jobs :
    ContextLedger.start.allowsAll jobsTrace = true ∧
    (∃ entry, jobsTrace.take 20 ++ [entry] <+: jobsTrace ∧
      entry.ToldBy (.replay ((ContextLedger.start.recordAll (jobsTrace.take 21)).history 1))) ∧
    ((ContextView.replay ((ContextLedger.start.recordAll (jobsTrace.take 21)).history 1)).tables
      "s").pairs = [("c", "3"), ("a", "4")] := by
  have hallowed : ContextLedger.start.allowsAll jobsTrace = true := by decide +kernel
  have hlength : 20 < jobsTrace.length := by decide +kernel
  have htake : jobsTrace.take 20 ++ [jobsTrace[20]] = jobsTrace.take 21 :=
    List.take_append_getElem hlength
  have hpassed : jobsTrace.take 20 ++ [jobsTrace[20]] <+: jobsTrace := by
    rw [htake]
    exact List.take_prefix 21 jobsTrace
  have htold := contexts_see_their_own_history jobsProgram hallowed _ _ hpassed
  have hcurrent : (ContextLedger.start.recordAll (jobsTrace.take 21)).current = 1 := by
    decide +kernel
  simp only [htake, hcurrent] at htold
  exact ⟨hallowed, ⟨jobsTrace[20], hpassed, htold⟩, by decide +kernel⟩

end LogContext
