import LogContext.Proofs.DisjointKeys
import LogContext.Proofs.FetchedSection

namespace LogContext

/-- What the user of a projection learns from a move: how it ended, and what stack and which entries
under active keys there are afterwards. -/
structure Experience (ε : Type) where
  result : Except ε (Option Bool)
  stack : SectionStack
  held : List (Option String)

namespace Projection

variable {ε σ κ ρ : Type} {p : κ → Projection ε σ} {stored : σ → Snapshot} {asked : κ → σ → ρ}

/-- The resolver and the reports of each projection answer from what is `asked` of them, and only
the resolver and the reports of that projection may change it. -/
structure AnswersApart (p : κ → Projection ε σ) (asked : κ → σ → ρ) : Prop where
  application : ∀ k,
    Work.Matches (fun s t => asked k t = asked k s) (p k).application (p k).application
  report : ∀ k message sections, Work.Matches (fun s t => asked k t = asked k s)
    ((p k).report message sections) ((p k).report message sections)
  lookUp : ∀ j k key s, asked k (((p j).lookUp key).leaves s) = asked k s
  put : ∀ j k key value s, asked k (((p j).put key value).leaves s) = asked k s
  remove : ∀ j k key s, asked k (((p j).remove key).leaves s) = asked k s
  application_of_ne : ∀ j k, j ≠ k → ∀ s, asked k ((p j).application.leaves s) = asked k s
  report_of_ne : ∀ j k, j ≠ k → ∀ message sections s,
    asked k (((p j).report message sections).leaves s) = asked k s

/-- Two states are the same to a projection: in its own entries, and in what is asked of its
resolver and its reports. -/
def SameTo (p : κ → Projection ε σ) (stored : σ → Snapshot) (asked : κ → σ → ρ) (k : κ)
    (s t : σ) : Prop :=
  (∀ key ∈ (p k).config.propertyNames, stored t key = stored s key) ∧ asked k t = asked k s

theorem SameTo.of_stored_eq {k : κ} {s t s' t' : σ} (h : SameTo p stored asked k s t)
    (hs : stored s' = stored s) (ht : stored t' = stored t) (hasked : asked k t' = asked k s') :
    SameTo p stored asked k s' t' := by
  refine ⟨fun key hkey => ?_, hasked⟩
  rw [hs, ht]
  exact h.1 key hkey

theorem matches_sameTo_of_update {work : Work ε σ Unit} {k : κ} {key : String}
    {value : Option String}
    (written : ∀ s, ∃ t, work s = .ok () t ∧ stored t = Function.update (stored s) key value)
    (unasked : ∀ s, asked k (work.leaves s) = asked k s) :
    Work.Matches (SameTo p stored asked k) work work := by
  refine Work.matches_of_leaves fun s t h => ?_
  obtain ⟨s', hs, hstored⟩ := written s
  obtain ⟨t', ht, hstored'⟩ := written t
  have hasked := unasked s
  have hasked' := unasked t
  rw [Work.leaves_of_ok hs] at hasked ⊢
  rw [Work.leaves_of_ok ht] at hasked' ⊢
  rw [Work.outcome_of_ok hs, Work.outcome_of_ok ht]
  refine ⟨rfl, fun other ho => ?_, by rw [hasked', hasked, h.2]⟩
  rw [hstored, hstored', Function.update_apply, Function.update_apply, h.1 other ho]

theorem keeps_sameTo_of_update {work : Work ε σ Unit} {k : κ} {key : String}
    {value : Option String}
    (written : ∀ s, ∃ t, work s = .ok () t ∧ stored t = Function.update (stored s) key value)
    (unasked : ∀ s, asked k (work.leaves s) = asked k s)
    (foreign : key ∉ (p k).config.propertyNames) (t : σ) :
    work.Keeps fun s => SameTo p stored asked k s t := by
  intro s h
  obtain ⟨s', hs, hstored⟩ := written s
  have hasked := unasked s
  rw [Work.leaves_of_ok hs] at hasked
  rw [Work.ends_of_ok hs]
  refine ⟨fun other ho => ?_, h.2.trans hasked.symm⟩
  have hother : other ≠ key := fun eq => foreign (eq ▸ ho)
  rw [hstored, Function.update_of_ne hother]
  exact h.1 other ho

section

variable (owns : ∀ k, (p k).Owns stored) (apart : AnswersApart p asked)

include owns apart

theorem alike_sameTo (k : κ) : Alike (SameTo p stored asked k) (p k) (p k) where
  config := rfl
  lookUp := by
    intro key hkey
    refine Work.matches_of_leaves fun s t h => ?_
    obtain ⟨s', hs, hstored⟩ := (owns k).lookUp key s
    obtain ⟨t', ht, hstored'⟩ := (owns k).lookUp key t
    have hasked := apart.lookUp k k key s
    have hasked' := apart.lookUp k k key t
    rw [Work.leaves_of_ok hs] at hasked ⊢
    rw [Work.leaves_of_ok ht] at hasked' ⊢
    rw [Work.outcome_of_ok hs, Work.outcome_of_ok ht, h.1 key hkey]
    exact ⟨rfl, h.of_stored_eq hstored hstored' (by rw [hasked', hasked, h.2])⟩
  put := fun key value =>
    matches_sameTo_of_update ((owns k).put key value) (apart.put k k key value)
  remove := fun key => matches_sameTo_of_update ((owns k).remove key) (apart.remove k k key)
  application := by
    refine Work.matches_of_leaves fun s t h => ?_
    obtain ⟨houtcome, hasked⟩ := (apart.application k).leaves h.2
    exact ⟨houtcome, h.of_stored_eq ((owns k).application s) ((owns k).application t) hasked⟩
  report := by
    intro message sections
    refine Work.matches_of_leaves fun s t h => ?_
    obtain ⟨houtcome, hasked⟩ := (apart.report k message sections).leaves h.2
    exact ⟨houtcome, h.of_stored_eq ((owns k).report message sections s)
      ((owns k).report message sections t) hasked⟩

variable (disjoint : ∀ j k, j ≠ k →
  (p j).config.propertyNames.Disjoint (p k).config.propertyNames)

include disjoint

/-- Other projections never meet the entries of this one, nor what is asked of it. -/
theorem harmless_sameTo {j k : κ} (hne : j ≠ k) (t : σ) :
    (p j).Harmless fun s => SameTo p stored asked k s t where
  lookUp := by
    intro key _ s h
    obtain ⟨s', hs, hstored⟩ := (owns j).lookUp key s
    have hasked := apart.lookUp j k key s
    rw [Work.leaves_of_ok hs] at hasked
    rw [Work.ends_of_ok hs]
    exact h.of_stored_eq hstored rfl (h.2.trans hasked.symm)
  put := fun key hkey value => keeps_sameTo_of_update ((owns j).put key value)
    (apart.put j k key value) (fun ho => disjoint j k hne hkey ho) t
  remove := fun key hkey => keeps_sameTo_of_update ((owns j).remove key) (apart.remove j k key)
    (fun ho => disjoint j k hne hkey ho) t
  application := by
    intro s h
    refine Work.ends_leaves.mpr (h.of_stored_eq ((owns j).application s) rfl ?_)
    rw [apart.application_of_ne j k hne, h.2]
  report := by
    intro message sections s h
    refine Work.ends_leaves.mpr (h.of_stored_eq ((owns j).report message sections s) rfl ?_)
    rw [apart.report_of_ne j k hne, h.2]

end

section Interleaving

variable [DecidableEq κ]

/-- A move of one of several users, each of whom has a stack of its own. -/
def moveOf (p : κ → Projection ε σ) (k : κ) (move : ProjectionMove ε) :
    Work ε ((κ → ProjectionUse) × σ) (Option Bool) :=
  (move.run (p k)).within (fun s => (s.1 k, s.2)) fun t s => (Function.update s.1 k t.1, t.2)

def experience (p : κ → Projection ε σ) (stored : σ → Snapshot) (k : κ) (move : ProjectionMove ε)
    (s : (κ → ProjectionUse) × σ) : Experience ε where
  result := (moveOf p k move).outcome s
  stack := (((moveOf p k move).leaves s).1 k).stack
  held := (p k).config.propertyNames.map (stored ((moveOf p k move).leaves s).2)

/-- Moves one after the other, also when some of them fail. -/
def observed (p : κ → Projection ε σ) (stored : σ → Snapshot) :
    List (κ × ProjectionMove ε) → (κ → ProjectionUse) × σ → List (κ × Experience ε)
  | [], _ => []
  | (k, move) :: rest, s =>
    (k, experience p stored k move s) :: observed p stored rest ((moveOf p k move).leaves s)

/-- What `k` does alone in `t` looks to it like what happens among others in `s`. -/
structure Shadows (p : κ → Projection ε σ) (stored : σ → Snapshot) (asked : κ → σ → ρ) (k : κ)
    (s t : (κ → ProjectionUse) × σ) : Prop where
  use : t.1 k = s.1 k
  shared : SameTo p stored asked k s.2 t.2
  tidy : ∀ j, SectionStack.ListsOnly (p j).Active (s.1 j).stack

variable {k : κ} {s t : (κ → ProjectionUse) × σ}

theorem tidy_move (h : ∀ j, SectionStack.ListsOnly (p j).Active (s.1 j).stack) (k : κ)
    (move : ProjectionMove ε) (j : κ) :
    SectionStack.ListsOnly (p j).Active (((moveOf p k move).leaves s).1 j).stack := by
  have hmove := ((p k).respects_true.harmless.move move).leaves (s := (s.1 k, s.2)) ⟨h k, trivial⟩
  rw [moveOf, Work.leaves_within]
  by_cases eq : j = k
  · subst eq
    simp only [Function.update_self]
    exact hmove.1
  · simp only [Function.update_of_ne eq]
    exact h j

section

variable (owns : ∀ k, (p k).Owns stored) (apart : AnswersApart p asked)

include owns apart

theorem Shadows.move (h : Shadows p stored asked k s t) (move : ProjectionMove ε) :
    experience p stored k move t = experience p stored k move s ∧
    Shadows p stored asked k ((moveOf p k move).leaves s) ((moveOf p k move).leaves t) := by
  have hmatch := ((alike_sameTo owns apart k).move move).leaves
    (s := (s.1 k, s.2)) (t := (t.1 k, t.2)) ⟨h.use, h.shared⟩
  obtain ⟨houtcome, huse, hshared⟩ := hmatch
  have hafter : Shadows p stored asked k ((moveOf p k move).leaves s)
      ((moveOf p k move).leaves t) := by
    refine ⟨?_, ?_, tidy_move h.tidy k move⟩
    · simp only [moveOf, Work.leaves_within, Function.update_self]
      exact huse
    · simp only [moveOf, Work.leaves_within]
      exact hshared
  have hheld : (p k).config.propertyNames.map (stored ((moveOf p k move).leaves t).2) =
      (p k).config.propertyNames.map (stored ((moveOf p k move).leaves s).2) :=
    List.map_congr_left hafter.shared.1
  refine ⟨?_, hafter⟩
  rw [experience, experience, hafter.use, hheld, moveOf, Work.outcome_within, Work.outcome_within,
    houtcome]

variable (disjoint : ∀ j k, j ≠ k →
  (p j).config.propertyNames.Disjoint (p k).config.propertyNames)

include disjoint

theorem Shadows.move_of_ne {j : κ} (hne : j ≠ k) (h : Shadows p stored asked k s t)
    (move : ProjectionMove ε) : Shadows p stored asked k ((moveOf p j move).leaves s) t := by
  have hother := ((harmless_sameTo owns apart disjoint hne t.2).move move).leaves
    (s := (s.1 j, s.2)) ⟨h.tidy j, h.shared⟩
  refine ⟨?_, ?_, tidy_move h.tidy j move⟩
  · simp only [moveOf, Work.leaves_within, Function.update_of_ne hne.symm]
    exact h.use
  · simp only [moveOf, Work.leaves_within]
    exact hother.2

theorem Shadows.observed_eq (h : Shadows p stored asked k s t)
    (moves : List (κ × ProjectionMove ε)) :
    (observed p stored moves s).filter (·.1 = k) =
      observed p stored (moves.filter (·.1 = k)) t := by
  induction moves generalizing s t with
  | nil => rfl
  | cons first rest ih =>
    obtain ⟨j, move⟩ := first
    rw [observed]
    by_cases eq : j = k
    · subst eq
      obtain ⟨hsame, hafter⟩ := h.move owns apart move
      rw [List.filter_cons_of_pos (by simp), List.filter_cons_of_pos (by simp), observed, hsame,
        ih hafter]
    · rw [List.filter_cons_of_neg (by simpa using eq), List.filter_cons_of_neg (by simpa using eq)]
      exact ih (h.move_of_ne owns apart disjoint eq move)

end

/-- Projections share a store that never fails, and no two of them have an active key in common.
However their moves are interleaved, each of them has the results, the stacks and the entries that
its own moves have when nobody else does anything. -/
theorem disjoint_projections_do_not_interfere (p : κ → Projection ε σ)
    (owns : ∀ k, (p k).Owns stored)
    (disjoint : ∀ j k, j ≠ k → (p j).config.propertyNames.Disjoint (p k).config.propertyNames)
    (apart : AnswersApart p asked) (moves : List (κ × ProjectionMove ε)) (s : σ) (k : κ) :
    (observed p stored moves (fun _ => .start, s)).filter (·.1 = k) =
      observed p stored (moves.filter (·.1 = k)) (fun _ => .start, s) := by
  have hstart : Shadows p stored asked k (fun _ => ProjectionUse.start, s)
      (fun _ => ProjectionUse.start, s) :=
    ⟨rfl, ⟨fun _ _ => rfl, rfl⟩, fun _ => SectionStack.listsOnly_empty⟩
  exact hstart.observed_eq owns apart disjoint moves

end Interleaving

end Projection

namespace World

/-- What the resolver of a projection answers from. -/
def asked (index : Nat) (w : World) : Option String × Option (List (Option String)) :=
  (w.space.application, w.answers[index]?)

variable {backing : Backing} {index : Nat}

theorem unlogged_asked (index : Nat) (r : Option String × Option (List (Option String))) :
    Unlogged fun w => asked index w = r :=
  fun _ _ _ _ _ h => h

theorem asked_of_space {w : World} {space : ContextSpace}
    (h : space.application = w.space.application) : asked index { w with space } = asked index w := by
  rw [asked, asked, h]

theorem asked_lookUp (key : String) (w : World) :
    asked index ((lookUp backing key).leaves w) = asked index w := by
  have hkeeps : (lookUp backing key).Keeps fun v => asked index v = asked index w :=
    keeps_lookUp ((unlogged_asked index _).note _) fun name v hv =>
      (asked_of_space (ContextSpace.application_get v.space name key)).trans hv
  exact hkeeps.leaves rfl

theorem asked_put (key value : String) (w : World) :
    asked index ((put backing key value).leaves w) = asked index w := by
  refine (keeps_put ((unlogged_asked index (asked index w)).note _) fun v hv => ?_).leaves rfl
  cases backing with
  | recording refused => exact hv
  | contextual name =>
    exact (asked_of_space (ContextSpace.application_put v.space name key value)).trans hv

theorem asked_remove (key : String) (w : World) :
    asked index ((remove backing key).leaves w) = asked index w := by
  refine (keeps_remove ((unlogged_asked index (asked index w)).note _) fun v hv => ?_).leaves rfl
  cases backing with
  | recording refused => exact hv
  | contextual name =>
    exact (asked_of_space (ContextSpace.application_remove v.space name key)).trans hv

theorem resolve_matches (resolver : Resolver) :
    Work.Matches (fun s t => asked index t = asked index s) (resolve index resolver)
      (resolve index resolver) := by
  have hnote : Work.Matches (ε := Failure) (fun s t => asked index t = asked index s)
      (note .resolved) (note .resolved) := Work.matches_modify fun _ _ h => h
  cases resolver with
  | ambient =>
    refine Work.matches_of_leaves fun s t h => ⟨?_, h⟩
    have happlication : t.space.application = s.space.application := congrArg Prod.fst h
    exact congrArg Except.ok happlication
  | answers names =>
    refine hnote.bind fun _ => Work.matches_of_leaves fun s t h => ?_
    have happlication : t.space.application = s.space.application := congrArg Prod.fst h
    have hanswers : t.answers[index]? = s.answers[index]? := congrArg Prod.snd h
    refine ⟨?_, ?_⟩
    · exact congrArg (fun left => Except.ok (nextAnswer (left.getD [])).1) hanswers
    · refine Prod.ext happlication ?_
      simp only [Work.leaves_modifyGet, asked, hanswers, List.getElem?_set_self']
  | failing message => exact hnote.bind fun _ => Work.matches_throw _

theorem asked_resolve_of_ne {other : Nat} (hne : index ≠ other) (resolver : Resolver) (w : World) :
    asked other ((resolve index resolver).leaves w) = asked other w := by
  have hnote := (unlogged_asked other (asked other w)).note .resolved
  have hkeeps : (resolve index resolver).Keeps fun v => asked other v = asked other w := by
    cases resolver with
    | ambient => exact Work.keeps_get.bind fun _ => Work.keeps_pure _
    | answers names =>
      refine hnote.bind fun _ => Work.keeps_modifyGet fun v hv => ?_
      rw [← hv]
      simp only [asked, List.getElem?_set_ne hne]
    | failing message => exact hnote.bind fun _ => Work.keeps_throw _
  exact hkeeps.leaves rfl

end World

open World

/-- Resolvers that are given answers take each their own. -/
theorem Setup.answersApart_projections (setup : Setup) {n : Nat} (ps : Fin n → ProjectionSetup) :
    Projection.AnswersApart (fun k : Fin n => setup.projection k (ps k))
      fun k w => asked k w where
  application := fun k => resolve_matches (ps k).resolver
  report := by
    intro k message sections
    refine Work.matches_of_leaves fun s t h => ?_
    have hs := ((unlogged_asked k (asked k s)).report setup k (ps k) message
      sections).leaves rfl
    have ht := ((unlogged_asked k (asked k t)).report setup k (ps k) message
      sections).leaves rfl
    obtain ⟨s', hends⟩ := setup.reportsSucceed_projection k (ps k) message sections s
    obtain ⟨t', hends'⟩ := setup.reportsSucceed_projection k (ps k) message sections t
    refine ⟨?_, by rw [hs, ht, h]⟩
    rw [Work.outcome_of_ok hends, Work.outcome_of_ok hends']
  lookUp := fun _ _ key w => asked_lookUp key w
  put := fun _ _ key value w => asked_put key value w
  remove := fun _ _ key w => asked_remove key w
  application_of_ne := fun _ _ hne w =>
    asked_resolve_of_ne (fun eq => hne (Fin.ext eq)) _ w
  report_of_ne := fun j k _ message sections w =>
    ((unlogged_asked k (asked k w)).report setup j (ps j) message sections).leaves rfl

def sharingSetups : Fin 2 → ProjectionSetup
  | 0 => ⟨.standard, .answers [some "shop", some "desk"], none⟩
  | 1 => ⟨Config.disabled.set .tenantId (some "tenant"), .failing "no application", none⟩

/-- Two projections write into one store, under different keys. -/
def sharingSetup : Setup where
  backing := .recording []
  initial := [("tenantId", "left over"), ("tenant", "early")]
  projections := [sharingSetups 0, sharingSetups 1]
  clock := 0
  clockStep := 1
  sink := .discard

def sharingProjections (k : Fin 2) : Projection Failure World :=
  sharingSetup.projection k (sharingSetups k)

/-- Sections that overlap, of which the second is left after the first. -/
def overlappingMoves : List (Fin 2 × ProjectionMove Failure) :=
  [(1, .call .fetch), (0, .enter 0 (.ofExecution { tenantId := some "t0" })),
    (1, .enter 0 (.ofExecution { tenantId := some "t1" })), (0, .leave 0), (1, .call .sync),
    (0, .call .clear), (1, .leave 0)]

theorem Projection.disjoint_projections_do_not_interfere_overlapping :
    (∀ k, (sharingProjections k).Owns (stored sharingSetup.backing)) ∧
    (∀ j k, j ≠ k → (sharingProjections j).config.propertyNames.Disjoint
      (sharingProjections k).config.propertyNames) ∧
    AnswersApart sharingProjections (fun k w => asked k w) ∧
    (∀ k, (observed sharingProjections (stored sharingSetup.backing) overlappingMoves
        (fun _ => .start, sharingSetup.world)).filter (·.1 = k) =
      observed sharingProjections (stored sharingSetup.backing)
        (overlappingMoves.filter (·.1 = k)) (fun _ => .start, sharingSetup.world)) ∧
    ((observed sharingProjections (stored sharingSetup.backing) overlappingMoves
      (fun _ => .start, sharingSetup.world)).filter (·.1 = 1)).map (·.2.held) =
        [[some "early"], [some "t1"], [some "t1"], [some "early"]] := by
  have hreliable : sharingSetup.backing.Reliable := rfl
  have howns : ∀ k, (sharingProjections k).Owns (stored sharingSetup.backing) :=
    fun k => sharingSetup.owns_projection hreliable k _
  have hdisjoint : ∀ j k, j ≠ k → (sharingProjections j).config.propertyNames.Disjoint
      (sharingProjections k).config.propertyNames := by
    have hforeign : ∀ j k, j ≠ k → ∀ key ∈ (sharingProjections j).config.propertyNames,
        key ∉ (sharingProjections k).config.propertyNames := by
      decide +kernel
    exact fun j k hne key hkey ho => hforeign j k hne key hkey ho
  have hapart : AnswersApart sharingProjections (fun k w => asked k w) :=
    sharingSetup.answersApart_projections sharingSetups
  exact ⟨howns, hdisjoint, hapart, fun k => disjoint_projections_do_not_interfere
    sharingProjections howns hdisjoint hapart overlappingMoves sharingSetup.world k,
    by decide +kernel⟩

end LogContext
