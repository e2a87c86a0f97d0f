import LogContext.Proofs.ProjectionRun
import LogContext.Proofs.SectionBracket
import LogContext.Proofs.SectionListings

namespace LogContext

open SectionStack

namespace Work

variable {ε σ τ α β : Type} {P : τ → Prop} {K : σ → Prop}

theorem Keeps.beside {work : Work ε σ α} (h : work.Keeps K) :
    (work.beside : Work ε (τ × σ) α).Keeps fun s => P s.1 ∧ K s.2 :=
  fun s hs => ends_beside.mpr ((h s.2 hs.2).imp fun _ _ ht => ⟨hs.1, ht⟩)

theorem keeps_beside (work : Work ε σ α) : (work.beside : Work ε (τ × σ) α).Keeps fun s => P s.1 :=
  fun _ hs => ends_beside.mpr (ends_leaves.mpr hs)

theorem Keeps.keepsUnless {work : Work ε σ α} (h : work.Keeps K) : work.KeepsUnless K True := by
  intro s hs
  refine (h s hs).imp ?_
  intro r t ht
  cases r with
  | ok a => exact ht
  | error e => trivial

end Work

namespace SectionStack

variable {ε σ : Type} {active : String → Prop} {K : σ → Prop} {hook : Hook ε σ}

/-- The open sections list active names and no others. -/
def ListsOnly (active : String → Prop) (st : SectionStack) : Prop :=
  ∀ s ∈ st.sections, ∀ name ∈ s.names, active name

theorem listsOnly_empty : ListsOnly active .empty :=
  fun _ hs => nomatch hs

theorem ListsOnly.of_sections {st other : SectionStack} (h : ListsOnly active st)
    (sections : other.sections = st.sections) : ListsOnly active other := by
  unfold ListsOnly
  rw [sections]
  exact h

theorem ListsOnly.mono {st : SectionStack} {wider : String → Prop} (h : ListsOnly active st)
    (le : ∀ name, active name → wider name) : ListsOnly wider st :=
  fun s hs name hname => le name (h s hs name hname)

theorem ListsOnly.ownSection {st : SectionStack} (h : ListsOnly active st)
    (serial? : Option Nat) : ListsOnly active (st.ownSection serial?).2 := by
  cases serial? with
  | some serial => exact h
  | none =>
    intro s hs name hname
    rcases List.mem_cons.mp hs with rfl | hs
    · cases hname
    · exact h s hs name hname

theorem ListsOnly.enlist {st : SectionStack} (h : ListsOnly active st) (serial : Nat)
    {name : String} (hname : active name) : ListsOnly active (st.enlist serial name) := by
  intro s hs other ho
  obtain ⟨before, hbefore, rfl⟩ := List.mem_map.mp hs
  split at ho
  next =>
    rcases List.mem_append.mp ho with ho | ho
    · exact h before hbefore other ho
    · exact List.mem_singleton.mp ho ▸ hname
  next => exact h before hbefore other ho

theorem ListsOnly.change {st : SectionStack} (h : ListsOnly active st) (serial? : Option Nat)
    {name : String} (hname : active name) (value : Option String) :
    ListsOnly active (st.change serial? name value).2 :=
  ((h.ownSection serial?).enlist (st.ownSection serial?).1 hname).of_sections
    (sections_pushFrame _ _ _)

theorem ListsOnly.dropFrame {st : SectionStack} (h : ListsOnly active st) (name : String) :
    ListsOnly active (st.dropFrame name) :=
  h.of_sections (sections_dropFrame st name)

theorem ListsOnly.close {st below : SectionStack} {closed : Section} (h : ListsOnly active st)
    (hclose : st.closeSection? = some (closed, below)) :
    (∀ name ∈ closed.names, active name) ∧ ListsOnly active below := by
  have hsections := sections_of_closeSection? hclose
  refine ⟨h closed (hsections ▸ List.mem_cons_self), fun s hs => h s ?_⟩
  rw [hsections]
  exact List.mem_cons_of_mem closed hs

/-- Told of active names while `K` holds, the hook leaves the stack alone and keeps `K`, however it
ends. -/
def Heeds (active : String → Prop) (K : σ → Prop) (hook : Hook ε σ) : Prop :=
  ∀ name, active name → ∀ value st s, K s →
    (hook name value).Ends (st, s) fun _ t => t.1 = st ∧ K t.2

theorem heeds_silent (active : String → Prop) (K : σ → Prop) :
    Heeds active K (silent : Hook ε σ) :=
  fun _ _ _ _ _ hk => ⟨rfl, hk⟩

theorem pushOffer_listsOnly (heeds : Heeds active K hook) (serial? : Option Nat) {offer : Offer}
    (hoffer : ∀ name, offer.1 = some name → active name) :
    (pushOffer hook serial? offer).Keeps fun s => ListsOnly active s.1 ∧ K s.2 := by
  intro start h
  obtain ⟨st, s⟩ := start
  obtain ⟨hlists, hk⟩ := h
  rw [ends_pushOffer]
  cases hc : st.changed? offer with
  | none => exact ⟨hlists, hk⟩
  | some name =>
    have hname : active name := hoffer name (changed?_eq_some_iff.mp hc).1
    have hchanged := hlists.change serial? hname offer.2
    refine (heeds name hname offer.2 (st.change serial? name offer.2).2 s hk).imp ?_
    intro r t ht
    obtain ⟨hstack, hkt⟩ := ht
    exact ⟨hstack ▸ hchanged, hkt⟩

theorem pushOffers_listOnly (heeds : Heeds active K hook) (serial? : Option Nat)
    {offers : List Offer} (hoffers : AllActive active offers) :
    (pushOffers hook serial? offers).Keeps fun s => ListsOnly active s.1 ∧ K s.2 := by
  induction offers generalizing serial? with
  | nil => exact Work.keeps_pure _
  | cons offer rest ih =>
    have hfirst := pushOffer_listsOnly heeds serial? (hoffers offer List.mem_cons_self)
    have hrest : AllActive active rest := fun other ho => hoffers other (List.mem_cons_of_mem _ ho)
    exact hfirst.bind fun serial? => ih serial? hrest

theorem push_listsOnly (heeds : Heeds active K hook) {offers : List Offer}
    (hoffers : AllActive active offers) :
    (push hook offers).Keeps fun s => ListsOnly active s.1 ∧ K s.2 :=
  (pushOffers_listOnly heeds none hoffers).bind fun _ => Work.keeps_pure _

theorem removeNames_listOnly (heeds : Heeds active K hook) {names : List String}
    (hnames : ∀ name ∈ names, active name) :
    (removeNames hook names).Keeps fun s => ListsOnly active s.1 ∧ K s.2 := by
  induction names with
  | nil => exact Work.keeps_pure _
  | cons name rest ih =>
    refine Work.Keeps.bind ?_ fun _ => ih fun other ho => hnames other (List.mem_cons_of_mem _ ho)
    intro start h
    obtain ⟨st, s⟩ := start
    obtain ⟨hlists, hk⟩ := h
    have hdropped := hlists.dropFrame name
    have htold := heeds name (hnames name List.mem_cons_self) ((st.dropFrame name).latest name)
      (st.dropFrame name) s hk
    rw [ends_removeName]
    refine htold.imp ?_
    intro r t ht
    exact ⟨ht.1 ▸ hdropped, ht.2⟩

/-- A pop tells its hook of the names that a section lists, and these are active. -/
theorem pop_listsOnly (heeds : Heeds active K hook) :
    (pop hook).Keeps fun s => ListsOnly active s.1 ∧ K s.2 := by
  intro start h
  obtain ⟨st, s⟩ := start
  obtain ⟨hlists, hk⟩ := h
  simp only [pop, Work.ends_bind, Work.ends_get]
  split
  next => exact ⟨hlists, hk⟩
  next closed below hclose =>
    obtain ⟨hnames, hbelow⟩ := hlists.close hclose
    rw [Work.ends_bind, Work.ends_set]
    exact removeNames_listOnly heeds hnames (below, s) ⟨hbelow, hk⟩

end SectionStack

namespace Projection

variable {ε σ : Type} {p : Projection ε σ} {K : σ → Prop}

/-- Calls of the store on active keys, the resolver and the reports keep `K`, however they end. -/
structure Harmless (p : Projection ε σ) (K : σ → Prop) : Prop where
  lookUp : ∀ key ∈ p.config.propertyNames, (p.lookUp key).Keeps K
  put : ∀ key ∈ p.config.propertyNames, ∀ value, (p.put key value).Keeps K
  remove : ∀ key ∈ p.config.propertyNames, (p.remove key).Keeps K
  application : p.application.Keeps K
  report : ∀ message sections, (p.report message sections).Keeps K

theorem Respects.harmless {K : σ → Prop} (respects : p.Respects K) : p.Harmless K where
  lookUp := fun key _ => respects.lookUp key
  put := fun key _ => respects.put key
  remove := fun key _ => respects.remove key
  application := respects.application
  report := respects.report

/-- What holds of a projection that was used through its calls only, while `K` holds beside it. -/
abbrev Tidy (p : Projection ε σ) (K : σ → Prop) (s : SectionStack × σ) : Prop :=
  ListsOnly p.Active s.1 ∧ K s.2

theorem Harmless.write (harmless : p.Harmless K) {key : String} (hkey : p.Active key)
    (value : Option String) : (p.write key value).Keeps K := by
  cases value with
  | none => exact harmless.remove key hkey
  | some value => exact harmless.put key hkey value

theorem Harmless.steady (harmless : p.Harmless K) : p.Steady K True where
  write := fun _ hkey value => (harmless.write hkey value).keepsUnless
  application := harmless.application
  report := fun message sections => (harmless.report message sections).keepsUnless

theorem Harmless.heeds_storeHook (harmless : p.Harmless K) : Heeds p.Active K p.storeHook := by
  intro key hkey value st s hk
  have hwrite := harmless.write hkey value s hk
  exact Work.ends_beside.mpr (hwrite.imp fun _ _ ht => ⟨rfl, ht⟩)

theorem Harmless.removeAll (harmless : p.Harmless K) {keys : List String}
    (hkeys : ∀ key ∈ keys, p.Active key) : (p.removeAll keys).Keeps K := by
  induction keys with
  | nil => exact Work.keeps_pure _
  | cons key rest ih =>
    exact (harmless.remove key (hkeys key List.mem_cons_self)).bind fun _ =>
      ih fun other ho => hkeys other (List.mem_cons_of_mem _ ho)

theorem Harmless.clear (harmless : p.Harmless K) : p.clear.Keeps K := by
  refine (harmless.removeAll fun _ h => h).bind fun _ => ?_
  split
  next => exact harmless.report clearedMessage none
  next => exact Work.keeps_pure _

theorem Harmless.reportSections (harmless : p.Harmless K) (message : String) :
    (p.reportSections message).Keeps (p.Tidy K) := by
  intro s hs
  rw [Projection.reportSections, Work.ends_bind, Work.ends_get]
  exact (harmless.report message (some s.1.sectionCount)).beside s hs

theorem Harmless.readOffers (harmless : p.Harmless K) (view : ExecutionView ε) (tracked : Bool) :
    (p.readOffers view tracked).Yields K (AllActive p.Active) :=
  readOffers_yields harmless.clear (harmless.steady.offers view) tracked

theorem Harmless.pushRead (harmless : p.Harmless K) {offers : List Offer}
    (hoffers : AllActive p.Active offers) : (p.pushRead offers).Keeps (p.Tidy K) := by
  refine (push_listsOnly harmless.heeds_storeHook hoffers).bind fun changed => ?_
  cases changed with
  | true => exact (harmless.reportSections pushedMessage).bind fun _ => Work.keeps_pure _
  | false => exact Work.keeps_pure _

theorem Harmless.push (harmless : p.Harmless K) (view : ExecutionView ε) :
    (p.push view).Keeps (p.Tidy K) := by
  by_cases henabled : p.config.isEnabled = true
  case neg =>
    rw [push_of_not_isEnabled henabled]
    exact Work.keeps_pure _
  intro start h
  obtain ⟨st, s⟩ := start
  obtain ⟨hlists, hk⟩ := h
  rw [ends_push henabled]
  refine (harmless.readOffers view st.hasTracked s hk).imp ?_
  intro r t ht
  obtain ⟨hkt, hactive⟩ := ht
  cases r with
  | error e => exact ⟨hlists, hkt⟩
  | ok offers => exact harmless.pushRead (hactive offers rfl) (st, t) ⟨hlists, hkt⟩

theorem Harmless.pop (harmless : p.Harmless K) : p.pop.Keeps (p.Tidy K) := by
  unfold Projection.pop
  split
  next =>
    refine Work.keeps_get.bind fun s => (pop_listsOnly harmless.heeds_storeHook).bind fun _ => ?_
    split
    next => exact harmless.reportSections poppedMessage
    next => exact Work.keeps_pure _
  next => exact Work.keeps_pure _

/-- What is found under active keys is offered under active keys. -/
theorem Harmless.storedOffers (harmless : p.Harmless K) {keys : List String}
    (hkeys : ∀ key ∈ keys, p.Active key) :
    (p.storedOffers keys).Yields K (AllActive p.Active) := by
  induction keys with
  | nil => exact Work.yields_pure fun _ ho => nomatch ho
  | cons key rest ih =>
    have hkey : p.Active key := hkeys key List.mem_cons_self
    have hrest := ih fun other ho => hkeys other (List.mem_cons_of_mem _ ho)
    refine (harmless.lookUp key hkey).yields.bind fun value _ => hrest.bind fun offers ho => ?_
    refine Work.yields_pure fun offer hoffer name hname => ?_
    rcases List.mem_cons.mp hoffer with rfl | hoffer
    · cases hname
      exact hkey
    · exact ho offer hoffer name hname

theorem Harmless.fetch (harmless : p.Harmless K) : p.fetch.Keeps (p.Tidy K) := by
  by_cases henabled : p.config.isEnabled = true
  case neg =>
    rw [Projection.fetch, if_neg henabled]
    exact Work.keeps_pure _
  intro start h
  obtain ⟨st, s⟩ := start
  obtain ⟨hlists, hk⟩ := h
  rw [Projection.fetch, if_pos henabled, Work.ends_bind, Work.ends_beside]
  refine (harmless.storedOffers (fun _ h => h) s hk).imp ?_
  intro r t ht
  obtain ⟨hkt, hactive⟩ := ht
  cases r with
  | error e => exact ⟨hlists, hkt⟩
  | ok offers =>
    have hpush := push_listsOnly (heeds_silent (ε := ε) p.Active K) (hactive offers rfl)
    refine hpush.bind (fun changed => ?_) (st, t) ⟨hlists, hkt⟩
    cases changed with
    | true => exact (harmless.reportSections fetchedMessage).bind fun _ => Work.keeps_pure _
    | false => exact Work.keeps_pure _

theorem Harmless.writeLatest (harmless : p.Harmless K) {keys : List String}
    (hkeys : ∀ key ∈ keys, p.Active key) : (p.writeLatest keys).Keeps (p.Tidy K) := by
  induction keys with
  | nil => exact Work.keeps_pure _
  | cons key rest ih =>
    have hwrite := harmless.write (hkeys key List.mem_cons_self)
    refine Work.keeps_get.bind fun s => (hwrite (s.1.latest key)).beside.bind fun _ => ?_
    exact ih fun other ho => hkeys other (List.mem_cons_of_mem _ ho)

theorem Harmless.sync (harmless : p.Harmless K) : p.sync.Keeps (p.Tidy K) := by
  refine Work.keeps_get.bind fun s => ?_
  simp only
  split
  next => exact harmless.writeLatest fun _ h => h
  next => exact Work.keeps_pure _

/-- Whatever a user asks of a projection, only active keys are concerned. -/
theorem Harmless.call (harmless : p.Harmless K) (c : ProjectionCall ε) :
    (c.run p).Keeps (p.Tidy K) := by
  cases c with
  | push view => exact (harmless.push view).map some
  | pop => exact harmless.pop.map _
  | fetch => exact harmless.fetch.map some
  | sync => exact harmless.sync.map _
  | clear => exact harmless.clear.beside.map _

end Projection

end LogContext
