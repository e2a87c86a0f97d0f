import LogContext.Proofs.StackFrames
import Mathlib.Data.List.Nodup

namespace LogContext

namespace SectionStack

/-- How often the open sections list a property. -/
def listings (st : SectionStack) (name : String) : Nat := st.openNames.flatten.count name

/-- The frames of a property that no open section will take back. -/
def surplus (st : SectionStack) (name : String) : Nat := st.depth name - st.listings name

/-- The serial numbers of the open sections. -/
def serials (st : SectionStack) : List Nat := st.sections.map Section.serial

theorem nodup_serials (st : SectionStack) : st.serials.Nodup :=
  (List.pairwise_cons.mp st.descending).2.imp Nat.ne_of_gt

theorem depth_change (st : SectionStack) (serial? : Option Nat) (name other : String)
    (value : Option String) :
    (st.change serial? name value).2.depth other =
      st.depth other + if other = name then 1 else 0 := by
  simp only [depth, frames_change]
  split
  next h => rw [h, List.length_cons]
  next => rfl

theorem depth_dropFrame (st : SectionStack) (name other : String) :
    (st.dropFrame name).depth other = st.depth other - if other = name then 1 else 0 := by
  simp only [depth, frames_dropFrame]
  split
  next h => rw [h, List.length_tail]
  next => rfl

theorem listings_eq_of_sections {st other : SectionStack} (h : st.sections = other.sections)
    (name : String) : st.listings name = other.listings name := by
  simp only [listings, openNames, h]

theorem serials_eq_of_sections {st other : SectionStack} (h : st.sections = other.sections) :
    st.serials = other.serials := by
  simp only [serials, h]

theorem count_enlisted (serial : Nat) (name other : String) (sections : List Section) :
    ((sections.map fun s =>
        if s.serial = serial then { s with names := s.names ++ [name] } else s).map
        Section.names).flatten.count other =
      (sections.map Section.names).flatten.count other +
        if other = name then (sections.map Section.serial).count serial else 0 := by
  induction sections with
  | nil => simp
  | cons s rest ih =>
    simp only [List.map_cons, List.flatten_cons, List.count_append, ih, List.count_cons,
      beq_iff_eq]
    by_cases hserial : s.serial = serial
    · by_cases hname : other = name
      · simp only [hserial, hname, ↓reduceIte, List.count_append, List.count_singleton_self]
        omega
      · simp only [hserial, hname, ↓reduceIte, List.count_append,
          List.count_singleton, beq_iff_eq, Ne.symm hname]
        omega
    · simp only [hserial, ↓reduceIte, Nat.add_zero]
      omega

theorem listings_enlist (st : SectionStack) (serial : Nat) (name other : String) :
    (st.enlist serial name).listings other =
      st.listings other + if other = name then st.serials.count serial else 0 :=
  count_enlisted serial name other st.sections

theorem listings_openSection (st : SectionStack) (name : String) :
    st.openSection.listings name = st.listings name := by
  simp only [listings, openNames, sections_openSection, List.map_cons, List.flatten_cons,
    List.nil_append]

theorem listings_ownSection (st : SectionStack) (serial? : Option Nat) (name : String) :
    (st.ownSection serial?).2.listings name = st.listings name := by
  cases serial? with
  | none => exact listings_openSection st name
  | some => rfl

theorem serials_enlist (st : SectionStack) (serial : Nat) (name : String) :
    (st.enlist serial name).serials = st.serials := by
  simp only [serials, enlist, List.map_map]
  apply List.map_congr_left
  intro s _
  simp only [Function.comp_apply]
  split <;> rfl

theorem listings_change (st : SectionStack) (serial? : Option Nat) (name other : String)
    (value : Option String) :
    (st.change serial? name value).2.listings other =
      st.listings other + if other = name then
        (st.ownSection serial?).2.serials.count (st.ownSection serial?).1 else 0 := by
  rw [← listings_ownSection st serial?, ← listings_enlist]
  exact listings_eq_of_sections (sections_pushFrame _ _ _) other

/-- A push lists what it changes, once, unless its section is no longer open. -/
theorem listings_change_le (st : SectionStack) (serial? : Option Nat) (name other : String)
    (value : Option String) :
    (st.change serial? name value).2.listings other ≤
      st.listings other + if other = name then 1 else 0 := by
  rw [listings_change]
  have hcount := List.nodup_iff_count_le_one.mp (st.ownSection serial?).2.nodup_serials
    (st.ownSection serial?).1
  split
  next => omega
  next => omega

theorem serials_change (st : SectionStack) (serial? : Option Nat) (name : String)
    (value : Option String) :
    (st.change serial? name value).2.serials = (st.ownSection serial?).2.serials := by
  rw [← serials_enlist (st.ownSection serial?).2 (st.ownSection serial?).1 name]
  exact serials_eq_of_sections (sections_pushFrame _ _ _)

theorem mem_serials_ownSection {st : SectionStack} {serial? : Option Nat}
    (h : ∀ serial ∈ serial?, serial ∈ st.serials) :
    (st.ownSection serial?).1 ∈ (st.ownSection serial?).2.serials := by
  cases serial? with
  | none => exact List.mem_cons_self
  | some serial => exact h serial rfl

theorem mem_serials_change {st : SectionStack} {serial : Nat} (h : serial ∈ st.serials)
    (serial? : Option Nat) (name : String) (value : Option String) :
    serial ∈ (st.change serial? name value).2.serials := by
  rw [serials_change]
  cases serial? with
  | none => exact List.mem_cons_of_mem _ h
  | some => exact h

theorem listings_change_of_open {st : SectionStack} {serial? : Option Nat}
    (h : ∀ serial ∈ serial?, serial ∈ st.serials) (name other : String) (value : Option String) :
    (st.change serial? name value).2.listings other =
      st.listings other + if other = name then 1 else 0 := by
  rw [listings_change, List.count_eq_one_of_mem (nodup_serials _) (mem_serials_ownSection h)]

theorem sections_of_closeSection? {st below : SectionStack} {closed : Section}
    (h : st.closeSection? = some (closed, below)) : st.sections = closed :: below.sections := by
  cases hs : st.sections with
  | nil => simp [closeSection?_eq_none hs] at h
  | cons s rest =>
    obtain ⟨below', hb, hrest, _⟩ := closeSection?_eq_some hs
    obtain ⟨rfl, rfl⟩ := Prod.mk.inj (Option.some.inj (hb.symm.trans h))
    rw [hrest]

theorem listings_of_closeSection? {st below : SectionStack} {closed : Section}
    (h : st.closeSection? = some (closed, below)) (name : String) :
    st.listings name = closed.names.count name + below.listings name := by
  simp only [listings, openNames, sections_of_closeSection? h, List.map_cons, List.flatten_cons,
    List.count_append]

theorem depth_of_closeSection? {st below : SectionStack} {closed : Section}
    (h : st.closeSection? = some (closed, below)) (name : String) :
    below.depth name = st.depth name := by
  simp only [depth, frames_of_closeSection? h]

end SectionStack

end LogContext
