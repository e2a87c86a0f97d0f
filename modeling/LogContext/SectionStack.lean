import LogContext.OrderedMap
import LogContext.BlankName
import LogContext.Frame
import LogContext.Work

namespace LogContext

/-- One open section: the properties it pushed, in order, once per frame. The serial number tells
sections apart that push the same names. -/
structure Section where
  serial : Nat
  names : List String
  deriving DecidableEq, Repr

/-- Frames per property, innermost first, and the open sections, innermost first. `issued` is the
serial number of the next section. -/
structure SectionStack where
  tracked : OrderedMap String (List Frame)
  sections : List Section
  issued : Nat
  descending : (issued :: sections.map Section.serial).Pairwise (· > ·)

/-- A property that a caller wants to have a value; the name may be missing. -/
abbrev Offer := Option String × Option String

namespace SectionStack

def empty : SectionStack := ⟨.empty, [], 0, by simp⟩

instance : Inhabited SectionStack := ⟨empty⟩

def frames (st : SectionStack) (name : String) : List Frame := (st.tracked.find? name).getD []

def top? (st : SectionStack) (name : String) : Option Frame := (st.frames name).head?

/-- The value of a property now: that of its innermost frame. -/
def latest (st : SectionStack) (name : String) : Option String := Frame.value? (st.top? name)

def depth (st : SectionStack) (name : String) : Nat := (st.frames name).length

def sectionCount (st : SectionStack) : Nat := st.sections.length

def trackedNames (st : SectionStack) : List String := st.tracked.keys

/-- Whether any value was ever pushed: a name stays tracked after its last frame is gone. -/
def hasTracked (st : SectionStack) : Bool := !st.trackedNames.isEmpty

/-- The names of the open sections, innermost section first. -/
def openNames (st : SectionStack) : List (List String) := st.sections.map Section.names

def setFrames (st : SectionStack) (name : String) (frames : List Frame) : SectionStack :=
  { st with tracked := st.tracked.insert name frames }

def pushFrame (st : SectionStack) (name : String) (frame : Frame) : SectionStack :=
  st.setFrames name (frame :: st.frames name)

/-- A name without frames is left as it is. -/
def dropFrame (st : SectionStack) (name : String) : SectionStack :=
  match st.frames name with
  | [] => st
  | _ :: rest => st.setFrames name rest

def openSection (st : SectionStack) : SectionStack :=
  { st with
    sections := ⟨st.issued, []⟩ :: st.sections
    issued := st.issued + 1
    descending := by
      refine List.pairwise_cons.mpr ⟨fun serial h => ?_, st.descending⟩
      rcases List.mem_cons.mp h with h | h
      · exact h ▸ Nat.lt_succ_self _
      · exact Nat.lt_succ_of_lt (List.rel_of_pairwise_cons st.descending h) }

/-- A section that is no longer open lists nothing any more. -/
def enlist (st : SectionStack) (serial : Nat) (name : String) : SectionStack :=
  { st with
    sections := st.sections.map fun s =>
      if s.serial = serial then { s with names := s.names ++ [name] } else s
    descending := by
      have h : ((st.sections.map fun s =>
          if s.serial = serial then { s with names := s.names ++ [name] } else s).map
          Section.serial) = st.sections.map Section.serial := by
        simp only [List.map_map, List.map_inj_left, Function.comp_apply]
        intro s _
        split <;> rfl
      exact h ▸ st.descending }

/-- The innermost section and the stack without it; its frames are still there. -/
def closeSection? (st : SectionStack) : Option (Section × SectionStack) :=
  match h : st.sections with
  | [] => none
  | s :: rest => some (s, { st with
      sections := rest
      descending := by
        have hd := st.descending
        rw [h] at hd
        exact hd.sublist (List.Sublist.cons_cons _ (List.sublist_cons_self _ _)) })

/-- The section that a push writes to: its own, or a new one for its first change. -/
def ownSection (st : SectionStack) : Option Nat → Nat × SectionStack
  | some serial => (serial, st)
  | none => (st.issued, st.openSection)

/-- A changed property is listed in the section of its push and gets a frame. -/
def change (st : SectionStack) (serial? : Option Nat) (name : String) (value : Option String) :
    Nat × SectionStack :=
  let own := st.ownSection serial?
  (own.1, (own.2.enlist own.1 name).pushFrame name (Frame.ofValue value))

variable {ε σ : Type}

/-- What is told of a property after a frame was pushed or removed. It may use the stack again. -/
abbrev Hook (ε σ : Type) := String → Option String → Work ε (SectionStack × σ) Unit

def silent : Hook ε σ := fun _ _ => pure ()

/-- Considers one property: a blank name and a value that is already current push nothing. The
section that the push has opened so far is carried along. -/
def pushOffer (hook : Hook ε σ) (serial? : Option Nat) (offer : Offer) :
    Work ε (SectionStack × σ) (Option Nat) :=
  match offer.1 with
  | none => pure serial?
  | some name => do
    let st := (← get).1
    if isBlank name || Frame.agrees (st.top? name) (offer.2.map .text) then
      pure serial?
    else
      let (serial, changed) := st.change serial? name offer.2
      modify fun s => (changed, s.2)
      hook name offer.2
      pure (some serial)

def pushOffers (hook : Hook ε σ) : Option Nat → List Offer → Work ε (SectionStack × σ) (Option Nat)
  | serial?, [] => pure serial?
  | serial?, offer :: rest => do
    let serial? ← pushOffer hook serial? offer
    pushOffers hook serial? rest

/-- Starts a section with the offered values that differ from the current ones, and says whether
there were any; only then is there a section to pop. -/
def push (hook : Hook ε σ) (offers : List Offer) : Work ε (SectionStack × σ) Bool := do
  let serial? ← pushOffers hook none offers
  pure serial?.isSome

def removeName (hook : Hook ε σ) (name : String) : Work ε (SectionStack × σ) Unit := do
  modify fun s => (s.1.dropFrame name, s.2)
  let st := (← get).1
  hook name (st.latest name)

def removeNames (hook : Hook ε σ) : List String → Work ε (SectionStack × σ) Unit
  | [] => pure ()
  | name :: rest => do
    removeName hook name
    removeNames hook rest

/-- Closes the innermost section, if any, and takes one frame from each name it lists, in order. -/
def pop (hook : Hook ε σ) : Work ε (SectionStack × σ) Unit := do
  let s ← get
  match s.1.closeSection? with
  | none => pure ()
  | some (closed, st) => do
    set (st, s.2)
    removeNames hook closed.names

end SectionStack

end LogContext
