import AcademicAgent.Core.Run

/-!
# Overlays and the focused component

The overlay stack of the terminal interface and the component that receives input.
-/

namespace AcademicAgent

structure OverlayOptions where
  /-- Visibility by the terminal's columns and rows. -/
  visible : Option (Nat → Nat → Bool) := none
  nonCapturing : Bool := false

structure OverlayEntry (C : Type) where
  component : C
  options : Option OverlayOptions
  preFocus : Option C
  hidden : Bool
  focusOrder : Nat

/-- An overlay that takes the keyboard focus when shown. -/
def OverlayEntry.capturing {C : Type} (entry : OverlayEntry C) : Bool :=
  match entry.options with
  | some options => !options.nonCapturing
  | none => true

/-- The part of the interface that decides the focus. -/
structure Tui (C : Type) where
  columns : Nat
  rows : Nat
  /-- The components with a `focused` property. -/
  isFocusable : C → Bool
  /-- The `focused` properties. -/
  focused : C → Bool
  focusedComponent : Option C
  focusOrderCounter : Nat
  /-- Every overlay shown so far, by its handle. -/
  overlays : List (OverlayEntry C)
  overlayStack : List Nat

namespace Tui

variable {C : Type} [DecidableEq C]

def new (columns rows : Nat) (isFocusable : C → Bool) : Tui C :=
  { columns, rows, isFocusable, focused := fun _ => false, focusedComponent := none,
    focusOrderCounter := 0, overlays := [], overlayStack := [] }

section

variable (s : Tui C)

/-- `component.focused = value` on a focusable component. -/
def setFocusedFlag (component : Option C) (value : Bool) : Tui C :=
  match component with
  | some c =>
    if s.isFocusable c then { s with focused := fun x => if x = c then value else s.focused x }
    else s
  | none => s

/-- `setFocus(component)`. -/
def setFocus (component : Option C) : Tui C :=
  setFocusedFlag { s.setFocusedFlag s.focusedComponent false with focusedComponent := component }
    component true

/-- `isOverlayVisible(entry)`. -/
def isOverlayVisible (entry : OverlayEntry C) : Bool :=
  if entry.hidden then false
  else
    match entry.options.bind OverlayOptions.visible with
    | some visible => visible s.columns s.rows
    | none => true

/-- `getTopmostVisibleOverlay()`, with its handle. -/
def getTopmostVisibleOverlay : Option (Nat × OverlayEntry C) :=
  s.overlayStack.reverse.findSome? fun handle =>
    match s.overlays[handle]? with
    | some entry =>
      if entry.capturing && s.isOverlayVisible entry then some (handle, entry) else none
    | none => none

/-- `setFocus(topVisible?.component ?? preFocus)`. -/
def restoreFocus (preFocus : Option C) : Tui C :=
  match s.getTopmostVisibleOverlay with
  | some topVisible => s.setFocus (some topVisible.2.component)
  | none => s.setFocus preFocus

/-- `showOverlay(component, options)`; the handle is the number of overlays before. -/
def showOverlay (component : C) (options : Option OverlayOptions) : Tui C :=
  let entry : OverlayEntry C :=
    { component, options, preFocus := s.focusedComponent, hidden := false,
      focusOrder := s.focusOrderCounter + 1 }
  let s := { s with
    focusOrderCounter := s.focusOrderCounter + 1
    overlays := s.overlays ++ [entry]
    overlayStack := s.overlayStack ++ [s.overlays.length] }
  if entry.capturing && s.isOverlayVisible entry then s.setFocus (some component) else s

/-- `overlayStack.splice(overlayStack.indexOf(entry), 1)`. -/
def remove (handle : Nat) : Tui C :=
  { s with overlayStack := s.overlayStack.erase handle }

end

section

variable (s : Tui C) (handle : Nat) (entry : OverlayEntry C)

/-- The `hide` of a handle. -/
def hide : Tui C :=
  if handle ∈ s.overlayStack then
    if s.focusedComponent = some entry.component then
      (s.remove handle).restoreFocus entry.preFocus
    else s.remove handle
  else s

def setEntry : Tui C :=
  { s with overlays := s.overlays.set handle entry }

/-- `focusOrder = ++focusOrderCounter`. -/
def bringToFront : Tui C :=
  { s with
    focusOrderCounter := s.focusOrderCounter + 1
    overlays := s.overlays.set handle { entry with focusOrder := s.focusOrderCounter + 1 } }

/-- The `setHidden` of a handle. -/
def setHidden (hidden : Bool) : Tui C :=
  if entry.hidden = hidden then s
  else
    let changed := { entry with hidden := hidden }
    let s := s.setEntry handle changed
    if hidden then
      if s.focusedComponent = some entry.component then s.restoreFocus entry.preFocus else s
    else if entry.capturing && s.isOverlayVisible changed then
      (s.bringToFront handle changed).setFocus (some entry.component)
    else s

/-- The `focus` of a handle. -/
def focus : Tui C :=
  if handle ∉ s.overlayStack ∨ s.isOverlayVisible entry = false then s
  else
    let s := if s.focusedComponent ≠ some entry.component then s.setFocus (some entry.component)
      else s
    s.bringToFront handle entry

/-- The `unfocus` of a handle. -/
def unfocus : Tui C :=
  if s.focusedComponent ≠ some entry.component then s
  else
    match s.getTopmostVisibleOverlay with
    | some topVisible =>
      if topVisible.1 ≠ handle then s.setFocus (some topVisible.2.component)
      else s.setFocus entry.preFocus
    | none => s.setFocus entry.preFocus

end

/-- `hideOverlay()`. -/
def hideOverlay (s : Tui C) : Tui C :=
  match s.overlayStack.getLast?.bind fun handle => s.overlays[handle]? with
  | none => s
  | some overlay =>
    let popped := { s with overlayStack := s.overlayStack.dropLast }
    if s.focusedComponent = some overlay.component then popped.restoreFocus overlay.preFocus
    else popped

/-- The first overlay on the stack that shows the focused component. -/
def focusedOverlay (s : Tui C) : Option (OverlayEntry C) :=
  s.overlayStack.findSome? fun handle =>
    match s.overlays[handle]? with
    | some entry => if some entry.component = s.focusedComponent then some entry else none
    | none => none

/-- The check of `handleInput` that a focused overlay is still visible. -/
def redirectFocus (s : Tui C) : Tui C :=
  match s.focusedOverlay with
  | some overlay => if s.isOverlayVisible overlay then s else s.restoreFocus overlay.preFocus
  | none => s

inductive OverlayAction (C : Type) where
  | showOverlay (component : C) (options : Option OverlayOptions)
  | hide (handle : Nat)
  | setHidden (handle : Nat) (hidden : Bool)
  | focus (handle : Nat)
  | unfocus (handle : Nat)
  | hideOverlay
  | setFocus (component : Option C)
  | handleInput

/-- One action, with the components that were focused from outside so far. Only
handles that were returned can be called. -/
def act (s : Tui C × List C) : OverlayAction C → Option (Tui C × List C)
  | .showOverlay component options => some (s.1.showOverlay component options, s.2)
  | .hide handle => (s.1.overlays[handle]?).map fun entry => (s.1.hide handle entry, s.2)
  | .setHidden handle hidden =>
    (s.1.overlays[handle]?).map fun entry => (s.1.setHidden handle entry hidden, s.2)
  | .focus handle => (s.1.overlays[handle]?).map fun entry => (s.1.focus handle entry, s.2)
  | .unfocus handle => (s.1.overlays[handle]?).map fun entry => (s.1.unfocus handle entry, s.2)
  | .hideOverlay => some (s.1.hideOverlay, s.2)
  | .setFocus component => some (s.1.setFocus component, component.toList ++ s.2)
  | .handleInput => some (s.1.redirectFocus, s.2)

/-- A component of an overlay that is on the stack and visible. -/
def OnScreen (s : Tui C) (c : C) : Prop :=
  ∃ handle ∈ s.overlayStack, ∃ entry, s.overlays[handle]? = some entry ∧ entry.component = c ∧
    s.isOverlayVisible entry = true

/-- Nothing, a component focused from outside, or one on the screen. -/
def Sound (s : Tui C) (outside : List C) (component : Option C) : Prop :=
  ∀ c, component = some c → c ∈ outside ∨ s.OnScreen c

def FocusSound (s : Tui C × List C) : Prop := Sound s.1 s.2 s.1.focusedComponent

section

variable (s : Tui C) (component : Option C)

theorem setFocusedFlag_eq (value : Bool) :
    ∃ focused, s.setFocusedFlag component value = { s with focused := focused } := by
  unfold setFocusedFlag
  split
  · split
    · exact ⟨_, rfl⟩
    · exact ⟨s.focused, rfl⟩
  · exact ⟨s.focused, rfl⟩

theorem setFocus_eq : ∃ focused, s.setFocus component =
      { s with focusedComponent := component, focused := focused } := by
  obtain ⟨before, hbefore⟩ := s.setFocusedFlag_eq s.focusedComponent false
  obtain ⟨after, hafter⟩ := setFocusedFlag_eq
    { s with focusedComponent := component, focused := before } component true
  exact ⟨after, by rw [setFocus, hbefore, hafter]⟩

@[simp] theorem setFocus_focusedComponent :
    (s.setFocus component).focusedComponent = component := by
  obtain ⟨focused, h⟩ := s.setFocus_eq component
  rw [h]

end

theorem sound_setFocus_iff (s : Tui C) (outside : List C) (component target : Option C) :
    Sound (s.setFocus component) outside target ↔ Sound s outside target := by
  obtain ⟨focused, h⟩ := s.setFocus_eq component
  rw [h]
  rfl

theorem focusSound_setFocus_iff (s : Tui C) (outside : List C) (component : Option C) :
    FocusSound (s.setFocus component, outside) ↔ Sound s outside component := by
  rw [FocusSound, setFocus_focusedComponent, sound_setFocus_iff]

omit [DecidableEq C] in
theorem onScreen_topVisible {s : Tui C} {topVisible : Nat × OverlayEntry C}
    (h : s.getTopmostVisibleOverlay = some topVisible) : s.OnScreen topVisible.2.component := by
  obtain ⟨handle, hhandle, hentry⟩ := List.exists_of_findSome?_eq_some h
  refine ⟨handle, List.mem_reverse.mp hhandle, ?_⟩
  cases hget : s.overlays[handle]? with
  | none =>
    rw [hget] at hentry
    cases hentry
  | some entry =>
    rw [hget] at hentry
    dsimp only at hentry
    split at hentry
    · rename_i hvisible
      cases hentry
      rw [Bool.and_eq_true] at hvisible
      exact ⟨entry, rfl, rfl, hvisible.2⟩
    · cases hentry

theorem focusSound_restoreFocus_iff (s : Tui C) (outside : List C) (preFocus : Option C) :
    FocusSound (s.restoreFocus preFocus, outside) ↔
      (s.getTopmostVisibleOverlay = none → Sound s outside preFocus) := by
  unfold restoreFocus
  cases htop : s.getTopmostVisibleOverlay with
  | none =>
    rw [focusSound_setFocus_iff]
    exact ⟨fun h _ => h, fun h => h rfl⟩
  | some topVisible =>
    rw [focusSound_setFocus_iff]
    refine ⟨fun _ hnone => (by cases hnone), fun _ c hc => ?_⟩
    cases hc
    exact .inr (onScreen_topVisible htop)

end Tui

end AcademicAgent

/-!
# Focus that is not dangling

The component an overlay remembers can be that of an overlay which was removed or hidden in the
meantime, and an overlay that was removed while hidden still takes the focus when its handle
shows it.
-/

namespace AcademicAgent.Tui

open List Option

variable {C : Type} [DecidableEq C]

variable {s : Tui C} {handle : Nat} {entry : OverlayEntry C}

/-- The state in which an overlay was hidden or shown again. -/
def withHidden (s : Tui C) (handle : Nat) (entry : OverlayEntry C) (hidden : Bool) : Tui C :=
  s.setEntry handle { entry with hidden := hidden }

/-- The state in which the last overlay left the stack. -/
def popped (s : Tui C) : Tui C := { s with overlayStack := s.overlayStack.dropLast }

/-- Where an action falls back to the component remembered by an overlay, because no
other capturing overlay is visible, that component is sound; and the handle of a removed
overlay does not show it again. -/
def Permitted (s : Tui C × List C) : OverlayAction C → Prop
  | .hide handle => ∀ entry, s.1.overlays[handle]? = some entry → handle ∈ s.1.overlayStack →
    s.1.focusedComponent = some entry.component →
      (s.1.remove handle).getTopmostVisibleOverlay = none →
        Sound (s.1.remove handle) s.2 entry.preFocus
  | .setHidden handle true => ∀ entry, s.1.overlays[handle]? = some entry →
    entry.hidden = false → s.1.focusedComponent = some entry.component →
      (s.1.withHidden handle entry true).getTopmostVisibleOverlay = none →
        Sound (s.1.withHidden handle entry true) s.2 entry.preFocus
  | .setHidden handle false => ∀ entry, s.1.overlays[handle]? = some entry →
    entry.hidden = true → entry.capturing = true →
      s.1.isOverlayVisible { entry with hidden := false } = true →
        handle ∈ s.1.overlayStack ∨ Sound s.1 s.2 (some entry.component)
  | .unfocus handle => ∀ entry, s.1.overlays[handle]? = some entry →
    s.1.focusedComponent = some entry.component →
      (∀ topVisible, s.1.getTopmostVisibleOverlay = some topVisible → topVisible.1 = handle) →
        Sound s.1 s.2 entry.preFocus
  | .hideOverlay => ∀ handle entry, s.1.overlayStack.getLast? = some handle →
    s.1.overlays[handle]? = some entry → s.1.focusedComponent = some entry.component →
      s.1.popped.getTopmostVisibleOverlay = none → Sound s.1.popped s.2 entry.preFocus
  | .handleInput => ∀ overlay, s.1.focusedOverlay = some overlay →
    s.1.isOverlayVisible overlay = false → s.1.getTopmostVisibleOverlay = none →
      Sound s.1 s.2 overlay.preFocus
  | .showOverlay _ _ | .focus _ | .setFocus _ => True

omit [DecidableEq C] in
theorem sound_of_other {t : Tui C} {outside : List C} {component : Option C}
    (h : Sound s outside component) (hkeeps : ∀ c, component = some c → s.OnScreen c → t.OnScreen c)
    : Sound t outside component := by
  intro c hc
  rcases h c hc with hout | hscreen
  · exact .inl hout
  · exact .inr (hkeeps c hc hscreen)

omit [DecidableEq C] in
theorem onScreen_remove (hentry : s.overlays[handle]? = some entry) {c : C}
    (hne : entry.component ≠ c) (h : s.OnScreen c) : (s.remove handle).OnScreen c := by
  obtain ⟨other, hother, found, hfound, hcomponent, hvisible⟩ := h
  refine ⟨other, ?_, found, hfound, hcomponent, hvisible⟩
  refine (mem_erase_of_ne ?_).mpr hother
  rintro rfl
  rw [hentry] at hfound
  cases hfound
  exact hne hcomponent

omit [DecidableEq C] in
theorem onScreen_popped (hlast : s.overlayStack.getLast? = some handle)
    (hentry : s.overlays[handle]? = some entry) {c : C} (hne : entry.component ≠ c)
    (h : s.OnScreen c) : s.popped.OnScreen c := by
  obtain ⟨other, hother, found, hfound, hcomponent, hvisible⟩ := h
  refine ⟨other, ?_, found, hfound, hcomponent, hvisible⟩
  obtain ⟨before, hbefore⟩ := getLast?_eq_some_iff.mp hlast
  have hpopped : s.popped.overlayStack = before := by rw [popped, hbefore, dropLast_concat]
  rw [hpopped]
  rw [hbefore] at hother
  refine (mem_append.mp hother).resolve_right fun hsame => ?_
  rw [mem_singleton.mp hsame, hentry] at hfound
  cases hfound
  exact hne hcomponent

omit [DecidableEq C] in
theorem onScreen_setEntry {changed : OverlayEntry C} (hentry : s.overlays[handle]? = some entry)
    {c : C}
    (hsame : entry.component = c → changed.component = c ∧ (s.isOverlayVisible entry = true → s.isOverlayVisible changed = true))
    (h : s.OnScreen c) : (s.setEntry handle changed).OnScreen c := by
  obtain ⟨other, hother, found, hfound, hcomponent, hvisible⟩ := h
  refine ⟨other, hother, ?_⟩
  by_cases hhandle : handle = other
  · subst hhandle
    rw [hentry] at hfound
    cases hfound
    obtain ⟨hsameComponent, hsameVisible⟩ := hsame hcomponent
    refine ⟨changed, ?_, hsameComponent, hsameVisible hvisible⟩
    have hlength := (List.getElem?_eq_some_iff.mp hentry).1
    exact getElem?_set_self hlength
  · exact ⟨found, by rw [setEntry, getElem?_set_ne hhandle, hfound], hcomponent, hvisible⟩

section

variable {s : Tui C} {outside : List C}

theorem focusSound_showOverlay (h : FocusSound (s, outside))
    (component : C) (options : Option OverlayOptions) :
    FocusSound (s.showOverlay component options, outside) := by
  unfold showOverlay
  dsimp only
  split
  · rename_i hshown
    rw [focusSound_setFocus_iff]
    intro c hc
    cases hc
    rw [Bool.and_eq_true] at hshown
    refine .inr ⟨s.overlays.length, by simp, ?_⟩
    exact ⟨_, getElem?_concat_length, rfl, hshown.2⟩
  · refine sound_of_other h fun c _ hscreen => ?_
    obtain ⟨handle, hhandle, found, hfound, hrest⟩ := hscreen
    refine ⟨handle, mem_append_left _ hhandle, found, ?_, hrest⟩
    have hlength := (List.getElem?_eq_some_iff.mp hfound).1
    rw [getElem?_append_left hlength, hfound]

theorem focusSound_leave_iff (left : Tui C) (entry : OverlayEntry C) (h : FocusSound (s, outside))
    (hsame : left.focusedComponent = s.focusedComponent)
    (hkeeps : ∀ c, entry.component ≠ c → s.OnScreen c → left.OnScreen c) :
    FocusSound (if s.focusedComponent = some entry.component
        then left.restoreFocus entry.preFocus else left, outside) ↔
      (s.focusedComponent = some entry.component → left.getTopmostVisibleOverlay = none →
        Sound left outside entry.preFocus) := by
  by_cases hfocused : s.focusedComponent = some entry.component
  · rw [if_pos hfocused, focusSound_restoreFocus_iff]
    exact ⟨fun hsound _ => hsound, fun hsound => hsound hfocused⟩
  · rw [if_neg hfocused]
    refine ⟨fun _ hwas => absurd hwas hfocused, fun _ => ?_⟩
    rw [FocusSound, hsame]
    refine sound_of_other h fun c hc hscreen => hkeeps c ?_ hscreen
    rintro rfl
    exact hfocused hc

theorem focusSound_hide_iff (h : FocusSound (s, outside))
    (hentry : s.overlays[handle]? = some entry) :
    FocusSound (s.hide handle entry, outside) ↔ Permitted (s, outside) (.hide handle) := by
  have hleave := focusSound_leave_iff (s.remove handle) entry h rfl
    fun c hne hscreen => onScreen_remove hentry hne hscreen
  unfold hide
  by_cases hon : handle ∈ s.overlayStack
  · rw [if_pos hon, hleave]
    constructor
    · intro hsound entry' hentry' _ hfocused hnone
      rw [hentry] at hentry'
      cases hentry'
      exact hsound hfocused hnone
    · intro hpermitted hfocused hnone
      exact hpermitted entry hentry hon hfocused hnone
  · rw [if_neg hon]
    exact ⟨fun _ _ _ hmem => absurd hmem hon, fun _ => h⟩

theorem focusSound_hideOverlay_iff (h : FocusSound (s, outside)) :
    FocusSound (s.hideOverlay, outside) ↔ Permitted (s, outside) .hideOverlay := by
  unfold hideOverlay
  cases hlast : s.overlayStack.getLast? with
  | none =>
    refine ⟨fun _ handle _ hsome => ?_, fun _ => h⟩
    rw [hlast] at hsome
    cases hsome
  | some handle =>
    rw [bind_some]
    cases hentry : s.overlays[handle]? with
    | none =>
      refine ⟨fun _ handle' entry hsome hget => ?_, fun _ => h⟩
      rw [hlast] at hsome
      cases hsome
      rw [hentry] at hget
      cases hget
    | some entry =>
      have hleave := focusSound_leave_iff s.popped entry h rfl
        fun c hne hscreen => onScreen_popped hlast hentry hne hscreen
      refine Iff.trans hleave ⟨?_, ?_⟩
      · intro hsound handle' entry' hsome hget hfocused hnone
        rw [hlast] at hsome
        cases hsome
        rw [hentry] at hget
        cases hget
        exact hsound hfocused hnone
      · intro hpermitted hfocused hnone
        exact hpermitted handle entry hlast hentry hfocused hnone

end

section

variable {s : Tui C} {outside : List C} (h : FocusSound (s, outside)) {handle : Nat}
  {entry : OverlayEntry C} (hentry : s.overlays[handle]? = some entry)
include h hentry

theorem focusSound_setHidden_iff (hidden : Bool) :
    FocusSound (s.setHidden handle entry hidden, outside) ↔
      Permitted (s, outside) (.setHidden handle hidden) := by
  unfold setHidden
  by_cases hsame : entry.hidden = hidden
  · rw [if_pos hsame]
    refine ⟨fun _ => ?_, fun _ => h⟩
    cases hidden with
    | true =>
      intro entry' hentry' hshown
      rw [hentry] at hentry'
      cases hentry'
      rw [hsame] at hshown
      cases hshown
    | false =>
      intro entry' hentry' hwas
      rw [hentry] at hentry'
      cases hentry'
      rw [hsame] at hwas
      cases hwas
  · rw [if_neg hsame]
    cases hidden with
    | true =>
      have hshown : entry.hidden = false := by simpa using hsame
      have hleave := focusSound_leave_iff (s.withHidden handle entry true) entry h rfl
        fun c hne hscreen => onScreen_setEntry hentry (fun heq => absurd heq hne) hscreen
      refine Iff.trans hleave ⟨?_, ?_⟩
      · intro hsound entry' hentry' _ hfocused hnone
        rw [hentry] at hentry'
        cases hentry'
        exact hsound hfocused hnone
      · intro hpermitted hfocused hnone
        exact hpermitted entry hentry hshown hfocused hnone
    | false =>
      have hwas : entry.hidden = true := by simpa using hsame
      have hgrows : ∀ c, s.OnScreen c →
          (s.setEntry handle { entry with hidden := false }).OnScreen c := by
        intro c hscreen
        refine onScreen_setEntry hentry (fun heq => ⟨heq, fun hvisible => ?_⟩) hscreen
        simp [isOverlayVisible, hwas] at hvisible
      rw [if_neg (by simp)]
      split
      · rename_i hshow
        rw [Bool.and_eq_true] at hshow
        obtain ⟨hcapturing, hvisible⟩ := hshow
        rw [focusSound_setFocus_iff]
        have hlength := (List.getElem?_eq_some_iff.mp hentry).1
        constructor
        · intro hsound entry' hentry' _ _ _
          rw [hentry] at hentry'
          cases hentry'
          by_cases hon : handle ∈ s.overlayStack
          · exact .inl hon
          refine .inr fun c hc => ?_
          rcases hsound c hc with hout | ⟨other, hother, found, hfound, hcomponent, hseen⟩
          · exact .inl hout
          · refine .inr ⟨other, hother, found, ?_, hcomponent, hseen⟩
            have hne : handle ≠ other := by
              rintro rfl
              exact hon hother
            simpa [bringToFront, setEntry, getElem?_set_ne hne] using hfound
        · intro hpermitted c hc
          cases hc
          rcases hpermitted entry hentry hwas hcapturing hvisible with hon | hsound
          · refine .inr ⟨handle, hon, ?_⟩
            refine ⟨_, getElem?_set_self (by simpa [setEntry] using hlength), rfl, hvisible⟩
          · rcases hsound _ rfl with hout | ⟨other, hother, found, hfound, hcomponent, hseen⟩
            · exact .inl hout
            · have hne : handle ≠ other := by
                rintro rfl
                rw [hentry] at hfound
                cases hfound
                simp [isOverlayVisible, hwas] at hseen
              refine .inr ⟨other, hother, found, ?_, hcomponent, hseen⟩
              simpa [bringToFront, setEntry, getElem?_set_ne hne] using hfound
      · rename_i hshow
        refine ⟨fun _ entry' hentry' _ hcapturing hvisible => ?_, fun _ => ?_⟩
        · rw [hentry] at hentry'
          cases hentry'
          exact absurd (by rw [Bool.and_eq_true]; exact ⟨hcapturing, hvisible⟩) hshow
        · exact sound_of_other h fun c _ hscreen => hgrows c hscreen

theorem focusSound_focus : FocusSound (s.focus handle entry, outside) := by
  unfold focus
  split
  · exact h
  · rename_i hgo
    rw [not_or, not_not, Bool.not_eq_false] at hgo
    obtain ⟨hon, hvisible⟩ := hgo
    have hlength := (List.getElem?_eq_some_iff.mp hentry).1
    intro c hc
    have hcomponent : entry.component = c := by
      split at hc
      · exact some.inj (by simpa [bringToFront] using hc)
      · rename_i hfocused
        rw [not_not] at hfocused
        exact some.inj (hfocused.symm.trans hc)
    obtain ⟨focused, hfocus⟩ := s.setFocus_eq (some entry.component)
    refine .inr ?_
    rw [hfocus]
    split
    all_goals exact ⟨handle, hon, _, getElem?_set_self hlength, hcomponent, hvisible⟩

theorem focusSound_unfocus_iff :
    FocusSound (s.unfocus handle entry, outside) ↔ Permitted (s, outside) (.unfocus handle) := by
  unfold unfocus
  by_cases hfocused : s.focusedComponent = some entry.component
  · rw [if_neg (not_not.mpr hfocused)]
    have hback : (FocusSound (s.setFocus entry.preFocus, outside) ↔
        Sound s outside entry.preFocus) := focusSound_setFocus_iff s outside entry.preFocus
    cases htop : s.getTopmostVisibleOverlay with
    | none =>
      dsimp only
      rw [hback]
      constructor
      · intro hsound entry' hentry' _ _
        rw [hentry] at hentry'
        cases hentry'
        exact hsound
      · intro hpermitted
        refine hpermitted entry hentry hfocused fun topVisible hsome => ?_
        rw [htop] at hsome
        cases hsome
    | some topVisible =>
      dsimp only
      by_cases hself : topVisible.1 = handle
      · rw [if_neg (not_not.mpr hself), hback]
        constructor
        · intro hsound entry' hentry' _ _
          rw [hentry] at hentry'
          cases hentry'
          exact hsound
        · intro hpermitted
          refine hpermitted entry hentry hfocused fun topVisible' hsome => ?_
          rw [htop] at hsome
          cases hsome
          exact hself
      · rw [if_pos hself, focusSound_setFocus_iff]
        refine ⟨fun _ _ _ _ hall => absurd (hall topVisible htop) hself, fun _ c hc => ?_⟩
        cases hc
        exact .inr (onScreen_topVisible htop)
  · rw [if_pos hfocused]
    refine ⟨fun _ entry' hentry' hwas => ?_, fun _ => h⟩
    rw [hentry] at hentry'
    cases hentry'
    exact absurd hwas hfocused

end

theorem focusSound_redirectFocus_iff {outside : List C} (h : FocusSound (s, outside)) :
    FocusSound (s.redirectFocus, outside) ↔ Permitted (s, outside) .handleInput := by
  unfold redirectFocus
  cases hoverlay : s.focusedOverlay with
  | none =>
    refine ⟨fun _ overlay hsome => ?_, fun _ => h⟩
    rw [hoverlay] at hsome
    cases hsome
  | some overlay =>
    dsimp only
    cases hvisible : s.isOverlayVisible overlay with
    | true =>
      rw [if_pos rfl]
      refine ⟨fun _ overlay' hsome hgone => ?_, fun _ => h⟩
      rw [hoverlay] at hsome
      cases hsome
      rw [hvisible] at hgone
      cases hgone
    | false =>
      rw [if_neg (by simp), focusSound_restoreFocus_iff]
      constructor
      · intro hsound overlay' hsome _ hnone
        rw [hoverlay] at hsome
        cases hsome
        exact hsound hnone
      · intro hpermitted hnone
        exact hpermitted overlay hoverlay hvisible hnone

theorem focusSound_act_iff {s t : Tui C × List C} {action : OverlayAction C}
    (h : FocusSound s) (ht : act s action = some t) : FocusSound t ↔ Permitted s action := by
  obtain ⟨s, outside⟩ := s
  cases action with
  | showOverlay component options =>
    cases ht
    exact ⟨fun _ => trivial, fun _ => focusSound_showOverlay h component options⟩
  | hide handle =>
    obtain ⟨entry, hentry, rfl⟩ := map_eq_some_iff.mp ht
    exact focusSound_hide_iff h hentry
  | setHidden handle hidden =>
    obtain ⟨entry, hentry, rfl⟩ := map_eq_some_iff.mp ht
    exact focusSound_setHidden_iff h hentry hidden
  | focus handle =>
    obtain ⟨entry, hentry, rfl⟩ := map_eq_some_iff.mp ht
    exact ⟨fun _ => trivial, fun _ => focusSound_focus h hentry⟩
  | unfocus handle =>
    obtain ⟨entry, hentry, rfl⟩ := map_eq_some_iff.mp ht
    exact focusSound_unfocus_iff h hentry
  | hideOverlay =>
    cases ht
    exact focusSound_hideOverlay_iff h
  | setFocus component =>
    cases ht
    refine ⟨fun _ => trivial, fun _ => ?_⟩
    rw [focusSound_setFocus_iff]
    rintro c rfl
    exact .inl (by simp)
  | handleInput =>
    cases ht
    exact focusSound_redirectFocus_iff h

def lowerFirst : List (OverlayAction Nat) :=
  [.showOverlay 0 none, .showOverlay 1 none, .hide 0, .hide 1]

end AcademicAgent.Tui
