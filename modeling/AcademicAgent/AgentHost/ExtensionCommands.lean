import Mathlib.Data.List.Perm.Subperm
import AcademicAgent.Core.JsMap
import AcademicAgent.Core.Json.Number

/-!
# Commands of extensions

`resolveRegisteredCommands` gives every registered command the name under which it is invoked.
-/

namespace AcademicAgent

open List Option

variable {taken : List JsString} {fuel : Nat}

namespace Extensions

variable {α : Type}

/-- `RegisteredCommand`, with its handler and descriptions as one value. -/
structure RegisteredCommand (α : Type) where
  name : JsString
  content : α
  deriving DecidableEq

/-- `Extension`, as far as its commands go. -/
structure Extension (α : Type) where
  commands : JsMap JsString (RegisteredCommand α)

structure ResolvedCommand (α : Type) extends RegisteredCommand α where
  invocationName : JsString
  deriving DecidableEq

/-- The name with a colon and a number behind it. -/
def suffixed (name : JsString) (n : Nat) : JsString := name ++ js ":" ++ decimalText n

/-- The loop that counts the suffix up to a name that is not taken. -/
def nextName (name : JsString) (takenInvocationNames : List JsString) : Nat → Nat → Option JsString
  | 0, _ => none
  | fuel + 1, suffix =>
    let invocationName := suffixed name (suffix + 1)
    if invocationName ∈ takenInvocationNames then nextName name takenInvocationNames fuel (suffix + 1)
    else some invocationName

/-- The commands of all extensions, in their order. -/
def registeredCommands (extensions : List (Extension α)) : List (RegisteredCommand α) :=
  extensions.flatMap fun ext => ext.commands.entries.map Prod.snd

def countOf (counts : JsMap JsString Nat) (name : JsString) : Nat := (counts.get name).getD 0

/-- How often each name is registered. -/
def countNames (commands : List (RegisteredCommand α)) : JsMap JsString Nat :=
  commands.foldl (fun counts command => counts.set command.name (countOf counts command.name + 1))
    JsMap.empty

/-- The invocation name of a command, its place among the commands of its name given. -/
def invocationName (fuel : Nat) (counts : JsMap JsString Nat) (takenInvocationNames : List JsString)
    (name : JsString) (occurrence : Nat) : Option JsString :=
  let invocationName := if 1 < countOf counts name then suffixed name occurrence else name
  if invocationName ∈ takenInvocationNames then nextName name takenInvocationNames fuel occurrence
  else some invocationName

/-- The commands in their order, with the occurrences and the invocation names so far. -/
def resolveFrom (fuel : Nat) (counts : JsMap JsString Nat) :
    JsMap JsString Nat → List JsString → List (RegisteredCommand α) →
      Option (List (ResolvedCommand α))
  | _, _, [] => some []
  | seen, taken, command :: rest => do
    let occurrence := countOf seen command.name + 1
    let name ← invocationName fuel counts taken command.name occurrence
    let resolved ← resolveFrom fuel counts (seen.set command.name occurrence) (name :: taken) rest
    return ⟨command, name⟩ :: resolved

def resolveRegisteredCommands (fuel : Nat) (extensions : List (Extension α)) :
    Option (List (ResolvedCommand α)) :=
  let commands := registeredCommands extensions
  resolveFrom fuel (countNames commands) JsMap.empty [] commands

def getCommand (fuel : Nat) (extensions : List (Extension α)) (name : JsString) :
    Option (Option (ResolvedCommand α)) :=
  (resolveRegisteredCommands fuel extensions).map
    (find? fun command => command.invocationName = name)

theorem suffixed_injective (name : JsString) : Function.Injective (suffixed name) := by
  intro m n h
  have hdigits := append_cancel_left h
  rw [← digitsValue_decimalText m, hdigits, digitsValue_decimalText]

/-- The names the loop went through were all taken. -/
theorem mem_of_nextName_eq_none {name : JsString} {suffix : Nat}
    (h : nextName name taken fuel suffix = none) :
    ∀ k < fuel, suffixed name (suffix + 1 + k) ∈ taken := by
  induction fuel generalizing suffix with
  | zero => exact fun k hk => absurd hk (Nat.not_lt_zero k)
  | succ fuel ih =>
    simp only [nextName] at h
    split at h
    · next hmem =>
      intro k hk
      cases k with
      | zero => exact hmem
      | succ k =>
        have := ih h k (by omega)
        rwa [show suffix + 1 + (k + 1) = suffix + 1 + 1 + k by omega]
    · contradiction

/-- One more round than there are taken names reaches a name that is not taken. -/
theorem nextName_isSome (name : JsString) (h : taken.length < fuel) (suffix : Nat) :
    (nextName name taken fuel suffix).isSome := by
  by_contra hnone
  rw [Bool.not_eq_true, isSome_eq_false_iff, isNone_iff_eq_none] at hnone
  have hall := mem_of_nextName_eq_none hnone
  have hnodup : ((range fuel).map fun k => suffixed name (suffix + 1 + k)).Nodup :=
    nodup_range.map fun i j hij => Nat.add_left_cancel (suffixed_injective name hij)
  have hsubset : ((range fuel).map fun k => suffixed name (suffix + 1 + k)) ⊆ taken := by
    intro x hx
    obtain ⟨k, hk, rfl⟩ := mem_map.mp hx
    exact hall k (mem_range.mp hk)
  have hle := (subperm_of_subset hnodup hsubset).length_le
  rw [length_map, length_range] at hle
  omega

theorem not_mem_of_nextName {name x : JsString} {suffix : Nat}
    (h : nextName name taken fuel suffix = some x) : x ∉ taken ∧ ∃ n, x = suffixed name n := by
  induction fuel generalizing suffix with
  | zero => contradiction
  | succ fuel ih =>
    simp only [nextName] at h
    split at h
    · exact ih h
    · next hmem =>
      rw [← some.inj h]
      exact ⟨hmem, suffix + 1, rfl⟩

theorem suffixed_ne (name : JsString) (n : Nat) : suffixed name n ≠ name := by
  intro h
  have hlen := congrArg length h
  rw [suffixed, length_append, length_append] at hlen
  have hcolon : (js ":").length = 1 := rfl
  omega

/-- The given name is free, and it is the name itself exactly where that one is registered once
and free. -/
theorem invocationName_spec (counts : JsMap JsString Nat) (name : JsString) (occurrence : Nat)
    (hfuel : taken.length < fuel) :
    ∃ x, invocationName fuel counts taken name occurrence = some x ∧ x ∉ taken ∧
      (countOf counts name = 1 → (x = name ↔ name ∉ taken)) := by
  by_cases hmem : (if 1 < countOf counts name then suffixed name occurrence else name) ∈ taken
  · obtain ⟨x, hx⟩ := isSome_iff_exists.mp (nextName_isSome name hfuel occurrence)
    obtain ⟨hfree, n, rfl⟩ := not_mem_of_nextName hx
    refine ⟨_, by rw [← hx, invocationName, if_pos hmem], hfree, fun hone => ?_⟩
    rw [if_neg (by omega)] at hmem
    exact ⟨fun h => absurd h (suffixed_ne name n), fun h => absurd hmem h⟩
  · refine ⟨_, by rw [invocationName, if_neg hmem], hmem, fun hone => ?_⟩
    rw [if_neg (by omega)] at hmem ⊢
    exact ⟨fun _ => hmem, fun _ => rfl⟩

theorem countOf_countNames (commands : List (RegisteredCommand α)) (name : JsString) :
    countOf (countNames commands) name = (commands.map (·.name)).count name := by
  have hgen : ∀ counts : JsMap JsString Nat, countOf (commands.foldl (fun counts command =>
        counts.set command.name (countOf counts command.name + 1)) counts) name =
        countOf counts name + (commands.map (·.name)).count name := by
    induction commands with
    | nil => exact fun counts => rfl
    | cons command rest ih =>
      intro counts
      rw [foldl_cons, ih, map_cons, count_cons, countOf, JsMap.get_set]
      by_cases h : command.name = name
      · simp [h, countOf]
        omega
      · simp [h, countOf]
  rw [countNames, hgen]
  exact Nat.zero_add _

/-- What one pass gives: every command in its place, no name twice and none that was taken, and
for a name registered once the name itself where no earlier command has it. -/
theorem resolveFrom_spec (counts : JsMap JsString Nat) (commands : List (RegisteredCommand α)) :
    ∀ (seen : JsMap JsString Nat) (taken : List JsString), taken.length + commands.length < fuel →
      ∃ resolved, resolveFrom fuel counts seen taken commands = some resolved ∧
        resolved.map (·.toRegisteredCommand) = commands ∧
        (resolved.map (·.invocationName)).Nodup ∧
        (∀ r ∈ resolved, r.invocationName ∉ taken) ∧
        ∀ i r, resolved[i]? = some r → countOf counts r.name = 1 → (r.invocationName = r.name ↔
            r.name ∉ taken ∧ r.name ∉ (resolved.take i).map (·.invocationName)) := by
  induction commands with
  | nil => exact fun seen taken h => ⟨[], rfl, rfl, nodup_nil, by simp, by simp⟩
  | cons command rest ih =>
    intro seen taken hfuel
    rw [length_cons] at hfuel
    obtain ⟨x, hx, hfree, hown⟩ := invocationName_spec counts command.name
      (countOf seen command.name + 1) (by omega : taken.length < fuel)
    obtain ⟨resolved, hres, hmap, hnodup, htaken, hkeep⟩ :=
      ih (seen.set command.name (countOf seen command.name + 1)) (x :: taken)
        (by rw [length_cons]; omega)
    refine ⟨⟨command, x⟩ :: resolved, ?_, by rw [map_cons, hmap], ?_, ?_, ?_⟩
    · simp [resolveFrom, hx, hres]
    · rw [map_cons, nodup_cons]
      refine ⟨fun hmem => ?_, hnodup⟩
      obtain ⟨r, hr, hrx⟩ := mem_map.mp hmem
      exact htaken r hr (hrx ▸ mem_cons_self)
    · intro r hr
      rcases mem_cons.mp hr with rfl | hr
      · exact hfree
      · exact fun hmem => htaken r hr (mem_cons_of_mem _ hmem)
    · intro i r hr hone
      cases i with
      | zero =>
        rw [getElem?_cons_zero, some.injEq] at hr
        subst hr
        simpa using hown hone
      | succ i =>
        rw [getElem?_cons_succ] at hr
        rw [hkeep i r hr hone, take_succ_cons, map_cons]
        simp only [mem_cons, not_or]
        tauto

theorem find?_invocationName {resolved : List (ResolvedCommand α)}
    (hnodup : (resolved.map (·.invocationName)).Nodup) {r : ResolvedCommand α} (hr : r ∈ resolved) :
    resolved.find? (fun command => command.invocationName = r.invocationName) = some r := by
  induction resolved with
  | nil => contradiction
  | cons first rest ih =>
    rw [map_cons, nodup_cons] at hnodup
    rcases mem_cons.mp hr with rfl | hr
    · simp
    · have hne : first.invocationName ≠ r.invocationName := fun h =>
        hnodup.1 (h ▸ mem_map_of_mem hr)
      rw [find?_cons_of_neg (by simpa using hne), ih hnodup.2 hr]

/-- No two commands share an invocation name, every command is found under its own, and a name
registered once stays as it is exactly where no earlier command was given it. -/
structure Unambiguous (extensions : List (Extension α)) (fuel : Nat)
    (resolved : List (ResolvedCommand α)) : Prop where
  resolves : resolveRegisteredCommands fuel extensions = some resolved
  commands : resolved.map (·.toRegisteredCommand) = registeredCommands extensions
  distinct : (resolved.map (·.invocationName)).Nodup
  reachable : ∀ r ∈ resolved, getCommand fuel extensions r.invocationName = some (some r)
  kept : ∀ i r, resolved[i]? = some r →
    ((registeredCommands extensions).map (·.name)).count r.name = 1 →
    (r.invocationName = r.name ↔ r.name ∉ (resolved.take i).map (·.invocationName))

/-- As many rounds as there are commands are enough for every suffix. -/
theorem resolveRegisteredCommands_unambiguous (extensions : List (Extension α))
    (hfuel : (registeredCommands extensions).length < fuel) :
    ∃ resolved, Unambiguous extensions fuel resolved := by
  obtain ⟨resolved, hres, hmap, hnodup, -, hkeep⟩ :=
    resolveFrom_spec (countNames (registeredCommands extensions)) (registeredCommands extensions)
      JsMap.empty [] (by simpa using hfuel)
  refine ⟨resolved, hres, hmap, hnodup, fun r hr => ?_, fun i r hr hone => ?_⟩
  · rw [getCommand, resolveRegisteredCommands, hres, Option.map_some, Option.some.injEq]
    exact find?_invocationName hnodup hr
  · rw [hkeep i r hr (by rw [countOf_countNames, hone])]
    simp

/-- Three extensions, the first two with a command of one name. -/
def reviewExtensions : List (Extension Unit) :=
  ["review", "review", "review:1"].map fun name =>
    ⟨JsMap.empty.set (js name) ⟨js name, ()⟩⟩

theorem reviewExtensions_unambiguous : ∃ resolved, Unambiguous reviewExtensions 4 resolved :=
  resolveRegisteredCommands_unambiguous reviewExtensions (by decide)

/-- The name of a command that no other registers goes to an earlier one with a suffix. -/
theorem resolveRegisteredCommands_renames :
    ∃ resolved, resolveRegisteredCommands 4 reviewExtensions = some resolved ∧ ∃ r ∈ resolved,
        ((registeredCommands reviewExtensions).map (·.name)).count r.name = 1 ∧
          r.invocationName ≠ r.name :=
  ⟨[⟨⟨js "review", ()⟩, js "review:1"⟩, ⟨⟨js "review", ()⟩, js "review:2"⟩,
    ⟨⟨js "review:1", ()⟩, js "review:1:2"⟩], by decide, by decide⟩

end Extensions

end AcademicAgent
