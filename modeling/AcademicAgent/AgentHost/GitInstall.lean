import AcademicAgent.AgentHost.GitSource
import AcademicAgent.Core.Run

/-!
# Installing and updating git packages

`installGit` and `updateGit` run one command after another, and look only at whether the
directory exists or whether its head is the target.
-/

namespace AcademicAgent.AgentHost

variable {Commit : Type}

/-- What the head of a checkout stands on: the branch that was cloned, the requested ref as a
branch or as a commit, or a commit that a reset moved a detached head to. -/
inductive Position where
  | cloned
  | tracking (ref : JsString)
  | detached (ref : JsString)
  | moved
  deriving DecidableEq

structure Checkout (Commit : Type) where
  head : Commit
  position : Position
  /-- The commit that `@{upstream}` names. -/
  upstream : Option Commit
  /-- The commit that `origin/HEAD` names. -/
  originHead : Option Commit
  /-- The revision that dependencies were installed for, while they are there. -/
  installed : Option Commit
  deriving DecidableEq

/-- What `git clone` gives. -/
structure Cloned (Commit : Type) where
  head : Commit
  upstream : Option Commit
  originHead : Option Commit

/-- What `git checkout` of a ref gives: without an upstream the head is detached. -/
structure CheckedOut (Commit : Type) where
  head : Commit
  upstream : Option Commit

/-- How the commands of an install go; a command without a result fails. -/
structure InstallCommands (Commit : Type) where
  clone : Option (Cloned Commit)
  checkout : Option (CheckedOut Commit)
  npmInstall : Bool

/-- How the commands of an update go; `setHead` and `fetch` are the commits that the target
names then. -/
structure UpdateCommands (Commit : Type) where
  install : InstallCommands Commit
  setHead : Option Commit
  fetch : Option Commit
  reset : Bool
  clean : Bool
  npmInstall : Bool

/-- What a call leaves, whether it returns or throws, and whether it cloned or reset. -/
structure Outcome (Commit : Type) where
  checkout : Option (Checkout Commit)
  returned : Bool
  changed : Bool

/-- `if (source.ref)`. -/
def requestedRef (source : GitSource) : Option JsString :=
  source.ref.filter fun ref => decide (ref ≠ [])

variable (hasPackageJson : Commit → Bool)

/-- The end of an install and of an update: dependencies for a head with a `package.json`. -/
def installDependencies (c : Checkout Commit) (npmInstall : Bool) : Outcome Commit :=
  if hasPackageJson c.head then
    if npmInstall then ⟨some { c with installed := some c.head }, true, true⟩
    else ⟨some c, false, true⟩
  else ⟨some c, true, true⟩

/-- `installGit(source, scope)`. -/
def installGit (source : GitSource) (commands : InstallCommands Commit) :
    Option (Checkout Commit) → Outcome Commit
  | some c => ⟨some c, true, false⟩
  | none =>
    match commands.clone with
    | none => ⟨none, false, false⟩
    | some cloned =>
      let c : Checkout Commit := ⟨cloned.head, .cloned, cloned.upstream, cloned.originHead, none⟩
      match requestedRef source with
      | none => installDependencies hasPackageJson c commands.npmInstall
      | some ref =>
        match commands.checkout with
        | none => ⟨some c, false, true⟩
        | some out =>
          installDependencies hasPackageJson
            { c with
              head := out.head
              upstream := out.upstream
              position := if out.upstream.isSome then .tracking ref else .detached ref }
            commands.npmInstall

/-- Where the head stands after `git reset --hard`: a branch moves along, a detached head is
moved off its ref. -/
def Position.afterReset : Position → Position
  | .detached _ => .moved
  | position => position

/-- `getLocalGitUpdateTarget` up to the fetch: the checkout that knows the target, unless
there is none. -/
def targetKnown (c : Checkout Commit) (setHead : Option Commit) : Option (Checkout Commit) :=
  match c.upstream with
  | some _ => some c
  | none => (setHead.or c.originHead).map fun head => { c with originHead := some head }

def fetched (c : Checkout Commit) (target : Commit) : Checkout Commit :=
  match c.upstream with
  | some _ => { c with upstream := some target }
  | none => { c with originHead := some target }

variable [DecidableEq Commit]

section

variable (source : GitSource)

/-- `updateGit(source, scope)`. -/
def updateGit (commands : UpdateCommands Commit) :
    Option (Checkout Commit) → Outcome Commit
  | none => installGit hasPackageJson source commands.install none
  | some c =>
    match targetKnown c commands.setHead with
    | none => ⟨some c, false, false⟩
    | some c =>
      match commands.fetch with
      | none => ⟨some c, false, false⟩
      | some target =>
        let c := fetched c target
        if c.head = target then ⟨some c, true, false⟩
        else if !commands.reset then ⟨some c, false, false⟩
        else
          let c := { c with head := target, position := c.position.afterReset }
          if !commands.clean then ⟨some c, false, true⟩
          else installDependencies hasPackageJson { c with installed := none } commands.npmInstall

inductive GitCall (Commit : Type) where
  | install (commands : InstallCommands Commit)
  | update (commands : UpdateCommands Commit)

/-- The directory, and whether the last call that cloned or reset it returned. -/
structure Installation (Commit : Type) where
  checkout : Option (Checkout Commit)
  finished : Bool

def Installation.start : Installation Commit := ⟨none, true⟩

def GitCall.perform :
    GitCall Commit → Option (Checkout Commit) → Outcome Commit
  | .install commands => installGit hasPackageJson source commands
  | .update commands => updateGit hasPackageJson source commands

def Installation.step (s : Installation Commit) (call : GitCall Commit) :
    Option (Installation Commit) :=
  let outcome := call.perform hasPackageJson source s.checkout
  some ⟨outcome.checkout, if outcome.changed then outcome.returned else s.finished⟩

/-- The head stands on the requested ref: on the cloned branch when none is requested. -/
def AtRequestedRef (c : Checkout Commit) : Prop :=
  match requestedRef source with
  | none => c.position = .cloned
  | some ref => c.position = .tracking ref ∨ c.position = .detached ref

/-- A head with a `package.json` has the dependencies of its revision. -/
def DependenciesInstalled (c : Checkout Commit) : Prop :=
  hasPackageJson c.head = true → c.installed = some c.head

/-- What a call that returns leaves: an install the requested ref, an update the fetched
target, and both the dependencies. An update without a directory is an install. -/
def Achieves (before after : Option (Checkout Commit)) :
    GitCall Commit → Prop
  | .install _ =>
    ∃ c, after = some c ∧ AtRequestedRef source c ∧ DependenciesInstalled hasPackageJson c
  | .update commands =>
    ∃ c, after = some c ∧ DependenciesInstalled hasPackageJson c ∧
      match before with
      | none => AtRequestedRef source c
      | some _ => commands.fetch = some c.head

/-- A call takes a directory for finished only when the last call that cloned or reset it
returned; and an install only when the requested ref was checked out and no update has moved
a detached head off it. -/
def Installation.Resumable (s : Installation Commit) :
    GitCall Commit → Prop
  | .install _ => ∀ c, s.checkout = some c → s.finished = true ∧
      ∀ ref, requestedRef source = some ref →
        c.position = .tracking ref ∨ c.position = .detached ref
  | .update commands => ∀ c, s.checkout = some c → commands.fetch = some c.head →
      s.finished = true

end

/-- What holds between calls: a finished directory has its dependencies, and without a
requested ref the head stays on the cloned branch. -/
structure Installation.Sound (source : GitSource) (s : Installation Commit) : Prop where
  dependencies : ∀ c, s.checkout = some c → s.finished = true →
    DependenciesInstalled hasPackageJson c
  position : ∀ c, s.checkout = some c → requestedRef source = none → c.position = .cloned

variable {hasPackageJson} {source : GitSource}

omit [DecidableEq Commit] in
theorem installDependencies_spec (c : Checkout Commit) (npmInstall : Bool) :
    ∃ c', (installDependencies hasPackageJson c npmInstall).checkout = some c' ∧
      (installDependencies hasPackageJson c npmInstall).changed = true ∧
      c'.head = c.head ∧ c'.position = c.position ∧
      ((installDependencies hasPackageJson c npmInstall).returned = true →
        DependenciesInstalled hasPackageJson c') := by
  unfold installDependencies
  split
  · split
    · exact ⟨_, rfl, rfl, rfl, rfl, fun _ _ => rfl⟩
    · exact ⟨_, rfl, rfl, rfl, rfl, fun h => absurd h Bool.false_ne_true⟩
  · rename_i hno
    exact ⟨_, rfl, rfl, rfl, rfl, fun _ h => absurd h hno⟩

omit [DecidableEq Commit] in
/-- An install into a new directory: when it returns, the requested ref is checked out with its
dependencies; without a requested ref the head is on the cloned branch also when it throws. -/
theorem installGit_none (commands : InstallCommands Commit) :
    (∀ c, (installGit hasPackageJson source commands none).checkout = some c →
      (installGit hasPackageJson source commands none).changed = true ∧
        (requestedRef source = none → c.position = .cloned) ∧
        ((installGit hasPackageJson source commands none).returned = true →
          DependenciesInstalled hasPackageJson c)) ∧
    ((installGit hasPackageJson source commands none).returned = true →
      ∃ c, (installGit hasPackageJson source commands none).checkout = some c ∧
        AtRequestedRef source c) := by
  rw [installGit]
  cases hclone : commands.clone with
  | none => exact ⟨nofun, nofun⟩
  | some cloned =>
    cases href : requestedRef source with
    | none =>
      obtain ⟨c', hcheckout, hchanged, -, hposition, hreturned⟩ :=
        @installDependencies_spec Commit hasPackageJson
          ⟨cloned.head, .cloned, cloned.upstream, cloned.originHead, none⟩ commands.npmInstall
      refine ⟨fun c hc => ?_, fun _ => ⟨c', hcheckout, ?_⟩⟩
      · rw [hcheckout] at hc
        cases hc
        exact ⟨hchanged, fun _ => hposition, hreturned⟩
      · rw [AtRequestedRef, href]
        exact hposition
    | some ref =>
      cases hout : commands.checkout with
      | none =>
        exact ⟨fun c _ => ⟨rfl, nofun, fun h => absurd h Bool.false_ne_true⟩,
          fun h => absurd h Bool.false_ne_true⟩
      | some out =>
        dsimp only
        obtain ⟨c', hcheckout, hchanged, -, hposition, hreturned⟩ :=
          @installDependencies_spec Commit hasPackageJson
            ⟨out.head, if out.upstream.isSome then .tracking ref else .detached ref, out.upstream,
              cloned.originHead, none⟩ commands.npmInstall
        refine ⟨fun c hc => ?_, fun _ => ⟨c', hcheckout, ?_⟩⟩
        · rw [hcheckout] at hc
          cases hc
          exact ⟨hchanged, nofun, hreturned⟩
        · rw [AtRequestedRef, href, hposition]
          dsimp only
          split
          · exact .inl rfl
          · exact .inr rfl

omit [DecidableEq Commit] in
theorem targetKnown_eq_some {c c' : Checkout Commit} {setHead : Option Commit}
    (h : targetKnown c setHead = some c') :
    c'.head = c.head ∧ c'.position = c.position ∧ c'.installed = c.installed := by
  rw [targetKnown] at h
  cases hupstream : c.upstream with
  | some _ =>
    rw [hupstream] at h
    cases h
    exact ⟨rfl, rfl, rfl⟩
  | none =>
    rw [hupstream] at h
    obtain ⟨head, -, rfl⟩ := Option.map_eq_some_iff.mp h
    exact ⟨rfl, rfl, rfl⟩

omit [DecidableEq Commit] in
theorem fetched_keeps (c : Checkout Commit) (target : Commit) :
    (fetched c target).head = c.head ∧ (fetched c target).position = c.position ∧
      (fetched c target).installed = c.installed := by
  rw [fetched]
  split <;> exact ⟨rfl, rfl, rfl⟩

/-- An update of a directory: it stays a directory, nothing but the knowledge of the remote
changes before the reset, and when the update returns the head is the fetched target, with
its dependencies if they were installed anew. -/
theorem updateGit_some (commands : UpdateCommands Commit) (c : Checkout Commit) :
    ∃ c', (updateGit hasPackageJson source commands (some c)).checkout = some c' ∧
      (c.position = .cloned → c'.position = .cloned) ∧
      ((updateGit hasPackageJson source commands (some c)).changed = false →
        c'.head = c.head ∧ c'.installed = c.installed) ∧
      ((updateGit hasPackageJson source commands (some c)).returned = true →
        commands.fetch = some c'.head ∧
        ((updateGit hasPackageJson source commands (some c)).changed = true →
          DependenciesInstalled hasPackageJson c')) := by
  rw [updateGit]
  cases htarget : targetKnown c commands.setHead with
  | none =>
    exact ⟨c, rfl, id, fun _ => ⟨rfl, rfl⟩, fun h => absurd h Bool.false_ne_true⟩
  | some known =>
    obtain ⟨hhead, hposition, hinstalled⟩ := targetKnown_eq_some htarget
    cases hfetch : commands.fetch with
    | none =>
      refine ⟨known, rfl, fun h => hposition.trans h, fun _ => ⟨hhead, hinstalled⟩, ?_⟩
      exact fun h => absurd h Bool.false_ne_true
    | some target =>
      obtain ⟨hhead', hposition', hinstalled'⟩ := fetched_keeps known target
      have hcloned : c.position = .cloned → (fetched known target).position = .cloned :=
        fun h => hposition'.trans (hposition.trans h)
      have hkept : (fetched known target).head = c.head ∧
          (fetched known target).installed = c.installed :=
        ⟨hhead'.trans hhead, hinstalled'.trans hinstalled⟩
      dsimp only
      split
      · rename_i heq
        exact ⟨_, rfl, hcloned, fun _ => hkept, fun _ => ⟨by rw [heq], nofun⟩⟩
      · split
        · exact ⟨_, rfl, hcloned, fun _ => hkept, fun h => absurd h Bool.false_ne_true⟩
        · have hmoved : c.position = .cloned →
              (fetched known target).position.afterReset = .cloned := by
            intro h
            rw [hcloned h]
            rfl
          split
          · exact ⟨_, rfl, hmoved, nofun, fun h => absurd h Bool.false_ne_true⟩
          · obtain ⟨c', hcheckout, hchanged, hhead'', hposition'', hreturned⟩ :=
              @installDependencies_spec Commit hasPackageJson
                { fetched known target with
                  head := target
                  position := (fetched known target).position.afterReset
                  installed := none } commands.npmInstall
            refine ⟨c', hcheckout, fun h => hposition''.trans (hmoved h), ?_, fun h => ?_⟩
            · intro h
              rw [hchanged] at h
              cases h
            · exact ⟨by rw [hhead''], fun _ => hreturned h⟩

theorem Installation.Sound.step {s t : Installation Commit} {call : GitCall Commit}
    (h : s.Sound hasPackageJson source)
    (hstep : s.step hasPackageJson source call = some t) : t.Sound hasPackageJson source := by
  cases hstep
  have hinstall : ∀ commands, s.checkout = none → Installation.Sound hasPackageJson source
        ⟨(installGit hasPackageJson source commands none).checkout,
          if (installGit hasPackageJson source commands none).changed then
            (installGit hasPackageJson source commands none).returned
          else s.finished⟩ := by
    intro commands _
    obtain ⟨hspec, -⟩ := @installGit_none Commit hasPackageJson source commands
    refine ⟨fun c hc hfinished => ?_, fun c hc href => (hspec c hc).2.1 href⟩
    obtain ⟨hchanged, -, hreturned⟩ := hspec c hc
    rw [hchanged] at hfinished
    exact hreturned hfinished
  cases call with
  | install commands =>
    cases hcheckout : s.checkout with
    | none =>
      rw [GitCall.perform]
      exact hinstall commands hcheckout
    | some c =>
      rw [GitCall.perform, installGit]
      refine ⟨fun c' hc' hfinished => ?_, fun c' hc' href => ?_⟩
      · cases hc'
        exact h.dependencies c hcheckout hfinished
      · cases hc'
        exact h.position c hcheckout href
  | update commands =>
    cases hcheckout : s.checkout with
    | none =>
      rw [GitCall.perform, updateGit]
      exact hinstall commands.install hcheckout
    | some c =>
      rw [GitCall.perform]
      obtain ⟨c', hafter, hposition, hkept, hreturned⟩ :=
        @updateGit_some Commit hasPackageJson _ source commands c
      refine ⟨fun c'' hc'' hfinished => ?_, fun c'' hc'' href => ?_⟩
      · rw [hafter] at hc''
        cases hc''
        cases hchanged : (updateGit hasPackageJson source commands (some c)).changed with
        | true =>
          rw [hchanged] at hfinished
          exact (hreturned hfinished).2 hchanged
        | false =>
          rw [hchanged] at hfinished
          obtain ⟨hhead, hinstalled⟩ := hkept hchanged
          have hdependencies := h.dependencies c hcheckout hfinished
          rw [DependenciesInstalled, hhead, hinstalled]
          exact hdependencies
      · rw [hafter] at hc''
        cases hc''
        exact hposition (h.position c hcheckout href)

theorem GitCall.achieves {s : Installation Commit} {call : GitCall Commit}
    (h : s.Sound hasPackageJson source) (hresumable : s.Resumable source call)
    (hreturned : (call.perform hasPackageJson source s.checkout).returned = true) :
    Achieves hasPackageJson source s.checkout
      (call.perform hasPackageJson source s.checkout).checkout call := by
  have hinstall : ∀ commands, (installGit hasPackageJson source commands none).returned = true →
      ∃ c, (installGit hasPackageJson source commands none).checkout = some c ∧
        AtRequestedRef source c ∧ DependenciesInstalled hasPackageJson c := by
    intro commands hreturned
    obtain ⟨hspec, hrequested⟩ := @installGit_none Commit hasPackageJson source commands
    obtain ⟨c, hc, hat⟩ := hrequested hreturned
    exact ⟨c, hc, hat, (hspec c hc).2.2 hreturned⟩
  cases call with
  | install commands =>
    cases hcheckout : s.checkout with
    | none =>
      rw [hcheckout] at hreturned
      exact hinstall commands hreturned
    | some c =>
      obtain ⟨hfinished, href⟩ := hresumable c hcheckout
      refine ⟨c, rfl, ?_, h.dependencies c hcheckout hfinished⟩
      rw [AtRequestedRef]
      cases hrequested : requestedRef source with
      | none => exact h.position c hcheckout hrequested
      | some ref => exact href ref hrequested
  | update commands =>
    cases hcheckout : s.checkout with
    | none =>
      rw [hcheckout] at hreturned
      obtain ⟨c, hc, hat, hdependencies⟩ := hinstall commands.install hreturned
      exact ⟨c, hc, hdependencies, hat⟩
    | some c =>
      rw [hcheckout] at hreturned
      obtain ⟨c', hafter, -, hkept, hspec⟩ :=
        @updateGit_some Commit hasPackageJson _ source commands c
      obtain ⟨hfetch, hdependencies⟩ := hspec hreturned
      refine ⟨c', hafter, ?_, hfetch⟩
      cases hchanged : (updateGit hasPackageJson source commands (some c)).changed with
      | true => exact hdependencies hchanged
      | false =>
        obtain ⟨hhead, hinstalled⟩ := hkept hchanged
        rw [hhead] at hfetch
        rw [DependenciesInstalled, hhead, hinstalled]
        exact h.dependencies c hcheckout (hresumable c hcheckout hfetch)

def unpinnedSource : GitSource := ⟨js "https://host/a", js "host", js "a", none, false⟩

/-- A clone of revision one, whose dependencies are installed or not. -/
def cloneOne (npmInstall : Bool) : InstallCommands Nat :=
  ⟨some ⟨1, some 1, some 1⟩, none, npmInstall⟩

end AcademicAgent.AgentHost
