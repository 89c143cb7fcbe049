import AcademicAgent.AgentHost.SettingsSetters
import AcademicAgent.Core.WriteBehind

/-!
# Settings are kept

Each scope writes behind: what is marked is in the last queued write, and a write that succeeds
leaves what it had and what was queued later.
-/

namespace AcademicAgent

open Function (update update_of_ne update_self)

namespace SettingsManager

open Json List Session

variable {t : Session} {scope : SettingsScope} {rest : List Write} {changed : ScopeSettings}
  {values : List (Path × Option Tree)}

/-- What is marked, queued for its scope, or in the file as it was last set. -/
def Session.Keeps (s : Session) (scope : SettingsScope) (file : SettingsFile) (queue : List Write)
    (p : Path) : Prop :=
  p ∈ (s.manager.scopes scope).modified.paths ∨
    (∃ w ∈ queue, w.scope = scope ∧ p ∈ w.modified.paths) ∨
      assocGet p (s.assigned scope) = some (file.read.at p)

/-- A write may fail when what it holds is still marked, queued later, or in the file. The
file may be changed when what was set is marked, queued, or in the new file. -/
def Session.Permits (s : Session) : Event → Prop
  | .set _ => True
  | .write fails =>
    match s.manager.writeQueue with
    | [] => True
    | w :: rest => (fails || (s.files w.scope).load.isNone) = true →
      ∀ p ∈ w.modified.paths, s.Keeps w.scope (s.files w.scope) rest p
  | .edit scope file =>
    ∀ p ∈ (s.assigned scope).map Prod.fst, s.Keeps scope file s.manager.writeQueue p

instance (s : Session) (scope : SettingsScope) (file : SettingsFile) (queue : List Write)
    (p : Path) : Decidable (s.Keeps scope file queue p) :=
  inferInstanceAs (Decidable (_ ∨ _ ∨ _))

instance (s : Session) (event : Event) : Decidable (s.Permits event) :=
  match event with
  | .set _ => isTrue trivial
  | .write fails =>
    match h : s.manager.writeQueue with
    | [] => isTrue (by simp only [Session.Permits, h])
    | w :: rest =>
      decidable_of_iff ((fails || (s.files w.scope).load.isNone) = true →
        ∀ p ∈ w.modified.paths, s.Keeps w.scope (s.files w.scope) rest p)
        (by simp only [Session.Permits, h])
  | .edit scope file =>
    inferInstanceAs (Decidable
      (∀ p ∈ (s.assigned scope).map Prod.fst, s.Keeps scope file s.manager.writeQueue p))

/-- The file of a scope holds what was last set, and otherwise what it had. -/
structure Session.Holds (s : Session) (scope : SettingsScope) : Prop where
  set : ∀ p v, assocGet p (s.assigned scope) = some v → (s.files scope).read.at p = v
  unset : ∀ p, (∀ q ∈ (s.assigned scope).map Prod.fst, ¬ q.overlaps p) →
    (s.files scope).read.at p = (s.origin scope).at p

def Write.queued (w : Write) : QueuedWrite Path (Option Tree) where
  paths p := p ∈ w.modified.paths
  touches p := ∃ q ∈ w.modified.paths, q.overlaps p
  values := w.snapshot.at

def Session.view (s : Session) (scope : SettingsScope) : WriteBehind Path (Option Tree) where
  file := (s.files scope).read.at
  memory := (s.manager.scopes scope).settings.at
  marked p := p ∈ (s.manager.scopes scope).modified.paths
  queue := (s.manager.writeQueue.filter fun w => decide (w.scope = scope)).map Write.queued
  assigned p := p ∈ (s.assigned scope).map Prod.fst
  touched p := ∃ q ∈ (s.assigned scope).map Prod.fst, q.overlaps p
  origin := (s.origin scope).at
  written := s.lastWrite scope = some true

structure Session.Inv (s : Session) : Prop where
  memory : ∀ scope, Marks (s.manager.scopes scope).settings (s.manager.scopes scope).modified
  queued : ∀ w ∈ s.manager.writeQueue, Marks w.snapshot w.modified
  proper : ∀ scope, ∀ p ∈ (s.assigned scope).map Prod.fst, p.Proper
  last : ∀ scope p v, assocGet p (s.assigned scope) = some v →
    (s.manager.scopes scope).settings.at p = v
  failed : ∀ scope, (s.manager.scopes scope).loadError = true →
    s.lastWrite scope ≠ some true ∧ ∀ w ∈ s.manager.writeQueue, w.scope ≠ scope
  view : ∀ scope, (s.manager.scopes scope).loadError = false → (s.view scope).Inv

theorem inv_fromStorage (files : SettingsScope → SettingsFile) : (fromStorage files).Inv where
  memory scope := ⟨nofun, nofun, nofun, nofun⟩
  queued := nofun
  proper scope := nofun
  last scope p v h := nomatch h
  failed scope _ := ⟨nofun, nofun⟩
  view scope _ :=
    { marked_assigned := nofun
      queued_assigned := nofun
      queued_touched := nofun
      latest := fun front w back p h => by simp [view, fromStorage] at h
      last_marked := fun front w p h => by simp [view, fromStorage] at h
      clean := fun _ h => nomatch h
      retained := nofun
      untouched := fun _ _ => rfl }

section

variable {s : Session}

theorem Session.Inv.retained (h : s.Inv) {p : Path} (hscopes : t.manager.scopes = s.manager.scopes)
    (hkeeps : s.Keeps scope (t.files scope) t.manager.writeQueue p) :
    (t.view scope).Retained p := by
  rcases hkeeps with hmarked | ⟨w, hw, hscope, hp⟩ | hfile
  · refine .inl ?_
    rw [Session.view, hscopes]
    exact hmarked
  · refine .inr (.inl ⟨w.queued, ?_, hp⟩)
    exact mem_map.mpr ⟨w, mem_filter.mpr ⟨hw, decide_eq_true hscope⟩, rfl⟩
  · refine .inr (.inr ?_)
    have hlast := h.last scope p _ hfile
    rw [Session.view, hscopes]
    exact hlast.symm

theorem Session.view_congr (hfile : t.files scope = s.files scope)
    (hscope : t.manager.scopes scope = s.manager.scopes scope)
    (hqueue : t.manager.writeQueue.filter (fun w => decide (w.scope = scope)) = s.manager.writeQueue.filter fun w => decide (w.scope = scope))
    (hassigned : t.assigned scope = s.assigned scope) (horigin : t.origin scope = s.origin scope)
    (hwrite : t.lastWrite scope = s.lastWrite scope) : t.view scope = s.view scope := by
  rw [view, view, hfile, hscope, hqueue, hassigned, horigin, hwrite]

theorem filter_ne_cons {w : Write} (h : w.scope ≠ scope) :
    rest.filter (fun v => decide (v.scope = scope)) =
      (w :: rest).filter fun v => decide (v.scope = scope) := by
  rw [filter_cons_of_neg (by simpa using h)]

theorem mem_of_assocGet {κ υ : Type} [DecidableEq κ] {k : κ} {v : υ} {m : List (κ × υ)}
    (h : assocGet k m = some v) : (k, v) ∈ m := by
  induction m with
  | nil => cases h
  | cons head m ih =>
    obtain ⟨l, w⟩ := head
    rw [assocGet] at h
    split at h
    · rename_i hl
      cases h
      exact hl ▸ mem_cons_self
    · exact mem_cons_of_mem _ (ih h)

/-- What a setter that does not throw does to the session. -/
structure Session.Saved (s t : Session) (scope : SettingsScope) (changed : ScopeSettings)
    (values : List (Path × Option Tree)) : Prop where
  scopes_eq : t.manager.scopes = update s.manager.scopes scope changed
  queue_eq : t.manager.writeQueue =
    if changed.loadError then s.manager.writeQueue
    else s.manager.writeQueue ++ [⟨scope, changed.settings, changed.modified⟩]
  assigned_eq : t.assigned = update s.assigned scope (values.reverse ++ s.assigned scope)
  files_eq : t.files = s.files
  origin_eq : t.origin = s.origin
  lastWrite_eq : t.lastWrite = s.lastWrite

theorem saved_set {a : Assignment} (h : (s.manager.scopes scope).assign a = some changed) :
    s.Saved (s.set scope a) scope changed a.values := by
  rw [Session.set, h]
  exact ⟨rfl, rfl, rfl, rfl, rfl, rfl⟩

theorem Session.Saved.mem_assigned (h : s.Saved t scope changed values) (p : Path) :
    p ∈ (t.assigned scope).map Prod.fst ↔
      p ∈ (s.assigned scope).map Prod.fst ∨ p ∈ values.map Prod.fst := by
  rw [h.assigned_eq, update_self, map_append, map_reverse, mem_append, mem_reverse, or_comm]

theorem Session.Inv.assign_view (h : s.Inv) (hsaved : s.Saved t scope changed values)
    (hassigns : Assigns (s.manager.scopes scope) changed values) (hload : changed.loadError = false)
    : WriteBehind.Assign (s.view scope) (t.view scope) (fun p => p ∈ values.map Prod.fst)
      fun p => ∃ q ∈ values.map Prod.fst, q.overlaps p := by
  have hscope : t.manager.scopes scope = changed := by
    rw [hsaved.scopes_eq, update_self]
  have hold : (s.manager.scopes scope).loadError = false := hassigns.loadError.symm.trans hload
  have hmarked (p : Path) (hp : p ∈ changed.modified.paths) :
      p ∈ (t.assigned scope).map Prod.fst := by
    rw [hsaved.mem_assigned]
    rcases (hassigns.paths p).mp hp with hp | hp
    · exact .inl ((h.view scope hold).marked_assigned p hp)
    · exact .inr hp
  refine ⟨?_, ?_, fun p hp hassigned => ?_, fun p => ?_, ?_, fun p => hsaved.mem_assigned p,
    fun p hp => ?_⟩
  · rw [Session.view, Session.view, hsaved.files_eq]
  · rw [Session.view, Session.view, hsaved.origin_eq]
  · rw [Session.view, hscope]
    exact hassigns.at_other p (h.proper scope p hassigned) hp
  · rw [Session.view, hscope]
    exact hassigns.paths p
  · refine ⟨Write.queued ⟨scope, changed.settings, changed.modified⟩, ?_, fun p => ?_, fun p => ?_,
      ?_⟩
    · rw [Session.view, hsaved.queue_eq, if_neg (by rw [hload]; decide), filter_append,
        map_append, filter_cons_of_pos (by simp)]
      rfl
    · rw [Session.view, hscope]
      rfl
    · rintro ⟨q, hq, hoverlaps⟩
      exact ⟨q, hmarked q hq, hoverlaps⟩
    · rw [Session.view, hscope]
      rfl
  · rcases hp with ⟨q, hq, hoverlaps⟩ | ⟨q, hq, hoverlaps⟩
    · exact ⟨q, (hsaved.mem_assigned q).mpr (.inl hq), hoverlaps⟩
    · exact ⟨q, (hsaved.mem_assigned q).mpr (.inr hq), hoverlaps⟩

theorem Session.Inv.saved (h : s.Inv) (hsaved : s.Saved t scope changed values)
    (hassigns : Assigns (s.manager.scopes scope) changed values) : t.Inv := by
  have hscope : t.manager.scopes scope = changed := by
    rw [hsaved.scopes_eq, update_self]
  have hother {other : SettingsScope} (ho : other ≠ scope) :
      t.manager.scopes other = s.manager.scopes other := by
    rw [hsaved.scopes_eq, update_of_ne ho]
  have hassigned {other : SettingsScope} (ho : other ≠ scope) :
      t.assigned other = s.assigned other := by
    rw [hsaved.assigned_eq, update_of_ne ho]
  have hload (other : SettingsScope) :
      (t.manager.scopes other).loadError = (s.manager.scopes other).loadError := by
    by_cases ho : other = scope
    · subst ho
      rw [hscope, hassigns.loadError]
    · rw [hother ho]
  have hqueue {w : Write} (hw : w ∈ t.manager.writeQueue) : w ∈ s.manager.writeQueue ∨
      changed.loadError = false ∧ w = ⟨scope, changed.settings, changed.modified⟩ := by
    rw [hsaved.queue_eq] at hw
    split at hw
    · exact .inl hw
    · rename_i hno
      rcases mem_append.mp hw with hw | hw
      · exact .inl hw
      · exact .inr ⟨Bool.not_eq_true _ ▸ hno, mem_singleton.mp hw⟩
  refine ⟨fun other => ?_, fun w hw => ?_, fun other p hp => ?_, fun other p v hget => ?_,
    fun other hfail => ?_, fun other hok => ?_⟩
  · by_cases ho : other = scope
    · subst ho
      rw [hscope]
      exact hassigns.marks
    · rw [hother ho]
      exact h.memory other
  · rcases hqueue hw with hw | ⟨-, rfl⟩
    · exact h.queued w hw
    · exact hassigns.marks
  · by_cases ho : other = scope
    · subst ho
      rcases (hsaved.mem_assigned p).mp hp with hp | hp
      · exact h.proper other p hp
      · exact hassigns.proper p hp
    · rw [hassigned ho] at hp
      exact h.proper other p hp
  · by_cases ho : other = scope
    · subst ho
      rw [hsaved.assigned_eq, update_self, assocGet_append] at hget
      rw [hscope]
      cases hnew : assocGet p values.reverse with
      | some w =>
        rw [hnew] at hget
        cases hget
        exact hassigns.at_mem p v (mem_reverse.mp (mem_of_assocGet hnew))
      | none =>
        rw [hnew] at hget
        have hold : assocGet p (s.assigned other) = some v := hget
        have hno : p ∉ values.map Prod.fst := by
          rw [assocGet_eq_none_iff, map_reverse, mem_reverse] at hnew
          exact hnew
        have hkey : p ∈ (s.assigned other).map Prod.fst :=
          mem_map.mpr ⟨(p, v), mem_of_assocGet hold, rfl⟩
        rw [hassigns.at_other p (h.proper other p hkey) hno]
        exact h.last other p v hold
    · rw [hassigned ho] at hget
      rw [hother ho]
      exact h.last other p v hget
  · rw [hload other] at hfail
    obtain ⟨hwrite, hno⟩ := h.failed other hfail
    rw [hsaved.lastWrite_eq]
    refine ⟨hwrite, fun w hw => ?_⟩
    rcases hqueue hw with hw | ⟨hok, rfl⟩
    · exact hno w hw
    · rintro rfl
      rw [hassigns.loadError, hfail] at hok
      cases hok
  · rw [hload other] at hok
    by_cases ho : other = scope
    · subst ho
      exact (h.view other hok).assign (h.assign_view hsaved hassigns (hassigns.loadError.trans hok))
    · have hview : t.view other = s.view other := by
        refine view_congr (by rw [hsaved.files_eq]) (hother ho) ?_ (hassigned ho)
          (by rw [hsaved.origin_eq]) (by rw [hsaved.lastWrite_eq])
        rw [hsaved.queue_eq]
        split
        · rfl
        · rw [filter_append, filter_cons_of_neg (by simpa using Ne.symm ho), filter_nil, append_nil]
      rw [hview]
      exact h.view other hok

theorem Session.Inv.set (h : s.Inv) (scope : SettingsScope) {a : Assignment} (hgood : a.Good) :
    (s.set scope a).Inv := by
  cases hassign : (s.manager.scopes scope).assign a with
  | none =>
    rw [Session.set, hassign]
    exact h
  | some changed =>
    exact h.saved (saved_set hassign) (assigns_of_assign (h.memory scope) hgood hassign)

section

variable {w : Write} {rest : List Write}

theorem view_queue_cons (hqueue : s.manager.writeQueue = w :: rest) : (s.view w.scope).queue =
      w.queued :: (rest.filter fun v => decide (v.scope = w.scope)).map Write.queued := by
  rw [view, hqueue, filter_cons_of_pos (by simp), map_cons]

theorem write_of_fails {fails : Bool} (hfails : (fails || (s.files w.scope).load.isNone) = true) :
    s.write w rest fails = { s with
      manager := { s.manager with writeQueue := rest }
      lastWrite := update s.lastWrite w.scope (some false) } := by
  have hnone : (if fails then none else (s.files w.scope).load) = none := by
    cases fails with
    | true => rfl
    | false =>
      rw [Bool.false_or, Option.isNone_iff_eq_none] at hfails
      exact hfails
  rw [write, hnone]

theorem write_of_succeeds {fails : Bool} {current : Settings}
    (hfails : fails = false) (hload : (s.files w.scope).load = some current) :
    s.write w rest fails = { s with
      manager := { s.manager with writeQueue := rest }.clearModifiedScope w.scope
      files := update s.files w.scope
        (.content (persistScopedSettings current w.snapshot w.modified))
      lastWrite := update s.lastWrite w.scope (some true) } := by
  rw [write, hfails, if_neg (by decide), hload]

end

theorem Session.Inv.fail (h : s.Inv) {w : Write} (hqueue : s.manager.writeQueue = w :: rest)
    (hkeeps : ∀ p ∈ w.modified.paths, s.Keeps w.scope (s.files w.scope) rest p) :
    Session.Inv { s with
      manager := { s.manager with writeQueue := rest }
      lastWrite := update s.lastWrite w.scope (some false) } := by
  have hmem {v : Write} (hv : v ∈ rest) : v ∈ s.manager.writeQueue := by
    rw [hqueue]
    exact mem_cons_of_mem _ hv
  refine ⟨h.memory, fun v hv => h.queued v (hmem hv), h.proper, h.last, fun other hfail => ?_,
    fun other hok => ?_⟩
  · obtain ⟨hwrite, hno⟩ := h.failed other hfail
    refine ⟨?_, fun v hv => hno v (hmem hv)⟩
    have hne : other ≠ w.scope := fun heq => hno w (by rw [hqueue]; exact mem_cons_self)
      heq.symm
    dsimp only
    rw [update_of_ne hne]
    exact hwrite
  · have hinv := h.view other hok
    by_cases ho : other = w.scope
    · subst ho
      refine hinv.disturb ⟨.inr ⟨w.queued, view_queue_cons hqueue⟩, rfl, rfl, rfl, rfl, ?_, ?_, ?_⟩
      · intro _ hwritten
        have hfalse : update s.lastWrite w.scope (some false) w.scope = some true :=
          hwritten
        rw [update_self] at hfalse
        cases hfalse
      · exact hinv.untouched
      · intro p hp
        rcases hinv.retained p hp with hmarked | ⟨v, hv, hvp⟩ | hfile
        · exact .inl hmarked
        · rw [view_queue_cons hqueue] at hv
          rcases mem_cons.mp hv with rfl | hv
          · refine Session.Inv.retained h rfl ?_
            exact hkeeps p hvp
          · exact .inr (.inl ⟨v, hv, hvp⟩)
        · exact .inr (.inr hfile)
    · have hview : Session.view { s with
          manager := { s.manager with writeQueue := rest }
          lastWrite := update s.lastWrite w.scope (some false) } other = s.view other := by
        refine Session.view_congr rfl rfl ?_ rfl rfl (update_of_ne ho _ _)
        rw [hqueue]
        exact filter_ne_cons (Ne.symm ho)
      rw [hview]
      exact hinv

theorem Session.Inv.succeed (h : s.Inv) {w : Write} {current : Settings}
    (hqueue : s.manager.writeQueue = w :: rest) (hload : (s.files w.scope).load = some current) :
    Session.Inv { s with
      manager := { s.manager with writeQueue := rest }.clearModifiedScope w.scope
      files := update s.files w.scope
        (.content (persistScopedSettings current w.snapshot w.modified))
      lastWrite := update s.lastWrite w.scope (some true) } := by
  have hhead : w ∈ s.manager.writeQueue := by
    rw [hqueue]
    exact mem_cons_self
  have hmem {v : Write} (hv : v ∈ rest) : v ∈ s.manager.writeQueue := by
    rw [hqueue]
    exact mem_cons_of_mem _ hv
  have hmarks : Marks w.snapshot w.modified := h.queued w hhead
  have hread : (s.files w.scope).read = current := by
    rw [SettingsFile.read, hload]
    rfl
  have hcurrent : Migrated current := by
    cases hfile : s.files w.scope with
    | absent =>
      rw [hfile] at hload
      cases hload
      exact ⟨nofun, nofun, nofun, nofun⟩
    | unreadable =>
      rw [hfile] at hload
      cases hload
    | content settings =>
      rw [hfile] at hload
      cases hload
      exact migrated_migrateSettings settings
  have hwritten : (SettingsFile.content (persistScopedSettings current w.snapshot
      w.modified)).read = persistScopedSettings current w.snapshot w.modified :=
    migrateSettings_of_migrated (hmarks.migrated_persist hcurrent)
  have hscope : ({ s.manager with writeQueue := rest }.clearModifiedScope w.scope).scopes w.scope =
      { s.manager.scopes w.scope with modified := .empty } := update_self _ _ _
  have hother {other : SettingsScope} (ho : other ≠ w.scope) :
      ({ s.manager with writeQueue := rest }.clearModifiedScope w.scope).scopes other =
        s.manager.scopes other := update_of_ne ho _ _
  have hkept (other : SettingsScope) :
      (({ s.manager with writeQueue := rest }.clearModifiedScope w.scope).scopes other).settings =
          (s.manager.scopes other).settings ∧
        (({ s.manager with writeQueue := rest }.clearModifiedScope w.scope).scopes
          other).loadError = (s.manager.scopes other).loadError := by
    by_cases ho : other = w.scope
    · subst ho
      rw [hscope]
      exact ⟨rfl, rfl⟩
    · rw [hother ho]
      exact ⟨rfl, rfl⟩
  refine ⟨fun other => ?_, fun v hv => h.queued v (hmem hv), h.proper, fun other p v hget => ?_,
    fun other hfail => ?_, fun other hok => ?_⟩
  · by_cases ho : other = w.scope
    · subst ho
      rw [hscope]
      exact ⟨nofun, nofun, nofun, nofun⟩
    · dsimp only
      rw [hother ho]
      exact h.memory other
  · dsimp only
    rw [(hkept other).1]
    exact h.last other p v hget
  · dsimp only at hfail ⊢
    rw [(hkept other).2] at hfail
    obtain ⟨hwrite, hno⟩ := h.failed other hfail
    refine ⟨?_, fun v hv => hno v (hmem hv)⟩
    rw [update_of_ne fun heq => hno w hhead heq.symm]
    exact hwrite
  · dsimp only at hok
    rw [(hkept other).2] at hok
    have hinv := h.view other hok
    by_cases ho : other = w.scope
    · subst ho
      refine hinv.commit (w := w.queued) ⟨view_queue_cons hqueue, ?_, rfl, fun p hp => ?_,
        fun p hassigned hp => ?_, fun p hp => ?_, fun p hp => ?_, rfl, rfl⟩
      · rw [Session.view, Session.view]
        rw [(hkept w.scope).1]
      · rw [Session.view]
        dsimp only
        rw [update_self, hwritten]
        exact hmarks.persist_at hp
      · rw [Session.view, Session.view]
        dsimp only
        rw [update_self, hwritten, hread]
        exact hmarks.persist_at_other (h.proper w.scope p hassigned) hp
      · rw [Session.view, Session.view]
        dsimp only
        rw [update_self, hwritten, hread]
        exact hmarks.persist_at_untouched fun q hq hoverlaps => hp ⟨q, hq, hoverlaps⟩
      · rw [Session.view] at hp
        rw [hscope] at hp
        cases hp
    · have hview : Session.view { s with
          manager := { s.manager with writeQueue := rest }.clearModifiedScope w.scope
          files := update s.files w.scope
            (.content (persistScopedSettings current w.snapshot w.modified))
          lastWrite := update s.lastWrite w.scope (some true) } other = s.view other := by
        refine Session.view_congr (update_of_ne ho _ _) (hother ho) ?_ rfl rfl (update_of_ne ho _ _)
        rw [hqueue]
        exact filter_ne_cons (Ne.symm ho)
      rw [hview]
      exact hinv

theorem Session.Inv.edit (h : s.Inv) (scope : SettingsScope) (file : SettingsFile)
    (hkeeps : ∀ p ∈ (s.assigned scope).map Prod.fst,
      s.Keeps scope file s.manager.writeQueue p) : Session.Inv { s with
      files := update s.files scope file
      origin := update s.origin scope file.read } := by
  refine ⟨h.memory, h.queued, h.proper, h.last, h.failed, fun other hok => ?_⟩
  have hinv := h.view other hok
  by_cases ho : other = scope
  · subst ho
    refine hinv.disturb ⟨.inl rfl, rfl, rfl, rfl, rfl, fun hnil hwritten => ⟨hnil, hwritten⟩,
      fun p _ => ?_, fun p hp => ?_⟩
    · rw [Session.view]
      dsimp only
      rw [update_self, update_self]
    · refine Session.Inv.retained h rfl ?_
      dsimp only
      rw [update_self]
      exact hkeeps p hp
  · have hview : Session.view { s with
        files := update s.files scope file
        origin := update s.origin scope file.read } other = s.view other :=
      Session.view_congr (update_of_ne ho _ _) rfl rfl rfl (update_of_ne ho _ _) rfl
    rw [hview]
    exact hinv

theorem Session.Inv.step {event : Event} (h : s.Inv) (hpermits : s.Permits event)
    (hstep : s.step event = some t) : t.Inv := by
  cases event with
  | set call =>
    cases hstep
    exact h.set _ (good_assignment call)
  | write fails =>
    cases hqueue : s.manager.writeQueue with
    | nil =>
      rw [Session.step, hqueue] at hstep
      cases hstep
    | cons w rest =>
      rw [Session.step, hqueue] at hstep
      rw [Session.Permits, hqueue] at hpermits
      cases hstep
      by_cases hfails : (fails || (s.files w.scope).load.isNone) = true
      · rw [write_of_fails hfails]
        exact h.fail hqueue (hpermits hfails)
      · rw [Bool.not_eq_true, Bool.or_eq_false_iff] at hfails
        obtain ⟨current, hload⟩ : ∃ current, (s.files w.scope).load = some current := by
          cases hload : (s.files w.scope).load with
          | none =>
            rw [hload] at hfails
            exact absurd hfails.2 (by decide)
          | some current => exact ⟨current, rfl⟩
        rw [write_of_succeeds hfails.1 hload]
        exact h.succeed hqueue hload
  | edit scope file =>
    cases hstep
    exact h.edit scope file hpermits

end

/-- In a run that loses nothing, once the queue is drained and the last write of a scope has
succeeded, its file holds what was last set and otherwise what it had. -/
theorem settings_kept {files : SettingsScope → SettingsFile} {events : List Event} {s : Session}
    (hrun : run Session.step (fromStorage files) events = some s)
    (hpermits : Along Session.step Session.Permits (fromStorage files) events)
    (hqueue : s.manager.writeQueue = []) {scope : SettingsScope}
    (hwrite : s.lastWrite scope = some true) : s.Holds scope := by
  have hinv : s.Inv := run_invariant (fun _ _ _ h hp hs => h.step hp hs) (inv_fromStorage files)
    hpermits hrun
  have hok : (s.manager.scopes scope).loadError = false := by
    rw [← Bool.not_eq_true]
    exact fun hfail => (hinv.failed scope hfail).1 hwrite
  have hempty : (s.view scope).queue = [] := by
    rw [Session.view, hqueue]
    rfl
  obtain ⟨hset, hunset⟩ := (hinv.view scope hok).drained hempty hwrite
  refine ⟨fun p v hget => ?_, fun p hp => hunset p fun ⟨q, hq, hoverlaps⟩ => hp q hq hoverlaps⟩
  have hkey : p ∈ (s.assigned scope).map Prod.fst :=
    mem_map.mpr ⟨(p, v), mem_of_assocGet hget, rfl⟩
  exact (hset p hkey).trans (hinv.last scope p v hget)

/-- A write fails, and the next one writes again what it had. -/
def retriedEvents : List Event :=
  [.set (.setTheme (js "dark")), .write true, .set (.setShowImages false),
    .set (.setProjectThemePaths []), .write false, .write false]

theorem settings_kept_retried : ∃ s,
    run Session.step (fromStorage fun _ => .absent) retriedEvents = some s ∧ s.Holds .global := by
  have hrun : ∃ s, run Session.step (fromStorage fun _ => .absent) retriedEvents = some s ∧
      s.manager.writeQueue = [] ∧ s.lastWrite .global = some true := ⟨_, rfl, rfl, rfl⟩
  have hpermits : Along Session.step Session.Permits (fromStorage fun _ => .absent)
      retriedEvents := by decide
  obtain ⟨s, hs, hqueue, hwrite⟩ := hrun
  exact ⟨s, hs, settings_kept hs hpermits hqueue hwrite⟩

/-- Two settings are queued, the first write succeeds and clears both marks, the second
fails, and the write of a third setting succeeds without the second. -/
theorem settings_not_kept : ¬ ∀ (files : SettingsScope → SettingsFile) (events : List Event)
    (s : Session) (scope : SettingsScope),
    run Session.step (fromStorage files) events = some s → s.manager.writeQueue = [] →
      s.lastWrite scope = some true → s.Holds scope := by
  intro h
  have hholds := h (fun _ => .absent)
    [.set (.setTheme (js "dark")), .set (.setQuietStartup true), .write false, .write true,
      .set (.setHideThinkingBlock true), .write false] _ .global rfl rfl rfl
  exact absurd (hholds.set (.field (js "quietStartup")) (some (.bool true)) (by decide)) (by decide)

end SettingsManager

end AcademicAgent
