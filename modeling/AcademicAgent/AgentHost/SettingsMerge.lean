import AcademicAgent.AgentHost.SettingsManager

/-!
# Merging settings into a file

Settings that are read are migrated, and stay so when the fields that setters can mark are
merged into them.
-/

namespace AcademicAgent

open Function (update update_of_ne update_self)

variable {f : JsString}

namespace SettingsManager

open Json List

theorem assocGet_setMember {β : Type} (k k' : JsString) (v : β) (ms : List (JsString × β)) :
    assocGet k' (setMember k v ms) = if k = k' then some v else assocGet k' ms := by
  induction ms with
  | nil => simp [setMember, assocGet]
  | cons m ms ih =>
    obtain ⟨l, w⟩ := m
    rw [setMember]
    by_cases hl : l = k
    · subst hl
      rw [if_pos rfl, assocGet, assocGet]
      by_cases hk : l = k'
      · rw [if_pos hk, if_pos hk]
      · rw [if_neg hk, if_neg hk, if_neg hk]
    · rw [if_neg hl]
      split
      · rw [assocGet]
      · rw [assocGet, ih, assocGet]
        by_cases hlk : l = k'
        · rw [if_pos hlk, if_neg (fun hk => hl (hlk.trans hk.symm))]
          rw [if_pos hlk]
        · rw [if_neg hlk, if_neg hlk]

theorem assocGet_assignMember (k k' : JsString) (v : Option Tree) (ms : List (JsString × Tree)) :
    assocGet k' (assignMember ms k v) = if k = k' then v else assocGet k' ms := by
  cases v with
  | none => exact assocGet_filter_ne k k' ms
  | some v => exact assocGet_setMember k k' v ms

theorem assocGet_merged (keys : List JsString) (inMemory base : List (JsString × Tree))
    (k : JsString) :
    assocGet k (keys.foldl (fun merged key => assignMember merged key (assocGet key inMemory))
      base) = if k ∈ keys then assocGet k inMemory else assocGet k base := by
  induction keys generalizing base with
  | nil => rw [foldl_nil, if_neg (not_mem_nil)]
  | cons key keys ih =>
    rw [foldl_cons, ih, assocGet_assignMember]
    by_cases hk : k ∈ keys
    · rw [if_pos hk, if_pos (mem_cons_of_mem _ hk)]
    · rw [if_neg hk]
      by_cases hkey : key = k
      · subst hkey
        rw [if_pos rfl, if_pos mem_cons_self]
      · rw [if_neg hkey, if_neg fun h => hk ((mem_cons.mp h).resolve_left (Ne.symm hkey))]

theorem assocGet_members_numbered {k : JsString} (hk : ∃ c ∈ k, isDigit c = false) {t : Tree}
    (ht : ∀ ms, t ≠ .obj ms) : assocGet k (members t) = none := by
  have hne (n : Nat) : decimalText n ≠ k := by
    rintro rfl
    obtain ⟨c, hc, hno⟩ := hk
    rw [isDigit_of_mem_decimalText c hc] at hno
    cases hno
  rw [assocGet_eq_none_iff]
  cases t with
  | obj ms => exact absurd rfl (ht ms)
  | arr xs | str s =>
    rw [members, map_map]
    intro hmem
    obtain ⟨⟨x, i⟩, -, heq⟩ := mem_map.mp hmem
    exact hne i heq
  | null | bool b | num n => exact not_mem_nil

structure Migrated (s : Settings) : Prop where
  queueMode : (s (js "queueMode")).isSome → (s (js "steeringMode")).isSome
  websockets : s (js "transport") = none → ∀ b, s (js "websockets") ≠ some (.bool b)
  skills : ∀ ms, s (js "skills") ≠ some (.obj ms)
  retry : ∀ t, s (js "retry") = some t → assocGet (js "maxDelayMs") (members t) = none

theorem migrateSettings_of_migrated {s : Settings} (h : Migrated s) : migrateSettings s = s := by
  have hqueue : migrateQueueMode s = s := by
    rw [migrateQueueMode, if_neg]
    rintro ⟨hsome, hnone⟩
    rw [Option.isNone_iff_eq_none] at hnone
    have := h.queueMode hsome
    rw [hnone] at this
    cases this
  have hwebsockets : migrateWebsockets s = s := by
    rw [migrateWebsockets]
    split
    · rename_i htransport hbool
      exact absurd hbool (h.websockets htransport _)
    · rfl
  have hskills : migrateSkills s = s := by
    rw [migrateSkills]
    split
    · rename_i ms hobj
      exact absurd hobj (h.skills ms)
    · rfl
  have hretry : migrateRetry s = s := by
    rw [migrateRetry]
    split
    · rename_i ms hobj
      have hnone : assocGet (js "maxDelayMs") ms = none := h.retry _ hobj
      have hprovider : withProvider ms = ms := by
        rw [withProvider]
        simp only [hnone]
      have hfilter : ms.filter (fun p => !decide (p.1 = js "maxDelayMs")) = ms := by
        rw [assocGet_eq_none_iff] at hnone
        refine filter_eq_self.mpr fun p hp => ?_
        rw [Bool.not_eq_true', decide_eq_false_iff_not]
        exact fun heq => hnone (mem_map.mpr ⟨p, hp, heq⟩)
      rw [hprovider, hfilter, ← hobj, Function.update_eq_self]
    · rfl
  rw [migrateSettings, hqueue, hwebsockets, hskills, hretry]

theorem migrateWebsockets_cases (s : Settings) : (∃ transport, migrateWebsockets s = update
      (update s (js "transport") (some transport)) (js "websockets") none) ∨
      migrateWebsockets s = s ∧
        (s (js "transport") = none → ∀ b, s (js "websockets") ≠ some (.bool b)) := by
  rw [migrateWebsockets]
  split
  · exact .inl ⟨_, rfl⟩
  · rename_i hno
    exact .inr ⟨rfl, fun htransport b hb => hno b htransport hb⟩

theorem migrateSkillCommands_eq (skillsSettings : List (JsString × Tree)) (s : Settings) :
    ∃ enabled, migrateSkillCommands skillsSettings s =
      update s (js "enableSkillCommands") enabled := by
  rw [migrateSkillCommands]
  split
  · exact ⟨_, rfl⟩
  · exact ⟨_, (Function.update_eq_self _ _).symm⟩

section

variable (s : Settings)

theorem migrateSkills_cases :
    (∃ enabled skills, (∀ ms, skills ≠ some (.obj ms)) ∧ migrateSkills s = update
      (update s (js "enableSkillCommands") enabled) (js "skills") skills) ∨
      migrateSkills s = s ∧ ∀ ms, s (js "skills") ≠ some (.obj ms) := by
  rw [migrateSkills]
  split
  · rename_i skillsSettings hskills
    obtain ⟨enabled, henabled⟩ := migrateSkillCommands_eq skillsSettings s
    rw [henabled]
    split
    · exact .inl ⟨enabled, _, by simp, rfl⟩
    · exact .inl ⟨enabled, none, by simp, rfl⟩
  · rename_i hno
    exact .inr ⟨rfl, hno⟩

theorem migrateRetry_cases : (∃ retry, assocGet (js "maxDelayMs") retry = none ∧
      migrateRetry s = update s (js "retry") (some (.obj retry))) ∨
      migrateRetry s = s ∧ ∀ ms, s (js "retry") ≠ some (.obj ms) := by
  rw [migrateRetry]
  split
  · exact .inl ⟨_, by rw [assocGet_filter_ne, if_pos rfl], rfl⟩
  · rename_i hno
    exact .inr ⟨rfl, hno⟩

theorem migrateWebsockets_other (h1 : f ≠ js "transport") (h2 : f ≠ js "websockets") :
    migrateWebsockets s f = s f := by
  rcases migrateWebsockets_cases s with ⟨transport, heq⟩ | ⟨heq, -⟩
  · rw [heq, update_of_ne h2, update_of_ne h1]
  · rw [heq]

theorem migrateSkills_other (h1 : f ≠ js "enableSkillCommands") (h2 : f ≠ js "skills") :
    migrateSkills s f = s f := by
  rcases migrateSkills_cases s with ⟨enabled, skills, -, heq⟩ | ⟨heq, -⟩
  · rw [heq, update_of_ne h2, update_of_ne h1]
  · rw [heq]

theorem migrateRetry_other (h : f ≠ js "retry") : migrateRetry s f = s f := by
  rcases migrateRetry_cases s with ⟨retry, -, heq⟩ | ⟨heq, -⟩
  · rw [heq, update_of_ne h]
  · rw [heq]

theorem migrateQueueMode_spec (h : (migrateQueueMode s (js "queueMode")).isSome) :
    (migrateQueueMode s (js "steeringMode")).isSome := by
  by_cases hmigrate : (s (js "queueMode")).isSome ∧ (s (js "steeringMode")).isNone
  · rw [migrateQueueMode, if_pos hmigrate, update_self] at h
    cases h
  · rw [migrateQueueMode, if_neg hmigrate] at h ⊢
    by_contra hnone
    exact hmigrate ⟨h, by rwa [Option.isNone_iff_eq_none, ← Option.not_isSome_iff_eq_none]⟩

theorem migrateWebsockets_spec (h : migrateWebsockets s (js "transport") = none)
    (b : Bool) : migrateWebsockets s (js "websockets") ≠ some (.bool b) := by
  rcases migrateWebsockets_cases s with ⟨transport, heq⟩ | ⟨heq, hno⟩
  · rw [heq, update_of_ne (by decide), update_self] at h
    cases h
  · rw [heq] at h ⊢
    exact hno h b

theorem migrateSkills_spec (ms : List (JsString × Tree)) :
    migrateSkills s (js "skills") ≠ some (.obj ms) := by
  rcases migrateSkills_cases s with ⟨enabled, skills, hskills, heq⟩ | ⟨heq, hno⟩
  · rw [heq, update_self]
    exact hskills ms
  · rw [heq]
    exact hno ms

theorem migrateRetry_spec (t : Tree) (h : migrateRetry s (js "retry") = some t) :
    assocGet (js "maxDelayMs") (members t) = none := by
  rcases migrateRetry_cases s with ⟨retry, hretry, heq⟩ | ⟨heq, hno⟩
  · rw [heq, update_self] at h
    cases h
    exact hretry
  · rw [heq] at h
    exact assocGet_members_numbered (by decide) fun ms hms => hno ms (hms ▸ h)

theorem migrated_migrateSettings : Migrated (migrateSettings s) := by
  have hqueue {f : JsString} (h1 : f ≠ js "transport") (h2 : f ≠ js "websockets")
      (h3 : f ≠ js "enableSkillCommands") (h4 : f ≠ js "skills") (h5 : f ≠ js "retry") :
      migrateSettings s f = migrateQueueMode s f := by
    rw [migrateSettings, migrateRetry_other _ h5, migrateSkills_other _ h3 h4,
      migrateWebsockets_other _ h1 h2]
  have hwebsockets {f : JsString} (h3 : f ≠ js "enableSkillCommands") (h4 : f ≠ js "skills")
      (h5 : f ≠ js "retry") :
      migrateSettings s f = migrateWebsockets (migrateQueueMode s) f := by
    rw [migrateSettings, migrateRetry_other _ h5, migrateSkills_other _ h3 h4]
  refine ⟨?_, ?_, ?_, migrateRetry_spec _⟩
  · rw [hqueue (by decide) (by decide) (by decide) (by decide) (by decide),
      hqueue (by decide) (by decide) (by decide) (by decide) (by decide)]
    exact migrateQueueMode_spec s
  · rw [hwebsockets (by decide) (by decide) (by decide),
      hwebsockets (by decide) (by decide) (by decide)]
    exact migrateWebsockets_spec _
  · rw [migrateSettings, migrateRetry_other _ (by decide)]
    exact migrateSkills_spec _

end

def nestedFields : List JsString := [js "compaction", js "retry", js "terminal", js "images"]

/-- A value that a field is set to keeps settings migrated. -/
structure Settable (field : JsString) (value : Option Tree) : Prop where
  notMem : field ∉ nestedFields
  not_queueMode : field ≠ js "queueMode"
  not_websockets : field ≠ js "websockets"
  isSome : field = js "steeringMode" ∨ field = js "transport" → value.isSome
  not_object : field = js "skills" → ∀ ms, value ≠ some (.obj ms)

structure SettableMember (field key : JsString) : Prop where
  mem : field ∈ nestedFields
  not_maxDelayMs : key ≠ js "maxDelayMs"

structure Marks (settings : Settings) (modified : Modified) : Prop where
  field : ∀ f ∈ modified.fields, f ∉ nestedFields → Settable f (settings f)
  hasKey : ∀ f ∈ modified.fields, f ∈ nestedFields → modified.keysOf f ≠ []
  member : ∀ f k, (f, k) ∈ modified.nested → SettableMember f k ∧ f ∈ modified.fields
  object : ∀ f k, (f, k) ∈ modified.nested → ∃ v, settings f = some v ∧ isObject v = true

theorem mem_keysOf {modified : Modified} {k : JsString} :
    k ∈ modified.keysOf f ↔ (f, k) ∈ modified.nested := by
  simp [Modified.keysOf]

section

variable {settings current : Settings} {modified : Modified} {f k : JsString}

theorem Marks.keysOf_eq_nil (h : Marks settings modified) (hf : f ∉ nestedFields) :
    modified.keysOf f = [] := by
  refine eq_nil_iff_forall_not_mem.mpr fun k hk => ?_
  exact hf (h.member f k (mem_keysOf.mp hk)).1.mem

theorem Marks.field_mem_paths (h : Marks settings modified) :
    .field f ∈ modified.paths ↔ f ∈ modified.fields ∧ f ∉ nestedFields := by
  rw [Modified.paths, mem_append]
  constructor
  · rintro (hmem | hmem)
    · obtain ⟨g, hg, heq⟩ := mem_map.mp hmem
      cases heq
      rw [mem_filter, List.isEmpty_iff] at hg
      exact ⟨hg.1, fun hnested => h.hasKey f hg.1 hnested hg.2⟩
    · obtain ⟨⟨g, k⟩, -, heq⟩ := mem_map.mp hmem
      cases heq
  · rintro ⟨hf, hnested⟩
    refine .inl (mem_map.mpr ⟨f, ?_, rfl⟩)
    rw [mem_filter, List.isEmpty_iff]
    exact ⟨hf, h.keysOf_eq_nil hnested⟩

theorem member_mem_paths : .member f k ∈ modified.paths ↔ (f, k) ∈ modified.nested := by
  simp [Modified.paths]

theorem persist_other (hf : f ∉ modified.fields) :
    persistScopedSettings current settings modified f = current f := by
  rw [persistScopedSettings, if_neg hf]

section

variable (h : Marks settings modified)
include h

theorem Marks.persist_field (hf : f ∈ modified.fields) (hnested : f ∉ nestedFields) :
    persistScopedSettings current settings modified f = settings f := by
  have hkeys : ¬ (¬ (modified.keysOf f).isEmpty = true) := by
    rw [h.keysOf_eq_nil hnested]
    decide
  rw [persistScopedSettings, if_pos hf]
  split
  · rename_i value hvalue
    rw [if_neg fun hand => hkeys hand.1, hvalue]
  · rename_i hnone
    rw [hnone]

theorem Marks.persist_nested (current : Settings) (hf : f ∈ modified.fields)
    (hnested : f ∈ nestedFields) :
    ∃ ms, persistScopedSettings current settings modified f = some (.obj ms) ∧
      ∀ k, assocGet k ms = if (f, k) ∈ modified.nested then settings.at (.member f k)
        else current.at (.member f k) := by
  obtain ⟨k, hk⟩ := exists_mem_of_ne_nil _ (h.hasKey f hf hnested)
  obtain ⟨v, hv, hobject⟩ := h.object f k (mem_keysOf.mp hk)
  have hkeys : ¬ (modified.keysOf f).isEmpty = true := by
    rw [List.isEmpty_iff]
    exact h.hasKey f hf hnested
  have hcurrent (k : JsString) : assocGet k (((current f).map members).getD []) =
      current.at (.member f k) := by
    rw [Settings.at]
    cases current f <;> rfl
  rw [persistScopedSettings, if_pos hf, hv]
  dsimp only
  rw [if_pos ⟨hkeys, hobject⟩]
  refine ⟨_, rfl, fun k => ?_⟩
  have hsettings : settings.at (.member f k) = assocGet k (members v) := by
    rw [Settings.at, hv, Option.bind_some]
  rw [assocGet_merged, hcurrent, hsettings]
  simp only [mem_keysOf]

theorem Marks.persist_at {p : Path} (hp : p ∈ modified.paths) :
    (persistScopedSettings current settings modified).at p = settings.at p := by
  cases p with
  | field f =>
    obtain ⟨hf, hnested⟩ := h.field_mem_paths.mp hp
    exact h.persist_field hf hnested
  | member f k =>
    have hmem := member_mem_paths.mp hp
    obtain ⟨hsettable, hf⟩ := h.member f k hmem
    obtain ⟨ms, hms, hget⟩ := h.persist_nested current hf hsettable.mem
    rw [Settings.at, hms, Option.bind_some, members, hget k, if_pos hmem]

end

def Path.Proper : Path → Prop
  | .field f => f ∉ nestedFields
  | .member f _ => f ∈ nestedFields

theorem Marks.persist_at_other (h : Marks settings modified) {p : Path} (hproper : p.Proper)
    (hp : p ∉ modified.paths) :
    (persistScopedSettings current settings modified).at p = current.at p := by
  cases p with
  | field f =>
    have hf : f ∉ modified.fields := fun hf => hp (h.field_mem_paths.mpr ⟨hf, hproper⟩)
    exact persist_other hf
  | member f k =>
    have hmem : (f, k) ∉ modified.nested := fun hmem => hp (member_mem_paths.mpr hmem)
    by_cases hf : f ∈ modified.fields
    · obtain ⟨ms, hms, hget⟩ := h.persist_nested current hf hproper
      rw [Settings.at, hms, Option.bind_some, members, hget k, if_neg hmem]
    · rw [Settings.at, persist_other hf]
      rfl

def Path.overlaps : Path → Path → Prop
  | .field f, .field g | .field f, .member g _ | .member f _, .field g => f = g
  | .member f k, .member g l => f = g ∧ k = l

theorem Marks.persist_at_untouched (h : Marks settings modified) {p : Path}
    (hp : ∀ q ∈ modified.paths, ¬ q.overlaps p) :
    (persistScopedSettings current settings modified).at p = current.at p := by
  have hfield (f : JsString) (hf : f ∈ modified.fields) :
      f ∉ nestedFields ∧ .field f ∈ modified.paths ∨
        f ∈ nestedFields ∧ ∃ k, .member f k ∈ modified.paths := by
    by_cases hnested : f ∈ nestedFields
    · obtain ⟨k, hk⟩ := exists_mem_of_ne_nil _ (h.hasKey f hf hnested)
      exact .inr ⟨hnested, k, member_mem_paths.mpr (mem_keysOf.mp hk)⟩
    · exact .inl ⟨hnested, h.field_mem_paths.mpr ⟨hf, hnested⟩⟩
  cases p with
  | field f =>
    by_cases hf : f ∈ modified.fields
    · rcases hfield f hf with ⟨-, hmem⟩ | ⟨-, k, hmem⟩
      all_goals exact absurd rfl (hp _ hmem)
    · exact persist_other hf
  | member f k =>
    by_cases hf : f ∈ modified.fields
    · rcases hfield f hf with ⟨-, hmem⟩ | ⟨hnested, -, -⟩
      · exact absurd rfl (hp _ hmem)
      · refine h.persist_at_other hnested fun hmem => hp _ hmem ⟨rfl, rfl⟩
    · rw [Settings.at, persist_other hf]
      rfl

theorem Marks.migrated_persist (h : Marks settings modified) (hcurrent : Migrated current) :
    Migrated (persistScopedSettings current settings modified) := by
  have hlegacy {f : JsString} (hf : f ∉ nestedFields) (hno : ∀ v, ¬ Settable f v) :
      persistScopedSettings current settings modified f = current f :=
    persist_other fun hmem => hno _ (h.field f hmem hf)
  have hsome {f : JsString} (hf : f ∉ nestedFields)
      (hset : ∀ v, Settable f v → v.isSome) (hcur : (current f).isSome) :
      (persistScopedSettings current settings modified f).isSome := by
    by_cases hmem : f ∈ modified.fields
    · rw [h.persist_field hmem hf]
      exact hset _ (h.field f hmem hf)
    · rw [persist_other hmem]
      exact hcur
  refine ⟨?_, ?_, ?_, ?_⟩
  · rw [hlegacy (by decide) fun v hv => hv.not_queueMode rfl]
    intro hqueue
    exact hsome (by decide) (fun v hv => hv.isSome (.inl rfl)) (hcurrent.queueMode hqueue)
  · rw [hlegacy (f := js "websockets") (by decide) fun v hv => hv.not_websockets rfl]
    intro hnone
    refine hcurrent.websockets (Option.not_isSome_iff_eq_none.mp fun hcur => ?_)
    have := hsome (f := js "transport") (by decide) (fun v hv => hv.isSome (.inr rfl)) hcur
    rw [hnone] at this
    cases this
  · intro ms
    by_cases hmem : js "skills" ∈ modified.fields
    · rw [h.persist_field hmem (by decide)]
      exact (h.field _ hmem (by decide)).not_object rfl ms
    · rw [persist_other hmem]
      exact hcurrent.skills ms
  · intro t ht
    by_cases hmem : js "retry" ∈ modified.fields
    · obtain ⟨ms, hms, hget⟩ := h.persist_nested current hmem (by decide)
      rw [hms] at ht
      cases ht
      have hkey : (js "retry", js "maxDelayMs") ∉ modified.nested :=
        fun hkey => (h.member _ _ hkey).1.not_maxDelayMs rfl
      rw [members, hget, if_neg hkey, Settings.at]
      cases hretry : current (js "retry") with
      | none => rfl
      | some t => exact hcurrent.retry t hretry
    · rw [persist_other hmem] at ht
      exact hcurrent.retry t ht

end

end SettingsManager

end AcademicAgent
