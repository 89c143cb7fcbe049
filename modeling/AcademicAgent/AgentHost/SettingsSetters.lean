import AcademicAgent.AgentHost.SettingsMerge

/-!
# What setters do

A setter that does not throw marks what it assigns, and the settings of its scope hold
the new values and otherwise what they held.
-/

namespace AcademicAgent

open Function (update update_of_ne update_self)

namespace SettingsManager

open Json List Assignment

def Assignment.Good : Assignment → Prop
  | .fields values => (values.map Prod.fst).Nodup ∧ ∀ f v, (f, v) ∈ values → Settable f v
  | .nested f k _ => SettableMember f k

/-- The fields that migration or a setter of a member treats in its own way. -/
def specialFields : List JsString :=
  nestedFields ++ [js "queueMode", js "websockets", js "steeringMode", js "transport", js "skills"]

theorem settable_of_notMem {f : JsString} (h : f ∉ specialFields) (v : Option Tree) :
    Settable f v := by
  simp only [specialFields, mem_append, mem_cons, not_mem_nil, or_false, not_or] at h
  obtain ⟨h1, h2, h3, h4, h5, h6⟩ := h
  exact ⟨h1, h2, h3, fun hor => hor.elim (fun h => absurd h h4) fun h => absurd h h5,
    fun h => absurd h h6⟩

theorem good_field {f : JsString} {v : Option Tree} (h : Settable f v) :
    (fields [(f, v)]).Good := by
  refine ⟨by simp, fun g w hmem => ?_⟩
  cases mem_singleton.mp hmem
  exact h

theorem good_assignment (call : Call) : call.assignment.2.Good := by
  cases call with
  | setDefaultModelAndProvider provider modelId =>
    refine ⟨show [js "defaultProvider", js "defaultModel"].Nodup by decide, fun f v hmem => ?_⟩
    rcases mem_cons.mp hmem with heq | hmem
    · cases heq
      exact settable_of_notMem (by decide) _
    · cases mem_singleton.mp hmem
      exact settable_of_notMem (by decide) _
  | setSteeringMode mode | setTransport transport =>
    refine good_field ⟨by decide, by decide, by decide, fun _ => rfl, fun h => ?_⟩
    exact absurd h (by decide)
  | setSkillPaths paths | setProjectSkillPaths paths =>
    refine good_field ⟨by decide, by decide, by decide, fun _ => rfl, fun _ ms h => ?_⟩
    cases h
  | setCompactionEnabled enabled | setRetryEnabled enabled | setShowImages showImages
  | setImageWidthCells width | setClearOnShrink enabled | setShowTerminalProgress enabled
  | setImageAutoResize enabled | setBlockImages blocked => exact ⟨by decide, by decide⟩
  | _ =>
    refine good_field (settable_of_notMem ?_ _)
    decide

/-- What an assignment does to the settings of a scope. -/
structure Assigns (scope changed : ScopeSettings) (values : List (Path × Option Tree)) : Prop where
  marks : Marks changed.settings changed.modified
  loadError : changed.loadError = scope.loadError
  paths : ∀ p, p ∈ changed.modified.paths ↔ p ∈ scope.modified.paths ∨ p ∈ values.map Prod.fst
  proper : ∀ p ∈ values.map Prod.fst, p.Proper
  at_mem : ∀ p v, (p, v) ∈ values → changed.settings.at p = v
  at_other : ∀ p, p.Proper → p ∉ values.map Prod.fst → changed.settings.at p = scope.settings.at p

section

variable {scope changed : ScopeSettings}

section

variable {values : List (JsString × Option Tree)} {f : JsString}

theorem foldl_update_notMem (h : f ∉ values.map Prod.fst) (s : Settings) :
    values.foldl (fun settings (field, value) => update settings field value) s f = s f := by
  induction values generalizing s with
  | nil => rfl
  | cons head values ih =>
    obtain ⟨g, v⟩ := head
    rw [map_cons, mem_cons, not_or] at h
    rw [foldl_cons, ih h.2]
    exact update_of_ne h.1 _ _

theorem foldl_update_mem
    {v : Option Tree} (hnodup : (values.map Prod.fst).Nodup) (h : (f, v) ∈ values) (s : Settings) :
    values.foldl (fun settings (field, value) => update settings field value) s f = v := by
  induction values generalizing s with
  | nil => cases h
  | cons head values ih =>
    obtain ⟨g, w⟩ := head
    rw [map_cons, nodup_cons] at hnodup
    rw [foldl_cons]
    rcases mem_cons.mp h with heq | hmem
    · cases heq
      rw [foldl_update_notMem hnodup.1]
      exact update_self _ _ _
    · exact ih hnodup.2 hmem _

end

theorem foldl_mark (values : List (JsString × Option Tree)) (modified : Modified) :
    (∀ f, f ∈ (values.foldl (fun modified (field, _) => modified.mark field none)
        modified).fields ↔ f ∈ modified.fields ∨ f ∈ values.map Prod.fst) ∧
      (values.foldl (fun modified (field, _) => modified.mark field none) modified).nested =
        modified.nested := by
  induction values generalizing modified with
  | nil => simp
  | cons head values ih =>
    obtain ⟨g, v⟩ := head
    obtain ⟨hfields, hnested⟩ := ih (modified.mark g none)
    rw [foldl_cons]
    refine ⟨fun f => ?_, hnested⟩
    rw [hfields, Modified.mark, mem_insert_iff, map_cons, mem_cons]
    tauto

section

variable (hmarks : Marks scope.settings scope.modified)
include hmarks

theorem assigns_fields
    {values : List (JsString × Option Tree)} (hgood : (fields values).Good) :
    Assigns scope (scope.setFields values) (fields values).values := by
  obtain ⟨hnodup, hsettable⟩ := hgood
  obtain ⟨hfields, hnested⟩ := foldl_mark values scope.modified
  have hpaths (p : Path) : p ∈ (fields values).values.map Prod.fst ↔
      ∃ f ∈ values.map Prod.fst, p = .field f := by
    rw [Assignment.values, map_map, mem_map]
    constructor
    · rintro ⟨⟨f, v⟩, hmem, rfl⟩
      exact ⟨f, mem_map.mpr ⟨(f, v), hmem, rfl⟩, rfl⟩
    · rintro ⟨f, hf, rfl⟩
      obtain ⟨⟨g, v⟩, hmem, rfl⟩ := mem_map.mp hf
      exact ⟨(g, v), hmem, rfl⟩
  have hplain {f : JsString} (hf : f ∈ values.map Prod.fst) : f ∉ nestedFields := by
    obtain ⟨⟨g, v⟩, hmem, rfl⟩ := mem_map.mp hf
    exact (hsettable g v hmem).notMem
  have hother {f : JsString} (hf : f ∉ values.map Prod.fst) :
      (scope.setFields values).settings f = scope.settings f := foldl_update_notMem hf _
  have hmarks' : Marks (scope.setFields values).settings (scope.setFields values).modified := by
    refine ⟨fun f hf hno => ?_, fun f hf hin => ?_, fun f k hk => ?_, fun f k hk => ?_⟩
    · by_cases hmem : f ∈ values.map Prod.fst
      · obtain ⟨⟨g, v⟩, hgv, rfl⟩ := mem_map.mp hmem
        rw [show (scope.setFields values).settings g = v from foldl_update_mem hnodup hgv _]
        exact hsettable g v hgv
      · rw [hother hmem]
        exact hmarks.field f (((hfields f).mp hf).resolve_right hmem) hno
    · have hold : f ∈ scope.modified.fields :=
        ((hfields f).mp hf).resolve_right fun hmem => hplain hmem hin
      have hkeys : (scope.setFields values).modified.keysOf f = scope.modified.keysOf f := by
        rw [Modified.keysOf, Modified.keysOf]
        exact congrArg (fun l => (l.filter fun p => decide (p.1 = f)).map Prod.snd) hnested
      rw [hkeys]
      exact hmarks.hasKey f hold hin
    · have hold := hmarks.member f k (hnested ▸ hk)
      exact ⟨hold.1, (hfields f).mpr (.inl hold.2)⟩
    · have hmem : (f, k) ∈ scope.modified.nested := hnested ▸ hk
      rw [hother fun hf => hplain hf (hmarks.member f k hmem).1.mem]
      exact hmarks.object f k hmem
  refine ⟨hmarks', rfl, fun p => ?_, fun p hp => ?_, fun p v hpv => ?_, fun p hproper hp => ?_⟩
  · rw [hpaths]
    cases p with
    | field f =>
      rw [hmarks'.field_mem_paths, hmarks.field_mem_paths]
      constructor
      · rintro ⟨hf, hno⟩
        rcases (hfields f).mp hf with hold | hmem
        · exact .inl ⟨hold, hno⟩
        · exact .inr ⟨f, hmem, rfl⟩
      · rintro (⟨hold, hno⟩ | ⟨g, hmem, heq⟩)
        · exact ⟨(hfields f).mpr (.inl hold), hno⟩
        · cases heq
          exact ⟨(hfields f).mpr (.inr hmem), hplain hmem⟩
    | member f k =>
      rw [member_mem_paths, member_mem_paths]
      constructor
      · intro hmem
        exact .inl (hnested ▸ hmem)
      · rintro (hmem | ⟨g, -, heq⟩)
        · exact hnested ▸ hmem
        · cases heq
  · obtain ⟨f, hmem, rfl⟩ := (hpaths p).mp hp
    exact hplain hmem
  · obtain ⟨⟨f, w⟩, hmem, heq⟩ := mem_map.mp hpv
    cases heq
    exact foldl_update_mem hnodup hmem _
  · cases p with
    | field f => exact hother fun hmem => hp ((hpaths _).mpr ⟨f, hmem, rfl⟩)
    | member f k =>
      rw [Settings.at, hother fun hmem => hplain hmem hproper]
      rfl

theorem assigns_nested {f k : JsString} {v : Tree}
    (hgood : (nested f k v).Good) (h : scope.setNested f k v = some changed) :
    Assigns scope changed (nested f k v).values := by
  have hsettable : SettableMember f k := hgood
  obtain ⟨nested, hnested, hchanged⟩ : ∃ nested,
      (∀ l, assocGet l nested = scope.settings.at (.member f l)) ∧ changed = { scope with
        settings := update scope.settings f (some (.obj (setMember k v nested)))
        modified := scope.modified.mark f (some k) } := by
    rw [ScopeSettings.setNested] at h
    obtain ⟨nested, hnested, hchanged⟩ := Option.map_eq_some_iff.mp h
    refine ⟨nested, fun l => ?_, hchanged.symm⟩
    rw [Settings.at]
    cases hf : scope.settings f with
    | none =>
      rw [hf] at hnested
      cases hnested
      rfl
    | some current =>
      rw [hf] at hnested
      dsimp only at hnested
      rw [Option.bind_some]
      split_ifs at hnested with hfalsy hobject
      · cases hnested
        symm
        cases current with
        | str s =>
          rw [isFalsy, List.isEmpty_iff] at hfalsy
          rw [hfalsy]
          rfl
        | arr xs | obj ms => cases hfalsy
        | null => rfl
        | bool b => rfl
        | num n => rfl
      · cases hnested
        rfl
  subst hchanged
  have hfields (g : JsString) : g ∈ (scope.modified.mark f (some k)).fields ↔
      g = f ∨ g ∈ scope.modified.fields := mem_insert_iff
  have hpairs (p : JsString × JsString) : p ∈ (scope.modified.mark f (some k)).nested ↔
      p = (f, k) ∨ p ∈ scope.modified.nested := mem_insert_iff
  have hother {g : JsString} (hg : g ≠ f) :
      update scope.settings f (some (.obj (setMember k v nested))) g =
        scope.settings g := update_of_ne hg _ _
  have hne {g : JsString} (hg : g ∉ nestedFields) : g ≠ f := by
    rintro rfl
    exact hg hsettable.mem
  have hmarks' : Marks (update scope.settings f (some (.obj (setMember k v nested))))
      (scope.modified.mark f (some k)) := by
    refine ⟨fun g hg hno => ?_, fun g hg hin hnil => ?_, fun g l hl => ?_, fun g l hl => ?_⟩
    · rw [hother (hne hno)]
      exact hmarks.field g (((hfields g).mp hg).resolve_left (hne hno)) hno
    · have hempty (l : JsString) : (g, l) ∉ (scope.modified.mark f (some k)).nested := by
        intro hl
        have := mem_keysOf.mpr hl
        rw [hnil] at this
        cases this
      rcases (hfields g).mp hg with rfl | hold
      · exact hempty k ((hpairs _).mpr (.inl rfl))
      · obtain ⟨l, hl⟩ := exists_mem_of_ne_nil _ (hmarks.hasKey g hold hin)
        exact hempty l ((hpairs _).mpr (.inr (mem_keysOf.mp hl)))
    · rcases (hpairs _).mp hl with heq | hold
      · cases heq
        exact ⟨hsettable, (hfields f).mpr (.inl rfl)⟩
      · have hmember := hmarks.member g l hold
        exact ⟨hmember.1, (hfields g).mpr (.inr hmember.2)⟩
    · by_cases hg : g = f
      · subst hg
        exact ⟨_, update_self _ _ _, rfl⟩
      · rw [hother hg]
        rcases (hpairs _).mp hl with heq | hold
        · cases heq
          exact absurd rfl hg
        · exact hmarks.object g l hold
  have hat (l : JsString) :
      Settings.at (update scope.settings f (some (.obj (setMember k v nested))))
        (.member f l) = if k = l then some v else scope.settings.at (.member f l) := by
    rw [Settings.at, update_self, Option.bind_some, members, assocGet_setMember, hnested]
  refine ⟨hmarks', rfl, fun p => ?_, fun p hp => ?_, fun p w hpw => ?_, fun p hproper hp => ?_⟩
  · cases p with
    | field g =>
      rw [hmarks'.field_mem_paths, hmarks.field_mem_paths]
      constructor
      · rintro ⟨hg, hno⟩
        exact .inl ⟨((hfields g).mp hg).resolve_left (hne hno), hno⟩
      · rintro (⟨hg, hno⟩ | hmem)
        · exact ⟨(hfields g).mpr (.inr hg), hno⟩
        · cases mem_singleton.mp hmem
    | member g l =>
      rw [member_mem_paths, member_mem_paths, hpairs]
      constructor
      · rintro (heq | hold)
        · cases heq
          exact .inr (mem_singleton.mpr rfl)
        · exact .inl hold
      · rintro (hold | hmem)
        · exact .inr hold
        · cases mem_singleton.mp hmem
          exact .inl rfl
  · cases mem_singleton.mp hp
    exact hsettable.mem
  · cases mem_singleton.mp hpw
    rw [hat, if_pos rfl]
  · cases p with
    | field g => exact hother (hne hproper)
    | member g l =>
      by_cases hg : g = f
      · subst hg
        have hl : ¬ k = l := by
          rintro rfl
          exact hp (mem_singleton.mpr rfl)
        rw [hat, if_neg hl]
      · dsimp only [Settings.at]
        rw [hother hg]

theorem assigns_of_assign {a : Assignment}
    (hgood : a.Good) (h : scope.assign a = some changed) : Assigns scope changed a.values := by
  cases a with
  | fields values =>
    cases h
    exact assigns_fields hmarks hgood
  | nested f k v => exact assigns_nested hmarks hgood h

end

end

end SettingsManager

end AcademicAgent
