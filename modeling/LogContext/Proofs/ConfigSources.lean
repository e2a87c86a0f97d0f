import LogContext.Config
import Mathlib.Data.List.Nodup

namespace LogContext

namespace Role

/-- A key addresses a role by the role's own name or by its name in the settings of a workflow
engine. -/
def AddressedBy (role : Role) (key : String) : Prop := key = role.name ∨ key = role.settingName

instance (role : Role) (key : String) : Decidable (role.AddressedBy key) :=
  inferInstanceAs (Decidable (key = role.name ∨ key = role.settingName))

/-- A key that addresses some role. -/
def isKnownKey (key : String) : Bool := all.any fun role => role.AddressedBy key

/-- The names of the roles, of both kinds, are all different, so it does not matter which kind is
looked up first. -/
theorem ofKey?_eq_some_iff {key : String} {role : Role} :
    ofKey? key = some role ↔ role.AddressedBy key := by
  constructor
  · intro h
    rcases Option.or_eq_some_iff.mp h with hname | ⟨-, hsetting⟩
    · have heq := List.find?_some hname
      exact Or.inl (of_decide_eq_true heq).symm
    · have heq := List.find?_some hsetting
      exact Or.inr (of_decide_eq_true heq).symm
  · rintro (rfl | rfl)
    · cases role <;> rfl
    · cases role <;> rfl

theorem AddressedBy.unique {role other : Role} {key : String} (h : role.AddressedBy key)
    (ho : other.AddressedBy key) : role = other :=
  Option.some.inj ((ofKey?_eq_some_iff.mpr h).symm.trans (ofKey?_eq_some_iff.mpr ho))

theorem AddressedBy.isKnownKey {role : Role} {key : String} (h : role.AddressedBy key) :
    isKnownKey key = true :=
  List.any_eq_true.mpr ⟨role, mem_all role, decide_eq_true h⟩

end Role

namespace Config

theorem ext_get {config other : Config} (h : ∀ role, config.get role = other.get role) :
    config = other := by
  rw [← ofRoles_get config, ← ofRoles_get other, funext h]

theorem get_applySetting (config : Config) (setting : String × SettingValue) (role : Role) :
    (config.applySetting setting).get role =
      if role.AddressedBy setting.1 then setting.2.key? else config.get role := by
  simp only [← Role.ofKey?_eq_some_iff]
  rw [applySetting]
  cases Role.ofKey? setting.1 with
  | none => simp
  | some other => simp only [get_set, Option.some.injEq, eq_comm]

/-- The last of these settings that addresses a role, if any does. -/
def lastSetting? (settings : List (String × SettingValue)) (role : Role) :
    Option (String × SettingValue) :=
  settings.reverse.find? fun setting => role.AddressedBy setting.1

theorem lastSetting?_append (settings more : List (String × SettingValue)) (role : Role) :
    lastSetting? (settings ++ more) role =
      (lastSetting? more role).or (lastSetting? settings role) := by
  rw [lastSetting?, List.reverse_append, List.find?_append, lastSetting?, lastSetting?]

theorem lastSetting?_singleton (setting : String × SettingValue) (role : Role) :
    lastSetting? [setting] role = if role.AddressedBy setting.1 then some setting else none := by
  simp [lastSetting?, List.find?_singleton]

theorem lastSetting?_cons (first : String × SettingValue) (rest : List (String × SettingValue))
    (role : Role) : lastSetting? (first :: rest) role =
      (lastSetting? rest role).or (lastSetting? [first] role) :=
  lastSetting?_append [first] rest role

/-- A setting that addresses no role is never the last one of a role. -/
theorem lastSetting?_filter_known (settings : List (String × SettingValue)) (role : Role) :
    lastSetting? (settings.filter fun setting => Role.isKnownKey setting.1) role =
      lastSetting? settings role := by
  rw [lastSetting?, ← List.filter_reverse, List.find?_filter, lastSetting?]
  congr 1
  funext setting
  by_cases h : role.AddressedBy setting.1
  · simp [h, h.isKnownKey]
  · simp [h]

/-- The one setting that addresses a role is the last one. -/
theorem lastSetting?_of_unique {settings : List (String × SettingValue)} {role : Role}
    {setting : String × SettingValue} (hm : setting ∈ settings)
    (addressed : role.AddressedBy setting.1)
    (unique : ∀ other ∈ settings, role.AddressedBy other.1 → other = setting) :
    lastSetting? settings role = some setting := by
  cases hlast : lastSetting? settings role with
  | none =>
    have hnone := List.find?_eq_none.mp hlast setting (List.mem_reverse.mpr hm)
    exact absurd (decide_eq_true addressed) hnone
  | some last =>
    have hmem := List.mem_reverse.mp (List.mem_of_find?_eq_some hlast)
    rw [lastSetting?] at hlast
    have haddressed := List.find?_some hlast
    rw [unique last hmem (of_decide_eq_true haddressed)]

/-- By induction on the settings: what the rest of them does not address is as the first one left
it. -/
theorem get_foldl_applySetting (config : Config) (settings : List (String × SettingValue))
    (role : Role) :
    (settings.foldl applySetting config).get role =
      (lastSetting? settings role).elim (config.get role) fun setting => setting.2.key? := by
  induction settings generalizing config with
  | nil => rfl
  | cons first rest ih =>
    rw [List.foldl_cons, ih, get_applySetting, lastSetting?_cons, lastSetting?_singleton]
    cases lastSetting? rest role with
    | some last => rfl
    | none =>
      rw [Option.none_or]
      split
      next => rfl
      next => rfl

theorem get_ofSettings (settings : OrderedMap String SettingValue) (role : Role) :
    (ofSettings settings).get role = (lastSetting? settings.pairs role).elim (standard.get role)
      fun setting => setting.2.key? :=
  get_foldl_applySetting standard settings.pairs role

/-- Settings whose last ones agree for every role make the same configuration. -/
theorem ofSettings_congr {settings other : OrderedMap String SettingValue}
    (h : ∀ role, lastSetting? settings.pairs role = lastSetting? other.pairs role) :
    ofSettings settings = ofSettings other :=
  ext_get fun role => by rw [get_ofSettings, get_ofSettings, h]

theorem lastSetting?_swap {first second : String × SettingValue}
    (apart : ∀ role : Role, role.AddressedBy first.1 → ¬ role.AddressedBy second.1)
    (before after : List (String × SettingValue)) (role : Role) :
    lastSetting? (before ++ first :: second :: after) role =
      lastSetting? (before ++ second :: first :: after) role := by
  have hpair : lastSetting? [first, second] role = lastSetting? [second, first] role := by
    rw [lastSetting?_cons first [second], lastSetting?_cons second [first], lastSetting?_singleton,
      lastSetting?_singleton]
    by_cases h : role.AddressedBy first.1
    · rw [if_neg (apart role h), Option.none_or, Option.or_none]
    · rw [if_neg h, Option.none_or, Option.or_none]
  have hsplit : ∀ a b : String × SettingValue,
      before ++ a :: b :: after = before ++ ([a, b] ++ after) := fun _ _ => rfl
  rw [hsplit, hsplit, lastSetting?_append, lastSetting?_append, hpair, ← lastSetting?_append,
    ← lastSetting?_append]

/-- A setting for each variable of a role that an environment holds, under a key of one's choice. -/
def variableSettings (keyOf : Role → String) (environment : OrderedMap String String)
    (variablePrefix : String) : List (String × SettingValue) :=
  Role.all.filterMap fun role =>
    (environment.find? (variablePrefix ++ role.variableName)).map fun value =>
      (keyOf role, .text value)

section Variables

variable {keyOf : Role → String} (addressed : ∀ role : Role, role.AddressedBy (keyOf role))
  {environment : OrderedMap String String} {variablePrefix : String}

theorem mem_variableSettings {setting : String × SettingValue} :
    setting ∈ variableSettings keyOf environment variablePrefix ↔
      ∃ role value, environment.find? (variablePrefix ++ Role.variableName role) = some value ∧
        setting = (keyOf role, .text value) := by
  simp only [variableSettings, List.mem_filterMap, Option.map_eq_some_iff, Role.mem_all, true_and,
    eq_comm (a := setting)]

include addressed in
/-- Keys that address different roles are different, so no setting replaces another one. -/
theorem variableSettings_distinct :
    ((variableSettings keyOf environment variablePrefix).map Prod.fst).Nodup := by
  have hkeys : (variableSettings keyOf environment variablePrefix).map Prod.fst =
      Role.all.filterMap fun role =>
        (environment.find? (variablePrefix ++ role.variableName)).map fun _ => keyOf role := by
    rw [variableSettings, List.map_filterMap]
    simp only [Option.map_map, Function.comp_def]
  rw [hkeys]
  refine List.Nodup.filterMap (fun role other key hrole hother => ?_) (by decide)
  obtain ⟨_, -, rfl⟩ := Option.map_eq_some_iff.mp hrole
  obtain ⟨_, -, hkey⟩ := Option.map_eq_some_iff.mp hother
  exact (addressed role).unique (hkey ▸ addressed other)

include addressed in
/-- In whatever order the variables are listed: a role without one keeps its standard key. -/
theorem get_ofSettings_of_perm {settings : OrderedMap String SettingValue}
    (listed : settings.pairs.Perm (variableSettings keyOf environment variablePrefix))
    (role : Role) :
    (ofSettings settings).get role =
      (environment.find? (variablePrefix ++ role.variableName)).elim (standard.get role) some := by
  have hmem : ∀ setting ∈ settings.pairs, role.AddressedBy setting.1 →
      ∃ value, environment.find? (variablePrefix ++ role.variableName) = some value ∧
        setting = (keyOf role, .text value) := by
    intro setting hm haddressed
    obtain ⟨other, value, hvalue, rfl⟩ := mem_variableSettings.mp (listed.mem_iff.mp hm)
    obtain rfl := haddressed.unique (addressed other)
    exact ⟨value, hvalue, rfl⟩
  rw [get_ofSettings]
  cases hfind : environment.find? (variablePrefix ++ role.variableName) with
  | none =>
    have hnone : lastSetting? settings.pairs role = none := by
      refine List.find?_eq_none.mpr fun setting hm haddressed => ?_
      obtain ⟨value, hvalue, -⟩ := hmem setting (List.mem_reverse.mp hm)
        (of_decide_eq_true haddressed)
      rw [hfind] at hvalue
      cases hvalue
    rw [hnone]
    rfl
  | some value =>
    have hlisted : (keyOf role, SettingValue.text value) ∈ settings.pairs :=
      listed.mem_iff.mpr (mem_variableSettings.mpr ⟨role, value, hfind, rfl⟩)
    have hlast := lastSetting?_of_unique hlisted (addressed role) fun other hm haddressed => by
      obtain ⟨value', hvalue, rfl⟩ := hmem other hm haddressed
      rw [Option.some.inj (hvalue.symm.trans hfind)]
    rw [hlast]
    rfl

theorem get_ofEnvironment (environment : OrderedMap String String) (variablePrefix : String)
    (role : Role) :
    (ofEnvironment environment variablePrefix).get role =
      (environment.find? (variablePrefix ++ role.variableName)).elim (standard.get role) some := by
  have hnamed : ∀ role : Role, role.AddressedBy role.name := fun _ => Or.inl rfl
  refine get_ofSettings_of_perm hnamed (.of_eq ?_) role
  exact OrderedMap.pairs_ofPairs (variableSettings_distinct hnamed)

end Variables

/-- A configuration is read off role by role. From settings, a role takes the last one that addresses
it, by either of its names, and keeps its standard key if there is none. So settings that address no
role count for nothing, and neighbours that address different roles may change places. From an
environment, a role takes its variable or keeps its standard key, just as from settings that list
these variables, in any order, each by either name of its role. -/
theorem sources_resolve_by_role (settings : OrderedMap String SettingValue)
    (environment : OrderedMap String String) (variablePrefix : String) :
    (∀ role, (ofSettings settings).get role =
        (lastSetting? settings.pairs role).elim (standard.get role) fun setting => setting.2.key?) ∧
      (∀ other : OrderedMap String SettingValue,
        (other.pairs.filter fun setting => Role.isKnownKey setting.1) =
          (settings.pairs.filter fun setting => Role.isKnownKey setting.1) →
        ofSettings other = ofSettings settings) ∧
      (∀ (swapped : OrderedMap String SettingValue) before first second after (role other : Role),
        settings.pairs = before ++ first :: second :: after →
        swapped.pairs = before ++ second :: first :: after →
        role.AddressedBy first.1 → other.AddressedBy second.1 → role ≠ other →
        ofSettings swapped = ofSettings settings) ∧
      (∀ role, (ofEnvironment environment variablePrefix).get role =
        (environment.find? (variablePrefix ++ role.variableName)).elim (standard.get role) some) ∧
      ∀ keyOf : Role → String, (∀ role : Role, role.AddressedBy (keyOf role)) →
        (OrderedMap.ofPairs (variableSettings keyOf environment variablePrefix)).pairs =
            variableSettings keyOf environment variablePrefix ∧
          ∀ listed : OrderedMap String SettingValue,
            listed.pairs.Perm (variableSettings keyOf environment variablePrefix) →
            ofSettings listed = ofEnvironment environment variablePrefix := by
  refine ⟨get_ofSettings settings, ?_, ?_, get_ofEnvironment environment variablePrefix, ?_⟩
  · intro other hknown
    refine ofSettings_congr fun role => ?_
    rw [← lastSetting?_filter_known other.pairs, hknown, lastSetting?_filter_known]
  · intro swapped before first second after role other hsettings hswapped hrole hother hne
    have happart : ∀ r : Role, r.AddressedBy first.1 → ¬ r.AddressedBy second.1 :=
      fun r hfirst hsecond => hne ((hrole.unique hfirst).trans (hsecond.unique hother))
    refine ofSettings_congr fun r => ?_
    rw [hsettings, hswapped, lastSetting?_swap happart]
  · intro keyOf addressed
    refine ⟨OrderedMap.pairs_ofPairs (variableSettings_distinct addressed), fun listed hperm => ?_⟩
    exact ext_get fun role => (get_ofSettings_of_perm addressed hperm role).trans
      (get_ofEnvironment environment variablePrefix role).symm

/-- Both names of the tenant and a key that no role has. -/
def shopSettings : OrderedMap String SettingValue :=
  .ofPairs [("tenant_id", .text "tenant"), ("colour", .text "red"),
    ("loggingContextTenantId", .other), ("activity_id", .text "task")]

/-- Variables without a prefix, one of them blank. -/
def shopEnvironment : OrderedMap String String :=
  .ofPairs [("TENANT_ID", "shop"), ("PATH", "/bin"), ("BUSINESS_KEY", "")]

/-- The later name of the tenant decides, although it gives no key. -/
theorem sources_resolve_by_role_shop :
    (ofSettings shopSettings).get .tenantId = none ∧
      (ofSettings shopSettings).get .processInstanceId = some "processInstanceId" ∧
      ofSettings (.ofPairs [("tenant_id", .text "tenant"), ("loggingContextTenantId", .other),
        ("activity_id", .text "task"), ("shape", .other)]) = ofSettings shopSettings ∧
      ofSettings (.ofPairs [("tenant_id", .text "tenant"), ("colour", .text "red"),
        ("activity_id", .text "task"), ("loggingContextTenantId", .other)]) =
          ofSettings shopSettings ∧
      (ofEnvironment shopEnvironment "").get .businessKey = some "" ∧
      ofSettings (.ofPairs [("loggingContextBusinessKey", .text ""),
        ("loggingContextTenantId", .text "shop")]) = ofEnvironment shopEnvironment "" := by
  obtain ⟨decided, known, swapped, held, listed⟩ :=
    sources_resolve_by_role shopSettings shopEnvironment ""
  refine ⟨(decided _).trans rfl, (decided _).trans rfl, known _ (by decide), ?_,
    (held _).trans rfl, (listed Role.settingName fun _ => Or.inr rfl).2 _ (by decide)⟩
  exact swapped _ [("tenant_id", .text "tenant"), ("colour", .text "red")]
    ("loggingContextTenantId", .other) ("activity_id", .text "task") [] .tenantId .activityId
    rfl rfl (by decide) (by decide) (by decide)

end Config

end LogContext
