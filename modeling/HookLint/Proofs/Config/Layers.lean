import HookLint.Config.Load
import HookLint.Proofs.Json.Keys
import HookLint.Proofs.Outcome

namespace HookLint.Config

open List Value Option

variable {fault : Fault} {key : Key} {name : String} {project : ProjectFile} {settings : Option String} {value : Value}

-- What a table gives for a key: a value of the form of the initial one.
def fromTable? (table : Value) (key : Key) : Option Value :=
  ((table.get key.group).fields.find? key.name).filter fun value => value.form = key.initial.form

-- What the environment gives for a key: what its variable says, if that can be read.
def fromEnvironment? (environment : List (String × String)) (key : Key) : Option Value :=
  (environment.lookup key.variableName).bind fun text => (readVariable key text).toOption

-- The part of a project file that is for this tool.
def ProjectFile.table : ProjectFile → Value
  | .data value => (value.get "tool").get "hookauditor"
  | .missing | .broken => .null

-- What a settings file spells.
def settingsTable (text : Option String) : Value :=
  match text.map Json.read with
  | some (.ok value) => value
  | _ => .null

-- The value of a key is that of the last source which gives one.
def chosen (sources : Sources) (key : Key) : Value :=
  (fromEnvironment? sources.environment key).getD <| (fromTable? (settingsTable sources.settings) key).getD <|
      (fromTable? sources.project.table key).getD key.initial

-- The names of the groups of a table and those of the keys of each group.
def layout (table : Value) : List (String × List String) := table.fields.map fun group => (group.1, group.2.fields.map Prod.fst)

-- The tools of a project file are a table, if it has any. The keys of a table are different.
def ProjectFile.Tabular : ProjectFile → Prop
  | .data value => value.isRecord = true ∧ (∀ tools, value.fields.find? "tool" = some tools → tools.isRecord = true) ∧ value.Keyed
  | .missing | .broken => True

theorem accepts_iff_form (key : Key) (value : Value) : key.type.accepts value = decide (value.form = key.initial.form) := by
  cases key <;> cases value <;> rfl

theorem named_self (key : Key) : Key.named? key.group key.name = some key := by cases key <;> rfl

theorem named_spec {group : String} (named : Key.named? group name = some key) : key.group = group ∧ key.name = name := by
  have found := List.find?_some named
  simpa using found

theorem find_none {fields : Fields} (missing : name ∉ fields.map Prod.fst) : fields.find? name = none := by
  induction fields with
  | nil => rfl
  | cons field rest ih =>
    rw [map_cons, mem_cons, not_or] at missing
    rw [Fields.find?, if_neg (Ne.symm missing.1), ih missing.2]

theorem read_variable_form {text : String} (run : readVariable key text = .ok value) : value.form = key.initial.form := by
  refine of_decide_eq_true ((accepts_iff_form key value).symm.trans ?_)
  unfold readVariable at run
  split at run
  · rename_i isFlag
    rw [isFlag]
    dsimp only at run
    split at run
    · cases run
      rfl
    · split at run
      · cases run
        rfl
      · cases run
  · rename_i isNumber
    rw [isNumber]
    split at run
    · cases run
      rfl
    · cases run
    · cases run
  · next isList =>
      rw [isList]
      cases run
      rfl
  · next isText =>
      rw [isText]
      cases run
      rfl

section
variable (origin group : String) (loaded : Loaded) (key : Key)

theorem set_settings (other : Key) (value : Value) :
    (loaded.set other value).settings key = if key = other then value else loaded.settings key := rfl

theorem add_field_settings (field : String × Value) : (loaded.addField origin group field).settings key =
    if key.group = group ∧ key.name = field.1 ∧ field.2.form = key.initial.form then field.2 else loaded.settings key := by
  unfold Loaded.addField
  have unchanged (other : Key.named? group field.1 ≠ some key) :
      ¬ (key.group = group ∧ key.name = field.1 ∧ field.2.form = key.initial.form) := by
    rintro ⟨rfl, isName, _⟩
    exact other (isName ▸ named_self key)
  split
  · next unknown =>
      rw [if_neg (unchanged (by rw [unknown]; nofun))]
      rfl
  rename_i named known
  rw [accepts_iff_form]
  by_cases same : key = named
  · obtain ⟨isGroup, isName⟩ := named_spec known
    subst same
    by_cases fits : field.2.form = key.initial.form
    · rw [if_pos (decide_eq_true fits), set_settings, if_pos rfl, if_pos ⟨isGroup, isName, fits⟩]
    · rw [if_neg (by simpa using fits), if_neg fun all => fits all.2.2]
      rfl
  · rw [if_neg (unchanged (by rw [known]; exact fun found => same (Option.some.inj found).symm))]
    split
    · rw [set_settings, if_neg same]
    · rfl

theorem add_fields_settings (fields : Fields) (distinct : (fields.map Prod.fst).Nodup) :
    (fields.foldl (Loaded.addField origin group) loaded).settings key =
      if key.group = group then ((fields.find? key.name).filter fun value => value.form = key.initial.form).getD (loaded.settings key)
      else loaded.settings key := by
  induction fields generalizing loaded with
  | nil => simp [Fields.find?]
  | cons field rest ih =>
    obtain ⟨name, value⟩ := field
    obtain ⟨fresh, others⟩ := nodup_cons.mp distinct
    rw [foldl_cons, ih _ others, add_field_settings, Fields.find?]
    by_cases isGroup : key.group = group
    · by_cases isName : name = key.name
      · have missing : Fields.find? rest key.name = none := find_none (isName ▸ fresh)
        by_cases fits : value.form = key.initial.form
        · simp [isGroup, isName, fits, missing, filter_some]
        · simp [isGroup, isName, fits, missing, filter_some]
      · simp [isGroup, isName, Ne.symm isName]
    · simp [isGroup]

section
variable (table : Value) (distinct : ∀ group, ((table.get group).fields.map Prod.fst).Nodup)
include table distinct

theorem add_groups_settings (groups : List String) :
    (groups.foldl (fun loaded group => (table.get group).fields.foldl (Loaded.addField origin group) loaded) loaded).settings key =
      if key.group ∈ groups then (fromTable? table key).getD (loaded.settings key) else loaded.settings key := by
  induction groups generalizing loaded with
  | nil => rfl
  | cons group rest ih =>
    rw [foldl_cons, ih, add_fields_settings _ _ _ _ _ (distinct group)]
    by_cases here : key.group = group
    · subst here
      rw [if_pos rfl, if_pos mem_cons_self]
      change (if _ then (fromTable? table key).getD ((fromTable? table key).getD _) else (fromTable? table key).getD _) = _
      cases fromTable? table key with
      | none => rw [getD_none, ite_self]
      | some value => rw [getD_some, getD_some, ite_self]
    · have elsewhere : key.group ∈ group :: rest ↔ key.group ∈ rest := mem_cons.trans (or_iff_right here)
      simp only [if_neg here, elsewhere]

theorem add_record_settings : (loaded.addRecord origin table).settings key = (fromTable? table key).getD (loaded.settings key) := by
  have known : key.group ∈ Key.groups := by cases key <;> decide
  exact (add_groups_settings _ _ _ table distinct _).trans (if_pos known)

end

section
variable (environment : List (String × String))
include environment

theorem add_variable_settings (other : Key) : (loaded.addVariable environment other).settings key =
      if key = other then (fromEnvironment? environment key).getD (loaded.settings key) else loaded.settings key := by
  unfold Loaded.addVariable
  by_cases same : key = other
  · subst same
    rw [if_pos rfl, fromEnvironment?]
    cases environment.lookup key.variableName with
    | none => rfl
    | some text =>
      cases said : readVariable key text with
      | error reason => simp [said, Except.toOption, Loaded.note]
      | ok value => simp [said, Except.toOption, set_settings]
  · rw [if_neg same]
    split
    · rfl
    · split
      · rw [set_settings, if_neg same]
      · rfl

theorem add_variables_settings (keys : List Key) : (keys.foldl (Loaded.addVariable environment) loaded).settings key =
      if key ∈ keys then (fromEnvironment? environment key).getD (loaded.settings key) else loaded.settings key := by
  induction keys generalizing loaded with
  | nil => rfl
  | cons other rest ih =>
    rw [foldl_cons, ih, add_variable_settings]
    by_cases here : key = other
    · subst here
      rw [if_pos rfl, if_pos mem_cons_self]
      cases fromEnvironment? environment key with
      | none => rw [getD_none, ite_self]
      | some value => rw [getD_some, getD_some, ite_self]
    · have elsewhere : key ∈ other :: rest ↔ key ∈ rest := mem_cons.trans (or_iff_right here)
      simp only [if_neg here, elsewhere]

theorem add_environment_settings :
    (loaded.addEnvironment environment).settings key = (fromEnvironment? environment key).getD (loaded.settings key) := by
  have known : key ∈ Key.all := by cases key <;> decide
  exact (add_variables_settings _ _ environment _).trans (if_pos known)

end

end

section
variable {loaded : Loaded} {value : Value}

theorem keyed_get (keyed : value.Keyed) (name : String) : (value.get name).Keyed := by
  cases value with
  | record id fields =>
    intro record member
    exact keyed record (mem_cons_of_mem _ ((get_records_sublist fields name).subset member))
  | _ => exact Json.keyed_of_bare rfl

theorem keyed_fields (keyed : value.Keyed) : (value.fields.map Prod.fst).Nodup := by
  cases value with
  | record id fields => exact keyed _ mem_cons_self
  | _ => exact nodup_nil

theorem add_project_layer (loaded : Loaded) (tabular : project.Tabular) : ∃ next, loaded.addProject project = .ok next ∧
    ∀ key, next.settings key = (fromTable? project.table key).getD (loaded.settings key) := by
  cases project with
  | missing => exact ⟨loaded, rfl, fun _ => rfl⟩
  | broken => exact ⟨_, rfl, fun _ => rfl⟩
  | data value =>
    obtain ⟨isRecord, tools, keyed⟩ := tabular
    have asked : ((value.fields.find? "tool").getD (.made [])).ask "hookauditor" = .ok ((value.get "tool").get "hookauditor") := by
      have tool : value.get "tool" = (value.fields.find? "tool").getD .null := rfl
      rw [tool]
      cases found : value.fields.find? "tool" with
      | none => rfl
      | some table =>
        have isTable := tools table found
        cases table with
        | record id fields => rfl
        | _ => cases isTable
    refine ⟨loaded.addRecord projectFile ((value.get "tool").get "hookauditor"), ?_, fun key => ?_⟩
    · rw [Loaded.addProject, isRecord]
      exact (bind_of asked).trans rfl
    · exact add_record_settings _ _ _ _ fun group => keyed_fields (keyed_get (keyed_get (keyed_get keyed _) _) group)

theorem add_settings_layer (loaded : Loaded)
    (readable : ∀ text, settings = some text → ∀ complaint, Json.read text = .error complaint → complaint = .malformed) :
    ∃ next, loaded.addSettings settings = .ok next ∧
      ∀ key, next.settings key = (fromTable? (settingsTable settings) key).getD (loaded.settings key) := by
  cases settings with
  | none => exact ⟨loaded, rfl, fun _ => rfl⟩
  | some text =>
    rw [Loaded.addSettings]
    cases read : Json.read text with
    | error complaint =>
      rw [readable text rfl complaint read, settingsTable, map_some, read]
      exact ⟨_, rfl, fun _ => rfl⟩
    | ok value =>
      have keyed := Json.read_keyed read
      have table : settingsTable (some text) = value := by rw [settingsTable, map_some, read]
      rw [table]
      cases value with
      | record id fields => exact ⟨_, rfl, fun key => add_record_settings _ _ _ _ fun group => keyed_fields (keyed_get keyed group)⟩
      | _ => exact ⟨_, rfl, fun _ => rfl⟩

end

theorem from_table_form {table : Value} (found : fromTable? table key = some value) : value.form = key.initial.form := by
  obtain ⟨_, fits⟩ := filter_eq_some_iff.mp found
  exact of_decide_eq_true fits

theorem from_environment_form {environment : List (String × String)}
    (found : fromEnvironment? environment key = some value) : value.form = key.initial.form := by
  obtain ⟨text, _, said⟩ := bind_eq_some_iff.mp found
  cases run : readVariable key text with
  | error reason =>
    rw [run] at said
    cases said
  | ok read =>
    rw [run] at said
    cases said
    exact read_variable_form run

theorem form_of_choice {choice : Option Value} {other : Value} {form : Form} (chosen : ∀ value, choice = some value → value.form = form)
    (kept : other.form = form) : (choice.getD other).form = form := by
  cases choice with
  | none => exact kept
  | some value => exact chosen value rfl

theorem chosen_form (sources : Sources) (key : Key) : (chosen sources key).form = key.initial.form :=
  form_of_choice (fun _ => from_environment_form)
    (form_of_choice (fun _ => from_table_form) (form_of_choice (fun _ => from_table_form) rfl))

theorem report_layout (settings : Settings) : layout settings.report = layout Settings.initial.report := rfl

theorem report_get (settings : Settings) (key : Key) : (settings.report.get key.group).get key.name = settings key := by cases key <;> rfl

-- The settings have a value of the right form for every key, and for each key it is that of the last source which gives one.
theorem last_source_wins (sources : Sources) (tabular : sources.project.Tabular)
    (readable : ∀ text, sources.settings = some text → ∀ complaint, Json.read text = .error complaint → complaint = .malformed) :
    ∃ loaded, load sources = .ok loaded ∧ layout loaded.settings.report = layout Settings.initial.report ∧
      ∀ key : Key, ((loaded.settings.report.get key.group).get key.name).form = key.initial.form ∧
        (loaded.settings.report.get key.group).get key.name = chosen sources key := by
  obtain ⟨first, isFirst, fromProject⟩ := add_project_layer {} tabular
  obtain ⟨second, isSecond, fromSettings⟩ := add_settings_layer first readable
  have each (key : Key) : (second.addEnvironment sources.environment).settings key = chosen sources key := by
    rw [add_environment_settings, fromSettings, fromProject]
    rfl
  refine ⟨second.addEnvironment sources.environment, ?_, report_layout _, fun key => ?_⟩
  · exact (bind_of isFirst).trans ((bind_of isSecond).trans rfl)
  · rw [report_get, each]
    exact ⟨chosen_form sources key, rfl⟩

-- Only one of the two files gives a number of workers that is a number, and one of the two variables cannot be read.
def layeredProject : Value := .made [("tool", .made [("hookauditor", .made [
  ("hooks", .made [("flag_stable_dependencies", .int 1), ("helper_prefix", .str "with")]),
  ("analysis", .made [("workers", .int 2), ("threads", .int 8)])])])]

def layeredSettings : String := "\x7b\"analysis\": \x7b\"workers\": true, \"exclude\": []\x7d, \"hooks\": \x7b\"helper_prefix\": \"take\"\x7d\x7d"

def layeredSources : Sources where
  project := .data layeredProject
  settings := some layeredSettings
  environment := [("HOOKAUDITOR_REPORT_MAX_ROWS", "many"), ("HOOKAUDITOR_HOOKS_STRICT_MEMBER_DEPENDENCIES", " ON ")]

theorem layered_sources_read : ∃ loaded, load layeredSources = .ok loaded ∧ (loaded.settings.report.get "analysis").get "workers" = .int 2 ∧
    (loaded.settings.report.get "analysis").get "exclude" = .list [] ∧
    (loaded.settings.report.get "hooks").get "helper_prefix" = .str "take" ∧
    (loaded.settings.report.get "hooks").get "flag_stable_dependencies" = .bool false ∧
    (loaded.settings.report.get "hooks").get "strict_member_dependencies" = .bool true ∧
    (loaded.settings.report.get "report").get "max_rows" = .int 200 := by
  have tabular : layeredSources.project.Tabular := by
    refine ⟨rfl, fun tools isTools => ?_, by unfold Keyed; decide⟩
    cases isTools
    rfl
  have isRead : (match Json.read layeredSettings with
      | .ok _ => true
      | .error _ => false) = true := by decide +kernel
  have readable : ∀ text, layeredSources.settings = some text → ∀ complaint, Json.read text = .error complaint → complaint = .malformed := by
    rintro _ isText complaint broken
    cases isText
    rw [broken] at isRead
    cases isRead
  obtain ⟨loaded, run, _, each⟩ := last_source_wins layeredSources tabular readable
  refine ⟨loaded, run, (each .workers).2.trans ?_, (each .exclude).2.trans ?_, (each .stem).2.trans ?_, (each .flagStable).2.trans ?_,
    (each .strictMembers).2.trans ?_, (each .maxRows).2.trans ?_⟩
  all_goals with_unfolding_all rfl

-- Why a project file cannot be looked into: it is no table, or what it has for tools is none.
def ProjectFile.refusal? : ProjectFile → Option Fault
  | .data value => ([value, (value.fields.find? "tool").getD (.made [])].find? (!·.isRecord)).map (.notRecord ·.form)
  | .missing | .broken => none

-- Why a text can be neither read nor passed over.
def textRefusal? (settings : Option String) : Option Fault :=
  match settings.map Json.read with
  | some (.error .tooLong) => some .tooLong
  | some (.error .tooDeep) => some .tooDeep
  | _ => none

theorem add_project_refused (loaded : Loaded) (refused : project.refusal? = some fault) : loaded.addProject project = .error fault := by
  cases project with
  | missing | broken => cases refused
  | data value =>
    cases value with
    | record id fields =>
      rw [ProjectFile.refusal?, List.find?_cons_of_neg (by simp [Value.isRecord])] at refused
      rw [Loaded.addProject]
      generalize (Value.fields (.record id fields)).find? "tool" = tools at refused ⊢
      rcases tools with _ | (_ | _ | _ | _ | _ | _ | _) <;> cases refused <;> rfl
    | _ => cases refused; rfl

theorem tabular_of_unrefused (unrefused : project.refusal? = none)
    (keyed : ∀ value, project = .data value → value.Keyed) : project.Tabular := by
  cases project with
  | missing | broken => trivial
  | data value =>
    have each := List.find?_eq_none.mp (map_eq_none_iff.mp unrefused)
    refine ⟨by simpa using each value mem_cons_self, fun tools isTools => ?_, keyed value rfl⟩
    simpa [isTools] using each _ (mem_cons_of_mem _ mem_cons_self)

theorem add_settings_refused (loaded : Loaded) (refused : textRefusal? settings = some fault) :
    loaded.addSettings settings = .error fault := by
  cases settings with
  | none => cases refused
  | some text =>
    rw [textRefusal?, map_some] at refused
    rw [Loaded.addSettings]
    generalize Json.read text = outcome at refused ⊢
    rcases outcome with (_ | _ | _) | _ <;> cases refused <;> rfl

theorem readable_of_unrefused (unrefused : textRefusal? settings = none) (text : String)
    (isText : settings = some text) (complaint : Json.Complaint) (broken : Json.read text = .error complaint) : complaint = .malformed := by
  rw [textRefusal?, isText, map_some, broken] at unrefused
  cases complaint with
  | malformed => rfl
  | tooLong | tooDeep => cases unrefused

-- Loading fails only for tools of a project file that are no table and for a text too long or deep to read. Each key has the
-- value of the last source which gives one of its form.
theorem load_fails_only_when_refused (sources : Sources) (keyed : ∀ value, sources.project = .data value → value.Keyed) :
    (load sources).map Loaded.settings =
      ((sources.project.refusal?).or (textRefusal? sources.settings)).elim (.ok (chosen sources)) .error := by
  cases refused : sources.project.refusal? with
  | some fault =>
    rw [load, add_project_refused _ refused]
    rfl
  | none =>
    obtain ⟨first, isFirst, fromProject⟩ := add_project_layer {} (tabular_of_unrefused refused keyed)
    rw [load, bind_of isFirst]
    cases unread : textRefusal? sources.settings with
    | some fault =>
      rw [add_settings_refused _ unread]
      rfl
    | none =>
      obtain ⟨second, isSecond, fromSettings⟩ := add_settings_layer first (readable_of_unrefused unread)
      rw [bind_of isSecond]
      refine congrArg Except.ok (funext fun key => ?_)
      rw [add_environment_settings, fromSettings, fromProject]
      rfl

-- Tools that are a number are refused. Wrong entries below the tools are passed over, and the environment still counts.
def misshapenSources (tools : Value) : Sources where
  project := .data (.made [("tool", tools)])
  settings := some "[1, "
  environment := [("HOOKAUDITOR_ANALYSIS_WORKERS", "2"), ("HOOKAUDITOR_REPORT_MAX_ROWS", "many")]

def misshapenTable : Value := .made [("hookauditor", .list [.null])]

theorem misshapen_tools_refused : (load (misshapenSources (.int 3))).map Loaded.settings = .error (.notRecord .int) ∧
    ∃ settings, (load (misshapenSources misshapenTable)).map Loaded.settings = .ok settings ∧
      settings .workers = .int 2 ∧ settings .maxRows = .int 200 := by
  refine ⟨(load_fails_only_when_refused _ ?_).trans rfl, chosen (misshapenSources misshapenTable),
    (load_fails_only_when_refused _ ?_).trans ?_, ?_, ?_⟩
  iterate 2
    rintro _ ⟨⟩
    unfold Keyed
    decide
  all_goals with_unfolding_all rfl

end HookLint.Config
