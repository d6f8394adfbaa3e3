import Doctest.Cli.Options

/-! Options before the environment. A variable whose option is given does not matter for the
configuration, unless it is the time limit and cannot be read: the environment is read as a whole before the
options are looked at, so then the command fails whatever its options say. -/
namespace Doctest

namespace Config

/-- What is wrong with a variable that is set: it is no text, or the text is not understood. -/
def fault? (env : Env) (name : String) (isUnderstood : String → Bool)
    (bad : String → ConfigError) : Option ConfigError :=
  (value? env name).bind fun bytes =>
    match bytes.toString? with
    | none => some (.notUnicode name)
    | some value => if isUnderstood value then none else some (bad value)

def timeoutFault? (env : Env) : Option ConfigError :=
  fault? env timeoutVar (fun value => (natural? UInt64.size (Text.trim value.toList)).isSome)
    (.invalidTimeout timeoutVar)

def editionFault? (env : Env) : Option ConfigError :=
  fault? env editionVar (fun value => (Edition.ofString? (String.ofList (Text.trim value.toList))).isSome)
    fun value => .invalidEdition editionVar (String.ofList (Text.trim value.toList))

theorem value?_congr {env env' : Env} {name : String} (h : env name = env' name) :
    value? env name = value? env' name := by
  unfold value?
  rw [h]

theorem timeout?_eq_error_iff {name value : String} {e : ConfigError} :
    timeout? name value = .error e ↔
      natural? UInt64.size (Text.trim value.toList) = none ∧ e = .invalidTimeout name value := by
  unfold timeout?
  split
  · next h => simp [h]
  · next h => simp [h]
  · next h =>
    rw [h, Except.error.injEq]
    exact ⟨fun heq => ⟨rfl, heq.symm⟩, fun heq => heq.2.symm⟩

theorem edition?_eq_error_iff {name value : String} {e : ConfigError} :
    edition? name value = .error e ↔
      Edition.ofString? (String.ofList (Text.trim value.toList)) = none ∧
        e = .invalidEdition name (String.ofList (Text.trim value.toList)) := by
  unfold edition?
  dsimp only
  split
  · next h => simp [h]
  · next h =>
    rw [h, Except.error.injEq]
    exact ⟨fun heq => ⟨rfl, heq.symm⟩, fun heq => heq.2.symm⟩

/-- A setting fails as its variable is at fault, and in no other way. -/
theorem setting_eq_error_iff {α : Type} {env : Env} {name : String} {default : α}
    {read : String → String → Except ConfigError α} {isUnderstood : String → Bool}
    {bad : String → ConfigError}
    (hread : ∀ value e, read name value = .error e ↔ isUnderstood value = false ∧ e = bad value)
    {e : ConfigError} :
    setting env name default read = .error e ↔ fault? env name isUnderstood bad = some e := by
  unfold setting fault?
  cases value? env name with
  | none => simp
  | some bytes =>
    rw [Option.bind_some]
    dsimp only
    cases bytes.toString? with
    | none => simp
    | some value =>
      dsimp only
      rw [hread]
      cases isUnderstood value with
      | false => simp [eq_comm]
      | true => simp

theorem setting_timeout_eq_error_iff {env : Env} {e : ConfigError} :
    setting env timeoutVar default.timeout timeout? = .error e ↔ timeoutFault? env = some e := by
  apply setting_eq_error_iff
  intro value e
  rw [timeout?_eq_error_iff, Option.isSome_eq_false_iff, Option.isNone_iff_eq_none]

theorem setting_edition_eq_error_iff {env : Env} {e : ConfigError} :
    setting env editionVar default.edition edition? = .error e ↔ editionFault? env = some e := by
  apply setting_eq_error_iff
  intro value e
  rw [edition?_eq_error_iff, Option.isSome_eq_false_iff, Option.isNone_iff_eq_none]

theorem cases_of_timeoutFault? {env : Env} {e : ConfigError} (h : timeoutFault? env = some e) :
    e = .notUnicode timeoutVar ∨ ∃ value, e = .invalidTimeout timeoutVar value := by
  unfold timeoutFault? fault? at h
  obtain ⟨bytes, -, h⟩ := Option.bind_eq_some_iff.mp h
  dsimp only at h
  split at h
  · exact .inl (Option.some.inj h).symm
  · next value _ =>
    split at h
    · simp at h
    · exact .inr ⟨value, (Option.some.inj h).symm⟩

/-- The messages of two faults of the time limit differ where the faults do. -/
theorem timeoutFault?_inj {env env' : Env} {e e' : ConfigError} (h : timeoutFault? env = some e)
    (h' : timeoutFault? env' = some e') (heq : e.message = e'.message) : e = e' := by
  rcases cases_of_timeoutFault? h with rfl | ⟨value, rfl⟩ <;>
    rcases cases_of_timeoutFault? h' with rfl | ⟨value', rfl⟩
  · rfl
  · simp [ConfigError.message, timeoutVar, String.ext_iff] at heq
  · simp [ConfigError.message, timeoutVar, String.ext_iff] at heq
  · have hvalue : value.toList = value'.toList := by
      simpa [ConfigError.message, String.ext_iff] using heq
    rw [String.toList_injective hvalue]

end Config

namespace Cli.Options

open Config

/-- The variables whose option is given. -/
def overridden (o : Options) : List String :=
  (if o.classpath.isSome then [classpathVar] else []) ++
    (if o.timeout.isSome then [timeoutVar] else []) ++
      (if o.workspace.isSome then [workspaceVar] else [])

/-- The environments differ at most in variables whose option is given. -/
def Agree (o : Options) (env env' : Env) : Prop :=
  ∀ name, name ∉ o.overridden → env name = env' name

/-- The configuration, or the message that is shown in its place. -/
def outcome (o : Options) (env : Env) (crateName : String) : Except String Config :=
  (o.config env crateName).mapError ConfigError.message

theorem outcome_of_ok {o : Options} {env : Env} {crateName : String} {c : Config}
    (h : o.config env crateName = .ok c) : o.outcome env crateName = .ok c := by
  unfold outcome
  rw [h]
  rfl

theorem outcome_of_error {o : Options} {env : Env} {crateName : String} {e : ConfigError}
    (h : o.config env crateName = .error e) : o.outcome env crateName = .error e.message := by
  unfold outcome
  rw [h]
  rfl

theorem mem_overridden_iff {o : Options} {name : String} : name ∈ o.overridden ↔
    o.classpath.isSome ∧ name = classpathVar ∨ o.timeout.isSome ∧ name = timeoutVar ∨
      o.workspace.isSome ∧ name = workspaceVar := by
  unfold overridden
  cases o.classpath <;> cases o.timeout <;> cases o.workspace <;> simp

variable {o : Options} {env env' : Env}

theorem config_eq_error_of_edition {e : ConfigError} (h : editionFault? env = some e)
    (crateName : String) : o.config env crateName = .error e := by
  have hsetting := setting_edition_eq_error_iff.mpr h
  unfold config ofEnv
  rw [hsetting]
  rfl

theorem config_eq_error_of_timeout {e : ConfigError} (hedition : editionFault? env = .none)
    (h : timeoutFault? env = some e) (crateName : String) : o.config env crateName = .error e := by
  have hsetting := setting_timeout_eq_error_iff.mpr h
  unfold config ofEnv
  cases hread : setting env editionVar default.edition edition? with
  | error e' =>
    rw [setting_edition_eq_error_iff.mp hread] at hedition
    contradiction
  | ok edition =>
    rw [hsetting]
    rfl

theorem exists_timeout (h : timeoutFault? env = .none) :
    ∃ t, setting env timeoutVar default.timeout timeout? = .ok t := by
  cases hread : setting env timeoutVar default.timeout timeout? with
  | error e =>
    rw [setting_timeout_eq_error_iff.mp hread] at h
    contradiction
  | ok t => exact ⟨t, rfl⟩

namespace Agree

theorem value?_eq (h : o.Agree env env') {name : String} (hname : name ∉ o.overridden) :
    value? env name = value? env' name :=
  value?_congr (h name hname)

/-- Variables without an option are never overridden. -/
theorem value?_eq_of_ne (h : o.Agree env env') {name : String} (hclasspath : name ≠ classpathVar)
    (htimeout : name ≠ timeoutVar) (hworkspace : name ≠ workspaceVar) :
    value? env name = value? env' name := by
  apply h.value?_eq
  rw [mem_overridden_iff]
  rintro (⟨-, heq⟩ | ⟨-, heq⟩ | ⟨-, heq⟩)
  · exact hclasspath heq
  · exact htimeout heq
  · exact hworkspace heq

theorem value?_timeout (h : o.Agree env env') (hflag : o.timeout = .none) :
    value? env timeoutVar = value? env' timeoutVar := by
  apply h.value?_eq
  rw [mem_overridden_iff, hflag]
  simp [timeoutVar, classpathVar, workspaceVar]

theorem editionFault?_eq (h : o.Agree env env') : editionFault? env = editionFault? env' := by
  unfold editionFault? fault?
  rw [h.value?_eq_of_ne (by decide) (by decide) (by decide)]

/-- Where the time limit can be read in both environments, what the options override is not seen. -/
theorem config_eq (h : o.Agree env env') (hfault : timeoutFault? env = .none)
    (hfault' : timeoutFault? env' = .none) (crateName : String) :
    o.config env crateName = o.config env' crateName := by
  have hedition : value? env editionVar = value? env' editionVar :=
    h.value?_eq_of_ne (by decide) (by decide) (by decide)
  have hcompiler : value? env compilerVar = value? env' compilerVar :=
    h.value?_eq_of_ne (by decide) (by decide) (by decide)
  have hshared : value? env sharedCompilerVar = value? env' sharedCompilerVar :=
    h.value?_eq_of_ne (by decide) (by decide) (by decide)
  have hclasspath : o.classpath = .none → value? env classpathVar = value? env' classpathVar := by
    intro hflag
    apply h.value?_eq
    rw [mem_overridden_iff, hflag]
    simp [timeoutVar, classpathVar, workspaceVar]
  have hworkspace : o.workspace = .none → value? env workspaceVar = value? env' workspaceVar := by
    intro hflag
    apply h.value?_eq
    rw [mem_overridden_iff, hflag]
    simp [timeoutVar, classpathVar, workspaceVar]
  obtain ⟨t, ht⟩ := exists_timeout hfault
  obtain ⟨t', ht'⟩ := exists_timeout hfault'
  have htimeout : o.timeout = .none → t = t' := by
    intro hflag
    unfold setting at ht ht'
    rw [h.value?_timeout hflag, ht'] at ht
    exact (Except.ok.inj ht).symm
  have hread : setting env editionVar default.edition edition? =
      setting env' editionVar default.edition edition? := by
    unfold setting
    rw [hedition]
  unfold config ofEnv
  rw [hread, ht, ht', hcompiler, hshared]
  cases setting env' editionVar default.edition edition? with
  | error e => rfl
  | ok edition =>
    obtain ⟨path, name, classpath, externs, isAlone, workspace, timeout, isJson, isStrict⟩ := o
    dsimp only at hclasspath hworkspace htimeout
    have hpaths : (classpath.map fun list => searchPath (Bytes.ofString list)).getD
          (((value? env classpathVar).map searchPath).getD default.classpath) =
        (classpath.map fun list => searchPath (Bytes.ofString list)).getD
          (((value? env' classpathVar).map searchPath).getD default.classpath) := by
      cases classpath with
      | none => rw [hclasspath rfl]
      | some list => rfl
    have hdirectory : workspace.or ((value? env workspaceVar).map Path.mk) =
        workspace.or ((value? env' workspaceVar).map Path.mk) := by
      cases workspace with
      | none => rw [hworkspace rfl]
      | some directory => rfl
    cases timeout with
    | none =>
      rw [htimeout rfl]
      simp only [bind, Except.bind, pure, Except.pure, hpaths, hdirectory]
    | some value => simp only [bind, Except.bind, pure, Except.pure, hpaths, hdirectory]

end Agree

/-- Once the environment can be read, only the value of an option is refused. -/
theorem eq_of_config_eq_error {e : ConfigError} (hedition : editionFault? env = .none)
    (hfault : timeoutFault? env = .none) {crateName : String} (h : o.config env crateName = .error e) :
    ∃ value, e = .invalidTimeout "--timeout" value := by
  obtain ⟨t, ht⟩ := exists_timeout hfault
  unfold config ofEnv at h
  rw [ht] at h
  cases hread : setting env editionVar default.edition edition? with
  | error e' =>
    rw [setting_edition_eq_error_iff.mp hread] at hedition
    contradiction
  | ok edition =>
    rw [hread] at h
    simp only [bind, Except.bind, pure, Except.pure] at h
    split at h
    · next value _ =>
      cases hflag : timeout? "--timeout" value with
      | error e' =>
        rw [hflag] at h
        obtain rfl := Except.error.inj h
        exact ⟨value, (timeout?_eq_error_iff.mp hflag).2⟩
      | ok t' =>
        rw [hflag] at h
        contradiction
    · contradiction

/-- A time limit that cannot be read shows, even if the option for it is given. -/
theorem outcome_ne_of_timeoutFault? {e : ConfigError} (hedition : editionFault? env = .none)
    (hedition' : editionFault? env' = .none) (hfault : timeoutFault? env = some e)
    (hfault' : timeoutFault? env' = .none) (crateName : String) :
    o.outcome env crateName ≠ o.outcome env' crateName := by
  rw [outcome_of_error (config_eq_error_of_timeout hedition hfault crateName)]
  cases hconfig : o.config env' crateName with
  | ok c =>
    rw [outcome_of_ok hconfig]
    simp
  | error e' =>
    rw [outcome_of_error hconfig]
    obtain ⟨value', rfl⟩ := eq_of_config_eq_error hedition' hfault' hconfig
    rcases cases_of_timeoutFault? hfault with rfl | ⟨value, rfl⟩ <;>
      simp [ConfigError.message, timeoutVar, String.ext_iff]

end Cli.Options

open Config in
/-- **Options go before the environment**, except for a time limit that cannot be read. Two environments
that differ in overridden variables only give the same configuration or the same message if and only if
the edition is refused in them, or their time limits have the same fault or none. -/
theorem Cli.Options.outcome_eq_iff {o : Options} {env env' : Env} (h : o.Agree env env')
    (crateName : String) : o.outcome env crateName = o.outcome env' crateName ↔
      (editionFault? env).isSome ∨ timeoutFault? env = timeoutFault? env' := by
  have hedition := h.editionFault?_eq
  cases hbad : editionFault? env with
  | some e =>
    rw [hbad] at hedition
    have heq : o.outcome env crateName = o.outcome env' crateName := by
      rw [outcome_of_error (config_eq_error_of_edition hbad crateName),
        outcome_of_error (config_eq_error_of_edition hedition.symm crateName)]
    simp [heq]
  | none =>
    have hbad' := hedition.symm.trans hbad
    cases hfault : timeoutFault? env with
    | none =>
      cases hfault' : timeoutFault? env' with
      | none => simp [outcome, h.config_eq hfault hfault']
      | some e =>
        have hne : o.outcome env crateName ≠ o.outcome env' crateName :=
          (outcome_ne_of_timeoutFault? hbad' hbad hfault' hfault crateName).symm
        simp [hne]
    | some e =>
      cases hfault' : timeoutFault? env' with
      | none => simp [outcome_ne_of_timeoutFault? hbad hbad' hfault hfault' crateName]
      | some e' =>
        have hmessage : o.outcome env crateName = o.outcome env' crateName ↔ e.message = e'.message := by
          rw [outcome_of_error (config_eq_error_of_timeout hbad hfault crateName),
            outcome_of_error (config_eq_error_of_timeout hbad' hfault' crateName)]
          simp
        have hinj : e.message = e'.message ↔ e = e' :=
          ⟨timeoutFault?_inj hfault hfault', fun heq => heq ▸ rfl⟩
        simp [hmessage, hinj]

/-- A list of directories that is not UTF-8 and a time limit are overridden. -/
theorem Cli.Options.outcome_eq_overridden :
    let o := { Options.none with classpath := some "", timeout := some "5" }
    let env : Config.Env := fun name =>
      if name = Config.classpathVar then some [0xff]
      else if name = Config.timeoutVar then some (Bytes.ofString "7") else .none
    o.Agree env (fun _ => .none) ∧
      o.outcome env "shapes" = o.outcome (fun _ => .none) "shapes" := by
  intro o env
  have hagree : o.Agree env fun _ => Option.none := by
    intro name hname
    rw [mem_overridden_iff] at hname
    have hclasspath : name ≠ Config.classpathVar := fun heq => hname (.inl ⟨rfl, heq⟩)
    have htimeout : name ≠ Config.timeoutVar := fun heq => hname (.inr (.inl ⟨rfl, heq⟩))
    show (if name = Config.classpathVar then _ else _) = _
    rw [if_neg hclasspath, if_neg htimeout]
  exact ⟨hagree, (outcome_eq_iff hagree "shapes").mpr (.inr (by decide +kernel))⟩

/-- The time limit of the environment is no number, and the option for it does not help. -/
theorem Cli.Options.outcome_bad_timeout :
    let o := { Options.none with timeout := some "5" }
    let env : Config.Env := fun name =>
      if name = Config.timeoutVar then some (Bytes.ofString "soon") else .none
    o.Agree env (fun _ => .none) ∧
      o.outcome env "shapes" ≠ o.outcome (fun _ => .none) "shapes" := by
  intro o env
  have hfault : Config.timeoutFault? env = some (.invalidTimeout Config.timeoutVar "soon") := by
    decide +kernel
  refine ⟨?_, outcome_ne_of_timeoutFault? (by decide) (by decide) hfault (by decide) "shapes"⟩
  intro name hname
  rw [mem_overridden_iff] at hname
  have htimeout : name ≠ Config.timeoutVar := fun heq => hname (.inr (.inl ⟨rfl, heq⟩))
  show (if name = Config.timeoutVar then _ else _) = _
  rw [if_neg htimeout]

end Doctest
