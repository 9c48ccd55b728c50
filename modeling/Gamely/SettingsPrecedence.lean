import Gamely.EnvironmentManager

/-!
# The precedence of settings

Every field takes its value from the highest layer that supplies it, and the stage is the
one whose file was merged. Under the test stage the `.env` files are no layer.
-/

set_option autoImplicit false

namespace Gamely.SettingsPrecedence
open Gamely.Placeholders Gamely.YamlSource Gamely.EnvironmentManager

/-! ## Layers -/

/-- What a layer supplies: fields and values. -/
abbrev Layer := String → Value → Prop

/-- The first layer that supplies the field supplies this value. -/
def Highest (layers : List Layer) (name : String) (v : Value) : Prop :=
  ∃ before L after, layers = before ++ L :: after ∧ L name v ∧ ∀ M ∈ before, ∀ u, ¬M name u

variable {Dotenv : Type} (p : Pydantic Dotenv) (i : Inputs Dotenv)

/-- The last of the files to give a variable a value. -/
def lastValue (files : List (Option Dotenv)) (name : String) : Option String :=
  files.reverse.findSome? (fun file => readFile p i file name)

/-- What a placeholder sees: the process environment, then the `.env` files, which the
test stage leaves out. -/
def visible (appEnv : AppEnv) : Environ :=
  fun name => (i.environ name).or (if appEnv = .test then none else lastValue p i i.envFiles name)

def supplied (source : Source) : Layer := fun name v => source name = some v

def fileLayer (appEnv : AppEnv) (name : String) : Layer :=
  Supplies (visible p i appEnv) (i.files (layerPath i name))

def defaults : Layer := fun name v => (name, v) ∈ modelFields

def documented (appEnv : AppEnv) : List Layer :=
  [supplied i.init, supplied (p.envSettings i.environ), supplied (dotenvSource p i),
    fileLayer p i appEnv appEnv.text, fileLayer p i appEnv "default", defaults]

/-- The layers there are: the documented ones without `.env` under the test stage. -/
def layers (appEnv : AppEnv) : List Layer :=
  if appEnv = .test then
    [supplied i.init, supplied (p.envSettings i.environ), fileLayer p i appEnv appEnv.text,
      fileLayer p i appEnv "default", defaults]
  else documented p i appEnv

/-- Every field but the stage has the validated value of the highest of these layers. -/
def Follows (layers : List Layer) (s : List (String × Value)) : Prop :=
  ∀ name ∈ fieldNames, name ≠ "app_env" → ∃ v r, Highest layers name v ∧
    validated p name v = .ok r ∧ s.lookup name = some r

/-! ## Sources and layers -/

variable {p i}

theorem interpolationEnv_eq (files : List (Option Dotenv)) :
    interpolationEnv p i files = fun name => (i.environ name).or (lastValue p i files name) := by
  have fold : ∀ (values : Environ) (name : String),
      files.foldl (fun values file => updateEnv values (readFile p i file)) values name =
        (lastValue p i files name).or (values name) := by
    induction files with
    | nil => simp [lastValue]
    | cons file files ih =>
      intro values name
      rw [List.foldl_cons, ih]
      simp only [lastValue, List.reverse_cons, List.findSome?_append, List.findSome?_singleton,
        updateEnv, Option.or_assoc]
  funext name
  rw [interpolationEnv, updateEnv, fold]
  simp

theorem interpolationEnv_stage (appEnv : AppEnv) :
    interpolationEnv p i (if appEnv = .test then [] else i.envFiles) = visible p i appEnv := by
  rw [interpolationEnv_eq]
  funext name
  by_cases h : appEnv = .test <;> simp [visible, h, lastValue]

/-- The merged files: the later one supplies a field, or it does not and the earlier does. -/
theorem yamlSettings_lookup {env : Environ} {low high : String × String × YamlFile} {src : Source}
    (h : yamlSettings fieldNames env [low, high] (fun _ => none) = .ok src) (name : String)
    (v : Value) :
    src name = some v ↔ Supplies env high.2.2 name v ∨
      (∀ u, ¬Supplies env high.2.2 name u) ∧ Supplies env low.2.2 name v := by
  obtain ⟨path, origin, file⟩ := low
  obtain ⟨path', origin', file'⟩ := high
  rw [yamlSettings] at h
  cases hlow : loadLayer path origin file fieldNames env with
  | error e =>
    rw [hlow] at h
    cases h
  | ok data =>
    rw [hlow] at h
    simp only [Bind.bind, Except.bind, yamlSettings] at h
    cases hhigh : loadLayer path' origin' file' fieldNames env with
    | error e =>
      rw [hhigh] at h
      cases h
    | ok data' =>
      rw [hhigh] at h
      cases h
      have hsome : ∀ u, data'.lookup name = some u ↔ Supplies env file' name u :=
        fun u => loadLayer_lookup hhigh u
      have hlow' : ∀ u, data.lookup name = some u ↔ Supplies env file name u :=
        fun u => loadLayer_lookup hlow u
      simp only [update, Option.or_none, ← hsome, ← hlow']
      cases data'.lookup name with
      | none => simp
      | some u => simp

theorem lookup_construct {sources : List Source} {fields s : List (String × Value)}
    (h : construct p sources fields = .ok s) (hn : (fields.map Prod.fst).Nodup)
    {name : String} {default : Value} (hm : (name, default) ∈ fields) :
    ∃ r, validated p name ((sources.findSome? (· name)).getD default) = .ok r ∧
      s.lookup name = some r := by
  induction fields generalizing s with
  | nil => cases hm
  | cons field fields ih =>
    obtain ⟨name', default'⟩ := field
    rw [construct] at h
    cases hv : validated p name' ((sources.findSome? (· name')).getD default') with
    | error message =>
      rw [hv] at h
      cases h
    | ok value =>
      rw [hv] at h
      cases hc : construct p sources fields with
      | error e =>
        simp only [hc] at h
        cases h
      | ok rest =>
        simp only [hc] at h
        cases h
        rw [List.map_cons, List.nodup_cons] at hn
        rcases List.mem_cons.mp hm with he | hrest
        · cases he
          exact ⟨value, hv, List.lookup_cons_self⟩
        · have hne : name ≠ name' := by
            rintro rfl
            exact hn.1 (List.mem_map.mpr ⟨_, hrest, rfl⟩)
          obtain ⟨r, hr, hl⟩ := ih hc hn.2 hrest
          have hbeq : (name == name') = false := by simp [hne]
          exact ⟨r, hr, by simp only [List.lookup_cons, hbeq, hl]⟩

theorem modelFields_nodup : (modelFields.map Prod.fst).Nodup := by decide +kernel

theorem highest_head {L : Layer} {ls : List Layer} {name : String} {v : Value} (h : L name v) :
    Highest (L :: ls) name v := ⟨[], L, ls, rfl, h, by simp⟩

theorem highest_tail {L : Layer} {ls : List Layer} {name : String} {v : Value}
    (hL : ∀ u, ¬L name u) (h : Highest ls name v) : Highest (L :: ls) name v := by
  obtain ⟨before, M, after, rfl, hM, hbefore⟩ := h
  refine ⟨L :: before, M, after, rfl, hM, ?_⟩
  intro N hN
  rcases List.mem_cons.mp hN with rfl | hN
  · exact hL
  · exact hbefore N hN

/-- A source in front of the others is a layer in front of theirs. -/
theorem highest_source {source : Source} {sources : List Source} {ls : List Layer} {name : String}
    {default : Value} (h : Highest ls name ((sources.findSome? (· name)).getD default)) :
    Highest (supplied source :: ls) name
      (((source :: sources).findSome? (· name)).getD default) := by
  cases hs : source name with
  | some u =>
    rw [List.findSome?_cons, hs]
    exact highest_head hs
  | none =>
    rw [List.findSome?_cons, hs]
    exact highest_tail (by simp [supplied, hs]) h

theorem highest_yaml {env : Environ} {low high : String × String × YamlFile} {src : Source}
    (hy : yamlSettings fieldNames env [low, high] (fun _ => none) = .ok src) {ls : List Layer}
    {name : String} {default : Value} (h : Highest ls name default) :
    Highest (Supplies env high.2.2 :: Supplies env low.2.2 :: ls) name
      ((([src] : List Source).findSome? (· name)).getD default) := by
  have hlookup := yamlSettings_lookup hy name
  cases hs : src name with
  | some u =>
    rw [List.findSome?_cons, hs]
    rcases (hlookup u).mp hs with hhigh | ⟨hnone, hlow⟩
    · exact highest_head hhigh
    · exact highest_tail hnone (highest_head hlow)
  | none =>
    have hhigh : ∀ u, ¬Supplies env high.2.2 name u := by
      intro u hu
      rw [(hlookup u).mpr (Or.inl hu)] at hs
      cases hs
    have hlow : ∀ u, ¬Supplies env low.2.2 name u := by
      intro u hu
      rw [(hlookup u).mpr (Or.inr ⟨hhigh, hu⟩)] at hs
      cases hs
    rw [List.findSome?_cons, hs]
    exact highest_tail hhigh (highest_tail hlow h)

/-- What the sources give a field is what the layers give it. -/
theorem customiseSources_highest {sources : List Source} (h : customiseSources p i = .ok sources) :
    ∃ appEnv, stage p i = .ok appEnv ∧ ∃ rest, sources = stageSource appEnv :: rest ∧
      ∀ name default, (name, default) ∈ modelFields →
        Highest (layers p i appEnv) name ((rest.findSome? (· name)).getD default) := by
  unfold customiseSources at h
  cases hstage : stage p i with
  | error e =>
    rw [hstage] at h
    cases h
  | ok appEnv =>
    rw [hstage] at h
    simp only [Bind.bind, Except.bind] at h
    rw [interpolationEnv_stage] at h
    cases hy : yamlSettings fieldNames (visible p i appEnv)
        [layer i "default", layer i appEnv.text] (fun _ => none) with
    | error e =>
      rw [hy] at h
      cases h
    | ok yaml =>
      rw [hy] at h
      refine ⟨appEnv, rfl, ?_⟩
      by_cases ht : appEnv = .test
      · simp only [if_pos ht] at h
        cases h
        refine ⟨_, rfl, fun name default hm => ?_⟩
        rw [layers, if_pos ht]
        apply highest_source
        apply highest_source
        apply highest_yaml hy
        exact highest_head hm
      · simp only [if_neg ht] at h
        cases h
        refine ⟨_, rfl, fun name default hm => ?_⟩
        rw [layers, if_neg ht]
        apply highest_source
        apply highest_source
        apply highest_source
        apply highest_yaml hy
        exact highest_head hm

/-- Construction follows the layers, and reports the stage whose file it merged. -/
theorem settings_follow {s : List (String × Value)} (h : settings p i = .ok s) :
    ∃ appEnv, stage p i = .ok appEnv ∧ s.lookup "app_env" = some (str appEnv.text) ∧
      Follows p (layers p i appEnv) s := by
  unfold settings at h
  cases hsources : customiseSources p i with
  | error e =>
    rw [hsources] at h
    cases h
  | ok sources =>
    rw [hsources] at h
    obtain ⟨appEnv, hstage, rest, rfl, hhighest⟩ := customiseSources_highest hsources
    refine ⟨appEnv, hstage, ?_, ?_⟩
    · have hfield : ("app_env", str "dev") ∈ modelFields := by simp [modelFields]
      obtain ⟨r, hr, hl⟩ := lookup_construct h modelFields_nodup hfield
      have hfirst : (stageSource appEnv :: rest).findSome? (· "app_env") =
          some (str appEnv.text) := by
        simp [stageSource]
      rw [hfirst, Option.getD_some, validated, p.validate_stage] at hr
      have hsame : r = str appEnv.text := by
        cases appEnv <;> exact (Except.ok.inj hr).symm
      rw [hl, hsame]
    · intro name hname hne
      obtain ⟨⟨name', default⟩, hm, rfl⟩ := List.mem_map.mp hname
      obtain ⟨r, hr, hl⟩ := lookup_construct h modelFields_nodup hm
      have hskip : (stageSource appEnv :: rest).findSome? (· name') =
          rest.findSome? (· name') := by
        have hnone : stageSource appEnv name' = none := if_neg hne
        simp [hnone]
      rw [hskip] at hr
      exact ⟨_, r, hhighest name' default hm, hr, hl⟩

/-- Under the test stage the sources do not depend on the `.env` files. -/
theorem settings_hermetic (files : List (Option Dotenv)) (h : stage p i = .ok .test)
    (h' : stage p { i with envFiles := files } = .ok .test) :
    settings p { i with envFiles := files } = settings p i := by
  have hsources : customiseSources p { i with envFiles := files } = customiseSources p i := by
    unfold customiseSources
    rw [h, h']
    rfl
  rw [settings, settings, hsources]

/-- When construction succeeds every field follows the layers and `app_env` is the stage
whose file was merged; placeholders see the process environment before the `.env` files;
and under the test stage the `.env` files make no difference. -/
theorem settings_precedence (p : Pydantic Dotenv) (i : Inputs Dotenv) :
    (∀ s, settings p i = .ok s → ∃ appEnv, stage p i = .ok appEnv ∧
      s.lookup "app_env" = some (str appEnv.text) ∧ Follows p (layers p i appEnv) s) ∧
    (∀ files, interpolationEnv p i files =
      fun name => (i.environ name).or (lastValue p i files name)) ∧
    (∀ files, stage p i = .ok .test → stage p { i with envFiles := files } = .ok .test →
      settings p { i with envFiles := files } = settings p i) :=
  ⟨fun _ h => settings_follow h, interpolationEnv_eq, settings_hermetic⟩

/-! ## Two processes -/

/-- Variables go by the upper-case names of their fields and every value is valid. -/
def plainPydantic : Pydantic (List (String × String)) where
  envSettings environ := fun name => (environ name.toUpper).map str
  dotenvSettings _ files := fun name =>
    (files.reverse.findSome? (fun file => file.bind (List.lookup name.toUpper))).map str
  dotenvValues _ file := fun name => (file.lookup name).map some
  validate _ value := .ok value
  validate_stage _ := rfl

/-- A process with this stage and a `.env` file that names the application. -/
def named (stage : String) : Inputs (List (String × String)) where
  init _ := none
  environ name := [("APP_ENV", stage),
    ("AUTH_JWT_SECRET", "a secret of at least thirty-two characters")].lookup name
  envFiles := [some [("APP_NAME", "from .env"), ("APP_DOMAIN", "games.example")]]
  backendRoot := "/app"
  files path :=
    if path = "/app/config/default.yml" then
      .mapping (.cons "aws" (.group (.cons "region" (.leaf (str "$\x7bAPP_DOMAIN\x7d")) .nil)) .nil)
    else .missing

/-- The fields of `named`, when construction succeeds. -/
def fieldsOf (stage : String) : List (String × Value) :=
  match settings plainPydantic (named stage) with
  | .ok s => s
  | .error _ => []

theorem settings_named {stage name : String} {value : Value}
    (h : (fieldsOf stage).lookup name = some value) :
    settings plainPydantic (named stage) = .ok (fieldsOf stage) := by
  unfold fieldsOf at h ⊢
  cases hs : settings plainPydantic (named stage) with
  | ok s => rfl
  | error e => simp [hs] at h

theorem fieldsOf_dev : (fieldsOf "dev").lookup "app_name" = some (str "from .env") ∧
    (fieldsOf "dev").lookup "aws_region" = some (str "games.example") := by decide +kernel

theorem fieldsOf_test : (fieldsOf "test").lookup "app_name" = some (str "Games API") := by
  decide +kernel

/-- Outside the test stage the file counts. -/
theorem settings_precedence_dev :
    (fieldsOf "dev").lookup "app_name" = some (str "from .env") ∧
    (fieldsOf "dev").lookup "aws_region" = some (str "games.example") ∧
    Follows plainPydantic (layers plainPydantic (named "dev") .dev) (fieldsOf "dev") := by
  refine ⟨fieldsOf_dev.1, fieldsOf_dev.2, ?_⟩
  obtain ⟨appEnv, hstage, -, hfollows⟩ := (settings_precedence plainPydantic (named "dev")).1
    (fieldsOf "dev") (settings_named fieldsOf_dev.1)
  have hdev : stage plainPydantic (named "dev") = .ok .dev := by decide +kernel
  cases hdev.symm.trans hstage
  exact hfollows

theorem highest_cons {L : Layer} {ls : List Layer} {name : String} {v : Value}
    (h : Highest (L :: ls) name v) : L name v ∨ (∀ u, ¬L name u) ∧ Highest ls name v := by
  obtain ⟨before, M, after, he, hM, hbefore⟩ := h
  cases before with
  | nil =>
    cases he
    exact Or.inl hM
  | cons N before =>
    cases he
    exact Or.inr ⟨hbefore L (by simp), before, M, after, rfl, hM,
      fun N' hN' => hbefore N' (by simp [hN'])⟩

/-- Under the test stage a field the file supplies has a lower layer's value. -/
theorem test_stage_skips_dotenv :
    settings plainPydantic (named "test") = .ok (fieldsOf "test") ∧
    stage plainPydantic (named "test") = .ok .test ∧
    ¬Follows plainPydantic (documented plainPydantic (named "test") .test) (fieldsOf "test") := by
  refine ⟨settings_named fieldsOf_test, by decide +kernel, fun h => ?_⟩
  obtain ⟨v, r, hv, hr, hl⟩ := h "app_name" (by decide +kernel) (by decide)
  have henv : plainPydantic.envSettings (named "test").environ "app_name" = none := by
    decide +kernel
  have hfile : dotenvSource plainPydantic (named "test") "app_name" = some (str "from .env") := by
    decide +kernel
  rcases highest_cons hv with h | ⟨-, hv⟩
  · cases h
  · rcases highest_cons hv with h | ⟨-, hv⟩
    · cases henv.symm.trans h
    · rcases highest_cons hv with h | ⟨h, -⟩
      · cases hfile.symm.trans h
        cases hr
        exact absurd (fieldsOf_test.symm.trans hl) (by decide)
      · exact h _ hfile

end Gamely.SettingsPrecedence
