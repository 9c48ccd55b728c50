import Gamely.Placeholders
import Mathlib.Data.Int.Notation

/-!
# Settings from YAML layers

A layer groups settings in nested mappings. Each leaf goes by its path joined with
underscores, its placeholders are expanded, and a later layer overrides an earlier one
key by key.
-/

set_option autoImplicit false

namespace Gamely.YamlSource
open Gamely.Placeholders

/-- A scalar; `other` stands for floats, dates and what else no code here looks into. -/
inductive Scalar where
  | null
  | bool (b : Bool)
  | int (n : ℤ)
  | str (s : String)
  | other (text : String)
  deriving DecidableEq, Repr

inductive Value where
  | scalar (s : Scalar)
  | list (items : List Scalar)
  deriving DecidableEq, Repr

mutual

inductive Node where
  | leaf (value : Value)
  | group (entries : Entries)

/-- The members of a mapping in their order, with `str(key)`. -/
inductive Entries where
  | nil
  | cons (name : String) (node : Node) (rest : Entries)

end

/-- What reading and parsing a file of the configuration directory gives. -/
inductive YamlFile where
  | missing
  | undecodable
  | invalid (error : String)
  | empty
  | notMapping
  | mapping (entries : Entries)

/-- `ConfigFileError` by what its message says, and the exception of a file that is not
UTF-8. -/
inductive ConfigError where
  | stageMustBe (origin value : String)
  | undecodable (path : String)
  | notYaml (path error : String)
  | notMapping (path : String)
  | bothResolve (origin dotted other flat : String)
  | stageInFile (path : String)
  | unset (origin key name : String)
  | unknownSettings (path : String) (names : List String)
  deriving DecidableEq, Repr

/-! ## Leaves -/

/-- Flat names with the dotted path and the value of each leaf. -/
abbrev Leaves := List (String × String × Value)

def flatName (path : List String) : String := "_".intercalate path

def dottedName (path : List String) : String := ".".intercalate path

mutual

def flattenNode (origin : String) : Node → List String → Leaves → Except ConfigError Leaves
  | .group entries, path, out => flatten origin entries path out
  | .leaf value, path, out => match out.lookup (flatName path) with
    | some (other, _) =>
      .error (.bothResolve origin (dottedName path) other (flatName path))
    | none => .ok (out ++ [(flatName path, dottedName path, value)])

def flatten (origin : String) : Entries → List String → Leaves → Except ConfigError Leaves
  | .nil, _, out => .ok out
  | .cons name node rest, before, out => do
    let out ← flattenNode origin node (before ++ [name]) out
    flatten origin rest before out

end

/-! ## Values -/

/-- The items of a sequence, in which every placeholder must have a value. -/
def expandItem (env : Environ) : Scalar → Except String Scalar
  | .str raw => (fun text => .str (text.getD "")) <$> interpolate env raw false
  | s => .ok s

/-- `_expand`: no value for a bare placeholder nothing supplies, and the name of the
placeholder when there has to be one. -/
def expand (env : Environ) : Value → Except String (Option Value)
  | .scalar (.str raw) =>
    (fun text => text.map (fun s => .scalar (.str s))) <$> interpolate env raw true
  | .list items => (fun items => some (.list items)) <$> items.mapM (expandItem env)
  | value => .ok (some value)

/-! ## Layers -/

abbrev Data := List (String × Value)

/-- The loop of `load_layer` over the leaves. -/
def collect (path origin : String) (fieldNames : List String) (env : Environ) :
    Leaves → Data → List String → Except ConfigError (Data × List String)
  | [], data, unknown => .ok (data, unknown)
  | (name, dotted, value)::rest, data, unknown =>
    if name = "app_env" then .error (.stageInFile path)
    else if name ∉ fieldNames then
      collect path origin fieldNames env rest data (unknown ++ [dotted])
    else match expand env value with
      | .error hole => .error (.unset origin dotted hole)
      | .ok none => collect path origin fieldNames env rest data unknown
      | .ok (some resolved) =>
        collect path origin fieldNames env rest (data ++ [(name, resolved)]) unknown

/-- `load_layer`; `origin` is `path.name`. -/
def loadLayer (path origin : String) (file : YamlFile) (fieldNames : List String)
    (env : Environ) : Except ConfigError Data :=
  match file with
  | .missing => .ok []
  | .undecodable => .error (.undecodable path)
  | .invalid error => .error (.notYaml path error)
  | .empty => .ok []
  | .notMapping => .error (.notMapping path)
  | .mapping entries => do
    let leaves ← flatten origin entries [] []
    let (data, unknown) ← collect path origin fieldNames env leaves [] []
    if unknown ≠ [] then .error (.unknownSettings path (unknown.mergeSort (fun a b => a ≤ b)))
    else .ok data

/-- The settings a source supplies. -/
abbrev Source := String → Option Value

/-- `merged.update(layer)`. -/
def update (merged : Source) (layer : Data) : Source :=
  fun name => (layer.lookup name).or (merged name)

/-- `YamlSettingsSource`, with the files lowest precedence first. -/
def yamlSettings (fieldNames : List String) (env : Environ) :
    List (String × String × YamlFile) → Source → Except ConfigError Source
  | [], merged => .ok merged
  | (path, origin, file)::rest, merged => do
    let layer ← loadLayer path origin file fieldNames env
    yamlSettings fieldNames env rest (update merged layer)

/-! ## What a layer supplies -/

mutual

def Node.leaves : Node → List String → List (List String × Value)
  | .leaf value, path => [(path, value)]
  | .group entries, path => entries.leaves path

/-- The leaves below a path, each with its own. -/
def Entries.leaves : Entries → List String → List (List String × Value)
  | .nil, _ => []
  | .cons name node rest, before => node.leaves (before ++ [name]) ++ rest.leaves before

end

/-- A bare placeholder nothing supplies. -/
def Bare (env : Environ) (value : Value) : Prop :=
  ∃ raw, value = .scalar (.str raw) ∧ Unresolved env raw

/-- Some leaf of the file goes by this name and has this value once expanded. -/
def Supplies (env : Environ) (file : YamlFile) (name : String) (v : Value) : Prop :=
  ∃ entries path value, file = .mapping entries ∧ (path, value) ∈ entries.leaves [] ∧
    flatName path = name ∧ ¬Bare env value ∧ expand env value = .ok (some v)

variable {env : Environ} {origin path name : String} {fieldNames : List String}

def entryOf (leaf : List String × Value) : String × String × Value :=
  (flatName leaf.1, dottedName leaf.1, leaf.2)

theorem lookup_none {A : Type} {entries : List (String × A)} {name : String} :
    entries.lookup name = none ↔ name ∉ entries.map Prod.fst := by
  rw [List.lookup_eq_none_iff]
  constructor
  · intro h hm
    obtain ⟨entry, he, rfl⟩ := List.mem_map.mp hm
    simpa using h entry he
  · intro h entry he
    rw [bne_iff_ne]
    rintro rfl
    exact h (List.mem_map_of_mem he)

mutual

theorem flattenNode_ok (node : Node) (at' : List String) (out out' : Leaves)
    (h : flattenNode origin node at' out = .ok out') (hn : (out.map Prod.fst).Nodup) :
    out' = out ++ (node.leaves at').map entryOf ∧ (out'.map Prod.fst).Nodup := by
  cases node with
  | group entries => exact flatten_ok entries at' out out' h hn
  | leaf value =>
    rw [flattenNode] at h
    split at h
    case h_1 => cases h
    case h_2 hnone =>
      cases h
      refine ⟨rfl, ?_⟩
      rw [List.map_append, List.nodup_append]
      refine ⟨hn, by simp, ?_⟩
      intro a ha b hb hab
      subst hab
      rw [List.map_singleton, List.mem_singleton] at hb
      subst hb
      exact lookup_none.mp hnone ha

theorem flatten_ok (entries : Entries) (at' : List String) (out out' : Leaves)
    (h : flatten origin entries at' out = .ok out') (hn : (out.map Prod.fst).Nodup) :
    out' = out ++ (entries.leaves at').map entryOf ∧ (out'.map Prod.fst).Nodup := by
  cases entries with
  | nil =>
    cases h
    simp [Entries.leaves, hn]
  | cons name node rest =>
    rw [flatten] at h
    cases hnode : flattenNode origin node (at' ++ [name]) out with
    | error e =>
      rw [hnode] at h
      cases h
    | ok mid =>
      rw [hnode] at h
      obtain ⟨h₁, hn₁⟩ := flattenNode_ok node _ out mid hnode hn
      obtain ⟨h₂, hn₂⟩ := flatten_ok rest at' mid out' h hn₁
      refine ⟨?_, hn₂⟩
      rw [h₂, h₁, Entries.leaves, List.map_append, List.append_assoc]

end

theorem expand_none_iff (value : Value) : expand env value = .ok none ↔ Bare env value := by
  cases value with
  | list items =>
    constructor
    · intro h
      simp only [expand] at h
      cases hm : items.mapM (expandItem env) with
      | error e =>
        rw [hm] at h
        cases h
      | ok items =>
        rw [hm] at h
        cases h
    · rintro ⟨raw, ⟨⟩, -⟩
  | scalar s =>
    cases s with
    | str raw =>
      have hbare : Bare env (.scalar (.str raw)) ↔ Unresolved env raw := by
        constructor
        · rintro ⟨raw', he, h⟩
          cases he
          exact h
        · exact fun h => ⟨raw, rfl, h⟩
      rw [hbare, ← interpolate_none_iff, expand]
      cases hi : interpolate env raw true with
      | error e => exact iff_of_false (fun h => by cases h) (fun h => by cases h)
      | ok text =>
        cases text with
        | none => exact iff_of_true rfl rfl
        | some s => exact iff_of_false (fun h => by cases h) (fun h => by cases h)
    | _ =>
      constructor
      · intro h
        cases h
      · rintro ⟨raw, ⟨⟩, -⟩

/-- What the first leaf of a name gives. -/
def leafValue (env : Environ) (name : String) (leaf : String × String × Value) : Option Value :=
  if leaf.1 = name then
    match expand env leaf.2.2 with
    | .ok resolved => resolved
    | .error _ => none
  else none

theorem collect_unknown {leaves : Leaves} {data data' : Data} {unknown unknown' : List String}
    (h : collect path origin fieldNames env leaves data unknown = .ok (data', unknown')) :
    unknown <+: unknown' := by
  induction leaves generalizing data unknown with
  | nil =>
    cases h
    exact List.prefix_refl _
  | cons leaf rest ih =>
    obtain ⟨n, dotted, value⟩ := leaf
    rw [collect] at h
    split at h
    · cases h
    · split at h
      · exact (List.prefix_append _ _).trans (ih h)
      · split at h
        · cases h
        · exact ih h
        · exact ih h

theorem collect_lookup {leaves : Leaves} {data data' : Data} {unknown : List String}
    (h : collect path origin fieldNames env leaves data unknown = .ok (data', [])) :
    data'.lookup name = (data.lookup name).or (leaves.findSome? (leafValue env name)) := by
  induction leaves generalizing data unknown with
  | nil =>
    cases h
    simp
  | cons leaf rest ih =>
    obtain ⟨n, dotted, value⟩ := leaf
    rw [collect] at h
    split at h
    · cases h
    · split at h
      · have hp := collect_unknown h
        rw [List.prefix_nil] at hp
        simp at hp
      · split at h
        case h_1 => cases h
        case h_2 he =>
          have hleaf : leafValue env name (n, dotted, value) = none := by
            simp [leafValue, he]
          rw [ih h, List.findSome?_cons, hleaf]
        case h_3 resolved he =>
          rw [ih h, List.lookup_append, List.findSome?_cons, Option.or_assoc]
          by_cases hn : n = name
          · subst hn
            simp [leafValue, he]
          · have hleaf : leafValue env name (n, dotted, value) = none := by
              simp [leafValue, hn]
            have hbeq : (name == n) = false := by simp [Ne.symm hn]
            simp [hleaf, List.lookup_cons, hbeq]

theorem findSome_leaf {leaves : Leaves} (hn : (leaves.map Prod.fst).Nodup) (v : Value) :
    leaves.findSome? (leafValue env name) = some v ↔
      ∃ dotted value, (name, dotted, value) ∈ leaves ∧ expand env value = .ok (some v) := by
  have hleaf : ∀ leaf : String × String × Value, leafValue env name leaf = some v ↔
      leaf.1 = name ∧ expand env leaf.2.2 = .ok (some v) := by
    intro leaf
    unfold leafValue
    split
    case isTrue h =>
      split
      case h_1 resolved he => simp [h, he]
      case h_2 e he => simp [he]
    case isFalse h => simp [h]
  constructor
  · intro h
    obtain ⟨⟨n, dotted, value⟩, hm, hv⟩ := List.exists_of_findSome?_eq_some h
    obtain ⟨rfl, he⟩ := (hleaf _).mp hv
    exact ⟨dotted, value, hm, he⟩
  · rintro ⟨dotted, value, hm, he⟩
    induction leaves with
    | nil => cases hm
    | cons leaf rest ih =>
      rw [List.map_cons, List.nodup_cons] at hn
      rw [List.findSome?_cons]
      rcases List.mem_cons.mp hm with rfl | hm
      · rw [(hleaf _).mpr ⟨rfl, he⟩]
      · have hne : leaf.1 ≠ name := by
          intro heq
          exact hn.1 (heq ▸ List.mem_map_of_mem hm)
        have hnone : leafValue env name leaf = none := by simp [leafValue, hne]
        rw [hnone]
        exact ih hn.2 hm

/-- A layer that loads gives exactly the settings its leaves supply. -/
theorem loadLayer_lookup {file : YamlFile} {data : Data}
    (h : loadLayer path origin file fieldNames env = .ok data) (v : Value) :
    data.lookup name = some v ↔ Supplies env file name v := by
  cases file with
  | mapping entries =>
    simp only [loadLayer] at h
    cases hf : flatten origin entries [] [] with
    | error e =>
      rw [hf] at h
      cases h
    | ok leaves =>
      obtain ⟨hleaves, hn⟩ := flatten_ok entries [] [] leaves hf List.nodup_nil
      rw [List.nil_append] at hleaves
      rw [hf] at h
      cases hc : collect path origin fieldNames env leaves [] [] with
      | error e =>
        simp only [Bind.bind, Except.bind, hc] at h
        cases h
      | ok r =>
        obtain ⟨data', unknown⟩ := r
        simp only [Bind.bind, Except.bind, hc] at h
        split at h
        case isTrue => cases h
        case isFalse hu =>
          cases h
          rw [not_not] at hu
          subst hu
          rw [collect_lookup hc, List.lookup_nil, Option.none_or, findSome_leaf hn]
          constructor
          · rintro ⟨dotted, value, hm, he⟩
            rw [hleaves] at hm
            obtain ⟨⟨at', value'⟩, hmem, heq⟩ := List.mem_map.mp hm
            cases heq
            refine ⟨entries, at', value', rfl, hmem, rfl, ?_, he⟩
            intro hb
            rw [(expand_none_iff _).mpr hb] at he
            cases he
          · rintro ⟨entries', at', value, heq, hmem, rfl, -, he⟩
            cases heq
            refine ⟨dottedName at', value, ?_, he⟩
            rw [hleaves]
            exact List.mem_map.mpr ⟨(at', value), hmem, rfl⟩
  | missing | empty =>
    cases h
    exact iff_of_false (by simp) (by rintro ⟨_, _, _, ⟨⟩, _⟩)
  | undecodable | invalid | notMapping => cases h

end Gamely.YamlSource
