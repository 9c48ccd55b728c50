import Gamely.Interpolation
import Gamely.YamlSource
import Mathlib.Data.List.Perm.Basic

/-!
# A YAML layer as the set of its leaves

What `load_layer` makes of a mapping depends on nothing but the joined names and
the values of its leaves: neither on the order of the keys nor on how they are
grouped.
-/

set_option autoImplicit false

namespace Gamely.YamlLayers
open Gamely.Placeholders Gamely.Interpolation Gamely.YamlSource

variable (env : Environ) (fieldNames : List String)

/-! ## What is in a mapping -/

def joined (leaf : List String × Value) : String × Value := (flatName leaf.1, leaf.2)

/-- The leaves of a mapping by their joined paths. -/
def flatLeaves (entries : Entries) : List (String × Value) := (entries.leaves []).map joined

/-- A text with an unset placeholder, one that is not the whole of it, or an item with one. -/
inductive Hole : Value → Prop
  | embedded {raw : String} (hu : Unset env raw) (hb : ¬ Unresolved env raw) :
      Hole (.scalar (.str raw))
  | item {raw : String} {items : List Scalar} (hi : .str raw ∈ items) (hu : Unset env raw) :
      Hole (.list items)

/-- What keeps a mapping from being a layer. -/
inductive Refused (leaves : List (String × Value)) : Prop
  | collision (h : ¬(leaves.map Prod.fst).Nodup)
  | stage (h : "app_env" ∈ leaves.map Prod.fst)
  | unknown {name : String} (h : name ∈ leaves.map Prod.fst) (hn : name ∉ fieldNames)
  | hole {name : String} {value : Value} (h : (name, value) ∈ leaves) (hn : name ∈ fieldNames)
      (hh : Hole env value)

/-- The expanded leaves, without the bare placeholders nothing supplies. -/
def layerOf (leaves : List (String × Value)) : Data :=
  leaves.filterMap (fun leaf => match expand env leaf.2 with
    | .ok (some value) => some (leaf.1, value)
    | _ => none)

/-! ## Expansion -/

theorem expandItem_error_iff (item : Scalar) : (∃ name, expandItem env item = .error name) ↔
    ∃ raw, item = .str raw ∧ Unset env raw := by
  cases item with
  | str raw =>
    rw [expandItem, map_error_iff, interpolate_error]
    simp
  | _ => exact iff_of_false (fun ⟨_, h⟩ => by cases h) (by simp)

theorem expandItems_error_iff (items : List Scalar) :
    (∃ name, items.mapM (expandItem env) = .error name) ↔
      ∃ item ∈ items, ∃ name, expandItem env item = .error name := by
  induction items with
  | nil => exact iff_of_false (fun ⟨_, h⟩ => by cases h) (by simp)
  | cons item items ih =>
    rw [List.mapM_cons]
    cases hi : expandItem env item with
    | error e => exact iff_of_true ⟨e, rfl⟩ ⟨item, List.mem_cons_self, e, hi⟩
    | ok s =>
      have hrest : (∃ name, (do
          let rest ← items.mapM (expandItem env)
          pure (s::rest) : Except String (List Scalar)) = .error name) ↔
            ∃ name, items.mapM (expandItem env) = .error name :=
        map_error_iff (s :: ·) _
      refine hrest.trans (ih.trans ?_)
      simp [hi]

theorem expand_error_iff (value : Value) :
    (∃ name, expand env value = .error name) ↔ Hole env value := by
  cases value with
  | list items =>
    rw [expand, map_error_iff, expandItems_error_iff]
    simp only [expandItem_error_iff]
    constructor
    · rintro ⟨item, hi, raw, rfl, hu⟩
      exact .item hi hu
    · rintro (⟨⟩ | ⟨hi, hu⟩)
      exact ⟨_, hi, _, rfl, hu⟩
  | scalar s =>
    cases s with
    | str raw =>
      rw [expand, map_error_iff, interpolate_error]
      constructor
      · rintro ⟨hb, hu⟩
        exact .embedded hu (fun h => hb ⟨rfl, h⟩)
      · rintro (⟨hu, hb⟩ | ⟨⟩)
        exact ⟨fun h => hb h.2, hu⟩
    | _ =>
      refine iff_of_false ?_ (fun h => by cases h)
      rintro ⟨_, h⟩
      cases h

/-! ## Flattening -/

section
variable {origin : String}

mutual

theorem flattenNode_of_nodup (node : Node) (path : List String) (out : Leaves)
    (h : ((out ++ (node.leaves path).map entryOf).map Prod.fst).Nodup) :
    flattenNode origin node path out = .ok (out ++ (node.leaves path).map entryOf) := by
  cases node with
  | group entries => exact flatten_of_nodup entries path out h
  | leaf value =>
    have hnone : out.lookup (flatName path) = none := by
      rw [lookup_none]
      intro hm
      rw [List.map_append, List.nodup_append] at h
      exact h.2.2 _ hm _ (by simp [Node.leaves, entryOf]) rfl
    rw [flattenNode, hnone]
    rfl

theorem flatten_of_nodup (entries : Entries) (path : List String) (out : Leaves)
    (h : ((out ++ (entries.leaves path).map entryOf).map Prod.fst).Nodup) :
    flatten origin entries path out = .ok (out ++ (entries.leaves path).map entryOf) := by
  cases entries with
  | nil =>
    rw [flatten, Entries.leaves, List.map_nil, List.append_nil]
  | cons name node rest =>
    have happend : out ++ ((Entries.cons name node rest).leaves path).map entryOf =
        (out ++ (node.leaves (path ++ [name])).map entryOf) ++ (rest.leaves path).map entryOf := by
      rw [Entries.leaves, List.map_append, List.append_assoc]
    rw [happend] at h ⊢
    have hnode : ((out ++ (node.leaves (path ++ [name])).map entryOf).map Prod.fst).Nodup := by
      rw [List.map_append, List.nodup_append] at h
      exact h.1
    rw [flatten, flattenNode_of_nodup node _ out hnode]
    exact flatten_of_nodup rest path _ h

end

mutual

/-- Only a collision stops the flattening. -/
theorem flattenNode_error (node : Node) (path : List String) (out : Leaves) (e : ConfigError)
    (h : flattenNode origin node path out = .error e) :
    ∃ dotted other flat, e = .bothResolve origin dotted other flat := by
  cases node with
  | group entries => exact flatten_error entries path out e h
  | leaf value =>
    rw [flattenNode] at h
    split at h
    case h_1 =>
      cases h
      exact ⟨_, _, _, rfl⟩
    case h_2 => cases h

theorem flatten_error (entries : Entries) (path : List String) (out : Leaves) (e : ConfigError)
    (h : flatten origin entries path out = .error e) :
    ∃ dotted other flat, e = .bothResolve origin dotted other flat := by
  cases entries with
  | nil => cases h
  | cons name node rest =>
    rw [flatten] at h
    cases hnode : flattenNode origin node (path ++ [name]) out with
    | error e' =>
      rw [hnode] at h
      cases h
      exact flattenNode_error node _ out _ hnode
    | ok mid =>
      rw [hnode] at h
      exact flatten_error rest path mid e h

end

/-- The names of the leaves are distinct, or the flattening fails on two of them. -/
theorem flatten_result (entries : Entries) :
    (((flatLeaves entries).map Prod.fst).Nodup ∧
      flatten origin entries [] [] = .ok ((entries.leaves []).map entryOf)) ∨
    (¬((flatLeaves entries).map Prod.fst).Nodup ∧
      ∃ dotted other flat, flatten origin entries [] [] =
        .error (.bothResolve origin dotted other flat)) := by
  have hnames : ((entries.leaves []).map entryOf).map Prod.fst =
      (flatLeaves entries).map Prod.fst := by
    rw [flatLeaves, List.map_map, List.map_map]
    rfl
  by_cases hn : ((flatLeaves entries).map Prod.fst).Nodup
  · have h := @flatten_of_nodup origin entries [] []
    rw [List.nil_append, hnames] at h
    exact Or.inl ⟨hn, h hn⟩
  · cases hf : flatten origin entries [] [] with
    | ok out =>
      obtain ⟨rfl, hok⟩ := flatten_ok entries [] [] out hf List.nodup_nil
      rw [List.nil_append, hnames] at hok
      exact absurd hok hn
    | error e =>
      obtain ⟨dotted, other, flat, rfl⟩ := flatten_error entries [] [] e hf
      exact Or.inr ⟨hn, dotted, other, flat, rfl⟩

end

/-! ## The loop over the leaves -/

section
variable {path origin : String} {env fieldNames}

def Stops (env : Environ) (fieldNames : List String) (leaf : String × String × Value) : Prop :=
  leaf.1 = "app_env" ∨ leaf.1 ∈ fieldNames ∧ Hole env leaf.2.2

variable (path origin env fieldNames) in
/-- How the loop ends: at a leaf where it stops, or after all of them. -/
inductive Collected (leaves : Leaves) (data : Data) (unknown : List String) :
    Except ConfigError (Data × List String) → Prop
  | stopped {leaf : String × String × Value} (hm : leaf ∈ leaves)
      (hs : Stops env fieldNames leaf) {e : ConfigError}
      (he : e = .stageInFile path ∨ ∃ dotted name, e = .unset origin dotted name) :
      Collected leaves data unknown (.error e)
  | through (hs : ∀ leaf ∈ leaves, ¬ Stops env fieldNames leaf) :
      Collected leaves data unknown
        (.ok (data ++ layerOf env ((leaves.filter (fun leaf => leaf.1 ∈ fieldNames)).map
            (fun leaf => (leaf.1, leaf.2.2))),
          unknown ++ (leaves.filter (fun leaf => leaf.1 ∉ fieldNames)).map
            (fun leaf => leaf.2.1)))

theorem layerOf_append (leaves more : List (String × Value)) :
    layerOf env (leaves ++ more) = layerOf env leaves ++ layerOf env more :=
  List.filterMap_append

theorem collected_cons {leaf : String × String × Value} {rest : Leaves} {data data' : Data}
    {unknown unknown' : List String} {result : Except ConfigError (Data × List String)}
    (hgoes : ¬ Stops env fieldNames leaf)
    (hdata : data' = data ++ layerOf env (([leaf].filter (fun leaf => leaf.1 ∈ fieldNames)).map
      (fun leaf => (leaf.1, leaf.2.2))))
    (hunknown : unknown' = unknown ++ ([leaf].filter (fun leaf => leaf.1 ∉ fieldNames)).map
      (fun leaf => leaf.2.1))
    (h : Collected env fieldNames path origin rest data' unknown' result) :
    Collected env fieldNames path origin (leaf::rest) data unknown result := by
  cases h with
  | stopped hm hs he => exact .stopped (List.mem_cons_of_mem _ hm) hs he
  | through hs =>
    have hall : Collected env fieldNames path origin (leaf::rest) data unknown _ :=
      .through (List.forall_mem_cons.mpr ⟨hgoes, hs⟩)
    rw [← List.singleton_append, List.filter_append, List.filter_append, List.map_append,
      List.map_append, layerOf_append, ← List.append_assoc, ← List.append_assoc, ← hdata,
      ← hunknown] at hall
    exact hall

variable (path origin env fieldNames) in
theorem collect_result (leaves : Leaves) (data : Data) (unknown : List String) :
    Collected env fieldNames path origin leaves data unknown
      (collect path origin fieldNames env leaves data unknown) := by
  induction leaves generalizing data unknown with
  | nil =>
    have hall : Collected env fieldNames path origin [] data unknown _ := .through (by simp)
    simpa [layerOf, collect] using hall
  | cons leaf rest ih =>
    obtain ⟨name, dotted, value⟩ := leaf
    rw [collect]
    by_cases hstage : name = "app_env"
    · rw [if_pos hstage]
      exact .stopped List.mem_cons_self (Or.inl hstage) (Or.inl rfl)
    · rw [if_neg hstage]
      by_cases hfield : name ∈ fieldNames
      · rw [if_neg (not_not_intro hfield)]
        cases hx : expand env value with
        | error hole =>
          have hh : Hole env value := (expand_error_iff env value).mp ⟨hole, hx⟩
          exact .stopped List.mem_cons_self (Or.inr ⟨hfield, hh⟩) (Or.inr ⟨_, _, rfl⟩)
        | ok resolved =>
          have hgoes : ¬ Stops env fieldNames (name, dotted, value) := by
            rintro (h | ⟨-, hh⟩)
            · exact hstage h
            · obtain ⟨e, he⟩ := (expand_error_iff env value).mpr hh
              rw [hx] at he
              cases he
          cases resolved with
          | none =>
            refine collected_cons hgoes ?_ ?_ (ih data unknown)
            · simp [layerOf, hfield, hx]
            · simp [hfield]
          | some value' =>
            refine collected_cons hgoes ?_ ?_ (ih (data ++ [(name, value')]) unknown)
            · simp [layerOf, hfield, hx]
            · simp [hfield]
      · rw [if_pos hfield]
        have hgoes : ¬ Stops env fieldNames (name, dotted, value) := by
          rintro (h | ⟨h, -⟩)
          · exact hstage h
          · exact hfield h
        refine collected_cons hgoes ?_ ?_ (ih data (unknown ++ [dotted]))
        · simp [layerOf, hfield]
        · simp [hfield]

end

/-! ## The layer -/

/-- `ConfigFileError` among the exceptions of reading a file. -/
def isConfigFileError : ConfigError → Bool
  | .undecodable _ => false
  | _ => true

section
variable {path origin : String} {env fieldNames}

theorem flatLeaves_entries (entries : Entries) :
    flatLeaves entries =
      ((entries.leaves []).map entryOf).map (fun leaf => (leaf.1, leaf.2.2)) := by
  rw [flatLeaves, List.map_map]
  rfl

theorem refused_of_stops {entries : Entries} {leaf : String × String × Value}
    (hm : leaf ∈ (entries.leaves []).map entryOf) (h : Stops env fieldNames leaf) :
    Refused env fieldNames (flatLeaves entries) := by
  have hleaf : (leaf.1, leaf.2.2) ∈ flatLeaves entries := by
    rw [flatLeaves_entries]
    exact List.mem_map.mpr ⟨leaf, hm, rfl⟩
  rcases h with h | ⟨hf, hh⟩
  · exact .stage (h ▸ List.mem_map_of_mem hleaf)
  · exact .hole hleaf hf hh

theorem name_entry {entries : Entries} {name : String}
    (h : name ∈ (flatLeaves entries).map Prod.fst) :
    ∃ leaf ∈ (entries.leaves []).map entryOf, leaf.1 = name := by
  rw [flatLeaves_entries, List.map_map] at h
  exact List.mem_map.mp h

variable (path origin env fieldNames) in
/-- A mapping is refused for its leaves, or gives them expanded. -/
theorem loadLayer_result (entries : Entries) :
    (Refused env fieldNames (flatLeaves entries) ∧ ∃ e, isConfigFileError e = true ∧
      loadLayer path origin (.mapping entries) fieldNames env = .error e) ∨
    (¬ Refused env fieldNames (flatLeaves entries) ∧
      loadLayer path origin (.mapping entries) fieldNames env =
        .ok (layerOf env (flatLeaves entries))) := by
  rw [loadLayer]
  rcases @flatten_result origin entries with ⟨hn, hf⟩ | ⟨hn, dotted, other, flat, hf⟩
  · rw [hf]
    have hcollect := collect_result env fieldNames path origin
      ((entries.leaves []).map entryOf) [] []
    generalize hresult : collect path origin fieldNames env ((entries.leaves []).map entryOf)
      [] [] = result at hcollect
    cases hcollect with
    | @stopped leaf hm hs e he =>
      refine Or.inl ⟨refused_of_stops hm hs, e, ?_, ?_⟩
      · rcases he with rfl | ⟨_, _, rfl⟩ <;> rfl
      · simp only [Bind.bind, Except.bind, hresult]
    | through hs =>
      simp only [Bind.bind, Except.bind, hresult, List.nil_append]
      by_cases hall : ∀ leaf ∈ (entries.leaves []).map entryOf, leaf.1 ∈ fieldNames
      · have hin : ((entries.leaves []).map entryOf).filter (fun leaf => leaf.1 ∈ fieldNames) =
            (entries.leaves []).map entryOf := List.filter_eq_self.mpr (by simpa using hall)
        have hout : ((entries.leaves []).map entryOf).filter (fun leaf => leaf.1 ∉ fieldNames) =
            [] := List.filter_eq_nil_iff.mpr (by simpa using hall)
        rw [hin, hout, ← flatLeaves_entries]
        refine Or.inr ⟨?_, by simp⟩
        rintro (h | h | ⟨h, hf⟩ | ⟨h, hf, hh⟩)
        · exact h hn
        · obtain ⟨leaf, hm, hname⟩ := name_entry h
          exact hs leaf hm (Or.inl hname)
        · obtain ⟨leaf, hm, hname⟩ := name_entry h
          exact hf (hname ▸ hall leaf hm)
        · rw [flatLeaves_entries] at h
          obtain ⟨leaf, hm, heq⟩ := List.mem_map.mp h
          cases heq
          exact hs leaf hm (Or.inr ⟨hf, hh⟩)
      · push Not at hall
        obtain ⟨leaf, hm, hf⟩ := hall
        have hout : (((entries.leaves []).map entryOf).filter
            (fun leaf => leaf.1 ∉ fieldNames)).map (fun leaf => leaf.2.1) ≠ [] := by
          rw [ne_eq, List.map_eq_nil_iff, List.filter_eq_nil_iff]
          exact fun h => h leaf hm (by simpa using hf)
        have hname : leaf.1 ∈ (flatLeaves entries).map Prod.fst := by
          rw [flatLeaves_entries, List.map_map]
          exact List.mem_map_of_mem hm
        rw [if_pos hout]
        exact Or.inl ⟨.unknown hname hf, _, rfl, rfl⟩
  · exact Or.inl ⟨.collision hn, _, rfl, by rw [hf]; rfl⟩

end

section
variable {env fieldNames}

theorem layerOf_names (leaves : List (String × Value)) :
    ((layerOf env leaves).map Prod.fst).Sublist (leaves.map Prod.fst) := by
  induction leaves with
  | nil => exact List.Sublist.slnil
  | cons leaf rest ih =>
    rw [layerOf, List.filterMap_cons]
    split
    · exact ih.trans (List.sublist_cons_self _ _)
    · case h_2 entry he =>
      split at he
      · cases he
        exact ih.cons_cons _
      · cases he

theorem lookup_layerOf_other {leaves : List (String × Value)} {name : String}
    (h : name ∉ leaves.map Prod.fst) : (layerOf env leaves).lookup name = none := by
  rw [lookup_none]
  exact fun hm => h ((layerOf_names leaves).subset hm)

/-- A leaf of its own name has its expanded value in the layer. -/
theorem lookup_layerOf {leaves : List (String × Value)} {name : String} {value : Value}
    (hn : (leaves.map Prod.fst).Nodup) (hm : (name, value) ∈ leaves) (hh : ¬ Hole env value) :
    expand env value = .ok ((layerOf env leaves).lookup name) := by
  induction leaves with
  | nil => cases hm
  | cons leaf rest ih =>
    rw [List.map_cons, List.nodup_cons] at hn
    have hlayer : layerOf env (leaf::rest) = match expand env leaf.2 with
        | .ok (some value) => (leaf.1, value) :: layerOf env rest
        | _ => layerOf env rest := by
      rw [layerOf, List.filterMap_cons]
      cases expand env leaf.2 with
      | error e => rfl
      | ok resolved => cases resolved <;> rfl
    rcases List.mem_cons.mp hm with rfl | hm
    · have hrest := @lookup_layerOf_other env _ _ hn.1
      rw [hlayer]
      cases hx : expand env value with
      | error e => exact absurd ((expand_error_iff env value).mp ⟨e, hx⟩) hh
      | ok resolved =>
        cases resolved with
        | none => exact congrArg Except.ok hrest.symm
        | some value' => simp
    · have hne : name ≠ leaf.1 := by
        rintro rfl
        exact hn.1 (List.mem_map.mpr ⟨_, hm, rfl⟩)
      have hbeq : (name == leaf.1) = false := beq_eq_false_iff_ne.mpr hne
      rw [ih hn.2 hm, hlayer]
      split
      · rw [List.lookup_cons, hbeq]
      · rfl

theorem refused_perm {leaves leaves' : List (String × Value)} (hp : leaves.Perm leaves')
    (h : Refused env fieldNames leaves) : Refused env fieldNames leaves' := by
  have hnames := hp.map Prod.fst
  rcases h with h | h | ⟨h, hn⟩ | ⟨h, hn, hh⟩
  · exact .collision (fun hn => h (hnames.nodup_iff.mpr hn))
  · exact .stage (hnames.mem_iff.mp h)
  · exact .unknown (hnames.mem_iff.mp h) hn
  · exact .hole (hp.mem_iff.mp h) hn hh

end

/-! ## Other spellings of the same leaves -/

def append : Entries → Entries → Entries
  | .nil, more => more
  | .cons name node rest, more => .cons name node (append rest more)

/-- The keys of a group written out with its name before them. -/
def named (group : String) : Entries → Entries
  | .nil => .nil
  | .cons name node rest => .cons (group ++ "_" ++ name) node (named group rest)

/-- Two mappings that differ in the order of keys and in how they are grouped, at any depth. -/
inductive Regrouped : Entries → Entries → Prop
  | refl (entries : Entries) : Regrouped entries entries
  | symm {entries entries' : Entries} (h : Regrouped entries entries') : Regrouped entries' entries
  | trans {first second third : Entries} (h : Regrouped first second)
      (h' : Regrouped second third) : Regrouped first third
  | swap (name name' : String) (node node' : Node) (rest : Entries) :
      Regrouped (.cons name node (.cons name' node' rest))
        (.cons name' node' (.cons name node rest))
  | rest {rest rest' : Entries} (name : String) (node : Node) (h : Regrouped rest rest') :
      Regrouped (.cons name node rest) (.cons name node rest')
  | inside {inner inner' : Entries} (name : String) (rest : Entries) (h : Regrouped inner inner') :
      Regrouped (.cons name (.group inner) rest) (.cons name (.group inner') rest)
  | ungroup (name : String) (inner rest : Entries) :
      Regrouped (.cons name (.group inner) rest) (append (named name inner) rest)

theorem leaves_append (first second : Entries) (path : List String) :
    (append first second).leaves path = first.leaves path ++ second.leaves path := by
  cases first with
  | nil => rfl
  | cons name node rest =>
    rw [append, Entries.leaves, Entries.leaves, leaves_append rest second path, List.append_assoc]

mutual

theorem node_leaves_path (node : Node) (path : List String) :
    node.leaves path = (node.leaves []).map (fun leaf => (path ++ leaf.1, leaf.2)) := by
  cases node with
  | leaf value => simp [Node.leaves]
  | group entries => exact entries_leaves_path entries path

theorem entries_leaves_path (entries : Entries) (path : List String) :
    entries.leaves path = (entries.leaves []).map (fun leaf => (path ++ leaf.1, leaf.2)) := by
  cases entries with
  | nil => rfl
  | cons name node rest =>
    rw [Entries.leaves, Entries.leaves, node_leaves_path node (path ++ [name]),
      node_leaves_path node ([] ++ [name]), entries_leaves_path rest path, List.map_append,
      List.map_map]
    simp [Function.comp_def]

end

theorem flatName_named (path rest : List String) (group name : String) :
    flatName (path ++ group :: name :: rest) =
      flatName (path ++ (group ++ "_" ++ name) :: rest) := by
  unfold flatName
  induction path with
  | nil =>
    cases rest with
    | nil => simp [String.intercalate_cons_cons]
    | cons next rest => simp [String.intercalate_cons_cons, String.append_assoc]
  | cons first path ih =>
    rw [List.cons_append, List.cons_append, String.intercalate_cons_of_ne_nil (by simp),
      String.intercalate_cons_of_ne_nil (by simp), ih]

theorem leaves_named (group : String) (inner : Entries) (path : List String) :
    ((named group inner).leaves path).map joined =
      (inner.leaves (path ++ [group])).map joined := by
  cases inner with
  | nil => rfl
  | cons name node rest =>
    have hnode : (node.leaves (path ++ [group ++ "_" ++ name])).map joined =
        (node.leaves (path ++ [group] ++ [name])).map joined := by
      rw [node_leaves_path node, node_leaves_path node (path ++ [group] ++ [name]), List.map_map,
        List.map_map]
      apply List.map_congr_left
      rintro ⟨rest, value⟩ -
      have hflat := flatName_named path rest group name
      simp [joined, hflat]
    rw [named, Entries.leaves, Entries.leaves, List.map_append, List.map_append, hnode,
      leaves_named group rest path]

/-- Order and grouping leave the leaves as they are. -/
theorem regrouped_leaves {entries entries' : Entries} (h : Regrouped entries entries')
    (path : List String) :
    ((entries.leaves path).map joined).Perm ((entries'.leaves path).map joined) := by
  induction h generalizing path with
  | refl entries => exact List.Perm.refl _
  | symm h ih => exact (ih path).symm
  | trans h h' ih ih' => exact (ih path).trans (ih' path)
  | swap name name' node node' rest =>
    simp only [Entries.leaves, List.map_append, ← List.append_assoc]
    exact List.Perm.append_right _ List.perm_append_comm
  | rest name node h ih =>
    simp only [Entries.leaves, List.map_append]
    exact List.Perm.append_left _ (ih path)
  | inside name rest h ih =>
    simp only [Entries.leaves, Node.leaves, List.map_append]
    exact List.Perm.append_right _ (ih _)
  | ungroup name inner rest =>
    simp only [Entries.leaves, Node.leaves, leaves_append, List.map_append, leaves_named]
    exact List.Perm.refl _

def flatEntries : List (String × Value) → Entries
  | [] => .nil
  | (name, value)::rest => .cons name (.leaf value) (flatEntries rest)

theorem named_flat (group : String) (leaves : List (String × Value)) :
    named group (flatEntries leaves) =
      flatEntries (leaves.map (fun leaf => (group ++ "_" ++ leaf.1, leaf.2))) := by
  induction leaves with
  | nil => rfl
  | cons leaf rest ih => exact congrArg (Entries.cons _ _) ih

theorem append_flat (leaves leaves' : List (String × Value)) :
    append (flatEntries leaves) (flatEntries leaves') = flatEntries (leaves ++ leaves') := by
  induction leaves with
  | nil => rfl
  | cons leaf rest ih => exact congrArg (Entries.cons _ _) ih

theorem regrouped_append (first : Entries) {rest rest' : Entries} (h : Regrouped rest rest') :
    Regrouped (append first rest) (append first rest') := by
  cases first with
  | nil => exact h
  | cons name node first => exact .rest name node (regrouped_append first h)

theorem leaves_ne_nil (entries : Entries) : ∀ leaf ∈ entries.leaves [], leaf.1 ≠ [] := by
  cases entries with
  | nil => simp [Entries.leaves]
  | cons name node rest =>
    rw [Entries.leaves, node_leaves_path]
    intro leaf hm
    rcases List.mem_append.mp hm with hm | hm
    · obtain ⟨leaf', -, rfl⟩ := List.mem_map.mp hm
      simp
    · exact leaves_ne_nil rest leaf hm

theorem flatLeaves_group (name : String) (inner rest : Entries) :
    flatLeaves (.cons name (.group inner) rest) =
      (flatLeaves inner).map (fun leaf => (name ++ "_" ++ leaf.1, leaf.2)) ++ flatLeaves rest := by
  rw [flatLeaves, Entries.leaves, Node.leaves, List.map_append, entries_leaves_path inner,
    flatLeaves, flatLeaves, List.map_map, List.map_map]
  apply congrArg (· ++ _)
  apply List.map_congr_left
  rintro ⟨path, value⟩ hm
  have hne := leaves_ne_nil inner _ hm
  simp [joined, flatName, String.intercalate_cons_of_ne_nil hne]

/-- Every mapping can be written flat. -/
theorem regrouped_flat (entries : Entries) :
    Regrouped entries (flatEntries (flatLeaves entries)) := by
  cases entries with
  | nil => exact .refl _
  | cons name node rest =>
    have hrest := regrouped_flat rest
    cases node with
    | leaf value => exact .rest name _ hrest
    | group inner =>
      have hinner := regrouped_flat inner
      have hgroup := (Regrouped.inside name rest hinner).trans (.ungroup name _ rest)
      rw [named_flat] at hgroup
      rw [flatLeaves_group, ← append_flat]
      exact hgroup.trans (regrouped_append _ hrest)

theorem regrouped_perm {leaves leaves' : List (String × Value)} (h : leaves.Perm leaves') :
    Regrouped (flatEntries leaves) (flatEntries leaves') := by
  induction h with
  | nil => exact .refl _
  | cons leaf h ih => exact .rest _ _ ih
  | swap leaf leaf' rest => exact .swap _ _ _ _ _
  | trans h h' ih ih' => exact ih.trans ih'

/-- Order and grouping apart, a mapping is its leaves. -/
theorem regrouped_iff (entries entries' : Entries) :
    Regrouped entries entries' ↔ (flatLeaves entries).Perm (flatLeaves entries') := by
  constructor
  · exact fun h => regrouped_leaves h []
  · intro h
    have hflat := (regrouped_flat entries).trans (regrouped_perm h)
    exact hflat.trans (regrouped_flat entries').symm

/-! ## Loading and merging -/

/-- Both mappings are refused, or give the same settings. -/
def SameLayer (r r' : Except ConfigError Data) : Prop :=
  (∃ e e', r = .error e ∧ r' = .error e') ∨
    ∃ data data', r = .ok data ∧ r' = .ok data' ∧ data.Perm data'

section
variable {path origin : String} {env fieldNames}

theorem sameLayer_of_perm {entries entries' : Entries}
    (hp : (flatLeaves entries).Perm (flatLeaves entries')) :
    SameLayer (loadLayer path origin (.mapping entries) fieldNames env)
      (loadLayer path origin (.mapping entries') fieldNames env) := by
  rcases loadLayer_result env fieldNames path origin entries with ⟨hr, e, -, he⟩ | ⟨hr, hok⟩
  · rcases loadLayer_result env fieldNames path origin entries' with ⟨-, e', -, he'⟩ | ⟨hr', -⟩
    · exact Or.inl ⟨e, e', he, he'⟩
    · exact absurd (refused_perm hp hr) hr'
  · rcases loadLayer_result env fieldNames path origin entries' with ⟨hr', -⟩ | ⟨-, hok'⟩
    · exact absurd (refused_perm hp.symm hr') hr
    · exact Or.inr ⟨_, _, hok, hok', hp.filterMap _⟩

/-- The last layer that supplies a setting has it, and the base where none does. -/
theorem merged_lookup {files : List (String × String × YamlFile)} {merged src : Source}
    (h : yamlSettings fieldNames env files merged = .ok src) (name : String) (v : Value) :
    src name = some v ↔
      (∃ before file after, files = before ++ file :: after ∧ Supplies env file.2.2 name v ∧
        ∀ later ∈ after, ∀ u, ¬ Supplies env later.2.2 name u) ∨
      (merged name = some v ∧ ∀ file ∈ files, ∀ u, ¬ Supplies env file.2.2 name u) := by
  induction files generalizing merged with
  | nil =>
    cases h
    simp
  | cons file files ih =>
    obtain ⟨path, origin, yaml⟩ := file
    rw [yamlSettings] at h
    cases hl : loadLayer path origin yaml fieldNames env with
    | error e =>
      rw [hl] at h
      cases h
    | ok layer =>
      rw [hl] at h
      have hlayer : ∀ u, layer.lookup name = some u ↔ Supplies env yaml name u :=
        fun u => loadLayer_lookup hl u
      have hmerged : update merged layer name = some v ↔ Supplies env yaml name v ∨
          (merged name = some v ∧ ∀ u, ¬ Supplies env yaml name u) := by
        simp only [← hlayer, update]
        cases layer.lookup name with
        | none => simp
        | some u => simp
      rw [ih h, hmerged]
      constructor
      · rintro (⟨before, file, after, rfl, hs, hafter⟩ | ⟨hs | ⟨hs, hfirst⟩, hafter⟩)
        · exact Or.inl ⟨(path, origin, yaml)::before, file, after, rfl, hs, hafter⟩
        · exact Or.inl ⟨[], _, files, rfl, hs, hafter⟩
        · exact Or.inr ⟨hs, List.forall_mem_cons.mpr ⟨hfirst, hafter⟩⟩
      · rintro (⟨before, file, after, heq, hs, hafter⟩ | ⟨hs, hall⟩)
        · cases before with
          | nil =>
            cases heq
            exact Or.inr ⟨Or.inl hs, hafter⟩
          | cons first before =>
            cases heq
            exact Or.inl ⟨before, file, after, rfl, hs, hafter⟩
        · obtain ⟨hfirst, hafter⟩ := List.forall_mem_cons.mp hall
          exact Or.inr ⟨Or.inr ⟨hs, hfirst⟩, hafter⟩

end

/-- A mapping is a layer unless its leaves collide, name no setting or cannot be expanded; it
then maps the joined path of each leaf to its expanded value, whatever the order and grouping
of the keys, and of several layers the last that supplies a setting has it. -/
theorem layer_means_leaves (path origin : String) (entries : Entries) :
    ((∃ e, isConfigFileError e = true ∧
        loadLayer path origin (.mapping entries) fieldNames env = .error e) ↔
      Refused env fieldNames (flatLeaves entries)) ∧
    (¬ Refused env fieldNames (flatLeaves entries) → ∃ data,
      loadLayer path origin (.mapping entries) fieldNames env = .ok data ∧
      (data.map Prod.fst).Nodup ∧
      (∀ name value, (name, value) ∈ flatLeaves entries →
        expand env value = .ok (data.lookup name) ∧ (data.lookup name = none ↔ Bare env value)) ∧
      ∀ name, name ∉ (flatLeaves entries).map Prod.fst → data.lookup name = none) ∧
    (∀ entries', Regrouped entries entries' →
      SameLayer (loadLayer path origin (.mapping entries) fieldNames env)
        (loadLayer path origin (.mapping entries') fieldNames env)) ∧
    Regrouped entries (flatEntries (flatLeaves entries)) ∧
    (∀ files merged src, yamlSettings fieldNames env files merged = .ok src → ∀ name v,
      src name = some v ↔
        (∃ before file after, files = before ++ file :: after ∧ Supplies env file.2.2 name v ∧
          ∀ later ∈ after, ∀ u, ¬ Supplies env later.2.2 name u) ∨
        (merged name = some v ∧ ∀ file ∈ files, ∀ u, ¬ Supplies env file.2.2 name u)) := by
  refine ⟨?_, ?_, fun entries' h => sameLayer_of_perm ((regrouped_iff _ _).mp h),
    regrouped_flat entries, fun files merged src h name v => merged_lookup h name v⟩
  · rcases loadLayer_result env fieldNames path origin entries with ⟨hr, he⟩ | ⟨hr, hok⟩
    · exact iff_of_true he hr
    · refine iff_of_false ?_ hr
      rintro ⟨e, -, he⟩
      rw [hok] at he
      cases he
  · intro hr
    rcases loadLayer_result env fieldNames path origin entries with ⟨hr', -⟩ | ⟨-, hok⟩
    · exact absurd hr' hr
    · have hn : ((flatLeaves entries).map Prod.fst).Nodup := by
        by_contra hn
        exact hr (.collision hn)
      refine ⟨_, hok, (layerOf_names _).nodup hn, ?_, fun name h => lookup_layerOf_other h⟩
      intro name value hm
      have hfield : name ∈ fieldNames := by
        by_contra hf
        exact hr (.unknown (List.mem_map_of_mem hm) hf)
      have hx := lookup_layerOf hn hm (fun hh => hr (.hole hm hfield hh))
      refine ⟨hx, ?_⟩
      rw [← expand_none_iff, hx, Except.ok.injEq]

def sampleEntries : Entries :=
  .cons "auth" (.group (.cons "jwt" (.group (.cons "issuer"
    (.leaf (.scalar (.str "$\x7bISSUER\x7d"))) .nil)) .nil)) (.cons "port"
      (.leaf (.scalar (.int 80))) .nil)

theorem layer_means_leaves_sample : ∃ data,
    loadLayer "default.yaml" "default.yaml" (.mapping sampleEntries) ["auth_jwt_issuer", "port"]
      (fun _ => none) = .ok data ∧
    data.lookup "auth_jwt_issuer" = none ∧ data.lookup "port" = some (.scalar (.int 80)) := by
  have hleaves : flatLeaves sampleEntries =
      [("auth_jwt_issuer", .scalar (.str "$\x7bISSUER\x7d")), ("port", .scalar (.int 80))] := by
    decide +kernel
  have hbare : Unresolved (fun _ => none) "$\x7bISSUER\x7d" :=
    ⟨"ISSUER", by decide +kernel, rfl, by decide +kernel⟩
  have h := (layer_means_leaves (fun _ => none) ["auth_jwt_issuer", "port"] "default.yaml"
    "default.yaml" sampleEntries).2.1
  rw [hleaves] at h
  obtain ⟨data, hok, -, hlookup, -⟩ := h (by
    rintro (h | h | ⟨h, hn⟩ | ⟨h, -, hh⟩)
    · exact h (by decide)
    · revert h
      decide
    · exact hn (by simpa using h)
    · rcases List.mem_cons.mp h with h | h
      · cases h
        cases hh with
        | embedded hu hb => exact hb hbare
      · rw [List.mem_singleton] at h
        cases h
        cases hh)
  refine ⟨data, hok, (hlookup _ _ List.mem_cons_self).2.mpr ⟨_, rfl, hbare⟩, ?_⟩
  have hport := (hlookup "port" (.scalar (.int 80)) (by simp)).1
  exact (Except.ok.inj hport).symm

end Gamely.YamlLayers
