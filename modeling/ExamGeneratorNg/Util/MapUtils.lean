import ExamGeneratorNg.Util.Java
import Mathlib.Data.List.AList

/-!
# `util.MapUtils` and `Collectors.toMap`

A map is a list of entries with distinct keys, in the order in which the map is iterated.  Java
promises nothing about that order, and nothing that is proved about the program depends on it:
maps are only compared by what `AList.lookup` finds in them.
-/

namespace ExamGeneratorNg

variable {K V V₁ V₂ : Type} [DecidableEq K]

/-- `java.util.Map<K, V>`. -/
abbrev JMap (K V : Type) := AList fun _ : K => V

/-- An entry of a map. -/
abbrev Entry (K V : Type) := Sigma fun _ : K => V

/-- `MapUtils.mapToMap`. -/
def mapToMap (keys : List K) (mapper : K → V) : JMap K V :=
  keys.foldl (fun outputMap key => outputMap.insert key (mapper key)) ∅

/-- `MapUtils.mapMapByEntry`. -/
def mapMapByEntry (inputMap : JMap K V₁) (valueMapper : Entry K V₁ → V₂) : JMap K V₂ :=
  inputMap.entries.foldl (fun outputMap entry => outputMap.insert entry.1 (valueMapper entry)) ∅

/-- `MapUtils.mapMapByValue`. -/
def mapMapByValue (inputMap : JMap K V₁) (valueMapper : V₁ → V₂) : JMap K V₂ :=
  mapMapByEntry inputMap fun entry => valueMapper entry.2

/-! With a mapper that has effects or throws, the loops are those of any monad. -/

/-- `MapUtils.mapToMap`, with a mapper that has effects. -/
def mapToMapM {m : Type → Type} [Monad m] (keys : List K) (mapper : K → m V) : m (JMap K V) :=
  keys.foldlM (fun outputMap key => do
    let value ← mapper key
    pure (outputMap.insert key value)) ∅

/-- `MapUtils.mapMapByEntry`, with a mapper that has effects. -/
def mapMapByEntryM {m : Type → Type} [Monad m] (inputMap : JMap K V₁)
    (valueMapper : Entry K V₁ → m V₂) : m (JMap K V₂) :=
  inputMap.entries.foldlM (fun outputMap entry => do
    let value ← valueMapper entry
    pure (outputMap.insert entry.1 value)) ∅

/-! ### What is found in the maps -/

/-- A loop that puts a value for every entry of a map leaves the other keys as they were. -/
theorem lookup_foldl_insert (f : Entry K V₁ → V₂) {entries : List (Entry K V₁)}
    (hnodup : entries.NodupKeys) (outputMap : JMap K V₂) (k : K) :
    (entries.foldl (fun outputMap entry => outputMap.insert entry.1 (f entry)) outputMap).lookup k
      = ((entries.dlookup k).map fun v => f ⟨k, v⟩).or (outputMap.lookup k) := by
  induction entries generalizing outputMap with
  | nil => rfl
  | cons entry entries ih =>
    obtain ⟨k', v⟩ := entry
    obtain ⟨hnot_mem, hnodup⟩ := List.nodupKeys_cons.mp hnodup
    rw [List.foldl_cons, ih hnodup]
    by_cases hk : k = k'
    · subst hk
      rw [List.dlookup_eq_none.mpr hnot_mem, List.dlookup_cons_eq, AList.lookup_insert]
      rfl
    · rw [List.dlookup_cons_ne _ _ hk, AList.lookup_insert_ne hk]

theorem lookup_mapMapByEntry (inputMap : JMap K V₁) (valueMapper : Entry K V₁ → V₂) (k : K) :
    (mapMapByEntry inputMap valueMapper).lookup k
      = (inputMap.lookup k).map fun v => valueMapper ⟨k, v⟩ := by
  unfold mapMapByEntry
  rw [lookup_foldl_insert valueMapper inputMap.nodupKeys, AList.lookup_empty, Option.or_none]
  rfl

@[simp] theorem lookup_mapMapByValue (inputMap : JMap K V₁) (valueMapper : V₁ → V₂) (k : K) :
    (mapMapByValue inputMap valueMapper).lookup k = (inputMap.lookup k).map valueMapper :=
  lookup_mapMapByEntry inputMap _ k

theorem lookup_mapToMap (keys : List K) (mapper : K → V) (k : K) :
    (mapToMap keys mapper).lookup k = if k ∈ keys then some (mapper k) else none := by
  have hloop : ∀ outputMap : JMap K V,
      (keys.foldl (fun outputMap key => outputMap.insert key (mapper key)) outputMap).lookup k
        = if k ∈ keys then some (mapper k) else outputMap.lookup k := by
    induction keys with
    | nil => simp
    | cons key keys ih =>
      intro outputMap
      rw [List.foldl_cons, ih]
      by_cases hk : k = key
      · subst hk
        simp
      · rw [AList.lookup_insert_ne hk]
        simp [hk]
  rw [mapToMap, hloop, AList.lookup_empty]

/-- A loop that puts a value for every key and ends without an exception. -/
theorem lookup_of_mapToMapM {E : Type} {keys : List K} {mapper : K → Except E V}
    {outputMap : JMap K V} (h : mapToMapM keys mapper = .ok outputMap) (k : K) (v : V) :
    outputMap.lookup k = some v ↔ k ∈ keys ∧ mapper k = .ok v := by
  -- the loop leaves other keys as they were; a key that occurs again gets the same value again
  have hloop : ∀ (keys : List K) (inputMap : JMap K V),
      keys.foldlM (fun outputMap key => do
        let value ← mapper key
        pure (outputMap.insert key value)) inputMap = .ok outputMap →
      (k ∈ keys → ∃ w, mapper k = .ok w ∧ outputMap.lookup k = some w)
        ∧ (k ∉ keys → outputMap.lookup k = inputMap.lookup k) := by
    intro keys
    induction keys with
    | nil =>
      intro inputMap h
      rw [List.foldlM_nil] at h
      cases h
      exact ⟨nofun, fun _ => rfl⟩
    | cons key keys ih =>
      intro inputMap h
      rw [List.foldlM_cons] at h
      cases hkey : mapper key with
      | error e =>
        rw [hkey] at h
        cases h
      | ok w =>
        rw [hkey] at h
        obtain ⟨hmem, hnot_mem⟩ := ih (inputMap.insert key w) h
        by_cases hk : k = key
        · subst hk
          refine ⟨fun _ => ?_, fun hnot => absurd List.mem_cons_self hnot⟩
          by_cases hrest : k ∈ keys
          · exact hmem hrest
          · exact ⟨w, hkey, by rw [hnot_mem hrest, AList.lookup_insert]⟩
        · rw [AList.lookup_insert_ne hk] at hnot_mem
          simp only [List.mem_cons, hk, false_or]
          exact ⟨hmem, hnot_mem⟩
  obtain ⟨hmem, hnot_mem⟩ := hloop keys ∅ h
  by_cases hk : k ∈ keys
  · obtain ⟨w, hw, houtput⟩ := hmem hk
    rw [houtput, hw]
    simp [hk]
  · rw [hnot_mem hk, AList.lookup_empty]
    simp [hk]

/-- A loop that puts a value for every key ends well if the mapper throws at none of them. -/
theorem mapToMapM_ok {E : Type} {keys : List K} {mapper : K → Except E V}
    (h : ∀ k ∈ keys, ∃ v, mapper k = .ok v) :
    ∃ outputMap, mapToMapM keys mapper = .ok outputMap := by
  have hloop : ∀ (keys : List K) (inputMap : JMap K V), (∀ k ∈ keys, ∃ v, mapper k = .ok v) →
      ∃ outputMap, keys.foldlM (fun outputMap key => do
        let value ← mapper key
        pure (outputMap.insert key value)) inputMap = .ok outputMap := by
    intro keys
    induction keys with
    | nil => exact fun inputMap _ => ⟨inputMap, rfl⟩
    | cons key keys ih =>
      intro inputMap h
      obtain ⟨v, hv⟩ := h key List.mem_cons_self
      obtain ⟨outputMap, houtput⟩ :=
        ih (inputMap.insert key v) fun k hk => h k (List.mem_cons_of_mem _ hk)
      refine ⟨outputMap, ?_⟩
      rw [List.foldlM_cons, hv]
      exact houtput
  exact hloop keys ∅ h

end ExamGeneratorNg
