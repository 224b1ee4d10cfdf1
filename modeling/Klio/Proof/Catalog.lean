import Klio.Model.Backup

/-!
# What the merged catalog says

Each backup is listed once, and its annotations say which tiers list it, so that a restore goes to a tier that has
the data.

* `MarkedFrom`, `merge_cases`: where an entry of the catalog comes from.
* `catalog_faithful`: what the catalog says, for all lists of the tiers.
-/

namespace Klio

open List

variable {M C E : Type} {l₁ l₂ : List (CatalogEntry M)} {m : CatalogEntry M}

def CatalogEntry.unmarked (m : CatalogEntry M) : Prop :=
  m.annotations tier1AnnotationName = none ∧ m.annotations tier2AnnotationName = none

/-- The entry is that of `m₀`, marked for the tiers that list it. -/
structure MarkedFrom (l₁ l₂ : List (CatalogEntry M)) (m₀ m : CatalogEntry M) : Prop where
  name : m.name = m₀.name
  rest : m.rest = m₀.rest
  tier1 : m.annotations tier1AnnotationName = some presentAnnotationValue ↔ m₀.name ∈ names l₁
  tier2 : m.annotations tier2AnnotationName = some presentAnnotationValue ↔ m₀.name ∈ names l₂
  source : m₀ ∈ l₁ ∨ (m₀ ∈ l₂ ∧ m₀.name ∉ names l₁)
  others : ∀ k, k ≠ tier1AnnotationName → k ≠ tier2AnnotationName → m.annotations k = m₀.annotations k

/-- **Where an entry comes from**: from tier 1, or from tier 2 if tier 1 does not list it. -/
theorem merge_cases (hplain : ∀ m ∈ l₁ ++ l₂, m.unmarked) (h : m ∈ mergeLists l₁ l₂) :
    ∃ m₀, MarkedFrom l₁ l₂ m₀ m := by
  have hne : tier1AnnotationName ≠ tier2AnnotationName := by decide
  rcases mem_append.mp h with h | h
  · obtain ⟨m₀, hm₀, rfl⟩ := mem_map.mp h
    obtain ⟨-, hno⟩ := hplain m₀ (mem_append_left _ hm₀)
    have hname : m₀.name ∈ names l₁ := mem_map_of_mem hm₀
    refine ⟨m₀, ?_⟩
    by_cases h₂ : m₀.name ∈ names l₂
    · rw [if_pos h₂]
      refine ⟨rfl, rfl, ?_, ?_, .inl hm₀, fun k hk₁ hk₂ => ?_⟩ <;> simp [markTier1, markTier2, CatalogEntry.setAnnotation, *]
    · rw [if_neg h₂]
      refine ⟨rfl, rfl, ?_, ?_, .inl hm₀, fun k hk₁ hk₂ => ?_⟩ <;> simp [markTier1, CatalogEntry.setAnnotation, hne.symm, *]
  · obtain ⟨m₀, hm₀, rfl⟩ := mem_map.mp h
    obtain ⟨hmem, hnot⟩ := mem_filter.mp hm₀
    have hother : m₀.name ∉ names l₁ := of_decide_eq_true hnot
    have hname : m₀.name ∈ names l₂ := mem_map_of_mem hmem
    obtain ⟨hno, -⟩ := hplain m₀ (mem_append_right _ hmem)
    refine ⟨m₀, rfl, rfl, ?_, ?_, .inr ⟨hmem, hother⟩, fun k hk₁ hk₂ => ?_⟩ <;>
      simp [markTier2, CatalogEntry.setAnnotation, *]

theorem merge_names : names (mergeLists l₁ l₂) =
    names l₁ ++ (names l₂).filter fun n => n ∉ names l₁ := by
  unfold mergeLists names
  rw [map_append, map_map, map_map, filter_map]
  congr 1
  refine map_congr_left fun m _ => ?_
  rw [Function.comp]
  split <;> rfl

/-- **What the catalog says** of the lists of the tiers. -/
structure Faithful (s : MultiConnection C) (l₁ l₂ result : List (CatalogEntry M)) : Prop where
  once : (names result).Nodup
  complete : ∀ n, n ∈ names result ↔ n ∈ names l₁ ∨ n ∈ names l₂
  entry : ∀ m ∈ result, ∃ m₀, MarkedFrom l₁ l₂ m₀ m
  client : ∀ m ∈ result, ∃ conn, s.getClientFromMetadata m = some conn ∧
    if m.name ∈ names l₁ then s.tier1 = some conn else s.tier2 = some conn ∧ m.name ∈ names l₂

/-- A tier that lists something is configured. -/
theorem configured_of_mem {list : C → Except E (List (CatalogEntry M))} {conn : Option C} {l : List (CatalogEntry M)}
    (h : tierList list conn = .ok l) (hm : m ∈ l) : ∃ x, conn = some x := by
  cases conn with
  | none =>
    cases h
    exact absurd hm not_mem_nil
  | some x => exact ⟨x, rfl⟩

/-- **The merged catalog is faithful**, for all lists without tier annotations in which names are distinct. -/
theorem catalog_faithful (s : MultiConnection C) (list : C → Except E (List (CatalogEntry M))) (l₁ l₂ : List (CatalogEntry M))
    (h₁ : tierList list s.tier1 = .ok l₁) (h₂ : tierList list s.tier2 = .ok l₂) (hnodup₁ : (names l₁).Nodup)
    (hnodup₂ : (names l₂).Nodup) (hplain : ∀ m ∈ l₁ ++ l₂, m.unmarked) :
    ∃ result, s.listBackups list = .ok result ∧ Faithful s l₁ l₂ result := by
  refine ⟨mergeLists l₁ l₂, by rw [MultiConnection.listBackups, h₁, h₂], ?_, fun n => ?_, fun m => merge_cases hplain, fun m hm => ?_⟩
  · rw [merge_names]
    refine hnodup₁.append (hnodup₂.filter _) fun n hn₁ hn₂ => ?_
    exact of_decide_eq_true (mem_filter.mp hn₂).2 hn₁
  · rw [merge_names, mem_append, mem_filter, decide_eq_true_iff]
    tauto
  · obtain ⟨m₀, hmark⟩ := merge_cases hplain hm
    unfold MultiConnection.getClientFromMetadata
    rw [hmark.name]
    by_cases hin : m₀.name ∈ names l₁
    · obtain ⟨m₁, hm₁, -⟩ := mem_map.mp hin
      obtain ⟨conn, hconn⟩ := configured_of_mem h₁ hm₁
      exact ⟨conn, by rw [if_pos (hmark.tier1.mpr hin), hconn], by rw [if_pos hin, hconn]⟩
    · have hmem : m₀ ∈ l₂ := (hmark.source.resolve_left fun h => hin (mem_map_of_mem h)).1
      have hname : m₀.name ∈ names l₂ := mem_map_of_mem hmem
      obtain ⟨conn, hconn⟩ := configured_of_mem h₂ hmem
      refine ⟨conn, ?_, by rw [if_neg hin]; exact ⟨hconn, hname⟩⟩
      rw [if_neg fun h => hin (hmark.tier1.mp h), if_pos (hmark.tier2.mpr hname), hconn]

/-- A backup that is on both tiers. -/
theorem catalog_faithful_both : ∃ result, MultiConnection.listBackups ⟨some (), some ()⟩
      (fun _ => (.ok [⟨"a", fun _ => none, ()⟩] : Except Unit (List (CatalogEntry Unit)))) = .ok result ∧
    Faithful ⟨some (), some ()⟩ [⟨"a", fun _ => none, ()⟩] [⟨"a", fun _ => none, ()⟩] result :=
  catalog_faithful ⟨some (), some ()⟩ _ _ _ rfl rfl (by decide) (by decide) (by simp [CatalogEntry.unmarked])

end Klio
