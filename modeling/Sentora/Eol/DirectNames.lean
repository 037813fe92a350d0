import Sentora.Eol.Matching
import Sentora.Lib.Longest
import Sentora.Lib.Tables

/-!
# Priorities of the mappings

Which product `_direct_name_match` of `domains/eol/matching.py` finds by name: a mapping of the user
takes the place of the built-in one of the same key, the longest key decides, and only where no
mapping applies a product is found by its own id.
-/

namespace Sentora.Eol

open Lib

def Applies (normalizedName key : String) : Prop :=
  key = normalizedName ∨ key ≠ "" ∧ key.toList <+: normalizedName.toList

def InForce (userMappings : List (String × String)) (key id : String) : Prop :=
  (key, id) ∈ userMappings ∨ (key, id) ∈ nameToEolMap ∧ key ∉ userMappings.map Prod.fst

structure Usable (normalizedName : String) (products : Products)
    (userMappings : List (String × String)) (key id : String) : Prop where
  inForce : InForce userMappings key id
  applies : Applies normalizedName key
  exists_product : id ∈ products.map Prod.fst

/-- An id of four characters or more is the name, or is followed in it by a blank or a hyphen. -/
def NamedBy (normalizedName slug : String) : Prop :=
  4 ≤ slug.length ∧ (slug = normalizedName ∨
    (slug ++ " ").toList <+: normalizedName.toList ∨ (slug ++ "-").toList <+: normalizedName.toList)

section Mappings

variable {name key key' id id' slug : String} {products : Products}
  {userMappings changes base : List (String × String)}

theorem startsWith_iff : startsWith name key = true ↔ key.toList <+: name.toList :=
  List.isPrefixOf_iff_prefix

theorem hasProduct_iff : hasProduct products id = true ↔ id ∈ products.map Prod.fst := by
  unfold hasProduct
  rw [List.any_eq_true, List.mem_map]
  simp only [beq_iff_eq]

theorem mem_updated (hkeys : (changes.map Prod.fst).Nodup) : (key, id) ∈ updated base changes ↔
    (key, id) ∈ changes ∨ (key, id) ∈ base ∧ key ∉ changes.map Prod.fst := by
  unfold updated
  rw [List.mem_append, List.mem_filter, List.mem_map]
  constructor
  · rintro (⟨⟨k, v⟩, hm, heq⟩ | ⟨hm, -⟩)
    · obtain ⟨rfl, rfl⟩ := Prod.mk.inj heq
      cases hlookup : changes.lookup k with
      | some w => exact .inl ((lookup_eq_some_iff hkeys).mp hlookup)
      | none => exact .inr ⟨hm, lookup_eq_none_iff_key.mp hlookup⟩
    · exact .inl hm
  · rintro (hm | ⟨hm, hkey⟩)
    · by_cases hbase : key ∈ base.map Prod.fst
      · obtain ⟨⟨k, v⟩, hitem, rfl⟩ := List.mem_map.mp hbase
        refine .inl ⟨(k, v), hitem, ?_⟩
        rw [(lookup_eq_some_iff hkeys).mpr hm, Option.getD_some]
      · rw [← lookup_eq_none_iff_key] at hbase
        exact .inr ⟨hm, by rw [hbase]; rfl⟩
    · refine .inl ⟨(key, id), hm, ?_⟩
      rw [lookup_eq_none_iff_key.mpr hkey, Option.getD_none]

theorem nodup_updated (hbase : (base.map Prod.fst).Nodup) (hkeys : (changes.map Prod.fst).Nodup) :
    ((updated base changes).map Prod.fst).Nodup := by
  unfold updated
  rw [List.map_append, List.map_map]
  refine hbase.append (hkeys.sublist (List.filter_sublist.map _)) ?_
  intro k hk hnew
  obtain ⟨m, hm, rfl⟩ := List.mem_map.mp hnew
  rw [List.mem_filter, Option.isNone_iff_eq_none, lookup_eq_none_iff_key] at hm
  exact hm.2 hk

theorem mem_merged (hkeys : (userMappings.map Prod.fst).Nodup) :
    (key, id) ∈ updated nameToEolMap userMappings ↔ InForce userMappings key id :=
  mem_updated hkeys

theorem nodup_merged (hkeys : (userMappings.map Prod.fst).Nodup) :
    ((updated nameToEolMap userMappings).map Prod.fst).Nodup :=
  nodup_updated (by decide) hkeys

/-- What the second pass asks of a mapping. -/
def prefixCandidate (name : String) (products : Products) (entry : String × String) : Bool :=
  startsWith name entry.1 && hasProduct products entry.2

theorem longestPrefix_eq : longestPrefix name products base =
    base.foldl (keepLonger (fun entry => entry.1.length) Prod.snd (prefixCandidate name products))
      (none, 0) := by
  unfold longestPrefix keepLonger prefixCandidate
  simp only [Bool.and_assoc]

def slugCandidate (name : String) (product : String × List EOLCycle) : Bool :=
  decide (4 ≤ product.1.length) &&
    (name == product.1 || startsWith name (product.1 ++ " ") || startsWith name (product.1 ++ "-"))

theorem longestSlug_eq (best : Best) : longestSlug name products best =
    products.foldl (keepLonger (fun p => p.1.length) (fun p => p.1) (slugCandidate name)) best := by
  unfold longestSlug keepLonger slugCandidate
  congr 1
  funext best product
  simp only [Bool.and_assoc, Bool.and_left_comm]

theorem slugCandidate_iff {product : String × List EOLCycle} :
    slugCandidate name product = true ↔ NamedBy name product.1 := by
  unfold slugCandidate NamedBy
  rw [Bool.and_eq_true, Bool.or_eq_true, Bool.or_eq_true, decide_eq_true_iff, beq_iff_eq,
    startsWith_iff, startsWith_iff, or_assoc, eq_comm (a := name)]

theorem eq_of_starts (h : key.toList <+: name.toList) (h' : key'.toList <+: name.toList)
    (hlength : key.length = key'.length) : key = key' := by
  rw [← String.toList_inj]
  rw [← String.length_toList, ← String.length_toList] at hlength
  exact (List.prefix_of_prefix_length_le h h' (Nat.le_of_eq hlength)).eq_of_length hlength

theorem prefixCandidate_unique (hkeys : (base.map Prod.fst).Nodup) {x y : String × String}
    (hx : x ∈ base) (hy : y ∈ base) (hcx : prefixCandidate name products x = true)
    (hcy : prefixCandidate name products y = true) (hsize : y.1.length = x.1.length) :
    y.2 = x.2 := by
  unfold prefixCandidate at hcx hcy
  rw [Bool.and_eq_true, startsWith_iff] at hcx hcy
  rw [List.inj_on_of_nodup_map hkeys hy hx (eq_of_starts hcy.1 hcx.1 hsize)]

theorem NamedBy.starts (h : NamedBy name slug) : slug.toList <+: name.toList := by
  rcases h.2 with rfl | h | h
  · exact List.prefix_rfl
  · rw [String.toList_append] at h
    exact (List.prefix_append _ _).trans h
  · rw [String.toList_append] at h
    exact (List.prefix_append _ _).trans h

theorem slugCandidate_unique {x y : String × List EOLCycle} (hx : slugCandidate name x = true)
    (hy : slugCandidate name y = true) (hsize : y.1.length = x.1.length) : y.1 = x.1 :=
  eq_of_starts (slugCandidate_iff.mp hy).starts (slugCandidate_iff.mp hx).starts hsize

theorem exact_eq_some_iff (hkeys : (userMappings.map Prod.fst).Nodup) :
    ((updated nameToEolMap userMappings).lookup name).filter (hasProduct products) = some id ↔
      Usable name products userMappings name id := by
  rw [Option.filter_eq_some_iff, lookup_eq_some_iff (nodup_merged hkeys), mem_merged hkeys,
    hasProduct_iff]
  exact ⟨fun h => ⟨h.1, .inl rfl, h.2⟩, fun h => ⟨h.inForce, h.exists_product⟩⟩

theorem usable_of_candidate (hkeys : (userMappings.map Prod.fst).Nodup) {entry : String × String}
    (hentry : entry ∈ updated nameToEolMap userMappings)
    (hcandidate : prefixCandidate name products entry = true) (hne : entry.1 ≠ "") :
    Usable name products userMappings entry.1 entry.2 := by
  unfold prefixCandidate at hcandidate
  rw [Bool.and_eq_true, startsWith_iff, hasProduct_iff] at hcandidate
  exact ⟨(mem_merged hkeys).mp hentry, .inr ⟨hne, hcandidate.1⟩, hcandidate.2⟩

theorem candidate_of_usable (hkeys : (userMappings.map Prod.fst).Nodup)
    (h : Usable name products userMappings key id) (hne : key ≠ name) :
    (key, id) ∈ updated nameToEolMap userMappings ∧
      prefixCandidate name products (key, id) = true ∧ key ≠ "" := by
  have ⟨hempty, hstarts⟩ := h.applies.resolve_left hne
  refine ⟨(mem_merged hkeys).mpr h.inForce, ?_, hempty⟩
  unfold prefixCandidate
  rw [Bool.and_eq_true, startsWith_iff, hasProduct_iff]
  exact ⟨hstarts, h.exists_product⟩

theorem directNameMatch_of_longest (hkeys : (userMappings.map Prod.fst).Nodup)
    (h : Usable name products userMappings key id)
    (hlongest : ∀ key' id', Usable name products userMappings key' id' →
      key'.length ≤ key.length) (hid : id ≠ "" ∨ key = name) :
    directNameMatch name products userMappings = some id := by
  unfold directNameMatch
  dsimp only
  by_cases hname : key = name
  · rw [hname] at h
    rw [(exact_eq_some_iff hkeys).mpr h]
  · obtain ⟨hmem, hcandidate, hne⟩ := candidate_of_usable hkeys h hname
    have hexact : ((updated nameToEolMap userMappings).lookup name).filter (hasProduct products) =
        none := by
      rw [Option.eq_none_iff_forall_ne_some]
      intro id' hsome
      have hle := hlongest name id' ((exact_eq_some_iff hkeys).mp hsome)
      have hstarts := (h.applies.resolve_left hname).2
      rw [← String.length_toList, ← String.length_toList] at hle
      exact hname (String.toList_inj.mp (hstarts.eq_of_length_le hle))
    have hbest : longestPrefix name products (updated nameToEolMap userMappings) =
        (some id, key.length) := by
      rw [longestPrefix_eq]
      refine foldl_keepLonger_of_isLongest (x := (key, id)) ⟨hmem, hcandidate, ?_, ?_⟩ ?_
      · exact Nat.pos_of_ne_zero fun hzero => hne (String.length_eq_zero_iff.mp hzero)
      · intro entry hentry hfits
        by_cases hempty : entry.1 = ""
        · show entry.1.length ≤ key.length
          rw [hempty]
          exact Nat.zero_le _
        · exact hlongest entry.1 entry.2 (usable_of_candidate hkeys hentry hfits hempty)
      · exact fun entry hentry hfits => prefixCandidate_unique (nodup_merged hkeys) hmem hentry
          hcandidate hfits
    have hfilter : (some id).filter (· ≠ "") = some id :=
      Option.filter_eq_some_iff.mpr ⟨rfl, by simpa using hid.resolve_right hname⟩
    rw [hexact, hbest]
    dsimp only
    rw [hfilter]

theorem directNameMatch_of_none (hkeys : (userMappings.map Prod.fst).Nodup)
    (hnone : ∀ key id, ¬Usable name products userMappings key id) :
    directNameMatch name products userMappings = (longestSlug name products (none, 0)).1 := by
  have hexact : ((updated nameToEolMap userMappings).lookup name).filter (hasProduct products) =
      none := by
    rw [Option.eq_none_iff_forall_ne_some]
    exact fun id hsome => hnone name id ((exact_eq_some_iff hkeys).mp hsome)
  have hbest : longestPrefix name products (updated nameToEolMap userMappings) = (none, 0) := by
    rw [longestPrefix_eq]
    refine foldl_keepLonger_of_none fun entry hentry hfits => Nat.le_of_eq ?_
    by_contra hlength
    exact hnone entry.1 entry.2 (usable_of_candidate hkeys hentry hfits fun hempty => by
      rw [hempty] at hlength
      exact hlength rfl)
  unfold directNameMatch
  dsimp only
  rw [hexact, hbest]
  rfl

theorem longestSlug_of_longest (hslug : slug ∈ products.map Prod.fst) (hnamed : NamedBy name slug)
    (hlongest : ∀ slug' ∈ products.map Prod.fst, NamedBy name slug' →
      slug'.length ≤ slug.length) : (longestSlug name products (none, 0)).1 = some slug := by
  obtain ⟨product, hproduct, rfl⟩ := List.mem_map.mp hslug
  rw [longestSlug_eq, foldl_keepLonger_of_isLongest (x := product)]
  · refine ⟨hproduct, slugCandidate_iff.mpr hnamed, Nat.lt_of_lt_of_le (by decide) hnamed.1, ?_⟩
    exact fun p hp hfits => hlongest p.1 (List.mem_map_of_mem hp) (slugCandidate_iff.mp hfits)
  · exact fun p _ hfits => slugCandidate_unique (slugCandidate_iff.mpr hnamed) hfits

theorem longestSlug_of_none (hnone : ∀ slug ∈ products.map Prod.fst, ¬NamedBy name slug) :
    (longestSlug name products (none, 0)).1 = none := by
  rw [longestSlug_eq, foldl_keepLonger_of_none]
  exact fun p hp hfits =>
    absurd (slugCandidate_iff.mp hfits) (hnone p.1 (List.mem_map_of_mem hp))

theorem directNameMatch_perm {userMappings' : List (String × String)} {products' : Products}
    (hkeys : (userMappings.map Prod.fst).Nodup) (hmappings : userMappings.Perm userMappings')
    (hproducts : products.Perm products') :
    directNameMatch name products userMappings = directNameMatch name products' userMappings' := by
  have hkeys' : (userMappings'.map Prod.fst).Nodup := (hmappings.map Prod.fst).nodup_iff.mp hkeys
  have hexists : hasProduct products = hasProduct products' := by
    funext id
    rw [Bool.eq_iff_iff, hasProduct_iff, hasProduct_iff, (hproducts.map Prod.fst).mem_iff]
  have hmerged : ∀ entry, entry ∈ updated nameToEolMap userMappings ↔
      entry ∈ updated nameToEolMap userMappings' := by
    intro entry
    rw [mem_merged hkeys, mem_merged hkeys']
    unfold InForce
    rw [hmappings.mem_iff, (hmappings.map Prod.fst).mem_iff]
  have hlookup : (updated nameToEolMap userMappings).lookup name =
      (updated nameToEolMap userMappings').lookup name := by
    ext id
    rw [lookup_eq_some_iff (nodup_merged hkeys), lookup_eq_some_iff (nodup_merged hkeys'), hmerged]
  have hstarts : longestPrefix name products (updated nameToEolMap userMappings) =
      longestPrefix name products' (updated nameToEolMap userMappings') := by
    have hcandidate : prefixCandidate name products = prefixCandidate name products' := by
      unfold prefixCandidate
      rw [hexists]
    rw [longestPrefix_eq, longestPrefix_eq, ← hcandidate]
    exact foldl_keepLonger_congr hmerged fun x hx y hy hcx hcy =>
      prefixCandidate_unique (nodup_merged hkeys) hx hy hcx hcy
  have hslug : ∀ best, longestSlug name products best = longestSlug name products' best := by
    intro best
    rw [longestSlug_eq, longestSlug_eq]
    exact foldl_keepLonger_congr (fun p => hproducts.mem_iff) fun x _ y _ hcx hcy =>
      slugCandidate_unique hcx hcy
  unfold directNameMatch
  dsimp only
  rw [hexists, hlookup, hstarts]
  simp only [hslug]

/-- The longest mapping in force that applies and whose product exists decides, else the longest id
that the name is or starts with, whatever the order of the mappings and of the products. -/
theorem directNameMatch_priorities (name : String) (products : Products)
    (userMappings : List (String × String)) (hkeys : (userMappings.map Prod.fst).Nodup) :
    (∀ key id, Usable name products userMappings key id →
      (∀ key' id', Usable name products userMappings key' id' → key'.length ≤ key.length) →
      id ≠ "" ∨ key = name → directNameMatch name products userMappings = some id) ∧
    ((∀ key id, ¬Usable name products userMappings key id) →
      (∀ slug ∈ products.map Prod.fst, NamedBy name slug →
        (∀ slug' ∈ products.map Prod.fst, NamedBy name slug' → slug'.length ≤ slug.length) →
        directNameMatch name products userMappings = some slug) ∧
      ((∀ slug ∈ products.map Prod.fst, ¬NamedBy name slug) →
        directNameMatch name products userMappings = none)) ∧
    ∀ userMappings' products', userMappings.Perm userMappings' → products.Perm products' →
      directNameMatch name products' userMappings' =
        directNameMatch name products userMappings := by
  refine ⟨fun key id h hlongest hid => directNameMatch_of_longest hkeys h hlongest hid,
    fun hnone => ?_, fun userMappings' products' hmappings hproducts =>
      (directNameMatch_perm hkeys hmappings hproducts).symm⟩
  rw [directNameMatch_of_none hkeys hnone]
  exact ⟨fun slug => longestSlug_of_longest, longestSlug_of_none⟩

end Mappings

def productsNamed (ids : List String) : Products := ids.map fun id => (id, [])

/-- A mapping of the user in the place of a built-in one. -/
theorem directNameMatch_priorities_custom :
    directNameMatch "microsoft office" (productsNamed ["office", "suite"])
      [("microsoft office", "suite")] = some "suite" := by
  refine (directNameMatch_priorities "microsoft office" (productsNamed ["office", "suite"])
    [("microsoft office", "suite")] (by decide)).1 "microsoft office" "suite"
    ⟨.inl (by decide), .inl rfl, by decide⟩ ?_ (.inr rfl)
  rintro key' id' ⟨-, rfl | ⟨-, hstarts⟩, -⟩
  · exact Nat.le_refl _
  · have hlength := hstarts.length_le
    rwa [String.length_toList, String.length_toList] at hlength

/-- A shorter mapping of the user does not come before a longer one that is built in. -/
theorem longer_builtin_decides :
    ¬∀ (name : String) (products : Products) (userMappings : List (String × String)),
      (userMappings.map Prod.fst).Nodup → ∀ key id, (key, id) ∈ userMappings →
      key.toList <+: name.toList → id ∈ products.map Prod.fst →
      (∀ key' id', (key', id') ∈ userMappings → key'.toList <+: name.toList →
        id' ∈ products.map Prod.fst → key'.length ≤ key.length) →
      directNameMatch name products userMappings = some id := by
  intro h
  have hcustom := h "microsoft office 2019" (productsNamed ["office", "suite"])
    [("microsoft", "suite")] (by decide) "microsoft" "suite" (by decide) (by decide) (by decide)
    (by
      intro key' id' hmem _ _
      rw [(Prod.mk.inj (List.mem_singleton.mp hmem)).1])
  revert hcustom
  decide +kernel

end Sentora.Eol
