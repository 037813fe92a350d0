import Sentora.Export.Inventory
import Sentora.Lib.TiedPages
import Sentora.Values

/-! ## The cache of the export

`build_software_inventory` with the collection `export_cache`, `_get_cached` and `_cache_result`.
The order of documents with equal sort keys is given with each query, and so are the data of CPE
names.  A key of the cache stands for its digest.
-/

namespace Sentora
namespace Export

open Lib Agents Eol

structure CpeInfo where
  cpeUri : Option String := none
  vendor : Option String := none
  product : Option String := none
  version : Option String := none
deriving DecidableEq

structure InventoryRequest where
  includeEol : Bool := true
  includeCpe : Bool := true
  scopeGroups : List String := []
  scopeTags : List String := []
  classification : Option String := none
  page : Nat := 1
  pageSize : Nat := 1000
deriving DecidableEq

def InventoryRequest.toExportRequest (q : InventoryRequest) : ExportRequest where
  includeEol := q.includeEol
  scopeGroups := q.scopeGroups
  scopeTags := q.scopeTags
  classification := q.classification
  page := q.page
  pageSize := q.pageSize

structure NamedItem extends SoftwareInventoryItem where
  cpe : Option CpeInfo
deriving DecidableEq

structure ExportMetadata where
  generatedAt : DateTime
  totalAgents : Nat
  totalUniqueApps : Nat
deriving DecidableEq

structure PaginationInfo where
  page : Nat
  pageSize : Nat
  totalItems : Nat
  totalPages : Nat
deriving DecidableEq

structure InventoryExport where
  exportMetadata : ExportMetadata
  softwareInventory : List NamedItem
  pagination : PaginationInfo
deriving DecidableEq

/-- A document of `export_cache`, as the driver returns it; its data may not validate. -/
structure CachedExport where
  cacheKey : InventoryRequest
  data : Option InventoryExport
  createdAt : Option DateTime
deriving DecidableEq

inductive ExportFailure where
  | typeError (message : String)
deriving DecidableEq

def clockSeconds (t : DateTime) : Int :=
  DateTime.daysFromCivil t.year t.month t.day * 86400 + t.hour * 3600 + t.minute * 60 + t.second

/-- The difference of two datetimes, in microseconds. -/
def subtract (a b : DateTime) : Except ExportFailure Int :=
  match a.tz, b.tz with
  | some o, some o' =>
    .ok ((clockSeconds a - o - (clockSeconds b - o')) * 1000000 + a.microsecond - b.microsecond)
  | none, none => .ok ((clockSeconds a - clockSeconds b) * 1000000 + a.microsecond - b.microsecond)
  | _, _ => .error (.typeError "can't subtract offset-naive and offset-aware datetimes")

def cacheTtlSeconds : Nat := 3600

def getCached (cache : List CachedExport) (now : DateTime) (key : InventoryRequest) :
    Except ExportFailure (Option InventoryExport) :=
  match cache.find? fun d => d.cacheKey = key with
  | none => .ok none
  | some doc =>
    match doc.createdAt with
    | none => .ok doc.data
    | some createdAt => do
      let age ← subtract now createdAt
      return if age > cacheTtlSeconds * 1000000 then none else doc.data

/-- `update_one({"cache_key": …}, …, upsert=True)`. -/
def cacheResult (cache : List CachedExport) (now : DateTime) (key : InventoryRequest)
    (result : InventoryExport) : List CachedExport :=
  ⟨key, some result, some now.stored⟩ :: cache.filter fun d => d.cacheKey ≠ key

/-- What a call of the export meets: the time, the order in which its query finds the summaries,
and whether its document is cached. -/
structure Call where
  now : DateTime
  found : List AppSummary
  cached : Bool

def namedItem (cpe : String → Option CpeInfo) (q : InventoryRequest) (d : AppSummary) : NamedItem :=
  { inventoryItem q.includeEol d with
    cpe := if q.includeCpe then cpe d.normalizedName else none }

def isScoped (q : InventoryRequest) : Bool := !(q.scopeGroups.isEmpty && q.scopeTags.isEmpty)

/-- The request has scopes, and no agent is in them. -/
def Nobody (q : InventoryRequest) (w : World) : Prop :=
  isScoped q = true ∧ scopedAgents q.toExportRequest w.agents = []

instance Nobody.decidable {q : InventoryRequest} {w : World} : Decidable (Nobody q w) :=
  inferInstanceAs (Decidable (_ ∧ _))

def totalPages (q : InventoryRequest) (totalItems : Nat) : Nat :=
  max 1 (pageCount q.pageSize totalItems)

/-- The answer where nothing is cached, and whether it is then cached. -/
def freshInventory (cpe : String → Option CpeInfo) (w : World) (q : InventoryRequest) (c : Call) :
    InventoryExport × Bool :=
  if Nobody q w then
    ({ exportMetadata := ⟨c.now, 0, 0⟩, softwareInventory := [],
       pagination := ⟨q.page, q.pageSize, 0, 0⟩ }, false)
  else
    let totalItems := c.found.length
    let docs := pageOf q.pageSize (q.page - 1) c.found
    ({ exportMetadata := ⟨c.now, w.agents.length, totalItems⟩
       softwareInventory := docs.map (namedItem cpe q)
       pagination := ⟨q.page, q.pageSize, totalItems, totalPages q totalItems⟩ }, c.cached)

/-- `build_software_inventory`. -/
def exportInventory (cpe : String → Option CpeInfo) (w : World) (q : InventoryRequest) (c : Call)
    (cache : List CachedExport) : Except ExportFailure InventoryExport × List CachedExport :=
  match getCached cache c.now q with
  | .error failure => (.error failure, cache)
  | .ok (some cached) => (.ok cached, cache)
  | .ok none =>
    let (result, keep) := freshInventory cpe w q c
    (.ok result, if keep then cacheResult cache c.now q result else cache)

end Export
end Sentora

namespace Sentora
namespace Export

open Lib Agents Eol

variable {categoryMatches : String → String → Bool} {cpe : String → Option CpeInfo} {w : World}
variable {q : InventoryRequest} {c : Call} {calls : Nat → Call} {cache : List CachedExport}
variable {n k : Nat}

def selected (categoryMatches : String → String → Bool) (q : InventoryRequest) (w : World) :
    List AppSummary :=
  w.summaries.docs.filter (selects categoryMatches q.toExportRequest w)

/-- The sort key of the query, descending. -/
def byAgents (d : AppSummary) : ℕᵒᵈ := OrderDual.toDual d.agentCount

/-- The query finds the summaries of the request in an order of its sort key, and the time is
aware. -/
structure Legal (categoryMatches : String → String → Bool) (w : World) (q : InventoryRequest)
    (c : Call) : Prop where
  found : Listing byAgents (selected categoryMatches q w) c.found
  aware : c.now.tz = some 0

def pageRequest (q : InventoryRequest) (k : Nat) : InventoryRequest := { q with page := k + 1 }

def cacheAfter (cpe : String → Option CpeInfo) (w : World) (q : InventoryRequest)
    (calls : Nat → Call) (cache : List CachedExport) : Nat → List CachedExport
  | 0 => cache
  | k + 1 =>
    (exportInventory cpe w (pageRequest q k) (calls k) (cacheAfter cpe w q calls cache k)).2

def pageTotal (q : InventoryRequest) (w : World) (totalItems : Nat) : Nat :=
  if Nobody q w then 0 else totalPages q totalItems

/-- The pages that are requested one after the other are answered with the number of all items
and of all pages, and show each matching summary once. -/
def Partitions (categoryMatches : String → String → Bool) (cpe : String → Option CpeInfo)
    (w : World) (q : InventoryRequest) (cache : List CachedExport) : Prop :=
  let all := selected categoryMatches q w
  let total := pageTotal q w all.length
  ∀ calls : Nat → Call, (∀ k, Legal categoryMatches w q (calls k)) →
    (∀ k < total, ∃ answer,
      (exportInventory cpe w (pageRequest q k) (calls k) (cacheAfter cpe w q calls cache k)).1 =
          .ok answer ∧
        answer.pagination = ⟨k + 1, q.pageSize, all.length, total⟩ ∧
        answer.softwareInventory =
          (pageOf q.pageSize k (calls k).found).map (namedItem cpe q)) ∧
      (pages q.pageSize total fun k => (calls k).found).Perm all

def Repeats (categoryMatches : String → String → Bool) (cpe : String → Option CpeInfo)
    (w : World) (q : InventoryRequest) (cache : List CachedExport) : Prop :=
  ∀ first second, Legal categoryMatches w q first → Legal categoryMatches w q second →
    ∃ answer again,
      (exportInventory cpe w q first cache).1 = .ok answer ∧
        (exportInventory cpe w q second (exportInventory cpe w q first cache).2).1 = .ok again ∧
          again.softwareInventory = answer.softwareInventory ∧
            again.pagination = answer.pagination

def Uncached (q : InventoryRequest) (cache : List CachedExport) : Prop :=
  ∀ d ∈ cache, ∀ page, d.cacheKey ≠ { q with page }

theorem getCached_of_none {now : DateTime} (h : ∀ d ∈ cache, d.cacheKey ≠ q) :
    getCached cache now q = .ok none := by
  have hnone : cache.find? (fun d => d.cacheKey = q) = none := by
    rw [List.find?_eq_none]
    intro d hd
    rw [decide_eq_true_iff]
    exact h d hd
  rw [getCached, hnone]

theorem exportInventory_of_none (h : ∀ d ∈ cache, d.cacheKey ≠ q) :
    exportInventory cpe w q c cache =
      (.ok (freshInventory cpe w q c).1,
        if (freshInventory cpe w q c).2 = true then
          cacheResult cache c.now q (freshInventory cpe w q c).1
        else cache) := by
  rw [exportInventory, getCached_of_none h]

theorem exportInventory_of_nobody (hnobody : Nobody q w) (h : ∀ d ∈ cache, d.cacheKey ≠ q) :
    exportInventory cpe w q c cache =
      (.ok ⟨⟨c.now, 0, 0⟩, [], ⟨q.page, q.pageSize, 0, 0⟩⟩, cache) := by
  rw [exportInventory_of_none h, freshInventory, if_pos hnobody]
  rfl

theorem exportInventory_cached {key : InventoryRequest} {result : InventoryExport}
    {created : DateTime} (haware : c.now.tz = some 0) :
    (exportInventory cpe w key c (cacheResult cache created key result)).1 =
      .error (.typeError "can't subtract offset-naive and offset-aware datetimes") := by
  have hfind : (cacheResult cache created key result).find? (fun d => d.cacheKey = key) =
      some ⟨key, some result, some created.stored⟩ :=
    List.find?_cons_of_pos (decide_eq_true rfl)
  have hsubtract : subtract c.now created.stored =
      .error (.typeError "can't subtract offset-naive and offset-aware datetimes") := by
    rw [subtract, haware]
    rfl
  rw [exportInventory, getCached, hfind]
  dsimp only
  rw [hsubtract]
  rfl

theorem mem_exportInventory {d : CachedExport}
    (h : d ∈ (exportInventory cpe w q c cache).2) : d ∈ cache ∨ d.cacheKey = q := by
  rw [exportInventory] at h
  split at h
  · exact Or.inl h
  · exact Or.inl h
  · dsimp only at h
    split at h
    · rcases List.mem_cons.mp h with rfl | hrest
      · exact Or.inr rfl
      · exact Or.inl (List.mem_of_mem_filter hrest)
    · exact Or.inl h

theorem mem_cacheAfter {d : CachedExport} (h : d ∈ cacheAfter cpe w q calls cache n) :
    d ∈ cache ∨ ∃ k < n, d.cacheKey = pageRequest q k := by
  induction n with
  | zero => exact Or.inl h
  | succ n ih =>
    rcases mem_exportInventory h with hold | hkey
    · exact (ih hold).imp_right fun ⟨k, hk, heq⟩ => ⟨k, Nat.lt_succ_of_lt hk, heq⟩
    · exact Or.inr ⟨n, Nat.lt_succ_self n, hkey⟩

theorem cacheKey_ne_of_cacheAfter (h : Uncached q cache) {d : CachedExport}
    (hd : d ∈ cacheAfter cpe w q calls cache k) : d.cacheKey ≠ pageRequest q k := by
  rcases mem_cacheAfter hd with hold | ⟨j, hj, heq⟩
  · exact h d hold _
  · intro hkey
    have hpage : j + 1 = k + 1 := congrArg InventoryRequest.page (heq.symm.trans hkey)
    omega

theorem nodup_selected : (selected categoryMatches q w).Nodup :=
  (List.Nodup.of_map _ w.summaries.distinct).filter _

theorem selected_of_nobody (h : Nobody q w) : selected categoryMatches q w = [] := by
  obtain ⟨hscoped, hnone⟩ := h
  rw [selected, List.filter_eq_nil_iff]
  intro d _ hselects
  rw [selects, Bool.and_eq_true, Bool.or_eq_true, hnone] at hselects
  rcases hselects.2 with hunscoped | hany
  · rw [isScoped, Bool.not_eq_true'] at hscoped
    rw [show (q.scopeGroups.isEmpty && q.scopeTags.isEmpty) = true from hunscoped] at hscoped
    cases hscoped
  · obtain ⟨app, _, happ⟩ := List.any_eq_true.mp hany
    simp at happ

theorem pages_total {lists : Nat → List AppSummary} (hsize : 0 < q.pageSize)
    (hlists : ∀ k, (lists k).Perm (selected categoryMatches q w)) :
    pages q.pageSize (pageTotal q w (selected categoryMatches q w).length) lists =
      pages q.pageSize (pageCount q.pageSize (selected categoryMatches q w).length) lists := by
  rcases Nat.eq_zero_or_pos (pageCount q.pageSize (selected categoryMatches q w).length) with
    hzero | hpos
  · -- no items: a page of none of them is shown, or no page
    have hlength := @length_le_pageCount _ hsize (selected categoryMatches q w).length
    rw [hzero, Nat.zero_mul, Nat.le_zero, List.length_eq_zero_iff] at hlength
    have hempty : ∀ k, lists k = [] := fun k => List.perm_nil.mp (hlength ▸ hlists k)
    rw [hzero, pages, pages, List.range_zero, List.flatMap_nil, List.flatMap_eq_nil_iff]
    intro k _
    rw [hempty, pageOf, List.drop_nil, List.take_nil]
  · have hnobody : ¬Nobody q w := by
      intro h
      rw [selected_of_nobody h, pageCount, List.length_nil, Nat.div_eq_of_lt (by omega)] at hpos
      exact Nat.lt_irrefl 0 hpos
    rw [pageTotal, if_neg hnobody, totalPages, Nat.max_eq_right hpos]

theorem answer_page (hfresh : Uncached q cache) (hlegal : Legal categoryMatches w q (calls k))
    (hk : k < pageTotal q w (selected categoryMatches q w).length) :
    ∃ answer,
      (exportInventory cpe w (pageRequest q k) (calls k) (cacheAfter cpe w q calls cache k)).1 =
          .ok answer ∧
        answer.pagination = ⟨k + 1, q.pageSize, (selected categoryMatches q w).length,
          pageTotal q w (selected categoryMatches q w).length⟩ ∧
        answer.softwareInventory =
          (pageOf q.pageSize k (calls k).found).map (namedItem cpe q) := by
  have hnobody : ¬Nobody q w := by
    intro h
    rw [pageTotal, if_pos h] at hk
    cases hk
  have hnobody' : ¬Nobody (pageRequest q k) w := hnobody
  rw [exportInventory_of_none fun d hd => cacheKey_ne_of_cacheAfter hfresh hd]
  refine ⟨_, rfl, ?_, ?_⟩
  · rw [freshInventory, if_neg hnobody', pageTotal, if_neg hnobody, ← hlegal.found.perm.length_eq]
    rfl
  · rw [freshInventory, if_neg hnobody']
    rfl

theorem partitions_iff (hsize : 0 < q.pageSize) (hfresh : Uncached q cache) :
    Partitions categoryMatches cpe w q cache ↔
      ∀ k < pageCount q.pageSize (selected categoryMatches q w).length,
        Untied byAgents (selected categoryMatches q w) (k * q.pageSize) := by
  rw [← forall_pages_perm_iff hsize nodup_selected]
  constructor
  · intro h lists hlists
    let calls : Nat → Call := fun k => ⟨⟨2026, 1, 1, 0, 0, 0, 0, some 0⟩, lists k, true⟩
    have hperm := (h calls fun k => ⟨hlists k, rfl⟩).2
    rwa [pages_total hsize fun k => (hlists k).perm] at hperm
  · intro h calls hlegal
    refine ⟨fun k hk => answer_page hfresh (hlegal k) hk, ?_⟩
    rw [pages_total hsize fun k => (hlegal k).found.perm]
    exact h _ fun k => (hlegal k).found

theorem repeats_iff (hfresh : Uncached q cache) :
    Repeats categoryMatches cpe w q cache ↔ Nobody q w := by
  have hnone : ∀ d ∈ cache, d.cacheKey ≠ q := fun d hd => hfresh d hd q.page
  constructor
  · intro h
    by_contra hnobody
    let first : Call :=
      ⟨⟨2026, 1, 1, 0, 0, 0, 0, some 0⟩, sortBy byAgents (selected categoryMatches q w), true⟩
    have hlegal : Legal categoryMatches w q first := ⟨listing_sortBy, rfl⟩
    have hkept : (freshInventory cpe w q first).2 = true := by rw [freshInventory, if_neg hnobody]
    obtain ⟨_, again, _, hagain, _⟩ := h first first hlegal hlegal
    rw [exportInventory_of_none hnone, hkept, if_pos rfl, exportInventory_cached rfl] at hagain
    cases hagain
  · intro hnobody first second _ _
    refine ⟨⟨⟨first.now, 0, 0⟩, [], ⟨q.page, q.pageSize, 0, 0⟩⟩,
      ⟨⟨second.now, 0, 0⟩, [], ⟨q.page, q.pageSize, 0, 0⟩⟩, ?_, ?_, rfl, rfl⟩
    · rw [exportInventory_of_nobody hnobody hnone]
    · rw [exportInventory_of_nobody hnobody hnone, exportInventory_of_nobody hnobody hnone]

/-- The pages of a request show each summary once, in whatever order its queries find summaries
with as many agents, if and only if no such tie crosses the end of a page; and a repeated request
is answered as before if and only if it has scopes with nobody in them. -/
theorem export_pages_iff_and_repeats_iff (categoryMatches : String → String → Bool)
    (cpe : String → Option CpeInfo) (w : World) (q : InventoryRequest) (hsize : 0 < q.pageSize)
    (cache : List CachedExport) (hfresh : Uncached q cache) :
    (Partitions categoryMatches cpe w q cache ↔
      ∀ k < pageCount q.pageSize (selected categoryMatches q w).length,
        Untied byAgents (selected categoryMatches q w) (k * q.pageSize)) ∧
    (Repeats categoryMatches cpe w q cache ↔ Nobody q w) :=
  ⟨partitions_iff hsize hfresh, repeats_iff hfresh⟩

def summaryOf (normalizedName : String) : AppSummary where
  normalizedName := normalizedName
  displayName := normalizedName
  publisher := none
  agentCount := 3
  category := none
  categoryDisplay := none
  riskLevel := none
  versions := []
  riskDistribution := []
  groupBreakdown := []
  siteBreakdown := []
  groupCount := 1
  siteCount := 1

def twoApps : World where
  apps := []
  agents := []
  summaries := ⟨[summaryOf "chrome", summaryOf "zoom"], by decide⟩

def onePerPage : InventoryRequest := { pageSize := 1 }

theorem export_pages_iff_and_repeats_iff_twoApps :
    (Partitions (fun _ _ => true) (fun _ => none) twoApps onePerPage [] ↔
      ∀ k < pageCount 1 (selected (fun _ _ => true) onePerPage twoApps).length,
        Untied byAgents (selected (fun _ _ => true) onePerPage twoApps) (k * 1)) ∧
    (Repeats (fun _ _ => true) (fun _ => none) twoApps onePerPage [] ↔ Nobody onePerPage twoApps) :=
  export_pages_iff_and_repeats_iff (fun _ _ => true) (fun _ => none) twoApps onePerPage
    (by decide) [] (List.forall_mem_nil _)

/-- One of two applications is shown twice, and a repeated request fails. -/
theorem not_partitions_and_not_repeats :
    ¬Partitions (fun _ _ => true) (fun _ => none) twoApps onePerPage [] ∧
      ¬Repeats (fun _ _ => true) (fun _ => none) twoApps onePerPage [] := by
  have hfresh : Uncached onePerPage [] := List.forall_mem_nil _
  constructor
  · rw [partitions_iff (by decide) hfresh]
    decide +kernel
  · rw [repeats_iff hfresh]
    decide +kernel

end Export
end Sentora
