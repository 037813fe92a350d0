import Mathlib.Data.Prod.Lex
import Mathlib.Data.String.Basic
import Mathlib.Data.Sum.Order
import Sentora.Agents.Inventory
import Sentora.Lib.TiedPages

/-!
# The list of apps

`list_apps` of `domains/agents/apps_router.py`, and `_list_apps_live`, which it falls back to.
-/

namespace Sentora.Agents

open Lib

structure AppEolInfo where
  eolProductId : String
  matchSource : Eol.MatchSource
  matchConfidence : Rat

structure AppListItem where
  normalizedName : String
  displayName : String
  publisher : Option String
  agentCount : Nat
  category : Option String
  categoryDisplay : Option String
  eol : Option AppEolInfo := none

inductive SortField where
  | agentCount | name

structure AppListQuery where
  q : String := ""
  sort : SortField := .agentCount
  descending : Bool := true
  page : Nat := 1
  limit : Nat := 100

structure AppListResponse where
  apps : List AppListItem
  total : Nat
  page : Nat
  limit : Nat

def AppListItem.value (a : AppListItem) : SortField → Nat ×ₗ String
  | .agentCount => toLex (a.agentCount, "")
  | .name => toLex (0, a.normalizedName)

/-- Where an app stands in the order that is asked for. -/
def AppListQuery.rank (query : AppListQuery) (a : AppListItem) :
    (Nat ×ₗ String) ⊕ₗ (Nat ×ₗ String)ᵒᵈ :=
  if query.descending then toLex (.inr (OrderDual.toDual (a.value query.sort)))
  else toLex (.inl (a.value query.sort))

/-- How the server sorts.  Apps of one rank are in an order of its own. -/
structure AppOrder where
  sort : AppListQuery → List AppListItem → List AppListItem
  listing : ∀ query l, Listing query.rank l (sort query l)

def answer (order : AppOrder) (query : AppListQuery) (items : List AppListItem) :
    AppListResponse where
  apps := pageOf query.limit (query.page - 1) (order.sort query items)
  total := items.length
  page := query.page
  limit := query.limit

def AppSummary.item (d : AppSummary) : AppListItem where
  normalizedName := d.normalizedName
  displayName := if d.displayName = "" then d.normalizedName else d.displayName
  publisher := d.publisher
  agentCount := d.agentCount
  category := d.category
  categoryDisplay := d.categoryDisplay
  eol := d.eolMatch.map fun e => ⟨e.eolProductId, e.matchSource, e.matchConfidence⟩

/-- An app without what the first document of a group gives. -/
def AppListItem.known (a : AppListItem) : AppListItem :=
  { a with displayName := "", publisher := none }

/-- Two answers count the same apps and have the same values in order; sorted by name, they have
the same apps. -/
structure Agrees (query : AppListQuery) (r r' : AppListResponse) : Prop where
  total : r.total = r'.total
  values : r.apps.map query.rank = r'.apps.map query.rank
  named : query.sort = .name → r.apps.map AppListItem.known = r'.apps.map AppListItem.known

section Answers

variable {query : AppListQuery} {order order' : AppOrder} {items items' : List AppListItem}

theorem listing_known {l : List AppListItem} (h : Listing query.rank items l) :
    Listing query.rank (items.map AppListItem.known) (l.map AppListItem.known) :=
  ⟨h.perm.map _, List.pairwise_map.mpr h.sorted⟩

theorem eq_of_rank {a b : AppListItem} (hname : query.sort = .name)
    (h : query.rank a = query.rank b) : a.normalizedName = b.normalizedName := by
  unfold AppListQuery.rank at h
  rw [hname] at h
  split at h
  · simpa [AppListItem.value] using h
  · simpa [AppListItem.value] using h

theorem agrees_answer
    (hperm : (items.map AppListItem.known).Perm (items'.map AppListItem.known))
    (hinj : ∀ a ∈ items.map AppListItem.known, ∀ b ∈ items.map AppListItem.known,
      a.normalizedName = b.normalizedName → a = b) :
    Agrees query (answer order query items) (answer order' query items') := by
  have hl : Listing query.rank (items.map AppListItem.known)
      ((order.sort query items).map AppListItem.known) := listing_known (order.listing query items)
  have hm : Listing query.rank (items.map AppListItem.known)
      ((order'.sort query items').map AppListItem.known) :=
    have hknown := listing_known (order'.listing query items')
    ⟨hknown.perm.trans hperm.symm, hknown.sorted⟩
  refine ⟨?_, ?_, fun hname => ?_⟩
  · have hlength := hperm.length_eq
    rwa [List.length_map, List.length_map] at hlength
  · have hkeys := hl.keys hm
    rw [List.map_map, List.map_map] at hkeys
    simp only [answer, pageOf, List.map_take, List.map_drop]
    exact congrArg (fun l => (l.drop ((query.page - 1) * query.limit)).take query.limit) hkeys
  · have hsame := (hl.perm.trans hm.perm.symm).eq_of_pairwise (fun a b ha hb hab hba =>
      hinj a (hl.perm.mem_iff.mp ha) b (hm.perm.mem_iff.mp hb)
        (eq_of_rank hname (le_antisymm hab hba))) hl.sorted hm.sorted
    simp only [answer, pageOf, List.map_take, List.map_drop, hsame]

end Answers

section Listings

variable (contains : String → String → Bool)
  (matcher : Taxonomy.Matcher (Option String × Option String))

/-- `contains` is the search for an escaped text without regard to case. -/
def searched (q name : String) : Bool := q == "" || contains q name

def summaryItems (summaries : List AppSummary) (q : String) : List AppListItem :=
  (summaries.filter fun d => searched contains q d.normalizedName).map AppSummary.item

def liveItem (g : String × List Sync.AppDoc) : AppListItem :=
  let found := (matcher.matchName g.1).getD (none, none)
  { normalizedName := g.1
    displayName := ((g.2.head?.map Sync.AppDoc.name).filter (· ≠ "")).getD g.1
    publisher := g.2.head?.bind Sync.AppDoc.publisher
    agentCount := (g.2.map Sync.AppDoc.agentId).dedup.length
    category := found.1
    categoryDisplay := found.2 }

def liveItems (apps : List Sync.AppDoc) (q : String) : List AppListItem :=
  (groupsBy Sync.AppDoc.normalizedName
    ((activeApps apps).filter fun app => searched contains q app.normalizedName)).map
      (liveItem matcher)

def listAppsLive (order : AppOrder) (apps : List Sync.AppDoc) (query : AppListQuery) :
    AppListResponse :=
  answer order query (liveItems contains matcher apps query.q)

def listApps (order : AppOrder) (apps : List Sync.AppDoc) (summaries : List AppSummary)
    (query : AppListQuery) : AppListResponse :=
  if summaries.isEmpty then listAppsLive contains matcher order apps query
  else answer order query (summaryItems contains summaries query.q)

/-- The app of a name, with the agents that have it. -/
def knownApp (apps : List Sync.AppDoc) (name : String) : AppListItem :=
  let found := (matcher.matchName name).getD (none, none)
  { normalizedName := name
    displayName := ""
    publisher := none
    agentCount := ((agentsWith apps name).image Prod.snd).card
    category := found.1
    categoryDisplay := found.2 }

end Listings

section Rebuilt

variable {contains : String → String → Bool} {q : String} {apps : List Sync.AppDoc}
  {agents : List Sync.AgentDoc} {matcher : Taxonomy.Matcher (Option String × Option String)}

theorem known_liveItems : (liveItems contains matcher apps q).map AppListItem.known =
    (firstKeys (((activeApps apps).filter fun app => searched contains q app.normalizedName).map
      Sync.AppDoc.normalizedName)).map (knownApp matcher apps) := by
  rw [liveItems, ← keys_groupsBy, List.map_map, List.map_map]
  refine List.map_congr_left fun g hg => ?_
  obtain ⟨hname, hitems⟩ := mem_groupsBy.mp hg
  obtain ⟨app, happ, hkey⟩ := List.mem_map.mp hname
  have hsearched : searched contains q g.1 = true := hkey ▸ (List.mem_filter.mp happ).2
  have hcount : (g.2.map Sync.AppDoc.agentId).dedup.length =
      ((agentsWith apps g.1).image Prod.snd).card := by
    rw [← List.card_toFinset, hitems, agentsWith]
    refine congrArg Finset.card (Finset.ext fun agentId => ?_)
    simp only [List.mem_toFinset, Finset.mem_image, List.mem_map, List.mem_filter,
      decide_eq_true_eq, exists_exists_and_eq_and]
    constructor
    · rintro ⟨app, ⟨⟨hactive, -⟩, hsame⟩, hid⟩
      exact ⟨app, ⟨hactive, hsame⟩, hid⟩
    · rintro ⟨app, ⟨hactive, hsame⟩, hid⟩
      exact ⟨app, ⟨⟨hactive, hsame ▸ hsearched⟩, hsame⟩, hid⟩
  simp only [Function.comp_apply, liveItem, AppListItem.known, knownApp, hcount]

theorem known_summaryItems :
    (summaryItems contains ((rows apps).map (summary matcher agents)) q).map AppListItem.known =
      (((rows apps).map Row.normalizedName).filter (searched contains q)).map
        (knownApp matcher apps) := by
  rw [summaryItems, List.filter_map, List.filter_map, List.map_map, List.map_map, List.map_map]
  refine List.map_congr_left fun r hr => ?_
  obtain ⟨name, -, rfl⟩ := mem_rows.mp (List.mem_filter.mp hr).1
  show _ = knownApp matcher apps name
  rw [knownApp, ← agentCount_rowOf]
  rfl

theorem known_perm : ((summaryItems contains ((rows apps).map (summary matcher agents)) q).map
    AppListItem.known).Perm ((liveItems contains matcher apps q).map AppListItem.known) := by
  rw [known_liveItems, known_summaryItems]
  refine List.Perm.map _ ((List.perm_ext_iff_of_nodup (nodup_names_rows.filter _)
    nodup_firstKeys).mpr fun name => ?_)
  rw [mem_firstKeys, List.mem_filter, List.mem_map, List.mem_map]
  constructor
  · rintro ⟨⟨r, hr, rfl⟩, hsearched⟩
    obtain ⟨name, ⟨app, happ, rfl⟩, rfl⟩ := mem_rows.mp hr
    exact ⟨app, List.mem_filter.mpr ⟨happ, hsearched⟩, rfl⟩
  · rintro ⟨app, happ, rfl⟩
    obtain ⟨hactive, hsearched⟩ := List.mem_filter.mp happ
    exact ⟨⟨_, rowOf_mem_rows hactive, rfl⟩, hsearched⟩

theorem agrees_of_perm {query : AppListQuery} {order order' : AppOrder}
    {items : List AppListItem} (h : (items.map AppListItem.known).Perm
      ((liveItems contains matcher apps query.q).map AppListItem.known)) :
    Agrees query (answer order query items) (listAppsLive contains matcher order' apps query) := by
  refine agrees_answer h fun a ha b hb hsame => ?_
  rw [h.mem_iff, known_liveItems, List.mem_map] at ha hb
  obtain ⟨name, -, rfl⟩ := ha
  obtain ⟨name', -, rfl⟩ := hb
  exact congrArg (knownApp matcher apps) hsame

/-- Right after a rebuild every page of the summaries is one of the live aggregation, unless no
app is active and summaries are left. -/
theorem listApps_agrees_iff (t : Taxonomy.CaseText) (contains : String → String → Bool)
    (order order' : AppOrder) (entries : List Taxonomy.EntryDoc) (apps : List Sync.AppDoc)
    (agents : List Sync.AgentDoc) (summaries summaries' : List AppSummary)
    (matcher : Taxonomy.Matcher (Option String × Option String))
    (hmatcher : entryMatcher t (entries.filter fun doc => doc.patterns != some []) = some matcher)
    (h : rebuildAppSummaries t entries apps agents summaries = some summaries') :
    (∀ query, Agrees query (listApps contains matcher order apps summaries' query)
      (listAppsLive contains matcher order' apps query)) ↔
        summaries = [] ∨ activeApps apps ≠ [] := by
  by_cases hactive : activeApps apps = []
  · rw [rebuildAppSummaries_of_none hactive] at h
    cases h
    rw [or_iff_left (not_not.mpr hactive)]
    constructor
    · intro hall
      by_contra hne
      have htotal := (hall {}).total
      rw [listApps, if_neg (by rwa [List.isEmpty_iff])] at htotal
      have hlisted : (summaryItems contains summaries "").length = summaries.length := by
        simp [summaryItems, searched]
      have hnone : (liveItems contains matcher apps "").length = 0 := by
        rw [liveItems, hactive]
        rfl
      exact hne (List.length_eq_zero_iff.mp (hlisted.symm.trans (htotal.trans hnone)))
    · rintro rfl query
      exact agrees_of_perm (List.Perm.refl _)
  · rw [rebuildAppSummaries_of_some hactive, hmatcher] at h
    cases h
    refine iff_of_true (fun query => ?_) (Or.inr hactive)
    unfold listApps
    split
    · exact agrees_of_perm (List.Perm.refl _)
    · exact agrees_of_perm known_perm

end Rebuilt

def byRank : AppOrder where
  sort query l := sortBy query.rank l
  listing _ _ := listing_sortBy

theorem zoom_is_listed :
    Agrees {} (listApps (fun _ _ => false) (.build caselessText []) byRank [zoomApp] [zoomSummary]
      {}) (listAppsLive (fun _ _ => false) (.build caselessText []) byRank [zoomApp] {}) :=
  (listApps_agrees_iff caselessText (fun _ _ => false) byRank byRank [] [zoomApp] [laptop] []
    [zoomSummary] (.build caselessText []) rfl (by decide +kernel)).mpr (Or.inl rfl) {}

end Sentora.Agents
