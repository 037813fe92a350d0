import Sentora.Lib.Firsts
import Sentora.Library.SourceRunner

/-!
# Adapters with pages

`fetch` of the adapters for the CPE dictionary and for Chocolatey
(`domains/library/adapters/nist_cpe.py`, `chocolatey.py`), over a fixed listing that
is served in pages.  What an adapter yields does not depend on the library, so that
it is a list.

Texts that are cut at a separator, and the characters that are replaced or removed in them.
-/

namespace Sentora.Library

open Lib

/-- The methods of `str` that the adapters use. -/
structure PyText extends Text where
  title : String → String
  strip : String → String
  splitWords : String → List String

def splitOn (sep : Char) (s : String) : List String := (s.toList.splitOn sep).map String.ofList

def replaceChar (old new : Char) (s : String) : String :=
  String.ofList (s.toList.map fun c => if c = old then new else c)

def removeChar (old : Char) (s : String) : String :=
  String.ofList (s.toList.filter fun c => c ≠ old)

/-- `get_resume_state`: the start of the page, and what was counted. -/
structure AdapterState where
  start : Nat := 0
  fetched : Nat := 0
deriving DecidableEq

/-- An entry, and the state of the adapter while it is suspended there. -/
structure Yield where
  raw : RawEntry
  state : AdapterState
deriving DecidableEq

structure Config where
  maxResults : Option Nat := none
deriving DecidableEq

/-- An item is kept when the page is parsed.  It is passed over, or has a key and,
when it is the first of its key, an entry where it has patterns. -/
structure Adapter (ι : Type) where
  keeps : ι → Bool
  entry : ι → Option (String × Option RawEntry)
  pageSize : Nat
  defaultResults : Nat
  /-- The limit is looked at before an item, not behind an entry. -/
  limitFirst : Bool
  /-- The loop also ends at the total that the API reports. -/
  stopsAtTotal : Bool

namespace Adapter

variable {ι : Type} (a : Adapter ι) (limit : Nat)

/-- The inner loop: what is yielded, the count and the keys seen. -/
def page (start : Nat) : List ι → Nat → List String → List Yield × Nat × List String
  | [], fetched, seen => ([], fetched, seen)
  | item :: rest, fetched, seen =>
    if a.limitFirst && decide (limit ≤ fetched) then ([], fetched, seen)
    else
      match a.entry item with
      | none => page start rest fetched seen
      | some (key, raw?) =>
        if key ∈ seen then page start rest fetched seen
        else
          match raw? with
          | none => page start rest fetched (key :: seen)
          | some raw =>
            let next :=
              if !a.limitFirst && decide (limit ≤ fetched + 1) then ([], fetched + 1, key :: seen)
              else page start rest (fetched + 1) (key :: seen)
            (⟨raw, start, fetched⟩ :: next.1, next.2)

def parsed (listing : List ι) (start : Nat) : List ι :=
  ((listing.drop start).take a.pageSize).filter a.keeps

def pages (listing : List ι) (fails : Nat → Bool) : Nat → Nat → Nat → List String → List Yield
  | 0, _, _, _ => []
  | fuel + 1, start, fetched, seen =>
    if limit ≤ fetched then []
    else if fails start then []
    else
      match a.parsed listing start with
      | [] => []
      | item :: rest =>
        let (yields, fetched', seen') := a.page limit start (item :: rest) fetched seen
        if a.stopsAtTotal && decide (listing.length ≤ start + a.pageSize) then yields
        else yields ++ pages listing fails fuel (start + a.pageSize) fetched' seen'

/-- The limit in force. -/
def maxResults (config : Config) : Nat := config.maxResults.getD a.defaultResults

/-- `fetch`, where every page moves the start on. -/
def fetch (config : Config) (listing : List ι) (fails : Nat → Bool)
    (resumeState : Option AdapterState) : List Yield :=
  let state := resumeState.getD {}
  a.pages (a.maxResults config) listing fails (listing.length + 1) state.start state.fetched []

/-- What the adapter's own filters admit of a part of the listing. -/
def admitted (items : List ι) : List RawEntry := firsts a.entry [] (items.filter a.keeps)

end Adapter

structure CpeTitle where
  lang : String := ""
  title : String := ""
deriving DecidableEq

structure CpeProduct where
  cpeName : String
  titles : List CpeTitle := []
deriving DecidableEq

structure ParsedCpe where
  vendor : String
  product : String
  version : String
deriving DecidableEq

def parseCpeUri (cpeUri : String) : Option ParsedCpe :=
  match splitOn ':' cpeUri with
  | _ :: part1 :: part2 :: part3 :: part4 :: part5 :: _ =>
    if part1 ≠ "2.3" ∨ part2 ≠ "a" then none
    else
      let vendor := removeChar '\\' (replaceChar '_' ' ' part3)
      let product := removeChar '\\' (replaceChar '_' ' ' part4)
      let version := if part5 = "*" ∨ part5 = "-" then "" else part5
      if vendor = "" ∨ product = "" ∨ vendor = "*" ∨ product = "*" then none
      else some ⟨vendor, product, version⟩
  | _ => none

def cpeToPatterns (py : PyText) (cpeUri : String) : List String :=
  match parseCpeUri cpeUri with
  | none => []
  | some parsed =>
    let vendor := py.lower parsed.vendor
    let product := py.lower parsed.product
    ("*" ++ vendor ++ "*" ++ product ++ "*") ::
      if 4 ≤ product.length then ["*" ++ product ++ "*"] else []

def cpeDescription (p : CpeProduct) : String :=
  match p.titles.find? fun t => t.lang == "en" with
  | some t => if t.title = "" then "CPE: " ++ p.cpeName else t.title
  | none => "CPE: " ++ p.cpeName

def dedupKey (py : PyText) (parsed : ParsedCpe) : String :=
  py.lower parsed.vendor ++ ":" ++ py.lower parsed.product

def cpeEntry (py : PyText) (p : CpeProduct) : Option (String × Option RawEntry) :=
  if p.cpeName = "" then none
  else
    match parseCpeUri p.cpeName with
    | none => none
    | some parsed =>
      let patterns := cpeToPatterns py p.cpeName
      some (dedupKey py parsed,
        if patterns.isEmpty then none
        else some {
          upstreamId := dedupKey py parsed
          name := py.title parsed.vendor ++ " " ++ py.title parsed.product
          vendor := py.title parsed.vendor
          category := "cpe_software"
          description := cpeDescription p
          tags := ["cpe", "nist"]
          patterns := patterns
          version := "" })

def nistCpe (py : PyText) (resultsPerPage : Nat) : Adapter CpeProduct where
  keeps _ := true
  entry := cpeEntry py
  pageSize := resultsPerPage
  defaultResults := 20000
  limitFirst := false
  stopsAtTotal := true

structure AtomProperties where
  title : String := ""
  authors : String := ""
  summary : String := ""
  description : String := ""
  tags : String := ""
deriving DecidableEq

structure AtomEntry where
  title : String
  properties : Option AtomProperties := some {}
deriving DecidableEq

def orText (s t : String) : String := if s = "" then t else s

def packageTags (py : PyText) : List String → List String → List String
  | tags, [] => tags
  | tags, t :: rest =>
    if t ≠ "" ∧ 2 ≤ t.length ∧ t ∉ tags then
      let tags := tags ++ [py.lower t]
      if 10 ≤ tags.length then tags else packageTags py tags rest
    else packageTags py tags rest

def packageEntry (py : PyText) (e : AtomEntry) : Option (String × Option RawEntry) :=
  match e.properties with
  | none => none
  | some props =>
    let pkgId := py.strip e.title
    if pkgId = "" then none
    else
      let title := orText (py.strip props.title) pkgId
      let authors := py.strip props.authors
      let text := orText (py.strip props.summary) (py.strip props.description)
      let cleanId := replaceChar '-' ' ' (replaceChar '.' ' ' (py.lower pkgId))
      let cleanTitle := py.lower title
      let patterns :=
        (if 3 ≤ cleanId.length then ["*" ++ cleanId ++ "*"] else []) ++
          if cleanTitle ≠ cleanId ∧ 3 ≤ cleanTitle.length then ["*" ++ cleanTitle ++ "*"] else []
      some (py.lower pkgId,
        if patterns.isEmpty then none
        else some {
          upstreamId := "chocolatey:" ++ pkgId
          name := title
          vendor := if authors = "" then "" else py.strip ((splitOn ',' authors).headD "")
          category := "package_manager"
          description :=
            if 500 < text.length then String.ofList (text.toList.take 497) ++ "..." else text
          tags := packageTags py ["chocolatey", "windows"] (py.splitWords (py.strip props.tags))
          patterns := patterns
          version := "" })

def chocolatey (py : PyText) (pageSize : Nat) : Adapter AtomEntry where
  keeps e := e.properties.isSome
  entry := packageEntry py
  pageSize := pageSize
  defaultResults := 10000
  limitFirst := true
  stopsAtTotal := false

/-- The adapters with pages among those that are registered. -/
inductive PagedSource where
  | nistCpe | chocolatey
deriving DecidableEq

namespace PagedSource

def source : PagedSource → SourceType
  | nistCpe => .nistCpe
  | chocolatey => .chocolatey

def Item : PagedSource → Type
  | nistCpe => CpeProduct
  | chocolatey => AtomEntry

def adapter (py : PyText) (pageSize : Nat) : (p : PagedSource) → Adapter p.Item
  | nistCpe => Library.nistCpe py pageSize
  | chocolatey => Library.chocolatey py pageSize

end PagedSource

/-- The items of the pages up to one that fails or is empty. -/
def Adapter.reached {ι : Type} (a : Adapter ι) (listing : List ι) (fails : Nat → Bool) :
    Nat → Nat → List ι
  | 0, _ => []
  | fuel + 1, start =>
    if fails start then []
    else
      match a.parsed listing start with
      | [] => []
      | item :: rest =>
        if a.stopsAtTotal && decide (listing.length ≤ start + a.pageSize) then item :: rest
        else item :: rest ++ a.reached listing fails fuel (start + a.pageSize)

/-- Entries of one page, counted on. -/
def yieldsAt (start : Nat) : Nat → List RawEntry → List Yield
  | _, [] => []
  | fetched, raw :: rest => ⟨raw, start, fetched⟩ :: yieldsAt start (fetched + 1) rest

@[simp] theorem map_raw_yieldsAt (start fetched : Nat) (raws : List RawEntry) :
    (yieldsAt start fetched raws).map Yield.raw = raws := by
  induction raws generalizing fetched with
  | nil => rfl
  | cons raw rest ih => exact congrArg (raw :: ·) (ih (fetched + 1))

theorem length_yieldsAt (start fetched : Nat) (raws : List RawEntry) :
    (yieldsAt start fetched raws).length = raws.length := by
  rw [← List.length_map (f := Yield.raw), map_raw_yieldsAt]

theorem state_yieldsAt {start fetched n : Nat} {raws : List RawEntry} {y : Yield}
    (h : (yieldsAt start fetched raws)[n]? = some y) : y.state = ⟨start, fetched + n⟩ := by
  induction raws generalizing fetched n with
  | nil => cases h
  | cons raw rest ih =>
    cases n with
    | zero => rw [← Option.some.inj h]; rfl
    | succ n =>
      rw [ih h]
      congr 1
      omega

namespace Adapter

variable {ι : Type} {a : Adapter ι} {limit start fetched : Nat} {seen : List String}
  {items listing : List ι} {fails : Nat → Bool}

theorem page_eq (hbelow : a.limitFirst = true ∨ fetched < limit) :
    (a.page limit start items fetched seen).1 =
        yieldsAt start fetched ((firsts a.entry seen items).take (limit - fetched)) ∧
      (a.page limit start items fetched seen).2.1 =
        fetched + ((firsts a.entry seen items).take (limit - fetched)).length ∧
      ((firsts a.entry seen items).length < limit - fetched →
        (a.page limit start items fetched seen).2.2 = marked a.entry seen items) := by
  induction items generalizing fetched seen with
  | nil => exact ⟨by simp [page, firsts, yieldsAt], by simp [page, firsts], fun _ => rfl⟩
  | cons item rest ih =>
    rw [page, firsts, marked]
    by_cases hstop : a.limitFirst = true ∧ limit ≤ fetched
    · have hnone : limit - fetched = 0 := by omega
      rw [if_pos (by simpa using hstop), hnone]
      exact ⟨by simp [yieldsAt], by simp, fun h => absurd h (Nat.not_lt_zero _)⟩
    · rw [if_neg (by simpa using hstop)]
      have hlt : fetched < limit := by
        rcases hbelow with hfirst | hlt
        · exact Nat.lt_of_not_le fun h => hstop ⟨hfirst, h⟩
        · exact hlt
      cases hentry : a.entry item with
      | none => exact ih hbelow
      | some keyed =>
        obtain ⟨key, raw?⟩ := keyed
        by_cases hseen : key ∈ seen
        · simp only [hseen, if_true]
          exact ih hbelow
        · simp only [hseen, if_false]
          cases raw? with
          | none => exact ih hbelow
          | some raw =>
            obtain ⟨n, hn⟩ : ∃ n, limit - fetched = n + 1 := ⟨limit - fetched - 1, by omega⟩
            have hn' : limit - (fetched + 1) = n := by omega
            simp only [Option.toList_some, List.singleton_append, hn, List.take_succ_cons]
            by_cases hlast : a.limitFirst = false ∧ limit ≤ fetched + 1
            · have hzero : n = 0 := by omega
              rw [if_pos (by simpa using hlast), hzero]
              refine ⟨by simp [yieldsAt], by simp, fun h => ?_⟩
              rw [List.length_cons] at h
              omega
            · rw [if_neg (by simpa using hlast)]
              have hbelow' : a.limitFirst = true ∨ fetched + 1 < limit := by
                cases hfirst : a.limitFirst with
                | true => exact Or.inl rfl
                | false => exact Or.inr (Nat.lt_of_not_le fun h => hlast ⟨hfirst, h⟩)
              obtain ⟨hyields, hfetched, hmarked⟩ := @ih (fetched + 1) (key :: seen) hbelow'
              rw [hn'] at hyields hfetched hmarked
              refine ⟨?_, ?_, fun h => hmarked (Nat.lt_of_succ_lt_succ h)⟩
              · rw [hyields]
                rfl
              · rw [hfetched, List.length_cons]
                omega

theorem raws_pages (fuel : Nat) :
    (a.pages limit listing fails fuel start fetched seen).map Yield.raw =
      (firsts a.entry seen (a.reached listing fails fuel start)).take (limit - fetched) := by
  induction fuel generalizing start fetched seen with
  | zero => simp [pages, reached, firsts]
  | succ fuel ih =>
    rw [pages, reached]
    by_cases hlimit : limit ≤ fetched
    · have hnone : limit - fetched = 0 := by omega
      rw [if_pos hlimit, hnone]
      simp
    · rw [if_neg hlimit]
      by_cases hfails : fails start = true
      · rw [if_pos hfails, if_pos hfails]
        simp [firsts]
      · rw [if_neg hfails, if_neg hfails]
        cases a.parsed listing start with
        | nil => simp [firsts]
        | cons item rest =>
          obtain ⟨hyields, hfetched, hmarked⟩ :=
            @page_eq ι a limit start fetched seen (item :: rest) (Or.inr (Nat.lt_of_not_le hlimit))
          dsimp only
          split
          · rw [hyields, map_raw_yieldsAt]
          · rw [List.map_append, hyields, map_raw_yieldsAt, ih, hfetched, firsts_append]
            by_cases hcut : (firsts a.entry seen (item :: rest)).length < limit - fetched
            · rw [hmarked hcut, List.take_append, List.take_of_length_le (Nat.le_of_lt hcut)]
              congr 2
              omega
            · have hfull : ((firsts a.entry seen (item :: rest)).take (limit - fetched)).length =
                  limit - fetched := by
                rw [List.length_take]
                omega
              rw [hfull, List.take_append_of_le_length (by omega)]
              have hnone : limit - (fetched + (limit - fetched)) = 0 := by omega
              rw [hnone, List.take_zero, List.append_nil]

end Adapter

section Fields

variable {sep c old new : Char} {s : String} {fields : List String}

def joinOn (sep : Char) (fields : List String) : String :=
  (String.singleton sep).intercalate fields

theorem toList_joinOn : (joinOn sep fields).toList =
    [sep].intercalate (fields.map String.toList) := by
  unfold joinOn
  rw [String.toList_intercalate, String.toList_singleton]

theorem splitOn_joinOn_flatMap (h : fields ≠ []) :
    splitOn sep (joinOn sep fields) = fields.flatMap (splitOn sep) := by
  unfold splitOn
  rw [toList_joinOn]
  induction fields with
  | nil => exact absurd rfl h
  | cons f rest ih =>
    cases rest with
    | nil => simp
    | cons g rest =>
      rw [List.map_cons, List.map_cons, List.intercalate_cons_cons, List.append_assoc,
        List.singleton_append, List.splitOn_append_cons_self, List.map_append, List.flatMap_cons,
        ← ih (List.cons_ne_nil g rest), List.map_cons]

theorem splitOn_of_not_mem (h : sep ∉ s.toList) : splitOn sep s = [s] := by
  unfold splitOn
  rw [List.splitOn_eq_singleton h, List.map_singleton, String.ofList_toList]

theorem splitOn_ne_nil (sep : Char) (s : String) : splitOn sep s ≠ [] := by
  unfold splitOn
  rw [ne_eq, List.map_eq_nil_iff]
  exact List.splitOn_ne_nil sep s.toList

theorem not_mem_of_mem_list_splitOn {cs f : List Char} (hf : f ∈ cs.splitOn sep) : sep ∉ f := by
  induction cs generalizing f with
  | nil =>
    rw [List.splitOn_nil, List.mem_singleton] at hf
    rw [hf]
    exact List.not_mem_nil
  | cons c cs ih =>
    rw [List.splitOn_cons_eq_if_modifyHead] at hf
    split at hf
    · rcases List.mem_cons.mp hf with rfl | hf
      · exact List.not_mem_nil
      · exact ih hf
    · rename_i hc
      obtain ⟨g, rest, hsplit⟩ := List.exists_cons_of_ne_nil (List.splitOn_ne_nil sep cs)
      rw [hsplit, List.modifyHead_cons] at hf
      rcases List.mem_cons.mp hf with rfl | hf
      · rw [List.mem_cons, not_or]
        exact ⟨fun h => hc (beq_iff_eq.mpr h.symm), ih (hsplit ▸ List.mem_cons_self)⟩
      · exact ih (hsplit ▸ List.mem_cons_of_mem g hf)

theorem not_mem_of_mem_splitOn {f : String} (hf : f ∈ splitOn sep s) : sep ∉ f.toList := by
  obtain ⟨cs, hcs, rfl⟩ := List.mem_map.mp hf
  rw [String.toList_ofList]
  exact not_mem_of_mem_list_splitOn hcs

@[simp] theorem toList_replaceChar :
    (replaceChar old new s).toList = s.toList.map fun c => if c = old then new else c :=
  String.toList_ofList

@[simp] theorem toList_removeChar : (removeChar old s).toList = s.toList.filter fun c => c ≠ old :=
  String.toList_ofList

theorem removeChar_of_not_mem (h : old ∉ s.toList) : removeChar old s = s := by
  rw [← String.toList_inj, toList_removeChar, List.filter_eq_self]
  exact fun c hc => decide_eq_true fun heq => h (heq ▸ hc)

end Fields

end Sentora.Library
