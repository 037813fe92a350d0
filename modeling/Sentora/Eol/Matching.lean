import Mathlib.Algebra.Order.Ring.Rat
import Sentora.Agents.Summaries
import Sentora.Library.Adapters

/-!
# Matching of products

The mapping of apps to the products of endoflife.date (`run_eol_matching` of
`domains/eol/matching.py`): by name, by the patterns of library entries, and by the words
of the display name.
-/

namespace Sentora.Eol

open Library Agents

/-- The functions of `str`, and the digits of `\d`. -/
structure Python extends PyText where
  isDecimal : Char → Bool

def cpeToEolMap : List (String × String) :=
  [("google:chrome", "chrome"), ("mozilla:firefox", "firefox"), ("mozilla:firefox_esr", "firefox"),
    ("microsoft:edge", "microsoft-edge"), ("apple:safari", "safari"),
    ("opera:opera_browser", "opera"), ("microsoft:windows_10", "windows"),
    ("microsoft:windows_11", "windows"), ("microsoft:windows_server_2016", "windows-server"),
    ("microsoft:windows_server_2019", "windows-server"),
    ("microsoft:windows_server_2022", "windows-server"), ("apple:macos", "macos"),
    ("canonical:ubuntu_linux", "ubuntu"), ("redhat:enterprise_linux", "rhel"),
    ("centos:centos", "centos"), ("debian:debian_linux", "debian"),
    ("fedoraproject:fedora", "fedora"), ("suse:linux_enterprise_server", "sles"),
    ("microsoft:office", "office"), ("microsoft:365_apps", "office"),
    ("microsoft:outlook", "office"), ("microsoft:word", "office"), ("microsoft:excel", "office"),
    ("microsoft:powerpoint", "office"), ("libreoffice:libreoffice", "libreoffice"),
    ("python_software_foundation:python", "python"), ("oracle:java_se", "oracle-jdk"),
    ("oracle:jre", "oracle-jdk"), ("oracle:openjdk", "openjdk"), ("nodejs:node.js", "nodejs"),
    ("php:php", "php"), ("ruby-lang:ruby", "ruby"), ("golang:go", "go"), ("rust-lang:rust", "rust"),
    ("microsoft:.net", "dotnet"), ("microsoft:.net_framework", "dotnetfx"),
    ("microsoft:.net_core", "dotnet"), ("mysql:mysql", "mysql"),
    ("postgresql:postgresql", "postgresql"), ("mongodb:mongodb", "mongodb"),
    ("microsoft:sql_server", "mssqlserver"), ("oracle:database_server", "oracle-database"),
    ("mariadb:mariadb", "mariadb"), ("redis:redis", "redis"),
    ("adobe:acrobat_reader", "adobe-acrobat"), ("adobe:acrobat", "adobe-acrobat"),
    ("adobe:acrobat_reader_dc", "adobe-acrobat"), ("adobe:creative_cloud", "adobe-creative-cloud"),
    ("adobe:photoshop", "photoshop"), ("docker:docker", "docker-engine"), ("vmware:esxi", "esxi"),
    ("vmware:vcenter_server", "vcenter"), ("hashicorp:terraform", "terraform"),
    ("kubernetes:kubernetes", "kubernetes"), ("cisco:ios", "cisco-ios"),
    ("fortinet:fortios", "fortios"), ("paloaltonetworks:pan-os", "pan-os"),
    ("openssh:openssh", "openssh"), ("openssl:openssl", "openssl"),
    ("microsoft:visual_studio_code", "visual-studio-code"),
    ("microsoft:visual_studio", "visual-studio"), ("jetbrains:intellij_idea", "intellij-idea"),
    ("git:git", "git"), ("zoom:zoom", "zoom"), ("microsoft:teams", "microsoft-teams"),
    ("slack:slack", "slack"), ("7-zip:7-zip", "7-zip"), ("videolan:vlc_media_player", "vlc"),
    ("wireshark:wireshark", "wireshark"), ("filezilla:filezilla_client", "filezilla"),
    ("notepad-plus-plus:notepad\\+\\+", "notepad-plus-plus"), ("apple:iphone_os", "ios"),
    ("google:android", "android"), ("elastic:elasticsearch", "elasticsearch"),
    ("elastic:kibana", "kibana"), ("grafana:grafana", "grafana"), ("apache:http_server", "apache"),
    ("nginx:nginx", "nginx"), ("torvalds:linux_kernel", "linux")]

def nameToEolMap : List (String × String) :=
  [("google chrome", "chrome"), ("microsoft edge", "microsoft-edge"),
    ("mozilla firefox", "firefox"), ("mozilla firefox esr", "firefox"),
    ("python launcher", "python"), ("node.js", "nodejs"), ("go programming language", "go"),
    ("microsoft 365", "office"), ("microsoft office", "office"),
    ("microsoft visual studio code", "visual-studio-code"),
    ("microsoft visual studio", "visual-studio"), ("microsoft .net", "dotnet"),
    ("microsoft .net framework", "dotnetfx"), ("microsoft .net runtime", "dotnet"),
    ("microsoft asp.net", "dotnet"), ("microsoft windows desktop runtime", "dotnet"),
    ("microsoft teams", "microsoft-teams"), ("microsoft sql server", "mssqlserver"),
    ("adobe acrobat", "adobe-acrobat"), ("adobe acrobat reader", "adobe-acrobat"),
    ("adobe creative cloud", "adobe-creative-cloud"), ("java", "oracle-jdk"),
    ("oracle java", "oracle-jdk"), ("amazon corretto", "amazon-corretto"),
    ("eclipse temurin", "eclipse-temurin"), ("docker", "docker-engine"),
    ("ansible", "ansible-core"), ("vlc media player", "vlc"), ("notepad++", "notepad-plus-plus"),
    ("vmware tools", "vmware-tools"), ("vmware workstation", "vmware-workstation")]

def noiseWords : List String :=
  ["the", "for", "and", "with", "pro", "professional", "enterprise", "standard", "edition",
    "version", "update", "x64", "x86", "64-bit", "32-bit", "amd64", "arm64", "portable",
    "installer", "setup", "microsoft", "google", "apple", "adobe", "oracle", "ibm", "dell", "hp",
    "intel", "nvidia", "vmware", "cisco", "red", "hat"]

def hasProduct (products : Products) (id : String) : Bool := products.any fun p => p.1 == id

/-- `str.startswith`. -/
def startsWith (s start : String) : Bool := start.toList.isPrefixOf s.toList

def isPartOf (a b : String) : Bool := decide (a.toList <:+: b.toList)

abbrev Best := Option String × Nat

/-- `dict.update`. -/
def updated (base changes : List (String × String)) : List (String × String) :=
  base.map (fun entry => (entry.1, (changes.lookup entry.1).getD entry.2)) ++
    changes.filter fun entry => (base.lookup entry.1).isNone

def longestPrefix (normalizedName : String) (products : Products)
    (merged : List (String × String)) : Best :=
  merged.foldl (fun best entry =>
    if best.2 < entry.1.length && startsWith normalizedName entry.1 && hasProduct products entry.2
    then (some entry.2, entry.1.length) else best) (none, 0)

def longestSlug (normalizedName : String) (products : Products) (best : Best) : Best :=
  products.foldl (fun best product =>
    let slug := product.1
    if 4 ≤ slug.length && decide (best.2 < slug.length) &&
        (normalizedName == slug || startsWith normalizedName (slug ++ " ") ||
          startsWith normalizedName (slug ++ "-"))
    then (some slug, slug.length) else best) best

def directNameMatch (normalizedName : String) (products : Products)
    (userMappings : List (String × String)) : Option String :=
  let merged := updated nameToEolMap userMappings
  match (merged.lookup normalizedName).filter (hasProduct products) with
  | some id => some id
  | none =>
    let best := longestPrefix normalizedName products merged
    match best.1.filter (· ≠ "") with
    | some id => some id
    | none => (longestSlug normalizedName products best).1

/-- `str.strip("*")`. -/
def stripStars (s : String) : String :=
  String.ofList (((s.toList.dropWhile (· == '*')).reverse.dropWhile (· == '*')).reverse)

/-- `str.partition(":")`, unless the vendor or the product is empty. -/
def vendorProduct (upstreamId : String) : Option (String × String) :=
  let vendor := upstreamId.toList.takeWhile (· ≠ ':')
  match upstreamId.toList.drop vendor.length with
  | _ :: product =>
    if vendor.isEmpty || product.isEmpty then none
    else some (String.ofList vendor, String.ofList product)
  | [] => none

/-- `cpe_map`, with each pattern where it was first. -/
def cpeMap (py : Python) (entries : List LibraryEntry) : List (String × String × String) :=
  let found := entries.flatMap fun entry =>
    match vendorProduct (entry.upstreamId.getD "") with
    | some cpe =>
      if entry.source = .nistCpe then
        (entry.markers.map fun marker => (stripStars (py.lower marker.pattern), cpe)).filter
          fun p => 2 < p.1.length
      else []
    | none => []
  (Lib.firstKeys (found.map Prod.fst)).filterMap fun pattern =>
    (found.reverse.lookup pattern).map fun cpe => (pattern, cpe)

def cpeToEolProduct (py : Python) (vendor product : String) : Option String :=
  cpeToEolMap.lookup (py.lower vendor ++ ":" ++ py.lower product)

/-- `re.sub(r"\d+(\.\d+)+", "", …)`. -/
def removeVersions (py : Python) : Nat → List Char → List Char
  | fuel + 1, c :: rest =>
    let part := digits py.isDecimal (c :: rest)
    let more := moreParts py.isDecimal rest.length ((c :: rest).drop part.length)
    if part.isEmpty then c :: removeVersions py fuel rest
    else if more.isEmpty then part ++ removeVersions py fuel ((c :: rest).drop part.length)
    else
      removeVersions py fuel
        ((c :: rest).drop (part.length + (more.map fun p => p.length + 1).sum))
  | _, _ => []

/-- `re.sub(r"\([^)]*\)", "", …)`. -/
def removeParentheses : Nat → List Char → List Char
  | fuel + 1, c :: rest =>
    let inner := rest.takeWhile (· ≠ ')')
    if c = '(' ∧ inner.length < rest.length then
      removeParentheses fuel (rest.drop (inner.length + 1))
    else c :: removeParentheses fuel rest
  | _, _ => []

/-- The words of `_normalize_for_fuzzy`. -/
def fuzzyWords (py : Python) (name : String) : List String :=
  let cleaned := removeVersions py name.length name.toList
  let cleaned := removeParentheses cleaned.length cleaned
  (py.splitWords (py.lower (String.ofList cleaned))).filter fun word =>
    !noiseWords.contains word && decide (1 < word.length)

def fuzzyScore (py : Python) (appWords : List String) (product : String × String) : Option Rat :=
  let normalized := " ".intercalate appWords
  let slug := py.lower (replaceChar '_' ' ' (replaceChar '-' ' ' product.1))
  if slug.length ≤ 3 then if appWords.contains slug then some (13 / 20) else none
  else if isPartOf slug normalized || isPartOf normalized slug then some (7 / 10)
  else
    let productWords := (fuzzyWords py product.2).dedup
    let overlap := (productWords.filter appWords.contains).length
    if overlap = 0 then none else some (min (overlap / productWords.length) (13 / 20))

def fuzzyMatchProduct (py : Python) (appName : String) (products : List (String × String)) :
    Option (String × Rat) :=
  let appWords := fuzzyWords py appName
  if appWords.isEmpty then none
  else
    let best := products.foldl (fun (best : Option (String × Rat)) product =>
      match fuzzyScore py appWords product with
      | none => best
      | some score =>
        if (best.map Prod.snd).getD 0 < score then some (product.1, score) else best) none
    best.filter fun found => found.1 ≠ "" ∧ 2 / 5 ≤ found.2

/-- What a run reads besides the summaries. -/
structure MatchingData where
  eolProducts : Products
  userMappings : List (String × String) := []
  productDocs : List ProductDoc := []
  libraryEntries : List LibraryEntry := []

/-- `{doc["product_id"]: doc.get("name", …)}`. -/
def productNames (docs : List ProductDoc) : List (String × String) :=
  docs.map fun doc => (doc.productId, doc.name.getD doc.productId)

def cpeMatch (py : Python) (data : MatchingData) (normalizedName : String) : Option String :=
  (cpeMap py data.libraryEntries).findSome? fun (pattern, vendor, product) =>
    if isPartOf pattern normalizedName || isPartOf normalizedName pattern then
      (cpeToEolProduct py vendor product).filter fun id =>
        id ≠ "" && hasProduct data.eolProducts id
    else none

def matchApp (py : Python) (data : MatchingData) (d : AppSummary) : Option EolMatchDoc :=
  match (directNameMatch d.normalizedName data.eolProducts data.userMappings).filter (· ≠ "") with
  | some id => some { eolProductId := id, matchSource := .cpe, matchConfidence := 19 / 20 }
  | none =>
    match cpeMatch py data d.normalizedName with
    | some id => some { eolProductId := id, matchSource := .cpe, matchConfidence := 9 / 10 }
    | none =>
      match fuzzyMatchProduct py d.displayName (productNames data.productDocs) with
      | some (id, confidence) =>
        if hasProduct data.eolProducts id then
          some { eolProductId := id, matchSource := .fuzzy, matchConfidence := confidence }
        else none
      | none => none

def covers (deltaOnly : Bool) (changedAppNames : List String) (normalizedName : String) : Bool :=
  if deltaOnly && !changedAppNames.isEmpty then changedAppNames.contains normalizedName else true

theorem of_matchApp {py : Python} {data : MatchingData} {d : AppSummary} {m : EolMatchDoc}
    (h : matchApp py data d = some m) :
    m.matchSource ≠ .manual ∧ m.isEol = none ∧ m.matchedCycle = none := by
  unfold matchApp at h
  split at h
  · rw [← Option.some.inj h]
    exact ⟨nofun, rfl, rfl⟩
  · split at h
    · rw [← Option.some.inj h]
      exact ⟨nofun, rfl, rfl⟩
    · split at h
      · split at h
        · rw [← Option.some.inj h]
          exact ⟨nofun, rfl, rfl⟩
        · cases h
      · cases h

end Sentora.Eol
