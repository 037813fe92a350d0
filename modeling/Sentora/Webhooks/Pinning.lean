import Mathlib.Data.Bool.AllAny
import Sentora.Lib.Urls

/-!
# Pinned URLs

`resolve_and_validate` of `utils/ssrf.py`, which accepts the URL of a webhook and returns an
address of its host, and `_build_pinned_url` of `domains/webhooks/service.py`, which puts that
address into the URL.  The names are resolved elsewhere.
-/

namespace Sentora.Webhooks

open Lib Addresses Urls

def blockedHosts : List String :=
  ["localhost", "127.0.0.1", "::1", "0.0.0.0", "metadata.google.internal"]

inductive UrlError where
  /-- The URL or an address of its host cannot be parsed. -/
  | invalid
  | unresolved
  | blocked (message : String)
deriving DecidableEq

structure AddressKinds where
  isPrivate : IpAddress → Bool
  isLoopback : IpAddress → Bool
  isLinkLocal : IpAddress → Bool
  isReserved : IpAddress → Bool

section Checks

variable (u : UrlData) (kinds : AddressKinds)
  (getaddrinfo : List Char → Except UrlError (List (List Char)))

def checkAddresses : Option (List Char) → List (List Char) → Except UrlError (Option (List Char))
  | safeIp, [] => .ok safeIp
  | safeIp, info :: addrs =>
    match ipAddress info with
    | none => .error .invalid
    | some addr =>
      if kinds.isPrivate addr || kinds.isLoopback addr || kinds.isLinkLocal addr ||
          kinds.isReserved addr then
        .error (.blocked
          ("Delivery blocked: resolves to internal IP (" ++ String.ofList addr.text ++ ")"))
      else checkAddresses (safeIp.or (some addr.text)) addrs

def resolveAndValidate (url : List Char) : Except UrlError (List Char) := do
  let some parsed := urlparse u url | throw .invalid
  if parsed.scheme ∉ ["http".toList, "https".toList] then
    throw (.blocked ("URL scheme '" ++ String.ofList parsed.scheme ++
      "' is not allowed — only http and https"))
  let host := (hostname u parsed.toSplitResult).getD []
  if host = [] then throw (.blocked "No hostname in URL")
  if String.ofList (u.lowerText host) ∈ blockedHosts then
    throw (.blocked ("Delivery blocked: internal host " ++ String.ofList host))
  let addrs ← getaddrinfo host
  match ← checkAddresses kinds none addrs with
  | some safeIp => return safeIp
  | none =>
    throw (.blocked ("DNS resolution returned no addresses for " ++ String.ofList host))

end Checks

structure Pinned where
  url : List Char
  hostHeader : List Char
deriving DecidableEq

def showsPort (scheme : List Char) (port : Nat) : Bool :=
  port ≠ 0 && !((scheme = "http".toList && port = 80) || (scheme = "https".toList && port = 443))

/-- `none` where a `ValueError` is raised. -/
def buildPinnedUrl (u : UrlData) (originalUrl resolvedIp : List Char) : Option Pinned := do
  let parsed ← urlparse u originalUrl
  let originalHostname := (hostname u parsed.toSplitResult).getD []
  let port ← port parsed.toSplitResult
  let (hostHeader, netloc) :=
    match port.filter (showsPort parsed.scheme) with
    | some port =>
      (originalHostname ++ ':' :: Nat.toDigits 10 port, resolvedIp ++ ':' :: Nat.toDigits 10 port)
    | none => (originalHostname, resolvedIp)
  return ⟨urlunparse { parsed with netloc := netloc }, hostHeader⟩

def defaultPort (scheme : List Char) : Nat := if scheme = "https".toList then 443 else 80

def effectivePort (s : SplitResult) : Option Nat :=
  (port s).map fun port => port.getD (defaultPort s.scheme)

def isIPv6Literal (host : List Char) : Bool :=
  match ipAddress host with
  | some (.v6 _) => true
  | _ => false

def hostHeaderOf (u : UrlData) (s : SplitResult) : Option (List Char) := do
  let host ← hostname u s
  let port ← effectivePort s
  return (if isIPv6Literal host then '[' :: host ++ [']'] else host) ++
    if port = defaultPort s.scheme then [] else ':' :: Nat.toDigits 10 port

/-- The URL is another one's with its host replaced. -/
structure OnlyHostChanged (u : UrlData) (ip : List Char) (parsed back : ParseResult) : Prop where
  scheme : back.scheme = parsed.scheme
  host : hostname u back.toSplitResult = some ip
  port : effectivePort back.toSplitResult = effectivePort parsed.toSplitResult
  path : back.path = parsed.path
  params : back.params = parsed.params
  query : back.query = parsed.query
  fragment : back.fragment = parsed.fragment

/-- The pinned URL changes the address only, and its request names the host of the original. -/
def PinsOnlyAddress (u : UrlData) (url ip : List Char) : Prop :=
  ∃ parsed pinned back, urlparse u url = some parsed ∧ buildPinnedUrl u url ip = some pinned ∧
    urlparse u pinned.url = some back ∧ OnlyHostChanged u ip parsed back ∧
    hostHeaderOf u parsed.toSplitResult = some pinned.hostHeader

/-- An address of version 4, a host that is none of version 6, and no port but a number other than
zero. -/
structure Pinnable (u : UrlData) (url ip : List Char) : Prop where
  ipv4 : ∃ a : IPv4Address, ip = a.text
  host : ∀ parsed host, urlparse u url = some parsed →
    hostname u parsed.toSplitResult = some host → isIPv6Literal host = false
  port : ∀ parsed, urlparse u url = some parsed →
    ∃ p, Urls.port parsed.toSplitResult = some p ∧ p ≠ some 0

section Accepted

variable {u : UrlData} {kinds : AddressKinds}
  {getaddrinfo : List Char → Except UrlError (List (List Char))} {url ip : List Char}

theorem text_of_checkAddresses {safeIp found : Option (List Char)} {addrs : List (List Char)}
    (hsafe : ∀ t ∈ safeIp, ∃ a : IpAddress, t = a.text)
    (h : checkAddresses kinds safeIp addrs = .ok found) :
    ∀ t ∈ found, ∃ a : IpAddress, t = a.text := by
  induction addrs generalizing safeIp with
  | nil =>
    cases h
    exact hsafe
  | cons info addrs ih =>
    rw [checkAddresses] at h
    split at h
    · cases h
    · rename_i addr _
      split at h
      · cases h
      · refine ih (fun t ht => ?_) h
        cases safeIp with
        | none => exact ⟨addr, (Option.some.inj ht).symm⟩
        | some t' => exact hsafe t ht

theorem accepted (h : resolveAndValidate u kinds getaddrinfo url = .ok ip) :
    ∃ parsed host, urlparse u url = some parsed ∧
      (parsed.scheme = "http".toList ∨ parsed.scheme = "https".toList) ∧
      hostname u parsed.toSplitResult = some host ∧ ∃ a : IpAddress, ip = a.text := by
  rw [resolveAndValidate] at h
  split at h
  · rename_i parsed hparsed
    dsimp only [bind, pure, Except.bind, Except.pure] at h
    split at h
    · cases h
    · rename_i hscheme
      split at h
      · cases h
      · rename_i hne
        split at h
        · cases h
        · refine ⟨parsed, (hostname u parsed.toSplitResult).getD [], hparsed, ?_, ?_, ?_⟩
          · have hmem := not_not.mp hscheme
            rwa [List.mem_cons, List.mem_singleton] at hmem
          · cases hhost : hostname u parsed.toSplitResult with
            | none => exact absurd (by rw [hhost]; rfl) hne
            | some host => rfl
          · split at h
            · cases h
            · split at h
              · cases h
              · rename_i found hfound
                split at h
                · rename_i safeIp
                  cases h
                  exact text_of_checkAddresses (fun t ht => absurd ht (Option.not_mem_none t))
                    hfound ip rfl
                · cases h
  · cases h

end Accepted

section Pin

variable {u : UrlData} {url ip host : List Char} {parsed : ParseResult} {port : Option Nat}
variable {scheme : List Char} {a : IPv4Address} {s : SplitResult} {c : Char}

def portText (scheme : List Char) (port : Option Nat) : List Char :=
  ((port.filter (showsPort scheme)).map (Nat.toDigits 10)).getD []

theorem buildPinnedUrl_eq (hparsed : urlparse u url = some parsed)
    (hhost : hostname u parsed.toSplitResult = some host)
    (hport : Urls.port parsed.toSplitResult = some port) :
    buildPinnedUrl u url ip = some
      ⟨urlunparse { parsed with netloc := joinWith ':' ip (portText parsed.scheme port) },
        joinWith ':' host (portText parsed.scheme port)⟩ := by
  rw [buildPinnedUrl, hparsed, Option.bind_eq_bind, Option.bind_some, hhost, hport]
  dsimp only [bind, Option.bind]
  rw [portText]
  cases port.filter (showsPort parsed.scheme) with
  | none => rfl
  | some n =>
    dsimp only [Option.map, Option.getD]
    rw [joinWith, joinWith, if_neg Nat.toDigits_ne_nil, if_neg Nat.toDigits_ne_nil]
    rfl

theorem port_of_buildPinnedUrl {pinned : Pinned} (h : buildPinnedUrl u url ip = some pinned)
    (hparsed : urlparse u url = some parsed) :
    ∃ port, Urls.port parsed.toSplitResult = some port := by
  rw [buildPinnedUrl, hparsed, Option.bind_eq_bind, Option.bind_some] at h
  cases hport : Urls.port parsed.toSplitResult with
  | none =>
    rw [hport] at h
    cases h
  | some port => exact ⟨port, rfl⟩

theorem isDigit_of_mem_portText (hc : c ∈ portText scheme port) :
    c.isDigit = true := by
  rw [portText] at hc
  cases hshown : port.filter (showsPort scheme) with
  | none =>
    rw [hshown] at hc
    cases hc
  | some n =>
    rw [hshown] at hc
    exact Nat.isDigit_of_mem_toDigits (by decide) (by decide) hc

theorem isScheme (hu : LowersAscii u.toCasing)
    (h : scheme = "http".toList ∨ scheme = "https".toList) : IsScheme u scheme := by
  rcases h with rfl | rfl
  all_goals
    exact ⟨by decide, fun c hc => by cases hc; decide, List.all_eq_true.mp (by decide),
      lowerText_eq_self hu (List.all_iff_forall_prop.mp (by decide))⟩

theorem defaultPort_ne_zero (scheme : List Char) : defaultPort scheme ≠ 0 := by
  rw [defaultPort]
  split
  all_goals decide

theorem showsPort_iff {n : Nat}
    (hscheme : scheme = "http".toList ∨ scheme = "https".toList) :
    showsPort scheme n = true ↔ n ≠ 0 ∧ n ≠ defaultPort scheme := by
  rcases hscheme with rfl | rfl
  all_goals simp [showsPort, defaultPort]

theorem getD_filter_showsPort
    (hscheme : scheme = "http".toList ∨ scheme = "https".toList) :
    (port.filter (showsPort scheme)).getD (defaultPort scheme) = port.getD (defaultPort scheme) ↔
      port ≠ some 0 := by
  cases port with
  | none => exact ⟨fun _ h => (nomatch h), fun _ => rfl⟩
  | some n =>
    have hdefault := defaultPort_ne_zero scheme
    have hshows := showsPort_iff (n := n) hscheme
    rw [ne_eq, Option.some.injEq, Option.filter_some]
    by_cases h : showsPort scheme n = true
    · rw [if_pos h]
      exact ⟨fun _ => (hshows.mp h).1, fun _ => rfl⟩
    · rw [if_neg h, Option.getD_none, Option.getD_some]
      rw [hshows] at h
      omega

theorem joinWith_portText
    (hscheme : scheme = "http".toList ∨ scheme = "https".toList) (hzero : port ≠ some 0) :
    joinWith ':' host (portText scheme port) = host ++
      if port.getD (defaultPort scheme) = defaultPort scheme then []
      else ':' :: Nat.toDigits 10 (port.getD (defaultPort scheme)) := by
  rw [portText, joinWith]
  cases port with
  | none => simp
  | some n =>
    have hshows := showsPort_iff (n := n) hscheme
    rw [ne_eq, Option.some.injEq] at hzero
    rw [Option.filter_some, Option.getD_some]
    by_cases h : showsPort scheme n = true
    · rw [if_pos h, Option.map_some, Option.getD_some, if_neg Nat.toDigits_ne_nil,
        if_neg (hshows.mp h).2]
    · have hn : n = defaultPort scheme := not_not.mp fun hn => h (hshows.mpr ⟨hzero, hn⟩)
      rw [if_neg h, Option.map_none, Option.getD_none, if_pos rfl, if_pos hn, List.append_nil]

/-- A character of an authority of four numbers and a port. -/
theorem plain_of_digit (hc : c.isDigit = true ∨ c = '.' ∨ c = ':') :
    (isDelimiter c = false ∧ isUnsafe c = false) ∧ (c.toNat < 128 ∧ c ≠ '[' ∧ c ≠ ']') ∧
      c.toLower = c ∧ c ≠ '@' ∧ c ≠ '%' := by
  have hall : ∀ n ≤ 58, n = 46 ∨ 48 ≤ n → ∀ c, c = Char.ofNat n →
      (isDelimiter c = false ∧ isUnsafe c = false) ∧ (c.toNat < 128 ∧ c ≠ '[' ∧ c ≠ ']') ∧
        c.toLower = c ∧ c ≠ '@' ∧ c ≠ '%' := by
    intro n hle hn c hc
    subst hc
    revert n
    decide
  have hcode : c.toNat ≤ 58 ∧ (c.toNat = 46 ∨ 48 ≤ c.toNat) := by
    rcases hc with hc | rfl | rfl
    · have hrange := Char.isDigit_iff_toNat.mp hc
      have hzero : '0'.toNat = 48 := rfl
      have hnine : '9'.toNat = 57 := rfl
      omega
    · decide
    · decide
  exact hall c.toNat hcode.1 hcode.2 c (Char.ofNat_toNat c).symm

theorem mem_netloc
    (hc : c ∈ joinWith ':' a.text (portText scheme port)) :
    c.isDigit = true ∨ c = '.' ∨ c = ':' := by
  rcases mem_joinWith hc with hc | hc | hc
  · exact (IPv4Address.mem_text hc).imp_right Or.inl
  · exact Or.inr (Or.inr hc)
  · exact Or.inl (isDigit_of_mem_portText hc)

theorem urlparse_pinned (hu : LowersAscii u.toCasing)
    (hscheme : parsed.scheme = "http".toList ∨ parsed.scheme = "https".toList)
    (hparts : Separated parsed) :
    let back := { parsed with netloc := joinWith ':' a.text (portText parsed.scheme port) }
    urlparse u (urlunparse back) = some back := by
  intro back
  apply urlparse_urlunparse (r := back) (isScheme hu hscheme)
  · exact joinWith_ne_nil a.text_ne_nil
  · exact fun c hc => (plain_of_digit (mem_netloc hc)).1
  · exact acceptsNetloc_of_ascii fun c hc => (plain_of_digit (mem_netloc hc)).2.1
  · exact ⟨hparts.safe, hparts.hash, hparts.question, hparts.params, hparts.path⟩

theorem hostInfo_ipv4
    (hnetloc : s.netloc = joinWith ':' a.text (portText s.scheme port)) :
    hostInfo s.netloc = (a.text, portText s.scheme port) := by
  rw [hnetloc]
  refine hostInfo_joinWith (fun c hc => ?_) fun c hc => isDigit_of_mem_portText hc
  have hchar := IPv4Address.mem_text hc
  have hplain := plain_of_digit (hchar.imp_right Or.inl)
  refine ⟨hplain.2.2.2.1, hplain.2.1.2.1, ?_⟩
  rintro rfl
  exact absurd hchar (by decide)

variable (port) in
theorem hostname_pinned (hu : LowersAscii u.toCasing)
    (hnetloc : s.netloc = joinWith ':' a.text (portText s.scheme port)) :
    hostname u s = some a.text := by
  have hplain := fun c (hc : c ∈ a.text) =>
    plain_of_digit ((IPv4Address.mem_text hc).imp_right Or.inl)
  have hpercent : '%' ∉ a.text := fun h => (hplain _ h).2.2.2.2 rfl
  rw [hostname, hostInfo_ipv4 hnetloc, if_neg a.text_ne_nil, upToFirst_of_not_mem hpercent,
    if_neg hpercent, List.append_nil,
    lowerText_eq_self hu fun c hc => ⟨(hplain c hc).2.1.1, (hplain c hc).2.2.1⟩]

theorem port_pinned (hport : ∀ n ∈ port, n ≤ 65535)
    (hnetloc : s.netloc = joinWith ':' a.text (portText s.scheme port)) :
    Urls.port s = some (port.filter (showsPort s.scheme)) := by
  have hdigits : (portText s.scheme port).all Char.isDigit = true :=
    List.all_eq_true.mpr fun c hc => isDigit_of_mem_portText hc
  rw [Urls.port, hostInfo_ipv4 hnetloc]
  dsimp only
  cases hshown : port.filter (showsPort s.scheme) with
  | none =>
    rw [portText, hshown]
    rfl
  | some n =>
    have htext : portText s.scheme port = Nat.toDigits 10 n := by
      rw [portText, hshown]
      rfl
    have hmem : n ∈ port := (Option.filter_eq_some_iff.mp hshown).1
    rw [if_pos hdigits, htext, if_neg Nat.toDigits_ne_nil, Nat.ofDigitChars_ten_toDigits,
      if_pos (hport n hmem)]

theorem effectivePort_pinned
    (hscheme : parsed.scheme = "http".toList ∨ parsed.scheme = "https".toList)
    (hport : Urls.port parsed.toSplitResult = some port) :
    effectivePort { parsed.toSplitResult with
        netloc := joinWith ':' a.text (portText parsed.scheme port) } =
      effectivePort parsed.toSplitResult ↔ port ≠ some 0 := by
  have hle : ∀ n ∈ port, n ≤ 65535 := fun n hn => le_of_port (hport.trans (congrArg some hn))
  rw [effectivePort, effectivePort, port_pinned (a := a) hle rfl, hport, Option.map_some,
    Option.map_some, Option.some.injEq]
  exact getD_filter_showsPort hscheme

theorem hostHeaderOf_eq_iff
    (hscheme : parsed.scheme = "http".toList ∨ parsed.scheme = "https".toList)
    (hhost : hostname u parsed.toSplitResult = some host)
    (hport : Urls.port parsed.toSplitResult = some port) (hzero : port ≠ some 0) :
    hostHeaderOf u parsed.toSplitResult =
      some (joinWith ':' host (portText parsed.scheme port)) ↔ isIPv6Literal host = false := by
  have hvalue : hostHeaderOf u parsed.toSplitResult =
      some ((if isIPv6Literal host then '[' :: host ++ [']'] else host) ++
        if port.getD (defaultPort parsed.scheme) = defaultPort parsed.scheme then []
        else ':' :: Nat.toDigits 10 (port.getD (defaultPort parsed.scheme))) := by
    rw [hostHeaderOf, hhost, effectivePort, hport]
    rfl
  rw [hvalue, joinWith_portText hscheme hzero, Option.some.injEq, List.append_cancel_right_eq]
  cases isIPv6Literal host with
  | false => exact ⟨fun _ => rfl, fun _ => rfl⟩
  | true =>
    refine ⟨fun h => ?_, fun h => nomatch h⟩
    have hlength := congrArg List.length h
    rw [if_pos rfl, List.length_append, List.length_cons, List.length_singleton] at hlength
    omega

theorem plain_of_isAddressChar (hc : IsAddressChar c) :
    isDelimiter c = false ∧ isUnsafe c = false ∧ c ≠ '[' := by
  rcases hc with rfl | ⟨d, hd, rfl⟩
  · decide
  · revert d
    decide

theorem hostname_ne_of_ipv6 {a : IPv6Address} {back : ParseResult} (hu : LowersAscii u.toCasing)
    (hscheme : parsed.scheme = "http".toList ∨ parsed.scheme = "https".toList)
    (hparts : Separated parsed)
    (hback : urlparse u (urlunparse { parsed with
      netloc := joinWith ':' a.text (portText parsed.scheme port) }) = some back) :
    hostname u back.toSplitResult ≠ some a.text := by
  intro hhost
  let q := { parsed with netloc := joinWith ':' a.text (portText parsed.scheme port) }
  have hq : Separated q :=
    ⟨hparts.safe, hparts.hash, hparts.question, hparts.params, hparts.path⟩
  have hqscheme : IsScheme u q.scheme := isScheme hu hscheme
  obtain ⟨c, rest, htext, hc⟩ := a.exists_cons_text
  have hne : q.netloc ≠ [] := joinWith_ne_nil (List.ne_nil_of_mem a.colon_mem_text)
  have hurl : urlparse u (urlunparse q) = some back := hback
  rw [urlunparse_eq hqscheme.ne_nil hne hq] at hurl
  obtain ⟨hnetloc, haccepts⟩ := netloc_of_urlparse hqscheme hurl
  have huser : '@' ∉ back.netloc := by
    intro hmem
    have htextmem : '@' ∈ a.text := by
      have hmem := mem_netloc_of_mem hq (hnetloc ▸ hmem)
      rcases mem_joinWith hmem with hmem | hmem | hmem
      · exact hmem
      · exact absurd hmem (by decide)
      · exact absurd (isDigit_of_mem_portText hmem) (by decide)
    exact not_mem_afterLast
      (mem_of_mem_hostInfo (mem_of_mem_hostname hu (Or.inr rfl) hhost htextmem))
  have hcolon := mem_of_mem_hostname hu (Or.inl rfl) hhost a.colon_mem_text
  have hbracket := head?_of_colon_mem haccepts huser hcolon
  have hfirst : back.netloc.head? = some c := by
    have hplain := plain_of_isAddressChar hc
    have hcons : q.netloc ++ behind q =
        c :: (rest ++ (joinWith ':' [] (portText parsed.scheme port) ++ behind q)) := by
      show joinWith ':' a.text (portText parsed.scheme port) ++ behind q = _
      rw [joinWith_eq_append, htext, List.append_assoc, List.cons_append]
    rw [hnetloc, hcons]
    exact head?_authority ⟨hplain.1, hplain.2.1⟩
  exact (plain_of_isAddressChar hc).2.2 (Option.some.inj (hfirst.symm.trans hbracket))

end Pin

section Pinning

variable {u : UrlData} {kinds : AddressKinds}
  {getaddrinfo : List Char → Except UrlError (List (List Char))} {url ip : List Char}

theorem pinsOnlyAddress_iff (hu : LowersAscii u.toCasing)
    (h : resolveAndValidate u kinds getaddrinfo url = .ok ip) :
    PinsOnlyAddress u url ip ↔ Pinnable u url ip := by
  obtain ⟨parsed, host, hparsed, hscheme, hhost, addr, rfl⟩ := accepted h
  have hparts := separated_of_urlparse hparsed (netloc_ne_nil_of_hostname hhost)
  cases addr with
  | v6 a =>
    constructor
    · rintro ⟨parsed', pinned, back, hparsed', hbuild, hback, hchanged, -⟩
      obtain rfl := Option.some.inj (hparsed.symm.trans hparsed')
      obtain ⟨port, hport⟩ := port_of_buildPinnedUrl hbuild hparsed
      obtain rfl := Option.some.inj ((buildPinnedUrl_eq hparsed hhost hport).symm.trans hbuild)
      exact absurd hchanged.host (hostname_ne_of_ipv6 hu hscheme hparts hback)
    · rintro ⟨⟨b, hb⟩, -, -⟩
      have hcolon : ':' ∈ b.text := hb ▸ a.colon_mem_text
      exact absurd (IPv4Address.mem_text hcolon) (by decide)
  | v4 a =>
    constructor
    · rintro ⟨parsed', pinned, back, hparsed', hbuild, hback, hchanged, hheader⟩
      obtain rfl := Option.some.inj (hparsed.symm.trans hparsed')
      obtain ⟨port, hport⟩ := port_of_buildPinnedUrl hbuild hparsed
      obtain rfl := Option.some.inj ((buildPinnedUrl_eq hparsed hhost hport).symm.trans hbuild)
      obtain rfl := Option.some.inj ((urlparse_pinned hu hscheme hparts).symm.trans hback)
      have hzero := (effectivePort_pinned hscheme hport).mp hchanged.port
      have hliteral := (hostHeaderOf_eq_iff hscheme hhost hport hzero).mp hheader
      refine ⟨⟨a, rfl⟩, fun parsed' host' hparsed' hhost' => ?_, fun parsed' hparsed' => ?_⟩
      · obtain rfl := Option.some.inj (hparsed.symm.trans hparsed')
        obtain rfl := Option.some.inj (hhost.symm.trans hhost')
        exact hliteral
      · obtain rfl := Option.some.inj (hparsed.symm.trans hparsed')
        exact ⟨port, hport, hzero⟩
    · rintro ⟨-, hliteral, hport⟩
      obtain ⟨port, hport, hzero⟩ := hport parsed hparsed
      refine ⟨parsed, _, _, hparsed, buildPinnedUrl_eq hparsed hhost hport,
        urlparse_pinned hu hscheme hparts, ⟨rfl, hostname_pinned port hu rfl, ?_, rfl, rfl,
          rfl, rfl⟩, ?_⟩
      · exact (effectivePort_pinned hscheme hport).mpr hzero
      · exact (hostHeaderOf_eq_iff hscheme hhost hport hzero).mpr
          (hliteral parsed host hparsed hhost)

def asciiData : UrlData where
  cased := Char.isAlpha
  ignorable _ := false
  lowerChar c := [c.toLower]
  nfkc s := s

theorem asciiData_lowers : LowersAscii asciiData.toCasing := by
  refine ⟨fun _ _ => rfl, fun c d hd hmark => ?_⟩
  obtain rfl := List.mem_singleton.mp hd
  by_cases hc : c.val ≥ 'A'.val ∧ c.val ≤ 'Z'.val
  · have hletters : ∀ n ≤ 90, (Char.ofNat n).toLower = ':' ∨ (Char.ofNat n).toLower = '@' →
        Char.ofNat n = (Char.ofNat n).toLower := by decide +kernel
    have hle : c.toNat ≤ 90 := hc.2
    have hletter := hletters c.toNat hle
    rw [Char.ofNat_toNat] at hletter
    exact hletter hmark
  · unfold Char.toLower
    rw [dif_neg hc]

def publicOnly : AddressKinds where
  isPrivate _ := false
  isLoopback _ := false
  isLinkLocal _ := false
  isReserved _ := false

theorem pinsOnlyAddress_iff_port :
    PinsOnlyAddress asciiData "http://me@Example.com:8080/hook;v=1?to=x#top".toList
      "93.184.216.34".toList := by
  have hurl : urlparse asciiData "http://me@Example.com:8080/hook;v=1?to=x#top".toList = some
      ⟨⟨"http".toList, "me@Example.com:8080".toList, "/hook".toList, "to=x".toList, "top".toList⟩,
        "v=1".toList⟩ := by decide
  have haccepted : resolveAndValidate asciiData publicOnly
      (fun _ => .ok ["93.184.216.34".toList])
        "http://me@Example.com:8080/hook;v=1?to=x#top".toList =
      .ok "93.184.216.34".toList := by decide
  refine (pinsOnlyAddress_iff asciiData_lowers haccepted).mpr
    ⟨⟨⟨[93, 184, 216, 34], rfl⟩, by decide⟩, fun parsed host hparsed hhost => ?_,
      fun parsed hparsed => ?_⟩
  · obtain rfl := Option.some.inj (hurl.symm.trans hparsed)
    obtain rfl : "example.com".toList = host := Option.some.inj (Eq.trans (by decide) hhost)
    decide
  · obtain rfl := Option.some.inj (hurl.symm.trans hparsed)
    exact ⟨some 8080, by decide, by decide⟩

/-- The address is not put in brackets, and what is read as the host is its first part. -/
theorem ipv6_address_unbracketed :
    resolveAndValidate asciiData publicOnly
        (fun _ => .ok ["2606:2800:220:1:248:1893:25c8:1946".toList])
        "https://example.com/hook".toList =
      .ok "2606:2800:220:1:248:1893:25c8:1946".toList ∧
    ¬PinsOnlyAddress asciiData "https://example.com/hook".toList
      "2606:2800:220:1:248:1893:25c8:1946".toList := by
  refine ⟨by decide, ?_⟩
  rintro ⟨parsed, pinned, back, -, hpinned, hback, hchanged, -⟩
  have hurl : buildPinnedUrl asciiData "https://example.com/hook".toList
      "2606:2800:220:1:248:1893:25c8:1946".toList =
      some ⟨"https://2606:2800:220:1:248:1893:25c8:1946/hook".toList, "example.com".toList⟩ := by
    decide
  obtain rfl := Option.some.inj (hurl.symm.trans hpinned)
  have hhost : (urlparse asciiData "https://2606:2800:220:1:248:1893:25c8:1946/hook".toList).bind
      (fun r => hostname asciiData r.toSplitResult) = some "2606".toList := by decide
  rw [hback, Option.bind_some, hchanged.host] at hhost
  exact absurd hhost (by decide)

end Pinning

end Sentora.Webhooks
