import Mathlib.Data.List.DropRight
import Sentora.Lib.Addresses
import Sentora.Lib.Casing

namespace Lib.Urls

open Addresses

/-- What is known of characters. -/
structure UrlData extends Casing where
  /-- The compatibility decomposition, composed again. -/
  nfkc : List Char → List Char

/-- What stands after the last `c`, everything where there is none. -/
def afterLast (c : Char) (s : List Char) : List Char := s.rtakeWhile (· ≠ c)

/-- What the last `c` ends, nothing where there is none. -/
def upToLast (c : Char) (s : List Char) : List Char := s.rdropWhile (· ≠ c)

def isControlOrSpace (c : Char) : Bool := c.toNat ≤ 32

def isUnsafe (c : Char) : Bool := c = '\t' || c = '\r' || c = '\n'

def removeUnsafe (s : List Char) : List Char := s.filter (!isUnsafe ·)

def isSchemeChar (c : Char) : Bool := c.isAlphanum || c = '+' || c = '-' || c = '.'

/-- The characters that the authority ends at. -/
def isDelimiter (c : Char) : Bool := c = '/' || c = '?' || c = '#'

structure SplitResult where
  scheme : List Char
  netloc : List Char
  path : List Char
  query : List Char
  fragment : List Char
deriving DecidableEq

structure ParseResult extends SplitResult where
  params : List Char
deriving DecidableEq

def isHexDigit (c : Char) : Bool := (hexDigitValue c).isSome

/-- An address of a future version, or one of version 6. -/
def checkBracketedHost (host : List Char) : Bool :=
  match host with
  | 'v' :: rest =>
    let version := rest.takeWhile isHexDigit
    match rest.dropWhile isHexDigit with
    | '.' :: address => !version.isEmpty && !address.isEmpty && '\n' ∉ address
    | _ => false
  | _ =>
    match ipAddress host with
    | some (.v6 _) => true
    | _ => false

def checkBracketedNetloc (netloc : List Char) : Bool :=
  let hostAndPort := afterLast '@' netloc
  if '[' ∈ hostAndPort then
    let bracketed := afterFirst '[' hostAndPort
    let port := afterFirst ']' bracketed
    (upToFirst '[' hostAndPort).isEmpty && (port.isEmpty || port.head? = some ':') &&
      checkBracketedHost (upToFirst ']' bracketed)
  else checkBracketedHost (upToFirst ':' hostAndPort)

variable (u : UrlData)

/-- No delimiter comes out of the composition. -/
def checkNetloc (netloc : List Char) : Bool :=
  netloc.all (·.toNat < 128) ||
    let n := netloc.filter fun c => c ∉ ['@', ':', '#', '?']
    let netloc2 := u.nfkc n
    n = netloc2 || netloc2.all fun c => c ∉ ['/', '?', '#', '@', ':']

def acceptsNetloc (netloc : List Char) : Bool :=
  ('[' ∈ netloc ↔ ']' ∈ netloc) && ('[' ∉ netloc || checkBracketedNetloc netloc) &&
    checkNetloc u netloc

def splitScheme (url : List Char) : List Char × List Char :=
  let scheme := upToFirst ':' url
  if ':' ∈ url ∧ scheme.head?.any Char.isAlpha ∧ scheme.all isSchemeChar then
    (u.lowerText scheme, afterFirst ':' url)
  else ([], url)

def splitNetloc (url : List Char) : List Char × List Char :=
  match url with
  | '/' :: '/' :: rest =>
    (rest.takeWhile (!isDelimiter ·), rest.dropWhile (!isDelimiter ·))
  | _ => ([], url)

def splitBehind (scheme url : List Char) : Option SplitResult :=
  let (netloc, url) := splitNetloc url
  let hierarchy := upToFirst '#' url
  if acceptsNetloc u netloc then
    some ⟨scheme, netloc, upToFirst '?' hierarchy, afterFirst '?' hierarchy, afterFirst '#' url⟩
  else none

/-- `none` where a `ValueError` is raised. -/
def urlsplit (url : List Char) : Option SplitResult :=
  let (scheme, url) := splitScheme u (removeUnsafe (url.dropWhile isControlOrSpace))
  splitBehind u scheme url

def splitParams (url : List Char) : List Char × List Char :=
  let last := afterLast '/' url
  (upToLast '/' url ++ upToFirst ';' last, afterFirst ';' last)

def usesParams : List String :=
  ["", "ftp", "hdl", "prospero", "http", "imap", "https", "shttp", "rtsp", "rtsps", "rtspu", "sip",
    "sips", "mms", "sftp", "tel"]

def splitPath (scheme path : List Char) : List Char × List Char :=
  if String.ofList scheme ∈ usesParams then splitParams path else (path, [])

def urlparse (url : List Char) : Option ParseResult :=
  (urlsplit u url).map fun s =>
    let (path, params) := splitPath s.scheme s.path
    { s with path := path, params := params }

def usesNetloc : List String :=
  ["", "ftp", "http", "gopher", "nntp", "telnet", "imap", "wais", "file", "mms", "https", "shttp",
    "snews", "prospero", "rtsp", "rtsps", "rtspu", "rsync", "svn", "svn+ssh", "sftp", "nfs", "git",
    "git+ssh", "ws", "wss", "itms-services"]

/-- The second text behind the separator, where there is one. -/
def joinWith (sep : Char) (s t : List Char) : List Char := if t = [] then s else s ++ sep :: t

def urlunsplit (s : SplitResult) : List Char :=
  let url := s.path
  let url :=
    if s.netloc ≠ [] ∨
        (s.scheme ≠ [] ∧ String.ofList s.scheme ∈ usesNetloc ∧ url.take 2 ≠ ['/', '/']) then
      '/' :: '/' :: s.netloc ++ (if url ≠ [] ∧ url.head? ≠ some '/' then '/' :: url else url)
    else url
  let url := if s.scheme ≠ [] then s.scheme ++ ':' :: url else url
  joinWith '#' (joinWith '?' url s.query) s.fragment

def urlunparse (r : ParseResult) : List Char :=
  urlunsplit { r.toSplitResult with path := joinWith ';' r.path r.params }

def hostInfo (netloc : List Char) : List Char × List Char :=
  let hostAndPort := afterLast '@' netloc
  if '[' ∈ hostAndPort then
    let bracketed := afterFirst '[' hostAndPort
    (upToFirst ']' bracketed, afterFirst ':' (afterFirst ']' bracketed))
  else (upToFirst ':' hostAndPort, afterFirst ':' hostAndPort)

/-- In lower case, apart from the zone. -/
def hostname (s : SplitResult) : Option (List Char) :=
  let host := (hostInfo s.netloc).1
  if host = [] then none
  else some (u.lowerText (upToFirst '%' host) ++
    if '%' ∈ host then '%' :: afterFirst '%' host else [])

/-- `none` where a `ValueError` is raised. -/
def port (s : SplitResult) : Option (Option Nat) :=
  let text := (hostInfo s.netloc).2
  if text = [] then some none
  else if text.all Char.isDigit then
    let n := Nat.ofDigitChars 10 text 0
    if n ≤ 65535 then some (some n) else none
  else none

section Splits

variable {u} {c sep : Char} {s t : List Char} {p : Char → Bool}

theorem sep_not_mem_upToFirst : sep ∉ upToFirst sep s := fun h => by
  have hne := List.mem_takeWhile_imp h
  exact absurd rfl (of_decide_eq_true hne)

theorem mem_of_mem_upToFirst (h : c ∈ upToFirst sep s) : c ∈ s := (List.takeWhile_prefix _).mem h

theorem mem_of_mem_afterFirst (h : c ∈ afterFirst sep s) : c ∈ s :=
  (List.dropWhile_suffix _).mem (List.mem_of_mem_drop h)

theorem decide_ne_of_not_mem (h : sep ∉ s) : ∀ c ∈ s, decide (c ≠ sep) = true :=
  fun _ hc => decide_eq_true (ne_of_mem_of_not_mem hc h)

theorem upToFirst_append_cons (h : sep ∉ s) : upToFirst sep (s ++ sep :: t) = s := by
  unfold upToFirst
  rw [List.takeWhile_append_of_pos (decide_ne_of_not_mem h),
    List.takeWhile_cons_of_neg (by simp), List.append_nil]

theorem afterFirst_append_cons (h : sep ∉ s) : afterFirst sep (s ++ sep :: t) = t := by
  unfold afterFirst
  rw [List.dropWhile_append_of_pos (decide_ne_of_not_mem h),
    List.dropWhile_cons_of_neg (by simp), List.drop_one, List.tail_cons]

theorem upToFirst_of_not_mem (h : sep ∉ s) : upToFirst sep s = s :=
  List.takeWhile_eq_self_iff.mpr (decide_ne_of_not_mem h)

theorem afterFirst_of_not_mem (h : sep ∉ s) : afterFirst sep s = [] := by
  unfold afterFirst
  rw [List.dropWhile_eq_nil_iff.mpr (decide_ne_of_not_mem h),
    List.drop_nil]

theorem upToFirst_joinWith (h : sep ∉ s) : upToFirst sep (joinWith sep s t) = s := by
  rw [joinWith]
  split
  · exact upToFirst_of_not_mem h
  · exact upToFirst_append_cons h

theorem afterFirst_joinWith (h : sep ∉ s) : afterFirst sep (joinWith sep s t) = t := by
  rw [joinWith]
  split
  · rename_i ht
    rw [afterFirst_of_not_mem h, ht]
  · exact afterFirst_append_cons h

theorem mem_joinWith (h : c ∈ joinWith sep s t) : c ∈ s ∨ c = sep ∨ c ∈ t := by
  rw [joinWith] at h
  split at h
  · exact Or.inl h
  · rwa [List.mem_append, List.mem_cons] at h

variable (sep s t) in
theorem head?_joinWith : (joinWith sep s t).head? = s.head? ∨
    s = [] ∧ (joinWith sep s t).head? = some sep := by
  rw [joinWith]
  split
  · exact Or.inl rfl
  · cases s with
    | nil => exact Or.inr ⟨rfl, rfl⟩
    | cons => exact Or.inl rfl

theorem joinWith_eq_append : joinWith sep s t = s ++ joinWith sep [] t := by
  rw [joinWith, joinWith]
  split
  · rw [List.append_nil]
  · rfl

theorem joinWith_ne_nil (h : s ≠ []) : joinWith sep s t ≠ [] := by
  rw [joinWith_eq_append]
  exact List.append_ne_nil_of_left_ne_nil h _

theorem rtakeWhile_append_of_pos (h : ∀ c ∈ t, p c = true) :
    (s ++ t).rtakeWhile p = s.rtakeWhile p ++ t := by
  rw [List.rtakeWhile, List.reverse_append,
    List.takeWhile_append_of_pos fun c hc => h c (List.mem_reverse.mp hc), List.reverse_append,
    List.reverse_reverse]
  rfl

theorem rdropWhile_append_of_pos (h : ∀ c ∈ t, p c = true) :
    (s ++ t).rdropWhile p = s.rdropWhile p := by
  rw [List.rdropWhile, List.reverse_append,
    List.dropWhile_append_of_pos fun c hc => h c (List.mem_reverse.mp hc)]
  rfl

theorem rtakeWhile_rdropWhile : (s.rdropWhile p).rtakeWhile p = [] :=
  List.rtakeWhile_eq_nil_iff.mpr fun hne => List.rdropWhile_last_not p s hne

theorem upToLast_append_afterLast : upToLast c s ++ afterLast c s = s :=
  List.rdropWhile_append_rtakeWhile

theorem not_mem_afterLast : c ∉ afterLast c s := fun h => by
  have hne := List.mem_rtakeWhile_imp h
  exact absurd rfl (of_decide_eq_true hne)

theorem afterLast_of_not_mem (h : c ∉ s) : afterLast c s = s :=
  List.rtakeWhile_eq_self_iff.mpr (decide_ne_of_not_mem h)

theorem afterLast_upToLast_append (h : c ∉ t) : afterLast c (upToLast c s ++ t) = t := by
  unfold afterLast upToLast
  rw [rtakeWhile_append_of_pos (decide_ne_of_not_mem h),
    rtakeWhile_rdropWhile, List.nil_append]

theorem upToLast_upToLast_append (h : c ∉ t) : upToLast c (upToLast c s ++ t) = upToLast c s := by
  unfold upToLast
  rw [rdropWhile_append_of_pos (decide_ne_of_not_mem h),
    List.rdropWhile_idempotent]

theorem splitParams_joinWith :
    splitParams (joinWith ';' (splitParams s).1 (splitParams s).2) = splitParams s := by
  have hslash : '/' ∉ joinWith ';' (upToFirst ';' (afterLast '/' s))
      (afterFirst ';' (afterLast '/' s)) := by
    intro h
    rcases mem_joinWith h with h | h | h
    · exact not_mem_afterLast (mem_of_mem_upToFirst h)
    · exact absurd h (by decide)
    · exact not_mem_afterLast (mem_of_mem_afterFirst h)
  have hjoin : joinWith ';' (splitParams s).1 (splitParams s).2 =
      upToLast '/' s ++ joinWith ';' (upToFirst ';' (afterLast '/' s))
        (afterFirst ';' (afterLast '/' s)) := by
    rw [joinWith_eq_append, joinWith_eq_append (s := upToFirst _ _), ← List.append_assoc]
    rfl
  rw [hjoin, splitParams, afterLast_upToLast_append hslash, upToLast_upToLast_append hslash,
    upToFirst_joinWith sep_not_mem_upToFirst, afterFirst_joinWith sep_not_mem_upToFirst]
  rfl

theorem mem_splitParams (h : c ∈ (splitParams s).1 ∨ c ∈ (splitParams s).2) : c ∈ s := by
  rw [← upToLast_append_afterLast (c := '/') (s := s), List.mem_append]
  rcases h with h | h
  · exact (List.mem_append.mp h).imp_right mem_of_mem_upToFirst
  · exact Or.inr (mem_of_mem_afterFirst h)

end Splits

def behind (r : ParseResult) : List Char :=
  joinWith '#' (joinWith '?' (joinWith ';' r.path r.params) r.query) r.fragment

/-- The parts behind the authority are found again where they are written. -/
structure Separated (r : ParseResult) : Prop where
  safe : ∀ c ∈ behind r, isUnsafe c = false
  hash : '#' ∉ joinWith '?' (joinWith ';' r.path r.params) r.query
  question : '?' ∉ joinWith ';' r.path r.params
  params : splitPath r.scheme (joinWith ';' r.path r.params) = (r.path, r.params)
  path : ∀ c ∈ (joinWith ';' r.path r.params).head?, c = '/'

section Parts

variable {u : UrlData} {c : Char} {s t scheme path url : List Char} {r : ParseResult}

theorem splitPath_joinWith :
    splitPath scheme (joinWith ';' (splitPath scheme path).1 (splitPath scheme path).2) =
      splitPath scheme path := by
  unfold splitPath
  split
  · exact splitParams_joinWith
  · rw [joinWith, if_pos rfl]

theorem mem_splitPath (h : c ∈ (splitPath scheme path).1 ∨ c ∈ (splitPath scheme path).2) :
    c ∈ path := by
  unfold splitPath at h
  split at h
  · exact mem_splitParams h
  · exact h.resolve_right List.not_mem_nil

theorem head?_upToLast : (upToLast '/' ('/' :: s)).head? = some '/' := by
  have hne : upToLast '/' ('/' :: s) ≠ [] := fun h =>
    absurd (List.rdropWhile_eq_nil_iff.mp h '/' List.mem_cons_self) (by decide)
  obtain ⟨c, rest, hcons⟩ := List.exists_cons_of_ne_nil hne
  have hprefix : upToLast '/' ('/' :: s) <+: '/' :: s := List.rdropWhile_prefix _ _
  rw [hcons, List.cons_prefix_cons] at hprefix
  rw [hcons, hprefix.1]
  rfl

theorem head?_splitPath (hpath : ∀ c ∈ path.head?, c = '/') :
    ∀ c ∈ (joinWith ';' (splitPath scheme path).1 (splitPath scheme path).2).head?, c = '/' := by
  unfold splitPath
  cases path with
  | nil =>
    split
    all_goals exact fun c hc => nomatch hc
  | cons d path =>
    obtain rfl : d = '/' := hpath d rfl
    have hhead : (splitParams ('/' :: path)).1.head? = some '/' := by
      rw [splitParams, List.head?_append, head?_upToLast]
      rfl
    intro c hc
    split at hc
    · rcases head?_joinWith ';' (splitParams ('/' :: path)).1 _ with h | ⟨h, -⟩
      · rw [h, hhead] at hc
        exact (Option.some.inj hc).symm
      · rw [h] at hhead
        cases hhead
    · exact (Option.some.inj hc).symm

theorem head?_upToFirst (h : ∀ c ∈ s.head?, isDelimiter c = true) :
    ∀ c ∈ (upToFirst '?' (upToFirst '#' s)).head?, c = '/' := by
  intro c hc
  cases s with
  | nil => cases hc
  | cons d s =>
    have hd := h d rfl
    have hdc : d = c ∧ d ≠ '#' ∧ d ≠ '?' := by
      by_cases h1 : d = '#'
      · simp [upToFirst, h1] at hc
      · by_cases h2 : d = '?'
        · simp [upToFirst, h2] at hc
        · simp [upToFirst, h1, h2] at hc
          exact ⟨hc, h1, h2⟩
    obtain ⟨rfl, hhash, hquestion⟩ := hdc
    simpa [isDelimiter, hhash, hquestion] using hd

theorem splitBehind_eq_some {p : SplitResult} (h : splitBehind u scheme url = some p) :
    acceptsNetloc u p.netloc = true ∧
      p = ⟨scheme, (splitNetloc url).1, upToFirst '?' (upToFirst '#' (splitNetloc url).2),
        afterFirst '?' (upToFirst '#' (splitNetloc url).2),
        afterFirst '#' (splitNetloc url).2⟩ := by
  rw [splitBehind] at h
  cases hsplit : splitNetloc url with
  | mk netloc rest =>
    rw [hsplit] at h
    dsimp only at h ⊢
    split at h
    · rename_i haccepts
      obtain rfl := Option.some.inj h
      exact ⟨haccepts, rfl⟩
    · cases h

theorem mem_splitScheme (h : c ∈ (splitScheme u url).2) : c ∈ url := by
  rw [splitScheme] at h
  split at h
  · exact mem_of_mem_afterFirst h
  · exact h

theorem mem_splitNetloc (h : c ∈ (splitNetloc url).2) : c ∈ url := by
  unfold splitNetloc at h
  split at h
  · exact List.mem_cons_of_mem _ (List.mem_cons_of_mem _ ((List.dropWhile_suffix _).mem h))
  · exact h

theorem head?_dropWhile {p : Char → Bool} : ∀ c ∈ (s.dropWhile p).head?, p c = false := by
  intro c hc
  have h := List.head?_dropWhile_not p s
  rw [hc] at h
  exact h

theorem head?_splitNetloc (h : (splitNetloc url).1 ≠ []) :
    ∀ c ∈ (splitNetloc url).2.head?, isDelimiter c = true := by
  revert h
  unfold splitNetloc
  split
  · intro _ c hc
    simpa using head?_dropWhile c hc
  · exact fun h => absurd rfl h

theorem separated_of_urlparse (h : urlparse u url = some r) (hnetloc : r.netloc ≠ []) :
    Separated r := by
  obtain ⟨p, hp, rfl⟩ := Option.map_eq_some_iff.mp h
  obtain ⟨-, hpeq⟩ := splitBehind_eq_some hp
  let rest := (splitNetloc (splitScheme u (removeUnsafe (url.dropWhile isControlOrSpace))).2).2
  have hhead : ∀ c ∈ rest.head?, isDelimiter c = true := by
    apply head?_splitNetloc
    rw [hpeq] at hnetloc
    exact hnetloc
  have hsafe : ∀ c ∈ rest, isUnsafe c = false := by
    intro c hc
    simpa using (List.mem_filter.mp (mem_splitScheme (mem_splitNetloc hc))).2
  have hpath : ∀ c ∈ joinWith ';' (splitPath p.scheme p.path).1 (splitPath p.scheme p.path).2,
      c = ';' ∨ c ∈ upToFirst '?' (upToFirst '#' rest) := by
    intro c hc
    have hmem : c ∈ (splitPath p.scheme p.path).1 ∨ c ∈ (splitPath p.scheme p.path).2 →
        c ∈ upToFirst '?' (upToFirst '#' rest) := by
      intro h
      have hmem := mem_splitPath h
      rwa [hpeq] at hmem
    rcases mem_joinWith hc with hc | hc | hc
    · exact Or.inr (hmem (Or.inl hc))
    · exact Or.inl hc
    · exact Or.inr (hmem (Or.inr hc))
  have hquery : ∀ c ∈ p.query, c ∈ upToFirst '#' rest := by
    intro c hc
    rw [hpeq] at hc
    exact mem_of_mem_afterFirst hc
  have hfragment : ∀ c ∈ p.fragment, c ∈ rest := by
    intro c hc
    rw [hpeq] at hc
    exact mem_of_mem_afterFirst hc
  constructor
  · intro c hc
    rcases mem_joinWith hc with hc | rfl | hc
    · rcases mem_joinWith hc with hc | rfl | hc
      · rcases hpath c hc with rfl | hc
        · decide
        · exact hsafe c (mem_of_mem_upToFirst (mem_of_mem_upToFirst hc))
      · decide
      · exact hsafe c (mem_of_mem_upToFirst (hquery c hc))
    · decide
    · exact hsafe c (hfragment c hc)
  · intro h
    rcases mem_joinWith h with h | h | h
    · rcases hpath _ h with h | h
      · exact absurd h (by decide)
      · exact sep_not_mem_upToFirst (mem_of_mem_upToFirst h)
    · exact absurd h (by decide)
    · exact sep_not_mem_upToFirst (hquery _ h)
  · intro h
    rcases hpath _ h with h | h
    · exact absurd h (by decide)
    · exact sep_not_mem_upToFirst h
  · exact splitPath_joinWith
  · apply head?_splitPath
    rw [hpeq]
    exact head?_upToFirst hhead

theorem head?_behind (hr : Separated r) : ∀ c ∈ (behind r).head?, isDelimiter c = true := by
  intro c hc
  rcases head?_joinWith '#' (joinWith '?' (joinWith ';' r.path r.params) r.query) r.fragment
    with h | ⟨-, h⟩
  · rcases head?_joinWith '?' (joinWith ';' r.path r.params) r.query with h' | ⟨-, h'⟩
    · obtain rfl := hr.path c (h' ▸ h ▸ hc)
      rfl
    · obtain rfl : '?' = c := Option.some.inj ((h.trans h').symm.trans hc)
      rfl
  · obtain rfl : '#' = c := Option.some.inj (h.symm.trans hc)
    rfl

theorem takeWhile_behind (hr : Separated r) : (behind r).takeWhile (!isDelimiter ·) = [] := by
  have hhead := head?_behind hr
  cases hbehind : behind r with
  | nil => rfl
  | cons c rest =>
    refine List.takeWhile_cons_of_neg ?_
    rw [hhead c (by rw [hbehind]; rfl)]
    exact Bool.false_ne_true

theorem joinWith_append {sep : Char} : joinWith sep (s ++ t) url = s ++ joinWith sep t url := by
  rw [joinWith_eq_append, joinWith_eq_append (s := t), List.append_assoc]

theorem urlunparse_eq (hscheme : r.scheme ≠ []) (hnetloc : r.netloc ≠ []) (hr : Separated r) :
    urlunparse r = r.scheme ++ ':' :: '/' :: '/' :: (r.netloc ++ behind r) := by
  have hpath : ¬(joinWith ';' r.path r.params ≠ [] ∧
      (joinWith ';' r.path r.params).head? ≠ some '/') := by
    rintro ⟨hne, hhead⟩
    obtain ⟨c, rest, hcons⟩ := List.exists_cons_of_ne_nil hne
    have hc := hr.path c (by rw [hcons]; rfl)
    rw [hcons, hc] at hhead
    exact hhead rfl
  have hurl : r.scheme ++ ':' :: '/' :: '/' :: (r.netloc ++ joinWith ';' r.path r.params) =
      (r.scheme ++ ':' :: '/' :: '/' :: r.netloc) ++ joinWith ';' r.path r.params := by
    rw [List.append_assoc]
    rfl
  rw [urlunparse, urlunsplit]
  dsimp only
  rw [if_pos (Or.inl hnetloc), if_neg hpath, if_pos hscheme, List.cons_append, List.cons_append,
    hurl, joinWith_append, joinWith_append, List.append_assoc]
  rfl

theorem isUnsafe_of_isSchemeChar (h : isSchemeChar c = true) : isUnsafe c = false := by
  rw [Bool.eq_false_iff]
  intro hc
  rw [isUnsafe, Bool.or_eq_true, Bool.or_eq_true, decide_eq_true_iff, decide_eq_true_iff,
    decide_eq_true_iff] at hc
  rcases hc with (rfl | rfl) | rfl
  all_goals exact absurd h (by decide)

theorem isControlOrSpace_of_isAlpha (h : c.isAlpha = true) : isControlOrSpace c = false := by
  have hcontrol : ∀ n ≤ 32, (Char.ofNat n).isAlpha = false := by decide
  rw [Bool.eq_false_iff]
  intro hc
  have halpha := hcontrol c.toNat (of_decide_eq_true hc)
  rw [Char.ofNat_toNat, h] at halpha
  cases halpha

/-- A scheme as it comes out of the split. -/
structure IsScheme (u : UrlData) (scheme : List Char) : Prop where
  ne_nil : scheme ≠ []
  alpha : ∀ c ∈ scheme.head?, c.isAlpha = true
  chars : ∀ c ∈ scheme, isSchemeChar c = true
  lower : u.lowerText scheme = scheme

theorem urlsplit_of_scheme (h : IsScheme u scheme) :
    urlsplit u (scheme ++ ':' :: url) = splitBehind u scheme (removeUnsafe url) := by
  have hcolon : ':' ∉ scheme := fun hmem => absurd (h.chars ':' hmem) (by decide)
  have hunsafe : removeUnsafe (scheme ++ ':' :: url) = scheme ++ ':' :: removeUnsafe url := by
    have hscheme : scheme.filter (!isUnsafe ·) = scheme :=
      List.filter_eq_self.mpr fun c hc => by
        rw [isUnsafe_of_isSchemeChar (h.chars c hc)]
        rfl
    rw [removeUnsafe, List.filter_append, hscheme, List.filter_cons_of_pos (by decide)]
    rfl
  obtain ⟨c, rest, hcons⟩ := List.exists_cons_of_ne_nil h.ne_nil
  have halpha := h.alpha c (by rw [hcons]; rfl)
  have hdrop : (scheme ++ ':' :: url).dropWhile isControlOrSpace = scheme ++ ':' :: url := by
    rw [hcons, List.cons_append, List.dropWhile_cons_of_neg]
    rw [isControlOrSpace_of_isAlpha halpha]
    exact Bool.false_ne_true
  have hsplit : splitScheme u (scheme ++ ':' :: removeUnsafe url) = (scheme, removeUnsafe url) := by
    rw [splitScheme, upToFirst_append_cons hcolon, afterFirst_append_cons hcolon, if_pos, h.lower]
    refine ⟨List.mem_append_right _ List.mem_cons_self, ?_, List.all_eq_true.mpr h.chars⟩
    rw [hcons]
    exact halpha
  rw [urlsplit, hdrop, hunsafe, hsplit]

/-- The authority that is read where one is written, whatever it is. -/
theorem netloc_of_urlparse (hscheme : IsScheme u scheme)
    (h : urlparse u (scheme ++ ':' :: '/' :: '/' :: url) = some r) :
    r.netloc = (removeUnsafe url).takeWhile (!isDelimiter ·) ∧ acceptsNetloc u r.netloc = true := by
  obtain ⟨p, hp, rfl⟩ := Option.map_eq_some_iff.mp h
  rw [urlsplit_of_scheme hscheme] at hp
  obtain ⟨haccepts, hpeq⟩ := splitBehind_eq_some hp
  refine ⟨?_, haccepts⟩
  rw [hpeq]
  rfl

theorem mem_netloc_of_mem (hr : Separated r)
    (h : c ∈ (removeUnsafe (r.netloc ++ behind r)).takeWhile (!isDelimiter ·)) : c ∈ r.netloc := by
  have hsafe : removeUnsafe (behind r) = behind r := List.filter_eq_self.mpr fun d hd => by
    rw [hr.safe d hd]
    rfl
  have hsplit : removeUnsafe (r.netloc ++ behind r) = removeUnsafe r.netloc ++ behind r := by
    rw [removeUnsafe, List.filter_append]
    exact congrArg _ hsafe
  rw [hsplit, List.takeWhile_append, takeWhile_behind hr, List.append_nil] at h
  split at h
  · exact List.mem_of_mem_filter h
  · exact List.mem_of_mem_filter ((List.takeWhile_prefix _).mem h)

theorem head?_authority (hc : isDelimiter c = false ∧ isUnsafe c = false) :
    ((removeUnsafe (c :: s)).takeWhile (!isDelimiter ·)).head? = some c := by
  have hsafe : removeUnsafe (c :: s) = c :: removeUnsafe s :=
    List.filter_cons_of_pos (by rw [hc.2]; rfl)
  rw [hsafe, List.takeWhile_cons_of_pos (p := fun a => !isDelimiter a) (by rw [hc.1]; rfl)]
  rfl

theorem urlparse_urlunparse (hscheme : IsScheme u r.scheme) (hne : r.netloc ≠ [])
    (hnetloc : ∀ c ∈ r.netloc, isDelimiter c = false ∧ isUnsafe c = false)
    (haccepts : acceptsNetloc u r.netloc = true) (hr : Separated r) :
    urlparse u (urlunparse r) = some r := by
  have hsafe : removeUnsafe (r.netloc ++ behind r) = r.netloc ++ behind r := by
    refine List.filter_eq_self.mpr fun c hc => ?_
    rcases List.mem_append.mp hc with hc | hc
    · rw [(hnetloc c hc).2]
      rfl
    · rw [hr.safe c hc]
      rfl
  have hsplit : splitNetloc ('/' :: '/' :: (r.netloc ++ behind r)) = (r.netloc, behind r) := by
    have hkeep : ∀ c ∈ r.netloc, (!isDelimiter c) = true := fun c hc => by
      rw [(hnetloc c hc).1]
      rfl
    have hdrop := List.takeWhile_append_dropWhile (p := (!isDelimiter ·)) (l := behind r)
    rw [takeWhile_behind hr, List.nil_append] at hdrop
    rw [splitNetloc, List.takeWhile_append_of_pos hkeep, List.dropWhile_append_of_pos hkeep,
      takeWhile_behind hr, hdrop, List.append_nil]
  have hparts : splitBehind u r.scheme ('/' :: '/' :: (r.netloc ++ behind r)) =
      some { r.toSplitResult with path := joinWith ';' r.path r.params } := by
    rw [splitBehind, hsplit]
    dsimp only
    rw [if_pos haccepts, behind, upToFirst_joinWith hr.hash, afterFirst_joinWith hr.hash,
      upToFirst_joinWith hr.question, afterFirst_joinWith hr.question]
  have hunsafe : removeUnsafe ('/' :: '/' :: (r.netloc ++ behind r)) =
      '/' :: '/' :: (r.netloc ++ behind r) := congrArg (fun s => '/' :: '/' :: s) hsafe
  rw [urlunparse_eq hscheme.ne_nil hne hr, urlparse, urlsplit_of_scheme hscheme, hunsafe, hparts,
    Option.map_some]
  dsimp only
  rw [hr.params]

end Parts

/-- The lower case of ASCII, of which the marks of an authority are nobody else's. -/
structure LowersAscii (k : Casing) : Prop where
  ascii : ∀ c, c.toNat < 128 → k.lowerChar c = [c.toLower]
  mark : ∀ c, ∀ d ∈ k.lowerChar c, d = ':' ∨ d = '@' → c = d

section Hosts

variable {u : UrlData} {c : Char} {host digits : List Char} {s : SplitResult}

theorem lowerText_eq_self (hu : LowersAscii u.toCasing)
    (h : ∀ c ∈ host, c.toNat < 128 ∧ c.toLower = c) : u.lowerText host = host := by
  refine Casing.lowerText_of_fixed fun c hc => ?_
  obtain ⟨hascii, hlower⟩ := h c hc
  refine ⟨?_, by rw [hu.ascii c hascii, hlower]⟩
  rintro rfl
  exact absurd hascii (by decide)

theorem mem_of_mem_hostname (hu : LowersAscii u.toCasing) (hmark : c = ':' ∨ c = '@')
    (h : hostname u s = some host) (hc : c ∈ host) : c ∈ (hostInfo s.netloc).1 := by
  rw [hostname] at h
  split at h
  · cases h
  · obtain rfl := Option.some.inj h
    rcases List.mem_append.mp hc with hc | hc
    · rcases Casing.mem_lowerFrom hc with rfl | rfl | ⟨d, hd, -, hcd⟩
      · exact absurd hmark (by decide)
      · exact absurd hmark (by decide)
      · rw [← hu.mark d c hcd hmark]
        exact mem_of_mem_upToFirst hd
    · split at hc
      · rename_i hpercent
        rcases List.mem_cons.mp hc with rfl | hc
        · exact hpercent
        · exact mem_of_mem_afterFirst hc
      · cases hc

theorem netloc_ne_nil_of_hostname (h : hostname u s = some host) : s.netloc ≠ [] := by
  intro hnil
  rw [hostname, hnil] at h
  cases h

theorem le_of_port {n : Nat} (h : port s = some (some n)) : n ≤ 65535 := by
  rw [port] at h
  split at h
  · cases h
  · split at h
    · dsimp only at h
      split at h
      · rename_i hle
        rwa [Option.some.inj (Option.some.inj h)] at hle
      · cases h
    · cases h

theorem mem_of_mem_hostInfo {netloc : List Char} (h : c ∈ (hostInfo netloc).1) :
    c ∈ afterLast '@' netloc := by
  rw [hostInfo] at h
  split at h
  · exact mem_of_mem_afterFirst (mem_of_mem_upToFirst h)
  · exact mem_of_mem_upToFirst h

theorem head?_of_colon_mem {netloc : List Char} (haccepts : acceptsNetloc u netloc = true)
    (huser : '@' ∉ netloc) (h : ':' ∈ (hostInfo netloc).1) : netloc.head? = some '[' := by
  rw [hostInfo, afterLast_of_not_mem huser] at h
  split at h
  · rename_i hbracket
    rw [acceptsNetloc, Bool.and_eq_true, Bool.and_eq_true, Bool.or_eq_true,
      decide_eq_true_iff] at haccepts
    have hcheck := haccepts.1.2.resolve_left fun hnone =>
      of_decide_eq_true hnone hbracket
    rw [checkBracketedNetloc, afterLast_of_not_mem huser, if_pos hbracket, Bool.and_eq_true,
      Bool.and_eq_true, List.isEmpty_iff] at hcheck
    have hempty := hcheck.1.1
    obtain ⟨c, rest, rfl⟩ := List.exists_cons_of_ne_nil (List.ne_nil_of_mem hbracket)
    by_cases hc : c = '['
    · rw [hc]
      rfl
    · rw [upToFirst, List.takeWhile_cons_of_pos (p := fun d => decide (d ≠ '['))
        (decide_eq_true hc)]
        at hempty
      cases hempty
  · exact absurd h sep_not_mem_upToFirst

theorem acceptsNetloc_of_ascii (hascii : ∀ c ∈ host, c.toNat < 128 ∧ c ≠ '[' ∧ c ≠ ']') :
    acceptsNetloc u host = true := by
  have hopen : '[' ∉ host := fun h => (hascii '[' h).2.1 rfl
  have hclose : ']' ∉ host := fun h => (hascii ']' h).2.2 rfl
  have hall : host.all (·.toNat < 128) = true :=
    List.all_eq_true.mpr fun c hc => decide_eq_true (hascii c hc).1
  simp [acceptsNetloc, checkNetloc, hopen, hclose, hall]

theorem hostInfo_joinWith (hhost : ∀ c ∈ host, c ≠ '@' ∧ c ≠ '[' ∧ c ≠ ':')
    (hdigits : ∀ c ∈ digits, c.isDigit = true) :
    hostInfo (joinWith ':' host digits) = (host, digits) := by
  have hnone : ∀ {c : Char}, c.isDigit = false → c ≠ ':' → c ∉ host →
      c ∉ joinWith ':' host digits := by
    intro c hdigit hcolon hmem h
    rcases mem_joinWith h with h | h | h
    · exact hmem h
    · exact hcolon h
    · rw [hdigits c h] at hdigit
      cases hdigit
  have huser := hnone (c := '@') rfl (by decide) fun h => (hhost _ h).1 rfl
  have hbracket := hnone (c := '[') rfl (by decide) fun h => (hhost _ h).2.1 rfl
  have hcolon : ':' ∉ host := fun h => (hhost _ h).2.2 rfl
  rw [hostInfo, afterLast_of_not_mem huser, if_neg hbracket, upToFirst_joinWith hcolon,
    afterFirst_joinWith hcolon]

end Hosts

end Lib.Urls
