import Mathlib.Data.List.Dedup
import Mathlib.Data.List.Infix
import Sentora.Backup.Manager

/-!
# What a checksum covers

`_compute_sha256` of `utils/backup.py` feeds the contents of the files of a tree to the hash, in
the order of the walk, and nothing else: no name, no size and no separator.
-/

namespace Sentora.Backup

open Lib

variable {ρ : Type}

def osPathJoin (path name : String) : String :=
  if path = "" ∨ path.toList.getLast? = some '/' then path ++ name else path ++ "/" ++ name

/-- The root that `os.walk` gives with a directory. -/
def rootText (base : String) (directory : Path) : String := directory.foldl osPathJoin base

/-- The directories that `os.walk` visits. -/
def directories (t : Tree (List UInt8)) : List Path :=
  (t.flatMap fun e => (if e.2.isSome then e.1.dropLast else e.1).inits).dedup

/-- The files that `os.walk` gives with a directory, with their contents. -/
def filesIn (t : Tree (List UInt8)) (directory : Path) : List (String × List UInt8) :=
  t.filterMap fun e => do
    let content ← e.2
    let name ← e.1.getLast?
    if e.1.dropLast = directory then some (name, content) else none

/-- The contents of the files in the order `sorted(os.walk(path))`, `sorted(files)`. -/
def walkContents (base : String) (t : Tree (List UInt8)) : List (List UInt8) :=
  (sortBy (rootText base) (directories t)).flatMap fun directory =>
    (sortBy Prod.fst (filesIn t directory)).map Prod.snd

/-- `iter(lambda: f.read(8192), b"")`. -/
def readChunks (content : List UInt8) : List (List UInt8) :=
  if content = [] then [] else content.take 8192 :: readChunks (content.drop 8192)
termination_by content.length
decreasing_by
  have hpos := List.length_pos_of_ne_nil ‹_›
  rw [List.length_drop]
  omega

/-- `h.update(chunk)`, where a hash object is what it has been fed so far. -/
def update (h chunk : List UInt8) : List UInt8 := h ++ chunk

def updateFile (h content : List UInt8) : List UInt8 := (readChunks content).foldl update h

def computeSha256 (sha256 : List UInt8 → String) (base : String) (t : Tree (List UInt8)) :
    String :=
  sha256 <|
    match (t.find? fun e => e.1 = [] ∧ e.2.isSome).bind Prod.snd with
    | some content => updateFile [] content
    | none => if t.hasPath [] then (walkContents base t).foldl updateFile [] else []

theorem flatten_readChunks (content : List UInt8) : (readChunks content).flatten = content := by
  fun_induction readChunks content with
  | case1 => rfl
  | case2 content hne ih => rw [List.flatten_cons, ih, List.take_append_drop]

theorem foldl_update {chunks : List (List UInt8)} {h : List UInt8} :
    chunks.foldl update h = h ++ chunks.flatten := by
  induction chunks generalizing h with
  | nil => exact (List.append_nil h).symm
  | cons chunk rest ih => rw [List.foldl_cons, ih, List.flatten_cons, update, List.append_assoc]

theorem updateFile_eq {h content : List UInt8} : updateFile h content = h ++ content := by
  rw [updateFile, foldl_update, flatten_readChunks]

/-! ## The order of the walk

The path to the tree stands before every root, so the order does not depend on it. -/

def IsName (name : String) : Prop := name ≠ "" ∧ '/' ∉ name.toList

instance IsName.decidable {name : String} : Decidable (IsName name) :=
  inferInstanceAs (Decidable (_ ∧ _))

def relText : Path → List Char
  | [] => []
  | [name] => name.toList
  | name :: next :: rest => name.toList ++ '/' :: relText (next :: rest)

def separator (path : String) : List Char :=
  if path = "" ∨ path.toList.getLast? = some '/' then [] else ['/']

theorem toList_osPathJoin {path name : String} :
    (osPathJoin path name).toList = path.toList ++ separator path ++ name.toList := by
  rw [osPathJoin, separator]
  split
  · rw [String.toList_append, List.append_nil]
  · rw [String.toList_append, String.toList_append]
    rfl

theorem separator_osPathJoin {path name : String} (h : IsName name) :
    separator (osPathJoin path name) = ['/'] := by
  have hne : name.toList ≠ [] := fun hnil => h.1 (String.toList_eq_nil_iff.mp hnil)
  have hlast : (osPathJoin path name).toList.getLast? = some (name.toList.getLast hne) := by
    rw [toList_osPathJoin, List.getLast?_append_of_ne_nil _ hne, List.getLast?_eq_some_getLast hne]
  rw [separator, if_neg]
  rintro (hempty | hslash)
  · rw [hempty] at hlast
    cases hlast
  · rw [hslash, Option.some.injEq] at hlast
    exact h.2 (hlast ▸ List.getLast_mem hne)

theorem toList_rootText_cons {base name : String} {rest : Path}
    (h : ∀ n ∈ name :: rest, IsName n) :
    (rootText base (name :: rest)).toList =
      base.toList ++ separator base ++ relText (name :: rest) := by
  induction rest generalizing base name with
  | nil => exact toList_osPathJoin
  | cons next rest ih =>
    obtain ⟨hname, hrest⟩ := List.forall_mem_cons.mp h
    have hstep : rootText base (name :: next :: rest) =
        rootText (osPathJoin base name) (next :: rest) := rfl
    rw [hstep, ih hrest, separator_osPathJoin hname, toList_osPathJoin, relText]
    simp only [List.append_assoc, List.cons_append, List.nil_append]

theorem append_le_append_iff {p a b : List Char} : p ++ a ≤ p ++ b ↔ a ≤ b := by
  have hmono : StrictMono (p ++ · : List Char → List Char) :=
    fun a b hlt => List.Lex.append_left (· < ·) hlt p
  exact hmono.le_iff_le

theorem nil_le (l : List Char) : [] ≤ l := by
  cases l with
  | nil => exact le_refl _
  | cons c l => exact (List.nil_lt_cons c l).le

theorem relText_cons_ne_nil {name : String} (rest : Path) (h : IsName name) :
    relText (name :: rest) ≠ [] := by
  have hne : name.toList ≠ [] := fun hnil => h.1 (String.toList_eq_nil_iff.mp hnil)
  cases rest with
  | nil => exact hne
  | cons next rest => exact List.append_ne_nil_of_left_ne_nil hne _

theorem rootText_le_iff {base : String} {d d' : Path} (hd : ∀ n ∈ d, IsName n)
    (hd' : ∀ n ∈ d', IsName n) :
    rootText base d ≤ rootText base d' ↔ relText d ≤ relText d' := by
  rw [String.le_iff_toList_le]
  cases d with
  | nil =>
    refine iff_of_true ?_ (nil_le _)
    cases d' with
    | nil => exact le_refl _
    | cons name rest =>
      rw [toList_rootText_cons hd', List.append_assoc]
      nth_rewrite 1 [← List.append_nil (rootText base []).toList]
      exact append_le_append_iff.mpr (nil_le _)
  | cons name rest =>
    cases d' with
    | nil =>
      rw [toList_rootText_cons hd, List.append_assoc, ← List.append_nil (rootText base []).toList]
      have hne := relText_cons_ne_nil rest (List.forall_mem_cons.mp hd).1
      refine iff_of_false (fun hle => ?_) fun hle => hne (le_antisymm hle (nil_le _))
      have hnil := le_antisymm (append_le_append_iff.mp hle) (nil_le _)
      exact hne (List.append_eq_nil_iff.mp hnil).2
    | cons name' rest' =>
      rw [toList_rootText_cons hd, toList_rootText_cons hd', append_le_append_iff]

theorem sortBy_rootText {base base' : String} {ds : List Path}
    (h : ∀ d ∈ ds, ∀ n ∈ d, IsName n) :
    sortBy (rootText base) ds = sortBy (rootText base') ds := by
  have hmap := List.map_insertionSort (fun a b => rootText base a ≤ rootText base b)
    (fun a b => rootText base' a ≤ rootText base' b) id ds fun a ha b hb =>
      (rootText_le_iff (h a ha) (h b hb)).trans (rootText_le_iff (h a ha) (h b hb)).symm
  rw [List.map_id, List.map_id] at hmap
  exact hmap

/-- The tree of a directory: there is at most one thing at a path, nothing below a file, and the
parts of a path are names. -/
structure DirectoryTree where
  entries : Tree (List UInt8)
  nodup : (entries.map Prod.fst).Nodup
  ne_nil : entries ≠ []
  root : ∀ e ∈ entries, e.1 = [] → e.2 = none
  leaf : ∀ e ∈ entries, e.2.isSome → ∀ e' ∈ entries, e.1 <+: e'.1 → e'.1 = e.1
  names : ∀ e ∈ entries, ∀ name ∈ e.1, IsName name

/-- The trees hold the same files with the same contents. -/
def SameFiles (t t' : DirectoryTree) : Prop :=
  ∀ path content, (path, some content) ∈ t.entries ↔ (path, some content) ∈ t'.entries

namespace DirectoryTree

variable {sha256 : List UInt8 → String} {base base' : String} {t t' : DirectoryTree}

def contents (t : DirectoryTree) : List (List UInt8) := walkContents "." t.entries

theorem names_of_mem_directories {d : Path} (hd : d ∈ directories t.entries) :
    ∀ n ∈ d, IsName n := by
  rw [directories, List.mem_dedup, List.mem_flatMap] at hd
  obtain ⟨e, he, hinits⟩ := hd
  rw [List.mem_inits] at hinits
  intro n hn
  refine t.names e he n ?_
  split at hinits
  · exact List.dropLast_subset _ (hinits.subset hn)
  · exact hinits.subset hn

theorem walkContents_eq : walkContents base t.entries = t.contents := by
  have hsort : sortBy (rootText base) (directories t.entries) =
      sortBy (rootText ".") (directories t.entries) :=
    sortBy_rootText fun d hd => names_of_mem_directories hd
  rw [contents, walkContents, walkContents, hsort]

theorem foldl_updateFile {contents : List (List UInt8)} {h : List UInt8} :
    contents.foldl updateFile h = h ++ contents.flatten := by
  have hfun : updateFile = update := by
    funext h content
    exact updateFile_eq
  rw [hfun, foldl_update]

theorem computeSha256_eq :
    computeSha256 sha256 base t.entries = sha256 t.contents.flatten := by
  have hfile : (t.entries.find? fun e => e.1 = [] ∧ e.2.isSome).bind Prod.snd = none := by
    have hnone : (t.entries.find? fun e => e.1 = [] ∧ e.2.isSome) = none := by
      rw [List.find?_eq_none]
      intro e he hroot
      obtain ⟨hnil, hsome⟩ := of_decide_eq_true hroot
      rw [t.root e he hnil] at hsome
      cases hsome
    rw [hnone]
    rfl
  have hpath : FileTree.hasPath t.entries [] = true := by
    obtain ⟨e, he⟩ := List.exists_mem_of_ne_nil _ t.ne_nil
    exact List.any_eq_true.mpr ⟨e, he, decide_eq_true List.nil_prefix⟩
  rw [computeSha256, hfile]
  dsimp only
  rw [if_pos hpath, walkContents_eq, foldl_updateFile, List.nil_append]

theorem computeSha256_eq_iff (hsha : Function.Injective sha256) :
    computeSha256 sha256 base t.entries = computeSha256 sha256 base' t'.entries ↔
      Recut t.contents t'.contents := by
  rw [computeSha256_eq, computeSha256_eq, hsha.eq_iff, recut_iff]

end DirectoryTree

/-- The trees are the same, or the contents of the one, as they are walked, do not come from those
of the other by moving bytes between neighbouring files and by adding and removing empty files. -/
def ToldApart (t t' : DirectoryTree) : Prop := SameFiles t t' ∨ ¬Recut t.contents t'.contents

section Checks

variable {sha256 : List UInt8 → String} {base : String} {tools : Tools ρ (List UInt8)}
  {record : BackupRecord} {t t' : DirectoryTree}

theorem digest_implies_sameFiles_iff {digestsAgree : Prop}
    (h : digestsAgree ↔ Recut t.contents t'.contents) :
    (digestsAgree → SameFiles t t') ↔ ToldApart t t' := by
  rw [ToldApart, h]
  constructor
  · intro hsame
    by_cases hrecut : Recut t.contents t'.contents
    · exact Or.inl (hsame hrecut)
    · exact Or.inr hrecut
  · rintro (hsame | hnot) hrecut
    · exact hsame
    · exact absurd hrecut hnot

theorem digest_ne_empty (hne : ∀ bytes, sha256 bytes ≠ "")
    (htools : tools.sha256 = computeSha256 sha256 base)
    (hrecord : record.checksumSha256 = tools.sha256 t.entries) : record.checksumSha256 ≠ "" := by
  rw [hrecord, htools, DirectoryTree.computeSha256_eq]
  exact hne _

theorem sha256_eq_checksum_iff (hsha : Function.Injective sha256)
    (htools : tools.sha256 = computeSha256 sha256 base)
    (hrecord : record.checksumSha256 = tools.sha256 t.entries) :
    tools.sha256 t'.entries = record.checksumSha256 ↔ Recut t.contents t'.contents := by
  rw [hrecord, htools, eq_comm]
  exact DirectoryTree.computeSha256_eq_iff hsha

theorem checkSum_eq_ok_iff (hsha : Function.Injective sha256) (hne : ∀ bytes, sha256 bytes ≠ "")
    (htools : tools.sha256 = computeSha256 sha256 base)
    (hrecord : record.checksumSha256 = tools.sha256 t.entries) :
    checkSum tools record t'.entries = .ok () ↔ Recut t.contents t'.contents := by
  rw [← sha256_eq_checksum_iff hsha htools hrecord, checkSum]
  by_cases heq : tools.sha256 t'.entries = record.checksumSha256
  · rw [if_neg fun h => h.2 heq]
    exact iff_of_true rfl heq
  · rw [if_pos ⟨digest_ne_empty hne htools hrecord, heq⟩]
    exact iff_of_false (fun h => nomatch h) heq

theorem verifyBackup_eq_ok_true_iff_recut (hsha : Function.Injective sha256)
    (hne : ∀ bytes, sha256 bytes ≠ "") (htools : tools.sha256 = computeSha256 sha256 base)
    (hrecord : record.checksumSha256 = tools.sha256 t.entries) {host : Host}
    {s : Store (List UInt8)} (hmem : record ∈ s.history)
    (hdisk : s.disk.below (host.resolve record.storagePath) = t'.entries) :
    verifyBackup tools host s record.id = .ok true ↔ Recut t.contents t'.contents := by
  have hpath : s.disk.hasPath (host.resolve record.storagePath) = true := by
    rw [FileTree.hasPath_eq, hdisk, Bool.not_eq_true', List.isEmpty_eq_false_iff]
    exact t'.ne_nil
  rw [← sha256_eq_checksum_iff hsha htools hrecord, verifyBackup,
    Collection.get_eq_some_iff.mpr ⟨hmem, rfl⟩]
  dsimp only
  rw [if_neg (digest_ne_empty hne htools hrecord), if_neg (not_not.mpr hpath), hdisk,
    Except.ok.injEq, decide_eq_true_iff]

end Checks

/-- Two trees with one digest hold the same files, a verification that succeeds means that the
files are those of the backup, and so does the check of a restore, if and only if the trees are
the same or their contents in the order of the walk are not the same bytes cut elsewhere. -/
theorem checksum_tells_apart_iff (sha256 : List UInt8 → String)
    (hsha : Function.Injective sha256) (hne : ∀ bytes, sha256 bytes ≠ "")
    (base base' : String) (t t' : DirectoryTree) :
    ((computeSha256 sha256 base t.entries = computeSha256 sha256 base' t'.entries →
      SameFiles t t') ↔ ToldApart t t') ∧
    ∀ (ρ : Type) (tools : Tools ρ (List UInt8)) (record : BackupRecord),
      tools.sha256 = computeSha256 sha256 base →
      record.checksumSha256 = tools.sha256 t.entries →
      ((checkSum tools record t'.entries = .ok () → SameFiles t t') ↔ ToldApart t t') ∧
      ∀ (host : Host) (s : Store (List UInt8)), record ∈ s.history →
        s.disk.below (host.resolve record.storagePath) = t'.entries →
        ((verifyBackup tools host s record.id = .ok true → SameFiles t t') ↔
          ToldApart t t') := by
  refine ⟨digest_implies_sameFiles_iff (DirectoryTree.computeSha256_eq_iff hsha), ?_⟩
  intro ρ tools record htools hrecord
  refine ⟨digest_implies_sameFiles_iff (checkSum_eq_ok_iff hsha hne htools hrecord), ?_⟩
  intro host s hmem hdisk
  exact digest_implies_sameFiles_iff
    (verifyBackup_eq_ok_true_iff_recut hsha hne htools hrecord hmem hdisk)

/-- Two files that hold the texts `a` and `b`, in a directory of their own or not. -/
def dumpedTree : DirectoryTree where
  entries := [([], none), (["a.bson"], some [97]), (["b.bson"], some [98])]
  nodup := by decide
  ne_nil := by decide
  root := by decide
  leaf := by decide
  names := by decide

/-- The bytes of the second file shifted to the first one, which leaves it empty. -/
def shiftedTree : DirectoryTree where
  entries := [([], none), (["a.bson"], some [97, 98]), (["b.bson"], some [])]
  nodup := by decide
  ne_nil := by decide
  root := by decide
  leaf := by decide
  names := by decide

def movedTree : DirectoryTree where
  entries := [([], none), (["a.bson"], some [97]), (["new"], none), (["new", "c"], some [98]),
    (["new", "d"], some [])]
  nodup := by decide
  ne_nil := by decide
  root := by decide
  leaf := by decide
  names := by decide

/-- The digest of the text `ab`, and some other digest of every other text. -/
def plainSha256 (bytes : List UInt8) : String :=
  if bytes = [97, 98] then "fb8e20fc2e4c3f248c60c39bd652f3c1347298bb977b8b4d5903b85055620603"
  else String.ofList ('-' :: bytes.map fun b => Char.ofNat b.toNat)

theorem plainSha256_injective : Function.Injective plainSha256 := by
  have hvalid : ∀ n < 256, (Char.ofNat n).toNat = n := by decide +kernel
  have hchar : Function.Injective fun b : UInt8 => Char.ofNat b.toNat := by
    intro a b heq
    have hnat : (Char.ofNat a.toNat).toNat = (Char.ofNat b.toNat).toNat := congrArg Char.toNat heq
    rw [hvalid _ a.toNat_lt, hvalid _ b.toNat_lt] at hnat
    exact UInt8.toNat_inj.mp hnat
  intro a b heq
  by_cases ha : a = [97, 98]
  · by_cases hb : b = [97, 98]
    · rw [ha, hb]
    · rw [plainSha256, plainSha256, if_pos ha, if_neg hb, ← String.toList_inj] at heq
      simp at heq
  · by_cases hb : b = [97, 98]
    · rw [plainSha256, plainSha256, if_neg ha, if_pos hb, ← String.toList_inj] at heq
      simp at heq
    · rw [plainSha256, plainSha256, if_neg ha, if_neg hb, String.ofList_inj] at heq
      exact hchar.list_map (List.cons.inj heq).2

theorem plainSha256_ne_empty (bytes : List UInt8) : plainSha256 bytes ≠ "" := by
  rw [plainSha256]
  split
  · decide
  · simp

/-- Tools whose dumps are `dumpedTree`, with the digests of `plainSha256`. -/
def hashingTools : Tools Nat (List UInt8) where
  mongodump _ _ := dumpedTree.entries
  mongorestore _ := none
  sha256 := computeSha256 plainSha256 "/backups/1"
  size t := t.length

def shiftedRecord : BackupRecord :=
  { id := "1", timestamp := "2026-01-01T02:00:00+00:00", storagePath := "/backups/1"
    checksumSha256 := hashingTools.sha256 dumpedTree.entries, status := .completed }

def shiftedStore : Store (List UInt8) where
  history := ⟨[shiftedRecord], List.nodup_singleton _⟩
  disk := FileTree.put [] ["backups", "1"] shiftedTree.entries
  bucket := []

theorem checksum_tells_apart_iff_shifted :
    ((computeSha256 plainSha256 "/backups/1" dumpedTree.entries =
      computeSha256 plainSha256 "/backups/1" shiftedTree.entries →
        SameFiles dumpedTree shiftedTree) ↔ ToldApart dumpedTree shiftedTree) ∧
    ((checkSum hashingTools shiftedRecord shiftedTree.entries = .ok () →
      SameFiles dumpedTree shiftedTree) ↔ ToldApart dumpedTree shiftedTree) ∧
    ((verifyBackup hashingTools (plainHost ["app"]) shiftedStore "1" = .ok true →
      SameFiles dumpedTree shiftedTree) ↔ ToldApart dumpedTree shiftedTree) := by
  obtain ⟨hdigest, hchecks⟩ := checksum_tells_apart_iff plainSha256 plainSha256_injective
    plainSha256_ne_empty "/backups/1" "/backups/1" dumpedTree shiftedTree
  obtain ⟨hrestore, hverify⟩ := hchecks Nat hashingTools shiftedRecord rfl rfl
  refine ⟨hdigest, hrestore, ?_⟩
  exact hverify (plainHost ["app"]) shiftedStore List.mem_cons_self (by decide +kernel)

/-- Bytes shifted to the neighbour pass the verification, and a file that is renamed and moved
and one that is added leave the digest as it is. -/
theorem checksum_misses :
    (computeSha256 plainSha256 "/backups/1" dumpedTree.entries =
        computeSha256 plainSha256 "/backups/1" shiftedTree.entries ∧
      verifyBackup hashingTools (plainHost ["app"]) shiftedStore "1" = .ok true ∧
      ¬SameFiles dumpedTree shiftedTree) ∧
    (computeSha256 plainSha256 "/backups/1" dumpedTree.entries =
        computeSha256 plainSha256 "/backups/1" movedTree.entries ∧
      ¬SameFiles dumpedTree movedTree) := by
  have hshifted : Recut dumpedTree.contents shiftedTree.contents := by
    rw [recut_iff]
    decide +kernel
  have hmoved : Recut dumpedTree.contents movedTree.contents := by
    rw [recut_iff]
    decide +kernel
  have hmissing : (["b.bson"], some [98]) ∉ shiftedTree.entries ∧
      (["b.bson"], some [98]) ∉ movedTree.entries := by decide
  have hmem : (["b.bson"], some [98]) ∈ dumpedTree.entries := by decide
  have hstored : shiftedRecord ∈ shiftedStore.history := List.mem_cons_self
  refine ⟨⟨?_, ?_, fun hsame => hmissing.1 ((hsame _ _).mp hmem)⟩,
    ⟨?_, fun hsame => hmissing.2 ((hsame _ _).mp hmem)⟩⟩
  · exact (DirectoryTree.computeSha256_eq_iff plainSha256_injective).mpr hshifted
  · exact (verifyBackup_eq_ok_true_iff_recut plainSha256_injective plainSha256_ne_empty rfl rfl
      hstored (by decide +kernel)).mpr hshifted
  · exact (DirectoryTree.computeSha256_eq_iff plainSha256_injective).mpr hmoved

end Sentora.Backup
