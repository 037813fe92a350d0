import Sentora.Audit.Build

/-!
# Hashes through storage

The details of an entry are hashed as the caller has passed them, and hashed again as
MongoDB gives them back.  `default=str` writes an aware datetime with its offset and
the naive one that comes back without, so that the two hashes differ as soon as the
details hold a datetime at any depth.
-/

namespace Sentora

open Lib

namespace DateTime

theorem pad_isDigit (width n : Nat) : ∀ c ∈ pad width n, c.isDigit = true := by
  intro c hc
  obtain hc | hc := List.mem_append.1 hc
  · rw [List.eq_of_mem_replicate hc]
    rfl
  · exact Nat.isDigit_of_mem_toDigits (by omega) (by omega) hc

theorem count_pad (width n : Nat) : (pad width n).count ':' = 0 := by
  apply List.count_eq_zero.2
  intro hc
  exact absurd (pad_isDigit width n ':' hc) (by decide)

theorem count_isoText (sep : Char) (hsep : sep ≠ ':') (t : DateTime) :
    (t.isoText sep).count ':' = 2 + (offsetText t.tz).count ':' := by
  have hmicro : (if t.microsecond = 0 then [] else '.' :: pad 6 t.microsecond).count ':' = 0 := by
    split
    · rfl
    · simp [count_pad]
  simp [isoText, dateText, clockText, count_pad, hsep, hmicro]
  omega

theorem count_offsetText (o : Int) : 1 ≤ (offsetText (some o)).count ':' := by
  apply List.one_le_count_iff.2
  simp [offsetText]

theorem str_stored_ne {t : DateTime} (h : t.tz.isSome) : t.stored.str ≠ t.str := by
  intro heq
  obtain ⟨o, ho⟩ := Option.isSome_iff_exists.1 h
  have htext : t.stored.isoText ' ' = t.isoText ' ' := String.ofList_injective heq
  have hcount := congrArg (List.count ':') htext
  rw [count_isoText _ (by decide), count_isoText _ (by decide), ho] at hcount
  have hoffset := count_offsetText o
  have hnaive : (offsetText t.stored.tz).count ':' = 0 := rfl
  omega

end DateTime

namespace Val

mutual
/-- What MongoDB stores: JSON values and aware datetimes at any depth. -/
def storable : Val → Bool
  | .date t => t.tz.isSome
  | .other _ => false
  | .list xs => storableList xs
  | .dict kvs => storableMembers kvs
  | _ => true

def storableList : List Val → Bool
  | [] => true
  | x :: xs => x.storable && storableList xs

def storableMembers : List (String × Val) → Bool
  | [] => true
  | (_, v) :: kvs => v.storable && storableMembers kvs
end

theorem keys_storedMembers (kvs : List (String × Val)) :
    (toJsonMembers (storedMembers kvs)).map Prod.fst = (toJsonMembers kvs).map Prod.fst := by
  induction kvs with
  | nil => rfl
  | cons kv kvs ih => simp only [storedMembers, toJsonMembers, List.map_cons, ih]

mutual
theorem stable_iff_plain (v : Val) (h : v.storable = true) :
    v.stored.toJson = v.toJson ↔ v.plain = true := by
  cases v with
  | date t =>
    simp only [storable] at h
    simp [stored, toJson, plain, DateTime.str_stored_ne h]
  | other text => cases h
  | list xs =>
    simp only [storable] at h
    simp only [stored, toJson, plain, Json.arr.injEq]
    exact stable_iff_plainList xs h
  | dict kvs =>
    simp only [storable] at h
    simp only [stored, toJson, plain, Json.obj.injEq]
    rw [← stable_iff_plainMembers kvs h]
    exact ⟨eq_of_sortBy_eq Prod.fst (keys_storedMembers kvs), fun heq => by rw [heq]⟩
  | _ => simp [stored, plain]

theorem stable_iff_plainList (xs : List Val) (h : storableList xs = true) :
    toJsonList (storedList xs) = toJsonList xs ↔ plainList xs = true := by
  match xs with
  | [] => simp [storedList, plainList]
  | x :: xs =>
    simp only [storableList, Bool.and_eq_true] at h
    simp only [storedList, toJsonList, plainList, Bool.and_eq_true, List.cons.injEq,
      stable_iff_plain x h.1, stable_iff_plainList xs h.2]

theorem stable_iff_plainMembers (kvs : List (String × Val)) (h : storableMembers kvs = true) :
    toJsonMembers (storedMembers kvs) = toJsonMembers kvs ↔ plainMembers kvs = true := by
  match kvs with
  | [] => simp [storedMembers, plainMembers]
  | (k, v) :: kvs =>
    simp only [storableMembers, Bool.and_eq_true] at h
    simp only [storedMembers, toJsonMembers, plainMembers, Bool.and_eq_true, List.cons.injEq,
      Prod.mk.injEq, true_and, stable_iff_plain v h.1, stable_iff_plainMembers kvs h.2]
end

end Val

namespace Audit

def storedEntry (rt : Runtime) (a : AppendArgs) (sequence epoch : Int) (previousHash : Val)
    (isEpochStart : Bool) (prevEpochHash : Val) (oid : Nat) : Doc :=
  readBack (withHash rt
    (chainEntry a sequence epoch previousHash isEpochStart prevEpochHash) previousHash) oid

/-- The hash that the append computes is the one that `_verify_batch` recomputes. -/
def HashSurvives (rt : Runtime) (a : AppendArgs) (sequence epoch : Int) (previousHash : Val)
    (isEpochStart : Bool) (prevEpochHash : Val) (oid : Nat) : Prop :=
  let stored := storedEntry rt a sequence epoch previousHash isEpochStart prevEpochHash oid
  ∃ h, computeEntryHash rt (chainEntry a sequence epoch previousHash isEpochStart prevEpochHash)
      previousHash = .ok h ∧
    computeEntryHash rt stored (get stored.previousHash) = .ok h

theorem hashSurvives_iff_entryOk {rt : Runtime} {a : AppendArgs} {n e : Int} {p peh : Val}
    {start : Bool} {oid : Nat} (hp : HashRef p) :
    HashSurvives rt a n e p start peh oid ↔ EntryOk rt (storedEntry rt a n e p start peh oid) := by
  obtain ⟨h, hh⟩ : ∃ h, computeEntryHash rt (chainEntry a n e p start peh) p = .ok h :=
    computeEntryHash_exists rfl rfl
  have hread : storedEntry rt a n e p start peh oid =
      { (chainEntry a n e p start peh).stored with oid := oid, hash := some (.str h) } := by
    rw [storedEntry, withHash, hh]
    rfl
  have hprev : get (storedEntry rt a n e p start peh oid).previousHash = p := by
    rw [hread]
    exact stored_hashRef hp
  simp only [HashSurvives, hprev, EntryOk, prevOf, hh, Except.ok.injEq, hashOf]
  rw [hread]
  constructor
  · rintro ⟨g, rfl, hg⟩
    exact ⟨h, hg, rfl⟩
  · rintro ⟨g, hg, hstored⟩
    exact ⟨h, rfl, by rw [hg, Val.str.inj hstored]⟩

/-- The hash of an entry survives storage exactly when its details hold no datetime. -/
theorem hash_survives_iff (rt : Runtime) (hrt : rt.CollisionFree) (a : AppendArgs)
    (sequence epoch : Int) (previousHash : Val) (isEpochStart : Bool) (prevEpochHash : Val)
    (oid : Nat) (hprevious : HashRef previousHash)
    (hdetails : (Val.dict (a.details.getD [])).storable = true) :
    HashSurvives rt a sequence epoch previousHash isEpochStart prevEpochHash oid ↔
      (Val.dict (a.details.getD [])).plain = true := by
  have hstable : EntryOk rt
      (storedEntry rt a sequence epoch previousHash isEpochStart prevEpochHash oid) ↔
        (Val.dict (a.details.getD [])).Stable :=
    ⟨stable_of_entryOk hrt hprevious, entryOk_chainEntry hprevious⟩
  rw [hashSurvives_iff_entryOk hprevious, hstable]
  exact Val.stable_iff_plain _ hdetails

def datedAppend : AppendArgs :=
  { sampleAppend with details := some [("seen", .list [.date (utcNow sampleClock)])] }

theorem hash_survives_iff_datedAppend :
    HashSurvives .tagged datedAppend 1 0 (.str "previous") false .none 1 ↔
      (Val.dict (datedAppend.details.getD [])).plain = true :=
  hash_survives_iff .tagged Runtime.tagged_collisionFree datedAppend 1 0 (.str "previous") false
    .none 1 (Or.inr ⟨_, rfl⟩) rfl

/-- The stored datetime has lost its offset. -/
theorem dated_details_rehash :
    ¬∀ (rt : Runtime), rt.CollisionFree → ∀ (a : AppendArgs) (sequence epoch : Int)
      (previousHash : Val) (isEpochStart : Bool) (prevEpochHash : Val) (oid : Nat),
      HashRef previousHash → (Val.dict (a.details.getD [])).storable = true →
      HashSurvives rt a sequence epoch previousHash isEpochStart prevEpochHash oid := by
  intro hclaim
  have hsurvives := hclaim .tagged Runtime.tagged_collisionFree datedAppend 1 0 (.str "previous")
    false .none 1 (Or.inr ⟨_, rfl⟩) rfl
  have hentry : EntryOk .tagged
      (storedEntry .tagged datedAppend 1 0 (.str "previous") false .none 1) :=
    (hashSurvives_iff_entryOk (Or.inr ⟨_, rfl⟩)).mp hsurvives
  have hstable := stable_of_entryOk Runtime.tagged_collisionFree (Or.inr ⟨_, rfl⟩) hentry
  have hplain := (Val.stable_iff_plain _ rfl).mp hstable
  cases hplain

end Audit

end Sentora
