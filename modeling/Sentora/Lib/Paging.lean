import Sentora.Lib.Attempts

/-!
# Scans of paged listings

`scan` fetches one page after the other and handles its items, until a page has no
successor.  `returns_scan` is the rule for a scan that nobody disturbs.  It asks
what one fetch and one item do to an invariant of the items handled so far.
`enduresOr_scan` is the rule for a scan in an environment, which carries an
assertion from page to page and, within a page, from item to item.
-/

namespace Lib

/-- Items, and where the next page starts. -/
structure Page (ι κ : Type) where
  items : List ι
  next : Option κ

section Scan

open Process

variable {σ ℓ ε ι κ α β : Type} {fetch : β → Option κ → ExceptT ε (Process σ ℓ) (Page ι κ)}
  {handle : β → ι → ExceptT ε (Process σ ℓ) β} {stuck : β → ε}
variable {cursor : Option κ} {pages : Nat} {b : β} {s : σ}

/-- Pages from a cursor on, and what is made of their items.  The number bounds the
pages fetched. -/
def scan (fetch : β → Option κ → ExceptT ε (Process σ ℓ) (Page ι κ))
    (handle : β → ι → ExceptT ε (Process σ ℓ) β) (stuck : β → ε) :
    Nat → Option κ → β → ExceptT ε (Process σ ℓ) β
  | 0, _, b => throw (stuck b)
  | pages + 1, cursor, b => do
    let page ← fetch b cursor
    let b' ← page.items.foldlM handle b
    match page.next with
    | none => pure b'
    | some c => scan fetch handle stuck pages (some c) b'

/-- Items in turn, each of which takes the invariant a step further. -/
theorem returns_foldlM {γ : Type} (item : ι → γ) {Inv : List γ → β → σ → Prop} {ys : List ι}
    (hhandle : ∀ done b s y, y ∈ ys → Inv done b s →
      ∃ b' s', Returns (handle b y) s b' s' ∧ Inv (done ++ [item y]) b' s')
    {done : List γ} (h : Inv done b s) :
    ∃ b' s', Returns (ys.foldlM handle b) s b' s' ∧ Inv (done ++ ys.map item) b' s' := by
  induction ys generalizing done b s with
  | nil => exact ⟨b, s, returns_pure.mpr ⟨rfl, rfl⟩, by rwa [List.map_nil, List.append_nil]⟩
  | cons y ys ih =>
    obtain ⟨b₁, s₁, hfirst, hinv₁⟩ := hhandle done b s y List.mem_cons_self h
    obtain ⟨b₂, s₂, hrest, hinv₂⟩ :=
      ih (fun d c t z hz => hhandle d c t z (List.mem_cons_of_mem y hz)) hinv₁
    rw [List.append_assoc] at hinv₂
    refine ⟨b₂, s₂, ?_, hinv₂⟩
    rw [List.foldlM_cons]
    exact returns_bind.mpr ⟨b₁, s₁, hfirst, hrest⟩

theorem returns_scan {γ : Type} (item : ι → γ) (rest : Option κ → List γ)
    (Inv : List γ → β → σ → Prop)
    (hfetch : ∀ done b s cursor, Inv done b s → ∃ page s', Returns (fetch b cursor) s page s' ∧
      Inv done b s' ∧ (page.next = none → page.items.map item = rest cursor) ∧
      ∀ c, page.next = some c →
        page.items ≠ [] ∧ page.items.map item ++ rest (some c) = rest cursor)
    (hhandle : ∀ done b s y, Inv done b s →
      ∃ b' s', Returns (handle b y) s b' s' ∧ Inv (done ++ [item y]) b' s')
    (hpages : (rest cursor).length < pages) {done : List γ} (h : Inv done b s) :
    ∃ b' s', Returns (scan fetch handle stuck pages cursor b) s b' s' ∧
      Inv (done ++ rest cursor) b' s' := by
  induction pages generalizing cursor done b s with
  | zero => exact absurd hpages (Nat.not_lt_zero _)
  | succ pages ih =>
    obtain ⟨page, s₁, hpage, hinv₁, hlast, hmore⟩ := hfetch done b s cursor h
    obtain ⟨b₂, s₂, hitems, hinv₂⟩ :=
      returns_foldlM item (fun d c t y (_ : y ∈ page.items) => hhandle d c t y) hinv₁
    rw [scan]
    cases hnext : page.next with
    | none =>
      rw [hlast hnext] at hinv₂
      refine ⟨b₂, s₂, ?_, hinv₂⟩
      refine returns_bind.mpr ⟨page, s₁, hpage, returns_bind.mpr ⟨b₂, s₂, hitems, ?_⟩⟩
      rw [hnext]
      exact returns_pure.mpr ⟨rfl, rfl⟩
    | some c =>
      obtain ⟨hne, hsplit⟩ := hmore c hnext
      have hshorter : (rest (some c)).length < pages := by
        have hlength := congrArg List.length hsplit
        have hpos : 0 < page.items.length := List.length_pos_iff.mpr hne
        rw [List.length_append, List.length_map] at hlength
        omega
      obtain ⟨b₃, s₃, hrest, hinv₃⟩ := ih hshorter hinv₂
      rw [List.append_assoc, hsplit] at hinv₃
      refine ⟨b₃, s₃, ?_, hinv₃⟩
      refine returns_bind.mpr ⟨page, s₁, hpage, returns_bind.mpr ⟨b₂, s₂, hitems, ?_⟩⟩
      rw [hnext]
      exact hrest

theorem leaves_scan {τ : Type} {g : σ → τ} (hfetch : ∀ b cursor, Leaves g (fetch b cursor))
    (hhandle : ∀ b y, Leaves g (handle b y)) :
    Leaves g (scan fetch handle stuck pages cursor b) := by
  have hitems : ∀ (ys : List ι) b, Leaves g (ys.foldlM handle b) := by
    intro ys
    induction ys with
    | nil => exact leaves_pure
    | cons y ys ih =>
      intro b
      rw [List.foldlM_cons]
      exact (hhandle b y).bind ih
  induction pages generalizing cursor b with
  | zero => exact fun _ _ _ h => absurd h returns_throw
  | succ pages ih =>
    rw [scan]
    refine (hfetch b cursor).bind fun page => (hitems page.items b).bind fun b' => ?_
    cases page.next with
    | none => exact leaves_pure b'
    | some c => exact ih

theorem enduresOr_scan {R : σ → σ → Prop} {I : σ → Prop} {E : σ → ε → Prop}
    (J : Nat → Option κ → β → σ → Prop) (K : Nat → List ι → Option κ → β → σ → Prop)
    (hstuck : ∀ cursor b s, J 0 cursor b s → E s (stuck b))
    (hfetch : ∀ n cursor b s, J (n + 1) cursor b s →
      EnduresOr R I (fun t page => K n page.items page.next b t) E s (fetch b cursor))
    (hhandle : ∀ n y ys next b s, K n (y :: ys) next b s →
      EnduresOr R I (fun t b' => K n ys next b' t) E s (handle b y))
    (hnext : ∀ n c b s, K n [] (some c) b s → J n (some c) b s) (h : J pages cursor b s) :
    EnduresOr R I (fun t b' => ∃ n, K n [] none b' t) E s
      (scan fetch handle stuck pages cursor b) := by
  induction pages generalizing cursor b s with
  | zero => exact enduresOr_throw (hstuck cursor b s h)
  | succ pages ih =>
    rw [scan]
    refine (hfetch pages cursor b s h).bind fun t page hpage => ?_
    have hitems := enduresOr_foldlM (R := R) (I := I) (E := E)
      (K := fun ys b' t => K pages ys page.next b' t)
      (fun y ys b' t => hhandle pages y ys page.next b' t) hpage
    refine hitems.bind fun t' b' hb' => ?_
    cases hnext' : page.next with
    | none =>
      rw [hnext'] at hb'
      exact enduresOr_pure ⟨pages, hb'⟩
    | some c =>
      rw [hnext'] at hb'
      exact ih (hnext pages c b' t' hb')

end Scan

section Scroll

variable {α : Type}

/-- How a listing is cut into batches, none of which is empty. -/
structure Split (α : Type) where
  batches : List α → List (List α)
  flatten_batches : ∀ xs, (batches xs).flatten = xs
  nonempty : ∀ xs, [] ∉ batches xs

def Split.whole : Split α where
  batches xs := if xs.isEmpty then [] else [xs]
  flatten_batches xs := by cases xs <;> simp
  nonempty xs := by cases xs <;> simp

/-- The batches from a position on. -/
def Split.rest (split : Split α) (xs : List α) (cursor : Option Nat) : List (List α) :=
  (split.batches xs).drop (cursor.getD 0)

def Split.page (split : Split α) (xs : List α) (cursor : Option Nat) : Page (List α) Nat where
  items := (split.rest xs cursor).take 1
  next := if 1 < (split.rest xs cursor).length then some (cursor.getD 0 + 1) else none

variable {split : Split α} {xs : List α} {cursor : Option Nat}

theorem Split.last_page (h : (split.page xs cursor).next = none) :
    (split.page xs cursor).items = split.rest xs cursor := by
  unfold page at h ⊢
  dsimp only at h ⊢
  refine List.take_of_length_le ?_
  by_contra hmore
  rw [if_pos (by omega)] at h
  cases h

theorem Split.next_page {c : Nat} (h : (split.page xs cursor).next = some c) :
    (split.page xs cursor).items ≠ [] ∧
      (split.page xs cursor).items ++ split.rest xs (some c) = split.rest xs cursor := by
  unfold page at h ⊢
  dsimp only at h ⊢
  by_cases hmore : 1 < (split.rest xs cursor).length
  · rw [if_pos hmore, Option.some.injEq] at h
    constructor
    · intro hnil
      have hlength := congrArg List.length hnil
      rw [List.length_take, List.length_nil] at hlength
      omega
    · rw [← h]
      unfold rest
      rw [Option.getD_some, ← List.drop_drop]
      exact List.take_append_drop 1 _
  · rw [if_neg hmore] at h
    cases h

theorem Split.next_eq_none_iff :
    (split.page xs cursor).next = none ↔ ¬1 < (split.rest xs cursor).length := by
  unfold page
  by_cases hmore : 1 < (split.rest xs cursor).length
  · simp [hmore]
  · simp [hmore]

theorem Split.page_append_rest :
    (split.page xs cursor).items ++
        ((split.page xs cursor).next.map fun c => split.rest xs (some c)).getD [] =
      split.rest xs cursor := by
  cases hnext : (split.page xs cursor).next with
  | none => exact (List.append_nil _).trans (Split.last_page hnext)
  | some c => exact (Split.next_page hnext).2

theorem Split.length_page_add_rest :
    (split.page xs cursor).items.flatten.length +
        ((split.page xs cursor).next.map fun c => (split.rest xs (some c)).flatten.length).getD 0 =
      (split.rest xs cursor).flatten.length := by
  rw [← @Split.page_append_rest α split xs cursor, List.flatten_append, List.length_append]
  cases (split.page xs cursor).next with
  | none => rfl
  | some c => rfl

theorem Split.length_rest_lt {c : Nat} (h : (split.page xs cursor).next = some c) :
    (split.rest xs (some c)).length < (split.rest xs cursor).length := by
  obtain ⟨hne, hsplit⟩ := Split.next_page h
  have hlength := congrArg List.length hsplit
  have hpos := List.length_pos_iff.mpr hne
  rw [List.length_append] at hlength
  omega

theorem Split.page_subset : (split.page xs cursor).items.flatten ⊆ xs := by
  intro x hx
  obtain ⟨batch, hbatch, hin⟩ := List.mem_flatten.mp hx
  rw [← split.flatten_batches xs]
  exact List.mem_flatten.mpr
    ⟨batch, List.mem_of_mem_drop (List.mem_of_mem_take hbatch), hin⟩

theorem Split.length_le (split : Split α) (xs : List α) :
    (split.batches xs).length ≤ xs.length := by
  have hcount : ∀ bs : List (List α), [] ∉ bs → bs.length ≤ bs.flatten.length := by
    intro bs
    induction bs with
    | nil => simp
    | cons b bs ih =>
      intro hnot
      rw [List.mem_cons, not_or] at hnot
      have hpos : 0 < b.length := List.length_pos_iff.mpr fun heq => hnot.1 heq.symm
      have hrest := ih hnot.2
      simp only [List.length_cons, List.flatten_cons, List.length_append]
      omega
  have hlength := hcount _ (split.nonempty xs)
  rw [split.flatten_batches] at hlength
  exact hlength

end Scroll

section Keyset

variable {α : Type} {idOf : α → Nat} {limit : Nat} {xs : List α} {cursor : Option Nat}

def after (idOf : α → Nat) (xs : List α) : Option Nat → List α
  | none => xs
  | some c => xs.filter fun x => c < idOf x

def keysetPage (idOf : α → Nat) (limit : Nat) (xs : List α) (cursor : Option Nat) : Page α Nat where
  items := (after idOf xs cursor).take limit
  next :=
    if limit < (after idOf xs cursor).length then
      ((after idOf xs cursor).take limit).getLast?.map idOf
    else none

theorem after_sorted (h : xs.Pairwise (fun x y => idOf x < idOf y)) (cursor : Option Nat) :
    (after idOf xs cursor).Pairwise (fun x y => idOf x < idOf y) := by
  cases cursor with
  | none => exact h
  | some c => exact h.filter _

theorem after_sublist (cursor : Option Nat) : (after idOf xs cursor).Sublist xs := by
  cases cursor with
  | none => exact List.Sublist.refl xs
  | some c => exact List.filter_sublist

theorem after_length_le (cursor : Option Nat) : (after idOf xs cursor).length ≤ xs.length :=
  (after_sublist cursor).length_le

/-- In a sorted listing, what comes after an item is what stands behind it. -/
theorem filter_of_append {x : α} {before behind : List α}
    (h : (before ++ x :: behind).Pairwise (fun y z => idOf y < idOf z)) :
    (before ++ x :: behind).filter (fun y => idOf x < idOf y) = behind := by
  rw [List.pairwise_append, List.pairwise_cons] at h
  obtain ⟨-, ⟨hbehind, -⟩, hbefore⟩ := h
  have hfirst : before.filter (fun y => idOf x < idOf y) = [] := by
    rw [List.filter_eq_nil_iff]
    intro y hy
    have hlt := hbefore y hy x List.mem_cons_self
    rw [decide_eq_true_eq]
    omega
  have hrest : behind.filter (fun y => idOf x < idOf y) = behind := by
    rw [List.filter_eq_self]
    intro y hy
    rw [decide_eq_true_eq]
    exact hbehind y hy
  rw [List.filter_append, hfirst, List.nil_append, List.filter_cons_of_neg, hrest]
  rw [decide_eq_true_eq]
  exact Nat.lt_irrefl _

theorem after_after {c : Nat} (h : ∀ d ∈ cursor, d ≤ c) :
    after idOf xs (some c) = (after idOf xs cursor).filter fun x => c < idOf x := by
  cases cursor with
  | none => rfl
  | some d =>
    have hd : d ≤ c := h d rfl
    show xs.filter _ = (xs.filter _).filter _
    rw [List.filter_filter]
    apply List.filter_congr
    intro x _
    by_cases hc : c < idOf x
    · have hd' : d < idOf x := by omega
      simp [hc, hd']
    · simp [hc]

theorem last_page (h : (keysetPage idOf limit xs cursor).next = none) (hlimit : 0 < limit) :
    (keysetPage idOf limit xs cursor).items = after idOf xs cursor := by
  unfold keysetPage at h ⊢
  dsimp only at h ⊢
  by_cases hlt : limit < (after idOf xs cursor).length
  · rw [if_pos hlt, Option.map_eq_none_iff, List.getLast?_eq_none_iff] at h
    have hlength := congrArg List.length h
    rw [List.length_take, List.length_nil] at hlength
    omega
  · exact List.take_of_length_le (Nat.le_of_not_lt hlt)

theorem next_page {c : Nat} (hsorted : xs.Pairwise (fun x y => idOf x < idOf y))
    (h : (keysetPage idOf limit xs cursor).next = some c) :
    (keysetPage idOf limit xs cursor).items ≠ [] ∧
      (keysetPage idOf limit xs cursor).items ++ after idOf xs (some c) =
        after idOf xs cursor := by
  unfold keysetPage at h ⊢
  dsimp only at h ⊢
  by_cases hlt : limit < (after idOf xs cursor).length
  · rw [if_pos hlt, Option.map_eq_some_iff] at h
    obtain ⟨x, hlast, rfl⟩ := h
    obtain ⟨before, hpage⟩ := List.getLast?_eq_some_iff.mp hlast
    have hne : (after idOf xs cursor).take limit ≠ [] := by
      rw [hpage]
      exact List.concat_ne_nil x before
    have hwhole : after idOf xs cursor = before ++ x :: (after idOf xs cursor).drop limit := by
      calc after idOf xs cursor
          = (after idOf xs cursor).take limit ++ (after idOf xs cursor).drop limit :=
            (List.take_append_drop limit _).symm
        _ = before ++ x :: (after idOf xs cursor).drop limit := by
            rw [hpage, List.append_assoc]
            rfl
    have hcursor : ∀ d ∈ cursor, d ≤ idOf x := by
      intro d hd
      have hx : x ∈ after idOf xs cursor := by
        rw [hwhole]
        exact List.mem_append_right _ List.mem_cons_self
      rw [show cursor = some d from hd] at hx
      have hlt := (List.mem_filter.mp hx).2
      rw [decide_eq_true_eq] at hlt
      omega
    have hs := after_sorted hsorted cursor
    have hrest : after idOf xs (some (idOf x)) = (after idOf xs cursor).drop limit := by
      rw [after_after hcursor]
      generalize (after idOf xs cursor).drop limit = behind at hwhole ⊢
      rw [hwhole] at hs ⊢
      exact filter_of_append hs
    refine ⟨hne, ?_⟩
    rw [hrest]
    exact List.take_append_drop limit _
  · rw [if_neg hlt] at h
    cases h

end Keyset

end Lib
