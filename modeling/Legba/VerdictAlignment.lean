import Legba.LoadedJson
import Legba.ParallelLists
import Legba.Words
import Mathlib.Data.Rat.Defs
import Mathlib.Data.String.Basic

/-!
# Verdicts and the claims they name

The judge answers a partition of claims with a list of verdicts.  An entry may
name its claim, or an array beside the verdicts may name the claims of all of
them.  Where every entry names a claim of its own the verdicts are put where
the names say, and a few may be missing; otherwise the list must be complete,
and the verdicts are taken in its order.
-/

namespace Legba.VerdictAlignment

open LoadedJson ParallelLists List

universe u

variable {F : Type u}

abbrev Text := List Char

abbrev Fields (F : Type u) := List (Text × Value F)

def partialVerdictBudget (nClaims : ℤ) : ℤ :=
  max 2 (-(-(max 0 nClaims) / 10))

def verdictIdKeys : List Text :=
  ["claim", "claim_index", "claim_id", "claim_no", "claim_number", "index",
    "idx", "number", "no", "n", "id", "i"].map String.toList

def verdictValueKeys : List Text :=
  ["verdict", "value", "label", "grade", "result", "v"].map String.toList

def verdictQuoteKeys : List Text :=
  ["quote", "evidence", "span"].map String.toList

def verdictIdSidecars : List Text :=
  ["claim_indices", "claim_ids", "claim_numbers", "claims", "indices"].map String.toList

structure Digits where
  isDigit : Char → Bool
  isSpace : Char → Bool
  digitValue : Char → ℕ

section

variable (D : Digits)

/-- The group of `_CLAIM_ORDINAL_RE`, as a number. -/
def ordinalOf (text : Text) : Option ℕ :=
  let body := text.dropWhile fun letter => letter = '#' || D.isSpace letter
  let digits := body.takeWhile D.isDigit
  let rest := (body.dropWhile D.isDigit).dropWhile D.isSpace
  if digits ≠ [] ∧ digits.length ≤ 4 ∧ [[], ['.'], [')'], [':'], [']']].contains rest then
    some (digits.foldl (fun n digit => 10 * n + D.digitValue digit) 0)
  else none

def ordinalNumber (value : Value F) : Option ℤ :=
  match value with
  | .int n => some n
  | .string text => (ordinalOf D (Words.strip D.isSpace text)).map Int.ofNat
  | _ => none

def claimOrdinal (nClaims : ℕ) (value : Value F) : Option ℕ :=
  (ordinalNumber D value).bind fun n =>
    if 1 ≤ n ∧ n ≤ nClaims then some (n - 1).toNat else none

def entryVerdict (entry : Value F) : Value F :=
  match entry with
  | .object fields => (verdictValueKeys.findSome? (get? fields)).getD (.string [])
  | _ => entry

def entryQuote (entry : Value F) : Option Text :=
  match entry with
  | .object fields => verdictQuoteKeys.findSome? fun key =>
    match get? fields key with
    | some (.string quote) => some quote
    | _ => none
  | _ => none

def entryIndex (nClaims : ℕ) (entry : Value F) : Option ℕ :=
  match entry with
  | .object fields => verdictIdKeys.findSome? fun key =>
    (get? fields key).bind (claimOrdinal D nClaims)
  | _ => none

def sidecarIndices (nClaims : ℕ) (length : ℕ) (sidecar : Option (Value F)) : Option (List ℕ) :=
  match sidecar with
  | some (.array items) =>
    if items.length = length then items.mapM (claimOrdinal D nClaims)
    else none
  | _ => none

/-- The claims the entries name: every one by its own key, or else all of them
by the first array which does. -/
def claimsNamed (raw : List (Value F)) (parsed : Fields F) (nClaims : ℕ) : Option (List ℕ) :=
  match raw.mapM (entryIndex D nClaims) with
  | some names => some names
  | none => verdictIdSidecars.findSome? fun key =>
    sidecarIndices D nClaims raw.length (get? parsed key)

def verdictClaimIndices (raw : List (Value F)) (parsed : Fields F)
    (nClaims : ℕ) : Option (List ℕ) :=
  if raw.isEmpty then none
  else
    match claimsNamed D raw parsed nClaims with
    | none => none
    | some names => if names.Nodup then some names else none

inductive AlignedBy where
  | claimIndex
  | positional
deriving DecidableEq

def parallelQuotes (parsed : Fields F) (length : ℕ) : List Text :=
  match get? parsed "quotes".toList with
  | some (.array items) =>
    if items.length = length then
      items.map fun item =>
        match item with
        | .string quote => quote
        | _ => []
    else replicate length []
  | _ => replicate length []

def graded (entry : Value F) (quote : Text) : Value F × Text :=
  (entryVerdict entry, (entryQuote entry).getD quote)

def gradedEntries (raw : List (Value F)) (parsed : Fields F) : List (Value F × Text) :=
  (raw.zip (parallelQuotes parsed raw.length)).map fun entry => graded entry.1 entry.2

structure Alignment (F : Type u) where
  slots : List (Option (Value F × Text))
  missing : List ℕ
  alignedBy : AlignedBy

def alignAt (names : List ℕ) (raw : List (Value F)) (parsed : Fields F)
    (nClaims : ℕ) (alignedBy : AlignedBy) : Alignment F :=
  let slots := place nClaims (names.zip (gradedEntries raw parsed))
  { slots := slots
    missing := (range slots.length).filter fun i => slots[i]?.join.isNone
    alignedBy := alignedBy }

/-- `align_verdicts`, with the text of its exception. -/
def alignVerdicts (raw : List (Value F)) (parsed : Fields F)
    (nClaims : ℕ) : Except String (Alignment F) :=
  let counts := "judge returned " ++ toString raw.length ++
    " verdicts for " ++ toString nClaims ++ " claims"
  match verdictClaimIndices D raw parsed nClaims with
  | none =>
    if raw.length ≠ nClaims then .error counts
    else .ok (alignAt (range nClaims) raw parsed nClaims .positional)
  | some names =>
    let dropped : ℤ := nClaims - raw.length
    let budget := partialVerdictBudget nClaims
    if budget < dropped then
      .error (counts ++ " — " ++ toString dropped ++
        " unchecked is over the partial budget of " ++ toString budget)
    else .ok (alignAt names raw parsed nClaims .claimIndex)

end

/-! ## Reordered replies -/

def reorderArray (order : List ℕ) (length : ℕ) : Value F → Value F
  | .array items =>
    if items.length = length then .array (reorder order items)
    else .array items
  | value => value

def parallelKeys : List Text := "quotes".toList :: verdictIdSidecars

def reorderFields (order : List ℕ) (length : ℕ) (parsed : Fields F) : Fields F :=
  parsed.map fun field =>
    (field.1,
      if parallelKeys.contains field.1 then reorderArray order length field.2
      else field.2)

theorem get?_reorderFields {order : List ℕ} {length : ℕ} {parsed : Fields F}
    {key : Text} (hkey : key ∈ parallelKeys) :
    get? (reorderFields order length parsed) key =
      (get? parsed key).map (reorderArray order length) := by
  unfold get? reorderFields
  induction parsed with
  | nil => rfl
  | cons field rest ih =>
    rw [map_cons, lookup_cons, lookup_cons]
    by_cases hfield : key = field.1
    · subst hfield
      simp [hkey]
    · have hmiss : (key == field.1) = false := beq_eq_false_iff_ne.mpr hfield
      simp only [hmiss]
      exact ih

section

variable {D : Digits} {raw : List (Value F)} {parsed : Fields F}
  {nClaims : ℕ} {order : List ℕ} {names : List ℕ}

theorem length_of_claimsNamed (hnames : claimsNamed D raw parsed nClaims = some names) :
    names.length = raw.length := by
  unfold claimsNamed at hnames
  cases hown : raw.mapM (entryIndex D nClaims) with
  | some found =>
    rw [hown, Option.some.injEq] at hnames
    subst hnames
    have hmap := congrArg length (mapM_eq_some_iff.mp hown)
    rw [length_map, length_map] at hmap
    exact hmap.symm
  | none =>
    rw [hown] at hnames
    obtain ⟨key, -, hsidecar⟩ := exists_of_findSome?_eq_some hnames
    unfold sidecarIndices at hsidecar
    cases hget : get? parsed key with
    | none => simp [hget] at hsidecar
    | some value =>
      cases value with
      | array items =>
        simp only [hget, Option.ite_none_right_eq_some] at hsidecar
        obtain ⟨hlength, hitems⟩ := hsidecar
        have hmap := congrArg length (mapM_eq_some_iff.mp hitems)
        rw [length_map, length_map] at hmap
        omega
      | _ => simp [hget] at hsidecar

theorem sidecarIndices_reorder
    (horder : order.Perm (range raw.length)) (sidecar : Option (Value F)) :
    sidecarIndices D nClaims raw.length (sidecar.map (reorderArray order raw.length)) =
      (sidecarIndices D nClaims raw.length sidecar).map (reorder order) := by
  cases sidecar with
  | none => rfl
  | some value =>
    cases value with
    | array items =>
      by_cases hlength : items.length = raw.length
      · rw [← hlength] at horder
        have hreordered : (reorder order items).length = raw.length := by
          rw [length_reorder horder, hlength]
        simp only [Option.map_some, reorderArray, if_pos hlength, sidecarIndices, if_pos hreordered]
        exact mapM_reorder horder
      · simp only [Option.map_some, reorderArray, if_neg hlength, sidecarIndices, Option.map_none]
    | _ => rfl

theorem claimsNamed_reorder (horder : order.Perm (range raw.length)) :
    claimsNamed D (reorder order raw) (reorderFields order raw.length parsed) nClaims =
      (claimsNamed D raw parsed nClaims).map (reorder order) := by
  unfold claimsNamed
  rw [mapM_reorder horder, length_reorder horder]
  cases raw.mapM (entryIndex D nClaims) with
  | some found => rfl
  | none =>
    have hkeys : ∀ key ∈ verdictIdSidecars, key ∈ parallelKeys :=
      fun key hkey => mem_cons_of_mem _ hkey
    revert hkeys
    generalize verdictIdSidecars = keys
    intro hkeys
    induction keys with
    | nil => rfl
    | cons key rest ih =>
      rw [findSome?_cons, findSome?_cons, get?_reorderFields (hkeys key
        mem_cons_self), sidecarIndices_reorder horder]
      cases sidecarIndices D nClaims raw.length (get? parsed key) with
      | some found => rfl
      | none => exact ih fun key hkey => hkeys key (.tail _ hkey)

theorem length_parallelQuotes (parsed : Fields F) (length : ℕ) :
    (parallelQuotes parsed length).length = length := by
  unfold parallelQuotes
  split
  · split
    next hlength => rw [length_map, hlength]
    next => exact length_replicate
  · exact length_replicate

theorem reorder_replicate {α : Type*} (value : α) (horder : order.Perm (range raw.length)) :
    reorder order (replicate raw.length value) = replicate raw.length value := by
  have hperm : (reorder order (replicate raw.length value)).Perm (replicate raw.length value) :=
    reorder_perm (by rw [length_replicate]; exact horder)
  exact perm_replicate.mp hperm

theorem parallelQuotes_reorder (horder : order.Perm (range raw.length)) :
    parallelQuotes (reorderFields order raw.length parsed) raw.length =
      reorder order (parallelQuotes parsed raw.length) := by
  unfold parallelQuotes
  rw [get?_reorderFields mem_cons_self]
  have hnone := reorder_replicate (F := F) ([] : Text) horder
  cases get? parsed "quotes".toList with
  | none => exact hnone.symm
  | some value =>
    cases value with
    | array items =>
      rw [Option.map_some]
      by_cases hlength : items.length = raw.length
      · rw [← hlength] at horder
        have hreordered : (reorder order items).length = raw.length := by
          rw [length_reorder horder, hlength]
        simp only [reorderArray, if_pos hlength, if_pos hreordered]
        rw [reorder_map]
      · simp only [reorderArray, if_neg hlength]
        exact hnone.symm
    | _ => exact hnone.symm

theorem gradedEntries_reorder (horder : order.Perm (range raw.length)) :
    gradedEntries (reorder order raw) (reorderFields order raw.length parsed) =
      reorder order (gradedEntries raw parsed) := by
  unfold gradedEntries
  rw [length_reorder horder, parallelQuotes_reorder horder, reorder_map,
    reorder_zip order (length_parallelQuotes parsed raw.length).symm]

theorem length_gradedEntries (raw : List (Value F)) (parsed : Fields F) :
    (gradedEntries raw parsed).length = raw.length := by
  unfold gradedEntries
  rw [length_map, length_zip, length_parallelQuotes, Nat.min_self]

theorem alignAt_reorder (horder : order.Perm (range raw.length))
    (hlength : names.length = raw.length) (hnodup : names.Nodup) (alignedBy : AlignedBy) :
    alignAt (reorder order names) (reorder order raw)
        (reorderFields order raw.length parsed) nClaims alignedBy =
      alignAt names raw parsed nClaims alignedBy := by
  have hgraded := length_gradedEntries raw parsed
  have hzip : (names.zip (gradedEntries raw parsed)).length = raw.length := by
    rw [length_zip, hgraded, hlength, Nat.min_self]
  have hperm : ((reorder order names).zip
      (reorder order (gradedEntries raw parsed))).Perm (names.zip (gradedEntries raw parsed)) := by
    rw [← reorder_zip order (hlength.trans hgraded.symm)]
    apply reorder_perm
    rw [hzip]
    exact horder
  have hfst : (names.zip (gradedEntries raw parsed)).map Prod.fst = names := map_fst_zip (by omega)
  have hplace := @place_perm _ nClaims _ _ hperm.symm (by rw [hfst]; exact hnodup)
  unfold alignAt
  rw [gradedEntries_reorder horder, hplace]

theorem alignVerdicts_reorder (horder : order.Perm (range raw.length)) (hempty : raw ≠ [])
    (hnames : claimsNamed D raw parsed nClaims = some names) (hnodup : names.Nodup) :
    alignVerdicts D (reorder order raw) (reorderFields order raw.length parsed) nClaims =
      alignVerdicts D raw parsed nClaims := by
  have hlength := length_of_claimsNamed hnames
  have hraw := length_reorder horder
  have hnames' : (reorder order names).Nodup := by
    rw [← hlength] at horder
    exact (reorder_perm horder).nodup_iff.mpr hnodup
  have hclaims : verdictClaimIndices D raw parsed nClaims = some names := by
    unfold verdictClaimIndices
    simp only [isEmpty_eq_false_iff.mpr hempty, hnames, if_pos hnodup]
    rfl
  have hempty' : reorder order raw ≠ [] := by
    intro hnil
    rw [hnil, length_nil] at hraw
    exact hempty (length_eq_zero_iff.mp hraw.symm)
  have hreordered : verdictClaimIndices D (reorder order raw)
      (reorderFields order raw.length parsed) nClaims = some (reorder order names) := by
    unfold verdictClaimIndices
    simp only [isEmpty_eq_false_iff.mpr hempty',
      claimsNamed_reorder horder, hnames, Option.map_some, if_pos hnames']
    rfl
  unfold alignVerdicts
  simp only [hclaims, hreordered, hraw, alignAt_reorder horder hlength hnodup]

end

/-! ## Where the verdicts go -/

def SidecarNames (D : Digits) (raw : List (Value F)) (parsed : Fields F)
    (nClaims : ℕ) (key : Text) (names : List ℕ) : Prop :=
  ∃ items, get? parsed key = some (.array items) ∧
    items.length = raw.length ∧
    items.map (claimOrdinal D nClaims) = names.map some

/-- Every entry names its claim by its own key or, where some entry does not,
the first full sidecar which names a claim for every entry does. -/
def NamesClaims (D : Digits) (raw : List (Value F)) (parsed : Fields F)
    (nClaims : ℕ) (names : List ℕ) : Prop :=
  raw.map (entryIndex D nClaims) = names.map some ∨
    (∃ entry ∈ raw, entryIndex D nClaims entry = none) ∧
    ∃ before key after, verdictIdSidecars = before ++ key :: after ∧
      SidecarNames D raw parsed nClaims key names ∧
      ∀ other ∈ before, ∀ others, ¬SidecarNames D raw parsed nClaims other others

section

variable {D : Digits} {raw : List (Value F)} {parsed : Fields F}
  {nClaims : ℕ} {names : List ℕ}

theorem sidecarIndices_eq_some_iff {key : Text} :
    sidecarIndices D nClaims raw.length (get? parsed key) = some names ↔
      SidecarNames D raw parsed nClaims key names := by
  unfold sidecarIndices SidecarNames
  cases get? parsed key with
  | none => simp
  | some value =>
    cases value with
    | array items => simp [mapM_eq_some_iff]
    | _ => simp

theorem claimsNamed_eq_some_iff :
    claimsNamed D raw parsed nClaims = some names ↔ NamesClaims D raw parsed nClaims names := by
  unfold claimsNamed NamesClaims
  cases hown : raw.mapM (entryIndex D nClaims) with
  | some found =>
    have hall := mapM_eq_some_iff.mp hown
    have hnone : ¬∃ entry ∈ raw, entryIndex D nClaims entry = none := by
      rw [← mapM_eq_none_iff, hown]
      simp
    simp [hall, hnone, map_inj_right]
  | none =>
    have hnot : raw.map (entryIndex D nClaims) ≠ names.map some := by
      intro hall
      rw [mapM_eq_some_iff.mpr hall] at hown
      cases hown
    have hnone := mapM_eq_none_iff.mp hown
    simp only [hnot, hnone, false_or, true_and]
    rw [findSome?_eq_some_iff]
    simp only [sidecarIndices_eq_some_iff, Option.eq_none_iff_forall_ne_some, ne_eq]

theorem claimOrdinal_lt {value : Value F} {claim : ℕ}
    (hclaim : claimOrdinal D nClaims value = some claim) : claim < nClaims := by
  obtain ⟨n, -, hn⟩ := Option.bind_eq_some_iff.mp hclaim
  rw [Option.ite_none_right_eq_some, Option.some.injEq] at hn
  omega

theorem entryIndex_lt {entry : Value F} {claim : ℕ}
    (hclaim : entryIndex D nClaims entry = some claim) : claim < nClaims := by
  cases entry with
  | object fields =>
    obtain ⟨key, -, hkey⟩ := exists_of_findSome?_eq_some hclaim
    obtain ⟨value, -, hvalue⟩ := Option.bind_eq_some_iff.mp hkey
    exact claimOrdinal_lt hvalue
  | _ => cases hclaim

theorem lt_of_map_eq {α : Type u} {f : α → Option ℕ} {items : List α}
    (hbound : ∀ item claim, f item = some claim → claim < nClaims)
    (hall : items.map f = names.map some) {name : ℕ} (hname : name ∈ names) : name < nClaims := by
  have hmem : some name ∈ items.map f := by
    rw [hall]
    exact mem_map_of_mem hname
  obtain ⟨item, -, hitem⟩ := mem_map.mp hmem
  exact hbound item name hitem

theorem NamesClaims.lt (hnames : NamesClaims D raw parsed nClaims names)
    {name : ℕ} (hname : name ∈ names) : name < nClaims := by
  rcases hnames with hown | ⟨-, before, key, after, -, hsidecar, -⟩
  · exact lt_of_map_eq (fun _ _ => entryIndex_lt) hown hname
  · obtain ⟨items, -, -, hall⟩ := hsidecar
    exact lt_of_map_eq (fun _ _ => claimOrdinal_lt) hall hname

theorem NamesClaims.length (hnames : NamesClaims D raw parsed nClaims names) :
    names.length = raw.length :=
  length_of_claimsNamed (claimsNamed_eq_some_iff.mpr hnames)

theorem verdictClaimIndices_eq_some_iff :
    verdictClaimIndices D raw parsed nClaims = some names ↔
      raw ≠ [] ∧ NamesClaims D raw parsed nClaims names ∧ names.Nodup := by
  rw [← claimsNamed_eq_some_iff]
  unfold verdictClaimIndices
  cases raw with
  | nil => simp
  | cons entry rest =>
    cases claimsNamed D (entry :: rest) parsed nClaims with
    | none => simp
    | some found =>
      by_cases hnodup : found.Nodup
      · simp [hnodup]
        rintro rfl
        exact hnodup
      · simp [hnodup]
        rintro rfl
        exact hnodup

def unnamed (names : List ℕ) (nClaims : ℕ) : List ℕ :=
  (range nClaims).filter (· ∉ names)

theorem length_unnamed (hnodup : names.Nodup) (hlt : ∀ name ∈ names, name < nClaims) :
    (unnamed names nClaims).length + names.length = nClaims := by
  have hperm : ((range nClaims).filter (· ∈ names)).Perm names := by
    rw [perm_ext_iff_of_nodup (nodup_range.filter _) hnodup]
    intro name
    rw [mem_filter, mem_range, decide_eq_true_eq]
    exact ⟨fun h => h.2, fun h => ⟨hlt name h, h⟩⟩
  have hsplit := length_eq_length_filter_add (l := range nClaims) (· ∈ names)
  rw [length_range, hperm.length_eq] at hsplit
  have hcomplement : ((range nClaims).filter
      (fun name => !decide (name ∈ names))) = unnamed names nClaims := by
    unfold unnamed
    simp only [decide_not]
  rw [hcomplement] at hsplit
  omega

/-- Every verdict stands with its quote in the slot of the claim it names, and
the other slots are empty and listed. -/
structure PlacedByName (names : List ℕ) (raw : List (Value F))
    (parsed : Fields F) (nClaims : ℕ) (alignment : Alignment F) : Prop where
  alignedBy : alignment.alignedBy = .claimIndex
  length_slots : alignment.slots.length = nClaims
  named : ∀ (position name : ℕ) (entry : Value F) (quote : Text),
    names[position]? = some name → raw[position]? = some entry →
    (parallelQuotes parsed raw.length)[position]? = some quote →
    alignment.slots[name]? = some (some (graded entry quote))
  others : ∀ claim < nClaims, claim ∉ names → alignment.slots[claim]? = some none
  missing : alignment.missing = unnamed names nClaims

theorem gradedEntries_getElem? {position : ℕ} {entry : Value F} {quote : Text}
    (hentry : raw[position]? = some entry)
    (hquote : (parallelQuotes parsed raw.length)[position]? = some quote) :
    (gradedEntries raw parsed)[position]? = some (graded entry quote) := by
  unfold gradedEntries
  have hzip : (raw.zip (parallelQuotes parsed raw.length))[position]? = some (entry, quote) :=
    getElem?_zip_eq_some.mpr ⟨hentry, hquote⟩
  rw [getElem?_map, hzip]
  rfl

theorem alignAt_placed (hnodup : names.Nodup) (hlt : ∀ name ∈ names, name < nClaims)
    (hlength : names.length = raw.length) :
    PlacedByName names raw parsed nClaims (alignAt names raw parsed nClaims .claimIndex) := by
  have hgraded := length_gradedEntries raw parsed
  have hnamed : ∀ (position name : ℕ) (value : Value F × Text),
      names[position]? = some name →
      (gradedEntries raw parsed)[position]? = some value →
      (place nClaims (names.zip (gradedEntries raw parsed)))[name]? = some (some value) := by
    intro position name value hname hvalue
    exact place_zip_getElem? hnodup (hlength.trans hgraded.symm)
      (hlt name (mem_of_getElem? hname)) hname hvalue
  have hothers : ∀ claim < nClaims, claim ∉ names →
      (place nClaims (names.zip (gradedEntries raw parsed)))[claim]? = some none := by
    intro claim hclaim hnot
    apply place_of_notMem hclaim
    rw [map_fst_zip (by omega)]
    exact hnot
  refine ⟨rfl, length_place _ _, ?_, hothers, ?_⟩
  · intro position name entry quote hname hentry hquote
    exact hnamed position name _ hname (gradedEntries_getElem? hentry hquote)
  · simp only [alignAt, unnamed, length_place]
    apply filter_congr
    intro claim hclaim
    rw [mem_range] at hclaim
    by_cases hmem : claim ∈ names
    · obtain ⟨position, hposition, hname⟩ := mem_iff_getElem.mp hmem
      have hvalue := getElem?_eq_getElem
        (show position < (gradedEntries raw parsed).length by omega)
      have hslot := hnamed position claim _ (by rw [getElem?_eq_getElem hposition, hname]) hvalue
      simp [hslot, hmem]
    · simp [hothers claim hclaim hmem, hmem]

theorem alignAt_positional (hlength : raw.length = nClaims) :
    alignAt (range nClaims) raw parsed nClaims .positional =
      { slots := (gradedEntries raw parsed).map some
        missing := []
        alignedBy := .positional } := by
  have hplace := place_range (gradedEntries raw parsed)
  rw [length_gradedEntries, hlength] at hplace
  unfold alignAt
  rw [hplace]
  simp only [Alignment.mk.injEq, true_and, and_true]
  rw [filter_eq_nil_iff]
  intro claim hclaim
  rw [mem_range, length_map] at hclaim
  simp [hclaim]

end

/-- Where the entries name distinct claims the verdicts stand with their claims
in whatever order they come, and the reply is refused when too many claims are
missing; otherwise the verdicts are taken in order, if there is one for every
claim. -/
theorem alignVerdicts_by_identity (D : Digits) (raw : List (Value F))
    (parsed : Fields F) (nClaims : ℕ) :
    (∀ names, raw ≠ [] → NamesClaims D raw parsed nClaims names →
      names.Nodup →
      (match alignVerdicts D raw parsed nClaims with
        | .error _ => partialVerdictBudget nClaims < (unnamed names nClaims).length
        | .ok alignment =>
          ((unnamed names nClaims).length : ℤ) ≤ partialVerdictBudget nClaims ∧
            PlacedByName names raw parsed nClaims alignment) ∧
      ∀ order : List ℕ, order.Perm (range raw.length) →
        alignVerdicts D (reorder order raw) (reorderFields order raw.length parsed) nClaims =
          alignVerdicts D raw parsed nClaims) ∧
    ((raw = [] ∨ ∀ names, NamesClaims D raw parsed nClaims names → ¬names.Nodup) →
      if raw.length = nClaims then
        alignVerdicts D raw parsed nClaims =
          .ok
            { slots := (gradedEntries raw parsed).map some
              missing := []
              alignedBy := .positional }
      else ∃ text, alignVerdicts D raw parsed nClaims = .error text) := by
  constructor
  · intro names hempty hnames hnodup
    have hclaims := verdictClaimIndices_eq_some_iff.mpr ⟨hempty, hnames, hnodup⟩
    have hlt : ∀ name ∈ names, name < nClaims := fun _ => hnames.lt
    have hcount := length_unnamed hnodup hlt
    have hlength := hnames.length
    constructor
    · unfold alignVerdicts
      simp only [hclaims]
      by_cases hover : partialVerdictBudget nClaims < (nClaims : ℤ) - (raw.length : ℤ)
      · rw [if_pos hover]
        show partialVerdictBudget nClaims < (unnamed names nClaims).length
        omega
      · rw [if_neg hover]
        refine ⟨?_, alignAt_placed hnodup hlt hlength⟩
        omega
    · intro order horder
      exact alignVerdicts_reorder horder hempty (claimsNamed_eq_some_iff.mpr hnames) hnodup
  · intro hnot
    have hclaims : verdictClaimIndices D raw parsed nClaims = none := by
      rw [Option.eq_none_iff_forall_ne_some]
      intro names hsome
      obtain ⟨hempty, hnames, hnodup⟩ := verdictClaimIndices_eq_some_iff.mp hsome
      rcases hnot with hnil | hnot
      · exact hempty hnil
      · exact hnot names hnames hnodup
    unfold alignVerdicts
    simp only [hclaims]
    by_cases hlength : raw.length = nClaims
    · rw [if_pos hlength, if_neg (not_not.mpr hlength), alignAt_positional hlength]
    · rw [if_neg hlength, if_pos hlength]
      exact ⟨_, rfl⟩

def asciiDigits : Digits where
  isDigit letter := '0' ≤ letter && letter ≤ '9'
  isSpace letter := letter == ' ' || letter == '\n' || letter == '\t'
  digitValue letter := letter.toNat - '0'.toNat

def supported : Value ℚ := .string "supported".toList

def halfLabelled : List (Value ℚ) :=
  [.object [("claim".toList, .int 2), ("verdict".toList, supported)], .string "unsupported".toList]

/-- A verdict is taken for the first claim although its entry names the
second. -/
theorem positional_overrides_name :
    halfLabelled.map (entryIndex asciiDigits 2) = [some 1, none] ∧
    ∃ alignment, alignVerdicts asciiDigits halfLabelled [] 2 = .ok alignment ∧
      alignment.slots[0]? = some (some (supported, [])) := by
  refine ⟨by decide, _, rfl, rfl⟩

/-- A reply for three claims of which the last is not graded, in two orders. -/
theorem alignVerdicts_by_identity_short_reply :
    alignVerdicts asciiDigits
        [.object [("i".toList, .string "#2.".toList), ("verdict".toList, supported)],
          .object [("claim".toList, .int 1), ("v".toList, supported)]] [] 3 =
      alignVerdicts asciiDigits
        [.object [("claim".toList, .int 1), ("v".toList, supported)],
          .object [("i".toList, .string "#2.".toList), ("verdict".toList, supported)]] [] 3 :=
  ((alignVerdicts_by_identity asciiDigits
      [.object [("claim".toList, .int 1), ("v".toList, supported)],
        .object [("i".toList, .string "#2.".toList),
          ("verdict".toList, supported)]] [] 3).1 [0, 1] (by simp)
    (.inl (by decide)) (by decide)).2 [1, 0] (by decide)

end Legba.VerdictAlignment
