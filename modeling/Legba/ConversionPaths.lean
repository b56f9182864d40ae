import Legba.BreadthFirstDepth
import Legba.ConversionLosslessness
import Legba.SqlLike

/-!
# The shortest conversion

Webhooks stay within a family, so a conversion runs through the webhooks of its
own family, and the search finds a shortest one among those it is given.  It is
given the webhooks whose URI the family matches as a `LIKE` pattern, which is
all of them or none.
-/

namespace Legba.Conversion

open BreadthFirst KeyedTable SqlLogic List Option Prod

def IsChain (webhooks : WebhookTable) : String → List Uuid → String → Prop
  | fromUri, [], toUri => fromUri = toUri
  | fromUri, id :: rest, toUri =>
    ∃ row, webhooks.row? id = some row ∧ row.isActive = true ∧
      row.fromUri = fromUri ∧ IsChain webhooks row.toUri rest toUri

def IsShortest (webhooks : WebhookTable) (fromUri toUri : String) : Option (List Uuid) → Prop
  | none => ∀ ids, ¬ IsChain webhooks fromUri ids toUri
  | some ids => IsChain webhooks fromUri ids toUri ∧
      (∀ other, IsChain webhooks fromUri other toUri → ids.length ≤ other.length) ∧
      (ids = [] ↔ fromUri = toUri)

/-- What `ConversionWebhook` and `register_webhook` require of the URIs. -/
structure WebhookRow.InFamily (row : WebhookRow) : Prop where
  fromSlash : '/' ∈ row.fromUri.toList
  toSlash : '/' ∈ row.toUri.toList
  sameFamily : familyOfUri row.fromUri = familyOfUri row.toUri

def FamilyTable (webhooks : WebhookTable) : Prop :=
  ∀ id row, webhooks.row? id = some row → row.isActive = true → row.InFamily

/-- The `LIKE` pattern of a family matches the URIs of the family. -/
def matchesItself (family : String) : Bool :=
  like (family.toList ++ ['/', '%']) (family.toList ++ ['/'])

variable {webhooks : WebhookTable} {family fromUri toUri : String}

variable {ids : List Uuid} {id : Uuid} {row : WebhookRow}
  {steps : List (String × Uuid)}

theorem IsChain.append_one {middle : String} (hchain : IsChain webhooks fromUri ids middle)
    (hrow : webhooks.row? id = some row) (hactive : row.isActive) (hfrom : row.fromUri = middle) :
    IsChain webhooks fromUri (ids ++ [id]) row.toUri := by
  induction ids generalizing fromUri with
  | nil => exact ⟨row, hrow, hactive, hfrom.trans hchain.symm, rfl⟩
  | cons first rest ih =>
    obtain ⟨other, hother, hother_active, hstart, hrest⟩ := hchain
    exact ⟨other, hother, hother_active, hstart, ih hrest⟩

theorem isChain_of_walk
    (hwalk : Walk (adjacency (orderedWebhooks webhooks family)) fromUri steps
      toUri) : IsChain webhooks fromUri (steps.map snd) toUri := by
  induction hwalk with
  | stay => exact rfl
  | extend walk edge ih =>
    obtain ⟨row, hrow, hactive, hfrom, rfl⟩ := mem_adjacency edge
    rw [map_append, map_singleton]
    exact ih.append_one hrow hactive hfrom

theorem rsplitSlash_spec {text : List Char} (hslash : '/' ∈ text) :
    ∃ ahead last, rsplitSlash text = some (ahead, last) ∧
      text = ahead ++ '/' :: last ∧ '/' ∉ last := by
  induction text with
  | nil => exact absurd hslash not_mem_nil
  | cons letter rest ih =>
    unfold rsplitSlash
    by_cases hrest : '/' ∈ rest
    · obtain ⟨ahead, last, hsplit, htext, hfree⟩ := ih hrest
      exact ⟨letter :: ahead, last, by rw [hsplit], by rw [htext, cons_append], hfree⟩
    · have hletter : letter = '/' := ((mem_cons.mp hslash).resolve_right hrest).symm
      have hnone : rsplitSlash rest = none := by
        clear ih hslash
        induction rest with
        | nil => rfl
        | cons other rest ih =>
          rw [mem_cons, not_or] at hrest
          rw [rsplitSlash, ih hrest.2]
          exact if_neg (Ne.symm hrest.1)
      exact ⟨[], rest, by rw [hnone]; exact if_pos hletter, by rw [hletter, nil_append], hrest⟩

theorem like_uri {uri : String} (hslash : '/' ∈ uri.toList) (hfamily : familyOfUri uri = family) :
    like (family.toList ++ ['/', '%']) uri.toList = matchesItself family := by
  obtain ⟨ahead, last, hsplit, htext, hfree⟩ := rsplitSlash_spec hslash
  have hahead : family.toList = ahead := by
    rw [← hfamily, familyOfUri, hsplit, String.toList_ofList]
  rw [htext, matchesItself, hahead]
  exact like_separator ⟨by decide, by decide, by decide⟩ hfree ahead ahead

theorem mem_orderedWebhooks_iff (hfamily : row.InFamily)
    (hfrom : familyOfUri row.fromUri = family) :
    (id, row) ∈ orderedWebhooks webhooks family ↔
      webhooks.row? id = some row ∧ row.isActive = true ∧ matchesItself family = true := by
  unfold orderedWebhooks listWebhooks
  rw [mem_insertionSort, mem_insertionSort, Table.mem_select, like_uri hfamily.fromSlash hfrom,
    like_uri hfamily.toSlash (hfamily.sameFamily.symm.trans hfrom), Bool.or_self, Bool.and_eq_true,
    and_comm (a := matchesItself family = true)]

theorem mem_adjacency_of_mem (hmem : (id, row) ∈ orderedWebhooks webhooks family) :
    (row.toUri, id) ∈ adjacency (orderedWebhooks webhooks family) row.fromUri := by
  exact mem_filterMap.mpr ⟨(id, row), hmem, if_pos rfl⟩

theorem walk_of_isChain (htable : FamilyTable webhooks) (hself : matchesItself family)
    {middle : String} (hmiddle : familyOfUri middle = family)
    (hwalk : Walk (adjacency (orderedWebhooks webhooks family)) fromUri steps middle)
    (hchain : IsChain webhooks middle ids toUri) :
    ∃ all, Walk (adjacency (orderedWebhooks webhooks family)) fromUri all
        toUri ∧ all.length = steps.length + ids.length := by
  induction ids generalizing middle steps with
  | nil => exact ⟨steps, hchain ▸ hwalk, rfl⟩
  | cons id rest ih =>
    obtain ⟨row, hrow, hactive, rfl, hrest⟩ := hchain
    have hfamily := htable id row hrow hactive
    have hmem := (mem_orderedWebhooks_iff hfamily hmiddle).mpr ⟨hrow, hactive, hself⟩
    obtain ⟨all, hall, hlength⟩ := ih (hfamily.sameFamily.symm.trans hmiddle)
      (hwalk.extend (mem_adjacency_of_mem hmem)) hrest
    refine ⟨all, hall, ?_⟩
    rw [hlength, length_append, length_singleton, length_cons]
    omega

theorem target_mem {rows : List (Uuid × WebhookRow)} (uri : String) :
    ∀ edge ∈ adjacency rows uri, edge.1 ∈ rows.map fun row => row.2.toUri := by
  intro edge hedge
  obtain ⟨row, hrow, hedge⟩ := mem_filterMap.mp hedge
  split at hedge
  · exact mem_map.mpr ⟨row, hrow, congrArg fst (some.inj hedge)⟩
  · exact absurd hedge (some_ne_none _).symm

/-! ## The search -/

/-- A chain of webhooks which `convert` can follow on the table the search
read, and no shorter one. -/
structure FindsShortest (webhooks : WebhookTable) (family fromUri toUri : String) : Prop where
  shortest : IsShortest webhooks fromUri toUri (findPath webhooks family fromUri toUri)
  continuous : ∀ ids (request : ConversionRequest),
    findPath webhooks family fromUri toUri = some ids →
      ∃ uriChain, webhooksInPath webhooks request ids [] [fromUri] fromUri =
        .rows (chain webhooks ids) uriChain

theorem findPath_eq (hfrom : familyOfUri fromUri = family)
    (hto : familyOfUri toUri = family) (hne : fromUri ≠ toUri) :
    findPath webhooks family fromUri toUri =
      path (search (adjacency (orderedWebhooks webhooks family)) toUri
        ((orderedWebhooks webhooks family).length + 1) [fromUri]
        [(fromUri, none)]) toUri := by
  rw [findPath, if_neg (by simp [hfrom, hto]), if_neg hne]

theorem walk_of_findPath (hpath : findPath webhooks family fromUri toUri = some ids) :
    ∃ steps, Walk (adjacency (orderedWebhooks webhooks family)) fromUri steps
      toUri ∧ ids = steps.map snd := by
  unfold findPath at hpath
  split at hpath
  · exact absurd hpath (some_ne_none _).symm
  · split at hpath
    · rename_i hsame
      rw [some.injEq] at hpath
      exact ⟨[], hsame ▸ Walk.stay fromUri, hpath ▸ rfl⟩
    · obtain ⟨steps, hwalk, hids, -⟩ := exists_walk_of_path hpath
      exact ⟨steps, hwalk, hids⟩

theorem continuous_of_walk (request : ConversionRequest)
    (hwalk : Walk (adjacency (orderedWebhooks webhooks family)) fromUri steps toUri) :
    ∃ uriChain, webhooksInPath webhooks request (steps.map snd) [] [fromUri] fromUri =
      .rows (chain webhooks (steps.map snd)) uriChain := by
  have hrows := webhooksInPath_of_walk request hwalk [] [] [fromUri]
  rw [append_nil, nil_append] at hrows
  exact ⟨[fromUri] ++ steps.map fst, hrows⟩

theorem isShortest_nil : IsShortest webhooks fromUri fromUri (some []) :=
  ⟨rfl, fun _ _ => Nat.zero_le _, iff_of_true rfl rfl⟩

theorem isShortest_of_matches (htable : FamilyTable webhooks) (hfrom : familyOfUri fromUri = family)
    (hto : familyOfUri toUri = family) (hne : fromUri ≠ toUri) (hself : matchesItself family) :
    IsShortest webhooks fromUri toUri (findPath webhooks family fromUri toUri) := by
  have hwalk : ∀ {ids}, IsChain webhooks fromUri ids toUri →
      ∃ all, Walk (adjacency (orderedWebhooks webhooks family)) fromUri all
        toUri ∧ all.length = ids.length := by
    intro ids hchain
    obtain ⟨all, hall, hlength⟩ := walk_of_isChain htable hself hfrom (.stay fromUri) hchain
    exact ⟨all, hall, by rw [hlength, length_nil, Nat.zero_add]⟩
  have hrounds : ((orderedWebhooks webhooks family).map fun row =>
      row.2.toUri).length < (orderedWebhooks webhooks family).length + 1 := by
    rw [length_map]
    exact Nat.lt_succ_self _
  cases hpath : findPath webhooks family fromUri toUri with
  | none =>
    intro ids hchain
    obtain ⟨all, hall, -⟩ := hwalk hchain
    rw [findPath_eq hfrom hto hne] at hpath
    exact path_ne_none target_mem hrounds hall hpath
  | some ids =>
    obtain ⟨steps, hsteps, rfl⟩ := walk_of_findPath hpath
    have hchain := isChain_of_walk hsteps
    refine ⟨hchain, ?_, ?_⟩
    · intro other hother
      obtain ⟨all, hall, hlength⟩ := hwalk hother
      rw [findPath_eq hfrom hto hne] at hpath
      rw [← hlength]
      exact length_path_le target_mem hrounds hpath hall
    · refine iff_of_false ?_ hne
      intro hnil
      rw [hnil] at hchain
      exact hne hchain

theorem findPath_of_not_matches (htable : FamilyTable webhooks)
    (hfrom : familyOfUri fromUri = family) (hne : fromUri ≠ toUri)
    (hself : matchesItself family = false) : findPath webhooks family fromUri toUri = none := by
  have hwalk : ∀ {uri steps},
      Walk (adjacency (orderedWebhooks webhooks family)) fromUri steps uri → uri = fromUri := by
    intro uri steps hsteps
    induction hsteps with
    | stay => rfl
    | @extend node next id steps walk edge ih =>
      subst ih
      obtain ⟨⟨other, row⟩, hmem, hpair⟩ := mem_filterMap.mp edge
      split at hpair
      · rename_i hstart
        obtain ⟨hrow, hactive⟩ := mem_orderedWebhooks hmem
        have hfamily := htable other row hrow hactive
        have hlisted := (mem_orderedWebhooks_iff hfamily (hstart ▸ hfrom)).mp hmem
        exact absurd (hself.symm.trans hlisted.2.2) Bool.false_ne_true
      · exact absurd hpair (some_ne_none _).symm
  cases hpath : findPath webhooks family fromUri toUri with
  | none => rfl
  | some ids =>
    obtain ⟨steps, hsteps, -⟩ := walk_of_findPath hpath
    exact absurd (hwalk hsteps).symm hne

/-- The search finds a shortest chain exactly when the family matches itself,
or when there is nothing to find. -/
theorem findsShortest_iff (htable : FamilyTable webhooks)
    (hfrom : familyOfUri fromUri = family) (hto : familyOfUri toUri = family) :
    FindsShortest webhooks family fromUri toUri ↔
      matchesItself family = true ∨ fromUri = toUri ∨
        ∀ ids, ¬ IsChain webhooks fromUri ids toUri := by
  have hcontinuous : ∀ ids (request : ConversionRequest),
      findPath webhooks family fromUri toUri = some ids →
        ∃ uriChain, webhooksInPath webhooks request ids [] [fromUri] fromUri =
          .rows (chain webhooks ids) uriChain := by
    intro ids request hpath
    obtain ⟨steps, hsteps, rfl⟩ := walk_of_findPath hpath
    exact continuous_of_walk request hsteps
  constructor
  · intro hfinds
    by_cases hne : fromUri = toUri
    · exact .inr (.inl hne)
    · cases hself : matchesItself family with
      | true => exact .inl rfl
      | false =>
        have hshortest := hfinds.shortest
        rw [findPath_of_not_matches htable hfrom hne hself] at hshortest
        exact .inr (.inr hshortest)
  · intro hwhen
    refine ⟨?_, hcontinuous⟩
    by_cases hne : fromUri = toUri
    · subst hne
      rw [findPath, if_neg (by simp [hfrom]), if_pos rfl]
      exact isShortest_nil
    · rcases hwhen with hself | hsame | hnone
      · exact isShortest_of_matches htable hfrom hto hne hself
      · exact absurd hsame hne
      · cases hpath : findPath webhooks family fromUri toUri with
        | none => exact hnone
        | some ids =>
          obtain ⟨steps, hsteps, -⟩ := walk_of_findPath hpath
          exact absurd (isChain_of_walk hsteps) (hnone _)

def oneWebhook (fromUri toUri : String) : WebhookTable :=
  Table.empty.put 7 ⟨fromUri, toUri, "m:f", 0, none⟩

theorem isChain_oneWebhook (fromUri toUri : String) :
    IsChain (oneWebhook fromUri toUri) fromUri [7] toUri :=
  ⟨_, Table.row?_put_self _ _ _, rfl, rfl, rfl⟩

theorem familyTable_oneWebhook (hfromSlash : '/' ∈ fromUri.toList) (htoSlash : '/' ∈ toUri.toList)
    (hsame : familyOfUri fromUri = familyOfUri toUri) : FamilyTable (oneWebhook fromUri toUri) := by
  intro id row hrow _
  rcases Table.row?_put_eq_some.mp hrow with ⟨-, rfl⟩ | ⟨-, hother⟩
  · exact ⟨hfromSlash, htoSlash, hsame⟩
  · exact absurd hother (some_ne_none _).symm

theorem findsShortest_iff_underscore :
    FindsShortest (oneWebhook "legba/a_b/1.0.0" "legba/a_b/2.0.0") "legba/a_b"
        "legba/a_b/1.0.0" "legba/a_b/2.0.0" ↔
      matchesItself "legba/a_b" = true ∨
        "legba/a_b/1.0.0" = "legba/a_b/2.0.0" ∨
        ∀ ids, ¬ IsChain (oneWebhook "legba/a_b/1.0.0" "legba/a_b/2.0.0")
          "legba/a_b/1.0.0" ids "legba/a_b/2.0.0" :=
  findsShortest_iff
    (familyTable_oneWebhook (by decide) (by decide) (by decide +kernel))
    (by decide +kernel) (by decide +kernel)

theorem not_findsShortest_of_none (hpath : findPath webhooks family fromUri toUri = none)
    (hchain : IsChain webhooks fromUri ids toUri) :
    ¬ FindsShortest webhooks family fromUri toUri := by
  intro hfinds
  have hshortest := hfinds.shortest
  rw [hpath] at hshortest
  exact hshortest ids hchain

/-- A backslash in the family escapes the character behind it. -/
theorem not_findsShortest_backslash :
    ¬ FindsShortest (oneWebhook "legba/a\\b/1.0.0" "legba/a\\b/2.0.0")
      "legba/a\\b" "legba/a\\b/1.0.0" "legba/a\\b/2.0.0" := by
  have hnone : findPath (oneWebhook "legba/a\\b/1.0.0" "legba/a\\b/2.0.0")
      "legba/a\\b" "legba/a\\b/1.0.0" "legba/a\\b/2.0.0" = none := by
    decide +kernel
  exact not_findsShortest_of_none hnone (isChain_oneWebhook _ _)

end Legba.Conversion
