import Legba.MegaFrameSplit
import Mathlib.Algebra.BigOperators.Ring.List

/-!
# What the split of the mega-frames conserves

The new rows of one statement have different keys, so each is skipped exactly
when an earlier row has its key.  The members of a frame are partitioned by
its dimensions.  So the rows of a frame share its members out exactly when the
two guards agree: both writes happen in full, or neither does.
-/

namespace Legba.Situations

open Findings KeyGroups RowOrder List Bool

section

variable {read : SplitRead}

theorem hash_not_mem_memberDimension (member : Option Uuid) :
    '#' ∉ (memberDimension read member).toList := by
  unfold memberDimension sqlDimension
  dsimp only
  split
  · decide
  · rw [String.toList_ofList]
    intro hmem
    obtain ⟨c, _, hc⟩ := mem_map.mp (mem_of_mem_take hmem)
    unfold underscored at hc
    split_ifs at hc with hhash hbar
    · exact absurd hc (by decide)
    · exact absurd hc (by decide)
    · exact hhash hc

variable {frame : Frame} {dim : String} {rows : List Frame}

theorem hash_not_mem_dimension (hdim : dim ∈ dimensions read frame) : '#' ∉ dim.toList := by
  obtain ⟨member, _, rfl⟩ := mem_map.mp (mem_dedup.mp hdim)
  exact hash_not_mem_memberDimension member

theorem append_hash_inj {front front' back back' : List Char} (hback : '#' ∉ back)
    (hback' : '#' ∉ back') (heq : front ++ '#' :: back = front' ++ '#' :: back') :
    front = front' ∧ back = back' := by
  rcases append_eq_append_iff.mp heq with
    ⟨tail, rfl, htail⟩ | ⟨tail, rfl, htail⟩ <;>
    cases tail <;> simp_all

theorem dimensioned_inj {other : Frame} {dim' : String} (hframe : frame.signature.isSome)
    (hdim : '#' ∉ dim.toList) (hdim' : '#' ∉ dim'.toList)
    (heq : frame.dimensioned dim = other.dimensioned dim') :
    frame.signature = other.signature ∧ dim = dim' := by
  unfold Frame.dimensioned at heq
  cases hsig : frame.signature with
  | none => simp [hsig] at hframe
  | some signature =>
    cases hother : other.signature with
    | none => simp [hsig, hother] at heq
    | some signature' =>
      simp only [hsig, hother, Option.map_some, Option.some.injEq] at heq
      have hlists := congrArg String.toList heq
      simp only [String.toList_append] at hlists
      have hmarker : ∀ rest : List Char, dimensionMarker.toList ++ rest =
          '#' :: ("dim:".toList ++ rest) := fun _ => rfl
      rw [hmarker, hmarker] at hlists
      obtain ⟨hfront, hback⟩ := append_hash_inj (by simp [hdim]) (by simp [hdim']) hlists
      have hdims := append_cancel_left hback
      exact ⟨congrArg some (String.toList_inj.mp hfront), String.toList_inj.mp hdims⟩

theorem isLegacy_signature (hlegacy : frame.isLegacy) :
    ∃ signature, frame.signature = some signature ∧ includes signature dimensionMarker = false := by
  unfold Frame.isLegacy at hlegacy
  simp only [and_eq_true] at hlegacy
  cases hsig : frame.signature with
  | none => simp [hsig] at hlegacy
  | some signature =>
    have hprefix := hlegacy.1.1.1
    rw [hsig, Option.any_some, and_eq_true, not_eq_true'] at hprefix
    exact ⟨signature, rfl, hprefix.2⟩

theorem isLegacy_members (hlegacy : frame.isLegacy) : frame.derivedFrom ≠ [] := by
  unfold Frame.isLegacy at hlegacy
  simp only [and_eq_true] at hlegacy
  simpa using hlegacy.2

theorem not_isLegacy_of_dimensioned {row : Frame} (hframe : frame.signature.isSome)
    (hrow : row.signature = frame.dimensioned dim) : row.isLegacy = false := by
  obtain ⟨signature, hsig⟩ := Option.isSome_iff_exists.mp hframe
  by_contra hlegacy
  rw [not_eq_false] at hlegacy
  obtain ⟨own, hown, hmarker⟩ := isLegacy_signature hlegacy
  have hincludes : includes own dimensionMarker := by
    rw [hrow, Frame.dimensioned, hsig, Option.map_some, Option.some.injEq] at hown
    rw [← hown, includes, decide_eq_true_eq, String.toList_append, String.toList_append]
    exact ⟨signature.toList, dim.toList, by simp⟩
  rw [hmarker] at hincludes
  simp at hincludes

theorem signature_ne_dimensioned (hlegacy : frame.isLegacy) (dim : String) :
    frame.signature ≠ frame.dimensioned dim := by
  intro heq
  obtain ⟨signature, hsig, _⟩ := isLegacy_signature hlegacy
  have hnot := not_isLegacy_of_dimensioned (by rw [hsig]; rfl) heq
  rw [hlegacy] at hnot
  simp at hnot

theorem dimensions_nodup (frame : Frame) : (dimensions read frame).Nodup := nodup_dedup _

theorem bucket_ne_nil (hdim : dim ∈ dimensions read frame) : bucket read frame dim ≠ [] := by
  obtain ⟨member, hmember, hmemberDim⟩ := mem_map.mp (mem_dedup.mp hdim)
  exact ne_nil_of_mem (mem_filter.mpr ⟨hmember, beq_iff_eq.mpr hmemberDim⟩)

theorem buckets_perm (frame : Frame) :
    ((dimensions read frame).flatMap (bucket read frame)).Perm
      frame.derivedFrom :=
  flatMap_filter_key_perm (memberDimension read) (dimensions_nodup frame)
    fun _ hmember => mem_dedup.mpr (mem_map_of_mem hmember)

theorem keeper_isSome (read : SplitRead) (hlegacy : frame.isLegacy) :
    ∃ kept, keeper read frame = some kept ∧ kept ∈ dimensions read frame := by
  obtain ⟨member, rest, hmembers⟩ := exists_cons_of_ne_nil (isLegacy_members hlegacy)
  have hdim : memberDimension read member ∈ dimensions read frame := by
    refine mem_dedup.mpr (mem_map_of_mem ?_)
    rw [hmembers]
    exact mem_cons_self
  obtain ⟨kept, hkept⟩ := firstBy_isSome _ hdim
  exact ⟨kept, hkept, firstBy_mem hkept⟩

theorem dimensions_perm {kept : String} (hkept : keeper read frame = some kept)
    (hdim : kept ∈ dimensions read frame) :
    (dimensions read frame).Perm (kept :: otherDimensions read frame) := by
  have hothers : otherDimensions read frame = (dimensions read frame).erase kept := by
    rw [(dimensions_nodup frame).erase_eq_filter, otherDimensions]
    refine filter_congr fun dim _ => ?_
    rw [hkept, Bool.eq_iff_iff, decide_eq_true_eq, bne_iff_ne, ne_eq, Option.some.injEq, eq_comm]
  rw [hothers]
  exact perm_cons_erase hdim

theorem mem_otherDimensions :
    dim ∈ otherDimensions read frame ↔
      dim ∈ dimensions read frame ∧ keeper read frame ≠ some dim := by
  simp [otherDimensions]

def childTaken (rows : List Frame) (frame : Frame) (dim : String) : Bool :=
  frame.analystId.isSome && keyTaken rows frame dim

theorem conflicts_childRow (hlegacy : frame.isLegacy) (id : Uuid)
    (dim : String) (hid : ∀ row ∈ rows, row.id = frame.id → row = frame) :
    conflicts rows (childRow read id frame dim) = childTaken rows frame dim := by
  obtain ⟨signature, hsig, _⟩ := isLegacy_signature hlegacy
  have hsome : (childRow read id frame dim).signature.isSome := by
    simp [childRow, Frame.dimensioned, hsig]
  rw [conflicts, hsome, Bool.true_and, childTaken]
  refine congrArg (frame.analystId.isSome && ·) ?_
  rw [keyTaken, Bool.eq_iff_iff, any_eq_true, any_eq_true]
  refine exists_congr fun row => and_congr_right fun hrow => ?_
  simp only [and_eq_true, decide_eq_true_eq]
  refine ⟨fun hkey => ⟨hkey, fun hsame => ?_⟩, fun hkey => hkey.1⟩
  rw [hid row hrow hsame] at hkey
  exact signature_ne_dimensioned hlegacy dim hkey.1

def SameKey (a b : Frame) : Prop :=
  a.signature.isSome = true ∧ a.analystId.isSome = true ∧
    a.signature = b.signature ∧ a.analystId = b.analystId

theorem conflicts_append {first row : Frame} (hkey : ¬SameKey first row) :
    conflicts (rows ++ [first]) row = conflicts rows row := by
  unfold conflicts
  rw [any_append, any_cons, any_nil, Bool.or_false]
  cases hsig : row.signature.isSome <;> cases hanalyst : row.analystId.isSome
  all_goals simp only [Bool.false_and, Bool.true_and, Bool.and_false]
  have hfirst : (decide (first.signature = row.signature) &&
      decide (first.analystId = row.analystId)) = false := by
    by_contra hsame
    rw [not_eq_false, and_eq_true, decide_eq_true_eq, decide_eq_true_eq] at hsame
    exact hkey ⟨hsame.1 ▸ hsig, hsame.2 ▸ hanalyst, hsame⟩
  rw [hfirst, Bool.or_false]

theorem inserted_eq_filter {items : List Frame} (rows : List Frame)
    (hdistinct : items.Pairwise fun a b => ¬SameKey a b) :
    inserted rows items = items.filter fun row => !conflicts rows row := by
  induction items generalizing rows with
  | nil => rfl
  | cons row items ih =>
    rw [pairwise_cons] at hdistinct
    rw [inserted]
    cases hconflict : conflicts rows row with
    | true =>
      rw [if_pos rfl, ih rows hdistinct.2]
      simp [hconflict]
    | false =>
      rw [if_neg (by simp), ih (rows ++ [row]) hdistinct.2,
        filter_cons_of_pos (by simp [hconflict])]
      refine congrArg (row :: ·) (filter_congr fun other hother => ?_)
      rw [conflicts_append (hdistinct.1 other hother)]

theorem children_distinct (table : Frames) (draw : Uuid → String → Uuid) :
    (children read draw table.rows).Pairwise fun a b => ¬SameKey a b := by
  rw [children, pairwise_flatMap]
  constructor
  · intro frame hframe
    obtain ⟨_, hlegacy⟩ := mem_filter.mp hframe
    obtain ⟨signature, hsig, _⟩ := isLegacy_signature hlegacy
    rw [pairwise_map]
    have hnodup : (otherDimensions read frame).Nodup := (dimensions_nodup frame).filter _
    refine hnodup.imp_of_mem ?_
    intro dim dim' hdim hdim' hne hkey
    refine hne (dimensioned_inj (by rw [hsig]; rfl) ?_ ?_ hkey.2.2.1).2
    · exact hash_not_mem_dimension (mem_otherDimensions.mp hdim).1
    · exact hash_not_mem_dimension (mem_otherDimensions.mp hdim').1
  · have hrows : (table.rows.filter Frame.isLegacy).Nodup :=
      (Nodup.of_map _ table.distinct).filter _
    refine hrows.imp_of_mem ?_
    intro frame other hframe hother hne a ha b hb hkey
    obtain ⟨hmem, hlegacy⟩ := mem_filter.mp hframe
    obtain ⟨hmem', _⟩ := mem_filter.mp hother
    obtain ⟨dim, hdim, rfl⟩ := mem_map.mp ha
    obtain ⟨dim', hdim', rfl⟩ := mem_map.mp hb
    obtain ⟨signature, hsig, _⟩ := isLegacy_signature hlegacy
    have hsome : frame.signature.isSome := by rw [hsig]; rfl
    have hsame := dimensioned_inj hsome (hash_not_mem_dimension (mem_otherDimensions.mp hdim).1)
      (hash_not_mem_dimension (mem_otherDimensions.mp hdim').1) hkey.2.2.1
    exact hne (table.unique frame hmem other hmem' hsome hkey.2.1 hsame.1 hkey.2.2.2)

/-! ## The heirs of a frame -/

@[simp] theorem rekey_id (rows : List Frame) (frame : Frame) :
    (rekey read rows frame).id = frame.id := by
  unfold rekey
  split
  · split
    · rfl
    · split <;> rfl
  · rfl

theorem flatMap_eq_of_single {Item Part : Type*} {items : List Item} (hnodup : items.Nodup)
    {item : Item} (hitem : item ∈ items) {parts : Item → List Part}
    (hothers : ∀ other ∈ items, other ≠ item → parts other = []) :
    items.flatMap parts = parts item := by
  obtain ⟨before, after, rfl⟩ := append_of_mem hitem
  rw [nodup_append, nodup_cons] at hnodup
  have hbefore : before.flatMap parts = [] := by
    rw [flatMap_eq_nil_iff]
    refine fun other hother => hothers other (by simp [hother]) ?_
    exact fun heq => hnodup.2.2 other hother item mem_cons_self heq
  have hafter : after.flatMap parts = [] := by
    rw [flatMap_eq_nil_iff]
    refine fun other hother => hothers other (by simp [hother]) ?_
    exact fun heq => hnodup.2.1.1 (heq ▸ hother)
  rw [flatMap_append, flatMap_cons, hbefore, hafter, nil_append, append_nil]

section

variable {table : Frames} {draws : Draws table.rows} {frame : Frame}

theorem row_unique (hframe : frame ∈ table.rows) :
    ∀ row ∈ table.rows, row.id = frame.id → row = frame :=
  fun _ hrow hid => inj_on_of_nodup_map table.distinct hrow hframe hid

def newRows (read : SplitRead) (table : Frames) (draws : Draws table.rows)
    (frame : Frame) : List Frame :=
  ((otherDimensions read frame).filter fun dim =>
    !childTaken table.rows frame dim).map fun dim =>
      childRow read (draws.draw frame.id dim) frame dim

theorem heirs_kept (hframe : frame ∈ table.rows) :
    ((table.rows.map (rekey read table.rows)).filter fun row =>
      decide (row.id = frame.id) ||
        (decide (row.data.trajectoryParentId = some frame.id) &&
          !(table.rows.map Frame.id).contains row.id)) =
      [rekey read table.rows frame] := by
  have hone : (table.rows.filter fun row => row.id == frame.id) = [frame] := by
    rcases filter_key_cases table.distinct frame.id with hnone | ⟨row, hrow, hid, hrows⟩
    · rw [filter_eq_nil_iff] at hnone
      exact absurd (beq_self_eq_true frame.id) (hnone frame hframe)
    · rw [hrows, row_unique hframe row hrow hid]
  rw [filter_map, ← map_singleton, ← hone]
  refine congrArg _ (filter_congr fun row hrow => ?_)
  have hcontains : (table.rows.map Frame.id).contains row.id := by
    rw [contains_iff_mem]
    exact mem_map_of_mem hrow
  simp only [Function.comp_apply, rekey_id, hcontains, Bool.not_true, Bool.and_false, Bool.or_false]
  exact (beq_eq_decide _ _).symm

theorem heirs_new (hframe : frame ∈ table.rows) (hlegacy : frame.isLegacy) :
    ((inserted table.rows (children read draws.draw table.rows)).filter
      fun row => decide (row.id = frame.id) ||
        (decide (row.data.trajectoryParentId = some frame.id) &&
          !(table.rows.map Frame.id).contains row.id)) =
      newRows read table draws frame := by
  have hnodup : (table.rows.filter Frame.isLegacy).Nodup := (Nodup.of_map _ table.distinct).filter _
  have hdrawn : ∀ parent dim, (table.rows.map Frame.id).contains
      (draws.draw parent dim) = false := by
    intro parent dim
    rw [← not_eq_true, contains_iff_mem]
    exact draws.fresh parent dim
  have hdrawnNe : ∀ parent dim, draws.draw parent dim ≠ frame.id := by
    intro parent dim heq
    exact draws.fresh parent dim (heq ▸ mem_map_of_mem hframe)
  rw [inserted_eq_filter _ (children_distinct table draws.draw),
    filter_filter, children, filter_flatMap]
  rw [flatMap_eq_of_single hnodup (mem_filter.mpr ⟨hframe, hlegacy⟩)]
  · rw [newRows, filter_map]
    refine congrArg _ (filter_congr fun dim _ => ?_)
    have hid := row_unique hframe
    have hparent : (childRow read (draws.draw frame.id dim) frame
        dim).data.trajectoryParentId = some frame.id := rfl
    have hchild : (childRow read (draws.draw frame.id dim) frame dim).id =
        draws.draw frame.id dim := rfl
    simp only [Function.comp_apply, conflicts_childRow hlegacy _ dim hid, hparent, hchild, hdrawn,
      decide_true, Bool.not_false, Bool.and_true, Bool.or_true, Bool.true_and]
  · intro other hother hne
    obtain ⟨hmem, _⟩ := mem_filter.mp hother
    rw [filter_map, map_eq_nil_iff, filter_eq_nil_iff]
    intro dim _
    have hparent : other.id ≠ frame.id := fun hid => hne (row_unique hframe other hmem hid)
    simp [childRow, hdrawnNe, hparent]

theorem heirs_eq (hframe : frame ∈ table.rows) (hlegacy : frame.isLegacy) :
    heirs table.rows (splitMegaFrames read draws.draw table.rows) frame =
      rekey read table.rows frame :: newRows read table draws frame := by
  rw [heirs, splitMegaFrames, filter_append, heirs_kept hframe, heirs_new hframe hlegacy]
  rfl

theorem newRows_members :
    (newRows read table draws frame).flatMap Frame.derivedFrom =
      ((otherDimensions read frame).filter fun dim =>
        !childTaken table.rows frame dim).flatMap (bucket read frame) := by
  rw [newRows, flatMap_map]
  rfl

theorem newRows_eq_nil_iff :
    newRows read table draws frame = [] ↔
      ∀ dim ∈ otherDimensions read frame, childTaken table.rows frame dim = true := by
  rw [newRows, map_eq_nil_iff, filter_eq_nil_iff]
  simp

variable {kept : String}

theorem kept_and_others_perm (hkept : keeper read frame = some kept)
    (hdim : kept ∈ dimensions read frame) :
    (bucket read frame kept ++ (otherDimensions read frame).flatMap (bucket read frame)).Perm
      frame.derivedFrom := by
  exact ((dimensions_perm hkept hdim).symm.flatMap_right _).trans (buckets_perm frame)

theorem intensity_shared (dims : List String) (hmembers : frame.derivedFrom ≠ [])
    (hperm : (dims.flatMap (bucket read frame)).Perm frame.derivedFrom) :
    (dims.map fun dim => frame.intensity * (bucket read frame dim).length /
      (frame.derivedFrom.length : ℚ)).sum = frame.intensity := by
  have hlength : ((dims.map fun dim =>
      ((bucket read frame dim).length : ℚ)).sum) =
      (frame.derivedFrom.length : ℚ) := by
    have hcast := map_list_sum (Nat.castAddMonoidHom ℚ)
      (dims.map fun dim => (bucket read frame dim).length)
    rw [← hperm.length_eq, length_flatMap]
    rw [map_map] at hcast
    exact hcast.symm
  have hpos : (frame.derivedFrom.length : ℚ) ≠ 0 := by
    rw [Nat.cast_ne_zero, ne_eq, length_eq_zero_iff]
    exact hmembers
  have hfactor : (fun dim => frame.intensity *
      (bucket read frame dim).length / (frame.derivedFrom.length : ℚ)) =
      fun dim => (frame.intensity / (frame.derivedFrom.length : ℚ)) *
        ((bucket read frame dim).length : ℚ) := by
    funext dim
    ring
  rw [hfactor, sum_map_mul_left, hlength]
  field_simp

theorem splitsInto_of_free (hframe : frame ∈ table.rows) (hlegacy : frame.isLegacy)
    (hkept : keeper read frame = some kept) (hdim : kept ∈ dimensions read frame)
    (hfree : keyTaken table.rows frame kept = false)
    (hothers : ∀ dim ∈ otherDimensions read frame, childTaken table.rows frame dim = false) :
    SplitsInto frame (heirs table.rows (splitMegaFrames read draws.draw table.rows) frame) := by
  have hrekey : rekey read table.rows frame = rekeyedRow read frame kept := by
    simp [rekey, hlegacy, hkept, hfree]
  have hnew : newRows read table draws frame =
      (otherDimensions read frame).map fun dim =>
        childRow read (draws.draw frame.id dim) frame dim := by
    refine congrArg _ (filter_eq_self.mpr fun dim hdim' => ?_)
    rw [hothers dim hdim']
    rfl
  have hshare := kept_and_others_perm hkept hdim
  rw [heirs_eq hframe hlegacy, hrekey, hnew]
  refine ⟨?_, ?_, rekeyedRow read frame kept, kept, ?_, rfl⟩
  · rw [flatMap_cons, flatMap_map]
    exact hshare
  · have hsum := intensity_shared (kept :: otherDimensions read frame)
      (isLegacy_members hlegacy) (by rw [flatMap_cons]; exact hshare)
    rw [map_cons] at hsum ⊢
    rw [map_map]
    exact hsum
  · have hdrawnNe : ∀ dim, draws.draw frame.id dim ≠ frame.id :=
      fun dim heq => draws.fresh frame.id dim (by rw [heq]; exact mem_map_of_mem hframe)
    rw [filter_cons_of_pos (by simp [rekeyedRow])]
    refine congrArg _ (filter_eq_nil_iff.mpr fun row hrow => ?_)
    obtain ⟨dim, _, rfl⟩ := mem_map.mp hrow
    simp [childRow, hdrawnNe]

theorem flatMap_bucket_eq_nil (dims : List String)
    (hdims : ∀ dim ∈ dims, dim ∈ dimensions read frame)
    (hnil : (dims.flatMap (bucket read frame)).length = 0) : dims = [] := by
  rw [length_eq_zero_iff, flatMap_eq_nil_iff] at hnil
  refine eq_nil_iff_forall_not_mem.mpr fun dim hdim => ?_
  exact bucket_ne_nil (hdims dim hdim) (hnil dim hdim)

section

variable (hframe : frame ∈ table.rows) (hlegacy : frame.isLegacy)

include hframe hlegacy

theorem conserved_kept_iff (hkept : keeper read frame = some kept)
    (htaken : keyTaken table.rows frame kept) :
    Conserved table.rows (splitMegaFrames read draws.draw table.rows) frame ↔
      ∀ dim ∈ otherDimensions read frame, childTaken table.rows frame dim = true := by
  have hrekey : rekey read table.rows frame = frame := by simp [rekey, hlegacy, hkept, htaken]
  rw [Conserved, heirs_eq hframe hlegacy, hrekey, ← newRows_eq_nil_iff]
  constructor
  · rintro (halone | hsplit)
    · exact (cons.inj halone).2
    · have hlength := hsplit.members.length_eq
      rw [flatMap_cons, length_append, newRows_members] at hlength
      have hnone := flatMap_bucket_eq_nil
        ((otherDimensions read frame).filter fun dim => !childTaken table.rows frame dim)
        (fun dim hdim => (mem_otherDimensions.mp (mem_of_mem_filter hdim)).1) (by omega)
      rw [newRows, hnone]
      rfl
  · intro hnone
    exact Or.inl (by rw [hnone])

theorem conserved_rekeyed_iff (hkept : keeper read frame = some kept)
    (hdim : kept ∈ dimensions read frame) (hfree : keyTaken table.rows frame kept = false) :
    Conserved table.rows (splitMegaFrames read draws.draw table.rows) frame ↔
      ∀ dim ∈ otherDimensions read frame, childTaken table.rows frame dim = false := by
  have hrekey : rekey read table.rows frame = rekeyedRow read frame kept := by
    simp [rekey, hlegacy, hkept, hfree]
  constructor
  · rintro (halone | hsplit)
    · rw [heirs_eq hframe hlegacy, hrekey] at halone
      have hsignature := congrArg Frame.signature (cons.inj halone).1
      exact absurd hsignature.symm (signature_ne_dimensioned hlegacy kept)
    · have hlength := hsplit.members.length_eq
      have hall := (kept_and_others_perm hkept hdim).length_eq
      rw [heirs_eq hframe hlegacy, hrekey, flatMap_cons, length_append, newRows_members] at hlength
      have hsplitLength := ((filter_append_perm (fun dim => !childTaken table.rows frame dim)
        (otherDimensions read frame)).flatMap_right (bucket read frame)).length_eq
      rw [flatMap_append, length_append] at hsplitLength
      rw [length_append] at hall
      have hkeptLength : (rekeyedRow read frame kept).derivedFrom.length =
          (bucket read frame kept).length := rfl
      have hnone := flatMap_bucket_eq_nil
        ((otherDimensions read frame).filter fun dim => !!childTaken table.rows frame dim)
        (fun dim hdim => (mem_otherDimensions.mp (mem_of_mem_filter hdim)).1) (by omega)
      rw [filter_eq_nil_iff] at hnone
      intro dim hdim'
      simpa using hnone dim hdim'
  · intro hothers
    exact Or.inr (splitsInto_of_free hframe hlegacy hkept hdim hfree hothers)

theorem conserved_iff_keysAgree :
    Conserved table.rows (splitMegaFrames read draws.draw table.rows) frame ↔
      KeysAgree read table.rows frame := by
  obtain ⟨kept, hkept, hdim⟩ := keeper_isSome read hlegacy
  have hdims : ∀ value, (∀ dim ∈ dimensions read frame,
      keyTaken table.rows frame dim = value) ↔
      keyTaken table.rows frame kept = value ∧
        ∀ dim ∈ otherDimensions read frame, keyTaken table.rows frame dim = value := by
    intro value
    simp only [(dimensions_perm hkept hdim).mem_iff, mem_cons, forall_eq_or_imp]
  have hnil : otherDimensions read frame = [] ↔ ∀ dim ∈ otherDimensions read frame, False := by
    rw [eq_nil_iff_forall_not_mem]
  simp only [KeysAgree, hdims, hkept, Option.some.injEq, forall_eq']
  cases htaken : keyTaken table.rows frame kept with
  | true =>
    rw [conserved_kept_iff hframe hlegacy hkept htaken, hnil]
    cases hanalyst : frame.analystId <;> simp [childTaken, hanalyst]
  | false =>
    rw [conserved_rekeyed_iff hframe hlegacy hkept hdim htaken]
    cases hanalyst : frame.analystId <;> simp [childTaken, hanalyst]

end

end

/-! ## A second run -/

theorem inserted_eq_nil {items : List Frame}
    (hconflicts : ∀ row ∈ items, conflicts rows row = true) : inserted rows items = [] := by
  induction items with
  | nil => rfl
  | cons row items ih =>
    rw [forall_mem_cons] at hconflicts
    rw [inserted, if_pos hconflicts.1, ih hconflicts.2]

section

variable {table : Frames} {draws : Draws table.rows}

theorem legacy_after {row : Frame} (hrow : row ∈ splitMegaFrames read draws.draw table.rows)
    (hlegacy : row.isLegacy) :
    row ∈ table.rows ∧ ∃ kept, keeper read row = some kept ∧
      kept ∈ dimensions read row ∧
      keyTaken table.rows row kept = true := by
  rcases mem_append.mp hrow with hmapped | hnew
  · obtain ⟨source, hsource, rfl⟩ := mem_map.mp hmapped
    cases hold : source.isLegacy with
    | false =>
      have hsame : rekey read table.rows source = source := by simp [rekey, hold]
      rw [hsame, hold] at hlegacy
      simp at hlegacy
    | true =>
      obtain ⟨kept, hkept, hdim⟩ := keeper_isSome read hold
      cases htaken : keyTaken table.rows source kept with
      | true =>
        have hsame : rekey read table.rows source = source := by simp [rekey, hold, hkept, htaken]
        rw [hsame]
        exact ⟨hsource, kept, hkept, hdim, htaken⟩
      | false =>
        have hrekey : rekey read table.rows source = rekeyedRow read source kept := by
          simp [rekey, hold, hkept, htaken]
        obtain ⟨signature, hsig, _⟩ := isLegacy_signature hold
        have hsome : source.signature.isSome := by rw [hsig]; rfl
        have hnot : (rekeyedRow read source kept).isLegacy = false :=
          not_isLegacy_of_dimensioned hsome rfl
        rw [hrekey, hnot] at hlegacy
        simp at hlegacy
  · rw [inserted_eq_filter _ (children_distinct table draws.draw)] at hnew
    obtain ⟨source, hsource, hmem⟩ := mem_flatMap.mp (mem_of_mem_filter hnew)
    obtain ⟨dim, _, rfl⟩ := mem_map.mp hmem
    obtain ⟨signature, hsig, _⟩ := isLegacy_signature (mem_filter.mp hsource).2
    have hsome : source.signature.isSome := by rw [hsig]; rfl
    have hnot : (childRow read (draws.draw source.id dim) source
        dim).isLegacy = false := not_isLegacy_of_dimensioned hsome rfl
    rw [hnot] at hlegacy
    simp at hlegacy

theorem keyTaken_after {frame : Frame} (hlegacy : frame.isLegacy)
    {dim : String} (htaken : keyTaken table.rows frame dim) :
    keyTaken (splitMegaFrames read draws.draw table.rows) frame dim := by
  obtain ⟨other, hother, hkey⟩ := any_eq_true.mp htaken
  refine any_eq_true.mpr ⟨other, mem_append_left _ ?_, hkey⟩
  simp only [and_eq_true, decide_eq_true_eq] at hkey
  obtain ⟨signature, hsig, _⟩ := isLegacy_signature hlegacy
  have hnot := not_isLegacy_of_dimensioned (by rw [hsig]; rfl) hkey.1.1
  refine mem_map.mpr ⟨other, hother, ?_⟩
  simp [rekey, hnot]

theorem conflicts_of_keyTaken {rows : List Frame} {frame : Frame} (hlegacy : frame.isLegacy)
    (hanalyst : frame.analystId.isSome) (id : Uuid) {dim : String}
    (htaken : keyTaken rows frame dim) : conflicts rows (childRow read id frame dim) := by
  obtain ⟨signature, hsig, _⟩ := isLegacy_signature hlegacy
  obtain ⟨other, hother, hkey⟩ := any_eq_true.mp htaken
  simp only [and_eq_true, decide_eq_true_eq] at hkey
  have hsome : (childRow read id frame dim).signature.isSome := by
    simp [childRow, Frame.dimensioned, hsig]
  rw [conflicts, hsome, Bool.true_and, Bool.and_eq_true]
  refine ⟨hanalyst, any_eq_true.mpr ⟨other, hother, ?_⟩⟩
  simp only [and_eq_true, decide_eq_true_eq]
  exact ⟨hkey.1.1, hkey.1.2⟩

theorem splitMegaFrames_again
    (hagree : ∀ frame ∈ table.rows, frame.isLegacy = true → KeysAgree read table.rows frame)
    (now : Datetime) (draw : Uuid → String → Uuid) : splitMegaFrames { read with now := now } draw
        (splitMegaFrames read draws.draw table.rows) =
      splitMegaFrames read draws.draw table.rows := by
  set after := splitMegaFrames read draws.draw table.rows with hafter
  have hkeep : ∀ row ∈ after, rekey { read with now := now } after row = row := by
    intro row hrow
    cases hlegacy : row.isLegacy with
    | false => simp [rekey, hlegacy]
    | true =>
      obtain ⟨_, kept, hkept, _, htaken⟩ := legacy_after hrow hlegacy
      have hkept' : keeper { read with now := now } row = some kept := hkept
      have htaken' : keyTaken after row kept := keyTaken_after hlegacy htaken
      simp [rekey, hlegacy, hkept', htaken']
  have hnone : inserted after (children { read with now := now } draw after) = [] := by
    refine inserted_eq_nil fun row hrow => ?_
    obtain ⟨frame, hframe, hmem⟩ := mem_flatMap.mp hrow
    obtain ⟨hin, hlegacy⟩ := mem_filter.mp hframe
    obtain ⟨dim, hdim, rfl⟩ := mem_map.mp hmem
    have hother : dim ∈ otherDimensions read frame := hdim
    obtain ⟨hold, kept, hkept, hkeptDim, htaken⟩ := legacy_after hin hlegacy
    have hcondition := hagree frame hold hlegacy
    cases hanalyst : frame.analystId with
    | none =>
      rcases hcondition.2 hanalyst kept hkept with hfree | halone
      · rw [htaken] at hfree
        simp at hfree
      · rw [halone] at hother
        exact absurd hother not_mem_nil
    | some analyst =>
      have hsome : frame.analystId.isSome := by rw [hanalyst]; rfl
      refine conflicts_of_keyTaken hlegacy hsome _ (keyTaken_after hlegacy ?_)
      rcases hcondition.1 hsome with hfree | hall
      · have hfreeKept := hfree kept hkeptDim
        rw [htaken] at hfreeKept
        simp at hfreeKept
      · exact hall dim (mem_otherDimensions.mp hother).1
  rw [splitMegaFrames, hnone, append_nil]
  exact (map_congr_left hkeep).trans (map_id' _)

end

end

theorem mega_frame_split_conserves_iff (read : SplitRead) (table : Frames)
    (draws : Draws table.rows) :
    SplitConserves read table draws ↔
      ∀ frame ∈ table.rows, frame.isLegacy = true → KeysAgree read table.rows frame := by
  constructor
  · intro hconserves frame hframe hlegacy
    exact (conserved_iff_keysAgree hframe hlegacy).mp (hconserves.conserved frame hframe hlegacy)
  · intro hagree
    refine ⟨fun frame hframe hlegacy => ?_, splitMegaFrames_again hagree⟩
    exact (conserved_iff_keysAgree hframe hlegacy).mpr (hagree frame hframe hlegacy)

def frameRow (id : Uuid) (signature : String)
    (derivedFrom : List (Option Uuid)) (intensity : ℚ) : Frame where
  id := id
  signature := some signature
  analystId := some "situation_clustering"
  derivedFrom := derivedFrom
  intensity := intensity
  status := "active"
  name := "Argentina"
  data := { situationSignature := some signature, memberFindingIds := [] }
  producedAt := 0
  updatedAt := 0

def splitRead : SplitRead where
  outputs := fun id =>
    if id = 11 ∨ id = 12 then some ⟨some "escalation", 0, some "a strike"⟩
    else if id = 13 then some ⟨some "energy_security", 0, some "a shortage"⟩
    else none
  ledger := []
  now := 0
  lower := id
  collates := fun a b => decide (a < b)

def partlyShaped : Frames where
  rows :=
    [frameRow 1 "sig:country_g20_ar" [some 11, some 12, some 13] 30,
      frameRow 2 "sig:country_g20_ar#dim:energy_security" [] 5]
  distinct := by decide
  unique := by decide +kernel

def partlyShapedDraws : Draws partlyShaped.rows where
  draw := fun _ _ => 3
  fresh := fun _ _ => by decide

theorem split_loses_members : ¬SplitConserves splitRead partlyShaped partlyShapedDraws := by
  intro hconserves
  have hframe : frameRow 1 "sig:country_g20_ar"
      [some 11, some 12, some 13] 30 ∈ partlyShaped.rows :=
    mem_cons_self
  have hmembers : (heirs partlyShaped.rows
      (splitMegaFrames splitRead partlyShapedDraws.draw partlyShaped.rows)
      (frameRow 1 "sig:country_g20_ar" [some 11, some 12, some 13] 30)).map
        Frame.derivedFrom = [[some 11, some 12]] := by
    decide +kernel
  rcases hconserves.conserved _ hframe (by decide +kernel) with halone | hsplit
  · rw [halone] at hmembers
    exact absurd hmembers (by decide)
  · have hlength := hsplit.members.length_eq
    exact absurd hlength (by decide)

end Legba.Situations
