import Legba.JsonBackticks
import Legba.JudgeReplies
import Mathlib.Data.Set.Finite.List

/-!
# Objects among prose and fences

An object is found behind any prose which leaves no block open, unless its text
holds two fences.  Prose which leaves a block open hides some object, and two
fences in an object's text hide it whatever surrounds it.  In a fence an object
is found exactly when its text holds no fence.
-/

namespace Legba.JudgeReplies

open LoadedJson JsonText List Option

universe u

variable {F : Type u}

/-! ## Texts with fences -/

def NoFence (text : Text) : Prop := ¬fence <:+: text

def TwoFences (text : Text) : Prop :=
  ∃ front between back, text = front ++ fence ++ between ++ fence ++ back

section

variable {text front back : Text}

variable {letter : Char}

theorem splitFence_cons {rest : Text} (hno : ¬fence <+: letter :: rest) :
    splitFence (letter :: rest) =
      (splitFence rest).map fun split => (letter :: split.1, split.2) := by
  rw [splitFence, if_neg hno]

theorem splitFence_fence (rest : Text) : splitFence (fence ++ rest) = some ([], rest) := by
  have hstart : fence <+: '`' :: '`' :: '`' :: rest := ⟨rest, rfl⟩
  change splitFence ('`' :: '`' :: '`' :: rest) = _
  rfl

variable {split : Text × Text}

theorem splitFence_spec (hsplit : splitFence text = some split) :
    text = split.1 ++ fence ++ split.2 := by
  induction text generalizing split with
  | nil => cases hsplit
  | cons letter rest ih =>
    by_cases hstart : fence <+: letter :: rest
    · obtain ⟨back, hback⟩ := hstart
      rw [← hback, splitFence_fence] at hsplit
      cases hsplit
      exact hback.symm
    · rw [splitFence_cons hstart] at hsplit
      obtain ⟨tail, htail, rfl⟩ := map_eq_some_iff.mp hsplit
      rw [cons_append, cons_append, ← ih htail]

theorem splitFence_eq_none_iff : splitFence text = none ↔ NoFence text := by
  unfold NoFence
  induction text with
  | nil => simp [splitFence, fence]
  | cons letter rest ih =>
    rw [infix_cons_iff]
    by_cases hstart : fence <+: letter :: rest
    · obtain ⟨back, hback⟩ := hstart
      rw [← hback, splitFence_fence]
      simp
    · rw [splitFence_cons hstart, map_eq_none_iff, ih]
      simp [hstart]

theorem NoFence.of_part (htext : NoFence text) (hwithin : front <:+: text) : NoFence front :=
  fun hfence => htext (hfence.trans hwithin)

theorem splitFence_append (hletter : letter ≠ '`') (hfront : NoFence front) :
    splitFence (front ++ letter :: back) =
      (splitFence back).map fun split =>
        (front ++ letter :: split.1, split.2) := by
  induction front with
  | nil =>
    apply splitFence_cons
    simp [fence, hletter.symm]
  | cons first front ih =>
    have hno : ¬fence <+: first :: (front ++ letter :: back) := by
      intro hstart
      apply hfront
      match front with
      | [] => simp [fence, hletter.symm] at hstart
      | [second] => simp [fence, hletter.symm] at hstart
      | second :: third :: front =>
        simp only [fence, cons_append, cons_prefix_cons, nil_prefix, and_true] at hstart
        obtain ⟨rfl, rfl, rfl⟩ := hstart
        exact (prefix_append fence front).isInfix
    have htail := ih (hfront.of_part (suffix_cons _ _).isInfix)
    rw [cons_append, splitFence_cons hno, htail, Option.map_map]
    rfl

theorem splitFence_append_right (hsplit : splitFence text = some split) :
    splitFence (text ++ back) = some (split.1, split.2 ++ back) := by
  induction text generalizing split with
  | nil => cases hsplit
  | cons letter rest ih =>
    by_cases hstart : fence <+: letter :: rest
    · obtain ⟨body, hbody⟩ := hstart
      rw [← hbody, splitFence_fence] at hsplit
      cases hsplit
      rw [← hbody, append_assoc, splitFence_fence]
    · rw [splitFence_cons hstart] at hsplit
      obtain ⟨tail, htail, rfl⟩ := map_eq_some_iff.mp hsplit
      have hno : ¬fence <+: letter :: (rest ++ back) := by
        intro hlong
        have hspec := splitFence_spec htail
        apply hstart
        have hlength : fence.length ≤ (letter :: rest).length := by
          rw [hspec]
          simp [fence]
          omega
        exact prefix_of_prefix_length_le hlong (prefix_append (letter :: rest) back) hlength
      rw [cons_append, splitFence_cons hno, ih htail]
      rfl

theorem splitFence_first (hsplit : splitFence (front ++ fence ++ back) = some split) :
    split.1.length ≤ front.length := by
  induction front generalizing split with
  | nil =>
    cases hsplit
    exact le_rfl
  | cons letter front ih =>
    rw [cons_append, cons_append] at hsplit
    by_cases hstart : fence <+: letter :: (front ++ fence ++ back)
    · obtain ⟨body, hbody⟩ := hstart
      rw [← hbody, splitFence_fence] at hsplit
      cases hsplit
      exact Nat.zero_le _
    · rw [splitFence_cons hstart] at hsplit
      obtain ⟨tail, htail, rfl⟩ := map_eq_some_iff.mp hsplit
      exact Nat.succ_le_succ (ih htail)

/-! ### What stands behind an opening fence -/

def skipLabel (text : Text) : Text := (dropLabel text).dropWhile isSpace

theorem fenceGroup_eq (text : Text) :
    fenceGroup text = (splitFence text).bind fun opened =>
      (splitFence (skipLabel opened.2)).map Prod.fst := rfl

theorem isLabel_letters {text : Text} (hlabel : isLabel text) : '`' ∉ text ∧ '}' ∉ text := by
  unfold isLabel at hlabel
  split at hlabel
  next a b c d =>
    simp only [Bool.and_eq_true, Bool.or_eq_true, decide_eq_true_eq] at hlabel
    constructor
    all_goals
      intro hmem
      simp only [mem_cons, not_mem_nil, or_false] at hmem
      rcases hmem with rfl | rfl | rfl | rfl <;> simp at hlabel
  next => cases hlabel

theorem skipLabel_spec (text : Text) :
    ∃ skipped, text = skipped ++ skipLabel text ∧ '`' ∉ skipped := by
  have hblanks : '`' ∉ (dropLabel text).takeWhile isSpace := by
    intro hmem
    exact absurd (mem_takeWhile_imp hmem) (by decide)
  have hsplit := @List.takeWhile_append_dropWhile _ isSpace (dropLabel text)
  unfold skipLabel
  by_cases hlabel : isLabel (text.take 4) = true
  · have hdrop : dropLabel text = text.drop 4 := if_pos hlabel
    refine ⟨text.take 4 ++ (dropLabel text).takeWhile isSpace, ?_, ?_⟩
    · rw [append_assoc, hsplit, hdrop, take_append_drop]
    · rw [mem_append, not_or]
      exact ⟨(isLabel_letters hlabel).1, hblanks⟩
  · have hdrop : dropLabel text = text := if_neg hlabel
    refine ⟨(dropLabel text).takeWhile isSpace, ?_, hblanks⟩
    rw [hsplit, hdrop]

theorem skipLabel_brace (front : Text) :
    ∃ body, ∀ back, skipLabel (front ++ '}' :: back) = body ++ '}' :: back := by
  have hlabel : ∃ body, ∀ back, dropLabel (front ++ '}' :: back) = body ++ '}' :: back := by
    by_cases hlong : 4 ≤ front.length
    · refine ⟨dropLabel front, fun back => ?_⟩
      unfold dropLabel
      rw [take_append_of_le_length hlong]
      split_ifs
      · rw [drop_append_of_le_length hlong]
      · rfl
    · refine ⟨front, fun back => ?_⟩
      unfold dropLabel
      rw [if_neg]
      intro hmark
      apply (isLabel_letters hmark).2
      rw [take_append, mem_append]
      right
      obtain ⟨n, hn⟩ : ∃ n, 4 - front.length = n + 1 := ⟨3 - front.length, by omega⟩
      rw [hn, take_succ_cons]
      exact mem_cons_self
  obtain ⟨body, hbody⟩ := hlabel
  refine ⟨body.dropWhile isSpace, fun back => ?_⟩
  unfold skipLabel
  rw [hbody, dropWhile_append]
  split_ifs with hempty
  · rw [isEmpty_iff.mp hempty]
    rfl
  · rfl

theorem fenceGroup_eq_none_iff : fenceGroup text = none ↔ ¬TwoFences text := by
  rw [fenceGroup_eq]
  constructor
  · rintro hnone ⟨before, between, back, htext⟩
    cases hsplit : splitFence text with
    | none =>
      apply splitFence_eq_none_iff.mp hsplit
      rw [htext]
      exact ⟨before, between ++ fence ++ back, by simp⟩
    | some split =>
      rw [hsplit, bind_some, map_eq_none_iff, splitFence_eq_none_iff] at hnone
      apply hnone
      have hspec := splitFence_spec hsplit
      have hfirst : split.1.length ≤ before.length := by
        have htext' : text = before ++ fence ++ (between ++ fence ++ back) := by
          rw [htext]
          simp
        rw [htext'] at hsplit
        exact splitFence_first hsplit
      obtain ⟨skipped, hskip, hno⟩ := skipLabel_spec split.2
      -- the second fence is an end of what follows the first
      have hlength := congrArg length (htext.symm.trans hspec)
      simp only [length_append] at hlength
      have hlast : fence ++ back <:+ text :=
        ⟨before ++ fence ++ between, by rw [htext]; simp⟩
      have hbehind : split.2 <:+ text := ⟨split.1 ++ fence, hspec.symm⟩
      have hend : fence ++ back <:+ split.2 := by
        apply suffix_of_suffix_length_le hlast hbehind
        simp only [length_append]
        omega
      obtain ⟨front, hfront⟩ := hend
      rw [hskip, append_eq_append_iff] at hfront
      obtain ⟨rest, rfl, hrest⟩ | ⟨rest, rfl, hrest⟩ := hfront
      · cases rest with
        | nil =>
          rw [nil_append] at hrest
          rw [← hrest]
          exact (prefix_append fence back).isInfix
        | cons letter rest =>
          have hletter : letter = '`' := by
            have hhead := congrArg head? hrest
            simpa [fence] using hhead.symm
          apply absurd _ hno
          rw [hletter]
          simp
      · rw [hrest]
        exact ⟨rest, back, by simp⟩
  · intro hno
    cases hsplit : splitFence text with
    | none => rfl
    | some split =>
      rw [bind_some, map_eq_none_iff, splitFence_eq_none_iff]
      rintro ⟨front, back, hbody⟩
      obtain ⟨skipped, hskip, -⟩ := skipLabel_spec split.2
      apply hno
      refine ⟨split.1, skipped ++ front, back, ?_⟩
      rw [splitFence_spec hsplit, hskip, ← hbody]
      simp

theorem splitFence_fst_brace (hback : NoFence back) (front : Text) :
    (splitFence (front ++ '}' :: back)).map Prod.fst =
      (splitFence (front ++ ['}'])).map Prod.fst := by
  cases hsplit : splitFence (front ++ ['}']) with
  | some split =>
    have hlong := @splitFence_append_right _ back _ hsplit
    rw [append_assoc, singleton_append] at hlong
    rw [hlong]
    rfl
  | none =>
    have hfront : NoFence front :=
      (splitFence_eq_none_iff.mp hsplit).of_part (prefix_append front ['}']).isInfix
    rw [splitFence_append (by decide) hfront, splitFence_eq_none_iff.mpr hback]
    rfl

theorem fenceGroup_around (hfront : NoFence front) (hback : NoFence back) (body : Text) :
    fenceGroup (front ++ ('{' :: body ++ ['}']) ++ back) = fenceGroup ('{' :: body ++ ['}']) := by
  have hnil : NoFence [] := by simp [NoFence, fence]
  have hbrace : '{' ≠ '`' := by decide
  have hlong := @splitFence_append _ (body ++ '}' :: back) _ hbrace hfront
  have hshort := @splitFence_append _ (body ++ ['}']) _ hbrace hnil
  have htext : front ++ ('{' :: body ++ ['}']) ++ back =
      front ++ '{' :: (body ++ '}' :: back) := by simp
  rw [nil_append] at hshort
  rw [fenceGroup_eq, fenceGroup_eq, htext, cons_append, hlong, hshort, bind_map, bind_map]
  cases hsplit : splitFence (body ++ ['}']) with
  | none =>
    have hbody : NoFence body :=
      (splitFence_eq_none_iff.mp hsplit).of_part (prefix_append body ['}']).isInfix
    rw [splitFence_append (by decide) hbody, splitFence_eq_none_iff.mpr hback]
    rfl
  | some split =>
    have hright := @splitFence_append_right _ back _ hsplit
    rw [append_assoc, singleton_append] at hright
    have hspec := splitFence_spec hsplit
    obtain ⟨rest, hrest⟩ : ∃ rest, split.2 = rest ++ ['}'] := by
      rcases eq_nil_or_concat split.2 with hempty | ⟨rest, last, hlast⟩
      · rw [hempty, append_nil] at hspec
        have hend := congrArg getLast? hspec
        simp [fence] at hend
      · rw [concat_eq_append] at hlast
        rw [hlast, ← append_assoc] at hspec
        have hend := congrArg getLast? hspec
        rw [getLast?_concat, getLast?_concat] at hend
        exact ⟨rest, by rw [hlast, ← some.inj hend]⟩
    obtain ⟨inner, hinner⟩ := skipLabel_brace rest
    rw [hright]
    simp only [bind_some, Function.comp_apply, hrest, append_assoc, singleton_append, hinner]
    exact splitFence_fst_brace hback inner

end

/-! ## Objects in prose -/

section

variable {L : Floats F} {text front back : Text}

theorem dropWhile_stop {p : Char → Bool} {letter : Char}
    (hletter : ¬p letter = true) (front back : Text) :
    (front ++ letter :: back).dropWhile p = front.dropWhile p ++ letter :: back := by
  rw [dropWhile_append]
  split_ifs with hempty
  · rw [isEmpty_iff.mp hempty, dropWhile_cons_of_neg hletter, nil_append]
  · rfl

theorem strip_around (front body back : Text) :
    strip (front ++ ('{' :: body ++ ['}']) ++ back) =
      front.dropWhile isSpace ++ ('{' :: body ++ ['}']) ++ back.rdropWhile isSpace := by
  have htext : front ++ ('{' :: body ++ ['}']) ++ back =
      front ++ '{' :: (body ++ ['}'] ++ back) := by simp
  have hreverse : (front.dropWhile isSpace ++
      '{' :: (body ++ ['}'] ++ back)).reverse =
        back.reverse ++ '}' :: (front.dropWhile isSpace ++ '{' :: body).reverse := by
    simp
  unfold strip Words.strip
  rw [htext, dropWhile_stop (by decide), rdropWhile, hreverse, dropWhile_stop (by decide)]
  simp [rdropWhile]

theorem infix_strip (text : Text) : strip text <:+: text := by
  exact ( rdropWhile_prefix _ _).isInfix.trans (dropWhile_suffix _).isInfix

variable {group before after : Text} {state : ScanState}

theorem fenceGroup_spec (hgroup : fenceGroup text = some group) :
    ∃ before after, text = before ++ group ++ (fence ++ after) := by
  rw [fenceGroup_eq] at hgroup
  obtain ⟨split, hsplit, hmap⟩ := bind_eq_some_iff.mp hgroup
  obtain ⟨closed, hclosed, rfl⟩ := map_eq_some_iff.mp hmap
  obtain ⟨skipped, hskip, -⟩ := skipLabel_spec split.2
  refine ⟨split.1 ++ fence ++ skipped, closed.2, ?_⟩
  rw [splitFence_spec hsplit]
  conv_lhs => rw [hskip, splitFence_spec hclosed]
  simp

theorem infix_fenceGroup (hgroup : fenceGroup text = some group) : group <:+: text := by
  obtain ⟨before, after, rfl⟩ := fenceGroup_spec hgroup
  exact ⟨before, fence ++ after, rfl⟩

variable {fields : Fields F}

theorem objectOf_eq_some_iff {block : Text} :
    objectOf L block = some fields ↔ loads L block = some (.object fields) := by
  unfold objectOf
  cases loads L block with
  | none => simp
  | some value => cases value <;> simp

theorem extractJsonObjects_eq (text : Text) :
    extractJsonObjects L text =
      (blocks (((fenceGroup (strip text)).map strip).getD
        (strip text))).filterMap (objectOf L) := by
  unfold extractJsonObjects
  cases text with
  | nil => rfl
  | cons letter rest =>
    simp only [isEmpty_cons, Bool.false_eq_true, if_false]
    cases fenceGroup (strip (letter :: rest)) <;> rfl

theorem block_of_mem_extract (hmem : fields ∈ extractJsonObjects L text) :
    ∃ block, block <:+: text ∧ Balanced block ∧ loads L block = some (.object fields) := by
  rw [extractJsonObjects_eq] at hmem
  obtain ⟨block, hblock, hobject⟩ := mem_filterMap.mp hmem
  obtain ⟨hbalanced, hwithin⟩ := balanced_of_mem_blocks hblock
  refine ⟨block, hwithin.trans ?_, hbalanced, objectOf_eq_some_iff.mp hobject⟩
  cases hgroup : fenceGroup (strip text) with
  | none => exact infix_strip text
  | some group =>
    exact (infix_strip group).trans ((infix_fenceGroup hgroup).trans (infix_strip text))

theorem Closed.dropWhile_iff : Closed (front.dropWhile isSpace) ↔ Closed front := by
  induction front with
  | nil => rfl
  | cons letter front ih =>
    by_cases hspace : isSpace letter = true
    · have hne : letter ≠ '{' := by
        rintro rfl
        exact absurd hspace (by decide)
      rw [dropWhile_cons_of_pos hspace, ih]
      constructor
      · exact .letter letter front hne
      · intro hclosed
        generalize htext : letter :: front = text at hclosed
        cases hclosed with
        | nil => cases htext
        | letter ch rest hch hrest =>
          cases htext
          exact hrest
        | block block rest hblock hrest =>
          obtain ⟨body, rfl, -⟩ := hblock
          cases htext
          exact absurd rfl hne
    · rw [dropWhile_cons_of_neg hspace]

theorem NoFence.strip_around (hfront : NoFence front) (hback : NoFence back) :
    NoFence (front.dropWhile isSpace) ∧ NoFence (back.rdropWhile isSpace) :=
  ⟨hfront.of_part (dropWhile_suffix _).isInfix, hback.of_part ( rdropWhile_prefix _ _).isInfix⟩

theorem extract_around (hfront : NoFence front) (hback : NoFence back) (body : Text) :
    extractJsonObjects L (front ++ ('{' :: body ++ ['}']) ++ back) =
      (blocks (((fenceGroup ('{' :: body ++ ['}'])).map strip).getD
        (front.dropWhile isSpace ++ ('{' :: body ++ ['}']) ++
          back.rdropWhile isSpace))).filterMap (objectOf L) := by
  obtain ⟨hfront', hback'⟩ := hfront.strip_around hback
  rw [extractJsonObjects_eq, strip_around, fenceGroup_around hfront' hback']

theorem dumps_spec {value : Value F} (hdumps : dumps L value = some text) :
    text = dumpsText L value := by
  unfold dumps at hdumps
  rw [ite_none_right_eq_some, some.injEq] at hdumps
  exact hdumps.2.symm

theorem mem_extract_of_closed (hobject : WellFormed L.Reads (.object fields))
    (hdumps : dumps L (.object fields) = some text) (hfences : ¬TwoFences text)
    (hclosed : Closed front) (hfront : NoFence front) (hback : NoFence back) :
    fields ∈ extractJsonObjects L (front ++ text ++ back) := by
  have hread := loads_dumps hobject hdumps
  have hblock : Balanced text := by
    rw [dumps_spec hdumps]
    exact balanced_dumpsText hobject
  have hgroup := fenceGroup_eq_none_iff.mpr hfences
  obtain ⟨body, hbody, -⟩ := id hblock
  subst hbody
  rw [extract_around hfront hback, hgroup, map_none, getD_none, append_assoc,
    (Closed.dropWhile_iff.mpr hclosed).blocks_append, blocks_block hblock]
  rw [filterMap_append, filterMap_cons_some (objectOf_eq_some_iff.mpr hread)]
  simp

/-! ### Prose which leaves a block open -/

def probe (F : Type u) (n : ℕ) : Fields F := [(List.replicate n 'a', .null)]

theorem wellFormed_probe (n : ℕ) : WellFormed L.Reads (.object (probe F n)) := by
  refine .object _ (by simp [probe]) ?_
  intro field hfield
  rw [probe, mem_singleton] at hfield
  subst hfield
  exact .null

theorem after_escaped (text : Text) (hescaped : state.escaped = true → state.inStr = true) :
    (state.after text).escaped = true → (state.after text).inStr = true := by
  induction text generalizing state with
  | nil => exact hescaped
  | cons ch rest ih => exact ih (step_escaped hescaped)

theorem stays_probe (n : ℕ) (hdepth : 0 < state.depth)
    (hescaped : state.escaped = true → state.inStr = true) :
    Stays state (dumpsText L (.object (probe F n))) := by
  obtain ⟨depth, inStr, escaped⟩ := state
  simp only at hdepth hescaped
  cases inStr with
  | false =>
    have hunescaped : escaped = false := by
      cases escaped with
      | false => rfl
      | true => exact absurd (hescaped rfl) (by simp)
    subst hunescaped
    exact (neutral_dumpsText (wellFormed_probe n) depth hdepth).1
  | true =>
    have hletters : ∀ ch ∈ (replicate n 'a').flatMap escape, ch = 'a' := by
      intro ch hch
      obtain ⟨letter, hletter, hmem⟩ := mem_flatMap.mp hch
      rw [eq_of_mem_replicate hletter] at hmem
      exact mem_singleton.mp hmem
    have hkeeps : Keeps (outside depth) ((replicate n 'a').flatMap escape) :=
      neutral_of_plain (fun ch hch => by rw [hletters ch hch]; rfl) depth hdepth
    have hend : Keeps (inside depth) ": null\x7d".toList := by
      apply keeps_of_step hdepth
      intro ch hch
      apply inside_step <;>
      · rintro rfl
        simp at hch
    have htext : dumpsText L (.object (probe F n)) =
        '{' :: '"' :: ((replicate n 'a').flatMap escape ++ '"' :: ": null\x7d".toList) := by
      simp [probe, dumpsText, dumpsFields, dumpsString]
    have hbrace : ScanState.step ⟨depth, true, escaped⟩ '{' = inside depth := by
      cases escaped <;> rfl
    have hclose : (inside depth).step '"' = outside depth := rfl
    have hopen : (outside depth).step '"' = inside depth := rfl
    rw [htext]
    apply stays_cons hdepth
    rw [hbrace]
    apply stays_cons hdepth
    apply hkeeps.1.append
    rw [hkeeps.2]
    apply stays_cons hdepth
    exact hend.1

theorem noFence_nil : NoFence [] := by simp [NoFence, fence]

theorem noFence_probe (n : ℕ) : NoFence (dumpsText L (.object (probe F n))) := by
  intro hfence
  have hticks := (writes_dumpsText (wellFormed_probe (L := L) n)).ticks
  have hzero : ticks (.object (probe F n)) = 0 := by
    simp [probe, ticks, ticksFields, backticks, count_replicate]
  rw [hzero, backticks, count_eq_zero] at hticks
  exact hticks (hfence.subset (by simp [fence]))

theorem not_twoFences_of_noFence (htext : NoFence text) : ¬TwoFences text := by
  rintro ⟨before, between, after, rfl⟩
  exact htext ⟨before, between ++ fence ++ after, by simp⟩

theorem exists_missed (hopen : ¬Closed front) (hfront : NoFence front) :
    ∃ n, probe F n ∉ extractJsonObjects L (front ++ dumpsText L (.object (probe F n)) ++ []) := by
  rcases closed_or_open (front.dropWhile isSpace) with hclosed | hrest
  · exact absurd (Closed.dropWhile_iff.mp hclosed) hopen
  · obtain ⟨before, body, htext, hbefore, hstays⟩ := hrest
    have hobjects : ∀ n, extractJsonObjects L
        (front ++ dumpsText L (.object (probe F n)) ++ []) =
          (blocks before).filterMap (objectOf L) := by
      intro n
      have hgroup := fenceGroup_eq_none_iff.mpr
        (not_twoFences_of_noFence (noFence_probe (L := L) n))
      have hprobe := stays_probe (L := L) n hstays.after_pos (after_escaped body (by decide))
      rw [dumpsText_object] at hgroup hprobe ⊢
      rw [extract_around hfront noFence_nil, hgroup, map_none, getD_none, htext]
      have hsplit : before ++ '{' :: body ++
          ('{' :: objectBody L (probe F n) ++ ['}']) ++ rdropWhile isSpace [] =
          before ++ '{' :: (body ++ ('{' :: objectBody L (probe F n) ++ ['}'])) := by
        simp [rdropWhile]
      rw [hsplit, hbefore.blocks_append, blocks_open (hstays.append hprobe), append_nil]
    have hinjective : Function.Injective (probe F) := by
      intro n m heq
      have hkeys := congrArg (fun fields => fields.map
        (fun field => field.1.length)) heq
      simpa [probe] using hkeys
    obtain ⟨fields, ⟨n, rfl⟩, hmissed⟩ :=
      (Set.infinite_range_of_injective hinjective).exists_notMem_finite
        (finite_toSet ((blocks before).filterMap (objectOf L)))
    refine ⟨n, ?_⟩
    rw [hobjects n]
    exact hmissed

/-! ### Objects with fences in them -/

theorem missed_of_twoFences (hobject : WellFormed L.Reads (.object fields))
    (hfences : TwoFences (dumpsText L (.object fields)))
    (hfront : NoFence front) (hback : NoFence back) :
    fields ∉ extractJsonObjects L (front ++ dumpsText L (.object fields) ++ back) := by
  intro hmem
  have hgroup : fenceGroup (dumpsText L (.object fields)) ≠ none := by
    rw [Ne, fenceGroup_eq_none_iff, not_not]
    exact hfences
  obtain ⟨group, hgroup⟩ := ne_none_iff_exists'.mp hgroup
  have htext := dumpsText_object (L := L) fields
  rw [htext, extract_around hfront hback, ← htext, hgroup, map_some, getD_some] at hmem
  obtain ⟨block, hblock, hread⟩ := mem_filterMap.mp hmem
  rw [objectOf_eq_some_iff] at hread
  obtain ⟨⟨body, rfl, -⟩, hwithin⟩ := balanced_of_mem_blocks hblock
  obtain ⟨before, after, hspec⟩ := fenceGroup_spec hgroup
  obtain ⟨left, right, hpart⟩ := hwithin.trans (infix_strip group)
  have hsplit : dumpsText L (.object fields) =
      (before ++ left) ++ ('{' :: (body ++ ['}'])) ++ (right ++ fence ++ after) := by
    rw [hspec, ← hpart]
    simp
  apply loads_part_ne hobject hsplit _ hread
  rw [hsplit]
  simp only [backticks_append]
  have hthree : backticks fence = 3 := rfl
  omega

/-! ### Objects in a fence -/

theorem splitFence_blanks {blanks : Text} (hblanks : ∀ letter ∈ blanks, isSpace letter = true) :
    splitFence (blanks ++ fence) = some (blanks, []) := by
  induction blanks with
  | nil => exact splitFence_fence []
  | cons letter blanks ih =>
    rw [forall_mem_cons] at hblanks
    have hne : letter ≠ '`' := by
      rintro rfl
      exact absurd hblanks.1 (by decide)
    have hno : ¬fence <+: letter :: (blanks ++ fence) := by simp [fence, hne.symm]
    rw [cons_append, splitFence_cons hno, ih hblanks.2]
    rfl

def fenced (before text after : Text) : Text :=
  fence ++ ("json".toList ++ (before ++ text ++ after)) ++ fence

theorem strip_fenced (before text after : Text) :
    strip (fenced before text after) = fenced before text after := by
  have hspace : ¬isSpace '`' = true := by decide
  have hfront : fenced before text after =
      '`' :: ('`' :: '`' :: ("json".toList ++ (before ++ text ++ after)) ++ fence) := rfl
  have hback : (fenced before text after).reverse =
      '`' :: ('`' :: '`' :: (fence ++ ("json".toList ++ (before ++ text ++ after))).reverse) := by
    simp [fenced, fence]
  unfold strip Words.strip
  rw [hfront, dropWhile_cons_of_neg hspace, ← hfront, rdropWhile,
    hback, dropWhile_cons_of_neg hspace, ← hback, reverse_reverse]

theorem fenceGroup_fenced (body : Text) (hbefore : ∀ letter ∈ before, isSpace letter = true) :
    fenceGroup (fenced before ('{' :: body) after) =
      (splitFence ('{' :: body ++ after ++ fence)).map Prod.fst := by
  have htext : fenced before ('{' :: body) after =
      fence ++ ("json".toList ++ (before ++ ('{' :: body ++ after ++ fence))) := by
    simp [fenced]
  have hskip : skipLabel ("json".toList ++ (before ++
      ('{' :: body ++ after ++ fence))) = '{' :: body ++ after ++ fence := by
    have hdrop : dropLabel ("json".toList ++ (before ++
        ('{' :: body ++ after ++ fence))) = before ++ ('{' :: body ++ after ++ fence) := rfl
    unfold skipLabel
    rw [hdrop, dropWhile_append_of_pos hbefore]
    exact dropWhile_cons_of_neg (by decide)
  rw [fenceGroup_eq, htext, splitFence_fence, bind_some, hskip]

theorem blocks_strip_cut {body : Text} (hstays : Stays (outside 1) body)
    (htext : '{' :: body ++ ['}'] = front ++ fence ++ back) : blocks (strip front) = [] := by
  cases front with
  | nil =>
    have hhead := congrArg head? htext
    simp [fence] at hhead
  | cons ch front =>
    rw [cons_append, cons_append, cons_append] at htext
    obtain ⟨rfl, hrest⟩ := cons.inj htext
    have hlength := congrArg length hrest
    simp only [length_append, length_singleton] at hlength
    have hfence : fence.length = 3 := rfl
    have hfront : front <+: body ++ ['}'] := by
      rw [hrest, append_assoc]
      exact prefix_append _ _
    have hstart : front <+: body := prefix_of_prefix_length_le hfront (prefix_append _ _) (by omega)
    have hstrip : strip ('{' :: front) <+: '{' :: front := by exact rdropWhile_prefix _ _
    cases hcut : strip ('{' :: front) with
    | nil => rfl
    | cons first cut =>
      rw [hcut, cons_prefix_cons] at hstrip
      obtain ⟨rfl, hcutfront⟩ := hstrip
      obtain ⟨rest, rfl⟩ := hcutfront.trans hstart
      exact blocks_open hstays.of_append

theorem mem_extract_fenced_iff (hobject : WellFormed L.Reads (.object fields))
    (hdumps : dumps L (.object fields) = some text)
    (hbefore : ∀ letter ∈ before, isSpace letter = true)
    (hafter : ∀ letter ∈ after, isSpace letter = true) :
    fields ∈ extractJsonObjects L (fenced before text after) ↔ NoFence text := by
  have hread := loads_dumps hobject hdumps
  have hblock : Balanced text := by
    rw [dumps_spec hdumps]
    exact balanced_dumpsText hobject
  obtain ⟨body, hbody, hstays, -⟩ := id hblock
  have hgroup := @fenceGroup_fenced before after (body ++ ['}']) hbefore
  rw [← cons_append, ← hbody] at hgroup
  rw [extractJsonObjects_eq, strip_fenced, hgroup]
  constructor
  · intro hmem hfence
    cases hsplit : splitFence text with
    | none => exact splitFence_eq_none_iff.mp hsplit hfence
    | some split =>
      have hlong := @splitFence_append_right _ (after ++ fence) _ hsplit
      rw [← append_assoc] at hlong
      rw [hlong, map_some, map_some, getD_some] at hmem
      have hspec := splitFence_spec hsplit
      -- what is before the fence opens the object and does not close it
      have hnone : blocks (strip split.1) = [] := by
        rw [hbody] at hspec
        exact blocks_strip_cut hstays hspec
      rw [hnone] at hmem
      cases hmem
  · intro hfence
    have hopen : NoFence ('{' :: body) := by
      apply hfence.of_part
      rw [hbody]
      exact (prefix_append _ _).isInfix
    have hsplit : splitFence (text ++ after ++ fence) = some (text ++ after, []) := by
      have hbrace : '}' ≠ '`' := by decide
      have hlong := @splitFence_append _ (after ++ fence) _ hbrace hopen
      rw [splitFence_blanks hafter, map_some] at hlong
      rw [hbody]
      simpa using hlong
    have hstrip : strip (text ++ after) = text := by
      have haround := strip_around [] body after
      rw [← hbody, rdropWhile_eq_nil_iff.mpr hafter] at haround
      simpa using haround
    rw [hsplit, map_some, map_some, getD_some, hstrip]
    have hblocks := blocks_block hblock []
    rw [append_nil] at hblocks
    rw [hblocks, filterMap_cons_some (objectOf_eq_some_iff.mpr hread)]
    exact mem_cons_self

end

/-- An object is found behind every text which leaves no block open and no
other, unless its own text holds two fences; in a fence it is found unless its
text holds one; and what is returned is read from balanced blocks. -/
theorem extractJsonObjects_finds_iff (L : Floats F) :
    (∀ front, NoFence front →
      ((∀ fields text back, WellFormed L.Reads (.object fields) →
          dumps L (.object fields) = some text → ¬TwoFences text →
          NoFence back →
          fields ∈ extractJsonObjects L (front ++ text ++ back)) ↔
        Closed front)) ∧
    (∀ fields text, WellFormed L.Reads (.object fields) →
      dumps L (.object fields) = some text →
      ((∀ front back, NoFence front → NoFence back → Closed front →
          fields ∈ extractJsonObjects L (front ++ text ++ back)) ↔
        ¬TwoFences text) ∧
      ∀ before after, (∀ letter ∈ before, isSpace letter = true) →
        (∀ letter ∈ after, isSpace letter = true) →
        (fields ∈ extractJsonObjects L (fenced before text after) ↔ NoFence text)) ∧
    ∀ text, ∀ fields ∈ extractJsonObjects L text,
      ∃ block, block <:+: text ∧ Balanced block ∧ loads L block = some (.object fields) := by
  refine ⟨?_, ?_, fun text fields => block_of_mem_extract⟩
  · intro front hfront
    constructor
    · intro hfound
      by_contra hopen
      obtain ⟨n, hmissed⟩ := exists_missed (L := L) hopen hfront
      have hdumps : dumps L (.object (probe F n)) = some (dumpsText L (.object (probe F n))) := rfl
      exact hmissed (hfound (probe F n) _ [] (wellFormed_probe n) hdumps
        (not_twoFences_of_noFence (noFence_probe n)) noFence_nil)
    · intro hclosed fields text back hobject hdumps hfences hback
      exact mem_extract_of_closed hobject hdumps hfences hclosed hfront hback
  · intro fields text hobject hdumps
    refine ⟨⟨?_, ?_⟩, ?_⟩
    · intro hfound hfences
      have hmem := hfound [] [] noFence_nil noFence_nil .nil
      rw [dumps_spec hdumps] at hmem hfences
      exact missed_of_twoFences hobject hfences noFence_nil noFence_nil hmem
    · intro hfences front back hfront hback hclosed
      exact mem_extract_of_closed hobject hdumps hfences hclosed hfront hback
    · intro before after hbefore hafter
      exact mem_extract_fenced_iff hobject hdumps hbefore hafter

def zeroFloat : Floats Unit where
  text _ := "0.0".toList
  ofText _ := ()

set_option maxRecDepth 10000 in
/-- A brace left open in the prose hides the verdicts. -/
theorem open_brace_hides_verdicts :
    dumps zeroFloat (.object [("verdicts".toList, .array [])]) =
        some "\x7b\"verdicts\": []\x7d".toList ∧
      extractJsonObjects zeroFloat ("the set \x7ba, b: ".toList ++
        "\x7b\"verdicts\": []\x7d".toList ++ []) = [] :=
  ⟨rfl, rfl⟩

end Legba.JudgeReplies
