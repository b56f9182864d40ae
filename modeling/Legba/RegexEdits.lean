import Legba.RegexScan

/-!
# What a substitution changes

A fitting part for which the substitution writes the part itself counts as
unchanged, and is taken letter by letter.  What is left are the changes, and a
part of the text or of the result which no change touches stands in both.

A letter which no fitting part holds divides the scan.  Where no change adds
letters of a kind, a change which takes one away leaves a different text.
-/

namespace RegexScan

open List Token

def Token.changed (replace : List Text → Text) : Token → List Token
  | .plain letter => [.plain letter]
  | .found groups =>
    if replace groups = groups.flatten then groups.flatten.map .plain
    else [.found groups]

def Pattern.changes (pattern : Pattern) (replace : List Text → Text) (text : Text) : List Token :=
  (pattern.tokens 0 text).flatMap (changed replace)

def Pattern.Changed (pattern : Pattern) (replace : List Text → Text) (groups : List Text) : Prop :=
  Fits pattern.pieces groups ∧ replace groups ≠ groups.flatten

section

variable {pattern : Pattern} {replace : List Text → Text} {text part : Text}

theorem flatMap_changes {view : Token → Text} (hview : ∀ letter, view (.plain letter) = [letter])
    (hkept : ∀ groups, replace groups = groups.flatten → view (.found groups) = groups.flatten) :
    (pattern.changes replace text).flatMap view = (pattern.tokens 0 text).flatMap view := by
  rw [Pattern.changes, flatMap_assoc]
  refine flatMap_congr fun token _ => ?_
  cases token with
  | plain letter => exact append_nil _
  | found groups =>
    rw [changed]
    by_cases hgroups : replace groups = groups.flatten
    · rw [if_pos hgroups, flatMap_plain hview, hkept groups hgroups]
    · rw [if_neg hgroups]
      exact append_nil _

theorem changes_source : (pattern.changes replace text).flatMap source = text := by
  rw [flatMap_changes (fun _ => rfl) fun _ _ => rfl]
  exact (tokenized_tokens pattern text).source

theorem changes_rewrite :
    (pattern.changes replace text).flatMap (rewrite replace) = pattern.sub replace text :=
  flatMap_changes (fun _ => rfl) fun _ hgroups => hgroups

variable {groups : List Text}

theorem mem_tokens_of_mem_changes (hgroups : found groups ∈ pattern.changes replace text) :
    found groups ∈ pattern.tokens 0 text ∧ pattern.Changed replace groups := by
  obtain ⟨token, htoken, hmem⟩ := mem_flatMap.mp hgroups
  cases token with
  | plain letter =>
    rw [changed, mem_singleton] at hmem
    cases hmem
  | found others =>
    rw [changed] at hmem
    by_cases hothers : replace others = others.flatten
    · rw [if_pos hothers] at hmem
      obtain ⟨letter, -, hletter⟩ := mem_map.mp hmem
      cases hletter
    · rw [if_neg hothers, mem_singleton] at hmem
      cases hmem
      exact ⟨htoken, (tokenized_tokens pattern text).fits htoken, hothers⟩

theorem changed_of_mem_changes (hgroups : found groups ∈ pattern.changes replace text) :
    pattern.Changed replace groups := (mem_tokens_of_mem_changes hgroups).2

theorem kept_part {left right : Text} (htext : text = left ++ (part ++ right))
    (havoids : ∀ groups, .found groups ∈ pattern.changes replace text →
      Avoids part groups.flatten) :
    ∃ before after, pattern.changes replace text = before ++ (part.map plain ++ after) ∧
      before.flatMap source = left ∧
      after.flatMap source = right :=
  plain_part (fun _ => rfl) (changes_source.trans htext) havoids

theorem old_part {left right : Text} (hsub : pattern.sub replace text = left ++ (part ++ right))
    (havoids : ∀ groups, .found groups ∈ pattern.changes replace text → Avoids part (replace
      groups)) :
    ∃ before after, pattern.changes replace text = before ++ (part.map plain ++ after) ∧
      before.flatMap (rewrite replace) = left ∧
      after.flatMap (rewrite replace) = right :=
  plain_part (fun _ => rfl) (changes_rewrite.trans hsub) havoids

section

variable {before after : List Token}
  (hchanges : pattern.changes replace text = before ++ (part.map plain ++ after))

include hchanges

theorem sub_of_changes :
    pattern.sub replace text = before.flatMap (rewrite replace) ++
      (part ++ after.flatMap (rewrite replace)) := by
  rw [← changes_rewrite, hchanges, flatMap_append, flatMap_append, flatMap_plain fun _ => rfl]

theorem source_of_changes :
    text = before.flatMap source ++ (part ++ after.flatMap source) := by
  conv_lhs => rw [← @changes_source pattern replace text]
  rw [hchanges, flatMap_append, flatMap_append, flatMap_plain fun _ => rfl]

end

theorem infix_sub (hpart : part <:+: text)
    (havoids : ∀ groups, .found groups ∈ pattern.changes replace text →
      Avoids part groups.flatten) : part <:+: pattern.sub replace text := by
  obtain ⟨left, right, htext⟩ := hpart
  rw [append_assoc] at htext
  obtain ⟨before, after, hchanges, -, -⟩ := kept_part htext.symm havoids
  rw [sub_of_changes hchanges, ← append_assoc]
  exact ⟨_, _, rfl⟩

theorem infix_of_infix_sub (hpart : part <:+: pattern.sub replace text)
    (havoids : ∀ groups, .found groups ∈ pattern.changes replace text →
      Avoids part (replace groups)) : part <:+: text := by
  obtain ⟨left, right, hsub⟩ := hpart
  rw [append_assoc] at hsub
  obtain ⟨before, after, hchanges, -, -⟩ := old_part hsub.symm havoids
  rw [source_of_changes hchanges, ← append_assoc]
  exact ⟨_, _, rfl⟩

theorem sub_nil : pattern.sub replace [] = [] := rfl

theorem replace_infix_sub (replace : List Text → Text)
    (hgroups : found groups ∈ pattern.tokens 0 text) :
    replace groups <:+: pattern.sub replace text := by
  obtain ⟨before, after, htokens⟩ := append_of_mem hgroups
  rw [Pattern.sub, htokens, flatMap_append, flatMap_cons, ← append_assoc]
  exact ⟨_, _, rfl⟩

theorem mem_source_of_mem_rewrite {tokens : List Token} {letter : Char}
    (hletter : letter ∈ tokens.flatMap (rewrite replace))
    (hold : ∀ groups, .found groups ∈ tokens → letter ∈ replace groups →
      letter ∈ groups.flatten) : letter ∈ tokens.flatMap source := by
  obtain ⟨token, htoken, hmem⟩ := mem_flatMap.mp hletter
  refine mem_flatMap.mpr ⟨token, htoken, ?_⟩
  cases token with
  | plain other => exact hmem
  | found groups => exact hold groups htoken hmem

theorem sub_eq_self (hnone : ∀ groups, found groups ∈ pattern.tokens 0 text
      → replace groups = groups.flatten) : pattern.sub replace text = text := by
  conv_rhs => rw [← (tokenized_tokens pattern text).source]
  refine flatMap_congr fun token htoken => ?_
  cases token with
  | plain letter => rfl
  | found groups => exact hnone groups htoken

theorem infix_of_mem_tokens (hgroups : found groups ∈ pattern.tokens 0 text) :
    groups.flatten <:+: text := by
  obtain ⟨before, after, htokens⟩ := append_of_mem hgroups
  have hsource := (tokenized_tokens pattern text).source
  rw [htokens, flatMap_append, flatMap_cons, ← append_assoc] at hsource
  exact ⟨_, _, hsource⟩

theorem sub_eq_self_of_not_infix (hnone : ∀ groups,
    Fits pattern.pieces groups → ¬ groups.flatten <:+: text) :
    pattern.sub replace text = text := by
  refine sub_eq_self fun groups hgroups => ?_
  exact absurd (infix_of_mem_tokens hgroups)
    (hnone groups ((tokenized_tokens pattern text).fits hgroups))

theorem exists_found (hfits : Fits pattern.pieces groups) (hwithin : groups.flatten <:+: text) :
    ∃ others, found others ∈ pattern.tokens 0 text := by
  obtain ⟨left, right, htext⟩ := hwithin
  rw [append_assoc] at htext
  have htokens := tokenized_tokens pattern text
  rcases cut (fun _ => rfl) (htokens.source.trans htext.symm) with
    ⟨before, after, hsplit, -, hafter⟩ |
    ⟨before, others, after, first, second, hsplit, -⟩
  · cases after with
    | nil =>
      have hempty := append_eq_nil_iff.mp hafter.symm
      exact absurd hempty.1 (pattern.solid groups hfits)
    | cons token after =>
      cases token with
      | plain letter =>
        rw [hsplit] at htokens
        exact absurd hafter (htokens.not_fits hfits)
      | found others => exact ⟨others, hsplit ▸ mem_append_right before mem_cons_self⟩
  · exact ⟨others, hsplit ▸ mem_append_right before mem_cons_self⟩

end

section

variable {pattern : Pattern} {replace : List Text → Text} {text : Text}
  {p : Char → Bool}

theorem countP_rewrite_le {tokens : List Token}
    (hle : ∀ groups, .found groups ∈ tokens → (replace groups).countP p ≤ groups.flatten.countP p) :
    (tokens.flatMap (rewrite replace)).countP p ≤ (tokens.flatMap source).countP p := by
  induction tokens with
  | nil => exact le_refl _
  | cons token tokens ih =>
    have hrest := ih fun groups hgroups => hle groups (mem_cons_of_mem token hgroups)
    rw [flatMap_cons, flatMap_cons, countP_append, countP_append]
    cases token with
    | plain letter => exact Nat.add_le_add_left hrest _
    | found groups => exact Nat.add_le_add (hle groups mem_cons_self) hrest

section

variable
  (hle : ∀ groups, Fits pattern.pieces groups → (replace groups).countP p ≤ groups.flatten.countP p)

include hle

theorem countP_sub_le : (pattern.sub replace text).countP p ≤ text.countP p := by
  have htokens := tokenized_tokens pattern text
  have hcount := countP_rewrite_le fun groups hgroups => hle groups (htokens.fits hgroups)
  rwa [htokens.source] at hcount

theorem countP_sub_lt {groups : List Text} (hgroups : found groups ∈ pattern.tokens 0 text)
    (hlt : (replace groups).countP p < groups.flatten.countP p) :
    (pattern.sub replace text).countP p < text.countP p := by
  have htokens := tokenized_tokens pattern text
  obtain ⟨before, after, hsplit⟩ := append_of_mem hgroups
  have hpart : ∀ others, found others ∈ pattern.tokens 0 text →
      (replace others).countP p ≤ others.flatten.countP p :=
    fun others hothers => hle others (htokens.fits hothers)
  have hsource := htokens.source
  rw [hsplit] at hpart hsource
  have hbefore := countP_rewrite_le fun others hothers => hpart others (mem_append_left _ hothers)
  have hafter := countP_rewrite_le fun others hothers =>
    hpart others (mem_append_right _ (mem_cons_of_mem _ hothers))
  rw [Pattern.sub, hsplit]
  conv_rhs => rw [← hsource]
  simp only [flatMap_append, flatMap_cons, countP_append]
  have hhere : (rewrite replace (.found groups)).countP p <
      (source (.found groups)).countP p := hlt
  omega

end

end

/-! ## Dividing the scan -/

section

variable {letter : Char}

theorem filter_range_add {n m : ℕ} {q : ℕ → Bool} (hq : ∀ index, n ≤ index → q index = false) :
    (List.range (n + m)).filter q = (List.range n).filter q := by
  rw [range_add, filter_append]
  have hempty : ((range m).map (n + ·)).filter q = [] := by
    rw [filter_eq_nil_iff]
    intro index hindex
    obtain ⟨offset, -, rfl⟩ := mem_map.mp hindex
    rw [hq _ (Nat.le_add_right n offset)]
    exact Bool.false_ne_true
  rw [hempty, append_nil]

theorem fits_append_cons {pieces : List Piece}
    (hpieces : ∀ piece ∈ pieces, ∀ taken, piece taken = true → letter ∉ taken) (left right : Text) :
    fits pieces (left ++ letter :: right) = fits pieces left := by
  induction pieces generalizing left with
  | nil => rfl
  | cons piece pieces ih =>
    rw [forall_mem_cons] at hpieces
    have hlength : (left ++ letter :: right).length + 1 =
        (left.length + 1) + (right.length + 1) := by
      rw [length_append, length_cons]
      omega
    have hlong : ∀ taken, left.length + 1 ≤ taken →
        piece ((left ++ letter :: right).take taken) = false := by
      intro taken htaken
      refine Bool.eq_false_iff.mpr fun hpiece => hpieces.1 _ hpiece ?_
      obtain ⟨rest, rfl⟩ := Nat.exists_eq_add_of_le htaken
      rw [Nat.add_assoc, take_length_add_append, Nat.add_comm 1 rest, take_succ_cons]
      exact mem_append_right left mem_cons_self
    rw [fits, fits, hlength, filter_reverse, filter_reverse, filter_range_add hlong]
    have hshort : ∀ taken ∈ range (left.length + 1),
        (left ++ letter :: right).take taken = left.take taken ∧
          (left ++ letter :: right).drop taken = left.drop taken ++ letter :: right := by
      intro taken htaken
      have hle := Nat.lt_succ_iff.mp (mem_range.mp htaken)
      exact ⟨take_append_of_le_length hle, drop_append_of_le_length hle⟩
    have hfilter : (range (left.length + 1)).filter (fun taken =>
          piece ((left ++ letter :: right).take taken)) =
        (range (left.length + 1)).filter fun taken =>
          piece (left.take taken) :=
      filter_congr fun taken htaken => by rw [(hshort taken htaken).1]
    rw [hfilter]
    refine flatMap_congr fun taken htaken => ?_
    have hmem := mem_of_mem_filter (mem_reverse.mp htaken)
    rw [(hshort taken hmem).1, (hshort taken hmem).2, ih hpieces.2]

variable {pattern : Pattern} {replace : List Text → Text}

section

variable (hpieces : ∀ piece ∈ pattern.pieces, ∀ taken, piece taken = true → letter ∉ taken)

include hpieces

theorem tokens_append_cons (left right : Text) :
    pattern.tokens 0 (left ++ letter :: right) =
      pattern.tokens 0 left ++ .plain letter :: pattern.tokens 0 right := by
  have hmatchAt : ∀ front, pattern.matchAt (front ++ letter :: right) = pattern.matchAt front := by
    intro front
    rw [Pattern.matchAt, fits_append_cons hpieces, Pattern.matchAt]
  induction hlength : left.length using Nat.strong_induction_on generalizing left with
  | _ length ih =>
    cases left with
    | nil =>
      have hnone : pattern.matchAt (letter :: right) = none := by
        have hempty := hmatchAt []
        rw [nil_append] at hempty
        rw [hempty]
        cases hmatch : pattern.matchAt [] with
        | none => rfl
        | some groups =>
          obtain ⟨hfits, rest, hrest⟩ := fits_of_matchAt hmatch
          exact absurd (append_eq_nil_iff.mp hrest.symm).1 (pattern.solid groups hfits)
      simp only [nil_append, Pattern.tokens, hnone]
    | cons first left =>
      have hmatch := hmatchAt (first :: left)
      rw [cons_append] at hmatch ⊢
      cases hfound : pattern.matchAt (first :: left) with
      | none =>
        simp only [Pattern.tokens, hmatch, hfound]
        rw [ih left.length (by simp [← hlength]) left rfl]
        rfl
      | some groups =>
        obtain ⟨hfits, rest, hrest⟩ := fits_of_matchAt hfound
        have hsum := congrArg List.length hrest
        rw [length_append, length_cons] at hsum
        have hshort : groups.flatten.length - 1 ≤ left.length := by omega
        simp only [Pattern.tokens, hmatch, hfound]
        rw [tokens_skip, drop_append_of_le_length hshort,
          ih (left.drop (groups.flatten.length - 1)).length
            (by rw [length_drop, ← hlength, length_cons]
                omega) _ rfl, ← tokens_skip]
        rfl

theorem sub_append_cons (left right : Text) :
    pattern.sub replace (left ++ letter :: right) =
      pattern.sub replace left ++ letter :: pattern.sub replace right := by
  rw [Pattern.sub, tokens_append_cons hpieces, flatMap_append, flatMap_cons]
  rfl

end

theorem notMem_sub (hwritten : ∀ groups, letter ∉ replace groups) {text : Text}
    (hletter : letter ∉ text) : letter ∉ pattern.sub replace text := by
  intro hmem
  have hsource := mem_source_of_mem_rewrite hmem
    fun groups _ hgroups => absurd hgroups (hwritten groups)
  rw [(tokenized_tokens pattern text).source] at hsource
  exact hletter hsource

theorem exists_parts_of_sub
    (hpieces : ∀ piece ∈ pattern.pieces, ∀ taken, piece taken = true → letter ∉ taken)
    (hwritten : ∀ groups, letter ∉ replace groups) {text left right : Text}
    (hsub : pattern.sub replace text = left ++ letter :: right) :
    ∃ left' right', text = left' ++ letter :: right' ∧
      pattern.sub replace left' = left ∧
      pattern.sub replace right' = right := by
  induction hlength : text.length using Nat.strong_induction_on generalizing text left with
  | _ length ih =>
    by_cases hmem : letter ∈ text
    · obtain ⟨front, behind, rfl, hfront⟩ := eq_append_cons_of_mem hmem
      rw [sub_append_cons hpieces] at hsub
      have hnotMem : letter ∉ pattern.sub replace front := notMem_sub hwritten hfront
      rcases append_eq_append_iff.mp hsub with ⟨rest, hleft, hrest⟩ | ⟨rest, hleft, hrest⟩
      · cases rest with
        | nil =>
          rw [append_nil] at hleft
          exact ⟨front, behind, rfl, hleft.symm, (cons_eq_cons.mp hrest).2⟩
        | cons other rest =>
          obtain ⟨rfl, htail⟩ := List.cons_eq_cons.mp hrest
          obtain ⟨left', right', rfl, hleft', hright'⟩ :=
            ih behind.length (by rw [← hlength, List.length_append,
              List.length_cons]; omega) htail rfl
          refine ⟨front ++ letter :: left', right', ?_, ?_, hright'⟩
          · rw [append_assoc]
            rfl
          · rw [sub_append_cons hpieces, hleft', hleft]
      · cases rest with
        | nil =>
          rw [append_nil] at hleft
          exact ⟨front, behind, rfl, hleft, (cons_eq_cons.mp hrest.symm).2⟩
        | cons other rest =>
          obtain ⟨rfl, -⟩ := cons_eq_cons.mp hrest
          refine absurd ?_ hnotMem
          rw [hleft]
          exact mem_append_right left mem_cons_self
    · have hnotMem : letter ∉ pattern.sub replace text := notMem_sub hwritten hmem
      rw [hsub] at hnotMem
      refine absurd ?_ hnotMem
      exact mem_append_right left mem_cons_self

end

end RegexScan
