import Mathlib.Data.List.Basic

/-!
# Dot-separated subjects with wildcards

A subject of a message bus is a list of tokens separated by dots.  A filter is
a subject in which a token `*` stands for any one token and a final token `>`
for one or more tokens.

A consumer restricts its filter token by token, so the results below read a
match off the head of the filter.
-/

namespace SubjectTokens

open String

def tokens (subject : String) : List String :=
  (subject.toList.splitOn '.').map ofList

def matchTokens : List String → List String → Bool
  | [], [] => true
  | [], _ :: _ => false
  | _ :: _, [] => false
  | pattern :: patterns, token :: rest =>
    (pattern = ">" && patterns.isEmpty) ||
      ((pattern = "*" || pattern = token) && matchTokens patterns rest)

/-- The bus delivers a message on `subject` to a consumer with this filter. -/
def subjectMatches (filter subject : String) : Bool :=
  matchTokens (tokens filter) (tokens subject)

structure IsLiteral (token : String) : Prop where
  noDot : '.' ∉ token.toList
  ne_star : token ≠ "*"
  ne_full : token ≠ ">"

theorem tokens_of_noDot {token : String} (hdot : '.' ∉ token.toList) : tokens token = [token] := by
  unfold tokens
  rw [List.splitOn_eq_singleton hdot, List.map_singleton, ofList_toList]

theorem tokens_cons {token : String} (hdot : '.' ∉ token.toList) (rest : String) :
    tokens (token ++ ("." ++ rest)) = token :: tokens rest := by
  have hlist : (token ++ ("." ++ rest)).toList = token.toList ++ '.' :: rest.toList := by
    rw [toList_append, toList_append]
    rfl
  unfold tokens
  rw [hlist, List.splitOn_append_cons_self_of_not_mem hdot, List.map_cons, ofList_toList]

variable {patterns subject : List String}

theorem matchTokens_star_cons :
    matchTokens ("*" :: patterns) subject = true ↔
      ∃ token rest, subject = token :: rest ∧ matchTokens patterns rest = true := by
  cases subject with
  | nil => simp [matchTokens]
  | cons token rest => simp [matchTokens]

theorem matchTokens_literal_cons {pattern : String} (hliteral : IsLiteral pattern) :
    matchTokens (pattern :: patterns) subject = true ↔
      ∃ rest, subject = pattern :: rest ∧ matchTokens patterns rest = true := by
  cases subject with
  | nil => simp [matchTokens]
  | cons token rest =>
    simp only [matchTokens, hliteral.ne_star, hliteral.ne_full, decide_false, Bool.false_and,
      Bool.false_or, Bool.and_eq_true, decide_eq_true_eq, List.cons.injEq]
    constructor
    · rintro ⟨rfl, hrest⟩
      exact ⟨rest, ⟨rfl, rfl⟩, hrest⟩
    · rintro ⟨_, ⟨htoken, rfl⟩, hrest⟩
      exact ⟨htoken.symm, hrest⟩

theorem matchTokens_nil : matchTokens [] subject = true ↔ subject = [] := by
  cases subject with
  | nil => simp [matchTokens]
  | cons token rest => simp [matchTokens]

theorem matchTokens_full : matchTokens [">"] subject = true ↔ subject ≠ [] := by
  cases subject with
  | nil => simp [matchTokens]
  | cons token rest => simp [matchTokens]

end SubjectTokens
