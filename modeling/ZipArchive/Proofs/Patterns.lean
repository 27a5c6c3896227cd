import Mathlib.Data.List.Forall2
import Mathlib.Data.List.Infix
import ZipArchive.Command.Selection

/-!
# What patterns match

A pattern matches a text that can be cut into pieces, one for each character of the pattern, such
that each character stands for its piece (`Text.Matches`). The rows that `globMatches` works with
hold the answers of a search that tries one cut after the other (`Text.suffixMatches_eq`), and this
search finds a cut whenever there is one (`Text.search_iff`).
-/
namespace ZipArchive

namespace Text

variable {pattern rest text : List Char} {c x : Char}

/-! ## Cuts -/

/-- The pieces of a text that a character of a pattern stands for. -/
inductive StandsFor : Char → List Char → Prop where
  | star (piece : List Char) : StandsFor '*' piece
  | question (x : Char) : StandsFor '?' [x]
  | plain {c : Char} (star : c ≠ '*') (question : c ≠ '?') : StandsFor c [c]

/-- The text can be cut into pieces that the characters of the pattern stand for. -/
def Matches (pattern text : List Char) : Prop :=
  ∃ pieces, List.Forall₂ StandsFor pattern pieces ∧ pieces.flatten = text

theorem matches_nil : Matches [] text ↔ text = [] := by
  constructor
  · rintro ⟨pieces, cut, rfl⟩
    cases cut
    rfl
  · rintro rfl
    exact ⟨[], .nil, rfl⟩

theorem matches_cons : Matches (c :: rest) text ↔
    ∃ piece behind, StandsFor c piece ∧ Matches rest behind ∧ text = piece ++ behind := by
  constructor
  · rintro ⟨pieces, cut, rfl⟩
    cases cut with
    | @cons _ piece _ pieces first cut =>
      exact ⟨piece, pieces.flatten, first, ⟨pieces, cut, rfl⟩, List.flatten_cons⟩
  · rintro ⟨piece, _, first, ⟨pieces, cut, rfl⟩, rfl⟩
    exact ⟨piece :: pieces, .cons first cut, List.flatten_cons⟩

theorem matches_append {first : List Char} : Matches (first ++ rest) text ↔
    ∃ front behind, Matches first front ∧ Matches rest behind ∧ text = front ++ behind := by
  induction first generalizing text with
  | nil =>
    constructor
    · exact fun whole => ⟨[], text, matches_nil.mpr rfl, whole, rfl⟩
    · rintro ⟨front, behind, none, others, rfl⟩
      rwa [matches_nil.mp none]
  | cons c first ih =>
    rw [List.cons_append, matches_cons]
    constructor
    · rintro ⟨piece, _, head, tail, rfl⟩
      obtain ⟨front, behind, some, others, rfl⟩ := ih.mp tail
      exact ⟨piece ++ front, behind, matches_cons.mpr ⟨piece, front, head, some, rfl⟩, others,
        (List.append_assoc ..).symm⟩
    · rintro ⟨_, behind, some, others, rfl⟩
      obtain ⟨piece, front, head, tail, rfl⟩ := matches_cons.mp some
      exact ⟨piece, front ++ behind, head, ih.mpr ⟨front, behind, tail, others, rfl⟩,
        List.append_assoc ..⟩

/-! ### What a character matches at the front of a text -/

theorem matches_star :
    Matches ('*' :: rest) text ↔ ∃ behind, behind <:+ text ∧ Matches rest behind := by
  rw [matches_cons]
  constructor
  · rintro ⟨piece, behind, -, others, rfl⟩
    exact ⟨behind, List.suffix_append _ _, others⟩
  · rintro ⟨behind, ⟨piece, rfl⟩, others⟩
    exact ⟨piece, behind, .star piece, others, rfl⟩

theorem matches_star_nil : Matches ('*' :: rest) [] ↔ Matches rest [] := by
  simp only [matches_star, List.suffix_nil, exists_eq_left]

/-- A star stands for nothing, or for one character and more. -/
theorem matches_star_cons : Matches ('*' :: rest) (x :: text) ↔
    Matches rest (x :: text) ∨ Matches ('*' :: rest) text := by
  simp only [matches_star, List.suffix_cons_iff]
  constructor
  · rintro ⟨behind, rfl | suffix, others⟩
    · exact .inl others
    · exact .inr ⟨behind, suffix, others⟩
  · rintro (others | ⟨behind, suffix, others⟩)
    · exact ⟨_, .inl rfl, others⟩
    · exact ⟨behind, .inr suffix, others⟩

/-- Any other character stands for one character. -/
theorem standsFor_of_ne (star : c ≠ '*') {piece : List Char} :
    StandsFor c piece ↔ ∃ x, piece = [x] ∧ (c = '?' ∨ x = c) := by
  constructor
  · rintro (_ | x | _)
    · exact absurd rfl star
    · exact ⟨x, rfl, .inl rfl⟩
    · exact ⟨c, rfl, .inr rfl⟩
  · rintro ⟨x, rfl, rfl | rfl⟩
    · exact .question x
    · by_cases question : x = '?'
      · exact question ▸ .question '?'
      · exact .plain star question

theorem not_matches_nil (star : c ≠ '*') : ¬ Matches (c :: rest) [] := by
  rw [matches_cons]
  rintro ⟨piece, behind, first, -, none⟩
  obtain ⟨x, rfl, -⟩ := (standsFor_of_ne star).mp first
  cases none

theorem matches_cons_cons (star : c ≠ '*') :
    Matches (c :: rest) (x :: text) ↔ (c = '?' ∨ x = c) ∧ Matches rest text := by
  rw [matches_cons]
  constructor
  · rintro ⟨piece, behind, first, others, cut⟩
    obtain ⟨y, rfl, fits⟩ := (standsFor_of_ne star).mp first
    cases cut
    exact ⟨fits, others⟩
  · rintro ⟨fits, others⟩
    exact ⟨[x], text, (standsFor_of_ne star).mpr ⟨x, rfl, fits⟩, others, rfl⟩

/-! ## The search for a cut -/

/-- Tries one cut after the other. A star is first taken for nothing, and if the rest of the pattern
does not match then, for one character more. -/
def search : (pattern text : List Char) → Bool
  | [], text => text.isEmpty
  | c :: rest, [] => c = '*' && search rest []
  | c :: rest, x :: text =>
    if c = '*' then search rest (x :: text) || search (c :: rest) text
    else (c = '?' || x = c) && search rest text
termination_by pattern text => pattern.length + text.length

/-- The search finds a cut if there is one. -/
theorem search_iff : search pattern text = true ↔ Matches pattern text := by
  fun_induction search pattern text with
  | case1 text => rw [matches_nil, List.isEmpty_iff]
  | case2 c rest ih =>
    by_cases star : c = '*'
    · subst star
      simp only [decide_true, Bool.true_and, ih, matches_star_nil]
    · simp only [star, decide_false, Bool.false_and, Bool.false_eq_true, not_matches_nil star]
  | case3 rest x text ih ih' =>
    rw [Bool.or_eq_true, ih, ih', matches_star_cons]
  | case4 c rest x text star ih =>
    rw [Bool.and_eq_true, ih, matches_cons_cons star, Bool.or_eq_true, decide_eq_true_iff,
      decide_eq_true_iff]

/-- The row of a star is made from behind: it matches at a place if the rest does there or further
on. -/
theorem starRow_eq (rest text : List Char) :
    (text.tails.map (search rest)).foldr
      (fun here (later, out) => (here || later, (here || later) :: out)) (false, ([] : List Bool)) =
    (search ('*' :: rest) text, text.tails.map (search ('*' :: rest))) := by
  induction text with
  | nil => simp [search]
  | cons x text ih =>
    have here : search ('*' :: rest) (x :: text) =
        (search rest (x :: text) || search ('*' :: rest) text) := by rw [search, if_pos rfl]
    rw [List.tails_cons, List.map_cons, List.foldr_cons, ih, List.map_cons, here]

/-- The row of any other character is that of the rest, one place further on. -/
theorem shiftedRow_eq (star : c ≠ '*') (rest text : List Char) :
    text.tails.map (search (c :: rest)) =
      List.zipWith (fun x matched => (c = '?' || x = c) && matched) text
        (text.tails.map (search rest)).tail ++ [false] := by
  induction text with
  | nil => simp [search, star]
  | cons x text ih =>
    have row : ∀ pattern, text.tails.map (search pattern) =
        search pattern text :: (text.tails.map (search pattern)).tail := by
      intro pattern
      cases text <;> rfl
    rw [List.tails_cons, List.map_cons, ih, List.map_cons, List.tail_cons, row rest, List.tail_cons,
      List.zipWith_cons_cons, search, if_neg star]
    rfl

/-- A row holds the answers of the search for each suffix of the text. -/
theorem suffixMatches_eq (pattern text : List Char) :
    suffixMatches pattern text = text.tails.map (search pattern) := by
  induction pattern with
  | nil =>
    induction text with
    | nil => simp [suffixMatches, search]
    | cons x text ih =>
      rw [suffixMatches] at ih ⊢
      rw [List.map_cons, List.cons_append, ih, List.tails_cons, List.map_cons]
      simp [search]
  | cons c rest ih =>
    rw [suffixMatches, ih]
    dsimp only
    by_cases star : c = '*'
    · subst star
      rw [if_pos rfl, starRow_eq]
    rw [if_neg star, shiftedRow_eq star]
    by_cases question : c = '?'
    · subst question
      have every : (text.tails.map (search rest)).tail.length ≤ text.length := by simp
      have row := List.map_snd_zip every
      rw [List.zip, List.map_zipWith] at row
      simpa using row.symm
    · simp [question]

theorem globMatches_eq_search (pattern text : String) :
    globMatches pattern text = search pattern.toList text.toList := by
  rw [globMatches, suffixMatches_eq]
  cases text.toList <;> rfl

theorem globMatches_iff {pattern text : String} :
    globMatches pattern text = true ↔ Matches pattern.toList text.toList := by
  rw [globMatches_eq_search, search_iff]

/-! ## Patterns in particular -/

/-- A pattern without wildcards matches itself and nothing else. -/
theorem matches_plain (plain : ∀ c ∈ pattern, c ≠ '*' ∧ c ≠ '?') :
    Matches pattern text ↔ pattern = text := by
  induction pattern generalizing text with
  | nil => rw [matches_nil, eq_comm]
  | cons c rest ih =>
    obtain ⟨⟨star, question⟩, others⟩ := List.forall_mem_cons.mp plain
    cases text with
    | nil => simp only [not_matches_nil star, reduceCtorEq]
    | cons x text =>
      rw [matches_cons_cons star, ih others, List.cons.injEq, or_iff_right question, eq_comm]

/-- Two stars side by side are as good as one. -/
theorem matches_stars {first : List Char} : Matches (first ++ '*' :: '*' :: rest) text ↔
    Matches (first ++ '*' :: rest) text := by
  have last : ∀ behind, Matches ('*' :: '*' :: rest) behind ↔ Matches ('*' :: rest) behind := by
    intro behind
    rw [matches_star, matches_star]
    constructor
    · rintro ⟨_, suffix, others⟩
      obtain ⟨behind', further, others⟩ := matches_star.mp others
      exact ⟨behind', further.trans suffix, others⟩
    · rintro ⟨behind', suffix, others⟩
      exact ⟨behind', suffix, matches_star.mpr ⟨behind', List.suffix_refl _, others⟩⟩
  simp only [matches_append, last]

/-- Characters of a text that the pattern does not tell apart may be exchanged. -/
theorem search_map {change : Char → Char} (same : ∀ c ∈ pattern, c ≠ '*' → c ≠ '?' →
    ∀ x ∈ text, change x = c ↔ x = c) : search pattern (text.map change) = search pattern text := by
  fun_induction search pattern text with
  | case1 text => rw [search, List.isEmpty_map]
  | case2 c rest ih => rw [List.map_nil, search]
  | case3 rest x text ih ih' =>
    have here := ih fun c among => same c (List.mem_cons_of_mem _ among)
    have further := ih' fun c among star question x among' =>
      same c among star question x (List.mem_cons_of_mem _ among')
    rw [List.map_cons] at here ⊢
    rw [search, if_pos rfl, here, further]
  | case4 c rest x text star ih =>
    have others := ih fun c among star question x among' =>
      same c (List.mem_cons_of_mem _ among) star question x (List.mem_cons_of_mem _ among')
    have first : (c = '?' ∨ change x = c) ↔ (c = '?' ∨ x = c) := by
      by_cases question : c = '?'
      · simp only [question, true_or]
      · rw [same c List.mem_cons_self star question x List.mem_cons_self]
    rw [List.map_cons, search, if_neg star, others]
    simp only [← Bool.decide_or, first]

theorem hasWildcard_eq_false {pattern : String} :
    hasWildcard pattern = false ↔ ∀ c ∈ pattern.toList, c ≠ '*' ∧ c ≠ '?' := by
  simp [hasWildcard]

/-- A piece occurs in a text where the text goes on with it. -/
theorem occursIn_iff {piece : List Char} : occursIn piece text = true ↔ piece <:+: text := by
  induction text with
  | nil => rw [occursIn, List.isEmpty_iff, List.infix_nil]
  | cons x text ih =>
    rw [occursIn, Bool.or_eq_true, List.isPrefixOf_iff_prefix, ih, List.infix_cons_iff]

end Text

/-! ## Selecting by patterns -/

namespace Command

open Text

/-- A pattern matches a text just when the text can be cut into pieces that its characters stand
for, and trying one cut after the other finds out. A pattern without wildcards matches itself, so
asking for a name is matching it as a pattern or as the last part, and excluding one is looking for
it as a piece. Stars side by side are as good as one, and whatever is in the text and not in the
pattern, wildcards among it, may as well be any other character. -/
theorem globMatches_cuts (pattern text : String) :
    (globMatches pattern text = true ↔ ∃ pieces,
      List.Forall₂ StandsFor pattern.toList pieces ∧ pieces.flatten = text.toList) ∧
    globMatches pattern text = search pattern.toList text.toList ∧
    (hasWildcard pattern = false →
      (globMatches pattern text = true ↔ pattern = text) ∧
      (isAskedFor pattern text = true ↔
        globMatches pattern text = true ∨ (lastPart text).getD "" = pattern) ∧
      (isExcluded pattern text = true ↔ pattern.toList <:+: text.toList)) ∧
    (∀ first rest, pattern.toList = first ++ '*' :: '*' :: rest →
      globMatches (String.ofList (first ++ '*' :: rest)) text = globMatches pattern text) ∧
    ∀ change : Char → Char,
      (∀ c ∈ pattern.toList, c ≠ '*' → c ≠ '?' → ∀ x ∈ text.toList, change x = c ↔ x = c) →
        globMatches pattern (String.ofList (text.toList.map change)) =
          globMatches pattern text := by
  refine ⟨globMatches_iff, globMatches_eq_search pattern text, fun plain => ?_, ?_, ?_⟩
  · have itself : globMatches pattern text = true ↔ pattern = text := by
      rw [globMatches_iff, matches_plain (hasWildcard_eq_false.mp plain), String.toList_inj]
    refine ⟨itself, ?_, ?_⟩
    · rw [itself, isAskedFor, plain, if_neg Bool.false_ne_true, Bool.or_eq_true,
        decide_eq_true_iff, decide_eq_true_iff, eq_comm]
    · rw [isExcluded, Bool.or_eq_true, occursIn_iff, itself]
      refine ⟨?_, .inl⟩
      rintro (inside | rfl)
      · exact inside
      · exact List.infix_refl _
  · intro first rest stars
    rw [Bool.eq_iff_iff, globMatches_iff, globMatches_iff, stars, matches_stars,
      String.toList_ofList]
  · intro change same
    rw [globMatches_eq_search, globMatches_eq_search, String.toList_ofList, search_map same]

/-- A text of wildcards is matched like any other, and found as a piece like any other. -/
theorem wildcardText_cuts :
    globMatches "*?**b" "?*b" = true ∧
      globMatches (String.ofList (['*', '?'] ++ '*' :: ['b'])) "?*b" = globMatches "*?**b" "?*b" ∧
      globMatches "*?**b" "xxb" = globMatches "*?**b" "?*b" ∧
      hasWildcard "b" = false ∧ isAskedFor "b" "?*/b" = true ∧ isExcluded "b" "?*b" = true := by
  obtain ⟨cut, -, -, stars, changed⟩ := globMatches_cuts "*?**b" "?*b"
  obtain ⟨-, -, plain, -⟩ := globMatches_cuts "b" "?*/b"
  obtain ⟨-, -, plain', -⟩ := globMatches_cuts "b" "?*b"
  refine ⟨cut.mpr ⟨[['?'], ['*'], [], [], ['b']], ?_, by decide⟩,
    stars ['*', '?'] ['b'] (by decide),
    changed (fun c => if c = 'b' then 'b' else 'x') ?_, by decide, ?_, ?_⟩
  · exact .cons (.star _) (.cons (.question _) (.cons (.star _) (.cons (.star _)
      (.cons (.plain (by decide) (by decide)) .nil))))
  · simp +contextual
  · exact (plain (by decide)).2.1.mpr (.inr (by decide))
  · exact (plain' (by decide)).2.2.mpr ⟨['?', '*'], [], by decide⟩

end Command
end ZipArchive
