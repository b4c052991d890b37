import TagCalls.Proofs.Lowering.Problem

/-!
The names that the errors of a script quote. Each of them is the name of a tag, and a closing tag that is
blamed is written in the script. No offset matters here, so this holds of scripts of any size. Main
statement: `quotes_of_nested`.
-/
namespace TagCalls.Tag

open Text (IsName)

namespace Scanner

theorem ahead_suffix (scanner : Scanner) : scanner.source.dropBytes scanner.position <:+ scanner.source := by
  obtain ⟨before, split, _⟩ := Text.dropBytes_first_cut scanner.position scanner.source
  exact ⟨before, split.symm⟩

theorem find_of_token {scanner : Scanner} {gap : Text} {token : Token} {position : Nat}
    (step : scanner.next = .token gap token position) :
    ∃ rest, find (scanner.source.dropBytes scanner.position) = .tagged gap token.tag rest := by
  unfold next at step
  split at step
  · cases step
  · cases found : find (scanner.source.dropBytes scanner.position) with
    | tagged front tag rest =>
      simp only [found] at step
      cases step
      exact ⟨rest, rfl⟩
    | stuck front name => simp [found] at step
    | none => simp [found] at step

theorem find_of_failure {scanner : Scanner} {gap : Text} {failure : Unterminated}
    (step : scanner.next = .failure gap failure) :
    find (scanner.source.dropBytes scanner.position) = .stuck gap failure.name := by
  unfold next at step
  split at step
  · cases step
  · cases found : find (scanner.source.dropBytes scanner.position) with
    | tagged front tag rest => simp [found] at step
    | stuck front name =>
      simp only [found] at step
      cases step
      rfl
    | none => simp [found] at step

theorem tag_of_next {scanner : Scanner} {gap : Text} {token : Token} {position : Nat}
    (step : scanner.next = .token gap token position) :
    token.tag.WellFormed ∧ token.tag.render <:+: scanner.source := by
  obtain ⟨rest, found⟩ := find_of_token step
  have finds := finds_find (scanner.source.dropBytes scanner.position)
  rw [found] at finds
  have behind := ahead_suffix scanner
  generalize scanner.source.dropBytes scanner.position = ahead at finds behind
  cases finds with
  | tagged _ stands =>
    obtain ⟨rfl, formed⟩ := render_of_stands stands
    refine ⟨formed, List.IsInfix.trans ?_ behind.isInfix⟩
    exact ⟨gap, rest, by rw [List.append_assoc]⟩

theorem name_of_next {scanner : Scanner} {gap : Text} {failure : Unterminated}
    (step : scanner.next = .failure gap failure) : IsName failure.name := by
  have finds := finds_find (scanner.source.dropBytes scanner.position)
  rw [find_of_failure step] at finds
  generalize scanner.source.dropBytes scanner.position = ahead at finds
  cases finds with
  | stuck _ stands =>
    cases stands with
    | stuck named _ _ => exact named

theorem tags_run (scanner : Scanner) :
    (∀ token ∈ scanner.run.tokens, token.tag.WellFormed ∧ token.tag.render <:+: scanner.source) ∧
      ∀ failure, scanner.run.ending = .error failure → IsName failure.name := by
  fun_induction run scanner with
  | case1 scanner gap token position step _ ih =>
    refine ⟨?_, ih.2⟩
    intro other member
    rcases List.mem_cons.mp member with rfl | later
    · exact tag_of_next step
    · exact ih.1 other later
  | case2 scanner gap token position step _ =>
    refine ⟨?_, fun _ ended => by cases ended⟩
    intro other member
    obtain rfl := List.mem_singleton.mp member
    exact tag_of_next step
  | case3 scanner gap failure step =>
    refine ⟨fun _ member => absurd member List.not_mem_nil, ?_⟩
    intro other ended
    cases ended
    exact name_of_next step
  | case4 scanner tail step =>
    exact ⟨fun _ member => absurd member List.not_mem_nil, fun _ ended => by cases ended⟩

end Scanner
end TagCalls.Tag

namespace TagCalls.Lowering

open Tag (Token)
open Text (IsName)

inductive Quotes (source : Text) : TranspileError → Prop
  | unclosed {name : Text} {span : Span} : IsName name → Quotes source (.unclosed name span)
  | mismatched {expected found : Text} {span : Span} : IsName expected → IsName found →
      '<' :: '/' :: found <:+: source → Quotes source (.mismatched expected found span)
  | unexpected {name : Text} {span : Span} : IsName name → '<' :: '/' :: name <:+: source →
      Quotes source (.unexpected name span)
  | unterminated {name : Text} {span : Span} : IsName name → Quotes source (.unterminated name span)

theorem closing_written {source : Text} {tag : Tag} (closes : tag.kind = .closing)
    (written : tag.render <:+: source) : '<' :: '/' :: tag.name <:+: source := by
  obtain ⟨kind, name, raw⟩ := tag
  cases closes
  refine List.IsInfix.trans ?_ written
  exact ⟨[], ['>'], by simp [Tag.render]⟩

theorem mem_of_lastUnmatched {tokens : List Token} {opener : Token} (last : LastUnmatched tokens opener) :
    opener ∈ tokens := by
  obtain ⟨before, after, rfl, _⟩ := last
  exact List.mem_append_right before List.mem_cons_self

theorem quotes_of_nested {target source : Text} {error : TranspileError}
    (failed : nested target source = .error error) : Quotes source error := by
  obtain ⟨tags, ending⟩ := Tag.Scanner.tags_run { source }
  cases firstProblem_of_nested target source error failed with
  | @unexpected before after closer split closes _ _ _ =>
    have member : closer ∈ (Tag.scan source).tokens := by simp [split]
    obtain ⟨formed, written⟩ := tags closer member
    exact .unexpected formed.named (closing_written closes written)
  | @mismatched before after opener closer split closes _ _ last =>
    have member : closer ∈ (Tag.scan source).tokens := by simp [split]
    have earlier : opener ∈ (Tag.scan source).tokens := by simp [split, mem_of_lastUnmatched last]
    obtain ⟨formed, written⟩ := tags closer member
    exact .mismatched (tags opener earlier).1.named formed.named (closing_written closes written)
  | unterminated ended _ => exact .unterminated (ending _ ended)
  | unclosed _ _ _ last => exact .unclosed (tags _ (mem_of_lastUnmatched last)).1.named

end TagCalls.Lowering
