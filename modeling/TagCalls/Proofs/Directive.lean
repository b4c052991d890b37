import TagCalls.Directive
import TagCalls.Proofs.Text.Blank
import TagCalls.Proofs.Text.Language

/-!
Which directive counts. The language of directives is said without regard to how one is read, and the pattern
reads exactly this language. So the directive of a script is the one that begins earliest, whatever unfinished
ones stand before it. Main statement: `find?_earliest`.
-/
namespace TagCalls.Directive

open Text (Blank BlankStops IsName NameStops)

inductive Spells : Text → Text → Prop
  | comment {gap space name tail : Text} : Blank gap → space ≠ [] → Blank space → IsName name → Blank tail →
      Spells ("/**".toList ++ gap ++ "@jsx".toList ++ space ++ name ++ tail ++ "*/".toList) name

theorem blankStops_keyword (t : Text) : BlankStops ("@jsx".toList ++ t) :=
  Text.blankStops_cons.mpr (by decide)

theorem blankStops_end (t : Text) : BlankStops ("*/".toList ++ t) :=
  Text.blankStops_cons.mpr (by decide)

theorem nameStops_end (t : Text) : NameStops ("*/".toList ++ t) :=
  Text.nameStops_cons.mpr (by decide)

theorem read?_eq_some_iff {t name rest : Text} :
    read? t = some (name, rest) ↔ ∃ word, t = word ++ rest ∧ Spells word name := by
  constructor
  · intro read
    simp only [read?, Option.bind_eq_bind, Option.bind_eq_some_iff, Prod.exists, Option.pure_def,
      Option.some.injEq, Prod.mk.injEq] at read
    rcases read with ⟨opened, begins, spaced, keyword, named, spaces, _, behind, taken, _, ends, rfl, rfl⟩
    obtain rfl := Text.dropLiteral?_eq_some begins
    rcases Text.dropBlanks_eq_iff.mp (Text.dropLiteral?_eq_some keyword) with ⟨gap, rfl, front, _⟩
    rcases Text.dropSomeBlanks?_eq_some_iff.mp spaces with ⟨space, rfl, nonempty, between, _⟩
    rcases Text.takeName?_eq_some_iff.mp taken with ⟨rfl, letters, _⟩
    rcases Text.dropBlanks_eq_iff.mp (Text.dropLiteral?_eq_some ends) with ⟨tail, rfl, back, _⟩
    exact ⟨_, by simp only [List.append_assoc], .comment front nonempty between letters back⟩
  · intro spelled
    rcases spelled with ⟨word, rfl, spelled⟩
    cases spelled with
    | @comment gap space _ tail front nonempty between letters back =>
      have keyword := Text.dropBlanks_eq_iff.mpr ⟨gap, rfl, front,
        blankStops_keyword (space ++ (name ++ (tail ++ ("*/".toList ++ rest))))⟩
      have spaces := Text.dropSomeBlanks?_eq_some_iff.mpr ⟨space, rfl, nonempty, between,
        letters.blankStops (tail ++ ("*/".toList ++ rest))⟩
      have taken := Text.takeName?_append letters (Text.nameStops_append back (nameStops_end rest))
      have ends := Text.dropBlanks_eq_iff.mpr ⟨tail, rfl, back, blankStops_end rest⟩
      simp only [List.append_assoc, read?, Text.dropLiteral?_append, keyword, spaces, taken, ends,
        Option.bind_eq_bind, Option.bind_some, Option.pure_def]

theorem exact_pattern : pattern.Exact Spells := by
  intro t name rest
  exact read?_eq_some_iff

/-- The directive of a script with fewer than 2^32 bytes is the one that begins earliest, and its span is the
comment that holds it. A script without one falls back on another function. -/
theorem find?_earliest (fallback source : Text) (small : source.bytes ≤ Span.maxOffset) :
    (find? source = none ↔ ∀ word, word <:+: source → ¬ Spelled Spells word) ∧
      (find? source = none → resolve fallback source = fallback) ∧
      ∀ directive, find? source = some directive →
        ∃ before word after, Earliest (Spelled Spells) source before word after ∧
          Spells word directive.name ∧ directive.span = ⟨before.bytes, (before ++ word).bytes⟩ ∧
          resolve fallback source = directive.name := by
  refine ⟨?_, ?_, ?_⟩
  · rw [find?, Option.map_eq_none_iff, exact_pattern.first?_eq_none_iff]
  · intro absent
    rw [resolve, absent]
  · intro directive found
    have resolved : resolve fallback source = directive.name := by rw [resolve, found]
    rcases Option.map_eq_some_iff.mp found with ⟨⟨before, name, after⟩, first, rfl⟩
    rcases exact_pattern.earliest_of_first? first with ⟨word, spelled, earliest⟩
    have span : Span.of before.bytes (source.bytes - after.bytes) = ⟨before.bytes, (before ++ word).bytes⟩ := by
      have size : source.bytes = before.bytes + word.bytes + after.bytes := by
        rw [earliest.split, Text.bytes_append, Text.bytes_append]
      rw [Span.of, Span.clamp_of_le (by omega), Span.clamp_of_le (by omega), Text.bytes_append, size,
        Nat.add_sub_cancel]
    exact ⟨before, word, after, earliest, spelled, span, resolved⟩

def reopened : Text := "/**/** @jsx h */".toList

/-- The directive in a comment that is opened twice begins at the second opening. -/
theorem find?_reopened :
    reopened.bytes ≤ Span.maxOffset ∧ find? reopened = some ⟨['h'], ⟨3, 16⟩⟩ ∧
      ∃ before word after, Earliest (Spelled Spells) reopened before word after ∧ Spells word ['h'] ∧
        before.bytes = 3 ∧ resolve defaultName reopened = ['h'] := by
  have small : reopened.bytes ≤ Span.maxOffset := by decide
  have found : find? reopened = some ⟨['h'], ⟨3, 16⟩⟩ := by decide +kernel
  rcases (find?_earliest defaultName reopened small).2.2 _ found with
    ⟨before, word, after, earliest, spelled, span, resolved⟩
  exact ⟨small, found, before, word, after, earliest, spelled, (Span.mk.inj span).1.symm, resolved⟩

end TagCalls.Directive
