/-
The leading comment of a source text.

A source text may open, behind blanks, with a block comment.  It closes at the first `*/` behind
its opening, so `/*/` does not close itself and `/***/` does.

* **`body?_eq_some_iff`**: a body is followed by the first `*/` of the text.
-/
import StylesheetBuild.Text.Blank

namespace StylesheetBuild.Directive

open Text

/-- The text in front of the first `*/`. -/
def body? : Text → Option Text
  | '*' :: '/' :: _ => some []
  | c :: rest => (body? rest).map (c :: ·)
  | [] => none

/-- The block comment that opens `source`, with the blanks in front of it. -/
def leadingComment? (source : Text) : Option Text :=
  match source.dropWhile isBlank with
  | '/' :: '*' :: rest =>
    (body? rest).map fun body =>
      source.takeWhile isBlank ++ ['/', '*'] ++ body ++ ['*', '/']
  | _ => none

/-! ### The shape of a source text with a leading comment -/

/-- A body is followed by the first `*/` of the text. -/
theorem body?_eq_some_iff {text body : Text} :
    body? text = some body ↔
      ∃ rest, text = body ++ '*' :: '/' :: rest ∧ ¬ ['*', '/'] <:+: body ++ ['*'] := by
  induction text generalizing body with
  | nil => simp [body?]
  | cons c text ih =>
    constructor
    · intro h
      unfold body? at h
      split at h
      · rename_i rest heq
        simp only [Option.some.injEq] at h
        subst h
        simp only [heq]
        refine ⟨rest, rfl, ?_⟩
        exact fun hin => absurd hin.length_le (by simp)
      · rename_i d rest hne heq
        obtain ⟨rfl, rfl⟩ := List.cons.inj heq
        obtain ⟨inner, hi, rfl⟩ := Option.map_eq_some_iff.mp h
        obtain ⟨rest, rfl, hno⟩ := ih.mp hi
        refine ⟨rest, rfl, fun hin => ?_⟩
        rcases List.infix_cons_iff.mp hin with hp | hin
        · cases inner with
          | nil => simp at hp
          | cons e inner =>
            obtain ⟨hc, hp⟩ := List.cons_prefix_cons.mp hp
            obtain ⟨he, _⟩ := List.cons_prefix_cons.mp hp
            exact hne (inner ++ '*' :: '/' :: rest) hc.symm (by rw [← he]; rfl)
        · exact hno hin
      · simp at *
    · rintro ⟨rest, heq, hno⟩
      cases body with
      | nil =>
        simp only [List.nil_append] at heq
        simp [heq, body?]
      | cons d body =>
        obtain ⟨rfl, rfl⟩ := List.cons.inj heq
        have hinner : body? (body ++ '*' :: '/' :: rest) = some body :=
          ih.mpr ⟨rest, rfl, fun hin => hno (List.infix_cons hin)⟩
        unfold body?
        split
        · rename_i tail heq
          obtain ⟨rfl, heq⟩ := List.cons.inj heq
          refine absurd ?_ hno
          cases body with
          | nil => simp at heq
          | cons e body =>
            have he : e = '/' := (List.cons.inj (List.cons.inj heq).2).1
            exact List.infix_cons_iff.mpr (.inl ⟨body ++ ['*'], by rw [he]; rfl⟩)
        · rename_i e tail hne heq
          obtain ⟨rfl, rfl⟩ := List.cons.inj heq
          simp [hinner]
        · rename_i heq
          simp at heq

end StylesheetBuild.Directive
