/-
What the URL of an asset says about the asset.

A valid configuration gives every build a pattern with a place for the path.  What is filled in
there is the path, with a digest or without one, and the suffix of the reference behind it.

* **`Assets.uses_path_of_validate`** — every pattern of a valid configuration has a place for the
  path, in development as in production;
* **`splitSuffix_append`** — what is filled in is cut into path and suffix at its first mark;
* **`url_determines_asset`** — so the asset, the digest and the suffix can be told from the URL.
-/
import StylesheetBuild.Config.Basic
import StylesheetBuild.Proofs.Digest.Recovery
import StylesheetBuild.Proofs.Rewrite.Address
import StylesheetBuild.Proofs.Text.Runs
import StylesheetBuild.Proofs.UrlPattern.Rendering

namespace StylesheetBuild

/-! ### Path and suffix -/

namespace Rewrite

/-- A path without `?` and `#`, and a suffix that is empty or starts with one of these, can be told
from the two together. -/
theorem splitSuffix_append {path suffix : Text} (hpath : ∀ c ∈ path, isMark c = false)
    (hsuffix : ∀ c, suffix.head? = some c → isMark c) :
    splitSuffix (path ++ suffix) = (path, suffix) := by
  have hall : ∀ c ∈ path, !isMark c := by
    intro c hc
    rw [hpath c hc]
    rfl
  have hstops : Text.Stops (!isMark ·) suffix := by
    intro c hc
    simp [hsuffix c hc]
  rw [splitSuffix_eq, Text.takeWhile_append_of_stops hall hstops,
    Text.dropWhile_append_of_stops hall hstops]

/-- A digest does not bring a `?` or `#` into a path. -/
theorem isMark_of_mem_insert {path digest : Text} (hpath : ∀ c ∈ path, isMark c = false)
    (hdigest : Digest.IsDigest digest) : ∀ c ∈ Digest.insert path digest, isMark c = false := by
  intro c hc
  rcases Digest.mem_insert hc with h | h | rfl
  · exact hpath c h
  · have hhex := hdigest.isHexDigit c h
    cases hmark : isMark c with
    | false => rfl
    | true =>
      simp only [isMark, Bool.or_eq_true, decide_eq_true_eq] at hmark
      rcases hmark with rfl | rfl <;> exact absurd hhex (by decide)
  · decide

end Rewrite

namespace Config

open Digest (IsDigest HasExtension insert)
open Rewrite (isMark)

/-! ### Patterns of a valid configuration -/

/-- Every pattern of valid settings has a place for the path. -/
theorem Assets.uses_path_of_validate {assets : Assets} (h : assets.validate = .ok ())
    (mode : Rewrite.Mode) : (assets.pattern mode).uses .path := by
  cases mode with
  | development => exact UrlPattern.uses_path_below _
  | production =>
    rw [pattern.eq_def]
    cases hpattern : assets.productionPattern with
    | none => exact UrlPattern.uses_path_below _
    | some pattern =>
      -- a pattern that is set has passed the check
      show UrlPattern.uses ⟨pattern⟩ .path = true
      by_contra hpath
      simp only [validate, hpattern, if_neg hpath] at h
      obtain ⟨-, -, h⟩ := exists_of_bind_eq_ok h
      cases hroot : assets.productionRoot with
      | none =>
        rw [hroot] at h
        exact absurd h (by simp)
      | some root =>
        rw [hroot] at h
        obtain ⟨-, -, h⟩ := exists_of_bind_eq_ok h
        exact absurd h (by simp)

/-! ### The asset of a URL -/

/-- **A URL determines its asset.**  In a valid configuration, two URLs of one module that are
equal have the same path and the same suffix, with digests as without them; and they have the same
digest if the path has an extension, so that new content gets a new URL. -/
theorem url_determines_asset (config : Config) (hvalid : config.validate = .ok ())
    (mode : Rewrite.Mode) (name : Text) (version : Option Text) (p q s t d e : Text)
    (hp : ∀ c ∈ p, isMark c = false) (hq : ∀ c ∈ q, isMark c = false)
    (hs : ∀ c, s.head? = some c → isMark c) (ht : ∀ c, t.head? = some c → isMark c)
    (hd : IsDigest d) (he : IsDigest e) :
    let url := (config.assets.pattern mode).render name version
    (url (insert p d ++ s) = url (insert q e ++ t) →
      p = q ∧ s = t ∧ ((∃ stem extension, HasExtension p stem extension) → d = e)) ∧
    (url (p ++ s) = url (q ++ t) → p = q ∧ s = t) := by
  intro url
  have huses : (config.assets.pattern mode).uses .path :=
    Assets.uses_path_of_validate ((validate_isOk_iff config).mp hvalid).1 mode
  constructor
  · intro hurl
    have hpath : insert p d ++ s = insert q e ++ t := UrlPattern.render_path_injective huses hurl
    have hsplit := congrArg Rewrite.splitSuffix hpath
    rw [Rewrite.splitSuffix_append (Rewrite.isMark_of_mem_insert hp hd) hs,
      Rewrite.splitSuffix_append (Rewrite.isMark_of_mem_insert hq he) ht, Prod.mk.injEq] at hsplit
    obtain ⟨hinsert, rfl⟩ := hsplit
    obtain ⟨rfl, hdigest⟩ := Digest.insert_injective (hd.length.trans he.length.symm) hinsert
    exact ⟨rfl, rfl, hdigest⟩
  · intro hurl
    have hpath : p ++ s = q ++ t := UrlPattern.render_path_injective huses hurl
    have hsplit := congrArg Rewrite.splitSuffix hpath
    rw [Rewrite.splitSuffix_append hp hs, Rewrite.splitSuffix_append hq ht,
      Prod.mk.injEq] at hsplit
    exact hsplit

/-- New content of a font under a pattern with braces of its own and two places for the path. -/
theorem url_determines_asset_font :
    let assets : Assets :=
      ⟨"/\x7bpath".toList, none, some "//cdn/\x7b\x7bpath\x7d?\x7bname\x7d=\x7bpath\x7d".toList,
        .contentHash⟩
    let config : Config := { standard Path.empty with assets := assets }
    let url := (config.assets.pattern .production).render "app".toList none
    config.validate = .ok () ∧
      url (insert "a.woff".toList "0123456789".toList ++ "#x".toList) ≠
        url (insert "a.woff".toList "abcdef0123".toList ++ "#x".toList) := by
  intro assets config url
  have hvalid : config.validate = .ok () := rfl
  refine ⟨hvalid, fun hurl => ?_⟩
  have h := (url_determines_asset config hvalid .production "app".toList none "a.woff".toList
    "a.woff".toList "#x".toList "#x".toList "0123456789".toList "abcdef0123".toList
    (by simp [isMark]) (by simp [isMark]) (by simp [isMark]) (by simp [isMark])
    ⟨rfl, List.all_eq_true.mp (by decide)⟩ ⟨rfl, List.all_eq_true.mp (by decide)⟩).1 hurl
  have hext : HasExtension "a.woff".toList "a".toList "woff".toList :=
    ⟨rfl, by decide, List.all_eq_true.mp (by decide)⟩
  exact absurd (h.2.2 ⟨_, _, hext⟩) (by decide)

end Config

end StylesheetBuild
